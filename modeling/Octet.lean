import Octet.Command.Session
import Octet.Main
import Octet.Proofs.BoundedRun
import Octet.Proofs.SourceSimulation
import Octet.Proofs.InPlace
import Octet.Proofs.Faults
import Octet.Proofs.Invariants
import Octet.Proofs.StraightLine
import Octet.Proofs.ErrorLocation
import Octet.Proofs.Concatenation
import Octet.Proofs.RenamedSource
import Octet.Proofs.Listing
import Octet.Proofs.Bookkeeping
import Octet.Proofs.Spacing
import Octet.Proofs.PrintedText
import Octet.Proofs.CompiledRun
import Octet.Proofs.PrintEvents
import Octet.Proofs.CarriageReturns
import Octet.Proofs.OutputLines
import Octet.Proofs.Tracing
import Octet.Proofs.Moves
import Octet.Proofs.Resumption
import Octet.Proofs.Footprint
import Octet.Proofs.Accounts
import Octet.Proofs.Comparison
import Octet.Proofs.BlockCopy
import Octet.Proofs.Denotation
import Octet.Proofs.Segmentation
import Octet.Proofs.FirstError
import Octet.Proofs.LastWrites
import Octet.Proofs.StyledTraces
import Octet.Proofs.QuotedLines
import Octet.Proofs.DraftTables
import Octet.Proofs.OperandTexts
import Octet.Proofs.OperandLists
