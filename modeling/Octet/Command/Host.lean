/-!
# Hosts

What commands need of the system on which they run: its files, and two streams for text. Commands
are written against any monad that supplies them, so that the same command works on a real system
and on one that is held as a value.
-/
namespace Octet

inductive FileError where
  | notFound
  | notFolder
  | isFolder
  | nameTooLong
  | noRoom
  | noDevice
  /-- The bytes are no UTF-8. -/
  | notText
  | other (message : String)
  deriving DecidableEq, Repr

def FileError.message : FileError → String
  | .notFound => "No such file or directory (os error 2)"
  | .notFolder => "Not a directory (os error 20)"
  | .isFolder => "Is a directory (os error 21)"
  | .nameTooLong => "File name too long (os error 36)"
  | .noRoom => "No space left on device (os error 28)"
  | .noDevice => "No such device or address (os error 6)"
  | .notText => "stream did not contain valid UTF-8"
  | .other message => message

inductive Stream where
  /-- What a command has to say. -/
  | out
  /-- Traces of a run. -/
  | err
  deriving DecidableEq, Repr

class Host (m : Type → Type) where
  /-- A file or folder of this path is there. -/
  isPresent : String → m Bool
  read : String → m (Except FileError (List UInt8))
  /-- Put these bytes into a file, which is created if it is not there. -/
  write : String → List UInt8 → m (Except FileError Unit)
  /-- Show a text on a stream, after all that has been shown there. -/
  print : Stream → String → m Unit

variable {m : Type → Type} [Monad m] [Host m]

/-- Read a file as text. -/
def readText (path : String) : m (Except FileError String) := do
  match ← Host.read path with
  | .error error => return .error error
  | .ok bytes =>
    match String.fromUTF8? ⟨bytes.toArray⟩ with
    | some text => return .ok text
    | none => return .error .notText

end Octet
