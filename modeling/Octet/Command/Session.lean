import Octet.Command.FileTree
import Octet.Text.Decode

/-!
# Sessions

A host as a value: a file system, and what its streams have shown. A stream is among the devices of
the file system, so that a file that is written there is shown between the texts before and after.
-/
namespace Octet

structure Session where
  files : FileTree
  /-- All that has been shown so far. -/
  out : String
  /-- All traces so far. -/
  err : String
  deriving DecidableEq, Repr

namespace Session

/-- A session in which nothing has been shown. -/
def start (files : FileTree) : Session := ⟨files, "", ""⟩

def print (session : Session) (stream : Stream) (text : String) : Session :=
  match stream with
  | .out => { session with out := session.out ++ text }
  | .err => { session with err := session.err ++ text }

/-- Write to a device. What a stream shows of bytes is their text. -/
def writeDevice (session : Session) (device : Device) (bytes : List UInt8) :
    Except FileError Session :=
  match device with
  | .null => .ok session
  | .terminal => .error .noDevice
  | .full => if bytes = [] then .ok session else .error .noRoom
  | .stream stream => .ok (session.print stream (String.ofList (Text.decode bytes)))

def write (session : Session) (path : String) (bytes : List UInt8) : Except FileError Session := do
  let place ← session.files.target path
  match session.files.node? place with
  | some .folder => .error .isFolder
  | some (.device device) => session.writeDevice device bytes
  | some (.file _) | none =>
    .ok { session with files := session.files.insert place (.file bytes) }

instance : Host (StateM Session) where
  isPresent path := return ((← get).files.find path).isOk
  read path := return (← get).files.read path
  write path bytes := do
    match (← get).write path bytes with
    | .ok session => set session; return .ok ()
    | .error error => return .error error
  print stream text := modify (·.print stream text)

end Session

end Octet
