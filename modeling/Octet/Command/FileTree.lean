import Octet.Command.Host
import Octet.Command.Path

/-!
# Trees of files

A file system as a value: what there is at each place below the root, and a working folder in which
paths start that do not start at the root.
-/
namespace Octet

/-- The names on the way from the root. -/
abbrev Place := List (List Char)

inductive Device where
  /-- Nothing is found there, and nothing that is written is kept. -/
  | null
  /-- There is never room for anything. -/
  | full
  /-- There is no terminal behind the name. -/
  | terminal
  /-- A stream of the running command. -/
  | stream (stream : Stream)
  deriving DecidableEq, Repr

inductive Node where
  | folder
  | file (bytes : List UInt8)
  | device (device : Device)
  deriving DecidableEq, Repr

structure FileTree where
  /-- What was put at which place. The way to such a place leads through folders. -/
  entries : List (Place × Node)
  deriving DecidableEq, Repr

namespace FileTree

def node? (tree : FileTree) (place : Place) : Option Node :=
  match tree.entries.lookup place with
  | some node => some node
  | none =>
    if place = [] || tree.entries.any (place.isPrefixOf ·.1) then some .folder else none

/-- Put something at a place, instead of what is there. -/
def insert (tree : FileTree) (place : Place) (node : Node) : FileTree :=
  if (tree.entries.lookup place).isSome then
    ⟨tree.entries.map fun entry => if entry.1 = place then (place, node) else entry⟩
  else ⟨tree.entries ++ [(place, node)]⟩

/-- Make a folder unless something is there. -/
def makeFolder (tree : FileTree) (place : Place) : FileTree :=
  if (tree.node? place).isSome then tree else tree.insert place .folder

/-! ## What is there before any file -/

def workingFolder : Place := ["tmp".toList, "work".toList]

/-- The folders that a system has under its root. -/
def rootFolders : List String :=
  ["bin", "boot", "dev", "etc", "home", "lib", "media", "mnt", "opt", "proc", "root", "run", "sbin",
    "srv", "sys", "tmp", "usr", "var"]

/-- The devices of a system that has neither input nor a terminal. The streams of a command have
several names. -/
def devices : List (List String × Device) :=
  [(["dev", "null"], .null), (["dev", "full"], .full), (["dev", "stdin"], .null),
    (["dev", "tty"], .terminal), (["dev", "stdout"], .stream .out),
    (["dev", "stderr"], .stream .err)] ++
  [["dev", "fd"], ["proc", "self", "fd"]].flatMap fun folder =>
    [(folder ++ ["0"], .null), (folder ++ ["1"], .stream .out), (folder ++ ["2"], .stream .err)]

/-- An empty working folder in a system with its devices. -/
def initial : FileTree :=
  ⟨rootFolders.map (fun name => ([name.toList], .folder)) ++
    devices.map (fun (names, device) => (names.map String.toList, .device device)) ++
    [(workingFolder, .folder)]⟩

/-! ## Paths to places -/

/-- Where a path starts: at the root if a slash comes first. -/
def origin (path : String) : Place := if path.toList.head? = some '/' then [] else workingFolder

/-- Follow the parts of a path and make the folders that are not there. A folder that the path
leaves upwards is made like any other. -/
def reach (tree : FileTree) (place : Place) : List (List Char) → FileTree × Place
  | [] => (tree, place)
  | part :: rest =>
    if part = [] || part = ['.'] then tree.reach place rest
    else if part = ['.', '.'] then (tree.makeFolder place).reach place.dropLast rest
    else tree.reach (place ++ [part]) rest

/-- The file tree with these paths and contents, of which a later one replaces an earlier one. -/
def ofList (files : List (String × List UInt8)) : FileTree :=
  files.foldl (fun tree (path, bytes) =>
    let (tree, place) := tree.reach (origin path) (Path.parts path)
    tree.insert place (.file bytes)) initial

/-- Follow the parts of a path. Every part needs a folder to start from, and an empty one stays
there, so that a closing slash asks for a folder. There is nothing above the root but the root. The
length of a name matters once its folder has been found. -/
def walk (tree : FileTree) (place : Place) : List (List Char) → Except FileError Place
  | [] => .ok place
  | part :: rest =>
    match tree.node? place with
    | none => .error .notFound
    | some .folder =>
      if part = [] || part = ['.'] then tree.walk place rest
      else if part = ['.', '.'] then tree.walk place.dropLast rest
      else if Path.isTooLongName part then .error .nameTooLong
      else tree.walk (place ++ [part]) rest
    | some _ => .error .notFolder

/-- Follow these parts of a path. A path that is too long as a whole leads nowhere. -/
def follow (tree : FileTree) (path : String) (parts : List (List Char)) : Except FileError Place :=
  if Path.isTooLong path then .error .nameTooLong else tree.walk (origin path) parts

/-! ## Reading and writing -/

def find (tree : FileTree) (path : String) : Except FileError Node := do
  let place ← tree.follow path (Path.parts path)
  match tree.node? place with
  | some node => .ok node
  | none => .error .notFound

/-- Nothing is read from a device. Reading from one without room would never end, so that it counts
as a lack of room. -/
def read (tree : FileTree) (path : String) : Except FileError (List UInt8) := do
  match ← tree.find path with
  | .file bytes => .ok bytes
  | .folder => .error .isFolder
  | .device .full => .error .noRoom
  | .device .terminal => .error .noDevice
  | .device _ => .ok []

/-- The place to which a path leads that is written to. Only a path that ends in a name can be
written to, and its folder has to be there. -/
def target (tree : FileTree) (path : String) : Except FileError Place := do
  let closed := (Path.parts path).reverse.dropWhile (· = [])
  let slash := (Path.parts path).length != closed.length
  let folder ← tree.follow path (closed.tail.reverse ++ [['.']])
  match closed.head? with
  | none => .error .isFolder
  | some name =>
    if slash || name = ['.'] || name = ['.', '.'] then .error .isFolder
    else if Path.isTooLongName name then .error .nameTooLong
    else .ok (folder ++ [name])

/-- The files in the working folder: their paths from there, and their contents. -/
def toList (tree : FileTree) : List (String × List UInt8) :=
  tree.entries.filterMap fun (place, node) =>
    match workingFolder.isPrefixOf? place, node with
    | some names, .file bytes => some (String.ofList (['/'].intercalate names), bytes)
    | _, _ => none

end FileTree

end Octet
