import Octet.Text.Lines

/-!
# Paths

The parts of a path between slashes, how long they may be, and the extension of the file that a
path names.
-/
namespace Octet.Path

def parts (path : String) : List (List Char) := Text.pieces '/' path.toList

/-- A path is longer than any path may be. -/
def isTooLong (path : String) : Bool := 4096 ≤ path.utf8ByteSize

/-- A part is longer than the name of any file or folder may be. -/
def isTooLongName (part : List Char) : Bool := 256 ≤ Text.byteLength part

/-- The last part that names something. A path that ends above its last name has no file name. -/
def fileName? (path : String) : Option (List Char) :=
  let names := (parts path).filter fun part => part != [] && part != ['.']
  names.getLast?.filter (· != ['.', '.'])

/-- A file name in front of and behind its last dot. A dot that starts the name and is its last one
does not count. -/
def splitName (name : List Char) : List Char × Option (List Char) :=
  match name.reverse.dropWhile (· != '.') with
  | _ :: c :: cs =>
    ((c :: cs).reverse, some (name.reverse.takeWhile (· != '.')).reverse)
  | _ => (name, none)

def extension? (path : String) : Option String :=
  (fileName? path).bind fun name => (splitName name).2.map String.ofList

/-- The same path with another extension, for a path that ends in a file name. The old extension is
taken off first, and its dot stays. A name that starts with two dots and has no third one, as `..z`,
then leads to the folder above, and no extension is put on a folder. -/
def withExtension (path extension : String) : String :=
  let name := (parts path).getLastD []
  let folder := path.toList.take (path.toList.length - name.length)
  let stem := (splitName name).1
  String.ofList (folder ++ stem ++ if stem = ['.'] then ['.'] else '.' :: extension.toList)

end Octet.Path
