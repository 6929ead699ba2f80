import Scriptling.Text.Quoted
import Scriptling.Text.Utf8

namespace Scriptling.CommandLine

inductive SourceFault where
  | missing
  | underFile
  | longName
  | directory
  | notText (damage : Text.Utf8.Damage)
deriving DecidableEq, Repr

def SourceFault.report (path : String) (fault : SourceFault) : String :=
  let name := Text.quoteName path
  let (step, cause) :=
    match fault with
    | .missing => ("Failed to open file " ++ name, "No such file or directory (os error 2)")
    | .underFile => ("Failed to open file " ++ name, "Not a directory (os error 20)")
    | .longName => ("Failed to open file " ++ name, "File name too long (os error 36)")
    | .directory => ("Failed to map file " ++ name, "No such device (os error 19)")
    | .notText damage => ("File " ++ name ++ " is not valid UTF-8", damage.message)
  "Error: " ++ step ++ "\n\nCaused by:\n    " ++ cause ++ "\n"

def sourceText (bytes : Except SourceFault (List UInt8)) : Except SourceFault String :=
  match bytes with
  | .error fault => .error fault
  | .ok bytes =>
    match Text.Utf8.decode bytes with
    | .ok text => .ok text
    | .error damage => .error (.notText damage)

inductive Entry where
  | directory
  | file (bytes : List UInt8)
deriving DecidableEq, Repr

/-- Where a walk is counted from: the directory it began in, some directory above that, or the
root of all paths. -/
inductive Origin where
  | here
  | above
  | root
deriving DecidableEq, Repr

/-- A place, by the names that lead to it from an origin, outermost first. -/
structure Place where
  origin : Origin
  names : List String
deriving DecidableEq, Repr

namespace Place

def down (place : Place) (name : String) : Place := { place with names := place.names ++ [name] }

/-- The directory around a place. The root is around itself. -/
def up : Place → Place
  | ⟨.here, []⟩ => ⟨.above, []⟩
  | ⟨origin, names⟩ => ⟨origin, names.dropLast⟩

end Place

def cutPath (path : String) : List String :=
  let cut := path.toList.foldr (fun c parts =>
    match c, parts with
    | '/', parts => [] :: parts
    | c, part :: parts => (c :: part) :: parts
    | c, [] => [[c]]) [[]]
  cut.map String.ofList

def pathLimit : Nat := 4095

def nameLimit : Nat := 255

structure Directory where
  files : List (String × List UInt8)

namespace Directory

def namedFiles (d : Directory) : List (List String × List UInt8) :=
  d.files.map fun (path, bytes) => ((cutPath path).filter fun p => p ≠ "" ∧ p ≠ ".", bytes)

/-- What stands at a place. Of what lies outside the directory only that is known which is found
everywhere: the directories above, and a few under the root. -/
def entry? (d : Directory) : Place → Option Entry
  | ⟨.here, names⟩ =>
    match d.namedFiles.lookup names with
    | some bytes => some (.file bytes)
    | none =>
      if names = [] ∨ d.namedFiles.any fun (path, _) => names.isPrefixOf path then some .directory
      else none
  | ⟨.above, []⟩ | ⟨.root, []⟩ | ⟨.root, ["dev"]⟩ | ⟨.root, ["tmp"]⟩ => some .directory
  | ⟨.root, ["dev", "null"]⟩ => some (.file [])
  | _ => none

/-- One name further along a path. Nothing leads on from a file, not even an empty name. -/
def enter (d : Directory) (place : Place) (name : String) : Except SourceFault Place :=
  match d.entry? place with
  | none => .error .missing
  | some (.file _) => .error .underFile
  | some .directory =>
    if name = "" ∨ name = "." then .ok place
    else if name = ".." then .ok place.up
    else if nameLimit < name.utf8ByteSize then .error .longName
    else .ok (place.down name)

def find (d : Directory) (path : String) : Except SourceFault Place :=
  if pathLimit < path.utf8ByteSize then .error .longName
  else
    match cutPath path with
    | [""] => .error .missing
    | "" :: names => names.foldlM d.enter ⟨.root, []⟩
    | names => names.foldlM d.enter ⟨.here, []⟩

def read (d : Directory) (path : String) : Except SourceFault (List UInt8) :=
  match d.find path with
  | .error fault => .error fault
  | .ok place =>
    match d.entry? place with
    | none => .error .missing
    | some .directory => .error .directory
    | some (.file bytes) => .ok bytes

end Directory

end Scriptling.CommandLine
