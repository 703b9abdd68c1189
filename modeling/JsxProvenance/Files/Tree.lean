import JsxProvenance.Files.Path
import JsxProvenance.Text.Quoted
import JsxProvenance.Text.Utf8

/-!
Files in folders, as a run of the program finds them, and what reading and writing at a path do.
-/

namespace JsxProvenance

/-- Why no file is read at a path. -/
inductive FileFault where
  | missing
  | denied
  | notFolder
  | isFolder
  | nameTooLong
  /-- The path holds a null character, which no file has in its name. -/
  | nullInName
  deriving DecidableEq, Repr, Inhabited

namespace FileFault

def code? : FileFault → Option Nat
  | missing => some 2
  | denied => some 13
  | notFolder => some 20
  | isFolder => some 21
  | nameTooLong => some 36
  | nullInName => none

def reason : FileFault → String
  | missing => "No such file or directory"
  | denied => "Permission denied"
  | notFolder => "Not a directory"
  | isFolder => "Is a directory"
  | nameTooLong => "File name too long"
  | nullInName => "embedded null byte"

/-- The text of a fault at a path. A fault of the system has its number and the path. -/
def message (f : FileFault) (p : Path) : String :=
  match f.code? with
  | some code => "[Errno " ++ toString code ++ "] " ++ f.reason ++ ": " ++ Quoted.text p.text
  | none => f.reason

end FileFault

/-- What stands at a place. -/
inductive FileEntry where
  | file (bytes : List UInt8)
  | folder
  /-- Something that cannot be read. -/
  | blocked (fault : FileFault)
  deriving DecidableEq, Repr, Inhabited

/-- The files that a run can see. A place is the list of names from the root. -/
structure FileTree where
  /-- The place of the working folder. -/
  workingFolder : List String := []
  entries : List (List String × FileEntry) := []
  deriving DecidableEq, Repr, Inhabited

namespace FileTree

/-- The longest name that a file can have, in bytes. -/
def longestName : Nat := 255

def longestPath : Nat := 4095

/-- What stands at a place. Whatever leads to an entry or to the working folder is a folder. -/
def entry? (t : FileTree) (place : List String) : Option FileEntry :=
  match t.entries.lookup place with
  | some entry => some entry
  | none =>
      if place.isPrefixOf t.workingFolder || t.entries.any fun e => place.isPrefixOf e.1 then
        some .folder
      else none

/-- Goes on from a place by names. Two dots lead to the folder around, and the root is its own. -/
def follow (t : FileTree) (place : List String) : List String → Except FileFault (List String)
  | [] => .ok place
  | name :: rest =>
      match t.entry? place with
      | some .folder =>
          if name = ".." then t.follow place.dropLast rest
          else if longestName < name.utf8ByteSize then .error .nameTooLong
          else t.follow (place ++ [name]) rest
      | some (.file _) => .error .notFolder
      | some (.blocked fault) => .error fault
      | none => .error .missing

def start (t : FileTree) (p : Path) : List String :=
  if p.root.isEmpty then t.workingFolder else []

/-- The place that a path leads to. Only what is on the way has to be there. -/
def locate (t : FileTree) (p : Path) : Except FileFault (List String) :=
  if '\x00' ∈ p.text.toList then .error .nullInName
  else if longestPath < p.text.utf8ByteSize then .error .nameTooLong
  else t.follow (t.start p) p.names

def read (t : FileTree) (p : Path) : Except FileFault (List UInt8) := do
  match t.entry? (← t.locate p) with
  | some (.file bytes) => .ok bytes
  | some .folder => .error .isFolder
  | some (.blocked fault) => .error fault
  | none => .error .missing

def isAbsence : FileFault → Bool
  | .missing => true
  | .notFolder => true
  | .nullInName => true
  | _ => false

/-- Whether anything stands at a path. Any other fault on the way is no answer. -/
def isThere (t : FileTree) (p : Path) : Except FileFault Bool :=
  match t.locate p with
  | .ok place =>
      .ok <| match t.entry? place with
        | some (.blocked fault) => !isAbsence fault
        | found => found.isSome
  | .error fault => if isAbsence fault then .ok false else .error fault

/-- Puts an entry at a place, instead of the one that is there. -/
def put (t : FileTree) (place : List String) (entry : FileEntry) : FileTree :=
  { t with entries := (place, entry) :: t.entries.filter (·.1 != place) }

/-- Writes a file. A path that leads nowhere changes nothing. -/
def write (t : FileTree) (p : Path) (bytes : List UInt8) : FileTree :=
  match t.locate p with
  | .ok place => t.put place (.file bytes)
  | .error _ => t

def writeAll (t : FileTree) (files : List (Path × List UInt8)) : FileTree :=
  files.foldl (fun t (p, bytes) => t.write p bytes) t

/-- The place that a path spells, if all on the way are folders. -/
def spelledPlace (t : FileTree) (p : Path) : List String :=
  p.names.foldl (fun place name => if name = ".." then place.dropLast else place ++ [name])
    (t.start p)

def withFound (t : FileTree) (p : Path) (entry : FileEntry) : FileTree :=
  t.put (t.spelledPlace p) entry

end FileTree
end JsxProvenance
