/-! A folder of files, and the reading of a file by its path. A path is followed part by part, and
each part is looked up in the place that the parts before it lead to. -/
namespace Ember
set_option autoImplicit false

/-- Why a file cannot be read as text. -/
inductive FileFault
  | missing
  | denied
  | notFolder
  | isFolder
  | nameTooLong
  | notText
  deriving DecidableEq, Repr

def FileFault.message : FileFault → String
  | missing => "No such file or directory (os error 2)"
  | denied => "Permission denied (os error 13)"
  | notFolder => "Not a directory (os error 20)"
  | isFolder => "Is a directory (os error 21)"
  | nameTooLong => "File name too long (os error 36)"
  | notText => "stream did not contain valid UTF-8"

/-- Files with their texts; a name is the list of its parts. The folders in the folder are those
that the names go through. -/
structure Folder where
  files : List (List String × String)

namespace Folder

/-- Names whose parts are separated by slashes. -/
def ofNamed (files : List (String × String)) : Folder :=
  ⟨files.map fun f => (f.1.splitOn "/", f.2)⟩

/-- Where a path leads: to a name in the folder, or out of it, to a folder of which no name is
known. -/
inductive Place
  | inside (name : List String)
  | outside
  deriving DecidableEq, Repr

def Place.parent : Place → Place
  | inside [] => outside
  | inside (part :: rest) => inside (part :: rest).dropLast
  | outside => outside

/-- The text of a file. -/
def text? (d : Folder) : Place → Option String
  | .inside name => d.files.lookup name
  | .outside => none

/-- A name is known if it is the name of a file or of a folder on the way to one. -/
def knows (d : Folder) (name : List String) : Bool := d.files.any fun f => name.isPrefixOf f.1

/-- The most bytes in a part of a path. -/
def partLimit : Nat := 255

/-- The number of bytes from which a path is too long. -/
def pathLimit : Nat := 4096

/-- Looks up one part. Only a folder has parts, even the part that stays where it is. -/
def enter (d : Folder) (place : Place) (part : String) : Except FileFault Place :=
  if (d.text? place).isSome then .error .notFolder
  else if part = "" || part = "." then .ok place
  else if part = ".." then .ok place.parent
  else if partLimit < part.utf8ByteSize then .error .nameTooLong
  else
    match place with
    | .inside name =>
      if d.knows (name ++ [part]) then .ok (.inside (name ++ [part])) else .error .missing
    | .outside => .error .missing

/-- A path starts in the folder, unless it is empty or starts with a slash. -/
def follow (d : Folder) (path : String) : Except FileFault Place :=
  if pathLimit ≤ path.utf8ByteSize then .error .nameTooLong
  else
    match path.splitOn "/" with
    | [""] => .error .missing
    | "" :: parts => parts.foldlM d.enter .outside
    | parts => parts.foldlM d.enter (.inside [])

/-- The text of the file that a path leads to. -/
def read (d : Folder) (path : String) : Except FileFault String :=
  match d.follow path with
  | .error e => .error e
  | .ok place =>
    match d.text? place with
    | some text => .ok text
    | none => .error .isFolder

end Folder
end Ember
