/-! A directory of files as a run sees it, and what reading a path in it gives. Of the directories around it
only their being there is known. -/
namespace PowRules

inductive FileError where
  | absent
  | directory
  | notDirectory
  | nameTooLong
  | notUtf8
  | other (text : String)
deriving DecidableEq

def FileError.message : FileError → String
  | absent => "No such file or directory (os error 2)"
  | directory => "Is a directory (os error 21)"
  | notDirectory => "Not a directory (os error 20)"
  | nameTooLong => "File name too long (os error 36)"
  | notUtf8 => "stream did not contain valid UTF-8"
  | other text => text

/-- What the files of a directory hold, by their names. -/
structure Directory where
  files : List (String × ByteArray)

namespace Directory

/-- Where the parts of a path lead. -/
inductive Place where
  /-- The directory itself. -/
  | inside
  /-- One of the directories around it. -/
  | around
  | file (content : ByteArray)

def maxName : Nat := 255

def maxPath : Nat := 4095

/-- Go on from a directory to a name in it. A name that is too long is refused before it is looked up. -/
def enter (directory : Directory) (place : Place) (name : String) : Except FileError Place :=
  if maxName < name.utf8ByteSize then .error .nameTooLong
  else
    match place, directory.files.lookup name with
    | .inside, some content => .ok (.file content)
    | _, _ => .error .absent

/-- Go one part of a path further. An empty part and a single dot stay where they are, and two dots go up.
No part leads on from a file. -/
def step (directory : Directory) : Place → String → Except FileError Place
  | .file _, _ => .error .notDirectory
  | place, "" | place, "." => .ok place
  | _, ".." => .ok .around
  | place, name => directory.enter place name

/-- Read the file at a path. Its parts are taken from the left, and the first fault counts. -/
def read (directory : Directory) (path : String) : Except FileError ByteArray :=
  if path = "" then .error .absent
  else if maxPath < path.utf8ByteSize then .error .nameTooLong
  else
    let start : Place := if path.toList.head? = some '/' then .around else .inside
    match (path.splitOn "/").foldlM directory.step start with
    | .ok (.file content) => .ok content
    | .ok _ => .error .directory
    | .error error => .error error

end Directory

end PowRules
