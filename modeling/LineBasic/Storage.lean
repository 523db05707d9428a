import Std.Data.ExtTreeMap
import LineBasic.Error

/-!
# Storage

Files are texts by name. In a storage of names any text is a name. In a folder a
name is a path: a slash divides it into components, `.` is the folder itself,
and there are no folders inside.

* `Storage.read`, `Storage.write`: the text of a file.
* `FileFault.toError`: the error that a user sees.
-/

namespace LineBasic

/-- Why a file cannot be read or written. -/
inductive FileFault where
  /-- There is no such file. -/
  | missing
  | refused (reason : String)
  deriving DecidableEq, Repr

namespace FileFault

def isFolder : FileFault := refused "Is a directory (os error 21)"

def notFolder : FileFault := refused "Not a directory (os error 20)"

def nameTooLong : FileFault := refused "File name too long (os error 36)"

def nulInName : FileFault := refused "file name contained an unexpected NUL byte"

/-- The error for a file of the given name. -/
def toError (file : String) : FileFault → Error
  | missing => .fileNotFound file
  | refused reason => .fileRefused file reason

end FileFault

/-- How a name means a file. -/
inductive Naming where
  /-- Every name is a file of its own. -/
  | names
  /-- A name is a path in a folder. -/
  | paths
  deriving DecidableEq, Repr

/-- Files by name. -/
structure Storage where
  files : Std.ExtTreeMap String String := ∅
  naming : Naming := .names

namespace Storage

/-- The most bytes of a component of a path. -/
def componentLimit : Nat := 255

/-- The most bytes of a path. -/
def pathLimit : Nat := 4095

/-- Why a name in a path is refused before it is looked up, given the components
behind it. A file that is to be written must not have a slash behind its name;
this is noticed first, and then a name that is too long. -/
def refusal? (writing : Bool) (name : String) (rest : List String) : Option FileFault :=
  if writing && !rest.isEmpty && rest.all (· == "") then some .isFolder
  else if componentLimit < name.utf8ByteSize then some .nameTooLong
  else none

/-- What lies outside the folder: folders can be named, and nothing else is
there. -/
def locateOutside (writing : Bool) : List String → Except FileFault (Option String)
  | [] => .ok none
  | c :: rest =>
    if c = "" ∨ c = "." ∨ c = ".." then locateOutside writing rest
    else .error ((refusal? writing c rest).getD .missing)

/-- The file that the components of a path mean, or none for a folder. -/
def locateIn (isFile : String → Bool) (writing : Bool) : List String → Except FileFault (Option String)
  | [] => .ok none
  | c :: rest =>
    if c = "" ∨ c = "." then locateIn isFile writing rest
    else if c = ".." then locateOutside writing rest
    else
      match refusal? writing c rest with
      | some fault => .error fault
      | none =>
        if rest.isEmpty then .ok (some c)
        else if isFile c then .error .notFolder
        else .error .missing

/-- The file that a path means, or none for a folder. -/
def locatePath (isFile : String → Bool) (writing : Bool) (path : String) :
    Except FileFault (Option String) :=
  let components := path.splitOn "/"
  if path.toList.contains '\x00' then .error .nulInName
  else if path.isEmpty then .error .missing
  else if pathLimit < path.utf8ByteSize then .error .nameTooLong
  else if path.toList.head? = some '/' then locateOutside writing components
  else locateIn isFile writing components

/-- The file that a name means. -/
def locate (s : Storage) (writing : Bool) (name : String) : Except FileFault String :=
  match s.naming with
  | .names => .ok name
  | .paths =>
    match locatePath (s.files.contains ·) writing name with
    | .ok (some file) => .ok file
    | .ok none => .error .isFolder
    | .error e => .error e

/-- The text of a file. -/
def read (s : Storage) (name : String) : Except FileFault String :=
  match s.locate false name with
  | .error e => .error e
  | .ok file =>
    match s.files[file]? with
    | some text => .ok text
    | none => .error .missing

/-- The storage with a text in a file, in place of what the file held. -/
def write (s : Storage) (name text : String) : Except FileFault Storage :=
  (s.locate true name).map fun file => { s with files := s.files.insert file text }

end Storage

end LineBasic
