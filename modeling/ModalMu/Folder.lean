import ModalMu.Text.Lines

/-!
# Folders of text files

A folder holds texts under names. A path is read from left to right: an empty part and a single dot
stay where they are, two dots leave the folder, and any other part has to be the name of a file, at
which the path ends. Outside of the folder nothing is known to be there.

* `Unreadable` — why a path gives no text, and how this is said;
* `Folder.read` — the text at a path.
-/

namespace ModalMu

/-- **Why a path gives no text.** -/
inductive Unreadable where
  /-- nothing is there -/
  | missing
  /-- it is not for the reader -/
  | denied
  /-- the path goes on after the name of a file -/
  | notFolder
  /-- the path ends at a folder -/
  | folder
  /-- a name, or the path, is longer than a name or a path may be -/
  | nameTooLong
  /-- the bytes are no text -/
  | notText
  /-- anything else -/
  | other (reason : String)
  deriving DecidableEq, Repr

/-- The reason in words, with the system's number for it. -/
def Unreadable.message : Unreadable → String
  | .missing => "No such file or directory (os error 2)"
  | .denied => "Permission denied (os error 13)"
  | .notFolder => "Not a directory (os error 20)"
  | .folder => "Is a directory (os error 21)"
  | .nameTooLong => "File name too long (os error 36)"
  | .notText => "stream did not contain valid UTF-8"
  | .other reason => reason

/-- Texts under names. -/
structure Folder where
  /-- the names, each with its text -/
  files : List (String × String)

namespace Folder

/-- The folder that holds nothing. -/
def empty : Folder := ⟨[]⟩

/-- The most bytes that a name may have. -/
def nameLimit : Nat := 255

/-- The number of bytes from which on a path is too long. -/
def pathLimit : Nat := 4096

/-- Follows the parts of a path. -/
def follow (d : Folder) : List String → Except Unreadable String
  | [] => .error .folder
  | part :: rest =>
    if part = "" ∨ part = "." then d.follow rest
    else if part = ".." then empty.follow rest
    else if nameLimit < part.utf8ByteSize then .error .nameTooLong
    else match d.files.lookup part with
      | none => .error .missing
      | some text => if rest.isEmpty then .ok text else .error .notFolder

/-- The parts of a path between its slashes. -/
def parts (path : String) : List String := (Text.pieces '/' path.toList).map String.ofList

/-- **The text at a path**, which starts at the folder unless it starts with a slash. -/
def read (d : Folder) (path : String) : Except Unreadable String :=
  if pathLimit ≤ path.utf8ByteSize then .error .nameTooLong
  else if path.toList.head? = some '/' then empty.follow (parts path)
  else d.follow (parts path)

end Folder

end ModalMu
