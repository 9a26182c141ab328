/-!
# Reading files

What a file holds counts as text only if it is UTF-8.  Errors are worded as the
operating system words them, with its number for them.
-/

namespace Scriptlet

/-- Why a file has no text. -/
inductive FileError where
  | missing
  | denied
  | notDirectory
  | directory
  | nameTooLong
  | notText
  | unreadable (reason : String)
deriving DecidableEq, Repr

namespace FileError

def message : FileError -> String
  | missing => "No such file or directory (os error 2)"
  | denied => "Permission denied (os error 13)"
  | notDirectory => "Not a directory (os error 20)"
  | directory => "Is a directory (os error 21)"
  | nameTooLong => "File name too long (os error 36)"
  | notText => "stream did not contain valid UTF-8"
  | unreadable reason => reason

end FileError

def textOfBytes (bytes : ByteArray) : Except FileError String :=
  match String.fromUTF8? bytes with
  | some text => .ok text
  | none => .error .notText

end Scriptlet
