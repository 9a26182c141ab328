import Scriptlet.File.Error
import Scriptlet.Text.Cut

/-!
# Files and directories

A path leads through a tree of directories, name by name, from the root or from
the place where it is followed.  Whatever a further name or a slash comes behind
has to be a directory.
-/

namespace Scriptlet

inductive FileTree where
  | file (bytes : ByteArray)
  | directory (entries : List (String × FileTree))

instance : Inhabited FileTree :=
  ⟨.directory []⟩

/-- A file or directory below the directories that lead to it, nearest first. -/
structure FilePlace where
  here : FileTree
  above : List FileTree

namespace FilePlace

def nameLimit : Nat := 255

def pathLimit : Nat := 4095

def root (p : FilePlace) : FilePlace :=
  match p.above.getLast? with
  | some top => { here := top, above := [] }
  | none => p

def up (p : FilePlace) : FilePlace :=
  match p.above with
  | [] => p
  | parent :: rest => { here := parent, above := rest }

/-- Follows one name.  The empty name, which stands before a slash that follows
another and behind a slash at the end, stays in its directory. -/
def step (p : FilePlace) (name : String) : Except FileError FilePlace :=
  match p.here with
  | .file _ => .error .notDirectory
  | .directory entries =>
      if name = "" ∨ name = "." then
        .ok p
      else if name = ".." then
        .ok p.up
      else if nameLimit < name.utf8ByteSize then
        .error .nameTooLong
      else
        match entries.lookup name with
        | some tree => .ok { here := tree, above := p.here :: p.above }
        | none => .error .missing

def steps (p : FilePlace) : List String -> Except FileError FilePlace
  | [] => .ok p
  | name :: rest =>
      match p.step name with
      | .ok next => next.steps rest
      | .error e => .error e

def find (p : FilePlace) (path : String) : Except FileError FilePlace :=
  if path = "" then
    .error .missing
  else if pathLimit < path.utf8ByteSize then
    .error .nameTooLong
  else
    let start := if path.toList.head? = some '/' then p.root else p
    start.steps ((Text.cutAt '/' path.toList).map String.ofList)

def text (p : FilePlace) : Except FileError String :=
  match p.here with
  | .file bytes => textOfBytes bytes
  | .directory _ => .error .directory

def read (p : FilePlace) (path : String) : Except FileError String :=
  match p.find path with
  | .ok place => place.text
  | .error e => .error e

end FilePlace
end Scriptlet
