import Scriptlet.Program.Tables

/-!
# Names given from outside

A host hands names to a program before its text is read.  What stands behind a
function is left open here: the parser needs only its signature.
-/

namespace Scriptlet

inductive Extern (body : Type u) where
  | const (name : String) (type : ValueType) (value : Value)
  | var (name : String) (type : ValueType) (default : Option Value)
  | function (name : String) (params : Option (List (String × ValueType)))
      (result : ValueType) (body : body)

namespace Extern

variable {body : Type u}

def name : Extern body -> String
  | const name _ _ => name
  | var name _ _ => name
  | function name _ _ _ => name

def body? : Extern body -> Option body
  | function _ _ _ body => some body
  | _ => none

/-- The bodies of the functions, in the order in which a program numbers them. -/
def bodies (externs : List (Extern body)) : List body :=
  externs.filterMap body?

end Extern
end Scriptlet
