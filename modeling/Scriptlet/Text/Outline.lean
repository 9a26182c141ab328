/-!
# Outlines

Values written out part by part, each part on a line of its own and four spaces
deeper than the whole.  A comma follows every part.
-/

namespace Scriptlet
namespace Text

inductive Outline where
  | word (text : String)
  | tuple (name : String) (parts : List Outline)
  | record (name : String) (fields : List (String × Outline))
  | list (items : List Outline)

namespace Outline

def margin (depth : Nat) : String :=
  String.ofList (List.replicate (4 * depth) ' ')

def enclosed (opening closing : String) (depth : Nat) (parts : List String) : String :=
  match parts with
  | [] => opening ++ closing
  | parts =>
      opening ++ "\n" ++ String.join (parts.map fun part => margin (depth + 1) ++ part ++ ",\n") ++
        margin depth ++ closing

mutual

def renderAt (depth : Nat) : Outline -> String
  | word text => text
  | tuple name parts => enclosed (name ++ "(") ")" depth (renderParts (depth + 1) parts)
  | record name fields =>
      enclosed (name ++ " \x7b") "\x7d" depth (renderFields (depth + 1) fields)
  | list items => enclosed "[" "]" depth (renderParts (depth + 1) items)

def renderParts (depth : Nat) : List Outline -> List String
  | [] => []
  | part :: rest => renderAt depth part :: renderParts depth rest

def renderFields (depth : Nat) : List (String × Outline) -> List String
  | [] => []
  | (name, value) :: rest => (name ++ ": " ++ renderAt depth value) :: renderFields depth rest

end

def render (o : Outline) : String :=
  renderAt 0 o

def number (n : Nat) : Outline :=
  word (toString n)

def optional {α : Type} (f : α -> Outline) : Option α -> Outline
  | none => word "None"
  | some a => tuple "Some" [f a]

end Outline
end Text
end Scriptlet
