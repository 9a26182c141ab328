/-!
# Structured documents

Documents of texts, numbers, truth values, lists and records, and their text in
JSON with an indent of two spaces.
-/

namespace Scriptlet
namespace Text

inductive Document where
  | text (value : String)
  | number (value : Nat)
  | truth (value : Bool)
  | list (items : List Document)
  | record (fields : List (String × Document))

namespace Document

def hexDigit (n : Nat) : Char :=
  if n < 10 then Char.ofNat ('0'.toNat + n) else Char.ofNat ('a'.toNat + (n - 10))

/-- A character as it stands between quotes.  Only quotes, backslashes and
control characters are escaped. -/
def escapeChar (c : Char) : List Char :=
  if c == '"' then ['\\', '"']
  else if c == '\\' then ['\\', '\\']
  else if c == '\n' then ['\\', 'n']
  else if c == '\r' then ['\\', 'r']
  else if c == '\t' then ['\\', 't']
  else if c == '\x08' then ['\\', 'b']
  else if c == '\x0c' then ['\\', 'f']
  else if c.toNat < 0x20 then
    ['\\', 'u', '0', '0', hexDigit (c.toNat / 16), hexDigit (c.toNat % 16)]
  else [c]

def quoted (value : String) : String :=
  String.ofList ('"' :: value.toList.flatMap escapeChar ++ ['"'])

def indent (depth : Nat) : String :=
  String.ofList (List.replicate (2 * depth) ' ')

/-- Items on lines of their own between two brackets; nothing between them when
there are none. -/
def bracketed (opening closing : String) (depth : Nat) (items : List String) : String :=
  match items with
  | [] => opening ++ closing
  | items =>
      opening ++ "\n" ++ ",\n".intercalate (items.map (indent (depth + 1) ++ ·)) ++ "\n" ++
        indent depth ++ closing

mutual

def renderAt (depth : Nat) : Document -> String
  | text value => quoted value
  | number value => toString value
  | truth value => if value then "true" else "false"
  | list items => bracketed "[" "]" depth (renderItems (depth + 1) items)
  | record fields => bracketed "\x7b" "\x7d" depth (renderFields (depth + 1) fields)

def renderItems (depth : Nat) : List Document -> List String
  | [] => []
  | item :: rest => renderAt depth item :: renderItems depth rest

def renderFields (depth : Nat) : List (String × Document) -> List String
  | [] => []
  | (name, value) :: rest =>
      (quoted name ++ ": " ++ renderAt depth value) :: renderFields depth rest

end

def render (d : Document) : String :=
  renderAt 0 d

/-- A field that is left out when there is no value for it. -/
def optional {α : Type} (name : String) (f : α -> Document) :
    Option α -> List (String × Document)
  | none => []
  | some value => [(name, f value)]

end Document
end Text
end Scriptlet
