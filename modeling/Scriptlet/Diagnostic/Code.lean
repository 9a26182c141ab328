/-!
# Error codes

Every kind of error and warning has a code with a title and a category.
-/

namespace Scriptlet

inductive ErrorCategory where
  | lexical | grammar | resolution | type | runtime | optimizer | assertion
deriving DecidableEq, Repr

namespace ErrorCategory

def text : ErrorCategory -> String
  | lexical => "Lexical"
  | grammar => "Syntax"
  | resolution => "Resolution"
  | type => "Type"
  | runtime => "Runtime"
  | optimizer => "Optimizer"
  | assertion => "Assertion"

end ErrorCategory

structure ErrorCode where
  code : String
  title : String
  category : ErrorCategory
deriving DecidableEq, Repr

namespace ErrorCode

def all : List ErrorCode :=
  [⟨"A0001", "assertion failed", .assertion⟩,
    ⟨"L0001", "unexpected character", .lexical⟩,
    ⟨"O0001", "mismatched types", .type⟩,
    ⟨"O0002", "invalid operands", .type⟩,
    ⟨"O0003", "optimization changed behavior", .optimizer⟩,
    ⟨"P0001", "unexpected token", .grammar⟩,
    ⟨"P0002", "duplicate identifier", .resolution⟩,
    ⟨"P0003", "undefined identifier", .resolution⟩,
    ⟨"P0004", "malformed parameter list", .grammar⟩,
    ⟨"P0005", "invalid constant expression", .grammar⟩,
    ⟨"P0006", "mismatched constant type", .type⟩,
    ⟨"P0007", "invalid literal", .grammar⟩,
    ⟨"P0008", "not assignable", .resolution⟩,
    ⟨"P0009", "not callable", .resolution⟩,
    ⟨"P0010", "arity mismatch", .type⟩,
    ⟨"P0011", "async target type mismatch", .type⟩,
    ⟨"P0012", "chained comparison", .grammar⟩,
    ⟨"P0013", "inconsistent function table", .resolution⟩,
    ⟨"P0014", "invalid extern type", .type⟩,
    ⟨"P0050", "skipped token", .grammar⟩,
    ⟨"R0001", "mismatched types", .type⟩,
    ⟨"R0002", "uninitialized variable", .runtime⟩,
    ⟨"R0003", "unknown async target", .runtime⟩,
    ⟨"R0004", "division by zero", .runtime⟩,
    ⟨"R0005", "integer overflow", .runtime⟩,
    ⟨"R0006", "invalid operands", .type⟩,
    ⟨"R0007", "native function failed", .runtime⟩,
    ⟨"R0008", "async call failed", .runtime⟩,
    ⟨"R0009", "arity mismatch", .type⟩,
    ⟨"R0010", "return outside of function", .runtime⟩,
    ⟨"R0011", "async call never awaited", .runtime⟩]

def find? (code : String) : Option ErrorCode :=
  all.find? (·.code == code)

end ErrorCode
end Scriptlet
