/-!
# Error codes

Every kind of error has a code; codes are grouped by what the error is about.
-/

namespace Rill

/-- What an error is about. -/
inductive ErrorCategory where
  | syntactic
  | resolution
  | typing
  | structural
  | runtime
  | backend
deriving DecidableEq, Repr

/-- The name of a category. -/
def ErrorCategory.name : ErrorCategory → String
  | syntactic => "Syntax"
  | resolution => "Resolution"
  | typing => "Type"
  | structural => "Structure"
  | runtime => "Runtime"
  | backend => "Backend"

/-- A code with its title and category. -/
structure ErrorCode where
  code : String
  title : String
  category : ErrorCategory
deriving DecidableEq, Repr

namespace ErrorCode

/-- All codes, in order. -/
def all : List ErrorCode :=
  [⟨"E0001", "unexpected character", .syntactic⟩,
   ⟨"E0002", "invalid integer literal", .syntactic⟩,
   ⟨"E0100", "unmatched closing bracket", .syntactic⟩,
   ⟨"E0101", "unclosed bracket", .syntactic⟩,
   ⟨"E0102", "unexpected token", .syntactic⟩,
   ⟨"E0103", "malformed function", .syntactic⟩,
   ⟨"E0104", "missing operand", .syntactic⟩,
   ⟨"E0105", "malformed binding", .syntactic⟩,
   ⟨"E0106", "invalid assignment target", .syntactic⟩,
   ⟨"E0107", "misplaced terminator", .syntactic⟩,
   ⟨"E0200", "undefined name", .resolution⟩,
   ⟨"E0300", "mismatched types", .typing⟩,
   ⟨"E0301", "return type mismatch", .typing⟩,
   ⟨"E0302", "bare return from a non-void function", .typing⟩,
   ⟨"E0303", "expected u64", .typing⟩,
   ⟨"E0304", "value is not callable", .typing⟩,
   ⟨"E0305", "arity mismatch", .typing⟩,
   ⟨"E0306", "expected a type", .typing⟩,
   ⟨"E0307", "expected a value", .typing⟩,
   ⟨"E0400", "top-level item is not a binding", .structural⟩,
   ⟨"E0401", "binding has no value", .structural⟩,
   ⟨"E0402", "invalid function argument", .structural⟩,
   ⟨"E0403", "defaulted argument", .structural⟩,
   ⟨"E0404", "not a statement", .structural⟩,
   ⟨"E0405", "unsupported statement", .structural⟩,
   ⟨"E0406", "unsupported callee", .structural⟩,
   ⟨"E0407", "call arguments", .structural⟩,
   ⟨"E0500", "missing entry point", .runtime⟩,
   ⟨"E0501", "entry point takes arguments", .runtime⟩,
   ⟨"E0502", "output failure", .runtime⟩,
   ⟨"E0503", "main returned a value", .runtime⟩,
   ⟨"E0600", "missing entry point", .backend⟩,
   ⟨"E0601", "unsupported by the assembly backend", .backend⟩,
   ⟨"E0602", "assembler failed", .backend⟩]

/-- The entry of a code. -/
def find? (code : String) : Option ErrorCode :=
  all.find? fun entry => entry.code == code

end ErrorCode

end Rill
