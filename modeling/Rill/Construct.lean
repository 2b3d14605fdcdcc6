/-!
# Constructs

What a piece of a program is, over the parts it is made of. The parts are ids in a parse tree and
nested phrases in its unfolded form, so a construct is a type of trees with one layer and the parts
as its parameter.

Three classes of constructs decide where each may stand.

* A type is `void`, `u64`, a name or a function type.
* A value is a type, an integer, a function, a sum or a call.
* An expression, which a terminator may close, is a value, a binding, an assignment, a print or a
  return.
-/

namespace Rill

/-- One layer of a program, with parts of type `α`. -/
inductive Construct (α : Type) where
  /-- The whole source. -/
  | root (children : List α)
  | ident (name : String)
  | int (value : UInt64)
  | void
  | u64
  /-- A pair of parentheses. -/
  | paren (children : List α)
  /-- A pair of braces. -/
  | curly (children : List α)
  | call (callee args : α)
  | function (params result body : α)
  | functionType (params result : α)
  | sum (left right : α)
  | printU64 (operand : α)
  | returnWith (operand : Option α)
  /-- A name with a type, a value or both. -/
  | binding (name : α) (type? value? : Option α)
  | assign (target value : α)
  /-- An expression closed by a semicolon. -/
  | statement (operand : α)
  /-- An expression closed by a comma. -/
  | separator (operand : α)
deriving DecidableEq, Repr

namespace Construct

variable {α β : Type}

/-- Whether the construct may stand where a type is expected. -/
def isType : Construct α → Bool
  | void | u64 | ident _ | functionType .. => true
  | _ => false

/-- Whether the construct may stand where a value is expected. -/
def isValue : Construct α → Bool
  | int _ | function .. | sum .. | call .. => true
  | construct => construct.isType

/-- Whether a terminator may close the construct. -/
def isExpression : Construct α → Bool
  | binding .. | assign .. | printU64 _ | returnWith _ => true
  | construct => construct.isValue

/-- Whether the construct is a name. -/
def isIdent : Construct α → Bool
  | ident _ => true
  | _ => false

/-- Whether the construct is a pair of parentheses. -/
def isParen : Construct α → Bool
  | paren _ => true
  | _ => false

/-- Whether the construct is a pair of braces. -/
def isCurly : Construct α → Bool
  | curly _ => true
  | _ => false

/-- The name of the construct in messages and outlines. -/
def name : Construct α → String
  | root _ => "root"
  | ident _ => "identifier"
  | int _ => "integer"
  | void => "void"
  | u64 => "u64"
  | paren _ => "parenthesis group"
  | curly _ => "block"
  | call .. => "call"
  | function .. => "function"
  | functionType .. => "function type"
  | sum .. => "sum"
  | printU64 _ => "print_u64"
  | returnWith _ => "return"
  | binding .. => "binding"
  | assign .. => "assignment"
  | statement _ => "statement"
  | separator _ => "separator"

/-- The direct parts, in the order of the source. -/
def parts : Construct α → List α
  | root children | paren children | curly children => children
  | ident _ | int _ | void | u64 => []
  | call callee args => [callee, args]
  | function params result body => [params, result, body]
  | functionType params result => [params, result]
  | sum left right => [left, right]
  | printU64 operand | statement operand | separator operand => [operand]
  | returnWith operand => operand.toList
  | binding name type? value? => name :: (type?.toList ++ value?.toList)
  | assign target value => [target, value]

/-- Reads every part with `f`, from left to right, and stops at the first failure. -/
def mapM {m : Type → Type} [Monad m] (f : α → m β) : Construct α → m (Construct β)
  | root children => return root (← children.mapM f)
  | ident name => return ident name
  | int value => return int value
  | void => return void
  | u64 => return u64
  | paren children => return paren (← children.mapM f)
  | curly children => return curly (← children.mapM f)
  | call callee args => return call (← f callee) (← f args)
  | function params result body => return function (← f params) (← f result) (← f body)
  | functionType params result => return functionType (← f params) (← f result)
  | sum left right => return sum (← f left) (← f right)
  | printU64 operand => return printU64 (← f operand)
  | returnWith none => return returnWith none
  | returnWith (some operand) => return returnWith (some (← f operand))
  | binding name none none => return binding (← f name) none none
  | binding name (some type) none => return binding (← f name) (some (← f type)) none
  | binding name none (some value) => return binding (← f name) none (some (← f value))
  | binding name (some type) (some value) =>
      return binding (← f name) (some (← f type)) (some (← f value))
  | assign target value => return assign (← f target) (← f value)
  | statement operand => return statement (← f operand)
  | separator operand => return separator (← f operand)

end Construct

end Rill
