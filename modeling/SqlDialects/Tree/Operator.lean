/-!
# Operators
-/

namespace SqlDialects

inductive BinaryOp where
  | add | sub | mul | div | mod | concat
  | eq | notEq | lt | ltEq | gt | gtEq
  | like | notLike | ilike | notIlike | rlike | notRlike
  | and | or
  deriving DecidableEq

namespace BinaryOp

/-- How tightly an operator binds its operands. -/
def precedence : BinaryOp → Nat
  | .or => 1
  | .and => 2
  | .eq | .notEq | .lt | .ltEq | .gt | .gtEq
  | .like | .notLike | .ilike | .notIlike | .rlike | .notRlike => 4
  | .add | .sub | .concat => 5
  | .mul | .div | .mod => 6

/-- The operator that a preceding `NOT` turns a pattern operator into. -/
def negated? : BinaryOp → Option BinaryOp
  | .like => some .notLike
  | .ilike => some .notIlike
  | .rlike => some .notRlike
  | _ => none

end BinaryOp

inductive UnaryOp where
  | neg | not
  deriving DecidableEq

end SqlDialects
