import SqlDialects.Dialect

/-!
# Syntax errors
-/

namespace SqlDialects

/-- What the grammar has a place for. -/
inductive Expected where
  | token (kind : TokenKind)
  | identifier
  | expression
  | dataType
  | integer
  | firstOrLast
  deriving DecidableEq

def Expected.text : Expected → String
  | .token (.keyword k) => k.text
  | .token kind => kind.describe
  | .identifier => "identifier"
  | .expression => "expression"
  | .dataType => "data type"
  | .integer => "integer"
  | .firstOrLast => "FIRST or LAST"

/-- Why tokens are no statement of a dialect. -/
inductive SyntaxCause where
  | unexpected (expected : Expected) (found : TokenKind)
  /-- A construct that the dialect does not have. -/
  | unsupported (feature : Dialect.Feature) (dialect : String)
  /-- `SORT BY` behind a clause that the dialect does not combine it with. -/
  | sortNotAllowed (clause : OrderingKind) (dialect : String)
  /-- A second ordering clause that no dialect combines with the first. -/
  | cannotFollow (second first : OrderingKind)
  | parameterOutOfRange
  deriving DecidableEq

namespace SyntaxCause

def message : SyntaxCause → String
  | .unexpected expected .endOfInput => s!"Unexpected end of input: expected {expected.text}"
  | .unexpected expected found =>
    s!"Unexpected token: expected {expected.text}, found {found.describe}"
  | .unsupported feature dialect => s!"{feature.text} is not supported by the {dialect} dialect"
  | .sortNotAllowed clause dialect =>
    s!"SORT BY cannot follow {Mark.phrase clause.marks} in the {dialect} dialect"
  | .cannotFollow second first =>
    s!"{Mark.phrase second.marks} cannot follow {Mark.phrase first.marks}"
  | .parameterOutOfRange => "type parameter out of range"

def expected? : SyntaxCause → Option Expected
  | .unexpected expected _ => some expected
  | _ => none

def found? : SyntaxCause → Option TokenKind
  | .unexpected _ found => some found
  | _ => none

end SyntaxCause

structure SyntaxError where
  cause : SyntaxCause
  /-- The token at which the parser stopped. -/
  span : Span
  deriving DecidableEq

end SqlDialects
