import SqlDialects.Lexer.Tokenize
import SqlDialects.Parser.Query

/-!
# Reading statements
-/

namespace SqlDialects

namespace Parser

variable (d : Dialect)

/-- Expressions and queries that nest less than `n` deep. -/
def nestedWithin : Nat → Nested
  | 0 => ⟨fun _ => unexpected .expression, unexpected .expression⟩
  | n + 1 => ⟨expressionOf d (nestedWithin n), queryOf d (nestedWithin n)⟩

/-- Expressions and queries. Each level of nesting passes a token, so that the tokens left bound
the depth. -/
def nested : Nested where
  expression minPower := do
    (nestedWithin d ((← get).rest.length + 1)).expression minPower
  query := do
    (nestedWithin d ((← get).rest.length + 1)).query

def expression (minPower : Nat) : Parser Expr :=
  (nested d).expression minPower

def query : Parser Select :=
  (nested d).query

/-- A statement, with or without a semicolon, and nothing behind it. -/
def statement : Parser Statement := do
  let query ← query d
  let _ ← accept (.symbol .semicolon)
  unless (← kind) = .endOfInput do unexpected (.token .endOfInput)
  return .select query

end Parser

/-- Reads a statement from a stream, and says where reading stopped. -/
def TokenStream.statement (d : Dialect) (s : TokenStream) :
    Except SyntaxError Statement × TokenStream :=
  match Parser.statement d s with
  | .ok statement s' => (.ok statement, s')
  | .error e s' => (.error e, s')

end SqlDialects
