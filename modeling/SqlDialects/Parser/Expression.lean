import SqlDialects.Parser.DataType

/-!
# Reading expressions

Operators are read by binding powers: an operator takes its left operand if its left power is at
least that of the context, and its right operand extends over all operators of higher power.
Productions take the parsers of what is nested in them as an argument.
-/

namespace SqlDialects

namespace Parser

/-- The parsers of what may be nested in a construct: expressions, by the least binding power of
their operators, and queries. -/
structure Nested where
  expression : Nat → Parser Expr
  query : Parser Select

/-- The left and right binding power of a token behind an operand. -/
def infixPower? : TokenKind → Option (Nat × Nat)
  | .keyword .OR => some (1, 2)
  | .keyword .AND => some (3, 4)
  | .symbol .eq | .symbol .notEq | .symbol .lt | .symbol .ltEq | .symbol .gt | .symbol .gtEq
  | .keyword .IS | .keyword .IN | .keyword .BETWEEN | .keyword .LIKE | .keyword .ILIKE
  | .keyword .RLIKE | .keyword .NOT => some (7, 8)
  | .symbol .plus | .symbol .minus | .symbol .concat => some (9, 10)
  | .symbol .star | .symbol .slash | .symbol .percent => some (11, 12)
  | _ => none

/-- The operators before an operand, with the binding power of the operand. -/
def unaryOp? : TokenKind → Option (UnaryOp × Nat)
  | .symbol .minus => some (.neg, 13)
  | .keyword .NOT => some (.not, 5)
  | _ => none

/-- The binary operators other than the pattern operators. -/
def binaryOp? : TokenKind → Option BinaryOp
  | .symbol .plus => some .add
  | .symbol .minus => some .sub
  | .symbol .star => some .mul
  | .symbol .slash => some .div
  | .symbol .percent => some .mod
  | .symbol .concat => some .concat
  | .symbol .eq => some .eq
  | .symbol .notEq => some .notEq
  | .symbol .lt => some .lt
  | .symbol .ltEq => some .ltEq
  | .symbol .gt => some .gt
  | .symbol .gtEq => some .gtEq
  | .keyword .AND => some .and
  | .keyword .OR => some .or
  | _ => none

/-- The pattern operators, with the feature that a dialect needs for them. -/
def patternOp? : TokenKind → Option (BinaryOp × Option Dialect.Feature)
  | .keyword .LIKE => some (.like, none)
  | .keyword .ILIKE => some (.ilike, some .ilike)
  | .keyword .RLIKE => some (.rlike, some .rlike)
  | _ => none

/-- The literals that are written as words. -/
def wordLiteral? : Keyword → Option Literal
  | .TRUE => some (.boolean true)
  | .FALSE => some (.boolean false)
  | .NULL => some .null
  | _ => none

/-- The literal that a token is. -/
def literal? (d : Dialect) : TokenKind → Option Literal
  | .integer value => some (.integer value)
  | .number text => some (.number text)
  | .string body quote =>
    if quote = '\x22' ∧ ¬ d.doubleQuotedStrings then none else some (.string body quote)
  | .keyword word => wordLiteral? word
  | .identifier _ | .symbol _ | .endOfInput => none

variable (d : Dialect) (g : Nested)

def expressionList : Parser (List Expr) :=
  commaList (g.expression 0)

/-! ## Orderings -/

def direction : Parser (Option Direction) := do
  if ← accept (.keyword .ASC) then return some .asc
  else if ← accept (.keyword .DESC) then return some .desc
  else return none

def nullOrdering : Parser (Option NullOrdering) := do
  if ← accept (.keyword .NULLS) then
    if ← accept (.keyword .FIRST) then return some .first
    else if ← accept (.keyword .LAST) then return some .last
    else unexpected .firstOrLast
  else return none

def orderItem : Parser OrderItem := do
  let key ← g.expression 0
  let direction ← direction
  return ⟨key, direction, ← nullOrdering⟩

def orderItems : Parser (List OrderItem) :=
  commaList (orderItem g)

/-! ## Calls -/

/-- `DISTINCT`, `ALL`, or neither. -/
def distinctOrAll : Parser Bool := do
  if ← accept (.keyword .DISTINCT) then return true
  else
    let _ ← accept (.keyword .ALL)
    return false

def window : Parser Window :=
  parenthesized do
    let partition ← if ← accept (.keyword .PARTITION) then do
        expect (.keyword .BY)
        expressionList g
      else pure []
    let order ← if ← accept (.keyword .ORDER) then do
        expect (.keyword .BY)
        orderItems g
      else pure []
    return ⟨partition, order⟩

/-- The arguments of a call: none, a lone star, or expressions. -/
def arguments (distinct : Bool) : Parser (List Expr) := do
  if !distinct && (← kind) = .symbol .rightParen then return []
  else if (← kind) = .symbol .star && (← second) = .symbol .rightParen then
    advance
    return [.wildcard []]
  else expressionList g

/-- `IGNORE NULLS`, if both words stand there. -/
def ignoreNulls : Parser Bool := do
  if (← kind) = .keyword .IGNORE && (← second) = .keyword .NULLS then
    advance
    advance
    return true
  else return false

/-- `OVER` and a window, if a parenthesis follows the word. -/
def optionalWindow : Parser (Option Window) := do
  if (← kind) = .keyword .OVER && (← second) = .symbol .leftParen then
    advance
    return some (← window g)
  else return none

/-- What follows the name of a function that is called. -/
def call (name : String) : Parser Call := do
  expect (.symbol .leftParen)
  let distinct ← distinctOrAll
  let arguments ← arguments g distinct
  expect (.symbol .rightParen)
  let ignoreNulls ← ignoreNulls
  return ⟨name, arguments, distinct, ignoreNulls, ← optionalWindow g⟩

/-! ## Operands -/

/-- One more dotted part of a column, or the star that ends a wildcard. -/
def pathPart : Expr → Parser (Option Expr)
  | .column qualifier last => do
    if ← accept (.symbol .dot) then
      if ← accept (.symbol .star) then return some (.wildcard (qualifier ++ [last]))
      else return some (.column (qualifier ++ [last]) (← name d))
    else return none
  | _ => return none

/-- What follows a leading name: a call, a column with its qualifier, or a qualified wildcard. -/
def named (first : String) : Parser Expr := do
  if (← kind) = .symbol .leftParen then return .call (← call g first)
  else iterate (pathPart d) (.column [] first)

/-- An operand that begins with a name. -/
def namedOperand : Parser Expr := do
  match (← current).identifier? d with
  | some first =>
    advance
    named d g first
  | none => unexpected .expression

def cast : Parser Expr := do
  expect (.keyword .CAST)
  parenthesized do
    let operand ← g.expression 0
    expect (.keyword .AS)
    return .cast operand (← dataType d)

def whenClause : Parser (Option WhenClause) := do
  if ← accept (.keyword .WHEN) then
    let condition ← g.expression 0
    expect (.keyword .THEN)
    return some ⟨condition, ← g.expression 0⟩
  else return none

def caseOf : Parser Expr := do
  expect (.keyword .CASE)
  let operand ← if (← kind) = .keyword .WHEN then pure none else some <$> g.expression 0
  let clauses ← many (whenClause g)
  if clauses.isEmpty then unexpected (.token (.keyword .WHEN))
  let otherwise ← if ← accept (.keyword .ELSE) then some <$> g.expression 0 else pure none
  expect (.keyword .END)
  return .caseOf operand clauses otherwise

/-- A query or an expression in parentheses. -/
def group : Parser Expr :=
  parenthesized do
    if (← kind) = .keyword .SELECT then return .subquery (← g.query)
    else return .paren (← g.expression 0)

/-- An operand without operators before it. `LEFT` and `RIGHT` are functions where a parenthesis
follows. -/
def primary : Parser Expr := do
  let t ← current
  match literal? d t.kind with
  | some value =>
    advance
    return .literal value
  | none =>
    match t.kind with
    | .symbol .star =>
      advance
      return .wildcard []
    | .symbol .leftParen => group g
    | .keyword .CAST => cast d g
    | .keyword .CASE => caseOf g
    | .keyword .EXISTS =>
      advance
      return .existsRow (← parenthesized g.query)
    | .keyword .LEFT | .keyword .RIGHT =>
      if (← second) = .symbol .leftParen then
        advance
        return .call (← call g t.lexeme)
      else namedOperand d g
    | _ => namedOperand d g

def operand : Parser Expr := do
  match unaryOp? (← kind) with
  | some (op, power) =>
    advance
    return .unary op (← g.expression power)
  | none => primary d g

/-! ## What follows an operand -/

/-- The values behind `IN`: a lone query, or expressions. -/
def inList (left : Expr) (negated : Bool) : Parser Expr := do
  let list ← parenthesized do
    if (← kind) = .keyword .SELECT then return [.subquery (← g.query)] else expressionList g
  return .inList left list negated

def between (left : Expr) (power : Nat) (negated : Bool) : Parser Expr := do
  let low ← g.expression power
  expect (.keyword .AND)
  return .between left low (← g.expression power) negated

/-- The pattern operator at the current token, which the dialect has to have. -/
def pattern (left : Expr) (power : Nat) (op : BinaryOp) (feature : Option Dialect.Feature)
    (negated : Bool) : Parser Expr := do
  if let some f := feature then require d f
  advance
  return .binary left (if negated then op.negated?.getD op else op) (← g.expression power)

/-- A predicate behind the keyword that negates it, or nothing where none follows the keyword. -/
def negatedPredicate (left : Expr) (power : Nat) : Parser (Option Expr) := do
  let next ← second
  match next with
  | .keyword .IN =>
    advance
    advance
    return some (← inList g left true)
  | .keyword .BETWEEN =>
    advance
    advance
    return some (← between g left power true)
  | _ =>
    match patternOp? next with
    | some (op, feature) =>
      advance
      return some (← pattern d g left power op feature true)
    | none => return none

/-- Extends an operand by the operator at the current token, unless it binds too loosely. -/
def extend (minPower : Nat) (left : Expr) : Parser (Option Expr) := do
  let k ← kind
  match infixPower? k with
  | none => return none
  | some (leftPower, power) =>
    if leftPower < minPower then return none
    else
      match k with
      | .keyword .IS =>
        advance
        let negated ← accept (.keyword .NOT)
        expect (.keyword .NULL)
        return some (.isNull left negated)
      | .keyword .IN =>
        advance
        return some (← inList g left false)
      | .keyword .BETWEEN =>
        advance
        return some (← between g left power false)
      | .keyword .NOT => negatedPredicate d g left power
      | _ =>
        match patternOp? k, binaryOp? k with
        | some (op, feature), _ => return some (← pattern d g left power op feature false)
        | none, some op =>
          advance
          return some (.binary left op (← g.expression power))
        | none, none => return none

/-- An expression whose operators bind at least as tightly as `minPower`. -/
def expressionOf (minPower : Nat) : Parser Expr := do
  iterate (extend d g minPower) (← operand d g)

end Parser

end SqlDialects
