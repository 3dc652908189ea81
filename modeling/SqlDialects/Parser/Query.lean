import SqlDialects.Parser.Expression

/-!
# Reading queries
-/

namespace SqlDialects

namespace Parser

variable (d : Dialect) (g : Nested)

def selectItem : Parser SelectItem := do
  let value ← g.expression 0
  return ⟨value, ← optionalAlias d⟩

/-! ## Relations -/

/-- A query in parentheses, or a table with or without a schema. -/
def relation : Parser Relation := do
  if (← kind) = .symbol .leftParen then
    let query ← parenthesized g.query
    return .derived query (← optionalAlias d)
  else
    let first ← identifier d
    if ← accept (.symbol .dot) then
      let table ← name d
      return .table (some first) table (← optionalAlias d)
    else return .table none first (← optionalAlias d)

/-- The keywords that a join may begin with. -/
def startsJoin : TokenKind → Bool
  | .keyword .JOIN | .keyword .INNER | .keyword .LEFT | .keyword .RIGHT | .keyword .FULL
  | .keyword .CROSS => true
  | _ => false

/-- The join that `LEFT` begins. -/
def leftJoinType : Parser JoinType := do
  match ← kind with
  | .keyword .SEMI =>
    require d .leftSemiJoin
    advance
    return .leftSemi
  | .keyword .ANTI =>
    require d .leftAntiJoin
    advance
    return .leftAnti
  | _ =>
    let _ ← accept (.keyword .OUTER)
    return .left

/-- The keywords of a join, `JOIN` the last of them. -/
def joinType : Parser JoinType := do
  let type ← match ← kind with
    | .keyword .INNER => do
      advance
      pure .inner
    | .keyword .LEFT => do
      advance
      leftJoinType d
    | .keyword .RIGHT => do
      advance
      let _ ← accept (.keyword .OUTER)
      pure .right
    | .keyword .FULL => do
      advance
      let _ ← accept (.keyword .OUTER)
      pure .full
    | .keyword .CROSS => do
      advance
      pure .cross
    | _ => pure .inner
  expect (.keyword .JOIN)
  return type

/-- One join. A `CROSS JOIN` has neither condition nor columns. -/
def join : Parser (Option Join) := do
  if startsJoin (← kind) then
    let type ← joinType d
    let relation ← relation d g
    if type = .cross then return some ⟨type, relation, none, []⟩
    else if ← accept (.keyword .ON) then
      return some ⟨type, relation, some (← g.expression 0), []⟩
    else if ← accept (.keyword .USING) then
      return some ⟨type, relation, none, ← parenthesized (identifierList d)⟩
    else return some ⟨type, relation, none, []⟩
  else return none

def source : Parser Source := do
  let relation ← relation d g
  return ⟨relation, ← many (join d g)⟩

def lateralView : Parser (Option LateralView) := do
  if (← kind) = .keyword .LATERAL then
    require d .lateralView
    advance
    expect (.keyword .VIEW)
    let outer ← accept (.keyword .OUTER)
    let function ← identifier d
    let generator ← call g function
    let table ← identifier d
    expect (.keyword .AS)
    return some ⟨outer, generator, table, ← identifierList d⟩
  else return none

/-- `FROM` with its relation, joins and lateral views. -/
def fromClause : Parser (Option Source × List LateralView) := do
  if ← accept (.keyword .FROM) then
    let source ← source d g
    return (some source, ← many (lateralView d g))
  else return (none, [])

/-! ## The clauses behind the relations -/

/-- An expression behind a keyword, or nothing where the keyword is missing. -/
def clause (keyword : Keyword) : Parser (Option Expr) := do
  if ← accept (.keyword keyword) then return some (← g.expression 0) else return none

/-- A positive integer literal is the position of a column. -/
def groupItem : Parser GroupItem := do
  let key ← g.expression 0
  match key with
  | .literal (.integer n) =>
    if 0 < n.toInt then return .ordinal (.ofNat n.toInt.toNat) else return .value key
  | _ => return .value key

def groupBy : Parser (List GroupItem) := do
  if ← accept (.keyword .GROUP) then
    expect (.keyword .BY)
    commaList (groupItem g)
  else return []

/-- The clause that a token opens. -/
def orderingKind? : TokenKind → Option OrderingKind
  | .keyword .ORDER => some .orderBy
  | .keyword .SORT => some .sortBy
  | .keyword .DISTRIBUTE => some .distributeBy
  | .keyword .CLUSTER => some .clusterBy
  | _ => none

/-- Keys of a distribution, which have no direction. -/
def keys : Parser (List OrderItem) := do
  return (← expressionList g).map fun key => ⟨key, none, none⟩

/-- `SORT BY` behind the keys of another clause, where the dialect allows it there. -/
def trailingSort (after : OrderingKind) : Parser (Option (List OrderItem)) := do
  if (← kind) = .keyword .SORT then
    unless d.allowsSortAfter after do fail (.sortNotAllowed after d.name)
    advance
    expect (.keyword .BY)
    return some (← orderItems g)
  else return none

/-- What follows the keywords of an ordering clause. -/
def orderingBody : OrderingKind → Parser RowOrdering
  | .orderBy => return .orderBy (← orderItems g)
  | .sortBy => return .sortBy (← orderItems g)
  | .distributeBy => do
    let keys ← keys g
    return .distributeBy keys (← trailingSort d g .distributeBy)
  | .clusterBy => do
    let keys ← keys g
    return .clusterBy keys (← trailingSort d g .clusterBy)

/-- At most one ordering clause. -/
def ordering : Parser (Option RowOrdering) := do
  match orderingKind? (← kind) with
  | none => return none
  | some first =>
    require d (.ordering first)
    advance
    expect (.keyword .BY)
    let body ← orderingBody d g first
    match orderingKind? (← kind) with
    | some second => fail (.cannotFollow second first)
    | none => return some body

def queryOf : Parser Select := do
  expect (.keyword .SELECT)
  let distinct ← distinctOrAll
  let columns ← commaList (selectItem d g)
  let (source, views) ← fromClause d g
  let filter ← clause g .WHERE
  let groups ← groupBy g
  let having ← clause g .HAVING
  let ordering ← ordering d g
  return ⟨distinct, columns, source, views, filter, groups, having, ordering, ← clause g .LIMIT⟩

end Parser

end SqlDialects
