/-!
# Keywords

The words with a meaning in the grammar. A reserved word is never a name unless it is quoted; the
others are keywords only where the grammar has a use for them, and names elsewhere.
-/

namespace SqlDialects

inductive Keyword where
  | SELECT | FROM | WHERE | GROUP | BY | HAVING | ORDER | SORT | DISTRIBUTE | CLUSTER | LIMIT
  | DISTINCT | ALL | AS
  | JOIN | INNER | LEFT | RIGHT | FULL | OUTER | CROSS | SEMI | ANTI | ON | USING
  | LATERAL | VIEW
  | AND | OR | NOT | IN | BETWEEN | LIKE | ILIKE | RLIKE | IS | EXISTS | NULL | TRUE | FALSE
  | ASC | DESC | NULLS | FIRST | LAST
  | CASE | WHEN | THEN | ELSE | END | CAST | OVER | PARTITION | IGNORE
  deriving DecidableEq

namespace Keyword

/-- Every keyword once. -/
def all : List Keyword :=
  [.SELECT, .FROM, .WHERE, .GROUP, .BY, .HAVING, .ORDER, .SORT, .DISTRIBUTE, .CLUSTER, .LIMIT,
   .DISTINCT, .ALL, .AS, .JOIN, .INNER, .LEFT, .RIGHT, .FULL, .OUTER, .CROSS, .SEMI, .ANTI, .ON,
   .USING, .LATERAL, .VIEW, .AND, .OR, .NOT, .IN, .BETWEEN, .LIKE, .ILIKE, .RLIKE, .IS, .EXISTS,
   .NULL, .TRUE, .FALSE, .ASC, .DESC, .NULLS, .FIRST, .LAST, .CASE, .WHEN, .THEN, .ELSE, .END,
   .CAST, .OVER, .PARTITION, .IGNORE]

/-- The canonical spelling. -/
def text : Keyword → String
  | .SELECT => "SELECT"
  | .FROM => "FROM"
  | .WHERE => "WHERE"
  | .GROUP => "GROUP"
  | .BY => "BY"
  | .HAVING => "HAVING"
  | .ORDER => "ORDER"
  | .SORT => "SORT"
  | .DISTRIBUTE => "DISTRIBUTE"
  | .CLUSTER => "CLUSTER"
  | .LIMIT => "LIMIT"
  | .DISTINCT => "DISTINCT"
  | .ALL => "ALL"
  | .AS => "AS"
  | .JOIN => "JOIN"
  | .INNER => "INNER"
  | .LEFT => "LEFT"
  | .RIGHT => "RIGHT"
  | .FULL => "FULL"
  | .OUTER => "OUTER"
  | .CROSS => "CROSS"
  | .SEMI => "SEMI"
  | .ANTI => "ANTI"
  | .ON => "ON"
  | .USING => "USING"
  | .LATERAL => "LATERAL"
  | .VIEW => "VIEW"
  | .AND => "AND"
  | .OR => "OR"
  | .NOT => "NOT"
  | .IN => "IN"
  | .BETWEEN => "BETWEEN"
  | .LIKE => "LIKE"
  | .ILIKE => "ILIKE"
  | .RLIKE => "RLIKE"
  | .IS => "IS"
  | .EXISTS => "EXISTS"
  | .NULL => "NULL"
  | .TRUE => "TRUE"
  | .FALSE => "FALSE"
  | .ASC => "ASC"
  | .DESC => "DESC"
  | .NULLS => "NULLS"
  | .FIRST => "FIRST"
  | .LAST => "LAST"
  | .CASE => "CASE"
  | .WHEN => "WHEN"
  | .THEN => "THEN"
  | .ELSE => "ELSE"
  | .END => "END"
  | .CAST => "CAST"
  | .OVER => "OVER"
  | .PARTITION => "PARTITION"
  | .IGNORE => "IGNORE"

/-- The keyword that a word spells, in any mix of ASCII cases. -/
def ofText? (word : String) : Option Keyword :=
  all.find? fun k => k.text == word.toUpper

/-- The words that are never bare names. -/
def isReserved : Keyword → Bool
  | .BY | .SORT | .DISTRIBUTE | .CLUSTER | .OUTER | .SEMI | .ANTI | .LATERAL | .VIEW | .ASC | .DESC
  | .NULLS | .FIRST | .LAST | .OVER | .PARTITION | .IGNORE => false
  | _ => true

/-- The unreserved words that may open the next clause, and so are no alias without `AS`. -/
def startsClause : Keyword → Bool
  | .SORT | .DISTRIBUTE | .CLUSTER | .LATERAL => true
  | _ => false

theorem mem_all (k : Keyword) : k ∈ all := by
  cases k <;> decide

theorem text_of_ofText? {word : String} {k : Keyword} (h : ofText? word = some k) :
    k.text = word.toUpper := by
  simpa using List.find?_some h

end Keyword

end SqlDialects
