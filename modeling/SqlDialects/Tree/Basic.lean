import SqlDialects.Tree.DataType
import SqlDialects.Tree.Operator

/-!
# Syntax trees

The statements, queries and expressions of the language, as they are read from tokens, decoded from
JSON, or built by hand. Names are kept without their quotes, and an alias is the label of what it
names. Parentheses that were written are kept as a node of their own.
-/

namespace SqlDialects

inductive Literal where
  | integer (value : Int64)
  /-- Any other number, as written. -/
  | number (text : String)
  /-- The raw text between two quotes. -/
  | string (body : String) (quote : Char)
  | boolean (value : Bool)
  | null
  deriving DecidableEq

inductive Direction where
  | asc | desc
  deriving DecidableEq

inductive NullOrdering where
  | first | last
  deriving DecidableEq

inductive JoinType where
  | inner | left | right | full | cross | leftSemi | leftAnti
  deriving DecidableEq

/-- The clauses that order rows or spread them over partitions. -/
inductive OrderingKind where
  | orderBy | sortBy | distributeBy | clusterBy
  deriving DecidableEq

mutual

inductive Expr where
  | literal (value : Literal)
  | column (qualifier : List String) (name : String)
  | wildcard (qualifier : List String)
  | binary (left : Expr) (op : BinaryOp) (right : Expr)
  | unary (op : UnaryOp) (operand : Expr)
  | paren (inner : Expr)
  | isNull (operand : Expr) (negated : Bool)
  | inList (operand : Expr) (list : List Expr) (negated : Bool)
  | between (operand low high : Expr) (negated : Bool)
  | caseOf (operand : Option Expr) (clauses : List WhenClause) (otherwise : Option Expr)
  | cast (operand : Expr) (dataType : DataType)
  | call (function : Call)
  | subquery (query : Select)
  | existsRow (query : Select)

structure WhenClause where
  condition : Expr
  result : Expr

structure Call where
  name : String
  arguments : List Expr
  distinct : Bool
  ignoreNulls : Bool
  window : Option Window

structure Window where
  partition : List Expr
  order : List OrderItem

/-- An entry of an ordering. A key of `DISTRIBUTE BY` or `CLUSTER BY` has no direction. -/
structure OrderItem where
  key : Expr
  direction : Option Direction
  nulls : Option NullOrdering

structure Select where
  distinct : Bool
  columns : List SelectItem
  source : Option Source
  views : List LateralView
  filter : Option Expr
  groups : List GroupItem
  having : Option Expr
  ordering : Option RowOrdering
  limit : Option Expr

structure SelectItem where
  value : Expr
  label : Option String

/-- What `FROM` names: a relation and what is joined to it. -/
structure Source where
  relation : Relation
  joins : List Join

inductive Relation where
  | table (schema : Option String) (name : String) (label : Option String)
  | derived (query : Select) (label : Option String)

structure Join where
  type : JoinType
  relation : Relation
  condition : Option Expr
  columns : List String

structure LateralView where
  outer : Bool
  generator : Call
  table : String
  columns : List String

inductive GroupItem where
  | value (key : Expr)
  /-- The position of a column in the select list, from 1 on. -/
  | ordinal (position : UInt64)

/-- In which order rows come, or how they are spread over partitions. -/
inductive RowOrdering where
  | orderBy (items : List OrderItem)
  | sortBy (items : List OrderItem)
  | distributeBy (keys : List OrderItem) (sort : Option (List OrderItem))
  | clusterBy (keys : List OrderItem) (sort : Option (List OrderItem))

end

/-- The clause that an ordering was written as. -/
def RowOrdering.kind : RowOrdering → OrderingKind
  | .orderBy _ => .orderBy
  | .sortBy _ => .sortBy
  | .distributeBy .. => .distributeBy
  | .clusterBy .. => .clusterBy

inductive Statement where
  | select (query : Select)

end SqlDialects
