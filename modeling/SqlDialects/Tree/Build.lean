import SqlDialects.Tree.Basic

/-!
# Building trees by hand
-/

namespace SqlDialects

namespace Expr

/-- A column without a qualifier. -/
def columnOf (name : String) : Expr :=
  .column [] name

def qualifiedColumn (table name : String) : Expr :=
  .column [table] name

/-- The star of all columns. -/
def allColumns : Expr :=
  .wildcard []

def integer (value : Int64) : Expr :=
  .literal (.integer value)

/-- A string in single quotes, whose body is taken as it is. -/
def string (body : String) : Expr :=
  .literal (.string body '\x27')

def boolean (value : Bool) : Expr :=
  .literal (.boolean value)

def null : Expr :=
  .literal .null

end Expr

namespace Call

/-- A call without modifiers. -/
def of (name : String) (arguments : List Expr) : Call :=
  ⟨name, arguments, false, false, none⟩

def withDistinct (c : Call) : Call :=
  { c with distinct := true }

def withIgnoreNulls (c : Call) : Call :=
  { c with ignoreNulls := true }

def withWindow (c : Call) (window : Window) : Call :=
  { c with window := some window }

end Call

/-- The query for some columns and nothing else. -/
def Select.ofColumns (columns : List SelectItem) : Select :=
  ⟨false, columns, none, [], none, [], none, none, none⟩

/-- The statement whose only column is an expression. -/
def Statement.ofExpr (e : Expr) : Statement :=
  .select (.ofColumns [⟨e, none⟩])

/-- Gives a relation an alias, in place of one that it may have. -/
def Relation.withLabel (label : String) : Relation → Relation
  | .table schema name _ => .table schema name (some label)
  | .derived query _ => .derived query (some label)

/-- The direction of an entry; without one, rows ascend. -/
def OrderItem.effectiveDirection (item : OrderItem) : Direction :=
  item.direction.getD .asc

end SqlDialects
