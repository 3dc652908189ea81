import SqlDialects.Keyword
import SqlDialects.Tree.Basic
import SqlDialects.Word

/-!
# Canonical trees

Two trees that are written alike need not be equal: a function name may have any mix of cases, and
an entry of an ordering may leave its direction open. The canonical tree settles both, and nothing
else.
-/

namespace SqlDialects

/-- The names of functions that are written as a bare word. -/
def isPlainFunction (name : String) : Bool :=
  isBareWord name &&
    (Keyword.ofText? name).all fun k => !k.isReserved || k == .LEFT || k == .RIGHT

def canonicalFunction (name : String) : String :=
  if isPlainFunction name then name.toUpper else name

mutual

def Expr.canonical : Expr → Expr
  | .literal value => .literal value
  | .column qualifier name => .column qualifier name
  | .wildcard qualifier => .wildcard qualifier
  | .binary left op right => .binary left.canonical op right.canonical
  | .unary op operand => .unary op operand.canonical
  | .paren inner => .paren inner.canonical
  | .isNull operand negated => .isNull operand.canonical negated
  | .inList operand list negated => .inList operand.canonical (exprsCanonical list) negated
  | .between operand low high negated =>
    .between operand.canonical low.canonical high.canonical negated
  | .caseOf operand clauses otherwise =>
    .caseOf (optionalCanonical operand) (clausesCanonical clauses) (optionalCanonical otherwise)
  | .cast operand dataType => .cast operand.canonical dataType
  | .call function => .call function.canonical
  | .subquery query => .subquery query.canonical
  | .existsRow query => .existsRow query.canonical

def optionalCanonical : Option Expr → Option Expr
  | none => none
  | some e => some e.canonical

def exprsCanonical : List Expr → List Expr
  | [] => []
  | e :: rest => e.canonical :: exprsCanonical rest

def clausesCanonical : List WhenClause → List WhenClause
  | [] => []
  | ⟨condition, result⟩ :: rest =>
    ⟨condition.canonical, result.canonical⟩ :: clausesCanonical rest

def Call.canonical : Call → Call
  | ⟨name, arguments, distinct, ignoreNulls, window⟩ =>
    ⟨canonicalFunction name, exprsCanonical arguments, distinct, ignoreNulls,
      windowCanonical window⟩

def windowCanonical : Option Window → Option Window
  | none => none
  | some ⟨partition, order⟩ => some ⟨exprsCanonical partition, itemsCanonical order⟩

def itemsCanonical : List OrderItem → List OrderItem
  | [] => []
  | ⟨key, direction, nulls⟩ :: rest =>
    ⟨key.canonical, some (direction.getD .asc), nulls⟩ :: itemsCanonical rest

/-- The keys of a distribution stay without direction. -/
def keysCanonical : List OrderItem → List OrderItem
  | [] => []
  | ⟨key, direction, nulls⟩ :: rest => ⟨key.canonical, direction, nulls⟩ :: keysCanonical rest

def Select.canonical : Select → Select
  | ⟨distinct, columns, source, views, filter, groups, having, ordering, limit⟩ =>
    ⟨distinct, columnsCanonical columns, sourceCanonical source, viewsCanonical views,
      optionalCanonical filter, groupsCanonical groups, optionalCanonical having,
      orderingCanonical ordering, optionalCanonical limit⟩

def columnsCanonical : List SelectItem → List SelectItem
  | [] => []
  | ⟨value, label⟩ :: rest => ⟨value.canonical, label⟩ :: columnsCanonical rest

def sourceCanonical : Option Source → Option Source
  | none => none
  | some ⟨relation, joins⟩ => some ⟨relation.canonical, joinsCanonical joins⟩

def Relation.canonical : Relation → Relation
  | .table schema name label => .table schema name label
  | .derived query label => .derived query.canonical label

def joinsCanonical : List Join → List Join
  | [] => []
  | ⟨type, relation, condition, columns⟩ :: rest =>
    ⟨type, relation.canonical, optionalCanonical condition, columns⟩ :: joinsCanonical rest

def viewsCanonical : List LateralView → List LateralView
  | [] => []
  | ⟨outer, generator, table, columns⟩ :: rest =>
    ⟨outer, generator.canonical, table, columns⟩ :: viewsCanonical rest

def groupsCanonical : List GroupItem → List GroupItem
  | [] => []
  | .value key :: rest => .value key.canonical :: groupsCanonical rest
  | .ordinal position :: rest => .ordinal position :: groupsCanonical rest

def orderingCanonical : Option RowOrdering → Option RowOrdering
  | none => none
  | some (.orderBy items) => some (.orderBy (itemsCanonical items))
  | some (.sortBy items) => some (.sortBy (itemsCanonical items))
  | some (.distributeBy keys sort) =>
    some (.distributeBy (keysCanonical keys) (trailingCanonical sort))
  | some (.clusterBy keys sort) => some (.clusterBy (keysCanonical keys) (trailingCanonical sort))

def trailingCanonical : Option (List OrderItem) → Option (List OrderItem)
  | none => none
  | some items => some (itemsCanonical items)

end

/-- The tree with all names of functions in upper case, where they are bare words, and the
direction of every entry of an ordering filled in. -/
def Statement.canonical : Statement → Statement
  | .select query => .select query.canonical

end SqlDialects
