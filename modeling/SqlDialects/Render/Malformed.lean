import SqlDialects.Tree.Spelling

/-!
# Malformed trees

What a syntax tree may hold that no statement has. Main definition: the first defect of a tree, in
the order in which its text would be written; a tree has none exactly if it has a text.
-/

namespace SqlDialects

/-- A defect of a syntax tree. -/
inductive Malformed where
  | noColumns
  | viewWithoutSource
  | viewWithoutColumns
  | conditionOnCrossJoin
  | conditionAndColumns
  | ordinalZero
  | emptyOrdering (clause : OrderingKind)
  | emptyIdentifier
  | emptyFunctionName
  | emptyTypeName
  | emptyFieldName
  | inWithoutValues
  | caseWithoutClauses
  | distinctWithoutArguments
  | sizedWithoutParameters
  deriving DecidableEq

def Malformed.message : Malformed → String
  | .noColumns => "SELECT requires at least one column"
  | .viewWithoutSource => "LATERAL VIEW requires a FROM clause"
  | .viewWithoutColumns => "LATERAL VIEW requires at least one column alias"
  | .conditionOnCrossJoin => "CROSS JOIN takes neither ON nor USING"
  | .conditionAndColumns => "a join has either ON or USING, not both"
  | .ordinalZero => "GROUP BY ordinals start at 1"
  | .emptyOrdering clause => s!"{Mark.phrase clause.marks} requires at least one entry"
  | .emptyIdentifier => "identifiers cannot be empty"
  | .emptyFunctionName => "function name cannot be empty"
  | .emptyTypeName => "type name cannot be empty"
  | .emptyFieldName => "STRUCT field names cannot be empty"
  | .inWithoutValues => "IN requires at least one value"
  | .caseWithoutClauses => "CASE requires at least one WHEN"
  | .distinctWithoutArguments => "DISTINCT requires at least one argument"
  | .sizedWithoutParameters => "a sized type needs parameters"

namespace Malformed

/-- The defect, where a condition holds. -/
def when (holds : Bool) (defect : Malformed) : Option Malformed :=
  if holds then some defect else none

/-- The first defect of several parts. -/
def first (parts : List (Option Malformed)) : Option Malformed :=
  parts.findSome? id

/-- A name that is quoted. -/
def inIdentifier (name : String) : Option Malformed :=
  when (name = "") .emptyIdentifier

def inIdentifiers (names : List String) : Option Malformed :=
  names.findSome? inIdentifier

def inOptional (name : Option String) : Option Malformed :=
  name.bind inIdentifier

end Malformed

open Malformed

mutual

def DataType.defect? : DataType → Option Malformed
  | .simple name => when (name = "") .emptyTypeName
  | .sized name parameters =>
    first [when parameters.isEmpty .sizedWithoutParameters, when (name = "") .emptyTypeName]
  | .array element => element.defect?
  | .map key value => first [key.defect?, value.defect?]
  | .struct fields => fieldsDefect? fields

def fieldsDefect? : List StructField → Option Malformed
  | [] => none
  | ⟨name, dataType⟩ :: rest =>
    first [when (name = "") .emptyFieldName, dataType.defect?, fieldsDefect? rest]

end

mutual

def Expr.defect? : Expr → Option Malformed
  | .literal _ => none
  | .column qualifier name => first [inIdentifiers qualifier, inIdentifier name]
  | .wildcard qualifier => inIdentifiers qualifier
  | .binary left _ right => first [left.defect?, right.defect?]
  | .unary _ operand => operand.defect?
  | .paren inner => inner.defect?
  | .isNull operand _ => operand.defect?
  | .inList operand list _ =>
    first [when list.isEmpty .inWithoutValues, exprsDefect? list, operand.defect?]
  | .between operand low high _ => first [operand.defect?, low.defect?, high.defect?]
  | .caseOf operand clauses otherwise =>
    first [when clauses.isEmpty .caseWithoutClauses, optionalDefect? operand,
      clausesDefect? clauses, optionalDefect? otherwise]
  | .cast operand dataType => first [operand.defect?, dataType.defect?]
  | .call function => function.defect?
  | .subquery query => query.defect?
  | .existsRow query => query.defect?

def optionalDefect? : Option Expr → Option Malformed
  | none => none
  | some e => e.defect?

def exprsDefect? : List Expr → Option Malformed
  | [] => none
  | e :: rest => first [e.defect?, exprsDefect? rest]

def clausesDefect? : List WhenClause → Option Malformed
  | [] => none
  | ⟨condition, result⟩ :: rest =>
    first [condition.defect?, result.defect?, clausesDefect? rest]

def Call.defect? : Call → Option Malformed
  | ⟨name, arguments, distinct, _, window⟩ =>
    first [when (name = "") .emptyFunctionName,
      when (distinct && arguments.isEmpty) .distinctWithoutArguments, exprsDefect? arguments,
      windowDefect? window]

/-- A window may leave either of its lists empty. -/
def windowDefect? : Option Window → Option Malformed
  | none => none
  | some ⟨partition, order⟩ => first [exprsDefect? partition, itemsDefect? order]

def itemsDefect? : List OrderItem → Option Malformed
  | [] => none
  | ⟨key, _, _⟩ :: rest => first [key.defect?, itemsDefect? rest]

def Select.defect? : Select → Option Malformed
  | ⟨_, columns, source, views, filter, groups, having, ordering, limit⟩ =>
    first [when columns.isEmpty .noColumns, columnsDefect? columns, sourceDefect? source,
      when (source.isNone && !views.isEmpty) .viewWithoutSource, viewsDefect? views,
      optionalDefect? filter, groupsDefect? groups, optionalDefect? having,
      orderingDefect? ordering, optionalDefect? limit]

def columnsDefect? : List SelectItem → Option Malformed
  | [] => none
  | ⟨value, label⟩ :: rest => first [value.defect?, inOptional label, columnsDefect? rest]

def sourceDefect? : Option Source → Option Malformed
  | none => none
  | some ⟨relation, joins⟩ => first [relation.defect?, joinsDefect? joins]

def Relation.defect? : Relation → Option Malformed
  | .table schema name label => first [inOptional schema, inIdentifier name, inOptional label]
  | .derived query label => first [query.defect?, inOptional label]

def joinsDefect? : List Join → Option Malformed
  | [] => none
  | ⟨type, relation, condition, columns⟩ :: rest =>
    first [when (type = .cross && (condition.isSome || !columns.isEmpty)) .conditionOnCrossJoin,
      when (condition.isSome && !columns.isEmpty) .conditionAndColumns, relation.defect?,
      optionalDefect? condition, inIdentifiers columns, joinsDefect? rest]

def viewsDefect? : List LateralView → Option Malformed
  | [] => none
  | ⟨_, generator, table, columns⟩ :: rest =>
    first [when columns.isEmpty .viewWithoutColumns, generator.defect?, inIdentifier table,
      inIdentifiers columns, viewsDefect? rest]

def groupsDefect? : List GroupItem → Option Malformed
  | [] => none
  | .value key :: rest => first [key.defect?, groupsDefect? rest]
  | .ordinal position :: rest => first [when (position = 0) .ordinalZero, groupsDefect? rest]

def orderingDefect? : Option RowOrdering → Option Malformed
  | none => none
  | some (.orderBy items) =>
    first [when items.isEmpty (.emptyOrdering .orderBy), itemsDefect? items]
  | some (.sortBy items) =>
    first [when items.isEmpty (.emptyOrdering .sortBy), itemsDefect? items]
  | some (.distributeBy keys sort) =>
    first [when keys.isEmpty (.emptyOrdering .distributeBy), itemsDefect? keys,
      trailingDefect? sort]
  | some (.clusterBy keys sort) =>
    first [when keys.isEmpty (.emptyOrdering .clusterBy), itemsDefect? keys,
      trailingDefect? sort]

def trailingDefect? : Option (List OrderItem) → Option Malformed
  | none => none
  | some items => first [when items.isEmpty (.emptyOrdering .sortBy), itemsDefect? items]

end

def Statement.defect? : Statement → Option Malformed
  | .select query => query.defect?

end SqlDialects
