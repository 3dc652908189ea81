import SqlDialects.Proofs.Tree.Binding
import SqlDialects.Proofs.Tree.Canonical
import SqlDialects.Render.Pieces

/-!
# Parentheses in trees

Expressions that are made of operators and predicates, the parentheses that are written around
their operands, and those that a tree has at all. Main statement: a tree in which no operand reaches
into its neighbours has at least the parentheses that are written for it.
-/

namespace SqlDialects

/-! ## Erasing parentheses -/

mutual

/-- The expression without any of its parentheses. -/
def Expr.withoutParens : Expr → Expr
  | .paren inner => inner.withoutParens
  | .literal value => .literal value
  | .column qualifier name => .column qualifier name
  | .wildcard qualifier => .wildcard qualifier
  | .binary left op right => .binary left.withoutParens op right.withoutParens
  | .unary op operand => .unary op operand.withoutParens
  | .isNull operand negated => .isNull operand.withoutParens negated
  | .inList operand list negated => .inList operand.withoutParens (exprsWithoutParens list) negated
  | .between operand low high negated =>
    .between operand.withoutParens low.withoutParens high.withoutParens negated
  | .caseOf operand clauses otherwise =>
    .caseOf (optionalWithoutParens operand) (clausesWithoutParens clauses)
      (optionalWithoutParens otherwise)
  | .cast operand dataType => .cast operand.withoutParens dataType
  | .call function => .call function.withoutParens
  | .subquery query => .subquery query.withoutParens
  | .existsRow query => .existsRow query.withoutParens

def optionalWithoutParens : Option Expr → Option Expr
  | none => none
  | some e => some e.withoutParens

def exprsWithoutParens : List Expr → List Expr
  | [] => []
  | e :: rest => e.withoutParens :: exprsWithoutParens rest

def clausesWithoutParens : List WhenClause → List WhenClause
  | [] => []
  | ⟨condition, result⟩ :: rest =>
    ⟨condition.withoutParens, result.withoutParens⟩ :: clausesWithoutParens rest

def Call.withoutParens : Call → Call
  | ⟨name, arguments, distinct, ignoreNulls, window⟩ =>
    ⟨name, exprsWithoutParens arguments, distinct, ignoreNulls, windowWithoutParens window⟩

def windowWithoutParens : Option Window → Option Window
  | none => none
  | some ⟨partition, order⟩ => some ⟨exprsWithoutParens partition, itemsWithoutParens order⟩

def itemsWithoutParens : List OrderItem → List OrderItem
  | [] => []
  | ⟨key, direction, nulls⟩ :: rest =>
    ⟨key.withoutParens, direction, nulls⟩ :: itemsWithoutParens rest

def Select.withoutParens : Select → Select
  | ⟨distinct, columns, source, views, filter, groups, having, ordering, limit⟩ =>
    ⟨distinct, columnsWithoutParens columns, sourceWithoutParens source, viewsWithoutParens views,
      optionalWithoutParens filter, groupsWithoutParens groups, optionalWithoutParens having,
      orderingWithoutParens ordering, optionalWithoutParens limit⟩

def columnsWithoutParens : List SelectItem → List SelectItem
  | [] => []
  | ⟨value, label⟩ :: rest => ⟨value.withoutParens, label⟩ :: columnsWithoutParens rest

def sourceWithoutParens : Option Source → Option Source
  | none => none
  | some ⟨relation, joins⟩ => some ⟨relation.withoutParens, joinsWithoutParens joins⟩

def Relation.withoutParens : Relation → Relation
  | .table schema name label => .table schema name label
  | .derived query label => .derived query.withoutParens label

def joinsWithoutParens : List Join → List Join
  | [] => []
  | ⟨type, relation, condition, columns⟩ :: rest =>
    ⟨type, relation.withoutParens, optionalWithoutParens condition, columns⟩ ::
      joinsWithoutParens rest

def viewsWithoutParens : List LateralView → List LateralView
  | [] => []
  | ⟨outer, generator, table, columns⟩ :: rest =>
    ⟨outer, generator.withoutParens, table, columns⟩ :: viewsWithoutParens rest

def groupsWithoutParens : List GroupItem → List GroupItem
  | [] => []
  | .value key :: rest => .value key.withoutParens :: groupsWithoutParens rest
  | .ordinal position :: rest => .ordinal position :: groupsWithoutParens rest

def orderingWithoutParens : Option RowOrdering → Option RowOrdering
  | none => none
  | some (.orderBy items) => some (.orderBy (itemsWithoutParens items))
  | some (.sortBy items) => some (.sortBy (itemsWithoutParens items))
  | some (.distributeBy keys sort) =>
    some (.distributeBy (itemsWithoutParens keys) (trailingWithoutParens sort))
  | some (.clusterBy keys sort) =>
    some (.clusterBy (itemsWithoutParens keys) (trailingWithoutParens sort))

def trailingWithoutParens : Option (List OrderItem) → Option (List OrderItem)
  | none => none
  | some items => some (itemsWithoutParens items)

end

@[simp] theorem exprsWithoutParens_eq_map (list : List Expr) :
    exprsWithoutParens list = list.map Expr.withoutParens := by
  induction list with
  | nil => rfl
  | cons e rest ih => rw [exprsWithoutParens, ih, List.map_cons]

namespace Expr

/-! ## Operations -/

/-- The expression is made of columns and integers with operators and predicates, and may have
parentheses. -/
inductive IsOperation (parens : Bool) : Expr → Prop
  | column {qualifier : List String} {name : String} (hqualifier : "" ∉ qualifier)
      (hname : name ≠ "") : IsOperation parens (.column qualifier name)
  | integer {value : Int64} (h : 0 ≤ value.toInt) : IsOperation parens (.literal (.integer value))
  | binary {left right : Expr} (op : BinaryOp) (hleft : IsOperation parens left)
      (hright : IsOperation parens right) : IsOperation parens (.binary left op right)
  | unary {operand : Expr} (op : UnaryOp) (h : IsOperation parens operand) :
      IsOperation parens (.unary op operand)
  | isNull {operand : Expr} (negated : Bool) (h : IsOperation parens operand) :
      IsOperation parens (.isNull operand negated)
  | inList {operand : Expr} {list : List Expr} (negated : Bool) (h : IsOperation parens operand)
      (hne : list ≠ []) (hlist : ∀ e ∈ list, IsOperation parens e) :
      IsOperation parens (.inList operand list negated)
  | between {operand low high : Expr} (negated : Bool) (h : IsOperation parens operand)
      (hlow : IsOperation parens low) (hhigh : IsOperation parens high) :
      IsOperation parens (.between operand low high negated)
  | paren {inner : Expr} (hparens : parens = true) (h : IsOperation parens inner) :
      IsOperation parens (.paren inner)

/-! ## Parentheses that are written -/

/-- The expression, in parentheses if they are needed. -/
def parenthesizedIf (needed : Bool) (e : Expr) : Expr :=
  if needed then .paren e else e

end Expr

mutual

/-- The expression with the parentheses that are written around operands of operators. -/
def Expr.grouped : Expr → Expr
  | .binary left op right =>
    .binary (.parenthesizedIf (left.looserThan op) left.grouped) op
      (.parenthesizedIf (right.noTighterThan op) right.grouped)
  | .unary op operand => .unary op (.parenthesizedIf (operand.looserThanUnary op) operand.grouped)
  | .paren inner => .paren inner.grouped
  | .isNull operand negated => .isNull operand.grouped negated
  | .inList operand list negated => .inList operand.grouped (exprsGrouped list) negated
  | .between operand low high negated => .between operand.grouped low.grouped high.grouped negated
  | e => e

def exprsGrouped : List Expr → List Expr
  | [] => []
  | e :: rest => e.grouped :: exprsGrouped rest

end

mutual

/-- The number of opening parentheses of an operation. -/
def Expr.groupings : Expr → Nat
  | .binary left _ right => left.groupings + right.groupings
  | .unary _ operand => operand.groupings
  | .paren inner => inner.groupings + 1
  | .isNull operand _ => operand.groupings
  | .inList operand list _ => operand.groupings + (exprsGroupings list + 1)
  | .between operand low high _ => operand.groupings + (low.groupings + high.groupings)
  | _ => 0

def exprsGroupings : List Expr → Nat
  | [] => 0
  | e :: rest => e.groupings + exprsGroupings rest

end

@[simp] theorem exprsGrouped_eq_map (list : List Expr) :
    exprsGrouped list = list.map Expr.grouped := by
  induction list with
  | nil => rfl
  | cons e rest ih => rw [exprsGrouped, ih, List.map_cons]

namespace Expr

variable {e : Expr} {parens : Bool}

/-! ## Parentheses around an operand -/

@[simp] theorem withoutParens_parenthesizedIf (needed : Bool) (e : Expr) :
    (parenthesizedIf needed e).withoutParens = e.withoutParens := by
  cases needed <;> simp [parenthesizedIf, withoutParens]

@[simp] theorem groupings_parenthesizedIf (needed : Bool) (e : Expr) :
    (parenthesizedIf needed e).groupings = e.groupings + needed.toNat := by
  cases needed <;> simp [parenthesizedIf, groupings]

/-- Parentheses are written by the kind of an operand, which parentheses further down leave. -/
@[simp] theorem looserThan_grouped (op : BinaryOp) (e : Expr) :
    e.grouped.looserThan op = e.looserThan op := by
  cases e <;> simp [grouped, looserThan]

@[simp] theorem noTighterThan_grouped (op : BinaryOp) (e : Expr) :
    e.grouped.noTighterThan op = e.noTighterThan op := by
  cases e <;> simp [grouped, noTighterThan]

@[simp] theorem looserThanUnary_grouped (op : UnaryOp) (e : Expr) :
    e.grouped.looserThanUnary op = e.looserThanUnary op := by
  cases op <;> cases e <;> simp [grouped, looserThanUnary]

/-! ## Operations with and without parentheses -/

theorem IsOperation.withoutParens_grouped (h : e.IsOperation false) :
    e.grouped.withoutParens = e := by
  induction h with
  | column | integer => rfl
  | paren hparens => cases hparens
  | @inList _ list _ _ _ _ ih ihlist =>
    have hlist : list.map (withoutParens ∘ grouped) = list :=
      (List.map_congr_left ihlist).trans (List.map_id list)
    simp [grouped, withoutParens, ih, hlist]
  | _ => simp_all [grouped, withoutParens]

mutual

theorem IsOperation.of_withoutParens :
    ∀ e : Expr, e.withoutParens.IsOperation parens → e.IsOperation true
  | .literal _, .integer h => .integer h
  | .column _ _, .column hqualifier hname => .column hqualifier hname
  | .binary left op right, .binary _ hleft hright =>
    .binary op (of_withoutParens left hleft) (of_withoutParens right hright)
  | .unary op operand, .unary _ h => .unary op (of_withoutParens operand h)
  | .isNull operand negated, .isNull _ h => .isNull negated (of_withoutParens operand h)
  | .inList _ [] _, .inList _ _ hne _ => absurd rfl hne
  | .inList operand (e :: rest) negated, .inList _ h _ hlist =>
    .inList negated (of_withoutParens operand h) nofun (forall_of_withoutParens (e :: rest) hlist)
  | .between operand low high negated, .between _ h hlow hhigh =>
    .between negated (of_withoutParens operand h) (of_withoutParens low hlow)
      (of_withoutParens high hhigh)
  | .paren inner, h => .paren rfl (of_withoutParens inner h)

theorem IsOperation.forall_of_withoutParens : ∀ list : List Expr,
    (∀ e ∈ exprsWithoutParens list, e.IsOperation parens) → ∀ e ∈ list, e.IsOperation true
  | [], _ => by simp
  | e :: rest, h => by
    rw [exprsWithoutParens, List.forall_mem_cons] at h
    rw [List.forall_mem_cons]
    exact ⟨of_withoutParens e h.1, forall_of_withoutParens rest h.2⟩

end

theorem IsOperation.grouped (h : e.IsOperation false) : e.grouped.IsOperation true :=
  .of_withoutParens e.grouped (h.withoutParens_grouped.symm ▸ h)

end Expr

end SqlDialects
