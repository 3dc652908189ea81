import SqlDialects.Proofs.Tree.Shape
import SqlDialects.Render.Malformed
import Mathlib.Tactic.Tauto

/-!
# Which trees have a text

A tree has no defect exactly if each of its nodes is complete and has no empty name.
-/

namespace SqlDialects

/-- A node is complete, and none of the names that are written at it is empty. -/
def Node.HasText (n : Node) : Prop :=
  n.Complete ∧ "" ∉ n.names

theorem Node.hasText_iff (n : Node) : n.HasText ↔ n.Complete ∧ "" ∉ n.names := Iff.rfl

namespace Malformed

@[simp] theorem when_eq_none {holds : Bool} {defect : Malformed} :
    when holds defect = none ↔ holds = false := by
  cases holds <;> simp [when]

@[simp] theorem first_eq_none {parts : List (Option Malformed)} :
    first parts = none ↔ ∀ p ∈ parts, p = none := by
  simp [first]

@[simp] theorem when_empty_eq_none {name : String} {defect : Malformed} :
    when (name = "") defect = none ↔ "" ≠ name := by
  rw [when_eq_none, decide_eq_false_iff_not, ne_comm]

@[simp] theorem inIdentifier_eq_none {name : String} : inIdentifier name = none ↔ "" ≠ name :=
  when_empty_eq_none

@[simp] theorem inIdentifiers_eq_none {names : List String} :
    inIdentifiers names = none ↔ "" ∉ names := by
  simp [inIdentifiers, List.findSome?_eq_none_iff, imp_not_comm]

@[simp] theorem inOptional_eq_none {name : Option String} :
    inOptional name = none ↔ "" ∉ name.toList := by
  cases name <;> simp [inOptional]

end Malformed

open Malformed

mutual

theorem DataType.defect?_eq_none : ∀ t : DataType, t.defect? = none ↔ ∀ n ∈ t.nodes, n.HasText
  | .simple name => by simp [DataType.defect?, DataType.nodes, Node.hasText_iff (.dataType _), Node.names]
  | .sized name parameters => by
    simp [DataType.defect?, DataType.nodes, Node.hasText_iff (.dataType _), Node.names]
  | .array element => by
    simp [DataType.defect?, DataType.nodes, Node.hasText_iff (.dataType _), Node.names,
      DataType.defect?_eq_none element]
  | .map key value => by
    simp [DataType.defect?, DataType.nodes, Node.hasText_iff (.dataType _), Node.names,
      DataType.defect?_eq_none key,
      DataType.defect?_eq_none value, or_imp, forall_and]
  | .struct fields => by
    simp only [DataType.defect?, DataType.nodes, List.forall_mem_cons, fieldsDefect?_eq_none fields]
    simp [Node.hasText_iff (.dataType _), Node.names]

theorem fieldsDefect?_eq_none :
    ∀ fields : List StructField, fieldsDefect? fields = none ↔ ∀ n ∈ fieldsNodes fields, n.HasText
  | [] => by simp [fieldsDefect?, fieldsNodes]
  | ⟨name, dataType⟩ :: rest => by
    simp only [fieldsDefect?, fieldsNodes, List.forall_mem_cons, List.forall_mem_append,
      first_eq_none, DataType.defect?_eq_none dataType, fieldsDefect?_eq_none rest]
    simp [Node.hasText_iff (.field _), Node.names]

end

mutual

theorem Expr.defect?_eq_none : ∀ e : Expr, e.defect? = none ↔ ∀ n ∈ e.nodes, n.HasText
  | .literal value => by simp [Expr.defect?, Expr.nodes, Node.hasText_iff (.expr _), Node.names]
  | .column qualifier name => by simp [Expr.defect?, Expr.nodes, Node.hasText_iff (.expr _), Node.names]
  | .wildcard qualifier => by simp [Expr.defect?, Expr.nodes, Node.hasText_iff (.expr _), Node.names]
  | .binary left op right => by
    simp only [Expr.defect?, Expr.nodes, List.forall_mem_cons, List.forall_mem_append,
      first_eq_none, left.defect?_eq_none, right.defect?_eq_none]
    simp [Node.hasText_iff (.expr _), Node.names]
  | .unary op operand => by
    simp only [Expr.defect?, Expr.nodes, List.forall_mem_cons, operand.defect?_eq_none]
    simp [Node.hasText_iff (.expr _), Node.names]
  | .paren inner => by
    simp only [Expr.defect?, Expr.nodes, List.forall_mem_cons, inner.defect?_eq_none]
    simp [Node.hasText_iff (.expr _), Node.names]
  | .isNull operand negated => by
    simp only [Expr.defect?, Expr.nodes, List.forall_mem_cons, operand.defect?_eq_none]
    simp [Node.hasText_iff (.expr _), Node.names]
  | .inList operand list negated => by
    simp only [Expr.defect?, Expr.nodes, List.forall_mem_cons, List.forall_mem_append,
      first_eq_none, operand.defect?_eq_none, exprsDefect?_eq_none list]
    simp [Node.hasText_iff (.expr _), Node.names]
    tauto
  | .between operand low high negated => by
    simp only [Expr.defect?, Expr.nodes, List.forall_mem_cons, List.forall_mem_append,
      first_eq_none, operand.defect?_eq_none, low.defect?_eq_none, high.defect?_eq_none]
    simp [Node.hasText_iff (.expr _), Node.names]
  | .caseOf operand clauses otherwise => by
    simp only [Expr.defect?, Expr.nodes, List.forall_mem_cons, List.forall_mem_append,
      first_eq_none, optionalDefect?_eq_none operand, clausesDefect?_eq_none clauses,
      optionalDefect?_eq_none otherwise]
    simp [Node.hasText_iff (.expr _), Node.names]
  | .cast operand dataType => by
    simp only [Expr.defect?, Expr.nodes, List.forall_mem_cons, List.forall_mem_append,
      first_eq_none, operand.defect?_eq_none, dataType.defect?_eq_none]
    simp [Node.hasText_iff (.expr _), Node.names]
  | .call function => by
    simp only [Expr.defect?, Expr.nodes, List.forall_mem_cons, function.defect?_eq_none]
    simp [Node.hasText_iff (.expr _), Node.names]
  | .subquery query => by
    simp only [Expr.defect?, Expr.nodes, List.forall_mem_cons, query.defect?_eq_none]
    simp [Node.hasText_iff (.expr _), Node.names]
  | .existsRow query => by
    simp only [Expr.defect?, Expr.nodes, List.forall_mem_cons, query.defect?_eq_none]
    simp [Node.hasText_iff (.expr _), Node.names]

theorem optionalDefect?_eq_none :
    ∀ e : Option Expr, optionalDefect? e = none ↔ ∀ n ∈ optionalNodes e, n.HasText
  | none => by simp [optionalDefect?, optionalNodes]
  | some e => by simp only [optionalDefect?, optionalNodes, e.defect?_eq_none]

theorem exprsDefect?_eq_none :
    ∀ l : List Expr, exprsDefect? l = none ↔ ∀ n ∈ exprsNodes l, n.HasText
  | [] => by simp [exprsDefect?, exprsNodes]
  | e :: rest => by
    simp [exprsDefect?, exprsNodes, List.forall_mem_append, e.defect?_eq_none,
      exprsDefect?_eq_none rest, -List.mem_append]

theorem clausesDefect?_eq_none :
    ∀ l : List WhenClause, clausesDefect? l = none ↔ ∀ n ∈ clausesNodes l, n.HasText
  | [] => by simp [clausesDefect?, clausesNodes]
  | ⟨condition, result⟩ :: rest => by
    simp only [clausesDefect?, clausesNodes, List.forall_mem_append, first_eq_none,
      List.forall_mem_cons, condition.defect?_eq_none, result.defect?_eq_none,
      clausesDefect?_eq_none rest]
    simp

theorem Call.defect?_eq_none : ∀ c : Call, c.defect? = none ↔ ∀ n ∈ c.nodes, n.HasText
  | ⟨name, arguments, distinct, ignoreNulls, window⟩ => by
    simp only [Call.defect?, Call.nodes, List.forall_mem_cons, List.forall_mem_append,
      first_eq_none, exprsDefect?_eq_none arguments, windowDefect?_eq_none window]
    cases distinct <;> simp [Node.hasText_iff (.call _), Node.names, and_assoc]
    tauto

theorem windowDefect?_eq_none :
    ∀ w : Option Window, windowDefect? w = none ↔ ∀ n ∈ windowNodes w, n.HasText
  | none => by simp [windowDefect?, windowNodes]
  | some ⟨partition, order⟩ => by
    simp only [windowDefect?, windowNodes, List.forall_mem_append, first_eq_none,
      List.forall_mem_cons, exprsDefect?_eq_none partition, itemsDefect?_eq_none order]
    simp

theorem itemsDefect?_eq_none :
    ∀ l : List OrderItem, itemsDefect? l = none ↔ ∀ n ∈ itemsNodes l, n.HasText
  | [] => by simp [itemsDefect?, itemsNodes]
  | ⟨key, _, _⟩ :: rest => by
    simp only [itemsDefect?, itemsNodes, List.forall_mem_append, first_eq_none,
      List.forall_mem_cons, key.defect?_eq_none, itemsDefect?_eq_none rest]
    simp

theorem Select.defect?_eq_none : ∀ q : Select, q.defect? = none ↔ ∀ n ∈ q.nodes, n.HasText
  | ⟨distinct, columns, source, views, filter, groups, having, ordering, limit⟩ => by
    simp only [Select.defect?, Select.nodes, List.forall_mem_cons, List.forall_mem_append,
      first_eq_none, columnsDefect?_eq_none columns, sourceDefect?_eq_none source,
      viewsDefect?_eq_none views, optionalDefect?_eq_none filter, groupsDefect?_eq_none groups,
      optionalDefect?_eq_none having, orderingDefect?_eq_none ordering,
      optionalDefect?_eq_none limit]
    have hviews : (source.isNone && !views.isEmpty) = false ↔ (views ≠ [] → source ≠ none) := by
      cases source <;> cases views <;> simp
    rw [when_eq_none, when_eq_none, hviews]
    simp [Node.hasText_iff (.select _), Node.names]
    tauto

theorem columnsDefect?_eq_none :
    ∀ l : List SelectItem, columnsDefect? l = none ↔ ∀ n ∈ columnsNodes l, n.HasText
  | [] => by simp [columnsDefect?, columnsNodes]
  | ⟨value, label⟩ :: rest => by
    simp only [columnsDefect?, columnsNodes, List.forall_mem_cons, List.forall_mem_append,
      first_eq_none, value.defect?_eq_none, columnsDefect?_eq_none rest, inOptional_eq_none]
    simp [Node.hasText_iff (.item _), Node.names]
    tauto

theorem sourceDefect?_eq_none :
    ∀ s : Option Source, sourceDefect? s = none ↔ ∀ n ∈ sourceNodes s, n.HasText
  | none => by simp [sourceDefect?, sourceNodes]
  | some ⟨relation, joins⟩ => by
    simp only [sourceDefect?, sourceNodes, List.forall_mem_append, first_eq_none,
      List.forall_mem_cons, relation.defect?_eq_none, joinsDefect?_eq_none joins]
    simp

theorem Relation.defect?_eq_none : ∀ r : Relation, r.defect? = none ↔ ∀ n ∈ r.nodes, n.HasText
  | .table schema name label => by
    simp [Relation.defect?, Relation.nodes, Node.hasText_iff (.relation _), Node.names]
  | .derived query label => by
    simp only [Relation.defect?, Relation.nodes, List.forall_mem_cons, first_eq_none,
      query.defect?_eq_none, inOptional_eq_none]
    simp [Node.hasText_iff (.relation _), Node.names]
    tauto

theorem joinsDefect?_eq_none :
    ∀ l : List Join, joinsDefect? l = none ↔ ∀ n ∈ joinsNodes l, n.HasText
  | [] => by simp [joinsDefect?, joinsNodes]
  | ⟨type, relation, condition, columns⟩ :: rest => by
    simp only [joinsDefect?, joinsNodes, List.forall_mem_cons, List.forall_mem_append,
      first_eq_none, relation.defect?_eq_none, optionalDefect?_eq_none condition,
      joinsDefect?_eq_none rest, inIdentifiers_eq_none, when_eq_none]
    have hcross : (type = .cross && (condition.isSome || !columns.isEmpty)) = false ↔
        (type = .cross → condition = none ∧ columns = []) := by
      cases condition <;> cases columns <;> simp
    have hboth : (condition.isSome && !columns.isEmpty) = false ↔
        (condition ≠ none → columns = []) := by
      cases condition <;> simp
    rw [hcross, hboth]
    simp [Node.hasText_iff (.join _), Node.names]
    tauto

theorem viewsDefect?_eq_none :
    ∀ l : List LateralView, viewsDefect? l = none ↔ ∀ n ∈ viewsNodes l, n.HasText
  | [] => by simp [viewsDefect?, viewsNodes]
  | ⟨outer, generator, table, columns⟩ :: rest => by
    simp only [viewsDefect?, viewsNodes, List.forall_mem_cons, List.forall_mem_append,
      first_eq_none, generator.defect?_eq_none, viewsDefect?_eq_none rest, inIdentifiers_eq_none,
      inIdentifier_eq_none, when_eq_none]
    simp [Node.hasText_iff (.view _), Node.names]
    tauto

theorem groupsDefect?_eq_none :
    ∀ l : List GroupItem, groupsDefect? l = none ↔ ∀ n ∈ groupsNodes l, n.HasText
  | [] => by simp [groupsDefect?, groupsNodes]
  | .value key :: rest => by
    simp only [groupsDefect?, groupsNodes, List.forall_mem_cons, List.forall_mem_append,
      first_eq_none, key.defect?_eq_none, groupsDefect?_eq_none rest]
    cases key <;> simp [Node.hasText_iff (.group _), Node.names]
  | .ordinal position :: rest => by
    simp only [groupsDefect?, groupsNodes, List.forall_mem_cons, first_eq_none,
      groupsDefect?_eq_none rest]
    simp [Node.hasText_iff (.group _), Node.names]

theorem orderingDefect?_eq_none :
    ∀ o : Option RowOrdering, orderingDefect? o = none ↔ ∀ n ∈ orderingNodes o, n.HasText
  | none => by simp [orderingDefect?, orderingNodes]
  | some (.orderBy items) => by
    simp only [orderingDefect?, orderingNodes, List.forall_mem_cons, first_eq_none,
      itemsDefect?_eq_none items]
    simp [Node.hasText_iff (.ordering _), Node.names]
  | some (.sortBy items) => by
    simp only [orderingDefect?, orderingNodes, List.forall_mem_cons, first_eq_none,
      itemsDefect?_eq_none items]
    simp [Node.hasText_iff (.ordering _), Node.names]
  | some (.distributeBy keys sort) => by
    simp only [orderingDefect?, orderingNodes, List.forall_mem_cons, List.forall_mem_append,
      first_eq_none, itemsDefect?_eq_none keys, trailingDefect?_eq_none sort]
    simp [Node.hasText_iff (.ordering _), Node.names]
    tauto
  | some (.clusterBy keys sort) => by
    simp only [orderingDefect?, orderingNodes, List.forall_mem_cons, List.forall_mem_append,
      first_eq_none, itemsDefect?_eq_none keys, trailingDefect?_eq_none sort]
    simp [Node.hasText_iff (.ordering _), Node.names]
    tauto

theorem trailingDefect?_eq_none :
    ∀ o : Option (List OrderItem),
      trailingDefect? o = none ↔ o ≠ some [] ∧ ∀ n ∈ trailingNodes o, n.HasText
  | none => by simp [trailingDefect?, trailingNodes]
  | some items => by
    simp only [trailingDefect?, trailingNodes, first_eq_none, List.forall_mem_cons,
      itemsDefect?_eq_none items]
    simp

end

/-- A statement has a text exactly if nothing is missing at any of its nodes and no name is
empty. -/
theorem Statement.defect?_eq_none (a : Statement) :
    a.defect? = none ↔ (∀ n ∈ a.nodes, n.Complete) ∧ "" ∉ a.names := by
  obtain ⟨query⟩ := a
  rw [defect?, query.defect?_eq_none, names]
  simp [nodes, Node.HasText, forall_and]

end SqlDialects
