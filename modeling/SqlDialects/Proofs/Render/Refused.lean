import SqlDialects.Proofs.Render.Defects
import SqlDialects.Proofs.Tree.Features
import SqlDialects.Render.Statement

/-!
# Why a tree is refused

The defects that a node of a tree can have, each by itself. A tree is refused exactly if one of its
nodes has one of them, the reason given is a defect that some node does have, and it is the same in
every dialect.
-/

namespace SqlDialects

/-- The keys of an ordering, without those of a `SORT BY` behind them. -/
def RowOrdering.keys : RowOrdering → List OrderItem
  | .orderBy items => items
  | .sortBy items => items
  | .distributeBy keys _ => keys
  | .clusterBy keys _ => keys

namespace Node

/-- What an empty name at a node is called. -/
def emptyName : Node → Malformed
  | .dataType _ => .emptyTypeName
  | .field _ => .emptyFieldName
  | .call _ => .emptyFunctionName
  | _ => .emptyIdentifier

/-- A node has a defect, whatever stands at the nodes below it. -/
inductive Has : Node → Malformed → Prop
  | noColumns {q : Select} (h : q.columns = []) : Has (.select q) .noColumns
  | viewWithoutSource {q : Select} (hviews : q.views ≠ []) (hsource : q.source = none) :
    Has (.select q) .viewWithoutSource
  | viewWithoutColumns {v : LateralView} (h : v.columns = []) : Has (.view v) .viewWithoutColumns
  | conditionOnCrossJoin {j : Join} (htype : j.type = .cross)
    (h : j.condition ≠ none ∨ j.columns ≠ []) : Has (.join j) .conditionOnCrossJoin
  | conditionAndColumns {j : Join} (hcondition : j.condition ≠ none) (hcolumns : j.columns ≠ []) :
    Has (.join j) .conditionAndColumns
  | ordinalZero {position : UInt64} (h : position = 0) : Has (.group (.ordinal position)) .ordinalZero
  | emptyOrdering {o : RowOrdering} (h : o.keys = []) : Has (.ordering o) (.emptyOrdering o.kind)
  | emptyTrailingSort {o : RowOrdering} (h : o.trailingSort? = some []) :
    Has (.ordering o) (.emptyOrdering .sortBy)
  | emptyName {n : Node} (h : "" ∈ n.names) : Has n n.emptyName
  | inWithoutValues {operand : Expr} {list : List Expr} {negated : Bool} (h : list = []) :
    Has (.expr (.inList operand list negated)) .inWithoutValues
  | caseWithoutClauses {operand otherwise : Option Expr} {clauses : List WhenClause}
    (h : clauses = []) : Has (.expr (.caseOf operand clauses otherwise)) .caseWithoutClauses
  | distinctWithoutArguments {c : Call} (hdistinct : c.distinct = true) (h : c.arguments = []) :
    Has (.call c) .distinctWithoutArguments
  | sizedWithoutParameters {name : String} {parameters : List UInt32} (h : parameters = []) :
    Has (.dataType (.sized name parameters)) .sizedWithoutParameters

variable {n : Node} {m : Malformed}

theorem Has.not_hasText (h : n.Has m) : ¬n.HasText := by
  rintro ⟨hcomplete, hnames⟩
  cases h with
  | noColumns h => exact hcomplete.1 h
  | viewWithoutSource hviews hsource => exact hcomplete.2 hviews hsource
  | viewWithoutColumns h => exact hcomplete h
  | conditionOnCrossJoin htype h => exact h.elim (· (hcomplete.1 htype).1) (· (hcomplete.1 htype).2)
  | conditionAndColumns hcondition hcolumns => exact hcolumns (hcomplete.2 hcondition)
  | ordinalZero h => exact hcomplete h
  | @emptyOrdering o h => cases o <;> simp_all [RowOrdering.keys]
  | @emptyTrailingSort o h => cases o <;> simp_all [RowOrdering.trailingSort?]
  | emptyName h => exact hnames h
  | inWithoutValues h => exact hcomplete h
  | caseWithoutClauses h => exact hcomplete h
  | distinctWithoutArguments hdistinct h => exact hcomplete hdistinct h
  | sizedWithoutParameters h => exact hcomplete h

/-- A node that is not complete has a defect other than an empty name. -/
theorem exists_has_of_not_complete (h : ¬n.Complete) : ∃ m, n.Has m := by
  cases n with
  | dataType t =>
    cases t with
    | sized name parameters => exact ⟨_, .sizedWithoutParameters (not_not.mp h)⟩
    | _ => exact absurd trivial h
  | expr e =>
    cases e with
    | inList operand list negated => exact ⟨_, .inWithoutValues (not_not.mp h)⟩
    | caseOf operand clauses otherwise => exact ⟨_, .caseWithoutClauses (not_not.mp h)⟩
    | _ => exact absurd trivial h
  | call c =>
    obtain ⟨hdistinct, harguments⟩ : c.distinct = true ∧ c.arguments = [] := by simpa using h
    exact ⟨_, .distinctWithoutArguments hdistinct harguments⟩
  | select q =>
    by_cases hcolumns : q.columns = []
    · exact ⟨_, .noColumns hcolumns⟩
    · obtain ⟨hviews, hsource⟩ : q.views ≠ [] ∧ q.source = none := by simpa [hcolumns] using h
      exact ⟨_, .viewWithoutSource hviews hsource⟩
  | join j =>
    by_cases hboth : j.condition ≠ none ∧ j.columns ≠ []
    · exact ⟨_, .conditionAndColumns hboth.1 hboth.2⟩
    · have hcross : j.type = .cross ∧ (j.condition ≠ none ∨ j.columns ≠ []) := by
        simp only [Complete] at h
        tauto
      exact ⟨_, .conditionOnCrossJoin hcross.1 hcross.2⟩
  | view v => exact ⟨_, .viewWithoutColumns (not_not.mp h)⟩
  | group g =>
    cases g with
    | ordinal position => exact ⟨_, .ordinalZero (not_not.mp h)⟩
    | value key => exact absurd trivial h
  | ordering o =>
    by_cases hkeys : o.keys = []
    · exact ⟨_, .emptyOrdering hkeys⟩
    · have hsort : o.trailingSort? = some [] := by
        cases o <;> simp_all [RowOrdering.keys, RowOrdering.trailingSort?]
      exact ⟨_, .emptyTrailingSort hsort⟩
  | _ => exact absurd trivial h

theorem exists_has_iff : (∃ m, n.Has m) ↔ ¬n.HasText := by
  constructor
  · rintro ⟨m, h⟩
    exact h.not_hasText
  · intro h
    by_cases hcomplete : n.Complete
    · have hname : "" ∈ n.names := not_not.mp fun hnames => h ⟨hcomplete, hnames⟩
      exact ⟨_, .emptyName hname⟩
    · exact exists_has_of_not_complete hcomplete

end Node

/-! ## The reason given -/

namespace Malformed

/-- One of several nodes has a defect. -/
def IsAmong (m : Malformed) (nodes : List Node) : Prop :=
  ∃ n ∈ nodes, n.Has m

/-- One of several parts has a defect for its first. -/
def IsOf (m : Malformed) : List (Option Malformed) → Prop
  | [] => False
  | [part] => part = some m
  | part :: rest => part = some m ∨ m.IsOf rest

variable {m : Malformed} {n : Node} {nodes nodes' : List Node}

@[simp] theorem isAmong_cons : m.IsAmong (n :: nodes) ↔ n.Has m ∨ m.IsAmong nodes := by
  simp [IsAmong]

@[simp] theorem isAmong_append : m.IsAmong (nodes ++ nodes') ↔ m.IsAmong nodes ∨ m.IsAmong nodes' := by
  simp [IsAmong, or_and_right, exists_or]

theorem IsAmong.head (h : n.Has m) : m.IsAmong (n :: nodes) :=
  isAmong_cons.mpr (.inl h)

/-- The first defect of several parts is that of one of them. -/
theorem isOf_of_first {parts : List (Option Malformed)} (h : first parts = some m) :
    m.IsOf parts := by
  induction parts with
  | nil => cases h
  | cons part rest ih =>
    cases rest with
    | nil => cases part <;> exact h
    | cons next rest =>
      cases part with
      | none => exact .inr (ih h)
      | some defect => exact .inl h

theorem of_when {holds : Bool} {defect : Malformed} (h : when holds defect = some m) :
    holds = true ∧ defect = m := by
  cases holds with
  | false => cases h
  | true => exact ⟨rfl, Option.some.inj h⟩

end Malformed

open Malformed

namespace Node

variable {n : Node} {m : Malformed}

theorem Has.of_empty {name : String} (h : when (name = "") n.emptyName = some m)
    (hname : name ∈ n.names) : n.Has m := by
  obtain ⟨hempty, rfl⟩ := of_when h
  exact .emptyName (of_decide_eq_true hempty ▸ hname)

theorem Has.of_inIdentifier {name : String} (h : inIdentifier name = some m)
    (hn : n.emptyName = .emptyIdentifier) (hname : name ∈ n.names) : n.Has m :=
  .of_empty (hn ▸ h) hname

theorem Has.of_inIdentifiers {names : List String} (h : inIdentifiers names = some m)
    (hn : n.emptyName = .emptyIdentifier) (hnames : names ⊆ n.names) : n.Has m := by
  obtain ⟨name, hname, h⟩ := List.exists_of_findSome?_eq_some h
  exact .of_inIdentifier h hn (hnames hname)

theorem Has.of_inOptional {name : Option String} (h : inOptional name = some m)
    (hn : n.emptyName = .emptyIdentifier) (hname : name.toList ⊆ n.names) : n.Has m := by
  cases name with
  | none => cases h
  | some name => exact .of_inIdentifier h hn (hname (by simp))

end Node

variable {m : Malformed}

mutual

theorem DataType.isAmong_of_defect? : ∀ t : DataType, t.defect? = some m → m.IsAmong t.nodes
  | .simple name, h => .head (.of_empty h (by simp [Node.names]))
  | .sized name parameters, h => by
    obtain h | h := isOf_of_first h
    · obtain ⟨hempty, rfl⟩ := of_when h
      exact .head (.sizedWithoutParameters (List.isEmpty_iff.mp hempty))
    · exact .head (.of_empty h (by simp [Node.names]))
  | .array element, h => by
    simp [DataType.nodes, DataType.isAmong_of_defect? element h]
  | .map key value, h => by
    obtain h | h := isOf_of_first h
    · simp [DataType.nodes, DataType.isAmong_of_defect? key h]
    · simp [DataType.nodes, DataType.isAmong_of_defect? value h]
  | .struct fields, h => by
    simp [DataType.nodes, isAmong_of_fieldsDefect? fields h]

theorem isAmong_of_fieldsDefect? :
    ∀ l : List StructField, fieldsDefect? l = some m → m.IsAmong (fieldsNodes l)
  | ⟨name, dataType⟩ :: rest, h => by
    obtain h | h | h := isOf_of_first h
    · exact .head (.of_empty h (by simp [Node.names]))
    · simp [fieldsNodes, DataType.isAmong_of_defect? dataType h]
    · simp [fieldsNodes, isAmong_of_fieldsDefect? rest h]

end

mutual

theorem Expr.isAmong_of_defect? : ∀ e : Expr, e.defect? = some m → m.IsAmong e.nodes
  | .column qualifier name, h => by
    obtain h | h := isOf_of_first h
    · exact .head (.of_inIdentifiers h rfl (by simp [Node.names]))
    · exact .head (.of_inIdentifier h rfl (by simp [Node.names]))
  | .wildcard qualifier, h => .head (.of_inIdentifiers h rfl (by simp [Node.names]))
  | .binary left op right, h => by
    obtain h | h := isOf_of_first h
    · simp [Expr.nodes, left.isAmong_of_defect? h]
    · simp [Expr.nodes, right.isAmong_of_defect? h]
  | .unary op operand, h => by simp [Expr.nodes, operand.isAmong_of_defect? h]
  | .paren inner, h => by simp [Expr.nodes, inner.isAmong_of_defect? h]
  | .isNull operand negated, h => by simp [Expr.nodes, operand.isAmong_of_defect? h]
  | .inList operand list negated, h => by
    obtain h | h | h := isOf_of_first h
    · obtain ⟨hempty, rfl⟩ := of_when h
      exact .head (.inWithoutValues (List.isEmpty_iff.mp hempty))
    · simp [Expr.nodes, isAmong_of_exprsDefect? list h]
    · simp [Expr.nodes, operand.isAmong_of_defect? h]
  | .between operand low high negated, h => by
    obtain h | h | h := isOf_of_first h
    · simp [Expr.nodes, operand.isAmong_of_defect? h]
    · simp [Expr.nodes, low.isAmong_of_defect? h]
    · simp [Expr.nodes, high.isAmong_of_defect? h]
  | .caseOf operand clauses otherwise, h => by
    obtain h | h | h | h := isOf_of_first h
    · obtain ⟨hempty, rfl⟩ := of_when h
      exact .head (.caseWithoutClauses (List.isEmpty_iff.mp hempty))
    · simp [Expr.nodes, isAmong_of_optionalDefect? operand h]
    · simp [Expr.nodes, isAmong_of_clausesDefect? clauses h]
    · simp [Expr.nodes, isAmong_of_optionalDefect? otherwise h]
  | .cast operand dataType, h => by
    obtain h | h := isOf_of_first h
    · simp [Expr.nodes, operand.isAmong_of_defect? h]
    · simp [Expr.nodes, dataType.isAmong_of_defect? h]
  | .call function, h => by simp [Expr.nodes, function.isAmong_of_defect? h]
  | .subquery query, h => by simp [Expr.nodes, query.isAmong_of_defect? h]
  | .existsRow query, h => by simp [Expr.nodes, query.isAmong_of_defect? h]

theorem isAmong_of_optionalDefect? :
    ∀ e : Option Expr, optionalDefect? e = some m → m.IsAmong (optionalNodes e)
  | some e, h => e.isAmong_of_defect? h

theorem isAmong_of_exprsDefect? :
    ∀ l : List Expr, exprsDefect? l = some m → m.IsAmong (exprsNodes l)
  | e :: rest, h => by
    obtain h | h := isOf_of_first h
    · simp [exprsNodes, e.isAmong_of_defect? h]
    · simp [exprsNodes, isAmong_of_exprsDefect? rest h]

theorem isAmong_of_clausesDefect? :
    ∀ l : List WhenClause, clausesDefect? l = some m → m.IsAmong (clausesNodes l)
  | ⟨condition, result⟩ :: rest, h => by
    obtain h | h | h := isOf_of_first h
    · simp [clausesNodes, condition.isAmong_of_defect? h]
    · simp [clausesNodes, result.isAmong_of_defect? h]
    · simp [clausesNodes, isAmong_of_clausesDefect? rest h]

theorem Call.isAmong_of_defect? : ∀ c : Call, c.defect? = some m → m.IsAmong c.nodes
  | ⟨name, arguments, distinct, ignoreNulls, window⟩, h => by
    obtain h | h | h | h := isOf_of_first h
    · exact .head (.of_empty h (by simp [Node.names]))
    · obtain ⟨hmissing, rfl⟩ := of_when h
      obtain ⟨hdistinct, harguments⟩ := Bool.and_eq_true_iff.mp hmissing
      exact .head (.distinctWithoutArguments hdistinct (List.isEmpty_iff.mp harguments))
    · simp [Call.nodes, isAmong_of_exprsDefect? arguments h]
    · simp [Call.nodes, isAmong_of_windowDefect? window h]

theorem isAmong_of_windowDefect? :
    ∀ w : Option Window, windowDefect? w = some m → m.IsAmong (windowNodes w)
  | some ⟨partition, order⟩, h => by
    obtain h | h := isOf_of_first h
    · simp [windowNodes, isAmong_of_exprsDefect? partition h]
    · simp [windowNodes, isAmong_of_itemsDefect? order h]

theorem isAmong_of_itemsDefect? :
    ∀ l : List OrderItem, itemsDefect? l = some m → m.IsAmong (itemsNodes l)
  | ⟨key, direction, nulls⟩ :: rest, h => by
    obtain h | h := isOf_of_first h
    · simp [itemsNodes, key.isAmong_of_defect? h]
    · simp [itemsNodes, isAmong_of_itemsDefect? rest h]

theorem Select.isAmong_of_defect? : ∀ q : Select, q.defect? = some m → m.IsAmong q.nodes
  | ⟨distinct, columns, source, views, filter, groups, having, ordering, limit⟩, h => by
    obtain h | h | h | h | h | h | h | h | h | h := isOf_of_first h
    · obtain ⟨hempty, rfl⟩ := of_when h
      exact .head (.noColumns (List.isEmpty_iff.mp hempty))
    · simp [Select.nodes, isAmong_of_columnsDefect? columns h]
    · simp [Select.nodes, isAmong_of_sourceDefect? source h]
    · obtain ⟨hmissing, rfl⟩ := of_when h
      obtain ⟨hsource, hviews⟩ : source = none ∧ views ≠ [] := by simpa using hmissing
      exact .head (.viewWithoutSource hviews hsource)
    · simp [Select.nodes, isAmong_of_viewsDefect? views h]
    · simp [Select.nodes, isAmong_of_optionalDefect? filter h]
    · simp [Select.nodes, isAmong_of_groupsDefect? groups h]
    · simp [Select.nodes, isAmong_of_optionalDefect? having h]
    · simp [Select.nodes, isAmong_of_orderingDefect? ordering h]
    · simp [Select.nodes, isAmong_of_optionalDefect? limit h]

theorem isAmong_of_columnsDefect? :
    ∀ l : List SelectItem, columnsDefect? l = some m → m.IsAmong (columnsNodes l)
  | ⟨value, label⟩ :: rest, h => by
    obtain h | h | h := isOf_of_first h
    · simp [columnsNodes, value.isAmong_of_defect? h]
    · exact .head (.of_inOptional h rfl (by simp [Node.names]))
    · simp [columnsNodes, isAmong_of_columnsDefect? rest h]

theorem isAmong_of_sourceDefect? :
    ∀ s : Option Source, sourceDefect? s = some m → m.IsAmong (sourceNodes s)
  | some ⟨relation, joins⟩, h => by
    obtain h | h := isOf_of_first h
    · simp [sourceNodes, relation.isAmong_of_defect? h]
    · simp [sourceNodes, isAmong_of_joinsDefect? joins h]

theorem Relation.isAmong_of_defect? : ∀ r : Relation, r.defect? = some m → m.IsAmong r.nodes
  | .table schema name label, h => by
    obtain h | h | h := isOf_of_first h
    · exact .head (.of_inOptional h rfl (by simp [Node.names]))
    · exact .head (.of_inIdentifier h rfl (by simp [Node.names]))
    · exact .head (.of_inOptional h rfl (by simp [Node.names]))
  | .derived query label, h => by
    obtain h | h := isOf_of_first h
    · simp [Relation.nodes, query.isAmong_of_defect? h]
    · exact .head (.of_inOptional h rfl (by simp [Node.names]))

theorem isAmong_of_joinsDefect? :
    ∀ l : List Join, joinsDefect? l = some m → m.IsAmong (joinsNodes l)
  | ⟨type, relation, condition, columns⟩ :: rest, h => by
    obtain h | h | h | h | h | h := isOf_of_first h
    · obtain ⟨hcross, rfl⟩ := of_when h
      have h : type = .cross ∧ (condition ≠ none ∨ columns ≠ []) := by
        simpa [Option.isSome_iff_ne_none] using hcross
      exact .head (.conditionOnCrossJoin h.1 h.2)
    · obtain ⟨hboth, rfl⟩ := of_when h
      have h : condition ≠ none ∧ columns ≠ [] := by
        simpa [Option.isSome_iff_ne_none] using hboth
      exact .head (.conditionAndColumns h.1 h.2)
    · simp [joinsNodes, relation.isAmong_of_defect? h]
    · simp [joinsNodes, isAmong_of_optionalDefect? condition h]
    · exact .head (.of_inIdentifiers h rfl (by simp [Node.names]))
    · simp [joinsNodes, isAmong_of_joinsDefect? rest h]

theorem isAmong_of_viewsDefect? :
    ∀ l : List LateralView, viewsDefect? l = some m → m.IsAmong (viewsNodes l)
  | ⟨outer, generator, table, columns⟩ :: rest, h => by
    obtain h | h | h | h | h := isOf_of_first h
    · obtain ⟨hempty, rfl⟩ := of_when h
      exact .head (.viewWithoutColumns (List.isEmpty_iff.mp hempty))
    · simp [viewsNodes, generator.isAmong_of_defect? h]
    · exact .head (.of_inIdentifier h rfl (by simp [Node.names]))
    · exact .head (.of_inIdentifiers h rfl (by simp [Node.names]))
    · simp [viewsNodes, isAmong_of_viewsDefect? rest h]

theorem isAmong_of_groupsDefect? :
    ∀ l : List GroupItem, groupsDefect? l = some m → m.IsAmong (groupsNodes l)
  | .value key :: rest, h => by
    obtain h | h := isOf_of_first h
    · simp [groupsNodes, key.isAmong_of_defect? h]
    · simp [groupsNodes, isAmong_of_groupsDefect? rest h]
  | .ordinal position :: rest, h => by
    obtain h | h := isOf_of_first h
    · obtain ⟨hzero, rfl⟩ := of_when h
      exact .head (.ordinalZero (of_decide_eq_true hzero))
    · simp [groupsNodes, isAmong_of_groupsDefect? rest h]

theorem isAmong_of_orderingDefect? :
    ∀ o : Option RowOrdering, orderingDefect? o = some m → m.IsAmong (orderingNodes o)
  | some (.orderBy items), h | some (.sortBy items), h => by
    obtain h | h := isOf_of_first h
    · obtain ⟨hempty, rfl⟩ := of_when h
      exact .head (.emptyOrdering (List.isEmpty_iff.mp hempty))
    · simp [orderingNodes, isAmong_of_itemsDefect? items h]
  | some (.distributeBy keys sort), h | some (.clusterBy keys sort), h => by
    obtain h | h | h := isOf_of_first h
    · obtain ⟨hempty, rfl⟩ := of_when h
      exact .head (.emptyOrdering (List.isEmpty_iff.mp hempty))
    · simp [orderingNodes, isAmong_of_itemsDefect? keys h]
    · obtain ⟨rfl, rfl⟩ | h := isAmong_of_trailingDefect? sort h
      · exact .head (.emptyTrailingSort rfl)
      · simp [orderingNodes, h]

/-- An empty list behind `SORT BY` is a defect of the ordering that it belongs to. -/
theorem isAmong_of_trailingDefect? :
    ∀ o : Option (List OrderItem), trailingDefect? o = some m →
      o = some [] ∧ m = .emptyOrdering .sortBy ∨ m.IsAmong (trailingNodes o)
  | some items, h => by
    obtain h | h := isOf_of_first h
    · obtain ⟨hempty, rfl⟩ := of_when h
      exact .inl ⟨congrArg some (List.isEmpty_iff.mp hempty), rfl⟩
    · exact .inr (isAmong_of_itemsDefect? items h)

end

namespace Statement

theorem defect?_ne_none_iff (a : Statement) :
    a.defect? ≠ none ↔ ∃ n ∈ a.nodes, ∃ m, n.Has m := by
  obtain ⟨query⟩ := a
  calc query.defect? ≠ none
    _ ↔ ¬∀ n ∈ query.nodes, n.HasText := not_congr query.defect?_eq_none
    _ ↔ ∃ n ∈ query.nodes, ∃ m, n.Has m := by simp [Node.exists_has_iff]

/-- A statement is refused exactly if one of its nodes has a defect, whichever the dialect. It is
refused for a defect that one of its nodes does have, and for the same one in every dialect, so that
it can be written in all of them or in none. -/
theorem refused_iff_exists_has (a : Statement) :
    (∀ d : Dialect, (∃ m, a.render d = .error m) ↔ ∃ n ∈ a.nodes, ∃ m, n.Has m) ∧
      (∀ (d : Dialect) (m : Malformed), a.render d = .error m → ∃ n ∈ a.nodes, n.Has m) ∧
      ∀ d d' : Dialect, ((∃ t, a.render d = .ok t) ∧ ∃ t, a.render d' = .ok t) ∨
        ∃ m, a.render d = .error m ∧ a.render d' = .error m := by
  refine ⟨fun d => ?_, fun d m h => ?_, fun d d' => ?_⟩
  · exact exists_render_eq_error.trans a.defect?_ne_none_iff
  · obtain ⟨query⟩ := a
    exact query.isAmong_of_defect? (render_eq_error.mp h)
  · cases h : a.defect? with
    | none => exact .inl ⟨⟨_, render_eq_ok.mpr ⟨h, rfl⟩⟩, _, render_eq_ok.mpr ⟨h, rfl⟩⟩
    | some m => exact .inr ⟨m, render_eq_error.mpr h, render_eq_error.mpr h⟩

/-- A window may have no keys, an ordering of the rows may not. -/
example :
    let rank : Expr := .call ⟨"rank", [], false, false, some ⟨[], []⟩⟩
    let query (ordering : Option RowOrdering) : Statement :=
      .select ⟨false, [⟨rank, none⟩], none, [], none, [], none, ordering, none⟩
    (query none).render .spark = .ok "SELECT RANK() OVER ()" ∧
      (query (some (.orderBy []))).render .spark = .error (.emptyOrdering .orderBy) := by
  constructor <;> cbv

end Statement

end SqlDialects
