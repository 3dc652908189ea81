import Mathlib
import SqlDialects.Proofs.Parser.Extension
import SqlDialects.Proofs.Parser.Text

/-!
# Queries in a dialect that extends another

Main statement: a statement is read in the smaller dialect exactly if it is read in the larger one,
as a tree that uses nothing but what the smaller dialect has.
-/

namespace SqlDialects

namespace Parser

variable {d e : Dialect} (hde : d.IsExtendedBy e)

/-! ## Joins -/

section Joins
include hde

theorem restricts_leftJoinType :
    Restricts True (leftJoinType d) (leftJoinType e)
      fun j => ∀ f ∈ j.feature?, d.supports f = true := by
  apply Restricts.same rfl
  intro k
  split
  · apply Restricts.require hde.supports
    apply Restricts.same rfl
    intro _
    exact .pure fun h => ⟨trivial, h _ rfl⟩
  · apply Restricts.require hde.supports
    apply Restricts.same rfl
    intro _
    exact .pure fun h => ⟨trivial, h _ rfl⟩
  · apply Restricts.same rfl
    intro _
    exact .pure fun _ => trivial

theorem restricts_joinType :
    Restricts True (joinType d) (joinType e) fun j => ∀ f ∈ j.feature?, d.supports f = true := by
  apply Restricts.same rfl
  intro k
  dsimp only
  split
  · exact .of_eq rfl
  · apply Restricts.same rfl
    intro _
    apply Restricts.bind (restricts_leftJoinType hde)
    intro type
    apply Restricts.same rfl
    intro _
    exact .pure fun h => ⟨trivial, h⟩
  · exact .of_eq rfl
  · exact .of_eq rfl
  · exact .of_eq rfl
  · exact .of_eq rfl

end Joins

variable {g h : Nested} (hg : g.Restricts d h)
include hg

/-! ## Relations -/

section Strings
variable (hs : d.doubleQuotedStrings = e.doubleQuotedStrings)
include hs

theorem restricts_selectItem :
    Restricts True (selectItem d g) (selectItem e h)
      fun c => ∀ n ∈ c.value.nodes, n.SupportedBy d := by
  apply Restricts.bind (hg.expression 0)
  intro value
  apply Restricts.same (optionalAlias_eq hs)
  intro label
  exact .pure fun h => ⟨trivial, h⟩

theorem restricts_relation :
    Restricts True (relation d g) (relation e h) fun r => ∀ n ∈ r.nodes, n.SupportedBy d := by
  apply Restricts.same rfl
  intro k
  apply Restricts.ite
  · apply Restricts.bind (Restricts.parenthesized hg.query)
    intro q
    apply Restricts.same (optionalAlias_eq hs)
    intro label
    exact .pure fun h => by simpa [Relation.nodes] using h
  · exact .of_eq (by rw [identifier_eq hs, name_eq hs, optionalAlias_eq hs])

end Strings

include hde

theorem restricts_join :
    Restricts True (join d g) (join e h) fun o => ∀ j ∈ o,
      ((∀ f ∈ j.type.feature?, d.supports f = true) ∧ ∀ n ∈ j.relation.nodes, n.SupportedBy d) ∧
        ∀ n ∈ optionalNodes j.condition, n.SupportedBy d := by
  have hs := hde.doubleQuotedStrings
  apply Restricts.same rfl
  intro k
  refine .ite ?_ (.pure fun _ => trivial)
  apply Restricts.bind (restricts_joinType hde)
  intro type
  apply Restricts.bind (restricts_relation hg hs)
  intro r
  refine .ite (.pure fun h => by simpa using h) ?_
  apply Restricts.same rfl
  intro on
  apply Restricts.ite
  · apply Restricts.bind (hg.expression 0)
    intro condition
    exact .pure fun h => by simpa using h
  · apply Restricts.same rfl
    intro shared
    refine .ite ?_ (.pure fun h => by simpa using h)
    have columns : parenthesized (identifierList d) = parenthesized (identifierList e) := by
      rw [identifierList_eq hs]
    apply Restricts.same columns
    intro names
    exact .pure fun h => by simpa using h

theorem restricts_source :
    Restricts True (source d g) (source e h)
      fun s => ∀ n ∈ sourceNodes (some s), n.SupportedBy d := by
  apply Restricts.bind (restricts_relation hg hde.doubleQuotedStrings)
  intro r
  apply Restricts.bind (Restricts.many (restricts_join hde hg))
  intro joins
  apply Restricts.pure
  intro h
  simpa [and_assoc] using h

theorem restricts_lateralView :
    Restricts True (lateralView d g) (lateralView e h) fun o => ∀ v ∈ o,
      d.supports .lateralView = true ∧ ∀ n ∈ v.generator.nodes, n.SupportedBy d := by
  have hs := hde.doubleQuotedStrings
  apply Restricts.same rfl
  intro k
  refine .ite ?_ (.pure fun _ => trivial)
  apply Restricts.require hde.supports
  apply Restricts.same rfl
  intro _
  apply Restricts.same rfl
  intro _
  apply Restricts.same rfl
  intro outer
  apply Restricts.same (identifier_eq hs)
  intro function
  apply Restricts.bind (restricts_call hg function)
  intro generator
  apply Restricts.same (identifier_eq hs)
  intro table
  apply Restricts.same rfl
  intro _
  apply Restricts.same (identifierList_eq hs)
  intro columns
  exact .pure fun h => by simpa using h

theorem restricts_fromClause :
    Restricts True (fromClause d g) (fromClause e h) fun p =>
      (∀ n ∈ sourceNodes p.1, n.SupportedBy d) ∧ ∀ n ∈ viewsNodes p.2, n.SupportedBy d := by
  apply Restricts.same rfl
  intro given
  refine .ite ?_ (.pure fun _ => trivial)
  apply Restricts.bind (restricts_source hde hg)
  intro s
  apply Restricts.bind (Restricts.many (restricts_lateralView hde hg))
  intro views
  exact .pure fun h => by simpa using h

/-! ## The clauses behind the relations -/

omit hde in
theorem restricts_clause (keyword : Keyword) :
    Restricts True (clause g keyword) (clause h keyword)
      fun o => ∀ n ∈ optionalNodes o, n.SupportedBy d := by
  apply Restricts.same rfl
  intro given
  refine .ite ?_ (.pure fun _ => trivial)
  apply Restricts.bind (hg.expression 0)
  intro x
  exact .pure fun h => by simpa using h

omit hde in
theorem restricts_groupItem :
    Restricts True (groupItem g) (groupItem h) fun i => ∀ n ∈ i.nodes, n.SupportedBy d := by
  apply Restricts.bind (hg.expression 0)
  intro key
  have value : Restricts (True ∧ ∀ n ∈ key.nodes, n.SupportedBy d)
      (pure (GroupItem.value key)) (pure (GroupItem.value key))
      fun i => ∀ n ∈ i.nodes, n.SupportedBy d := by
    apply Restricts.pure
    intro h
    simpa [GroupItem.nodes] using h
  split
  · refine .ite ?_ value
    exact .pure fun _ => by simp [Expr.nodes]
  · exact value

omit hde in
theorem restricts_groupBy :
    Restricts True (groupBy g) (groupBy h) fun l => ∀ n ∈ groupsNodes l, n.SupportedBy d := by
  apply Restricts.same rfl
  intro given
  refine .ite ?_ (.pure fun _ => trivial)
  apply Restricts.same rfl
  intro _
  apply (Restricts.commaList (restricts_groupItem hg)).mono
  intro l hl
  simpa using hl

omit hde in
theorem restricts_keys :
    Restricts True (keys g) (keys h) fun l => ∀ n ∈ itemsNodes l, n.SupportedBy d := by
  apply Restricts.bind (restricts_expressionList hg)
  intro l
  exact .pure fun h => by simpa using h

theorem restricts_trailingSort (kind : OrderingKind) :
    Restricts True (trailingSort d g kind) (trailingSort e h kind) fun o =>
      (o ≠ none → d.allowsSortAfter kind = true) ∧ ∀ n ∈ trailingNodes o, n.SupportedBy d := by
  apply Restricts.same rfl
  intro k
  refine .ite ?_ (.pure fun _ => trivial)
  apply Restricts.gate hde.allowsSortAfter
  · apply Restricts.same rfl
    intro _
    apply Restricts.same rfl
    intro _
    apply Restricts.bind (restricts_orderItems hg)
    intro items
    apply Restricts.pure
    intro h
    exact ⟨⟨trivial, h.1 (by simp)⟩, by simpa using h.2⟩
  · exact fun _ => ⟨_, _, rfl⟩
  · exact fun _ => ⟨_, _, rfl⟩

theorem restricts_orderingBody (kind : OrderingKind) :
    Restricts (d.supports (.ordering kind) = true) (orderingBody d g kind) (orderingBody e h kind)
      fun o => ∀ n ∈ orderingNodes (some o), n.SupportedBy d := by
  cases kind with
  | orderBy | sortBy =>
    apply Restricts.bind (restricts_orderItems hg)
    intro items
    apply Restricts.pure
    intro h
    rw [orderingNodes, List.forall_mem_cons, forall_itemsNodes] at h
    exact ⟨h.1.1, h.2⟩
  | distributeBy | clusterBy =>
    apply Restricts.bind (restricts_keys hg)
    intro keys
    apply Restricts.bind (restricts_trailingSort hde hg _)
    intro sort
    apply Restricts.pure
    intro h
    rw [orderingNodes, List.forall_mem_cons, List.forall_mem_append] at h
    exact ⟨⟨h.1.1, h.2.1⟩, h.1.2, h.2.2⟩

theorem restricts_ordering :
    Restricts True (ordering d g) (ordering e h)
      fun o => ∀ n ∈ orderingNodes o, n.SupportedBy d := by
  apply Restricts.same rfl
  intro k
  split
  · exact .pure fun _ => trivial
  · rename_i first _
    apply Restricts.require hde.supports
    apply Restricts.same rfl
    intro _
    apply Restricts.same rfl
    intro _
    have body := (restricts_orderingBody hde hg first).imp fun h => And.intro trivial h
    apply Restricts.seq body
    intro ordering
    apply Restricts.same rfl
    intro next
    split
    · exact .fail _ _
    · exact .pure id

theorem restricts_queryOf :
    Restricts True (queryOf d g) (queryOf e h) fun q => ∀ n ∈ q.nodes, n.SupportedBy d := by
  apply Restricts.same rfl
  intro _
  apply Restricts.same rfl
  intro distinct
  apply Restricts.bind (Restricts.commaList (restricts_selectItem hg hde.doubleQuotedStrings))
  intro columns
  apply Restricts.bind (restricts_fromClause hde hg)
  intro p
  apply Restricts.bind (restricts_clause hg .WHERE)
  intro filter
  apply Restricts.bind (restricts_groupBy hg)
  intro groups
  apply Restricts.bind (restricts_clause hg .HAVING)
  intro having
  apply Restricts.bind (restricts_ordering hde hg)
  intro ordering
  apply Restricts.bind (restricts_clause hg .LIMIT)
  intro limit
  apply Restricts.pure
  intro h
  simp only [Select.nodes, List.forall_mem_cons, List.forall_mem_append, forall_columnsNodes] at h
  obtain ⟨-, hc, hs, hv, hw, hgr, hh, ho, hl⟩ := h
  exact ⟨⟨⟨⟨⟨⟨⟨trivial, fun c hmem => (hc c hmem).2⟩, hs, hv⟩, hw⟩, hgr⟩, hh⟩, ho⟩, hl⟩

/-! ## Nesting and statements -/

omit hg in
theorem restricts_nestedWithin (n : Nat) : (nestedWithin d n).Restricts d (nestedWithin e n) := by
  induction n with
  | zero => exact ⟨fun _ => .unexpected _, .unexpected _⟩
  | succ n ih => exact ⟨restricts_expressionOf ih hde, restricts_queryOf hde ih⟩

omit hg in
theorem restricts_statement :
    Restricts True (statement d) (statement e) fun a => ∀ n ∈ a.nodes, n.SupportedBy d := by
  have query : Restricts True (query d) (query e) fun q => ∀ n ∈ q.nodes, n.SupportedBy d :=
    ⟨fun s _ _ h => (restricts_nestedWithin hde (s.rest.length + 1)).query.extends_ok h,
      fun s _ _ h hQ => (restricts_nestedWithin hde (s.rest.length + 1)).query.of_ok h hQ⟩
  apply Restricts.bind query
  intro q
  apply Restricts.same rfl
  intro _
  apply Restricts.same rfl
  intro last
  apply Restricts.ite
  · exact .pure fun h => ⟨trivial, h⟩
  · exact .of_error (fun _ => ⟨_, _, rfl⟩) fun _ => ⟨_, _, rfl⟩

end Parser

variable {d e : Dialect}

/-- A dialect reads exactly those tokens that a dialect extending it reads as a tree that uses
nothing but what the former has, and it reads them as the same tree. -/
theorem TokenStream.statement_eq_ok_iff (h : d.IsExtendedBy e) (ts : List Token) (a : Statement) :
    ((ofList ts).statement d).1 = .ok a ↔
      ((ofList ts).statement e).1 = .ok a ∧ ∀ n ∈ a.nodes, n.SupportedBy d := by
  have statement (d : Dialect) :
      ((ofList ts).statement d).1 = .ok a ↔ ∃ s', Parser.statement d (ofList ts) = .ok a s' := by
    unfold TokenStream.statement
    cases Parser.statement d (ofList ts) <;> simp
  rw [statement, statement]
  constructor
  · rintro ⟨s', hs⟩
    have sound := Parser.yields_statement (T := fun _ => True) (fun _ _ => trivial) hs
    exact ⟨⟨s', (Parser.restricts_statement h).extends_ok hs⟩, fun n hn => (sound.1 n hn).supported⟩
  · rintro ⟨⟨s', hs⟩, hsupported⟩
    exact ⟨s', ((Parser.restricts_statement h).of_ok hs hsupported).2⟩

/-- The generic dialect with one operator more. -/
def Dialect.matching : Dialect :=
  { Dialect.generic with rlike := true }

/-- The tokens of `SELECT a RLIKE b`. -/
def matchTokens : List Token :=
  [⟨.keyword .SELECT, ⟨0, 6⟩, "SELECT"⟩, ⟨.identifier "a", ⟨7, 8⟩, "a"⟩,
    ⟨.keyword .RLIKE, ⟨9, 14⟩, "RLIKE"⟩, ⟨.identifier "b", ⟨15, 16⟩, "b"⟩,
    ⟨.endOfInput, ⟨16, 16⟩, ""⟩]

def matchStatement : Statement :=
  .select ⟨false, [⟨.binary (.column [] "a") .rlike (.column [] "b"), none⟩], none, [], none, [],
    none, none, none⟩

theorem TokenStream.statement_matchTokens :
    Dialect.generic.IsExtendedBy .matching ∧
      ((ofList matchTokens).statement .matching).1 = .ok matchStatement ∧
        ¬ ((ofList matchTokens).statement .generic).1 = .ok matchStatement := by
  have h : Dialect.generic.IsExtendedBy .matching := by
    refine ⟨?_, rfl⟩
    constructor <;> decide
  have hread : ((ofList matchTokens).statement .matching).1 = .ok matchStatement := by cbv
  refine ⟨h, hread, fun hgeneric => ?_⟩
  have hsupported := ((statement_eq_ok_iff h matchTokens matchStatement).mp hgeneric).2
  have hmatch : Node.expr (.binary (.column [] "a") .rlike (.column [] "b")) ∈
      matchStatement.nodes := .tail _ (.tail _ (.head _))
  exact absurd (hsupported _ hmatch .rlike rfl) (by decide)

end SqlDialects
