import SqlDialects.Proofs.Parser.Trees

/-!
# The queries that parsers return

Main statement: every node of a statement that is read is sound.
-/

namespace SqlDialects

namespace Parser

variable {T : Token → Prop} {d : Dialect} {g : Nested} (hg : g.Sound T d)

/-! ## Relations -/

section Relation
include hg

theorem yields_selectItem :
    Yields T (selectItem d g) fun c => (Node.item c).Sound T d ∧ ∀ n ∈ c.value.nodes, n.Sound T d :=
  (yields_expression hg).bind fun _ he => .skip (goesForward_congruence.optionalAlias d) fun _ =>
    .pure ⟨⟨trivial, trivial, trivial, trivial, trivial⟩, he⟩

theorem yields_relation : Yields T (relation d g) fun r => ∀ n ∈ r.nodes, n.Sound T d := by
  have table (schema : Option String) (name : String) (label : Option String) :
      ∀ n ∈ (Relation.table schema name label).nodes, n.Sound T d := by
    rw [Relation.nodes, List.forall_mem_singleton]
    exact ⟨trivial, trivial, trivial, trivial, trivial⟩
  have label := goesForward_congruence.optionalAlias d
  refine .kind fun _ => .ite (fun _ => ?_) fun _ => ?_
  · refine (Yields.parenthesized hg.query).bind fun q hq => .skip label fun _ => .pure ?_
    rw [Relation.nodes, List.forall_mem_cons]
    exact ⟨⟨trivial, trivial, trivial, trivial, trivial⟩, hq⟩
  · refine .skip (goesForward_congruence.identifier d) fun _ => .accept _ fun _ => .ite
      (fun _ => ?_) fun _ => .skip label fun _ => .pure (table _ _ _)
    exact .skip (goesForward_congruence.name d) fun _ => .skip label fun _ => .pure (table _ _ _)

end Relation

theorem yields_leftJoinType :
    Yields T (leftJoinType d) fun j => ∀ f ∈ j.feature?, d.supports f = true := by
  refine .kind fun _ => ?_
  split
  · exact .require fun h => .advance (.pure (by simpa [JoinType.feature?] using h))
  · exact .require fun h => .advance (.pure (by simpa [JoinType.feature?] using h))
  · exact .accept _ fun _ => .pure (by simp [JoinType.feature?])

theorem yields_joinType :
    Yields T (joinType d) fun j => ∀ f ∈ j.feature?, d.supports f = true := by
  have close {j : JoinType} (hj : ∀ f ∈ j.feature?, d.supports f = true) :
      Yields T (do expect (.keyword .JOIN); return j) fun j => ∀ f ∈ j.feature?, d.supports f = true :=
    .expect _ (.pure hj)
  have plain {j : JoinType} (hj : j.feature? = none) :
      Yields T (do
        let type ← pure j
        expect (.keyword .JOIN)
        return type) fun j => ∀ f ∈ j.feature?, d.supports f = true :=
    .bind (.pure (Q := fun j => ∀ f ∈ j.feature?, d.supports f = true) (by simp [hj])) fun _ => close
  refine .kind fun _ => ?_
  dsimp only
  split
  · exact .advance (plain rfl)
  · exact .advance (yields_leftJoinType.bind fun _ => close)
  · exact .advance (.accept _ fun _ => plain rfl)
  · exact .advance (.accept _ fun _ => plain rfl)
  · exact .advance (plain rfl)
  · exact plain rfl

include hg

theorem yields_join :
    Yields T (join d g) fun o => ∀ j ∈ o,
      (Node.join j).Sound T d ∧ (∀ n ∈ j.relation.nodes, n.Sound T d) ∧
        ∀ n ∈ optionalNodes j.condition, n.Sound T d := by
  refine .kind fun _ => .ite (fun _ => ?_) fun _ => .pure (by simp)
  refine yields_joinType.bind fun type ht => (yields_relation hg).bind fun r hr => ?_
  have sound (condition : Option Expr) (columns : List String)
      (hc : (Node.join ⟨type, r, condition, columns⟩).Complete) :
      (Node.join ⟨type, r, condition, columns⟩).Sound T d :=
    ⟨hc, trivial, trivial, ht, trivial⟩
  refine .ite (fun _ => .pure ?_) fun hcross => .accept _ fun _ => .ite (fun _ => ?_) fun _ =>
    .accept _ fun _ => .ite (fun _ => ?_) fun _ => .pure ?_
  · simpa using ⟨sound none [] (by simp), hr⟩
  · exact (yields_expression hg).bind fun c hc =>
      .pure (by simpa using ⟨sound (some c) [] (by simp [hcross]), hr, hc⟩)
  · have columns : GoesForward (parenthesized (identifierList d)) :=
      goesForward_congruence.parenthesized (q := identifierList d)
        (goesForward_congruence.identifierList d)
    exact .skip columns fun columns =>
      .pure (by simpa using ⟨sound none columns (by simp [hcross]), hr⟩)
  · simpa using ⟨sound none [] (by simp), hr⟩

theorem yields_source :
    Yields T (source d g) fun s =>
      (∀ n ∈ s.relation.nodes, n.Sound T d) ∧ ∀ n ∈ joinsNodes s.joins, n.Sound T d :=
  (yields_relation hg).bind fun _ hr => (Yields.many (yields_join hg)).bind fun _ hj =>
    .pure ⟨hr, by simpa using hj⟩

theorem yields_lateralView :
    Yields T (lateralView d g) fun o => ∀ v ∈ o,
      (Node.view v).Sound T d ∧ ∀ n ∈ v.generator.nodes, n.Sound T d := by
  have name := goesForward_congruence.identifier d
  refine .kind fun _ => .ite (fun _ => .require fun hd => ?_) fun _ => .pure (by simp)
  refine .advance <| .expect _ <| .accept _ fun outer => .skip name fun function =>
    (yields_call hg function).bind fun c hc => .skip name fun table => .expect _ ?_
  refine (Yields.commaList (Yields.any name)).bind fun columns hne => .pure ?_
  simpa using ⟨⟨hne.1, trivial, trivial, hd, trivial⟩, hc⟩

theorem yields_fromClause :
    Yields T (fromClause d g) fun p =>
      (∀ n ∈ sourceNodes p.1, n.Sound T d) ∧ (∀ n ∈ viewsNodes p.2, n.Sound T d) ∧
        (p.2 ≠ [] → p.1 ≠ none) := by
  refine .accept _ fun _ => .ite (fun _ => (yields_source hg).bind fun s hs => ?_) fun _ =>
    .pure (by simp [sourceNodes, viewsNodes])
  exact (Yields.many (yields_lateralView hg)).bind fun views hv =>
    .pure ⟨by simpa using hs, by simpa using hv, by simp⟩

/-! ## The clauses behind the relations -/

theorem yields_clause (keyword : Keyword) :
    Yields T (clause g keyword) fun o => ∀ n ∈ optionalNodes o, n.Sound T d :=
  .accept _ fun _ => .ite (fun _ => (yields_expression hg).bind fun _ he =>
    .pure (by simpa using he)) fun _ => .pure (by simp)

theorem yields_groupItem :
    Yields T (groupItem g) fun i => ∀ n ∈ i.nodes, n.Sound T d := by
  refine (yields_expression hg).bind fun key hk => ?_
  have value (ht : (Node.group (.value key)).Tidy) :
      ∀ n ∈ (GroupItem.value key).nodes, n.Sound T d := by
    rw [GroupItem.nodes, List.forall_mem_cons]
    exact ⟨⟨trivial, ht, trivial, trivial, trivial⟩, hk⟩
  split
  · rename_i n
    refine .ite (fun hn => .pure ?_) fun hn => .pure (value (by simpa using hn))
    have hlt : n.toInt.toNat < 0x8000000000000000 := by
      have := n.toInt_lt
      omega
    have hpos : (UInt64.ofNat n.toInt.toNat).toNat = n.toInt.toNat :=
      UInt64.toNat_ofNat_of_lt' (hlt.trans_le (by decide))
    have hne : UInt64.ofNat n.toInt.toNat ≠ 0 := fun h0 => by
      have : n.toInt.toNat = 0 := by rw [← hpos, h0]; rfl
      omega
    rw [GroupItem.nodes, List.forall_mem_singleton]
    exact ⟨hne, hpos.trans_lt hlt, trivial, trivial, trivial⟩
  · refine .pure (value ?_)
    cases key with
    | literal l => cases l <;> simp_all
    | _ => trivial

theorem yields_groupBy :
    Yields T (groupBy g) fun l => ∀ n ∈ groupsNodes l, n.Sound T d :=
  .accept _ fun _ => .ite
    (fun _ => .expect _ ((Yields.commaList (yields_groupItem hg)).mono fun _ h => by simpa using h.2))
    fun _ => .pure (by simp [groupsNodes])

theorem yields_keys :
    Yields T (keys g) fun l =>
      l ≠ [] ∧ (∀ i ∈ l, i.IsPlain) ∧ ∀ n ∈ itemsNodes l, n.Sound T d :=
  (yields_expressionList hg).bind fun _ h => .pure ⟨by simpa using h.1, by simp, by simpa using h.2⟩

theorem yields_trailingSort (after : OrderingKind) :
    Yields T (trailingSort d g after) fun o =>
      o ≠ some [] ∧ (o ≠ none → d.allowsSortAfter after = true) ∧
        ∀ n ∈ trailingNodes o, n.Sound T d := by
  have sort (h : d.allowsSortAfter after = true) :
      Yields T (do
        advance
        expect (.keyword .BY)
        return some (← orderItems g)) fun o =>
        o ≠ some [] ∧ (o ≠ none → d.allowsSortAfter after = true) ∧
          ∀ n ∈ trailingNodes o, n.Sound T d :=
    .advance <| .expect _ <| (yields_orderItems hg).bind fun items hi =>
      .pure ⟨by simpa using hi.1, fun _ => h, by simpa using hi.2⟩
  refine .kind fun _ => .ite (fun _ => ?_) fun _ => .pure (by simp [trailingNodes])
  dsimp only
  refine .ite (fun h => sort h) fun _ => .bind (Q := fun _ => False) (.fail _) fun _ h => h.elim

theorem yields_orderingBody {kind : OrderingKind} (hd : d.supports (.ordering kind) = true) :
    Yields T (orderingBody d g kind) fun o => ∀ n ∈ orderingNodes (some o), n.Sound T d := by
  cases kind with
  | orderBy | sortBy =>
    refine (yields_orderItems hg).bind fun items hi => .pure ?_
    rw [orderingNodes, List.forall_mem_cons, forall_itemsNodes]
    exact ⟨⟨hi.1, trivial, trivial, ⟨hd, fun h => (h rfl).elim⟩, trivial⟩, hi.2⟩
  | distributeBy | clusterBy =>
    refine (yields_keys hg).bind fun keys hk => (yields_trailingSort hg _).bind fun sort hs =>
      .pure ?_
    rw [orderingNodes, List.forall_mem_cons, List.forall_mem_append]
    exact ⟨⟨⟨hk.1, hs.1⟩, hk.2.1, trivial, ⟨hd, hs.2.1⟩, trivial⟩, hk.2.2, hs.2.2⟩

theorem yields_ordering :
    Yields T (ordering d g) fun o => ∀ n ∈ orderingNodes o, n.Sound T d := by
  refine .kind fun _ => ?_
  split
  · exact .pure (by simp [orderingNodes])
  · refine .require fun hd => .advance <| .expect _ <| (yields_orderingBody hg hd).bind
      fun _ ho => .kind fun _ => ?_
    split
    · exact .fail _
    · exact .pure ho

theorem yields_queryOf : Yields T (queryOf d g) fun q => ∀ n ∈ q.nodes, n.Sound T d := by
  refine .expect _ <| .skip goesForward_congruence.distinctOrAll fun distinct =>
    (Yields.commaList (yields_selectItem hg)).bind fun columns hc =>
      (yields_fromClause hg).bind fun p hp => ?_
  obtain ⟨source, views⟩ := p
  obtain ⟨hs, hv, hsv⟩ := hp
  refine (yields_clause hg .WHERE).bind fun filter hw => (yields_groupBy hg).bind fun groups hgr =>
    (yields_clause hg .HAVING).bind fun having hh => (yields_ordering hg).bind fun ordering ho =>
      (yields_clause hg .LIMIT).bind fun limit hl => .pure ?_
  simp only [Select.nodes, List.forall_mem_cons, List.forall_mem_append, forall_columnsNodes]
  exact ⟨⟨⟨hc.1, hsv⟩, trivial, trivial, trivial, trivial⟩, hc.2, hs, hv, hw, hgr, hh, ho, hl⟩

/-! ## Nesting and statements -/

omit hg in
theorem sound_nestedWithin (n : Nat) : (nestedWithin d n).Sound T d := by
  induction n with
  | zero =>
    exact ⟨fun _ _ _ _ _ _ h => (nomatch h), .unexpected _, goesForward_congruence.nestedWithin d 0⟩
  | succ n ih =>
    exact ⟨fun _ _ _ _ hm hs h => sound_expressionOf ih hs hm h, yields_queryOf ih,
      goesForward_congruence.nestedWithin d (n + 1)⟩

omit hg in
/-- Every node of a statement that is read is sound. -/
theorem yields_statement : Yields T (statement d) fun a => ∀ n ∈ a.nodes, n.Sound T d := by
  have query : Yields T (query d) fun q => ∀ n ∈ q.nodes, n.Sound T d :=
    fun s _ _ hs h => (sound_nestedWithin (s.rest.length + 1)).query hs h
  refine query.bind fun q hq => .accept _ fun _ => .kind fun _ => ?_
  dsimp only
  exact .ite (fun _ => .pure hq) fun _ =>
    .bind (Q := fun _ => False) (.unexpected _) fun _ h => h.elim

end Parser

end SqlDialects
