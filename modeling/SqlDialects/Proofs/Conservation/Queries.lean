import SqlDialects.Proofs.Conservation.Expressions

/-!
# Queries carry what is read

The clauses of a query are written in the order in which they are read. Main statement: a statement
has the payload of all the tokens it is read from.
-/

namespace SqlDialects.Parser

open Piece (keyword phrase)

variable {d : Dialect} {quote : Char} {g : Nested} (hg : g.Carries d quote)

/-! ## Relations -/

theorem carries_leftJoinType : Carries d (leftJoinType d) fun _ => [] := by
  intro s
  apply CarriesAt.kind
  split
  · rename_i hk
    apply CarriesAt.require
    apply CarriesAt.pass hk rfl
    exact .pure rfl
  · rename_i hk
    apply CarriesAt.require
    apply CarriesAt.pass hk rfl
    exact .pure rfl
  · apply CarriesAt.silent (Carries.accept rfl)
    intro outer _
    exact .pure rfl

theorem carries_joinType : Carries d (joinType d) fun _ => [] := by
  have close (type : JoinType) (s : TokenStream) :
      CarriesAt d s [] (do expect (.keyword .JOIN); return type) fun _ => [] := by
    apply CarriesAt.silent (Carries.expect rfl)
    intro _ _
    exact .pure rfl
  have outer (type : JoinType) (s : TokenStream) :
      CarriesAt d s [] (do
        let _ ← accept (.keyword .OUTER)
        let type ← pure type
        expect (.keyword .JOIN)
        return type) fun _ => [] := by
    apply CarriesAt.silent (Carries.accept rfl)
    intro _ s'
    exact close type s'
  intro s
  apply CarriesAt.kind
  dsimp only
  split
  · exact .pass ‹_› rfl (close _ _)
  · rename_i hk
    apply CarriesAt.pass hk rfl
    apply CarriesAt.silent carries_leftJoinType
    exact close
  · exact .pass ‹_› rfl (outer _ _)
  · exact .pass ‹_› rfl (outer _ _)
  · exact .pass ‹_› rfl (close _ _)
  · exact close _ _

include hg

section Relation
variable (hq : d.Unquotes quote)
include hq

theorem carries_selectItem :
    Carries d (selectItem d g) fun c => Piece.payload d (c.pieces quote) := by
  intro s
  apply CarriesAt.bind (hg.expression 0)
  intro value _
  apply CarriesAt.bind (carries_optionalAlias hq)
  intro label _
  apply CarriesAt.pure
  simp [SelectItem.pieces]

theorem carries_relation : Carries d (relation d g) fun r => Piece.payload d (r.pieces quote) := by
  intro s
  apply CarriesAt.kind
  apply CarriesAt.ite
  · intro _
    apply CarriesAt.bind (Carries.parenthesized hg.query)
    intro q _
    apply CarriesAt.bind (carries_optionalAlias hq)
    intro label _
    apply CarriesAt.pure
    simp [Relation.pieces]
  · intro _
    apply CarriesAt.bind carries_identifier
    intro first _
    apply CarriesAt.silent (Carries.accept rfl)
    intro dotted _
    apply CarriesAt.ite
    · intro _
      apply CarriesAt.bind carries_name
      intro table _
      apply CarriesAt.bind (carries_optionalAlias hq)
      intro label _
      apply CarriesAt.pure
      simp [Relation.pieces, Piece.qualifier, Piece.payload_name_cons hq]
    · intro _
      apply CarriesAt.bind (carries_optionalAlias hq)
      intro label _
      apply CarriesAt.pure
      simp [Relation.pieces, Piece.qualifier, Piece.payload_name_cons hq]

theorem carries_join :
    Carries d (join d g) fun o => o.toList.flatMap fun j => Piece.payload d (j.pieces quote) := by
  have columns : Carries d (parenthesized (identifierList d)) fun l =>
      Piece.payload d (Piece.names quote l) := .parenthesized (carries_identifierList hq)
  intro s
  apply CarriesAt.kind
  refine .ite (fun _ => ?_) fun _ => .pure rfl
  apply CarriesAt.silent carries_joinType
  intro type _
  apply CarriesAt.bind (carries_relation hg hq)
  intro relation _
  have plain (s : TokenStream) : CarriesAt d s ([] ++ Piece.payload d (relation.pieces quote))
      (pure (some (Join.mk type relation none [])))
      fun o => o.toList.flatMap fun j => Piece.payload d (j.pieces quote) := by
    apply CarriesAt.pure
    simp [Join.pieces]
  refine .ite (fun _ => plain _) fun _ => ?_
  apply CarriesAt.silent (Carries.accept rfl)
  intro on _
  apply CarriesAt.ite
  · intro _
    apply CarriesAt.bind (hg.expression 0)
    intro condition _
    apply CarriesAt.pure
    simp [Join.pieces]
  · intro _
    apply CarriesAt.silent (Carries.accept rfl)
    intro shared _
    refine .ite (fun _ => ?_) fun _ => plain _
    apply CarriesAt.bind columns
    intro names _
    apply CarriesAt.pure
    cases names <;> simp [Join.pieces, Piece.names, Piece.commaSeparated]

theorem carries_source :
    Carries d (source d g) fun s => Piece.payload d (sourcePieces quote (some s)) := by
  intro s
  apply CarriesAt.bind (carries_relation hg hq)
  intro relation _
  apply CarriesAt.bind (Carries.many (carries_join hg hq))
  intro joins _
  apply CarriesAt.pure
  simp [sourcePieces, Piece.payload_flatMap]

theorem carries_lateralView :
    Carries d (lateralView d g) fun o =>
      o.toList.flatMap fun v => Piece.payload d (v.pieces quote) := by
  intro s
  apply CarriesAt.kind
  refine .ite (fun hk => ?_) fun _ => .pure rfl
  apply CarriesAt.require
  apply CarriesAt.pass hk rfl
  apply CarriesAt.silent (Carries.expect rfl)
  intro _ _
  apply CarriesAt.silent (Carries.accept rfl)
  intro outer _
  apply CarriesAt.bind carries_identifier
  intro function s'
  apply CarriesAt.seq (carriesAt_call hg hq function s')
  intro generator _
  apply CarriesAt.bind carries_identifier
  intro table _
  apply CarriesAt.silent (Carries.expect rfl)
  intro _ _
  apply CarriesAt.bind (carries_identifierList hq)
  intro columns _
  apply CarriesAt.pure
  cases outer <;> simp [LateralView.pieces, Piece.payload_name_cons hq]

theorem carries_fromClause :
    Carries d (fromClause d g) fun p =>
      Piece.payload d (sourcePieces quote p.1) ++ Piece.payload d (viewsPieces quote p.2) := by
  intro s
  apply CarriesAt.silent (Carries.accept rfl)
  intro given _
  refine .ite (fun _ => ?_) fun _ => .pure rfl
  apply CarriesAt.bind (carries_source hg hq)
  intro source _
  apply CarriesAt.bind (Carries.many (carries_lateralView hg hq))
  intro views _
  apply CarriesAt.pure
  simp [Piece.payload_flatMap]

end Relation

/-! ## The clauses behind the relations -/

theorem carries_clause (keyword : Keyword) :
    Carries d (clause g keyword) fun o =>
      o.toList.flatMap fun e => Piece.payload d (e.pieces quote) := by
  intro s
  apply CarriesAt.silent (Carries.accept rfl)
  intro given _
  refine .ite (fun _ => ?_) fun _ => .pure rfl
  apply CarriesAt.bind (hg.expression 0)
  intro e _
  apply CarriesAt.pure
  simp

/-- A position is written as the integer that it was. -/
theorem carries_groupItem :
    Carries d (groupItem g) fun i => Piece.payload d (i.pieces quote) := by
  intro s
  apply CarriesAt.bind (hg.expression 0)
  intro key _
  split
  · rename_i n
    refine .ite (fun hn => ?_) fun _ => .pure rfl
    have hlt : n.toInt.toNat < 0x10000000000000000 := by
      have := n.toInt_lt
      omega
    have hvalue : Int64.ofInt ((UInt64.ofNat n.toInt.toNat).toNat : Int) = n := by
      rw [UInt64.toNat_ofNat_of_lt' hlt, Int.toNat_of_nonneg (by omega), Int64.ofInt_toInt]
    apply CarriesAt.pure
    rw [GroupItem.pieces, Piece.payload_integer_cons, hvalue]
    simp [Expr.pieces, Literal.piece]
  · exact .pure rfl

theorem carries_groupBy :
    Carries d (groupBy g) fun l => l.flatMap fun i => Piece.payload d (i.pieces quote) := by
  intro s
  apply CarriesAt.silent (Carries.accept rfl)
  intro given _
  refine .ite (fun _ => ?_) fun _ => .pure rfl
  apply CarriesAt.silent (Carries.expect rfl)
  intro _ s'
  exact Carries.commaList (carries_groupItem hg) s'

theorem carries_keys :
    Carries d (keys g) fun l => l.flatMap fun k => Piece.payload d (k.key.pieces quote) := by
  intro s
  apply CarriesAt.bind (carries_expressionList hg)
  intro l _
  apply CarriesAt.pure
  simp [List.flatMap_map]

theorem carries_trailingSort (kind : OrderingKind) :
    Carries d (trailingSort d g kind) fun o => Piece.payload d (trailingPieces quote o) := by
  intro s
  apply CarriesAt.kind
  refine .ite (fun hk => ?_) fun _ => .pure rfl
  refine .ite (fun _ => ?_) fun _ => .of_error ⟨_, _, rfl⟩
  apply CarriesAt.pass hk rfl
  apply CarriesAt.silent (Carries.expect rfl)
  intro _ _
  apply CarriesAt.bind (carries_orderItems hg)
  intro items _
  apply CarriesAt.pure
  simp [trailingPieces, List.flatMap_map]

theorem carries_orderingBody (kind : OrderingKind) :
    Carries d (orderingBody d g kind) fun o => Piece.payload d (orderingPieces quote (some o)) := by
  cases kind with
  | orderBy | sortBy =>
    intro s
    apply CarriesAt.bind (carries_orderItems hg)
    intro items _
    apply CarriesAt.pure
    simp [orderingPieces, List.flatMap_map]
  | distributeBy | clusterBy =>
    intro s
    apply CarriesAt.bind (carries_keys hg)
    intro keys _
    apply CarriesAt.bind (carries_trailingSort hg _)
    intro sort _
    apply CarriesAt.pure
    simp [orderingPieces, List.flatMap_map]

theorem carries_ordering :
    Carries d (ordering d g) fun o => Piece.payload d (orderingPieces quote o) := by
  intro s
  apply CarriesAt.kind
  split
  · exact .pure rfl
  · rename_i first hfirst
    have hsilent : s.current.kind.payload? d = none := by
      unfold orderingKind? at hfirst
      split at hfirst <;> rename_i hk <;> cases hfirst <;> rw [hk] <;> rfl
    apply CarriesAt.require
    apply CarriesAt.pass rfl hsilent
    apply CarriesAt.silent (Carries.expect rfl)
    intro _ _
    apply CarriesAt.bind (carries_orderingBody hg first)
    intro body _
    apply CarriesAt.kind
    split
    · exact .fail _
    · exact .pure rfl

theorem carries_queryOf (hq : d.Unquotes quote) :
    Carries d (queryOf d g) fun q => Piece.payload d (q.pieces quote) := by
  intro s
  apply CarriesAt.silent (Carries.expect rfl)
  intro _ _
  apply CarriesAt.silent carries_distinctOrAll
  intro distinct _
  apply CarriesAt.bind (Carries.commaList (carries_selectItem hg hq))
  intro columns _
  apply CarriesAt.bind (carries_fromClause hg hq)
  intro p _
  apply CarriesAt.bind (carries_clause hg .WHERE)
  intro filter _
  apply CarriesAt.bind (carries_groupBy hg)
  intro groups _
  apply CarriesAt.bind (carries_clause hg .HAVING)
  intro having _
  apply CarriesAt.bind (carries_ordering hg)
  intro ordering _
  apply CarriesAt.bind (carries_clause hg .LIMIT)
  intro limit _
  apply CarriesAt.pure
  cases distinct <;> cases groups <;> simp [Select.pieces, List.flatMap_map]

/-! ## Nesting and statements -/

omit hg in
theorem carries_nestedWithin (hq : d.Unquotes quote) (n : Nat) :
    (nestedWithin d n).Carries d quote := by
  induction n with
  | zero => exact ⟨fun _ _ => .unexpected _, fun _ => .unexpected _⟩
  | succ n ih => exact ⟨carries_expressionOf ih hq, carries_queryOf ih hq⟩

omit hg in
/-- A statement has the payload of all tokens, for it ends where they do. -/
theorem payload_of_statement (hq : d.Unquotes quote) {s s' : TokenStream} {a : Statement}
    (hs : s.Within Token.IsSpelled) (h : statement d s = .ok a s') :
    payload d s.rest = Piece.payload d (a.pieces quote) := by
  obtain ⟨q, s₁, hquery, h⟩ := bind_eq_ok.mp h
  obtain ⟨hpassed, hs₁⟩ := (carries_nestedWithin hq (s.rest.length + 1)).query s hs hquery
  obtain ⟨_, s₂, haccept, h⟩ := bind_eq_ok.mp h
  obtain ⟨hsemicolon, hs₂⟩ := Carries.accept (d := d) rfl s₁ hs₁ haccept
  rw [kind_bind] at h
  dsimp only at h
  by_cases hend : s₂.current.kind = .endOfInput
  · rw [if_pos hend] at h
    cases h
    have hrest : s'.rest = [] := by
      obtain ⟨_ | ⟨t, rest⟩, span, lexeme⟩ := s'
      · rfl
      · exact absurd hend (hs₂ t (List.mem_cons_self ..)).inside
    have hnil : payload d s₁.rest = [] := by simpa [hrest] using hsemicolon
    simpa [hnil, Statement.pieces] using hpassed
  · rw [if_neg hend] at h
    cases h

end SqlDialects.Parser
