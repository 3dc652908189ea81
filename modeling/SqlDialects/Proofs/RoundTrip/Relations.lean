import SqlDialects.Proofs.RoundTrip.Calls

/-!
# Written relations are read back

Aliases, relations, joins and lateral views. The clauses of a query come in a fixed order, and each
part of a query ends where a later one begins.
-/

namespace SqlDialects.Parser

open Piece (tokens)

/-- The place of what a token opens in a query; 0 for all tokens that open nothing. -/
def clauseRank : TokenKind → Nat
  | .keyword .FROM => 1
  | .keyword .ON | .keyword .USING => 2
  | .keyword .JOIN | .keyword .INNER | .keyword .LEFT | .keyword .RIGHT | .keyword .FULL
  | .keyword .CROSS => 3
  | .keyword .LATERAL => 4
  | .keyword .WHERE => 5
  | .keyword .GROUP => 6
  | .keyword .HAVING => 7
  | .keyword .ORDER | .keyword .SORT | .keyword .DISTRIBUTE | .keyword .CLUSTER => 8
  | .keyword .LIMIT => 9
  | .symbol .rightParen | .endOfInput => 10
  | _ => 0

/-- The tokens are those of a part of a query that comes no earlier than the place, if there are
any. -/
def Opens (rank : Nat) (ts : List Token) : Prop :=
  ∀ t ∈ ts.head?, rank ≤ clauseRank t.kind

section Rank

variable {d : Dialect} {s : TokenStream} {rank : Nat} {ts : List Token}

theorem opens_nil : Opens rank [] := by simp [Opens]

theorem opens_cons {t : Token} (h : rank ≤ clauseRank t.kind) : Opens rank (t :: ts) := by
  simpa [Opens] using h

theorem Opens.rank_current (h : Opens rank ts) (hs : rank ≤ clauseRank s.current.kind) :
    rank ≤ clauseRank (s.push ts).current.kind := by
  cases ts with
  | nil => exact hs
  | cons t ts => exact h t rfl

theorem Opens.append {us : List Token} (h : Opens rank ts) (h' : Opens rank us) :
    Opens rank (ts ++ us) := by
  cases ts with
  | nil => exact h'
  | cons t ts => exact h

theorem Opens.mono {rank' : Nat} (h : Opens rank ts) (hle : rank' ≤ rank) : Opens rank' ts :=
  fun t ht => hle.trans (h t ht)

theorem ne_of_clauseRank_lt {k k' : TokenKind} (h : clauseRank k < clauseRank k') : k' ≠ k := by
  rintro rfl
  exact absurd h (Nat.lt_irrefl _)

/-- A part of a query ends the part before it. -/
theorem endsList_of_clauseRank {k : TokenKind} (h : 0 < clauseRank k) :
    EndsList k ∧ k ≠ .keyword .AS ∧ k ≠ .keyword .NULLS ∧ k ≠ .symbol .dot := by
  unfold clauseRank at h
  split at h
  all_goals first
    | exact absurd h (Nat.lt_irrefl 0)
    | exact ⟨by decide, nofun, nofun, nofun⟩

/-- The token is no alias of what stands before it. -/
def EndsAlias (d : Dialect) (t : Token) : Prop :=
  t.kind ≠ .keyword .AS ∧ t.isImplicitAlias d = false

theorem endsAlias_of_clauseRank {t : Token} (h : 0 < clauseRank t.kind) : EndsAlias d t := by
  refine ⟨(endsList_of_clauseRank h).2.1, ?_⟩
  cases t with
  | mk kind span lexeme =>
    unfold clauseRank at h
    dsimp only at h
    split at h
    all_goals first
      | exact absurd h (Nat.lt_irrefl 0)
      | rfl

end Rank

variable {d : Dialect} {quote : Char} {g : Nested} {n : Nat} {s : TokenStream}

/-! ## Names -/

theorem reads_identifier {t : Token} {name : String} (h : t.identifier? d = some name) :
    Reads True (identifier d) [t] name s :=
  .of_eq (q := pure name) (by
    rw [identifier, current_bind, TokenStream.current_push_cons, h]
    rfl) (.pure name)

theorem reads_optionalAlias (hq : d.Unquotes quote) {label : Option String}
    (hs : EndsAlias d s.current) :
    Reads True (optionalAlias d) (tokens (Piece.label quote label)) label s := by
  cases label with
  | none =>
    refine .decline hs.1 (.neg Bool.false_ne_true (.current (.neg ?_ (.pure _))))
    simpa [Piece.label] using hs.2
  | some text =>
    simp only [Piece.label, Piece.tokens_space_cons, Piece.tokens_keyword_cons,
      Piece.tokens_name_cons, Piece.tokens_nil]
    exact .accept rfl (.pos rfl (.identifier (Token.identifier?_name hq) (.pure _)))

theorem reads_identifierList (hq : d.Unquotes quote) {items : List String} (hne : items ≠ [])
    (hs : s.current.kind ≠ .symbol .comma) :
    Reads True (identifierList d) (tokens (Piece.names quote items)) items s := by
  have h := Reads.commaList (C := fun _ => True) (v := id) (c := .mark (.sign .comma))
    (F := fun _ => True) rfl
    (fun (item : String) _ (u : TokenStream) _ =>
      reads_identifier (Token.identifier?_name hq))
    (fun _ _ => trivial) trivial hs hne
  rw [List.map_id] at h
  rw [Piece.names, Piece.tokens_commaSeparated, List.map_map]
  simp only [Function.comp_def, Piece.tokens_name_cons, Piece.tokens_nil]
  exact h.iff (by simp)

/-! ## Relations -/

variable (hg : g.ReadsBack d quote n)
include hg

theorem reads_relation (hq : d.Unquotes quote) {r : Relation} (hn : ∀ x ∈ r.nodes, x.Readable d)
    (hlen : (tokens (r.pieces quote)).length ≤ n) (hs : 0 < clauseRank s.current.kind) :
    Reads (∀ x ∈ r.nodes, x.ViewReadable) (relation d g) (tokens (r.pieces quote)) r.canonical
      s := by
  have halias : EndsAlias d s.current := endsAlias_of_clauseRank hs
  cases r with
  | table schema name label =>
    have hdot : (s.push (tokens (Piece.label quote label))).current.kind ≠ .symbol .dot := by
      cases label with
      | none => exact (endsList_of_clauseRank hs).2.2.2
      | some text => simp [Piece.label]
    refine Reads.iff (P := True) ?_ (by simp [Relation.nodes])
    rw [Relation.pieces]
    cases schema with
    | none =>
      simp only [Option.toList_none, Piece.qualifier, List.flatMap_nil, List.nil_append,
        Piece.tokens_name_cons]
      exact .kind <| .neg (Token.kind_name_ne_symbol _) <| .identifier (Token.identifier?_name hq) <|
        .decline hdot <| .neg Bool.false_ne_true (reads_optionalAlias hq halias).last
    | some schema =>
      simp only [Option.toList_some, Piece.qualifier, List.flatMap_cons, List.flatMap_nil,
        List.append_nil, List.cons_append, List.nil_append, Piece.tokens_name_cons,
        Piece.tokens_sign_cons]
      exact .kind <| .neg (Token.kind_name_ne_symbol _) <| .identifier (Token.identifier?_name hq) <|
        .accept rfl <| .pos rfl <| .name (Token.name?_name hq) (reads_optionalAlias hq halias).last
  | derived query label =>
    rw [Relation.nodes, List.forall_mem_cons] at hn
    rw [Relation.pieces, Piece.tokens_append, Piece.tokens_parenthesized] at hlen ⊢
    simp only [List.length_append, List.length_cons] at hlen
    refine Reads.iff (P := (∀ x ∈ query.nodes, x.ViewReadable) ∧ True) ?_ (by simp [Relation.nodes])
    refine .kind (.pos rfl (.bind (.parenthesized rfl rfl ?_) (reads_optionalAlias hq halias).last))
    exact hg.query hn.2 (by omega) (.inl rfl)

/-! ## Joins -/

omit hg in
theorem reads_joinType {type : JoinType} (hd : ∀ f ∈ type.feature?, d.supports f = true) :
    Reads True (joinType d) (type.marks.map .mark) type s := by
  cases type with
  | inner => exact .kind (.advance (.expect rfl (.pure _)))
  | left =>
    have hleft : Reads True (leftJoinType d) [] .left (s.push [.mark (.word .JOIN)]) :=
      .kind (.decline (by simp) (.pure _))
    exact .kind (.advance (hleft.after (.expect rfl (.pure _))))
  | right => exact .kind (.advance (.decline (by simp) (.expect rfl (.pure _))))
  | full => exact .kind (.advance (.decline (by simp) (.expect rfl (.pure _))))
  | cross => exact .kind (.advance (.expect rfl (.pure _)))
  | leftSemi =>
    have hsemi : Reads True (leftJoinType d) [.mark (.word .SEMI)] .leftSemi
        (s.push [.mark (.word .JOIN)]) :=
      .kind (.require (hd _ rfl) (.advance (.pure _)))
    exact .kind (.advance (hsemi.after (.expect rfl (.pure _))))
  | leftAnti =>
    have hanti : Reads True (leftJoinType d) [.mark (.word .ANTI)] .leftAnti
        (s.push [.mark (.word .JOIN)]) :=
      .kind (.require (hd _ rfl) (.advance (.pure _)))
    exact .kind (.advance (hanti.after (.expect rfl (.pure _))))

omit hg in
theorem startsJoin_marks (type : JoinType) (ts : List Token) :
    startsJoin (s.push (type.marks.map .mark ++ ts)).current.kind = true := by
  cases type <;> rfl

theorem reads_join (hq : d.Unquotes quote) {j : Join} (hn : (Node.join j).Readable d)
    (hr : ∀ x ∈ j.relation.nodes, x.Readable d)
    (hc : ∀ e ∈ j.condition, ∀ x ∈ e.nodes, x.Readable d)
    (hlen : (tokens (j.pieces quote)).length ≤ n) (hs : 3 ≤ clauseRank s.current.kind) :
    Reads ((∀ x ∈ j.relation.nodes, x.ViewReadable) ∧
        ∀ e ∈ j.condition, ∀ x ∈ e.nodes, x.ViewReadable)
      (join d g) (tokens (j.pieces quote)) (some j.canonical) s := by
  obtain ⟨type, r, condition, columns⟩ := j
  obtain ⟨hcross, hboth⟩ := hn.complete
  dsimp only at hr hc hcross hboth ⊢
  have hpieces : tokens (Join.pieces quote ⟨type, r, condition, columns⟩) =
      type.marks.map .mark ++ (tokens (r.pieces quote) ++
        (tokens (optionalPieces quote [.space, Piece.keyword .ON, .space] condition) ++
          if columns.isEmpty then [] else .mark (.word .USING) ::
            tokens (Piece.parenthesized (Piece.names quote columns)))) := by
    cases columns <;> simp [Join.pieces]
  rw [hpieces] at hlen ⊢
  simp only [List.length_append] at hlen
  refine .kind (.pos (startsJoin_marks type _) (.after (reads_joinType hn.supported) ?_))
  have relation (u : TokenStream) (hu : 0 < clauseRank u.current.kind) :=
    reads_relation hg hq hr (by omega) hu
  have hlist := endsList_of_clauseRank (Nat.lt_of_lt_of_le (by decide) hs)
  have hon : s.current.kind ≠ .keyword .ON := ne_of_clauseRank_lt hs
  have husing : s.current.kind ≠ .keyword .USING := ne_of_clauseRank_lt hs
  cases condition with
  | some e =>
    obtain rfl : columns = [] := hboth (by simp)
    have htype : type ≠ .cross := fun h => by simp [h] at hcross
    simp only [optionalPieces, List.cons_append, List.nil_append, Piece.tokens_space_cons,
      Piece.tokens_keyword_cons, List.isEmpty_nil, if_true, List.append_nil, List.length_cons]
      at hlen ⊢
    refine Reads.iff (P := (∀ x ∈ r.nodes, x.ViewReadable) ∧ ∀ x ∈ e.nodes, x.ViewReadable) ?_
      (by simp)
    refine .bind (relation _ ?_) (.neg htype (.accept rfl (.pos rfl (Reads.last ?_))))
    · exact show 0 < clauseRank (.keyword .ON) by decide
    · exact reads_expression hg (hc e rfl) (by omega) hlist.1.1
  | none =>
    refine Reads.iff (P := (∀ x ∈ r.nodes, x.ViewReadable) ∧ True) ?_ (by simp)
    simp only [optionalPieces, Piece.tokens_nil, List.nil_append]
    by_cases hcolumns : columns = []
    · subst hcolumns
      refine .bind (relation _ (Nat.lt_of_lt_of_le (by decide) hs)) ?_
      by_cases htype : type = .cross
      · exact .pos htype (by rw [htype]; exact .pure _)
      · exact .neg htype (.decline hon (.neg Bool.false_ne_true (.decline husing
          (.neg Bool.false_ne_true (.pure _)))))
    · have htype : type ≠ .cross := fun h => hcolumns (hcross h).2
      simp only [List.isEmpty_iff, hcolumns, if_false]
      refine .bind (relation _ ?_) (.neg htype (.decline (by simp) (.neg Bool.false_ne_true ?_)))
      · exact show 0 < clauseRank (.keyword .USING) by decide
      · rw [Piece.tokens_parenthesized]
        exact .accept rfl (.pos rfl (Reads.parenthesized rfl rfl
          (reads_identifierList hq hcolumns (by simp))).last)

/-! ## Lateral views -/

theorem reads_lateralView (hq : d.Unquotes quote) {v : LateralView}
    (hn : (Node.view v).Readable d) (hv : ∀ x ∈ v.generator.nodes, x.Readable d)
    (hlen : (tokens (v.pieces quote)).length ≤ n) (hs : 4 ≤ clauseRank s.current.kind) :
    Reads (v.IsReadable ∧ ∀ x ∈ v.generator.nodes, x.ViewReadable)
      (lateralView d g) (tokens (v.pieces quote)) (some v.canonical) s := by
  obtain ⟨outer, generator, table, columns⟩ := v
  dsimp only at hv ⊢
  have hpieces : tokens (LateralView.pieces quote ⟨outer, generator, table, columns⟩) =
      .mark (.word .LATERAL) :: .mark (.word .VIEW) ::
        ((if outer then [.mark (.word .OUTER)] else []) ++ (tokens (generator.pieces quote) ++
          .name quote table :: .mark (.word .AS) :: tokens (Piece.names quote columns))) := by
    cases outer <;> simp [LateralView.pieces]
  rw [hpieces] at hlen ⊢
  simp only [List.length_append, List.length_cons] at hlen
  have hcomma : s.current.kind ≠ .symbol .comma := by
    exact (endsList_of_clauseRank (Nat.lt_of_lt_of_le (by decide) hs)).1.2
  obtain ⟨ts, hts, hcall⟩ := reads_call (s := s.push (.name quote table :: .mark (.word .AS) ::
    tokens (Piece.names quote columns))) hg hv (by omega) (by
      simp [EndsOperand, Token.kind_name_ne_keyword, Token.kind_name_ne_symbol])
  have hrest : Reads (∀ x ∈ generator.nodes, x.ViewReadable) (do
      let generator ← call g (canonicalFunction generator.name)
      let table ← identifier d
      expect (.keyword .AS)
      return some (LateralView.mk outer generator table (← identifierList d)))
      (.mark (.sign .leftParen) :: ts ++ .name quote table :: .mark (.word .AS) ::
        tokens (Piece.names quote columns))
      (some (LateralView.canonical ⟨outer, generator, table, columns⟩)) s := by
    refine Reads.iff ?_ (and_iff_left trivial).symm
    exact hcall.bind (.identifier (Token.identifier?_name hq)
      (.expect rfl (reads_identifierList hq hn.complete hcomma).last))
  rw [hts]
  refine .kind (.pos rfl (.require hn.supported (.advance (.expect rfl ?_))))
  by_cases hside : IsSideFunction generator.name
  · -- The name is read as the reserved word.
    obtain ⟨hkind, -⟩ := Token.function_of_side quote hside
    have hname : (Token.function quote generator.name).identifier? d = none := by
      unfold Token.identifier?
      obtain hkind | hkind := hkind <;> rw [hkind] <;> rfl
    refine Reads.iff (P := False) ?_ (by simp [LateralView.IsReadable, hside])
    cases outer with
    | true => exact .accept rfl (.noIdentifier hname)
    | false =>
      refine .decline ?_ (.noIdentifier hname)
      obtain hkind | hkind := hkind <;> simp [hkind]
  · have hname : (Token.function quote generator.name).identifier? d =
        some (canonicalFunction generator.name) := Token.identifier?_function hq hside
    cases outer with
    | true =>
      exact Reads.iff (.accept rfl (.identifier hname hrest))
        (and_iff_right ⟨hside, fun _ => rfl⟩)
    | false =>
      by_cases houter : Keyword.ofText? generator.name = some .OUTER
      · -- The name is passed as the word that may stand before it.
        refine Reads.iff (P := False) ?_ (by simp [LateralView.IsReadable, houter])
        exact .accept (Token.kind_function_of_ofText? houter rfl) (.noIdentifier rfl)
      · refine Reads.iff (.decline ?_ (.identifier hname hrest))
          (and_iff_right ⟨hside, fun h => absurd h houter⟩)
        exact fun h => houter (Token.ofText?_of_kind_function h)

/-! ## `FROM` -/

omit hg in
theorem tokens_join (quote : Char) (j : Join) :
    ∃ (m : Mark) (ts : List Token), tokens (j.pieces quote) = .mark m :: ts ∧
      3 ≤ clauseRank m.kind := by
  obtain ⟨type, r, condition, columns⟩ := j
  simp only [Join.pieces, List.append_assoc, List.cons_append, Piece.tokens_space_cons,
    Piece.tokens_append, Piece.tokens_phrase]
  cases type <;> exact ⟨_, _, rfl, by decide⟩

omit hg in
theorem tokens_lateralView (quote : Char) (v : LateralView) :
    ∃ ts, tokens (v.pieces quote) = .mark (.word .LATERAL) :: ts := by
  simp only [LateralView.pieces, List.append_assoc, List.cons_append, Piece.tokens_space_cons,
    Piece.tokens_append, Piece.tokens_phrase, List.map_cons]
  exact ⟨_, rfl⟩

omit hg in
theorem opens_joins (quote : Char) (joins : List Join) :
    Opens 3 (tokens (joinsPieces quote joins)) := by
  rw [joinsPieces_eq_flatMap, Piece.tokens_flatMap]
  cases joins with
  | nil => exact opens_nil
  | cons j rest =>
    obtain ⟨m, ts, hts, hm⟩ := tokens_join quote j
    rw [List.flatMap_cons, hts]
    exact opens_cons hm

omit hg in
theorem opens_views (quote : Char) (views : List LateralView) :
    Opens 4 (tokens (viewsPieces quote views)) := by
  rw [viewsPieces_eq_flatMap, Piece.tokens_flatMap]
  cases views with
  | nil => exact opens_nil
  | cons v rest =>
    obtain ⟨ts, hts⟩ := tokens_lateralView quote v
    rw [List.flatMap_cons, hts]
    exact opens_cons (by decide)

omit hg in
theorem opens_fromClause (quote : Char) (source : Option Source) (views : List LateralView) :
    Opens 1 (tokens (sourcePieces quote source) ++ tokens (viewsPieces quote views)) := by
  cases source with
  | none => exact (opens_views quote views).mono (by decide)
  | some source =>
    obtain ⟨r, joins⟩ := source
    have hpieces : tokens (sourcePieces quote (some ⟨r, joins⟩)) = .mark (.word .FROM) ::
        (tokens (r.pieces quote) ++ tokens (joinsPieces quote joins)) := by
      simp [sourcePieces]
    rw [hpieces, List.cons_append]
    exact opens_cons (by decide)

theorem reads_joins (hq : d.Unquotes quote) {joins : List Join}
    (hn : ∀ x ∈ joinsNodes joins, x.Readable d)
    (hlen : (tokens (joinsPieces quote joins)).length ≤ n) (hs : 4 ≤ clauseRank s.current.kind) :
    Reads (∀ x ∈ joinsNodes joins, x.ViewReadable) (many (join d g))
      (tokens (joinsPieces quote joins)) (joinsCanonical joins) s := by
  rw [forall_joinsNodes] at hn
  rw [joinsPieces_eq_flatMap, Piece.tokens_flatMap] at hlen ⊢
  rw [joinsCanonical_eq_map]
  have hviews : (∀ x ∈ joinsNodes joins, x.ViewReadable) ↔ ∀ j ∈ joins,
      (∀ x ∈ j.relation.nodes, x.ViewReadable) ∧ ∀ e ∈ j.condition, ∀ x ∈ e.nodes, x.ViewReadable := by
    rw [forall_joinsNodes]
    simp
  refine Reads.iff (.many (F := fun u => 3 ≤ clauseRank u.current.kind) (fun j hj u hu => ?_)
    (fun j _ => ?_) (fun j _ u => ?_) (Nat.le_of_succ_le hs) ?_) hviews
  · obtain ⟨hj', hr, hc⟩ := hn j hj
    rw [forall_optionalNodes] at hc
    exact reads_join hg hq hj' hr hc ((Reads.length_le_flatMap hj).trans hlen) hu
  · obtain ⟨m, ts, hts, -⟩ := tokens_join quote j
    simp [hts]
  · obtain ⟨m, ts, hts, hm⟩ := tokens_join quote j
    rw [hts]
    exact hm
  · have hno : startsJoin s.current.kind = false := by
      unfold startsJoin
      split <;> rename_i hk <;> first | rfl | simp [hk, clauseRank] at hs
    rw [join, kind_bind, hno]
    rfl

theorem reads_views (hq : d.Unquotes quote) {views : List LateralView}
    (hn : ∀ x ∈ viewsNodes views, x.Readable d)
    (hlen : (tokens (viewsPieces quote views)).length ≤ n) (hs : 5 ≤ clauseRank s.current.kind) :
    Reads (∀ x ∈ viewsNodes views, x.ViewReadable) (many (lateralView d g))
      (tokens (viewsPieces quote views)) (viewsCanonical views) s := by
  rw [forall_viewsNodes] at hn
  rw [viewsPieces_eq_flatMap, Piece.tokens_flatMap] at hlen ⊢
  rw [viewsCanonical_eq_map, forall_viewsNodes]
  refine .many (F := fun u => 4 ≤ clauseRank u.current.kind) (fun v hv u hu => ?_)
    (fun v _ => ?_) (fun v _ u => ?_) (Nat.le_of_succ_le hs) ?_
  · exact reads_lateralView hg hq (hn v hv).1 (hn v hv).2
      ((Reads.length_le_flatMap hv).trans hlen) hu
  · obtain ⟨ts, hts⟩ := tokens_lateralView quote v
    simp [hts]
  · obtain ⟨ts, hts⟩ := tokens_lateralView quote v
    rw [hts]
    exact show 4 ≤ clauseRank (.keyword .LATERAL) by decide
  · have hno : s.current.kind ≠ .keyword .LATERAL := ne_of_clauseRank_lt hs
    rw [lateralView, kind_bind, if_neg hno]
    rfl

theorem reads_fromClause (hq : d.Unquotes quote) {source : Option Source} {views : List LateralView}
    (hs : ∀ x ∈ sourceNodes source, x.Readable d) (hv : ∀ x ∈ viewsNodes views, x.Readable d)
    (hsource : views ≠ [] → source ≠ none)
    (hlen : (tokens (sourcePieces quote source)).length +
      (tokens (viewsPieces quote views)).length ≤ n) (hr : 5 ≤ clauseRank s.current.kind) :
    Reads ((∀ x ∈ sourceNodes source, x.ViewReadable) ∧ ∀ x ∈ viewsNodes views, x.ViewReadable)
      (fromClause d g) (tokens (sourcePieces quote source) ++ tokens (viewsPieces quote views))
      (sourceCanonical source, viewsCanonical views) s := by
  cases source with
  | none =>
    obtain rfl : views = [] := by
      by_contra h
      exact hsource h rfl
    refine Reads.iff (P := True) ?_ (by simp [sourceNodes, viewsNodes])
    have hfrom : s.current.kind ≠ .keyword .FROM :=
      ne_of_clauseRank_lt (Nat.lt_of_lt_of_le (by decide) hr)
    exact .decline hfrom (.neg Bool.false_ne_true (.pure _))
  | some source =>
    obtain ⟨r, joins⟩ := source
    rw [sourceNodes, List.forall_mem_append] at hs
    have hpieces : tokens (sourcePieces quote (some ⟨r, joins⟩)) = .mark (.word .FROM) ::
        (tokens (r.pieces quote) ++ tokens (joinsPieces quote joins)) := by
      simp [sourcePieces]
    rw [hpieces, List.length_cons, List.length_append] at hlen
    rw [hpieces, sourceNodes, List.forall_mem_append]
    have hviews : 4 ≤ clauseRank (s.push (tokens (viewsPieces quote views))).current.kind :=
      (opens_views quote views).rank_current (Nat.le_of_succ_le hr)
    have hjoins := (opens_joins quote joins).rank_current (Nat.le_of_succ_le hviews)
    refine .accept rfl (.pos rfl (.bind (.bind ?_ (Reads.last ?_)) (Reads.last ?_)))
    · exact reads_relation hg hq hs.1 (by omega) (Nat.lt_of_lt_of_le (by decide) hjoins)
    · exact reads_joins hg hq hs.2 (by omega) hviews
    · exact reads_views hg hq hv (by omega) hr

end SqlDialects.Parser
