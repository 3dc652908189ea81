import SqlDialects.Proofs.RoundTrip.Relations

/-!
# Written queries are read back

The select list, the clauses behind the relations, and the whole query.
-/

namespace SqlDialects.Parser

open Piece (tokens)

variable {d : Dialect} {quote : Char} {g : Nested} {n : Nat} {s : TokenStream}
variable (hg : g.ReadsBack d quote n)
include hg

/-! ## The select list -/

theorem reads_selectItem (hq : d.Unquotes quote) {c : SelectItem}
    (hn : ∀ x ∈ c.value.nodes, x.Readable d) (hlen : (tokens (c.pieces quote)).length < n)
    (hs : EndsExpression s.current.kind) (halias : EndsAlias d s.current) :
    Reads (∀ x ∈ c.value.nodes, x.ViewReadable) (selectItem d g) (tokens (c.pieces quote))
      c.canonical s := by
  rw [SelectItem.pieces, Piece.tokens_append] at hlen ⊢
  rw [List.length_append] at hlen
  refine Reads.iff (.bind (reads_expression hg hn (by omega) ?_)
    (reads_optionalAlias hq halias).last) (and_iff_left trivial).symm
  cases h : c.label with
  | none => exact hs
  | some text =>
    simp only [Piece.label, Piece.tokens_space_cons, Piece.tokens_keyword_cons]
    exact show EndsExpression (.keyword .AS) by decide

theorem reads_columns (hq : d.Unquotes quote) {columns : List SelectItem}
    (hn : ∀ x ∈ columnsNodes columns, x.Readable d)
    (hlen : (tokens (Piece.commaSeparated (columnsPieces quote columns))).length < n)
    (hne : columns ≠ []) (hs : 0 < clauseRank s.current.kind) :
    Reads (∀ x ∈ columnsNodes columns, x.ViewReadable) (commaList (selectItem d g))
      (tokens (Piece.commaSeparated (columnsPieces quote columns))) (columnsCanonical columns)
      s := by
  rw [forall_columnsNodes] at hn
  rw [columnsPieces_eq_map, Piece.tokens_commaSeparated, List.map_map] at hlen ⊢
  rw [columnsCanonical_eq_map]
  have hviews : (∀ x ∈ columnsNodes columns, x.ViewReadable) ↔
      ∀ c ∈ columns, ∀ x ∈ c.value.nodes, x.ViewReadable := by
    rw [forall_columnsNodes]
    simp
  have hlist := endsList_of_clauseRank hs
  refine Reads.iff (.commaList (c := .mark (.sign .comma))
    (F := fun u => EndsExpression u.current.kind ∧ EndsAlias d u.current) rfl
    (fun c hc u hu => ?_) (fun u hu => ?_) ⟨hlist.1.1, endsAlias_of_clauseRank hs⟩ hlist.1.2 hne)
    hviews
  · have hle := Reads.length_le_intercalate [Token.mark (.sign .comma)]
      (List.mem_map_of_mem (f := tokens ∘ fun c => SelectItem.pieces quote c) hc)
    exact reads_selectItem hg hq (hn c hc).2 (Nat.lt_of_le_of_lt hle hlen) hu.1 hu.2
  · rw [hu]
    exact ⟨by decide, by decide, rfl⟩

/-! ## Clauses -/

theorem reads_clause {k : Keyword} {e : Option Expr} (hn : ∀ x ∈ optionalNodes e, x.Readable d)
    (hlen : (tokens (optionalPieces quote [.space, Piece.keyword k, .space] e)).length ≤ n)
    (hs : clauseRank (.keyword k) < clauseRank s.current.kind) :
    Reads (∀ x ∈ optionalNodes e, x.ViewReadable) (clause g k)
      (tokens (optionalPieces quote [.space, Piece.keyword k, .space] e)) (optionalCanonical e)
      s := by
  cases e with
  | none =>
    refine Reads.iff (P := True) ?_ (by simp [optionalNodes])
    have hk : s.current.kind ≠ .keyword k := ne_of_clauseRank_lt hs
    exact .decline hk (.neg Bool.false_ne_true (.pure _))
  | some e =>
    simp only [optionalPieces, List.cons_append, List.nil_append, Piece.tokens_space_cons,
      Piece.tokens_keyword_cons, List.length_cons] at hlen ⊢
    exact .accept rfl (.pos rfl (reads_expression hg hn (by omega)
      (endsList_of_clauseRank (Nat.zero_lt_of_lt hs)).1.1).last)

omit hg in
theorem opens_clause (quote : Char) (k : Keyword) (e : Option Expr) :
    Opens (clauseRank (.keyword k))
      (tokens (optionalPieces quote [.space, Piece.keyword k, .space] e)) := by
  cases e with
  | none => exact opens_nil
  | some e => exact opens_cons (Nat.le_refl _)

/-! ## `GROUP BY` -/

omit hg in
/-- A position is read as the integer literal that it is written as. -/
theorem literal_ordinal {position : UInt64} (h : position.toNat < 0x8000000000000000) :
    ∃ value : Int64, value.toInt = position.toNat ∧ (Literal.integer value).ReadsBack d := by
  have hvalue : (Int64.ofNat position.toNat).toInt = position.toNat := Int64.toInt_ofNat_of_lt h
  refine ⟨.ofNat position.toNat, hvalue, ?_, _, rfl, ?_⟩
  · simp only [Literal.piece, Piece.Legible, hvalue]
    omega
  · rw [Int64.ofInt_toInt]
    rfl

theorem reads_groupItem {i : GroupItem} (hn : ∀ x ∈ i.nodes, x.Readable d)
    (hlen : (tokens (i.pieces quote)).length < n) (hs : EndsExpression s.current.kind) :
    Reads (∀ x ∈ i.nodes, x.ViewReadable) (groupItem g) (tokens (i.pieces quote)) i.canonical
      s := by
  cases i with
  | value key =>
    rw [GroupItem.nodes, List.forall_mem_cons] at hn
    obtain ⟨hi, hk⟩ := hn
    have hviews : (∀ x ∈ (GroupItem.value key).nodes, x.ViewReadable) ↔
        (∀ x ∈ key.nodes, x.ViewReadable) ∧ True := by
      rw [GroupItem.nodes, List.forall_mem_cons]
      simp
    refine Reads.iff (.of_append_nil (.bind (reads_expression hg hk hlen hs) ?_)) hviews
    split
    · rename_i value hvalue
      obtain rfl : key = .literal (.integer value) := by
        cases key <;> simp_all [Expr.canonical]
      have hle : value.toInt ≤ 0 := hi.tidy
      exact .neg (by omega) (.pure _)
    · exact .pure _
  | ordinal position =>
    have hi := hn (.group (.ordinal position)) (by simp [GroupItem.nodes])
    obtain ⟨value, hvalue, hread⟩ := literal_ordinal (d := d) hi.tidy
    have hpos : position.toNat ≠ 0 := fun h => hi.complete (UInt64.toNat_inj.mp h)
    have hpieces : GroupItem.pieces quote (.ordinal position) =
        Expr.pieces quote (.literal (.integer value)) := by
      simp [GroupItem.pieces, Expr.pieces, Literal.piece, hvalue]
    rw [hpieces] at hlen ⊢
    have hliteral : ∀ x ∈ (Expr.literal (.integer value)).nodes, x.Readable d := by
      simpa [Expr.nodes] using ⟨trivial, trivial, trivial, trivial, hread⟩
    refine Reads.iff (P := (∀ x ∈ (Expr.literal (.integer value)).nodes, x.ViewReadable) ∧ True)
      (.of_append_nil (.bind (reads_expression hg hliteral hlen hs) (.pos ?_ ?_)))
      (by simp [Expr.nodes, GroupItem.nodes])
    · show 0 < value.toInt
      omega
    · simp only [hvalue, Int.toNat_natCast, UInt64.ofNat_toNat]
      exact .pure _

theorem reads_groupBy {groups : List GroupItem} (hn : ∀ x ∈ groupsNodes groups, x.Readable d)
    (hlen : (tokens (listedPieces [.word .GROUP, .word .BY] (groupsPieces quote groups))).length ≤ n)
    (hs : 7 ≤ clauseRank s.current.kind) :
    Reads (∀ x ∈ groupsNodes groups, x.ViewReadable) (groupBy g)
      (tokens (listedPieces [.word .GROUP, .word .BY] (groupsPieces quote groups)))
      (groupsCanonical groups) s := by
  cases groups with
  | nil =>
    refine Reads.iff (P := True) ?_ (by simp [groupsNodes])
    have hk : s.current.kind ≠ .keyword .GROUP := ne_of_clauseRank_lt hs
    exact .decline hk (.neg Bool.false_ne_true (.pure _))
  | cons i rest =>
    rw [forall_groupsNodes] at hn ⊢
    have hlist := endsList_of_clauseRank (Nat.lt_of_lt_of_le (by decide) hs)
    rw [tokens_listedPieces, groupsPieces_eq_map] at hlen ⊢
    simp only [List.map_cons, List.isEmpty_cons, Bool.false_eq_true, if_false] at hlen ⊢
    rw [← List.map_cons (f := fun x => GroupItem.pieces quote x), Piece.tokens_commaSeparated,
      List.map_map] at hlen ⊢
    rw [groupsCanonical_eq_map]
    refine .accept rfl (.pos rfl (.expect rfl (.commaList (c := .mark (.sign .comma))
      (F := fun u => EndsExpression u.current.kind) rfl (fun x hx u hu => ?_) (fun u hu => ?_)
      hlist.1.1 hlist.1.2 (List.cons_ne_nil i rest))))
    · have hle := Reads.length_le_intercalate [Token.mark (.sign .comma)]
        (List.mem_map_of_mem (f := tokens ∘ fun x => GroupItem.pieces quote x) hx)
      simp only [List.length_append, List.length_cons, Function.comp_apply] at hlen hle
      exact reads_groupItem hg (hn x hx) (by omega) hu
    · rw [hu]
      decide

omit hg in
theorem opens_groups (quote : Char) (groups : List GroupItem) :
    Opens 6 (tokens (listedPieces [.word .GROUP, .word .BY] (groupsPieces quote groups))) := by
  rw [tokens_listedPieces]
  split
  · exact opens_nil
  · exact opens_cons (by decide)

/-! ## Orderings -/

theorem reads_keys {keys : List OrderItem} (hn : ∀ k ∈ keys, ∀ x ∈ k.key.nodes, x.Readable d)
    (hlen : (tokens (Piece.commaSeparated (keysPieces quote keys))).length < n) (hne : keys ≠ [])
    (hplain : ∀ k ∈ keys, k.IsPlain) (hs : EndsList s.current.kind) :
    Reads (∀ k ∈ keys, ∀ x ∈ k.key.nodes, x.ViewReadable) (Parser.keys g)
      (tokens (Piece.commaSeparated (keysPieces quote keys))) (keysCanonical keys) s := by
  have hpieces : keysPieces quote keys = exprsPieces quote (keys.map (·.key)) := by
    simp [Function.comp_def]
  have hcanonical : keysCanonical keys =
      (exprsCanonical (keys.map (·.key))).map fun key => ⟨key, none, none⟩ := by
    rw [keysCanonical_eq_map hplain]
    simp [Function.comp_def]
  rw [hpieces] at hlen ⊢
  rw [hcanonical]
  refine Reads.iff (reads_expressionList hg (by simpa using hn) hlen hs (by simpa using hne)).last ?_
  simp

theorem reads_trailingSort {after : OrderingKind} {sort : Option (List OrderItem)}
    (hn : ∀ x ∈ trailingNodes sort, x.Readable d)
    (hlen : (tokens (trailingPieces quote sort)).length ≤ n) (hne : sort ≠ some [])
    (hd : sort ≠ none → d.allowsSortAfter after = true) (hs : 9 ≤ clauseRank s.current.kind) :
    Reads (∀ x ∈ trailingNodes sort, x.ViewReadable) (trailingSort d g after)
      (tokens (trailingPieces quote sort)) (trailingCanonical sort) s := by
  cases sort with
  | none =>
    refine Reads.iff (P := True) ?_ (by simp [trailingNodes])
    have hk : s.current.kind ≠ .keyword .SORT := ne_of_clauseRank_lt hs
    exact .kind (.neg hk (.pure _))
  | some items =>
    rw [trailingNodes, forall_itemsNodes] at hn
    obtain ⟨hlist, -, hnulls, -⟩ := endsList_of_clauseRank (Nat.lt_of_lt_of_le (by decide) hs)
    have hpieces : tokens (trailingPieces quote (some items)) = .mark (.word .SORT) ::
        .mark (.word .BY) :: tokens (Piece.commaSeparated (itemsPieces quote items)) := by
      simp [trailingPieces, OrderingKind.marks, OrderingKind.keyword]
    rw [hpieces] at hlen ⊢
    simp only [List.length_cons] at hlen
    have hitems := reads_orderItems hg hn (by omega) hlist hnulls (by simpa using hne)
    refine .kind (.pos rfl (.pos (hd (by simp)) (.advance (.expect rfl ?_))))
    rw [trailingNodes, forall_itemsNodes]
    exact hitems.last

omit hg in
theorem opens_trailing (quote : Char) (sort : Option (List OrderItem)) :
    Opens 8 (tokens (trailingPieces quote sort)) := by
  cases sort with
  | none => exact opens_nil
  | some items => exact opens_cons (by decide)

/-- What stands behind the keywords of an ordering. -/
def bodyTokens (quote : Char) : RowOrdering → List Token
  | .orderBy items | .sortBy items => tokens (Piece.commaSeparated (itemsPieces quote items))
  | .distributeBy keys sort | .clusterBy keys sort =>
    tokens (Piece.commaSeparated (keysPieces quote keys)) ++ tokens (trailingPieces quote sort)

/-- The keys of a distribution and the list that may be behind them. -/
theorem reads_distribution {after : OrderingKind} {keys : List OrderItem}
    {sort : Option (List OrderItem)} (f : List OrderItem → Option (List OrderItem) → RowOrdering)
    (hk : ∀ x ∈ itemsNodes keys, x.Readable d) (ht : ∀ x ∈ trailingNodes sort, x.Readable d)
    (hlen : (tokens (Piece.commaSeparated (keysPieces quote keys)) ++
      tokens (trailingPieces quote sort)).length < n)
    (hkeys : keys ≠ []) (hplain : ∀ k ∈ keys, k.IsPlain) (hsort : sort ≠ some [])
    (hd : sort ≠ none → d.allowsSortAfter after = true) (hs : 9 ≤ clauseRank s.current.kind) :
    Reads ((∀ x ∈ itemsNodes keys, x.ViewReadable) ∧ ∀ x ∈ trailingNodes sort, x.ViewReadable)
      (do
        let keys ← Parser.keys g
        return f keys (← trailingSort d g after))
      (tokens (Piece.commaSeparated (keysPieces quote keys)) ++ tokens (trailingPieces quote sort))
      (f (keysCanonical keys) (trailingCanonical sort)) s := by
  rw [List.length_append] at hlen
  rw [forall_itemsNodes] at hk ⊢
  have hend : 8 ≤ clauseRank (s.push (tokens (trailingPieces quote sort))).current.kind :=
    (opens_trailing quote sort).rank_current (Nat.le_of_succ_le hs)
  exact (reads_keys hg hk (by omega) hkeys hplain
    (endsList_of_clauseRank (Nat.lt_of_lt_of_le (by decide) hend)).1).bind
      (reads_trailingSort hg ht (by omega) hsort hd hs).last

theorem reads_orderingBody {o : RowOrdering} (hn : ∀ x ∈ orderingNodes (some o), x.Readable d)
    (hlen : (bodyTokens quote o).length < n) (hs : 9 ≤ clauseRank s.current.kind) :
    ∃ o', orderingCanonical (some o) = some o' ∧
      Reads (∀ x ∈ orderingNodes (some o), x.ViewReadable) (orderingBody d g o.kind)
        (bodyTokens quote o) o' s := by
  obtain ⟨hlist, -, hnulls, -⟩ := endsList_of_clauseRank (Nat.lt_of_lt_of_le (by decide) hs)
  cases o with
  | orderBy items =>
    rw [orderingNodes, List.forall_mem_cons, forall_itemsNodes] at hn ⊢
    refine ⟨_, rfl, Reads.iff (reads_orderItems hg hn.2 hlen hlist hnulls hn.1.complete).last ?_⟩
    exact and_iff_right trivial
  | sortBy items =>
    rw [orderingNodes, List.forall_mem_cons, forall_itemsNodes] at hn ⊢
    refine ⟨_, rfl, Reads.iff (reads_orderItems hg hn.2 hlen hlist hnulls hn.1.complete).last ?_⟩
    exact and_iff_right trivial
  | distributeBy keys sort =>
    rw [orderingNodes, List.forall_mem_cons, List.forall_mem_append] at hn ⊢
    obtain ⟨ho, hk, ht⟩ := hn
    refine ⟨_, rfl, Reads.iff (reads_distribution hg .distributeBy hk ht hlen ho.complete.1 ho.tidy
      ho.complete.2 ho.supported.2 hs) (and_iff_right trivial)⟩
  | clusterBy keys sort =>
    rw [orderingNodes, List.forall_mem_cons, List.forall_mem_append] at hn ⊢
    obtain ⟨ho, hk, ht⟩ := hn
    refine ⟨_, rfl, Reads.iff (reads_distribution hg .clusterBy hk ht hlen ho.complete.1 ho.tidy
      ho.complete.2 ho.supported.2 hs) (and_iff_right trivial)⟩

omit hg in
theorem tokens_ordering (quote : Char) (o : RowOrdering) :
    tokens (orderingPieces quote (some o)) =
      .mark (.word o.kind.keyword) :: .mark (.word .BY) :: bodyTokens quote o := by
  cases o <;> simp [orderingPieces, bodyTokens, RowOrdering.kind, OrderingKind.marks]

theorem reads_ordering {o : Option RowOrdering} (hn : ∀ x ∈ orderingNodes o, x.Readable d)
    (hlen : (tokens (orderingPieces quote o)).length ≤ n) (hs : 9 ≤ clauseRank s.current.kind) :
    Reads (∀ x ∈ orderingNodes o, x.ViewReadable) (ordering d g)
      (tokens (orderingPieces quote o)) (orderingCanonical o) s := by
  have hno : orderingKind? s.current.kind = none := by
    unfold orderingKind?
    split <;> rename_i hk <;> first | rfl | simp [hk, clauseRank] at hs
  cases o with
  | none =>
    refine Reads.iff (P := True) (.kind ?_) (by simp [orderingNodes])
    simp only [orderingPieces, Piece.tokens_nil, TokenStream.push_nil, hno]
    exact .pure none
  | some o =>
    rw [tokens_ordering] at hlen ⊢
    simp only [List.length_cons] at hlen
    obtain ⟨o', ho', hbody⟩ := reads_orderingBody hg hn (by omega) hs
    have hkind : orderingKind? (.keyword o.kind.keyword) = some o.kind := by
      cases o.kind <;> rfl
    have hnode : (Node.ordering o).Readable d := hn _ (by cases o <;> simp [orderingNodes])
    rw [ho']
    refine .kind ?_
    simp only [TokenStream.current_push_cons, Token.kind_keyword, hkind]
    refine Reads.iff ?_ (and_iff_left trivial).symm
    refine .require hnode.supported.1 (.advance (.expect rfl (.of_append_nil (hbody.bind (.kind ?_)))))
    simp only [TokenStream.push_nil, hno]
    exact .pure _

omit hg in
theorem opens_ordering (quote : Char) (o : Option RowOrdering) :
    Opens 8 (tokens (orderingPieces quote o)) := by
  cases o with
  | none => exact opens_nil
  | some o =>
    rw [tokens_ordering]
    have hrank : ∀ k : OrderingKind, 8 ≤ clauseRank (.keyword k.keyword) := by
      intro k
      cases k <;> decide
    exact opens_cons (hrank o.kind)

/-! ## Queries -/

omit hg in
theorem starts_columns (quote : Char) {columns : List SelectItem} (h : columns ≠ []) :
    Starts (tokens (Piece.commaSeparated (columnsPieces quote columns))) := by
  obtain ⟨c, rest, rfl⟩ := List.exists_cons_of_ne_nil h
  have hc : Starts (tokens (c.pieces quote)) := by
    rw [SelectItem.pieces, Piece.tokens_append]
    exact (starts_pieces quote c.value).append _
  rw [columnsPieces_eq_map, Piece.tokens_commaSeparated, List.map_map, List.map_cons]
  cases rest with
  | nil => simpa using hc
  | cons c' rest =>
    rw [List.map_cons, List.intercalate_cons_cons, List.append_assoc]
    exact hc.append _

omit hg in
theorem tokens_query (quote : Char) (q : Select) :
    tokens (q.pieces quote) = .mark (.word .SELECT) ::
      ((if q.distinct then [.mark (.word .DISTINCT)] else []) ++
        (tokens (Piece.commaSeparated (columnsPieces quote q.columns)) ++
          ((tokens (sourcePieces quote q.source) ++ tokens (viewsPieces quote q.views)) ++
            (tokens (optionalPieces quote [.space, Piece.keyword .WHERE, .space] q.filter) ++
              (tokens (listedPieces [.word .GROUP, .word .BY] (groupsPieces quote q.groups)) ++
                (tokens (optionalPieces quote [.space, Piece.keyword .HAVING, .space] q.having) ++
                  (tokens (orderingPieces quote q.ordering) ++
                    tokens (optionalPieces quote [.space, Piece.keyword .LIMIT, .space]
                      q.limit)))))))) := by
  obtain ⟨distinct, columns, source, views, filter, groups, having, ordering, limit⟩ := q
  cases distinct <;> cases groups <;> simp [Select.pieces]

/-- A query ends before a closing parenthesis and at the end of input. -/
theorem reads_queryOf (hq : d.Unquotes quote) {q : Select} (hn : ∀ x ∈ q.nodes, x.Readable d)
    (hlen : (tokens (q.pieces quote)).length ≤ n) (hs : 10 ≤ clauseRank s.current.kind) :
    Reads (∀ x ∈ q.nodes, x.ViewReadable) (queryOf d g) (tokens (q.pieces quote)) q.canonical
      s := by
  rw [tokens_query] at hlen ⊢
  obtain ⟨distinct, columns, source, views, filter, groups, having, ordering, limit⟩ := q
  simp only [List.length_cons, List.length_append] at hlen
  simp only [Select.nodes, List.forall_mem_cons, List.forall_mem_append] at hn ⊢
  obtain ⟨hselect, hcolumns, hsource, hviews, hfilter, hgroups, hhaving, hordering, hlimit⟩ := hn
  obtain ⟨hne, hfrom⟩ := hselect.complete
  -- Each clause ends where one that comes later begins.
  have hlimits := opens_clause quote .LIMIT limit
  have horderings := (opens_ordering quote ordering).append (hlimits.mono (by decide))
  have hhavings := (opens_clause quote .HAVING having).append (horderings.mono (by decide))
  have hgroupings := (opens_groups quote groups).append (hhavings.mono (by decide))
  have hfilters := (opens_clause quote .WHERE filter).append (hgroupings.mono (by decide))
  have hfroms := (opens_fromClause quote source views).append (hfilters.mono (by decide))
  have ends {rank : Nat} {ts : List Token} (h : Opens rank ts) (hrank : rank ≤ 10) :
      rank ≤ clauseRank (s.push ts).current.kind := h.rank_current (hrank.trans hs)
  refine Reads.iff (.expect rfl (.after (reads_distinctOrAll distinct ?_)
    ((reads_columns hg hq hcolumns (by omega) hne (ends hfroms (by decide))).bind ?_)))
    (and_iff_right trivial)
  · obtain ⟨t, ts, ht, hstart⟩ := starts_columns quote hne
    rw [ht, List.cons_append, TokenStream.current_push_cons]
    simp only [StartsExpression, List.mem_cons, not_or] at hstart
    exact ⟨hstart.2.2.1, hstart.2.2.2.1⟩
  · refine Reads.iff (.bind (reads_fromClause hg hq hsource hviews hfrom (by omega)
      (ends hfilters (by decide))) ?_) and_assoc.symm
    refine .bind (reads_clause hg hfilter (by omega) (ends hgroupings (by decide))) <|
      .bind (reads_groupBy hg hgroups (by omega) (ends hhavings (by decide))) <|
      .bind (reads_clause hg hhaving (by omega) (ends horderings (by decide))) <|
      .bind (reads_ordering hg hordering (by omega) (ends hlimits (by decide))) <|
      (reads_clause hg hlimit (by omega) (Nat.lt_of_lt_of_le (by decide) hs)).last

end SqlDialects.Parser
