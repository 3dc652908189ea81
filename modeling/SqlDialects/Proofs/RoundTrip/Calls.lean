import SqlDialects.Proofs.RoundTrip.Readable

/-!
# Written calls are read back

Lists of expressions, entries of an ordering, windows and calls, where the nested parsers read back
what is nested in them.
-/

namespace SqlDialects.Parser

open Piece (tokens)

variable {d : Dialect} {quote : Char} {g : Nested} {n : Nat} {s : TokenStream}
variable (hg : g.ReadsBack d quote n)
include hg

/-- A whole expression, with all its operators. -/
theorem reads_expression {e : Expr} (hn : ∀ x ∈ e.nodes, x.Readable d)
    (hlen : (tokens (e.pieces quote)).length < n) (hs : EndsExpression s.current.kind) :
    Reads (∀ x ∈ e.nodes, x.ViewReadable) (g.expression 0) (tokens (e.pieces quote)) e.canonical
      s :=
  hg.expression hn (Nat.zero_le _) hlen ⟨hs.1, fun l r h => by simp [hs.2] at h⟩

/-- The tokens of a list, with the commas between its entries. -/
theorem reads_expressionList {list : List Expr} (hn : ∀ e ∈ list, ∀ x ∈ e.nodes, x.Readable d)
    (hlen : (tokens (Piece.commaSeparated (exprsPieces quote list))).length < n)
    (hs : EndsList s.current.kind) (hne : list ≠ []) :
    Reads (∀ e ∈ list, ∀ x ∈ e.nodes, x.ViewReadable) (expressionList g)
      (tokens (Piece.commaSeparated (exprsPieces quote list))) (exprsCanonical list) s := by
  rw [exprsPieces_eq_map, Piece.tokens_commaSeparated, List.map_map] at hlen ⊢
  rw [exprsCanonical_eq_map]
  refine .commaList (F := fun u => EndsExpression u.current.kind) rfl (fun e he u hu => ?_)
    (fun u hu => by rw [hu]; decide) hs.1 hs.2 hne
  have hle := Reads.length_le_intercalate [Token.mark (.sign .comma)]
    (List.mem_map_of_mem (f := tokens ∘ fun e => Expr.pieces quote e) he)
  exact reads_expression hg (hn e he) (Nat.lt_of_le_of_lt hle hlen) hu

/-! ## Orderings -/

omit hg in
theorem reads_direction (direction : Direction) :
    Reads True Parser.direction (direction.marks.map .mark) (some direction) s := by
  cases direction with
  | asc => exact .accept rfl (.pure _)
  | desc => exact .decline (by simp [Direction.marks]) (.accept rfl (.pure _))

omit hg in
theorem reads_nullOrdering (nulls : Option NullOrdering)
    (hs : s.current.kind ≠ .keyword .NULLS) :
    Reads True nullOrdering (tokens (nullsPieces nulls)) nulls s := by
  rcases nulls with _ | _ | _
  · exact .decline hs (.pure _)
  · exact .accept rfl (.accept rfl (.pure _))
  · rw [nullsPieces, Piece.tokens_space_cons, Piece.tokens_phrase]
    exact .accept rfl (.decline (by simp) (.accept rfl (.pure _)))

theorem reads_orderItem {i : OrderItem} (hn : ∀ x ∈ i.key.nodes, x.Readable d)
    (hlen : (tokens (i.pieces quote)).length < n) (hs : s.current.kind ≠ .keyword .NULLS) :
    Reads (∀ x ∈ i.key.nodes, x.ViewReadable) (orderItem g) (tokens (i.pieces quote)) i.canonical
      s := by
  rw [OrderItem.pieces, List.append_assoc, Piece.tokens_append, List.cons_append,
    Piece.tokens_space_cons, Piece.tokens_append, Piece.tokens_phrase] at hlen ⊢
  rw [List.length_append] at hlen
  refine ((reads_expression hg hn (by omega) ?_).bind (Q := True)
    ((reads_direction _).after (reads_nullOrdering i.nulls hs).last)).iff (by simp)
  cases i.direction.getD .asc
  · exact show EndsExpression (.keyword .ASC) by decide
  · exact show EndsExpression (.keyword .DESC) by decide

theorem reads_orderItems {items : List OrderItem}
    (hn : ∀ i ∈ items, ∀ x ∈ i.key.nodes, x.Readable d)
    (hlen : (tokens (Piece.commaSeparated (itemsPieces quote items))).length < n)
    (hs : EndsList s.current.kind) (hnulls : s.current.kind ≠ .keyword .NULLS) (hne : items ≠ []) :
    Reads (∀ i ∈ items, ∀ x ∈ i.key.nodes, x.ViewReadable) (orderItems g)
      (tokens (Piece.commaSeparated (itemsPieces quote items))) (itemsCanonical items) s := by
  rw [itemsPieces_eq_map, Piece.tokens_commaSeparated, List.map_map] at hlen ⊢
  rw [itemsCanonical_eq_map]
  refine .commaList (F := fun u => u.current.kind ≠ .keyword .NULLS) rfl (fun i hi u hu => ?_)
    (fun u hu => by rw [hu]; decide) hnulls hs.2 hne
  have hle := Reads.length_le_intercalate [Token.mark (.sign .comma)]
    (List.mem_map_of_mem (f := tokens ∘ fun i => OrderItem.pieces quote i) hi)
  exact reads_orderItem hg (hn i hi) (Nat.lt_of_le_of_lt hle hlen) hu

/-! ## Windows -/

omit hg in
/-- A list behind its keywords, which is left out if it is empty. -/
theorem reads_listed {α β : Type} {P Q : Prop} {k : Keyword} {p : Parser (List α)}
    {f : List α → Parser β} {items : List (List Piece)} {l : List α} {us : List Token} {b : β}
    (hk : items = [] → (s.push us).current.kind ≠ .keyword k) (hnil : items = [] → l = [] ∧ P)
    (hp : items ≠ [] → Reads P p (tokens (Piece.commaSeparated items)) l (s.push us))
    (hf : Reads Q (f l) us b s) :
    Reads (P ∧ Q) (do
      if ← accept (.keyword k) then
        expect (.keyword .BY)
        let l ← p
        f l
      else
        let l ← pure []
        f l) (tokens (listedPieces [.word k, .word .BY] items) ++ us) b s := by
  rw [tokens_listedPieces]
  cases items with
  | nil =>
    obtain ⟨rfl, hP⟩ := hnil rfl
    refine (Reads.decline (hk rfl) (.neg Bool.false_ne_true ?_)).iff (and_iff_right hP)
    exact (.after (Reads.pure []) hf)
  | cons item rest =>
    exact .accept rfl (.pos rfl (.expect rfl ((hp (List.cons_ne_nil item rest)).bind hf)))

theorem reads_window {w : Window} (hp : ∀ e ∈ w.partition, ∀ x ∈ e.nodes, x.Readable d)
    (ho : ∀ i ∈ w.order, ∀ x ∈ i.key.nodes, x.Readable d)
    (hlen : (tokens (w.pieces quote)).length < n) :
    Reads ((∀ e ∈ w.partition, ∀ x ∈ e.nodes, x.ViewReadable) ∧
        ∀ i ∈ w.order, ∀ x ∈ i.key.nodes, x.ViewReadable)
      (window g) (tokens (Piece.parenthesized (w.pieces quote))) w.canonical s := by
  obtain ⟨partition, order⟩ := w
  dsimp only at hp ho ⊢
  have hpieces : tokens (Window.pieces quote ⟨partition, order⟩) =
      tokens (listedPieces [.word .PARTITION, .word .BY] (exprsPieces quote partition)) ++
        tokens (listedPieces [.word .ORDER, .word .BY] (itemsPieces quote order)) := by
    rw [Window.pieces, Piece.tokens_append, Piece.tokens_append]
    dsimp only
    split <;> simp [OrderingKind.marks, OrderingKind.keyword]
  have hle := length_commaSeparated_le [.word .PARTITION, .word .BY] (exprsPieces quote partition)
  have hle' := length_commaSeparated_le [.word .ORDER, .word .BY] (itemsPieces quote order)
  rw [Piece.tokens_parenthesized]
  rw [hpieces] at hlen ⊢
  rw [List.length_append] at hlen
  refine .parenthesized rfl rfl ?_
  refine reads_listed (l := exprsCanonical partition) (fun _ => ?_) (fun hnil => ?_)
    (fun hne => ?_) ?_
  · rw [tokens_listedPieces]
    split <;> simp
  · rw [exprsPieces_eq_map, List.map_eq_nil_iff] at hnil
    simp [hnil]
  · refine reads_expressionList hg hp (by omega) ?_ (by simpa using hne)
    rw [tokens_listedPieces]
    split
    · exact show EndsList (.symbol .rightParen) by decide
    · exact show EndsList (.keyword .ORDER) by decide
  · refine .of_append_nil ((reads_listed (l := itemsCanonical order)
      (f := fun order => pure (Window.mk (exprsCanonical partition) order)) (fun _ => ?_)
      (fun hnil => ?_) (fun hne => ?_) (.pure _)).iff (and_iff_left trivial).symm)
    · simp
    · rw [itemsPieces_eq_map, List.map_eq_nil_iff] at hnil
      simp [hnil]
    · exact reads_orderItems hg ho (by omega) (show EndsList (.symbol .rightParen) by decide)
        (by simp) (by simpa using hne)

/-! ## Calls -/

/-- A lone star is read like any other list. -/
theorem arguments_eq {distinct : Bool} {t : Token} {ts : List Token} (h : 0 < n)
    (ht : t.kind ≠ .symbol .rightParen) :
    arguments g distinct (s.push (t :: ts)) = expressionList g (s.push (t :: ts)) := by
  have hstar (hk : t.kind = .symbol .star)
      (hs : (s.push ts).current.kind = .symbol .rightParen) :
      expressionList g (s.push (t :: ts)) = .ok [.wildcard []] (s.push ts) :=
    (Reads.commaList (s := s.push ts) (C := fun _ : Unit => True) (l := [()]) (T := fun _ => [t])
      (v := fun _ => Expr.wildcard []) (c := .mark (.sign .comma))
      (F := fun u => EndsExpression u.current.kind) rfl (fun _ _ u hu => hg.star h hk hu)
      (fun u hu => by rw [hu]; decide) (by rw [hs]; decide) (by rw [hs]; nofun) (by simp)).ok
        (by simp)
  have hnil : (!distinct && decide (t.kind = .symbol .rightParen)) = false := by simp [ht]
  rw [arguments, kind_bind, TokenStream.current_push_cons, hnil, if_neg Bool.false_ne_true,
    kind_bind, second_bind, TokenStream.current_push_cons, TokenStream.second_push_cons]
  split
  · rename_i hk
    simp only [Bool.and_eq_true, decide_eq_true_eq] at hk
    rw [hstar hk.1 hk.2]
    rfl
  · rfl

theorem reads_arguments {list : List Expr} {distinct : Bool}
    (hn : ∀ e ∈ list, ∀ x ∈ e.nodes, x.Readable d)
    (hlen : (tokens (Piece.commaSeparated (exprsPieces quote list))).length < n)
    (hne : distinct = true → list ≠ []) (hs : s.current.kind = .symbol .rightParen) :
    Reads (∀ e ∈ list, ∀ x ∈ e.nodes, x.ViewReadable) (arguments g distinct)
      (tokens (Piece.commaSeparated (exprsPieces quote list))) (exprsCanonical list) s := by
  by_cases hlist : list = []
  · subst hlist
    have hdistinct : distinct = false := by simpa using hne
    refine .kind (.pos ?_ ((Reads.pure []).iff (by simp)))
    simp [hdistinct, exprsPieces, Piece.commaSeparated, hs]
  · have hread := reads_expressionList (s := s) hg hn hlen (by rw [hs]; decide) hlist
    obtain ⟨t, ts, hts, ht⟩ := starts_commaSeparated quote hlist
    rw [hts] at hread ⊢
    exact .of_eq (arguments_eq hg (by omega) fun hk => by simp [StartsExpression, hk] at ht) hread

omit hg in
theorem reads_distinctOrAll (distinct : Bool)
    (hs : s.current.kind ≠ .keyword .DISTINCT ∧ s.current.kind ≠ .keyword .ALL) :
    Reads True distinctOrAll (if distinct then [.mark (.word .DISTINCT)] else []) distinct s := by
  cases distinct with
  | false => exact .decline hs.1 (.neg Bool.false_ne_true (.decline hs.2 (.pure _)))
  | true => exact .accept rfl (.pos rfl (.pure _))

omit hg in
theorem reads_ignoreNulls (nulls : Bool) (hs : s.current.kind ≠ .keyword .IGNORE) :
    Reads True Parser.ignoreNulls
      (if nulls then [.mark (.word .IGNORE), .mark (.word .NULLS)] else []) nulls s := by
  cases nulls with
  | false => exact .kind (.second (.neg (by simp [hs]) (.pure _)))
  | true => exact .kind (.second (.pos rfl (.advance (.advance (.pure _)))))

theorem reads_optionalWindow {w : Option Window}
    (hn : ∀ x ∈ w, (∀ n ∈ exprsNodes x.partition, n.Readable d) ∧
      ∀ n ∈ itemsNodes x.order, n.Readable d)
    (hlen : (tokens (windowPieces quote w)).length < n) (hs : s.current.kind ≠ .keyword .OVER) :
    Reads (∀ x ∈ windowNodes w, x.ViewReadable) (optionalWindow g)
      (tokens (windowPieces quote w)) (windowCanonical w) s := by
  rw [windowCanonical_eq_map]
  cases w with
  | none => exact .kind (.second (.neg (by simp [windowPieces, hs]) ((Reads.pure none).iff (by simp [windowNodes]))))
  | some w =>
    obtain ⟨hp, ho⟩ := hn w rfl
    rw [forall_exprsNodes] at hp
    rw [forall_itemsNodes] at ho
    rw [windowPieces_some] at hlen ⊢
    refine .kind (.second (.pos ?_ (.advance ?_)))
    · rfl
    · refine (reads_window hg hp ho ?_).last.iff (by simp)
      simp at hlen
      omega

theorem reads_call {c : Call} (hn : ∀ x ∈ c.nodes, x.Readable d)
    (hlen : (tokens (c.pieces quote)).length ≤ n) (hs : EndsOperand s.current.kind) :
    ∃ ts, tokens (c.pieces quote) =
        .function quote c.name :: .mark (.sign .leftParen) :: ts ∧
      Reads (∀ x ∈ c.nodes, x.ViewReadable) (call g (canonicalFunction c.name))
        (.mark (.sign .leftParen) :: ts) c.canonical s := by
  obtain ⟨name, list, distinct, nulls, w⟩ := c
  rw [Call.nodes, List.forall_mem_cons, List.forall_mem_append, forall_exprsNodes,
    forall_windowNodes] at hn
  obtain ⟨hcall, hlist, hw⟩ := hn
  have hpieces : tokens (Call.pieces quote ⟨name, list, distinct, nulls, w⟩) =
      .function quote name :: .mark (.sign .leftParen) ::
        ((if distinct then [.mark (.word .DISTINCT)] else []) ++
          (tokens (Piece.commaSeparated (exprsPieces quote list)) ++
            .mark (.sign .rightParen) ::
              ((if nulls then [.mark (.word .IGNORE), .mark (.word .NULLS)] else []) ++
                tokens (windowPieces quote w)))) := by
    cases distinct <;> cases nulls <;> simp [Call.pieces]
  rw [hpieces] at hlen
  refine ⟨_, hpieces, ?_⟩
  simp only [List.length_cons, List.length_append] at hlen
  -- Behind the parenthesis or `DISTINCT` comes an argument, or nothing.
  have hfirst (u : TokenStream) (hu : u.current.kind = .symbol .rightParen) :
      (u.push (tokens (Piece.commaSeparated (exprsPieces quote list)))).current.kind ≠
          .keyword .DISTINCT ∧
        (u.push (tokens (Piece.commaSeparated (exprsPieces quote list)))).current.kind ≠
          .keyword .ALL := by
    by_cases hne : list = []
    · simp [hne, Piece.commaSeparated, hu]
    · obtain ⟨t, ts, hts, ht⟩ := starts_commaSeparated quote hne
      rw [hts, TokenStream.current_push_cons]
      constructor <;> intro hk <;> simp [StartsExpression, hk] at ht
  have hignore : (s.push (tokens (windowPieces quote w))).current.kind ≠ .keyword .IGNORE := by
    cases w with
    | none =>
      have hk : s.current.kind ≠ .keyword .IGNORE := fun hk => by simp [EndsOperand, hk] at hs
      exact hk
    | some w => simp [windowPieces_some]
  have hover : s.current.kind ≠ .keyword .OVER := fun hk => by simp [EndsOperand, hk] at hs
  have hviews : (∀ x ∈ (Call.mk name list distinct nulls w).nodes, x.ViewReadable) ↔
      (∀ e ∈ list, ∀ x ∈ e.nodes, x.ViewReadable) ∧ ∀ x ∈ windowNodes w, x.ViewReadable := by
    rw [Call.nodes, List.forall_mem_cons, List.forall_mem_append, forall_exprsNodes]
    simp
  refine Reads.iff ?_ hviews
  refine .expect rfl (.after (reads_distinctOrAll distinct ?_) ?_)
  · rw [TokenStream.push_append]
    exact hfirst _ rfl
  refine (reads_arguments hg hlist (by omega) hcall.complete rfl).bind (.expect rfl ?_)
  exact .after (reads_ignoreNulls nulls hignore)
    (reads_optionalWindow hg hw (by omega) hover).last

end SqlDialects.Parser
