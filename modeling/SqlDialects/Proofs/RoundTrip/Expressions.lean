import SqlDialects.Proofs.RoundTrip.Operands

/-!
# Written expressions are read back

The operators on the left edge of an expression are read one after another, each by one step of the
loop, which starts at the innermost operand. What follows the expression is left to the steps behind
it.
-/

namespace SqlDialects.Parser

open Piece (tokens)

variable {d : Dialect} {quote : Char} {g : Nested} {n m : Nat} {s : TokenStream} {left : Expr}

/-- An operator is one token, or a pattern operator that `NOT` may negate. -/
theorem marks_cases (op : BinaryOp) :
    (∃ mark : Mark, op.marks = [mark] ∧ binaryOp? mark.kind = some op) ∨
      (∃ (mark : Mark) (f : Option Dialect.Feature), op.marks = [mark] ∧
        patternOp? mark.kind = some (op, f)) ∨
      ∃ (mark : Mark) (op' : BinaryOp) (f : Option Dialect.Feature),
        op.marks = [.word .NOT, mark] ∧ patternOp? mark.kind = some (op', f) ∧
          op'.negated?.getD op' = op := by
  cases op
  all_goals first
    | exact .inl ⟨_, rfl, rfl⟩
    | exact .inr (.inl ⟨_, _, rfl, rfl⟩)
    | exact .inr (.inr ⟨_, _, _, rfl, rfl, rfl⟩)

/-- The token that begins an operator has its powers. -/
theorem infixPower?_marks (op : BinaryOp) (ts : List Token) :
    infixPower? (s.push (op.marks.map .mark ++ ts)).current.kind =
      some (op.leftPower, op.rightPower) := by
  cases op <;> rfl

theorem endsOperand_of_infixPower? {k : TokenKind} {p : Nat × Nat} (h : infixPower? k = some p) :
    EndsOperand k := by
  intro hk
  simp only [List.mem_cons, List.not_mem_nil, or_false] at hk
  obtain rfl | rfl | rfl | rfl := hk <;> cases h

/-! ## Binary operators -/

theorem reads_pattern {op : BinaryOp} {f : Option Dialect.Feature} {negated : Bool} {t : Token}
    {ts : List Token} {P : Prop} {right : Expr} {power : Nat} (hf : ∀ x ∈ f, d.supports x = true)
    (h : Reads P (g.expression power) ts right s) :
    Reads P (pattern d g left power op f negated) (t :: ts)
      (.binary left (if negated then op.negated?.getD op else op) right) s := by
  cases f with
  | none => exact .advance h.last
  | some x => exact .require (hf x rfl) (.advance h.last)

theorem reads_extend_binary {op : BinaryOp} {P : Prop} {ts : List Token} {right : Expr}
    (hm : m ≤ op.leftPower) (hf : ∀ f ∈ op.feature?, d.supports f = true)
    (h : Reads P (g.expression op.rightPower) ts right s) :
    Reads P (extend d g m left) (op.marks.map .mark ++ ts) (some (.binary left op right)) s := by
  obtain ⟨mark, hmarks, hop⟩ | ⟨mark, f, hmarks, hop⟩ | ⟨mark, op', f, hmarks, hop, hop'⟩ :=
    marks_cases op
  · rw [hmarks]
    exact .of_eq (extend_binary (by exact hop) hm) h.last
  · obtain ⟨hl, hr, hfeature⟩ := power_of_patternOp? false hop (if_neg Bool.false_ne_true)
    rw [hl] at hm
    rw [hr] at h
    rw [hmarks]
    exact .congr (extend_pattern (by exact hop) hm) (reads_pattern (hfeature ▸ hf) h).last
  · obtain ⟨hl, hr, hfeature⟩ := power_of_patternOp? true hop hop'
    rw [hl] at hm
    rw [hr] at h
    rw [hmarks]
    have hread : Reads P (pattern d g left 8 op' f true) (.mark mark :: ts) _ s :=
      reads_pattern (hfeature ▸ hf) h
    rw [if_pos rfl, hop'] at hread
    exact .of_eq ((extend_not rfl hm).trans (negatedPredicate_pattern (by exact hop))) hread.last

/-! ## Predicates -/

theorem reads_extend_isNull (negated : Bool) (hm : m ≤ 7) :
    Reads True (extend d g m left)
      (.mark (.word .IS) :: ((if negated then [.mark (.word .NOT)] else []) ++
        [.mark (.word .NULL)])) (some (.isNull left negated)) s := by
  cases negated with
  | false => exact .of_eq (extend_isNull rfl hm) (.decline (by simp) (.expect rfl (.pure _)))
  | true => exact .of_eq (extend_isNull rfl hm) (.accept rfl (.expect rfl (.pure _)))

/-- The list behind `IN`. -/
def listTokens (quote : Char) (list : List Expr) : List Token :=
  tokens (Piece.parenthesizedIf (!isLoneQuery list) (Piece.commaSeparated (exprsPieces quote list)))

theorem isLoneQuery_cases (list : List Expr) :
    (∃ query, list = [.subquery query]) ∨ isLoneQuery list = false := by
  unfold isLoneQuery
  split
  · exact .inl ⟨_, rfl⟩
  · exact .inr rfl

section List

variable (hg : g.ReadsBack d quote n)
include hg

theorem reads_inList (left : Expr) {list : List Expr} (negated : Bool) (hne : list ≠ [])
    (hn : ∀ e ∈ list, ∀ x ∈ e.nodes, x.Readable d) (hlen : (listTokens quote list).length ≤ n) :
    Reads (∀ x ∈ exprsNodes list, x.ViewReadable) (inList g left negated) (listTokens quote list)
      (.inList left (exprsCanonical list) negated) s := by
  unfold listTokens at hlen ⊢
  obtain ⟨query, rfl⟩ | hlone := isLoneQuery_cases list
  · have hpieces : Piece.parenthesizedIf (!isLoneQuery [.subquery query])
        (Piece.commaSeparated (exprsPieces quote [.subquery query])) =
          Piece.parenthesized (query.pieces quote) := by
      simp [isLoneQuery, Piece.parenthesizedIf, Piece.commaSeparated, Expr.pieces]
    rw [hpieces, Piece.tokens_parenthesized] at hlen ⊢
    simp only [List.length_cons, List.length_append] at hlen
    simp only [List.forall_mem_singleton, Expr.nodes, List.forall_mem_cons] at hn
    have hselect (u : TokenStream) :
        (u.push (tokens (query.pieces quote))).current.kind = .keyword .SELECT := by
      obtain ⟨ts, hts⟩ := tokens_select quote query
      rw [hts]
      rfl
    refine Reads.iff (Reads.last (Reads.parenthesized rfl rfl (.kind (.pos (hselect _)
      (hg.query hn.2 (by omega) (.inl rfl)).last)))) ?_
    simp [Expr.nodes]
  · rw [hlone, Bool.not_false, Piece.parenthesizedIf, if_pos rfl, Piece.tokens_parenthesized]
      at hlen ⊢
    simp only [List.length_cons, List.length_append] at hlen
    have hselect (u : TokenStream) : (u.push (tokens (Piece.commaSeparated
        (exprsPieces quote list)))).current.kind ≠ .keyword .SELECT := by
      obtain ⟨t, ts, hts, ht⟩ := starts_commaSeparated quote hne
      rw [hts]
      exact fun hk => by simp_all [StartsExpression]
    have hlist := reads_expressionList (s := s.push [.mark (.sign .rightParen)]) hg hn (by omega)
      (show EndsList (.symbol .rightParen) by decide) hne
    rw [forall_exprsNodes]
    exact Reads.last (Reads.parenthesized rfl rfl (.kind (.neg (hselect _) hlist)))

theorem reads_extend_inList {list : List Expr} (negated : Bool) (hm : m ≤ 7) (hne : list ≠ [])
    (hn : ∀ e ∈ list, ∀ x ∈ e.nodes, x.Readable d) (hlen : (listTokens quote list).length ≤ n) :
    Reads (∀ x ∈ exprsNodes list, x.ViewReadable) (extend d g m left)
      ((if negated then [.mark (.word .NOT)] else []) ++
        .mark (.word .IN) :: listTokens quote list)
      (some (.inList left (exprsCanonical list) negated)) s := by
  have hlist := (reads_inList (s := s) hg left negated hne hn hlen).last (f := some)
  cases negated with
  | false => exact .of_eq (extend_in rfl hm) hlist
  | true => exact .of_eq ((extend_not rfl hm).trans (negatedPredicate_in rfl)) hlist

theorem reads_between (left : Expr) {low high : Expr} (negated : Bool) (hl : ∀ x ∈ low.nodes, x.Readable d)
    (hh : ∀ x ∈ high.nodes, x.Readable d) (hlow : 8 ≤ low.leftBound) (hhigh : 8 ≤ high.leftBound)
    (hlen : (tokens (low.pieces quote)).length + (tokens (high.pieces quote)).length < n)
    (hs : EndsOperators 8 high s.current.kind) :
    Reads ((∀ x ∈ low.nodes, x.ViewReadable) ∧ ∀ x ∈ high.nodes, x.ViewReadable)
      (between g left 8 negated)
      (tokens (low.pieces quote) ++ .mark (.word .AND) :: tokens (high.pieces quote))
      (.between left low.canonical high.canonical negated) s := by
  have hbound : 5 ≤ low.rightBound := low.le_rightBound (fun x hx => (hl x hx).bound) (by omega)
  refine (hg.expression hl hlow (by omega) ⟨?_, fun l r hk => ?_⟩).bind
    (.expect rfl (hg.expression hh hhigh (by omega) hs).last)
  · exact show EndsOperand (.keyword .AND) by decide
  · have hand : infixPower? (.keyword .AND) = some (l, r) := hk
    cases hand
    omega

theorem reads_extend_between {low high : Expr} (negated : Bool) (hm : m ≤ 7)
    (hl : ∀ x ∈ low.nodes, x.Readable d) (hh : ∀ x ∈ high.nodes, x.Readable d)
    (hlow : 8 ≤ low.leftBound) (hhigh : 8 ≤ high.leftBound)
    (hlen : (tokens (low.pieces quote)).length + (tokens (high.pieces quote)).length < n)
    (hs : EndsOperators 8 high s.current.kind) :
    Reads ((∀ x ∈ low.nodes, x.ViewReadable) ∧ ∀ x ∈ high.nodes, x.ViewReadable)
      (extend d g m left)
      ((if negated then [.mark (.word .NOT)] else []) ++
        .mark (.word .BETWEEN) ::
          (tokens (low.pieces quote) ++ .mark (.word .AND) :: tokens (high.pieces quote)))
      (some (.between left low.canonical high.canonical negated)) s := by
  have hread := (reads_between hg left negated hl hh hlow hhigh hlen hs).last (f := some)
  cases negated with
  | false => exact .of_eq (extend_between rfl hm) hread
  | true => exact .of_eq ((extend_not rfl hm).trans (negatedPredicate_between rfl)) hread

end List

/-! ## The left edge -/

theorem infixPower?_negation (negated : Bool) {t : Token} (ts : List Token)
    (ht : infixPower? t.kind = some (7, 8)) :
    infixPower? (s.push ((if negated then [.mark (.word .NOT)] else []) ++ t :: ts)).current.kind =
      some (7, 8) := by
  cases negated with
  | false => exact ht
  | true => rfl

/-- The expression is read in front of any tokens that do not reach into it, and the loop over
operators goes on with them. -/
def Leads (d : Dialect) (quote : Char) (g : Nested) (m : Nat) (e : Expr) : Prop :=
  ∀ ⦃Q : Prop⦄ ⦃us : List Token⦄ ⦃b : Expr⦄ ⦃s : TokenStream⦄,
    EndsOperand (s.push us).current.kind →
    (∀ l r, infixPower? (s.push us).current.kind = some (l, r) → l < e.rightBound) →
    Loops Q (extend d g m) e.canonical us b s →
      Reads ((∀ x ∈ e.nodes, x.ViewReadable) ∧ Q) (expressionOf d g m)
        (tokens (e.pieces quote) ++ us) b s

/-- One more operator, and what it needs behind it. -/
theorem Leads.operator {e : Expr} {ts : List Token} {P : Prop} {l r : Nat}
    (hleft : Leads d quote g m left)
    (hpieces : tokens (e.pieces quote) = tokens (left.pieces quote) ++ ts)
    (hviews : (∀ x ∈ e.nodes, x.ViewReadable) ↔ (∀ x ∈ left.nodes, x.ViewReadable) ∧ P)
    (hts : ∀ s : TokenStream, infixPower? (s.push ts).current.kind = some (l, r))
    (hl : l < left.rightBound)
    (hstep : ∀ s : TokenStream, EndsOperand s.current.kind →
      (∀ l r, infixPower? s.current.kind = some (l, r) → l < e.rightBound) →
        Reads P (extend d g m left.canonical) ts (some e.canonical) s) :
    Leads d quote g m e := by
  intro Q us b s hs hr hloop
  have hne : ts ≠ [] := by
    rintro rfl
    have := hts ⟨[], .at 0, ""⟩
    cases this
  rw [hpieces, List.append_assoc]
  have hhead := hts (s.push us)
  rw [← TokenStream.push_append] at hhead
  refine (hleft (endsOperand_of_infixPower? hhead) (fun l' r' h => ?_)
    (.cons hne (hstep _ hs hr) hloop)).iff ?_
  · rw [hhead] at h
    cases h
    exact hl
  · rw [hviews, and_assoc]

variable (hg : g.ReadsBack d quote n)
include hg

theorem leads_operand (hq : d.Unquotes quote) {e : Expr} (he : IsOperand e)
    (hn : ∀ x ∈ e.nodes, x.Readable d) (hlen : (tokens (e.pieces quote)).length ≤ n) :
    Leads d quote g m e := fun _ _ _ _ hs hr hloop =>
  (reads_operand hg hq he hn hlen hs hr).bind hloop.iterate

theorem leads_expression (hq : d.Unquotes quote) (e : Expr) (hn : ∀ x ∈ e.nodes, x.Readable d)
    (hm : m ≤ e.leftBound) (hlen : (tokens (e.pieces quote)).length ≤ n) :
    Leads d quote g m e := by
  fun_induction Expr.leftBound e with
  | case1 left op right ih =>
    rw [Expr.nodes, List.forall_mem_cons, List.forall_mem_append] at hn
    obtain ⟨hop, hl, hr⟩ := hn
    obtain ⟨hleft, hright⟩ := hop.bound
    obtain ⟨hm, hml⟩ := le_min_iff.mp hm
    have hpieces : tokens (Expr.pieces quote (.binary left op right)) =
        tokens (left.pieces quote) ++ (op.marks.map .mark ++ tokens (right.pieces quote)) := by
      simp [Expr.pieces, Expr.looserThan_of_bound hleft, Expr.noTighterThan_of_bound hright,
        Piece.parenthesizedIf]
    rw [hpieces, List.length_append, List.length_append] at hlen
    refine Leads.operator (P := ∀ x ∈ right.nodes, x.ViewReadable) (ih hl hml (by omega)) hpieces ?_
      (fun s => infixPower?_marks op _) hleft fun s hs hbound => ?_
    · rw [Expr.nodes, List.forall_mem_cons, List.forall_mem_append]
      exact and_iff_right trivial
    · have hpos : 0 < op.marks.length := by cases op <;> decide
      rw [List.length_map] at hlen
      exact reads_extend_binary hm hop.supported (hg.expression hr hright (by omega)
        ⟨hs, fun l r h => lt_min_iff.mp (hbound l r h)⟩)
  | case2 operand negated ih =>
    rw [Expr.nodes, List.forall_mem_cons] at hn
    obtain ⟨hm, hml⟩ := le_min_iff.mp hm
    have hpieces : tokens (Expr.pieces quote (.isNull operand negated)) =
        tokens (operand.pieces quote) ++ (.mark (.word .IS) ::
          ((if negated then [.mark (.word .NOT)] else []) ++ [.mark (.word .NULL)])) := by
      simp [Expr.pieces]
    rw [hpieces, List.length_append] at hlen
    refine Leads.operator (P := True) (ih hn.2 hml (by omega)) hpieces ?_ (fun _ => rfl)
      hn.1.bound fun s _ _ => reads_extend_isNull negated hm
    rw [Expr.nodes, List.forall_mem_cons]
    simp
  | case3 operand list negated ih =>
    rw [Expr.nodes, List.forall_mem_cons, List.forall_mem_append, forall_exprsNodes] at hn
    obtain ⟨hin, ho, hlist⟩ := hn
    obtain ⟨hm, hml⟩ := le_min_iff.mp hm
    have hpieces : tokens (Expr.pieces quote (.inList operand list negated)) =
        tokens (operand.pieces quote) ++ ((if negated then [.mark (.word .NOT)] else []) ++
          .mark (.word .IN) :: listTokens quote list) := by
      simp [Expr.pieces, listTokens]
    rw [hpieces, List.length_append, List.length_append, List.length_cons] at hlen
    refine Leads.operator (P := ∀ x ∈ exprsNodes list, x.ViewReadable) (ih ho hml (by omega)) hpieces
      ?_ (fun _ => infixPower?_negation negated _ rfl) hin.bound fun s _ _ =>
        reads_extend_inList hg negated hm hin.complete hlist (by omega)
    rw [Expr.nodes, List.forall_mem_cons, List.forall_mem_append]
    exact and_iff_right trivial
  | case4 operand low high negated ih =>
    rw [Expr.nodes, List.forall_mem_cons, List.forall_mem_append, List.forall_mem_append] at hn
    obtain ⟨hbetween, ho, hl, hh⟩ := hn
    obtain ⟨hbound, hlow, hhigh⟩ := hbetween.bound
    obtain ⟨hm, hml⟩ := le_min_iff.mp hm
    have hpieces : tokens (Expr.pieces quote (.between operand low high negated)) =
        tokens (operand.pieces quote) ++ ((if negated then [.mark (.word .NOT)] else []) ++
          .mark (.word .BETWEEN) ::
            (tokens (low.pieces quote) ++ .mark (.word .AND) :: tokens (high.pieces quote))) := by
      simp [Expr.pieces]
    rw [hpieces] at hlen
    simp only [List.length_append, List.length_cons] at hlen
    refine Leads.operator (P := (∀ x ∈ low.nodes, x.ViewReadable) ∧ ∀ x ∈ high.nodes, x.ViewReadable)
      (ih ho hml (by omega)) hpieces ?_ (fun _ => infixPower?_negation negated _ rfl) hbound
      fun s hs hr => reads_extend_between hg negated hm hl hh hlow hhigh (by omega)
        ⟨hs, fun l r h => lt_min_iff.mp (hr l r h)⟩
    rw [Expr.nodes, List.forall_mem_cons, List.forall_mem_append, List.forall_mem_append]
    exact and_iff_right trivial
  | case5 e h1 h2 h3 h4 =>
    refine leads_operand hg hq ?_ hn hlen
    cases e with
    | binary left op right => exact (h1 _ _ _ rfl).elim
    | isNull operand negated => exact (h2 _ _ rfl).elim
    | inList operand list negated => exact (h3 _ _ _ rfl).elim
    | between operand low high negated => exact (h4 _ _ _ _ rfl).elim
    | _ => trivial

/-- An expression is read up to a token that it does not take. -/
theorem reads_expressionOf (hq : d.Unquotes quote) {e : Expr} (hn : ∀ x ∈ e.nodes, x.Readable d)
    (hm : m ≤ e.leftBound) (hlen : (tokens (e.pieces quote)).length ≤ n)
    (hs : EndsOperators m e s.current.kind) :
    Reads (∀ x ∈ e.nodes, x.ViewReadable) (expressionOf d g m) (tokens (e.pieces quote))
      e.canonical s := by
  have hstop : Loops True (extend d g m) e.canonical [] e.canonical s :=
    .stop (extend_stop fun l r h => (hs.operator l r h).1)
  refine .of_append_nil (Reads.iff ?_ (and_iff_left trivial).symm)
  exact leads_expression hg hq e hn hm hlen hs.operand (fun l r h => (hs.operator l r h).2) hstop

omit hg in
theorem reads_expressionOf_star {t : Token} (ht : t.kind = .symbol .star)
    (hs : EndsExpression s.current.kind) :
    Reads True (expressionOf d g 0) [t] (.wildcard []) s := by
  have hstop : Loops True (extend d g 0) (.wildcard []) [] (.wildcard []) s :=
    .stop (extend_stop fun l r h => by simp [hs.2] at h)
  exact (reads_star ht).after hstop.iterate

end SqlDialects.Parser
