import SqlDialects.Proofs.Prefix.Enclosed
import SqlDialects.Proofs.RoundTrip.Parentheses

/-!
# Runs of infix tokens

Which tokens make an arithmetic expression is told by reading them one after another: where an
operand is expected there are minus signs, an opening parenthesis or the operand, and behind one an
operator or a closing parenthesis. Main statements: such a run is always read as an expression,
and stays one without the two parentheses of a pair.
-/

namespace SqlDialects

open Piece (tokens)

/-- The tokens of a sign, an operand or an operator, where an operand is expected or has just been
passed, and whether one is expected behind them. -/
inductive InfixStep (quote : Char) : (before : Bool) → List Token → (behind : Bool) → Prop
  | minus : InfixStep quote true [.mark (.sign .minus)] true
  | column (qualifier : List String) (name : String) :
      InfixStep quote true (tokens (Expr.pieces quote (.column qualifier name))) false
  | integer {value : Int64} (h : 0 ≤ value.toInt) :
      InfixStep quote true [.integer value.toInt] false
  | operator (op : BinaryOp) : InfixStep quote false (op.marks.map .mark) true

/-- The tokens run to the end of an infix expression from `depth` parentheses deep. -/
inductive InfixRun (quote : Char) : (expectsOperand : Bool) → (depth : Nat) → List Token → Prop
  | done : InfixRun quote false 0 []
  | step {before behind : Bool} {n : Nat} {us ts : List Token}
      (hstep : InfixStep quote before us behind) (h : InfixRun quote behind n ts) : InfixRun quote before n (us ++ ts)
  | opening {n : Nat} {ts : List Token} (h : InfixRun quote true (n + 1) ts) :
      InfixRun quote true n (.mark (.sign .leftParen) :: ts)
  | closing {n : Nat} {ts : List Token} (h : InfixRun quote false n ts) :
      InfixRun quote false (n + 1) (.mark (.sign .rightParen) :: ts)

/-! ## Runs without a pair of parentheses -/

/-- The parentheses are each other's, but for `depth` of those that close. -/
def BalancedFrom : (depth : Nat) → List TokenKind → Prop
  | depth, [] => depth = 0
  | depth, .symbol .leftParen :: ks => BalancedFrom (depth + 1) ks
  | 0, .symbol .rightParen :: _ => False
  | depth + 1, .symbol .rightParen :: ks => BalancedFrom depth ks
  | depth, _ :: ks => BalancedFrom depth ks

theorem balancedFrom_cons {k : TokenKind} (hk : ¬k.IsParenthesis) (depth : Nat)
    (ks : List TokenKind) : BalancedFrom depth (k :: ks) ↔ BalancedFrom depth ks := by
  simp only [TokenKind.IsParenthesis, not_or] at hk
  rw [BalancedFrom]
  · exact hk.1
  · exact fun _ => hk.2
  · exact fun _ _ => hk.2

theorem balancedFrom_append {ks : List TokenKind} (hks : ∀ k ∈ ks, ¬k.IsParenthesis) (depth : Nat)
    (ls : List TokenKind) : BalancedFrom depth (ks ++ ls) ↔ BalancedFrom depth ls := by
  induction ks with
  | nil => exact Iff.rfl
  | cons k ks ih =>
    rw [List.forall_mem_cons] at hks
    rw [List.cons_append, balancedFrom_cons hks.1, ih hks.2]

/-- Tokens that are no parentheses lie before a parenthesis or behind it. -/
theorem exists_append_of_parenthesis {us vs before behind : List Token} {t : Token}
    (h : us ++ vs = before ++ t :: behind) (ht : t.kind.IsParenthesis)
    (hus : ∀ u ∈ us, ¬u.kind.IsParenthesis) :
    ∃ between, before = us ++ between ∧ vs = between ++ t :: behind := by
  obtain ⟨between, hbefore, hvs⟩ | ⟨between, hus', hbetween⟩ := List.append_eq_append_iff.mp h
  · exact ⟨between, hbefore, hvs⟩
  · cases between with
    | nil => exact ⟨[], by simpa using hus'.symm, by simpa using hbetween.symm⟩
    | cons u between =>
      obtain ⟨rfl, -⟩ := List.cons.inj hbetween
      exact absurd ht (hus t (by simp [hus']))

theorem InfixStep.not_isParenthesis {quote : Char} {before behind : Bool} {us : List Token}
    (h : InfixStep quote before us behind) : ∀ t ∈ us, ¬t.kind.IsParenthesis := by
  cases h with
  | minus => simp [TokenKind.IsParenthesis]
  | column qualifier name => exact not_isParenthesis_column quote qualifier name
  | integer => simp [Token.integer, Token.bare, TokenKind.IsParenthesis]
  | operator op => cases op <;> simp [BinaryOp.marks, TokenKind.IsParenthesis]

namespace InfixRun

variable {quote : Char} {expectsOperand : Bool} {n : Nat} {ts : List Token}

/-- Without the parenthesis that closes what has been opened before, a run goes on one parenthesis
less deep. -/
theorem without_closing (h : InfixRun quote expectsOperand n ts) {inner behind : List Token}
    {r : Token} {depth k : Nat} (hts : ts = inner ++ r :: behind) (hn : n = k + 1 + depth)
    (hr : r.kind = .symbol .rightParen) (hinner : BalancedFrom depth (inner.map (·.kind))) :
    InfixRun quote expectsOperand (k + depth) (inner ++ behind) := by
  -- `depth` counts what `inner` has opened so far; the parenthesis that `r` closes lies below it.
  induction h generalizing inner depth with
  | done => simp at hts
  | step hstep _ ih =>
    have hplain := hstep.not_isParenthesis
    obtain ⟨inner, rfl, hrest⟩ := exists_append_of_parenthesis hts (.inr hr) hplain
    rw [List.map_append, balancedFrom_append (by simpa using hplain)] at hinner
    rw [List.append_assoc]
    exact .step hstep (ih hrest hn hinner)
  | opening _ ih =>
    cases inner with
    | nil =>
      obtain ⟨rfl, -⟩ := List.cons.inj hts
      cases hr
    | cons t inner =>
      obtain ⟨rfl, hrest⟩ := List.cons.inj hts
      exact .opening (ih hrest (by omega) hinner)
  | closing h ih =>
    cases inner with
    | nil =>
      obtain ⟨rfl, rfl⟩ := List.cons.inj hts
      obtain rfl : depth = 0 := hinner
      obtain rfl := Nat.succ.inj hn
      exact h
    | cons t inner =>
      obtain ⟨rfl, hrest⟩ := List.cons.inj hts
      cases depth with
      | zero => exact hinner.elim
      | succ depth => exact .closing (ih hrest (Nat.succ.inj hn) hinner)

/-- A run without the two parentheses of a pair. -/
theorem without_pair (h : InfixRun quote expectsOperand n ts) {before inner behind : List Token}
    {l r : Token} (hts : ts = before ++ l :: (inner ++ r :: behind))
    (hl : l.kind = .symbol .leftParen) (hr : r.kind = .symbol .rightParen)
    (hinner : BalancedFrom 0 (inner.map (·.kind))) :
    InfixRun quote expectsOperand n (before ++ (inner ++ behind)) := by
  induction h generalizing before with
  | done => simp at hts
  | step hstep _ ih =>
    obtain ⟨before, rfl, hrest⟩ :=
      exists_append_of_parenthesis hts (.inl hl) hstep.not_isParenthesis
    rw [List.append_assoc]
    exact .step hstep (ih hrest)
  | opening h ih =>
    cases before with
    | nil =>
      obtain ⟨rfl, rfl⟩ := List.cons.inj hts
      exact h.without_closing rfl rfl hr hinner
    | cons t before =>
      obtain ⟨rfl, hrest⟩ := List.cons.inj hts
      exact .opening (ih hrest)
  | closing _ ih =>
    cases before with
    | nil =>
      obtain ⟨rfl, -⟩ := List.cons.inj hts
      cases hl
    | cons t before =>
      obtain ⟨rfl, hrest⟩ := List.cons.inj hts
      exact .closing (ih hrest)

end InfixRun

/-! ## Runs are read -/

namespace Parser

variable {quote : Char} {n : Nat} {ts : List Token} {s : TokenStream}

theorem kind_ne_keyword_of_infixRun (h : InfixRun quote true n ts) (k : Keyword) :
    (s.push ts).current.kind ≠ .keyword k := by
  cases h with
  | opening => simp
  | step hstep =>
    cases hstep with
    | minus => simp
    | integer => simp [Token.integer, Token.bare]
    | column qualifier =>
      cases qualifier <;> simp [Expr.pieces, Piece.qualifier, Token.kind_name_ne_keyword]

theorem endsOperand_of_infixRun (h : InfixRun quote false n ts)
    (hs : s.current.kind = .endOfInput) : EndsOperand (s.push ts).current.kind := by
  cases h with
  | done => rw [TokenStream.push_nil, hs]; decide
  | closing => exact show EndsOperand (.symbol .rightParen) by decide
  | step hstep =>
    cases hstep with
    | operator op => exact endsOperand_of_infixPower? (infixPower?_marks op _)

/-- An expression is read from the front of a run, up to where no operator of the power goes on. -/
def ReadsRun (quote : Char) (n m : Nat) (p : Parser Expr) (ts : List Token) (s : TokenStream) :
    Prop :=
  ∃ e us vs, ts = us ++ vs ∧ p (s.push ts) = .ok e (s.push vs) ∧ InfixRun quote false n vs ∧
    ∀ l r, infixPower? (s.push vs).current.kind = some (l, r) → l < m

/-- Expressions, and what follows their first operand, are read from a run. -/
structure ReadsRuns (quote : Char) (ts : List Token) (s : TokenStream) : Prop where
  expression ⦃n : Nat⦄ (m : Nat) (h : InfixRun quote true n ts) :
    ReadsRun quote n m (expression .spark m) ts s
  operators ⦃n : Nat⦄ (m : Nat) (left : Expr) (h : InfixRun quote false n ts) :
    ReadsRun quote n m (iterate (extend .spark (nested .spark) m) left) ts s

section Steps

variable {m : Nat} {left : Expr}

theorem readsRun_of_stop (h : InfixRun quote false n ts)
    (hstop : ∀ l r, infixPower? (s.push ts).current.kind = some (l, r) → l < m) :
    ReadsRun quote n m (iterate (extend .spark (nested .spark) m) left) ts s :=
  ⟨left, [], ts, rfl, iterate_of_none (progresses_extend (nested_passing _) m) (extend_stop hstop),
    h, hstop⟩

/-- An operator and its right operand, and what follows them. -/
theorem readsRun_operator {op : BinaryOp} {us : List Token} (hts : ts = op.marks.map .mark ++ us)
    (h : InfixRun quote true n us) (hm : m ≤ op.leftPower)
    (ih : ∀ us : List Token, us.length < ts.length → ReadsRuns quote us s) :
    ReadsRun quote n m (iterate (extend .spark (nested .spark) m) left) ts s := by
  have hmarks : 0 < (op.marks.map Token.mark).length := by cases op <;> decide
  have hfeature : ∀ f ∈ op.feature?, Dialect.spark.supports f = true := by cases op <;> decide
  subst hts
  rw [List.length_append] at ih
  obtain ⟨right, vs, ws, rfl, hright, hrun, -⟩ := (ih us (by omega)).expression op.rightPower h
  rw [List.length_append] at ih
  have hstep : Reads True (extend .spark (nested .spark) m left) (op.marks.map .mark ++ vs)
      (some (.binary left op right)) (s.push ws) :=
    reads_extend_binary hm hfeature (.of_ok (by rwa [← TokenStream.push_append]))
  obtain ⟨e, us', vs', hws, hloop, hend, hstop⟩ :=
    (ih ws (by omega)).operators m (.binary left op right) hrun
  refine ⟨e, op.marks.map .mark ++ (vs ++ us'), vs', by simp [hws], ?_, hend, hstop⟩
  rw [iterate_eq (progresses_extend (nested_passing _) m), ← List.append_assoc,
    TokenStream.push_append, bind_of_ok (hstep.ok trivial)]
  exact hloop

theorem readsRun_operators (h : InfixRun quote false n ts) (hs : s.current.kind = .endOfInput)
    (ih : ∀ us : List Token, us.length < ts.length → ReadsRuns quote us s) :
    ReadsRun quote n m (iterate (extend .spark (nested .spark) m) left) ts s := by
  cases h with
  | done => exact readsRun_of_stop .done (by simp [hs, infixPower?])
  | closing h => exact readsRun_of_stop (.closing h) (by simp [infixPower?])
  | step hstep h =>
    cases hstep with
    | operator op =>
      by_cases hm : op.leftPower < m
      · refine readsRun_of_stop (.step (.operator op) h) fun l r hk => ?_
        rw [infixPower?_marks] at hk
        cases hk
        exact hm
      · exact readsRun_operator rfl h (by omega) ih

/-- The first operand, and what follows it. -/
theorem readsRun_operand {us vs : List Token} (hus : us ≠ [])
    (hoperand : Reads True (operand .spark (nested .spark)) us left (s.push vs))
    (h : InfixRun quote false n vs)
    (ih : ∀ ws : List Token, ws.length < (us ++ vs).length → ReadsRuns quote ws s) :
    ReadsRun quote n m (expression .spark m) (us ++ vs) s := by
  have hpos := List.length_pos_iff.mpr hus
  rw [List.length_append] at ih
  obtain ⟨e, us', vs', rfl, hloop, hend, hstop⟩ := (ih vs (by omega)).operators m left h
  refine ⟨e, us ++ us', vs', by simp, ?_, hend, hstop⟩
  rw [expression_unfold, expressionOf, TokenStream.push_append, bind_of_ok (hoperand.ok trivial)]
  exact hloop

theorem readsRun_minus (h : InfixRun quote true n ts)
    (ih : ∀ us : List Token, us.length < ts.length + 1 → ReadsRuns quote us s) :
    ReadsRun quote n m (expression .spark m) (.mark (.sign .minus) :: ts) s := by
  obtain ⟨e, us, vs, rfl, hread, hrun, -⟩ := (ih ts (by omega)).expression 13 h
  rw [TokenStream.push_append] at hread
  have hoperand : Reads True (operand .spark (nested .spark)) (.mark (.sign .minus) :: us)
      (.unary .neg e) (s.push vs) :=
    .of_eq (operand_unary rfl) (Reads.of_ok hread).last
  have hrest := readsRun_operand (m := m) (List.cons_ne_nil _ us) hoperand hrun ih
  exact hrest

theorem readsRun_opening (h : InfixRun quote true (n + 1) ts)
    (ih : ∀ us : List Token, us.length < ts.length + 1 → ReadsRuns quote us s) :
    ReadsRun quote n m (expression .spark m) (.mark (.sign .leftParen) :: ts) s := by
  obtain ⟨e, us, vs, rfl, hread, hrun, hstop⟩ := (ih ts (by omega)).expression 0 h
  -- Power 0 takes every operator, so that reading can only have stopped at a closing parenthesis.
  cases hrun with
  | step hstep =>
    cases hstep with
    | operator op => exact absurd (hstop _ _ (infixPower?_marks op _)) (Nat.not_lt_zero _)
  | @closing _ vs hrun =>
    have hselect := kind_ne_keyword_of_infixRun (s := s) h .SELECT
    rw [TokenStream.push_append] at hread hselect
    have hoperand : Reads True (operand .spark (nested .spark))
        (.mark (.sign .leftParen) :: (us ++ [.mark (.sign .rightParen)])) (.paren e) (s.push vs) :=
      .congr (q := group (nested .spark)) rfl
        (.parenthesized rfl rfl (.kind (.neg hselect (Reads.of_ok hread).last)))
    have hsplit : .mark (.sign .leftParen) :: (us ++ .mark (.sign .rightParen) :: vs) =
        (.mark (.sign .leftParen) :: (us ++ [.mark (.sign .rightParen)])) ++ vs := by simp
    rw [hsplit]
    exact readsRun_operand nofun hoperand hrun fun ws hws => ih ws (by simp at hws ⊢; omega)

theorem readsRun_expression (h : InfixRun quote true n ts) (hq : Dialect.spark.Unquotes quote)
    (hs : s.current.kind = .endOfInput)
    (ih : ∀ us : List Token, us.length < ts.length → ReadsRuns quote us s) :
    ReadsRun quote n m (expression .spark m) ts s := by
  cases h with
  | opening h => exact readsRun_opening h ih
  | @step _ _ _ _ ts hstep h =>
    cases hstep with
    | minus => exact readsRun_minus h ih
    | column qualifier name =>
      have hend := endsOperand_of_infixRun h hs
      refine readsRun_operand ?_ (reads_column hq qualifier name hend) h ih
      cases qualifier <;> simp [Expr.pieces, Piece.qualifier]
    | @integer value hvalue =>
      have htokens : tokens (Expr.pieces quote (.literal (.integer value))) =
          [.integer value.toInt] := by simp [Expr.pieces, Literal.piece]
      have hoperand : Reads True (operand .spark (nested .spark)) [.integer value.toInt]
          (.literal (.integer value)) (s.push ts) :=
        htokens ▸ reads_literal (Literal.readsBack_integer hvalue)
      exact readsRun_operand (List.cons_ne_nil _ []) hoperand h ih

end Steps

/-- However long a run is, what it begins with is read. -/
theorem readsRuns (hq : Dialect.spark.Unquotes quote) (hs : s.current.kind = .endOfInput)
    (ts : List Token) : ReadsRuns quote ts s := by
  -- What follows an operator is no part of the run before it, so the induction is on the length.
  induction hlen : ts.length using Nat.strong_induction_on generalizing ts with
  | _ k ih =>
    have ih : ∀ us : List Token, us.length < ts.length → ReadsRuns quote us s := fun us hus =>
      ih us.length (hlen ▸ hus) us rfl
    exact ⟨fun _ m h => readsRun_expression h hq hs ih, fun _ m left h => readsRun_operators h hs ih⟩

/-- A whole run behind `SELECT` is a statement. -/
theorem exists_statement_of_infixRun (hq : Dialect.spark.Unquotes quote)
    (hs : s.current.kind = .endOfInput) (h : InfixRun quote true 0 ts) :
    ∃ e, statement .spark (s.push (.mark (.word .SELECT) :: ts)) = .ok (.ofExpr e) s := by
  obtain ⟨e, us, vs, rfl, hread, hrun, hstop⟩ := (readsRuns hq hs ts).expression 0 h
  have hkeyword := kind_ne_keyword_of_infixRun (s := s) h
  cases hrun with
  | step hstep =>
    cases hstep with
    | operator op => exact absurd (hstop _ _ (infixPower?_marks op _)) (Nat.not_lt_zero _)
  | done =>
    have hquery : query .spark (s.push (.mark (.word .SELECT) :: (us ++ []))) =
        .ok (.ofColumn e none) s :=
      query_ofValue (s := s.push (.mark (.word .SELECT) :: (us ++ []))) rfl (hkeyword .DISTINCT)
        (hkeyword .ALL) hread (.inr hs)
    exact ⟨e, statement_of_end hquery hs⟩

end Parser

end SqlDialects
