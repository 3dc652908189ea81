import SqlDialects.Proofs.RoundTrip.Infix

/-!
# No parentheses are superfluous

Among columns and integers, operators and minus signs, the parentheses that are written are exactly
those that the tree needs. They suffice because the powers with which operands are read are twice
the precedences by which parentheses are written. None of them can be left out: what is read without
a pair has too few parentheses to have the shape of what has been written.
-/

namespace SqlDialects

open Piece (tokens)

theorem BinaryOp.precedence_lt (op : BinaryOp) : op.precedence < 7 := by
  cases op <;> decide

namespace Expr

/-- The expression is made of columns and integers with binary operators and minus signs. -/
inductive IsInfix : Expr → Prop
  | column {qualifier : List String} {name : String} (hqualifier : "" ∉ qualifier)
      (hname : name ≠ "") : IsInfix (.column qualifier name)
  | integer {value : Int64} (h : 0 ≤ value.toInt) : IsInfix (.literal (.integer value))
  | binary {left right : Expr} (op : BinaryOp) (hleft : IsInfix left) (hright : IsInfix right) :
      IsInfix (.binary left op right)
  | neg {operand : Expr} (h : IsInfix operand) : IsInfix (.unary .neg operand)

variable {e : Expr}

theorem IsInfix.isOperation {parens : Bool} (h : e.IsInfix) : e.IsOperation parens := by
  induction h with
  | column hqualifier hname => exact .column hqualifier hname
  | integer h => exact .integer h
  | binary op _ _ ihl ihr => exact .binary op ihl ihr
  | neg _ ih => exact .unary .neg ih

/-! ## Precedences and powers -/

/-- The precedence of the operator that is applied last; more than that of any operator if there is
none. -/
def precedence : Expr → Nat
  | .binary _ op _ => op.precedence
  | _ => 7

@[simp] theorem precedence_binary (left right : Expr) (op : BinaryOp) :
    (binary left op right).precedence = op.precedence := rfl

@[simp] theorem precedence_unary (op : UnaryOp) (operand : Expr) :
    (unary op operand).precedence = 7 := rfl

theorem looserThan_iff {op : BinaryOp} : e.looserThan op = true ↔ e.precedence < op.precedence := by
  have hop := op.precedence_lt
  cases e <;> simp [looserThan, precedence] <;> omega

theorem noTighterThan_iff {op : BinaryOp} :
    e.noTighterThan op = true ↔ e.precedence ≤ op.precedence := by
  have hop := op.precedence_lt
  cases e <;> simp [noTighterThan, precedence] <;> omega

theorem looserThanUnary_neg_iff : e.looserThanUnary .neg = true ↔ e.precedence < 7 := by
  cases e with
  | binary _ op _ => simp [looserThanUnary, op.precedence_lt]
  | _ => simp [looserThanUnary, precedence]

theorem leftBound_parenthesizedIf (needed : Bool) (e : Expr) :
    (parenthesizedIf needed e).leftBound = if needed then 13 else e.leftBound := by
  cases needed <;> rfl

theorem rightBound_parenthesizedIf (needed : Bool) (e : Expr) :
    (parenthesizedIf needed e).rightBound = if needed then 13 else e.rightBound := by
  cases needed <;> rfl

theorem bound_parenthesizedIf {needed : Bool} (h : ∀ n ∈ e.nodes, n.Bound) :
    ∀ n ∈ (parenthesizedIf needed e).nodes, n.Bound := by
  cases needed with
  | false => exact h
  | true => exact List.forall_mem_cons.mpr ⟨trivial, h⟩

namespace IsInfix

/-- The edges of what is written reach as far as the operator that is applied last. -/
theorem leftBound_grouped (h : e.IsInfix) : e.grouped.leftBound = 2 * e.precedence - 1 := by
  induction h with
  | column | integer | neg => rfl
  | binary op _ _ ih =>
    have hop := op.precedence_lt
    simp only [grouped, leftBound, precedence_binary, leftBound_parenthesizedIf, looserThan_iff, ih,
      BinaryOp.leftPower]
    split <;> omega

theorem rightBound_grouped (h : e.IsInfix) : e.grouped.rightBound = min 13 (2 * e.precedence) := by
  induction h with
  | column | integer => rfl
  | binary op _ _ _ ih =>
    have hop := op.precedence_lt
    simp only [grouped, rightBound, precedence_binary, rightBound_parenthesizedIf,
      noTighterThan_iff, ih, BinaryOp.rightPower]
    split <;> omega
  | neg _ ih =>
    simp only [grouped, rightBound, precedence_unary, rightBound_parenthesizedIf,
      looserThanUnary_neg_iff, ih, UnaryOp.power]
    split <;> omega

/-- No operand reaches into its neighbours. -/
theorem bound_grouped (h : e.IsInfix) : ∀ n ∈ e.grouped.nodes, n.Bound := by
  induction h with
  | column | integer => exact List.forall_mem_singleton.mpr trivial
  | binary op hl hr ihl ihr =>
    have hpos := op.precedence_pos
    have hlt := op.precedence_lt
    rw [grouped, nodes, List.forall_mem_cons, List.forall_mem_append]
    refine ⟨⟨?_, ?_⟩, bound_parenthesizedIf ihl, bound_parenthesizedIf ihr⟩
    · simp only [rightBound_parenthesizedIf, looserThan_iff, hl.rightBound_grouped,
        BinaryOp.leftPower]
      split <;> omega
    · simp only [leftBound_parenthesizedIf, noTighterThan_iff, hr.leftBound_grouped,
        BinaryOp.rightPower]
      split <;> omega
  | neg h ih =>
    rw [grouped, nodes, List.forall_mem_cons]
    refine ⟨?_, bound_parenthesizedIf ih⟩
    simp only [Node.Bound, leftBound_parenthesizedIf, looserThanUnary_neg_iff, h.leftBound_grouped,
      UnaryOp.power]
    split <;> omega

/-! ## What is written is a run -/

/-- Pieces that make a run with the run behind them do so in parentheses too. -/
theorem run_parenthesizedIf {quote : Char} {ps : List Piece} (needed : Bool)
    (h : ∀ {n : Nat} {ts : List Token},
      InfixRun quote false n ts → InfixRun quote true n (tokens ps ++ ts))
    {n : Nat} {ts : List Token} (hts : InfixRun quote false n ts) :
    InfixRun quote true n (tokens (Piece.parenthesizedIf needed ps) ++ ts) := by
  cases needed with
  | false => exact h hts
  | true =>
    have htokens : tokens (Piece.parenthesizedIf true ps) ++ ts =
        .mark (.sign .leftParen) :: (tokens ps ++ .mark (.sign .rightParen) :: ts) := by
      simp [Piece.parenthesizedIf]
    rw [htokens]
    exact .opening (h (.closing hts))

theorem run_pieces {quote : Char} (h : e.IsInfix) {n : Nat} {ts : List Token}
    (hts : InfixRun quote false n ts) : InfixRun quote true n (tokens (e.pieces quote) ++ ts) := by
  induction h generalizing n ts with
  | @column qualifier name => exact .step (.column qualifier name) hts
  | @integer value h =>
    have htokens : tokens (pieces quote (.literal (.integer value))) = [.integer value.toInt] := by
      simp [pieces, Literal.piece]
    rw [htokens]
    exact .step (.integer h) hts
  | @binary left right op _ _ ihl ihr =>
    have htokens : tokens (pieces quote (.binary left op right)) ++ ts =
        tokens (Piece.parenthesizedIf (left.looserThan op) (left.pieces quote)) ++
          (op.marks.map .mark ++
            (tokens (Piece.parenthesizedIf (right.noTighterThan op) (right.pieces quote)) ++
              ts)) := by
      simp [pieces]
    rw [htokens]
    exact run_parenthesizedIf _ ihl (.step (.operator op) (run_parenthesizedIf _ ihr hts))
  | @neg operand _ ih =>
    have htokens : tokens (pieces quote (.unary .neg operand)) ++ ts =
        [.mark (.sign .minus)] ++
          (tokens (Piece.parenthesizedIf (operand.looserThanUnary .neg) (operand.pieces quote)) ++
            ts) := by
      simp [pieces]
    rw [htokens]
    exact .step .minus (run_parenthesizedIf _ ih hts)

end IsInfix

end Expr

/-! ## A pair of parentheses that is left out -/

/-- A run with the contents of some tokens, without the tokens that stand where two of these are the
parentheses of a pair. -/
theorem InfixRun.exists_without_pair {quote : Char} {us before inner behind : List Token}
    {l r : Token} (h : InfixRun quote true 0 us)
    (hcontent : us.map Token.content = (before ++ l :: (inner ++ r :: behind)).map Token.content)
    (hl : l.kind = .symbol .leftParen) (hr : r.kind = .symbol .rightParen)
    (hinner : BalancedFrom 0 (inner.map (·.kind))) :
    ∃ vs, InfixRun quote true 0 vs ∧ vs.Sublist us ∧ openings vs < openings us ∧
      vs.map Token.content = (before ++ (inner ++ behind)).map Token.content := by
  simp only [List.map_append, List.map_cons] at hcontent
  obtain ⟨before', us', rfl, hbefore, hcontent⟩ := List.map_eq_append_iff.mp hcontent
  obtain ⟨l', us', rfl, hl', hcontent⟩ := List.map_eq_cons_iff.mp hcontent
  obtain ⟨inner', us', rfl, hinner', hcontent⟩ := List.map_eq_append_iff.mp hcontent
  obtain ⟨r', behind', rfl, hr', hbehind⟩ := List.map_eq_cons_iff.mp hcontent
  have hl : l'.kind = .symbol .leftParen := (congrArg Prod.fst hl').trans hl
  have hr : r'.kind = .symbol .rightParen := (congrArg Prod.fst hr').trans hr
  have hkinds : inner'.map (·.kind) = inner.map (·.kind) := by
    simpa [Function.comp_def, Token.content] using congrArg (List.map Prod.fst) hinner'
  refine ⟨before' ++ (inner' ++ behind'), h.without_pair rfl hl hr (hkinds ▸ hinner), ?_, ?_, ?_⟩
  · exact .append_left (.cons _ (.append_left (.cons _ (.refl _)) _)) _
  · simp [hl, hr]
  · simp [hbefore, hinner', hbehind]

/-- The first and the last token of a text stay where two tokens are parentheses. -/
theorem exists_between_of_content {us before inner behind : List Token} {l r : Token}
    (hcontent : (before ++ l :: (inner ++ r :: behind)).map Token.content =
      (Token.mark (.word .SELECT) :: us).map Token.content ++ [(.endOfInput, "")])
    (hl : l.kind = .symbol .leftParen) (hr : r.kind = .symbol .rightParen) :
    ∃ first before' behind' last, before = first :: before' ∧ behind = behind' ++ [last] ∧
      first.content = (Token.mark (.word .SELECT)).content ∧ last.content = (.endOfInput, "") ∧
      us.map Token.content = (before' ++ l :: (inner ++ r :: behind')).map Token.content := by
  cases before with
  | nil =>
    have hfirst : l.kind = .keyword .SELECT := congrArg Prod.fst (List.cons.inj hcontent).1
    cases hl.symm.trans hfirst
  | cons first before =>
    obtain ⟨hfirst, hcontent⟩ := List.cons.inj hcontent
    obtain rfl | ⟨behind, last, rfl⟩ := List.eq_nil_or_concat behind
    · have hsplit : (before ++ l :: inner).map Token.content ++ [r.content] =
          us.map Token.content ++ [(.endOfInput, "")] := by
        simpa using hcontent
      have hlast : r.kind = .endOfInput :=
        congrArg Prod.fst (List.cons.inj (List.append_inj' hsplit rfl).2).1
      cases hr.symm.trans hlast
    · have hsplit : (before ++ l :: (inner ++ r :: behind)).map Token.content ++ [last.content] =
          us.map Token.content ++ [(.endOfInput, "")] := by
        simpa using hcontent
      obtain ⟨hus, hlast⟩ := List.append_inj' hsplit rfl
      exact ⟨first, before, behind, last, rfl, by simp, hfirst, (List.cons.inj hlast).1, hus.symm⟩

namespace Statement

variable {e : Expr}

/-- Without the parentheses of a pair, the tokens of an infix expression are read as an expression
that has not its shape. -/
theorem exists_statement_without_pair {ts before inner behind : List Token} {l r : Token}
    (h : e.IsInfix)
    (hcontent : ts.map Token.content =
      (Token.mark (.word .SELECT) :: tokens (e.pieces '\x60')).map Token.content ++
        [(.endOfInput, "")])
    (hts : ts = before ++ l :: (inner ++ r :: behind)) (hl : l.kind = .symbol .leftParen)
    (hr : r.kind = .symbol .rightParen) (hinner : BalancedFrom 0 (inner.map (·.kind))) :
    ∃ b, ((TokenStream.ofList (before ++ (inner ++ behind))).statement .spark).1 = .ok (ofExpr b) ∧
      b.withoutParens ≠ e := by
  subst hts
  obtain ⟨first, before, behind, last, rfl, rfl, hfirst, hlast, hus⟩ :=
    exists_between_of_content hcontent hl hr
  have hrun : InfixRun '\x60' true 0 (tokens (e.pieces '\x60')) := by
    have hrun := h.run_pieces (@InfixRun.done '\x60')
    rwa [List.append_nil] at hrun
  obtain ⟨vs, hvs, hsub, hfewer, hcontent⟩ := hrun.exists_without_pair hus hl hr hinner
  obtain ⟨b, hb⟩ := Parser.exists_statement_of_infixRun (s := ⟨[], .at 0, ""⟩) (.inl rfl) rfl hvs
  have hends : ∀ t ∈ Token.mark (.word .SELECT) :: vs, t.kind ≠ .endOfInput := by
    refine List.forall_mem_cons.mpr ⟨by simp, fun t ht => ?_⟩
    exact Lexer.kind_ne_endOfInput_of_mem_tokens (hsub.subset ht)
  have hall : (first :: before ++ (inner ++ (behind ++ [last]))).map Token.content =
      (Token.mark (.word .SELECT) :: vs).map Token.content ++ [(.endOfInput, "")] := by
    simp [hfirst, hlast, hcontent]
  have halike := TokenStream.alike_ofList hall hends
  obtain ⟨s', hs'⟩ := Parser.statement_eq_ok_of_alike halike.symm hb
  refine ⟨b, congrArg Prod.fst (TokenStream.statement_eq_ok.mpr hs'), ?_⟩
  rw [h.isOperation.openings_pieces] at hfewer
  exact withoutParens_ne_of_openings_lt h.isOperation hb (by simpa using hfewer)

/-- An infix expression is read with its shape from its text, and without the two parentheses of any
pair in the text it is read with another one. -/
theorem parse_render_of_isInfix (h : e.IsInfix) :
    ∃ t ts, (ofExpr e).render .spark = .ok t ∧ tokenize t = .ok ts ∧
      (∃ b, parse .spark t = .ok (ofExpr b) ∧ b.withoutParens = e) ∧
      ∀ before l inner r behind, ts = before ++ l :: (inner ++ r :: behind) →
        l.kind = .symbol .leftParen → r.kind = .symbol .rightParen →
        BalancedFrom 0 (inner.map (·.kind)) →
        ∃ b, ((TokenStream.ofList (before ++ (inner ++ behind))).statement .spark).1 =
          .ok (ofExpr b) ∧ b.withoutParens ≠ e := by
  have hoperation : e.IsOperation false := h.isOperation
  have hrender := render_ofExpr hoperation
  obtain ⟨ts, htokens, hcontent⟩ := tokenize_ofExpr hoperation hrender
  have hparse := parse_render_grouped hoperation h.bound_grouped hrender
  refine ⟨_, ts, hrender, htokens, ⟨e.grouped, hparse, hoperation.withoutParens_grouped⟩, ?_⟩
  intro before l inner r behind hts hl hr hinner
  exact exists_statement_without_pair h hcontent hts hl hr hinner

/-- The tokens of `a + b` inside of the parentheses of `SELECT (a + b) * c`. -/
def groupedSumTokens : List Token :=
  [⟨.identifier "a", ⟨8, 11⟩, "\x60a\x60"⟩, ⟨.symbol .plus, ⟨12, 13⟩, "+"⟩,
    ⟨.identifier "b", ⟨14, 17⟩, "\x60b\x60"⟩]

/-- The tokens behind these parentheses. -/
def groupedSumFactor : List Token :=
  [⟨.symbol .star, ⟨19, 20⟩, "*"⟩, ⟨.identifier "c", ⟨21, 24⟩, "\x60c\x60"⟩,
    ⟨.endOfInput, ⟨24, 24⟩, ""⟩]

theorem parse_render_groupedSum :
    let e : Expr := .binary (.binary (.column [] "a") .add (.column [] "b")) .mul (.column [] "c")
    let select : Token := ⟨.keyword .SELECT, ⟨0, 6⟩, "SELECT"⟩
    e.IsInfix ∧ (ofExpr e).render .spark = .ok "SELECT (\x60a\x60 + \x60b\x60) * \x60c\x60" ∧
      (∃ b, parse .spark "SELECT (\x60a\x60 + \x60b\x60) * \x60c\x60" = .ok (ofExpr b) ∧
        b.withoutParens = e) ∧
      ∃ b, ((TokenStream.ofList ([select] ++ (groupedSumTokens ++ groupedSumFactor))).statement
        .spark).1 = .ok (ofExpr b) ∧ b.withoutParens ≠ e := by
  intro e select
  have hexpr : e.IsInfix := .binary .mul (.binary .add (.column (by simp) (by simp))
    (.column (by simp) (by simp))) (.column (by simp) (by simp))
  have hrender : (ofExpr e).render .spark =
      .ok "SELECT (\x60a\x60 + \x60b\x60) * \x60c\x60" := by decide +kernel
  have htokenize : tokenize "SELECT (\x60a\x60 + \x60b\x60) * \x60c\x60" =
      .ok ([select] ++ ⟨.symbol .leftParen, ⟨7, 8⟩, "("⟩ :: (groupedSumTokens ++
        ⟨.symbol .rightParen, ⟨17, 18⟩, ")"⟩ :: groupedSumFactor)) := by decide +kernel
  obtain ⟨t, ts, ht, hts, hread, hpair⟩ := parse_render_of_isInfix hexpr
  cases hrender.symm.trans ht
  cases htokenize.symm.trans hts
  refine ⟨hexpr, hrender, hread, ?_⟩
  exact hpair [select] _ groupedSumTokens _ groupedSumFactor rfl rfl rfl rfl

end Statement

end SqlDialects
