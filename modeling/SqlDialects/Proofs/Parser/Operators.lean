import SqlDialects.Parser.Statement
import SqlDialects.Proofs.Tree.Binding
import SqlDialects.Proofs.Tree.Features

/-!
# Operators by their tokens

What the step over one operator does, by the kind of the current token.
-/

namespace SqlDialects.Parser

/-! ## Looking at a stream -/

theorem kind_bind {α : Type} (f : TokenKind → Parser α) (s : TokenStream) :
    (kind >>= f) s = f s.current.kind s := rfl

theorem current_bind {α : Type} (f : Token → Parser α) (s : TokenStream) :
    (current >>= f) s = f s.current s := rfl

theorem second_bind {α : Type} (f : TokenKind → Parser α) (s : TokenStream) :
    (second >>= f) s = f s.second s := rfl

/-! ## Prefix operators -/

section Operand

variable {d : Dialect} {g : Nested} {s : TokenStream}

theorem operand_unary {op : UnaryOp} {power : Nat}
    (h : unaryOp? s.current.kind = some (op, power)) :
    operand d g s = (do return Expr.unary op (← g.expression power) : Parser Expr) s.tail := by
  rw [operand, kind_bind, h]
  rfl

theorem operand_primary (h : unaryOp? s.current.kind = none) : operand d g s = primary d g s := by
  rw [operand, kind_bind, h]

/-- A literal is an operand of one token. -/
theorem operand_of_literal? {value : Literal} (h : literal? d s.current.kind = some value) :
    operand d g s = .ok (.literal value) s.tail := by
  have hunary : unaryOp? s.current.kind = none := by
    cases hk : s.current.kind with
    | symbol x => simp [hk, literal?] at h
    | keyword w =>
      rw [hk] at h
      cases w <;> first | rfl | cases h
    | _ => rfl
  rw [operand_primary hunary, primary, current_bind, h]
  rfl

theorem power_of_unaryOp? {k : TokenKind} {op : UnaryOp} {power : Nat}
    (h : unaryOp? k = some (op, power)) : power = op.power := by
  unfold unaryOp? at h
  split at h <;> cases h <;> rfl

end Operand

/-! ## Operators behind an operand -/

/-- No operator has a power that reaches into an operand. -/
theorem infixPower?_lt {k : TokenKind} {l r : Nat} (h : infixPower? k = some (l, r)) : l < 13 := by
  unfold infixPower? at h
  split at h <;> simp_all <;> omega

theorem infixPower?_of_binaryOp? {k : TokenKind} {op : BinaryOp} (h : binaryOp? k = some op) :
    infixPower? k = some (op.leftPower, op.rightPower) ∧ patternOp? k = none ∧
      op.feature? = none := by
  unfold binaryOp? at h
  split at h <;> cases h <;> exact ⟨rfl, rfl, rfl⟩

/-- A negated pattern operator has the powers of the operator itself and needs the same feature. -/
theorem power_of_patternOp? {k : TokenKind} {op op' : BinaryOp} {f : Option Dialect.Feature}
    (negated : Bool) (h : patternOp? k = some (op, f))
    (hop : (if negated then op.negated?.getD op else op) = op') :
    op'.leftPower = 7 ∧ op'.rightPower = 8 ∧ op'.feature? = f := by
  subst hop
  unfold patternOp? at h
  split at h <;> cases h <;> cases negated <;> exact ⟨rfl, rfl, rfl⟩

/-- Every operator is a predicate of its own form, a pattern operator or a binary operator. -/
theorem operator_cases {k : TokenKind} {l r : Nat} (h : infixPower? k = some (l, r)) :
    (l = 7 ∧ (k = .keyword .IS ∨ k = .keyword .IN ∨ k = .keyword .BETWEEN ∨ k = .keyword .NOT)) ∨
      (∃ op f, patternOp? k = some (op, f) ∧ l = 7) ∨
        ∃ op, binaryOp? k = some op ∧ l = op.leftPower := by
  unfold infixPower? at h
  split at h <;> cases h <;> simp [patternOp?, binaryOp?] <;> decide

section Extend

variable {d : Dialect} {g : Nested} {m : Nat} {left : Expr} {s : TokenStream}

theorem extend_stop (h : ∀ l r, infixPower? s.current.kind = some (l, r) → l < m) :
    extend d g m left s = .ok none s := by
  rw [extend, kind_bind]
  cases hk : infixPower? s.current.kind with
  | none => rfl
  | some p =>
    obtain ⟨l, r⟩ := p
    simp only [h l r hk, if_true]
    rfl

theorem extend_isNull (hk : s.current.kind = .keyword .IS) (hm : m ≤ 7) :
    extend d g m left s = (do
      let negated ← accept (.keyword .NOT)
      expect (.keyword .NULL)
      return some (Expr.isNull left negated) : Parser (Option Expr)) s.tail := by
  rw [extend, kind_bind, hk]
  simp only [infixPower?, Nat.not_lt.mpr hm, if_false]
  rfl

theorem extend_in (hk : s.current.kind = .keyword .IN) (hm : m ≤ 7) :
    extend d g m left s = (some <$> inList g left false) s.tail := by
  rw [extend, kind_bind, hk]
  simp only [infixPower?, Nat.not_lt.mpr hm, if_false]
  rfl

theorem extend_between (hk : s.current.kind = .keyword .BETWEEN) (hm : m ≤ 7) :
    extend d g m left s = (some <$> between g left 8 false) s.tail := by
  rw [extend, kind_bind, hk]
  simp only [infixPower?, Nat.not_lt.mpr hm, if_false]
  rfl

theorem extend_not (hk : s.current.kind = .keyword .NOT) (hm : m ≤ 7) :
    extend d g m left s = negatedPredicate d g left 8 s := by
  rw [extend, kind_bind, hk]
  simp only [infixPower?, Nat.not_lt.mpr hm, if_false]

theorem pattern_eq_ok {power : Nat} {op : BinaryOp} {f : Option Dialect.Feature} {negated : Bool}
    {e : Expr} {s' : TokenStream} :
    pattern d g left power op f negated s = .ok e s' ↔
      (∀ x ∈ f, d.supports x = true) ∧
        (do
          let right ← g.expression power
          return Expr.binary left (if negated then op.negated?.getD op else op) right :
            Parser Expr) s.tail = .ok e s' := by
  cases f with
  | none => exact ⟨fun h => ⟨by simp, h⟩, fun h => h.2⟩
  | some x =>
    change (require d x >>= fun _ => advance >>= fun _ => _) s = _ ↔ _
    rw [bind_apply, require]
    by_cases hx : d.supports x = true
    · simp only [hx, if_true, Option.mem_some_iff, forall_eq', true_and]
      exact Iff.rfl
    · simp only [hx, Option.mem_some_iff, forall_eq']
      exact ⟨fun h => (nomatch h), fun h => (nomatch h.1)⟩

theorem extend_pattern {op : BinaryOp} {f : Option Dialect.Feature}
    (hk : patternOp? s.current.kind = some (op, f)) (hm : m ≤ 7) :
    extend d g m left s = (some <$> pattern d g left 8 op f false) s := by
  rw [extend, kind_bind]
  unfold patternOp? at hk
  split at hk <;> rename_i he <;> cases hk <;> rw [he] <;>
    simp only [infixPower?, Nat.not_lt.mpr hm, if_false, patternOp?] <;> rfl

theorem extend_binary {op : BinaryOp} (hk : binaryOp? s.current.kind = some op)
    (hm : m ≤ op.leftPower) :
    extend d g m left s = (do
      return some (Expr.binary left op (← g.expression op.rightPower)) : Parser (Option Expr))
        s.tail := by
  have hm := Nat.not_lt.mpr hm
  rw [extend, kind_bind]
  unfold binaryOp? at hk
  split at hk <;> rename_i he <;> cases hk <;>
    simp only [BinaryOp.leftPower, BinaryOp.precedence, Nat.reduceMul, Nat.reduceSub] at hm <;>
    rw [he] <;> simp only [infixPower?, hm, if_false, patternOp?, binaryOp?] <;> rfl

/-- `NOT` behind an operand, and no predicate behind `NOT`: every loop over operators ends here. -/
def AtLoneNot (s : TokenStream) : Prop :=
  s.current.kind = .keyword .NOT ∧ s.second ≠ .keyword .IN ∧ s.second ≠ .keyword .BETWEEN ∧
    patternOp? s.second = none

theorem negatedPredicate_in (h : s.second = .keyword .IN) :
    negatedPredicate d g left 8 s = (some <$> inList g left true) s.tail.tail := by
  rw [negatedPredicate, second_bind, h]
  rfl

theorem negatedPredicate_between (h : s.second = .keyword .BETWEEN) :
    negatedPredicate d g left 8 s = (some <$> between g left 8 true) s.tail.tail := by
  rw [negatedPredicate, second_bind, h]
  rfl

theorem negatedPredicate_pattern {op : BinaryOp} {f : Option Dialect.Feature}
    (h : patternOp? s.second = some (op, f)) :
    negatedPredicate d g left 8 s = (some <$> pattern d g left 8 op f true) s.tail := by
  rw [negatedPredicate, second_bind]
  unfold patternOp? at h
  split at h <;> rename_i he <;> cases h <;> rw [he] <;> rfl

theorem negatedPredicate_stop (h : AtLoneNot s) : negatedPredicate d g left 8 s = .ok none s := by
  obtain ⟨-, hin, hbetween, hpattern⟩ := h
  rw [negatedPredicate, second_bind]
  simp only [hpattern]
  rfl

end Extend

end SqlDialects.Parser
