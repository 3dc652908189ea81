import SqlDialects.Proofs.Tree.Binding

/-!
# Operands by precedence

Which expressions may stand as operands of which operators, in terms of precedences and of the kinds
of expressions alone. Main statement: where no operand reaches into its neighbours, every operator
has operands that may stand beside it. The bounds of `Node.Bound` say more, for they also see the
operators at the edges of an operand that is no binary expression itself.
-/

namespace SqlDialects

namespace Expr

/-- The operator of a binary expression. -/
def operator? : Expr → Option BinaryOp
  | .binary _ op _ => some op
  | _ => none

/-- The expression is a binary one that is read with `AND` or `OR`. -/
def IsLogical (e : Expr) : Prop :=
  e.operator? = some .and ∨ e.operator? = some .or

/-- The expression compares two operands or matches one with a pattern. -/
def IsComparison (e : Expr) : Prop :=
  ∃ op, e.operator? = some op ∧ op.precedence = BinaryOp.eq.precedence

def IsNegation : Expr → Prop
  | .unary .not _ => True
  | _ => False

/-- `IS NULL`, `IN` and `BETWEEN`, with `NOT` or without. -/
def IsPredicate : Expr → Prop
  | .isNull _ _ => True
  | .inList _ _ _ => True
  | .between _ _ _ _ => True
  | _ => False

/-- What may stand before `IS NULL`, `IN` and `BETWEEN`. -/
def IsTestable (e : Expr) : Prop :=
  ¬e.IsLogical ∧ ¬e.IsNegation

/-- What may stand on either side of the `AND` of `BETWEEN`. -/
def IsLimit (e : Expr) : Prop :=
  ¬e.IsLogical ∧ ¬e.IsComparison ∧ ¬e.IsPredicate

end Expr

/-- Operators of one precedence are applied from left to right. -/
structure BinaryOp.Groups (op : BinaryOp) (left right : Expr) : Prop where
  left : ∀ inner, left.operator? = some inner → op.precedence ≤ inner.precedence
  right : ∀ inner, right.operator? = some inner → op.precedence < inner.precedence

/-- Every operand of the node may stand where it stands. -/
def Node.RespectsPrecedence : Node → Prop
  | .expr (.binary left op right) =>
    op.Groups left right ∧
      (BinaryOp.eq.precedence ≤ op.precedence → ¬left.IsNegation ∧ ¬right.IsPredicate)
  | .expr (.unary .neg operand) => operand.operator? = none ∧ ¬operand.IsPredicate
  | .expr (.unary .not operand) => ¬operand.IsLogical
  | .expr (.isNull tested _) => tested.IsTestable
  | .expr (.inList tested _ _) => tested.IsTestable
  | .expr (.between tested low high _) => tested.IsTestable ∧ low.IsLimit ∧ high.IsLimit
  | _ => True

/-! ## Bounds of the kinds of expressions -/

namespace Expr

variable {e : Expr} {op : BinaryOp} {n : Nat}

theorem leftBound_le_of_operator? (h : e.operator? = some op) : e.leftBound ≤ op.leftPower := by
  cases e with
  | binary left inner right =>
    cases h
    exact min_le_left _ _
  | _ => cases h

theorem rightBound_le_of_operator? (h : e.operator? = some op) : e.rightBound ≤ op.rightPower := by
  cases e with
  | binary left inner right =>
    cases h
    exact min_le_left _ _
  | _ => cases h

theorem IsLogical.leftBound_le (h : e.IsLogical) : e.leftBound ≤ 3 := by
  obtain h | h := h
  · exact leftBound_le_of_operator? h
  · exact (leftBound_le_of_operator? h).trans (by decide)

theorem IsLogical.rightBound_le (h : e.IsLogical) : e.rightBound ≤ 4 := by
  obtain h | h := h
  · exact rightBound_le_of_operator? h
  · exact (rightBound_le_of_operator? h).trans (by decide)

theorem IsComparison.leftBound_le (h : e.IsComparison) : e.leftBound ≤ 7 := by
  obtain ⟨op, hop, hprecedence⟩ := h
  calc e.leftBound
    _ ≤ op.leftPower := leftBound_le_of_operator? hop
    _ = 7 := by rw [BinaryOp.leftPower, hprecedence]; rfl

theorem IsNegation.rightBound_le (h : e.IsNegation) : e.rightBound ≤ 5 := by
  unfold IsNegation at h
  split at h
  · exact min_le_left _ _
  · exact h.elim

theorem IsPredicate.leftBound_le (h : e.IsPredicate) : e.leftBound ≤ 7 := by
  cases e with
  | isNull | inList | between => exact min_le_left _ _
  | _ => exact h.elim

theorem isTestable_of_bound (h : 7 < e.rightBound) : e.IsTestable := by
  constructor
  · intro hlogical
    have := hlogical.rightBound_le
    omega
  · intro hnegation
    have := hnegation.rightBound_le
    omega

theorem isLimit_of_bound (h : 8 ≤ e.leftBound) : e.IsLimit := by
  refine ⟨fun hlogical => ?_, fun hcomparison => ?_, fun hpredicate => ?_⟩
  · have := hlogical.leftBound_le
    omega
  · have := hcomparison.leftBound_le
    omega
  · have := hpredicate.leftBound_le
    omega

end Expr

/-! ## From bounds to precedences -/

namespace BinaryOp

variable {op : BinaryOp} {left right : Expr}

theorem groups_of_bound (hleft : op.leftPower < left.rightBound)
    (hright : op.rightPower ≤ right.leftBound) : op.Groups left right := by
  constructor
  · intro inner hinner
    have hpower := hleft.trans_le (Expr.rightBound_le_of_operator? hinner)
    simp only [leftPower, rightPower] at hpower
    omega
  · intro inner hinner
    have hpower := hright.trans (Expr.leftBound_le_of_operator? hinner)
    have hpos := inner.precedence_pos
    simp only [leftPower, rightPower] at hpower
    omega

end BinaryOp

theorem Node.Bound.respectsPrecedence {n : Node} (h : n.Bound) : n.RespectsPrecedence := by
  unfold RespectsPrecedence
  split
  · rename_i left op right
    obtain ⟨hleft, hright⟩ := h
    refine ⟨BinaryOp.groups_of_bound hleft hright, fun hop => ⟨?_, ?_⟩⟩
    · intro hnegation
      have := hnegation.rightBound_le
      simp only [BinaryOp.leftPower, BinaryOp.precedence] at hleft hop
      omega
    · intro hpredicate
      have := hpredicate.leftBound_le
      simp only [BinaryOp.rightPower, BinaryOp.precedence] at hright hop
      omega
  · rename_i operand
    have hpower : 13 ≤ operand.leftBound := h
    constructor
    · refine Option.eq_none_iff_forall_ne_some.mpr fun op hop => ?_
      have := op.leftPower_lt_rightPower
      have := op.rightPower_le
      have := Expr.leftBound_le_of_operator? hop
      omega
    · intro hpredicate
      have := hpredicate.leftBound_le
      omega
  · rename_i operand
    intro hlogical
    have hpower : 5 ≤ operand.leftBound := h
    have := hlogical.leftBound_le
    omega
  · exact Expr.isTestable_of_bound h
  · exact Expr.isTestable_of_bound h
  · exact ⟨Expr.isTestable_of_bound h.1, Expr.isLimit_of_bound h.2.1, Expr.isLimit_of_bound h.2.2⟩
  · trivial

end SqlDialects
