import SqlDialects.Parser.Expression
import SqlDialects.Proofs.Tree.Nodes
import Mathlib.Order.MinMax

/-!
# How far an expression reaches

The binding powers at the two edges of an expression. An expression can be read where operators of a
given power are asked for if all operators on its left edge have that power; and it takes an
operator behind it for its own if some operand on its right edge is read with at most the left
power of that operator.
-/

namespace SqlDialects

namespace BinaryOp

theorem precedence_pos (op : BinaryOp) : 0 < op.precedence := by
  cases op <;> decide

def leftPower (op : BinaryOp) : Nat :=
  2 * op.precedence - 1

def rightPower (op : BinaryOp) : Nat :=
  2 * op.precedence

theorem leftPower_lt_rightPower (op : BinaryOp) : op.leftPower < op.rightPower := by
  cases op <;> decide

theorem rightPower_le (op : BinaryOp) : op.rightPower ≤ 13 := by
  cases op <;> decide

end BinaryOp

/-- The power with which the operand of a prefix operator is read. -/
def UnaryOp.power : UnaryOp → Nat
  | .neg => 13
  | .not => 5

theorem UnaryOp.power_le (op : UnaryOp) : op.power ≤ 13 := by
  cases op <;> decide

namespace Expr

/-- The least left power of the operators on the left edge. No operator has more than that of an
expression without any. -/
def leftBound : Expr → Nat
  | .binary left op _ => min op.leftPower left.leftBound
  | .isNull operand _ => min 7 operand.leftBound
  | .inList operand _ _ => min 7 operand.leftBound
  | .between operand _ _ _ => min 7 operand.leftBound
  | _ => 13

/-- The least power with which an operand on the right edge is read. -/
def rightBound : Expr → Nat
  | .binary _ op right => min op.rightPower right.rightBound
  | .unary op operand => min op.power operand.rightBound
  | .between _ _ high _ => min 8 high.rightBound
  | _ => 13

end Expr

/-- No operand reaches into what stands beside it. -/
@[simp] def Node.Bound : Node → Prop
  | .expr (.binary left op right) =>
    op.leftPower < left.rightBound ∧ op.rightPower ≤ right.leftBound
  | .expr (.unary op operand) => op.power ≤ operand.leftBound
  | .expr (.isNull operand _) => 7 < operand.rightBound
  | .expr (.inList operand _ _) => 7 < operand.rightBound
  | .expr (.between operand low high _) =>
    7 < operand.rightBound ∧ 8 ≤ low.leftBound ∧ 8 ≤ high.leftBound
  | _ => True

namespace Expr

/-- What is read with the power of `NOT` or more leaves all looser operators alone. -/
theorem le_rightBound (e : Expr) (h : ∀ n ∈ e.nodes, n.Bound) (hl : 5 ≤ e.leftBound) :
    5 ≤ e.rightBound := by
  fun_induction rightBound e with
  | case1 left op right ih =>
    simp only [nodes, List.forall_mem_cons, List.forall_mem_append] at h
    obtain ⟨⟨-, hr⟩, -, hn⟩ := h
    have hop : 5 ≤ op.leftPower := (le_min_iff.mp hl).1
    have hlt := op.leftPower_lt_rightPower
    exact le_min (by omega) (ih hn (by omega))
  | case2 op operand ih =>
    simp only [nodes, List.forall_mem_cons] at h
    have hop : 5 ≤ op.power := by cases op <;> decide
    exact le_min hop (ih h.2 (hop.trans h.1))
  | case3 operand low high negated ih =>
    simp only [nodes, List.forall_mem_cons, List.forall_mem_append] at h
    obtain ⟨⟨-, -, hh⟩, -, -, hn⟩ := h
    have hhigh : 5 ≤ high.leftBound := le_trans (by decide) hh
    exact le_min (by decide) (ih hn hhigh)
  | case4 => decide

end Expr

end SqlDialects
