import SqlDialects.Proofs.Tree.Precedence

/-!
# Chains of operators

A binary expression, read in order, is a chain of operands with an operator between any two. Main
statement: of the expressions with one reading, only one groups all operands by precedence, for the
operator that it applies last is the last of those with the least precedence.
-/

namespace SqlDialects.Expr

/-- The first operand of the chain, and every operator with the operand behind it. What is no binary
expression is an operand as a whole. -/
def inOrder : Expr → Expr × List (BinaryOp × Expr)
  | .binary left op right =>
    (left.inOrder.1, left.inOrder.2 ++ (op, right.inOrder.1) :: right.inOrder.2)
  | e => (e, [])

/-- Operands are grouped by precedence all along the chain. -/
def IsGrouped : Expr → Prop
  | .binary left op right => op.Groups left right ∧ left.IsGrouped ∧ right.IsGrouped
  | _ => True

variable {e e' : Expr}

theorem inOrder_of_operator?_eq_none (h : e.operator? = none) : e.inOrder = (e, []) := by
  cases e with
  | binary => cases h
  | _ => rfl

theorem isGrouped_of_operator?_eq_none (h : e.operator? = none) : e.IsGrouped := by
  cases e with
  | binary => cases h
  | _ => trivial

/-- Only what is no binary expression is a chain without operators. -/
theorem operator?_eq_none_of_inOrder (h : e.inOrder.2 = []) : e.operator? = none := by
  cases e with
  | binary left op right => simp [inOrder] at h
  | _ => rfl

theorem exists_eq_binary (h : e.inOrder.2 ≠ []) : ∃ left op right, e = .binary left op right := by
  cases e with
  | binary left op right => exact ⟨left, op, right, rfl⟩
  | _ => exact absurd rfl h

theorem isGrouped_of_bound : ∀ e : Expr, (∀ n ∈ e.nodes, n.Bound) → e.IsGrouped
  | .binary left op right, h => by
    rw [nodes, List.forall_mem_cons, List.forall_mem_append] at h
    obtain ⟨⟨hleft, hright⟩, hl, hr⟩ := h
    exact ⟨BinaryOp.groups_of_bound hleft hright, left.isGrouped_of_bound hl,
      right.isGrouped_of_bound hr⟩
  | .literal _, _ | .column _ _, _ | .wildcard _, _ | .unary _ _, _ | .paren _, _ | .isNull _ _, _
  | .inList _ _ _, _ | .between _ _ _ _, _ | .caseOf _ _ _, _ | .cast _ _, _ | .call _, _
  | .subquery _, _ | .existsRow _, _ => trivial

/-- No operator of the chain is looser than the one that is applied last. -/
theorem IsGrouped.le_precedence {n : Nat} (h : e.IsGrouped)
    (hn : ∀ op, e.operator? = some op → n ≤ op.precedence) :
    ∀ link ∈ e.inOrder.2, n ≤ link.1.precedence := by
  fun_induction inOrder e with
  | case1 left op right ihl ihr =>
    obtain ⟨hgroups, hleft, hright⟩ := h
    have hop : n ≤ op.precedence := hn op rfl
    rw [List.forall_mem_append, List.forall_mem_cons]
    refine ⟨ihl hleft fun inner hinner => ?_, hop, ihr hright fun inner hinner => ?_⟩
    · exact hop.trans (hgroups.left inner hinner)
    · exact hop.trans (hgroups.right inner hinner).le
  | case2 => simp

/-- The last of the least elements of a list has one place in it. -/
theorem eq_of_append_cons_eq {α : Type} {f : α → Nat} {l l' r r' : List α} {a a' : α}
    (h : l ++ a :: r = l' ++ a' :: r') (hl : ∀ b ∈ l, f a ≤ f b) (hr : ∀ b ∈ r, f a < f b)
    (hl' : ∀ b ∈ l', f a' ≤ f b) (hr' : ∀ b ∈ r', f a' < f b) : l = l' ∧ a = a' ∧ r = r' := by
  obtain ⟨between, hbefore, hbehind⟩ | ⟨between, hbefore, hbehind⟩ :=
    List.append_eq_append_iff.mp h
  · cases between with
    | nil => simpa [hbefore] using hbehind
    | cons b between =>
      obtain ⟨rfl, rfl⟩ := List.cons.inj hbehind
      have hle : f a' ≤ f a := hl' a (by simp [hbefore])
      have hlt : f a < f a' := hr a' (by simp)
      omega
  · cases between with
    | nil => simpa [hbefore, eq_comm] using hbehind
    | cons b between =>
      obtain ⟨rfl, rfl⟩ := List.cons.inj hbehind
      have hle : f a ≤ f a' := hl a' (by simp [hbefore])
      have hlt : f a' < f a := hr' a (by simp)
      omega

/-- Two groupings of one chain apply the same operator last, and so on in either operand. -/
theorem IsGrouped.eq_of_inOrder_eq (h : e.IsGrouped) (h' : e'.IsGrouped)
    (heq : e.inOrder = e'.inOrder) : e = e' := by
  fun_induction inOrder e generalizing e' with
  | case1 left op right ihl ihr =>
    obtain ⟨left', op', right', rfl⟩ : ∃ left' op' right', e' = .binary left' op' right' :=
      exists_eq_binary (by simp [← heq])
    obtain ⟨hfirst, hlinks⟩ := Prod.mk.inj heq
    obtain ⟨hgroups, hleft, hright⟩ := h
    obtain ⟨hgroups', hleft', hright'⟩ := h'
    obtain ⟨hl, hlink, hr⟩ := eq_of_append_cons_eq (f := fun link => link.1.precedence) hlinks
      (hleft.le_precedence hgroups.left) (hright.le_precedence hgroups.right)
      (hleft'.le_precedence hgroups'.left) (hright'.le_precedence hgroups'.right)
    obtain ⟨rfl, hmiddle⟩ := Prod.mk.inj hlink
    rw [ihl hleft hleft' (Prod.ext hfirst hl), ihr hright hright' (Prod.ext hmiddle hr)]
  | case2 e =>
    have hop : e'.operator? = none := operator?_eq_none_of_inOrder (by rw [← heq])
    rw [inOrder_of_operator?_eq_none hop] at heq
    exact (Prod.mk.inj heq).1

/-- The expression is the chain with its operands grouped by precedence. -/
structure IsGroupingOf (e : Expr) (chain : Expr × List (BinaryOp × Expr)) : Prop where
  grouped : e.IsGrouped
  inOrder : e.inOrder = chain

/-- There is no other grouping of the chain. -/
def IsOnlyGroupingOf (e : Expr) (chain : Expr × List (BinaryOp × Expr)) : Prop :=
  e.IsGroupingOf chain ∧ ∀ e' : Expr, e'.IsGroupingOf chain → e' = e

theorem IsGroupingOf.only {chain : Expr × List (BinaryOp × Expr)} (h : e.IsGroupingOf chain) :
    e.IsOnlyGroupingOf chain :=
  ⟨h, fun _ h' => h'.grouped.eq_of_inOrder_eq h.grouped (h'.inOrder.trans h.inOrder.symm)⟩

end SqlDialects.Expr
