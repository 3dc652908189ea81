import Mathlib
import SqlDialects.Proofs.Parser.Bounds
import SqlDialects.Proofs.Parser.QueryTrees
import SqlDialects.Proofs.Parser.Steps
import SqlDialects.Proofs.RoundTrip.Expressions
import SqlDialects.Proofs.Tree.Grouping

/-!
# Chains of operators are read

What is read from operands of one token each with operators of one token between them. The loop over
operators takes those of at least its power; whatever the right operand of a step takes, the loop
would take itself, so that both together pass one prefix of the chain.
-/

namespace SqlDialects

namespace Parser

/-- The operand that a token is alone: a number, a string in single quotes or a name. -/
def atom? : TokenKind → Option Expr
  | .integer value => some (.literal (.integer value))
  | .number text => some (.literal (.number text))
  | .string body quote => if quote = '\x27' then some (.literal (.string body quote)) else none
  | .identifier name => some (.column [] name)
  | _ => none

/-- The binary operator that a token is alone, in every dialect. -/
def operator? : TokenKind → Option BinaryOp
  | .keyword .LIKE => some .like
  | k => binaryOp? k

/-- Whether a token is an operator with at least the left power. -/
def hasPower (m : Nat) (k : TokenKind) : Bool :=
  match infixPower? k with
  | some (l, _) => m ≤ l
  | none => false

/-! ## Chains -/

/-- An operand of a chain. -/
structure Atom where
  token : Token
  value : Expr
  reads : atom? token.kind = some value

/-- An operator of a chain, with the operand behind it. -/
structure Link where
  sign : Token
  op : BinaryOp
  operand : Atom
  reads : operator? sign.kind = some op

def Link.tokens (link : Link) : List Token :=
  [link.sign, link.operand.token]

/-- The operator and the operand that the tokens stand for. -/
def Link.parts (link : Link) : BinaryOp × Expr :=
  (link.op, link.operand.value)

def Link.hasPower (m : Nat) (link : Link) : Bool :=
  Parser.hasPower m link.sign.kind

theorem operator?_eq_none_of_atom? {k : TokenKind} {e : Expr} (h : atom? k = some e) :
    e.operator? = none := by
  unfold atom? at h
  split at h
  case h_3 => split at h <;> cases h; rfl
  all_goals cases h <;> rfl

theorem infixPower?_of_operator? {k : TokenKind} {op : BinaryOp} (h : operator? k = some op) :
    infixPower? k = some (op.leftPower, op.rightPower) := by
  unfold operator? at h
  split at h
  · cases h
    rfl
  · exact (infixPower?_of_binaryOp? h).1

theorem Link.hasPower_eq (m : Nat) (link : Link) :
    link.hasPower m = decide (m ≤ link.op.leftPower) := by
  rw [Link.hasPower, Parser.hasPower, infixPower?_of_operator? link.reads]

/-- What an operand takes that is read with more power is taken with less power too. -/
theorem Link.takeWhile_hasPower {m n : Nat} (h : m ≤ n) (links : List Link) :
    links.takeWhile (Link.hasPower m) = links.takeWhile (Link.hasPower n) ++
        (links.dropWhile (Link.hasPower n)).takeWhile (Link.hasPower m) ∧
      links.dropWhile (Link.hasPower m) =
        (links.dropWhile (Link.hasPower n)).dropWhile (Link.hasPower m) := by
  have hpower : ∀ link ∈ links.takeWhile (Link.hasPower n), link.hasPower m = true := by
    intro link hlink
    have hn := List.mem_takeWhile_imp hlink
    simp only [Link.hasPower_eq, decide_eq_true_eq] at hn ⊢
    exact h.trans hn
  constructor
  · conv_lhs => rw [← List.takeWhile_append_dropWhile (p := Link.hasPower n) (l := links)]
    exact List.takeWhile_append_of_pos hpower
  · conv_lhs => rw [← List.takeWhile_append_dropWhile (p := Link.hasPower n) (l := links)]
    exact List.dropWhile_append_of_pos hpower

/-! ## Steps -/

variable {d : Dialect} {g : Nested} {s : TokenStream} {m : Nat}

/-- The tokens of the links of a chain. -/
def linkTokens (links : List Link) : List Token :=
  links.flatMap Link.tokens

theorem operand_atom (x : Atom) (hs : EndsOperand s.current.kind) :
    operand d g (s.push [x.token]) = .ok x.value s := by
  obtain ⟨t, e, h⟩ := x
  have literal (value : Literal) (hvalue : literal? d t.kind = some value) :
      operand d g (s.push [t]) = .ok (.literal value) s := operand_of_literal? hvalue
  cases hk : t.kind with
  | integer value =>
    rw [hk] at h
    cases h
    exact literal _ (by rw [hk]; rfl)
  | number text =>
    rw [hk] at h
    cases h
    exact literal _ (by rw [hk]; rfl)
  | string body quote =>
    simp only [hk, atom?] at h
    split at h
    · cases h
      exact literal _ (by simp_all [literal?])
    · cases h
  | identifier name =>
    rw [hk] at h
    cases h
    exact (reads_unqualified (by simp [Token.identifier?, hk]) hs).ok trivial
  | keyword | symbol | endOfInput =>
    rw [hk] at h
    cases h

/-- A step of the loop over operators. -/
theorem extend_operator {t : Token} {ts : List Token} (left : Expr) {right : Expr} {op : BinaryOp}
    {s' : TokenStream} (h : operator? t.kind = some op) (hm : m ≤ op.leftPower)
    (hright : g.expression op.rightPower (s.push ts) = .ok right s') :
    extend d g m left (s.push (t :: ts)) = .ok (some (.binary left op right)) s' := by
  unfold operator? at h
  split at h
  · rename_i hk
    cases h
    have hpattern : pattern d g left 8 .like none false (s.push (t :: ts)) =
        .ok (.binary left .like right) s' :=
      pattern_eq_ok.mpr ⟨by simp, bind_eq_ok.mpr ⟨right, s', hright, rfl⟩⟩
    rw [extend_pattern (by rw [TokenStream.current_push_cons, hk]; rfl) hm]
    exact bind_eq_ok.mpr ⟨_, s', hpattern, rfl⟩
  · rw [extend_binary (s := s.push (t :: ts)) h hm]
    exact bind_eq_ok.mpr ⟨right, s', hright, rfl⟩

/-! ## Runs -/

/-- What ends a chain. -/
def EndsChain (k : TokenKind) : Prop :=
  k = .symbol .rightParen ∨ k = .symbol .comma ∨ k = .endOfInput

theorem infixPower?_of_endsChain {k : TokenKind} (h : EndsChain k) : infixPower? k = none := by
  obtain rfl | rfl | rfl := h <;> rfl

theorem endsOperand_linkTokens (links : List Link) (hs : EndsChain s.current.kind) :
    EndsOperand (s.push (linkTokens links)).current.kind := by
  cases links with
  | nil =>
    obtain h | h | h := hs <;> rw [linkTokens, List.flatMap_nil, TokenStream.push_nil, h] <;> decide
  | cons link rest => exact endsOperand_of_infixPower? (infixPower?_of_operator? link.reads)

/-- The loop over operators takes the longest prefix of the links with operators of its power. -/
def LoopTakes (d : Dialect) (m : Nat) (links : List Link) (s : TokenStream) : Prop :=
  ∀ left : Expr, ∃ e, iterate (extend d (nested d) m) left (s.push (linkTokens links)) =
      .ok e (s.push (linkTokens (links.dropWhile (Link.hasPower m)))) ∧
    e.inOrder = (left.inOrder.1,
      left.inOrder.2 ++ (links.takeWhile (Link.hasPower m)).map Link.parts)

theorem inOrder_atom (x : Atom) : x.value.inOrder = (x.value, []) :=
  Expr.inOrder_of_operator?_eq_none (operator?_eq_none_of_atom? x.reads)

/-- An expression begins with the first operand of its chain and goes on with the loop. -/
theorem expression_of_loopTakes {links : List Link} (first : Atom) (hs : EndsChain s.current.kind)
    (h : LoopTakes d m links s) :
    ∃ e, expression d m (s.push (first.token :: linkTokens links)) =
        .ok e (s.push (linkTokens (links.dropWhile (Link.hasPower m)))) ∧
      e.inOrder = (first.value, (links.takeWhile (Link.hasPower m)).map Link.parts) := by
  obtain ⟨e, hloop, hinOrder⟩ := h first.value
  refine ⟨e, ?_, by simpa [inOrder_atom] using hinOrder⟩
  have hfirst : operand d (nested d) (s.push (first.token :: linkTokens links)) =
      .ok first.value (s.push (linkTokens links)) :=
    operand_atom first (endsOperand_linkTokens links hs)
  rw [expression_unfold, expressionOf, bind_of_ok hfirst]
  exact hloop

theorem loopTakes (hs : EndsChain s.current.kind) (m : Nat) (links : List Link) :
    LoopTakes d m links s := by
  intro left
  -- The right operand of a step takes some of the links, and the loop goes on with the others.
  induction hlen : links.length using Nat.strong_induction_on generalizing m links left with
  | _ n ih =>
  have progress := progresses_extend (d := d) (nested_passing d) m
  cases links with
  | nil =>
    refine ⟨left, iterate_of_none progress (extend_stop fun l r h => ?_), by simp⟩
    have hnone := infixPower?_of_endsChain hs
    simp [linkTokens, hnone] at h
  | cons link rest =>
    by_cases hm : m ≤ link.op.leftPower
    · have hpower : link.hasPower m = true := by simpa [Link.hasPower_eq] using hm
      obtain ⟨right, hright, hrightOrder⟩ := expression_of_loopTakes link.operand hs fun left =>
        ih rest.length (by simp [← hlen]) link.op.rightPower rest left rfl
      have hstep := extend_operator (d := d) left link.reads hm hright
      have hle : m ≤ link.op.rightPower := hm.trans link.op.leftPower_lt_rightPower.le
      obtain ⟨htake, hdrop⟩ := Link.takeWhile_hasPower hle rest
      have hshort : (rest.dropWhile (Link.hasPower link.op.rightPower)).length < n := by
        have := (List.dropWhile_sublist (Link.hasPower link.op.rightPower) (l := rest)).length_le
        simp only [List.length_cons] at hlen
        omega
      obtain ⟨e, hloop, hinOrder⟩ := ih _ hshort m _ (.binary left link.op right) rfl
      refine ⟨e, ?_, ?_⟩
      · rw [List.dropWhile_cons_of_pos hpower, hdrop, ← hloop, iterate_eq progress]
        exact bind_of_ok hstep _
      · rw [List.takeWhile_cons_of_pos hpower, htake, hinOrder, Expr.inOrder, hrightOrder]
        simp [Link.parts]
    · have hpower : ¬link.hasPower m = true := by simpa [Link.hasPower_eq] using hm
      rw [List.dropWhile_cons_of_neg hpower, List.takeWhile_cons_of_neg hpower]
      refine ⟨left, iterate_of_none progress (extend_stop fun l r h => ?_), by simp⟩
      have hsign : infixPower? link.sign.kind = some (l, r) := h
      cases (infixPower?_of_operator? link.reads).symm.trans hsign
      exact Nat.lt_of_not_le hm

/-! ## Groupings -/

/-- Nothing but an atom is read with more power than any operator has. -/
theorem takeWhile_hasPower_eq_nil (hm : 13 < m) (links : List Link) :
    links.takeWhile (Link.hasPower m) = [] := by
  cases links with
  | nil => rfl
  | cons link rest =>
    refine List.takeWhile_cons_of_neg ?_
    have := link.op.leftPower_lt_rightPower
    have := link.op.rightPower_le
    simp only [Link.hasPower_eq, decide_eq_true_eq]
    omega

/-- What an expression reads from a chain is a grouping of a prefix. -/
theorem isGroupingOf_of_expression {m : Nat} {s' : TokenStream} {e : Expr} {first : Atom}
    {links : List Link} (h : expression d m s = .ok e s')
    (hinOrder : e.inOrder = (first.value, (links.takeWhile (Link.hasPower m)).map Link.parts)) :
    e.IsGroupingOf (first.value, (links.takeWhile (Link.hasPower m)).map Link.parts) := by
  refine ⟨?_, hinOrder⟩
  by_cases hm : m ≤ 13
  · have hsound := (sound_nestedWithin (T := fun _ => True) (s.rest.length + 1)).expression hm
      (fun _ _ => trivial) h
    exact e.isGrouped_of_bound fun n hn => (hsound.1 n hn).bound
  · rw [takeWhile_hasPower_eq_nil (Nat.lt_of_not_le hm)] at hinOrder
    exact Expr.isGrouped_of_operator?_eq_none
      (Expr.operator?_eq_none_of_inOrder (by rw [hinOrder]; rfl))

/-- Of a chain that is not continued, an expression reads the longest prefix whose operators have
the power that is asked for, and returns the only tree that groups it by precedence. Read with no
power, that is the whole chain. -/
theorem expression_eq_grouping (first : Atom) (links : List Link) (hs : EndsChain s.current.kind) :
    (∃ e, expression d 0 (s.push (first.token :: linkTokens links)) = .ok e s ∧
        e.IsOnlyGroupingOf (first.value, links.map Link.parts)) ∧
      ∀ m, ∃ e, expression d m (s.push (first.token :: linkTokens links)) =
          .ok e (s.push (linkTokens (links.dropWhile (Link.hasPower m)))) ∧
        e.IsOnlyGroupingOf (first.value, (links.takeWhile (Link.hasPower m)).map Link.parts) := by
  have longest (m : Nat) : ∃ e, expression d m (s.push (first.token :: linkTokens links)) =
        .ok e (s.push (linkTokens (links.dropWhile (Link.hasPower m)))) ∧
      e.IsOnlyGroupingOf (first.value, (links.takeWhile (Link.hasPower m)).map Link.parts) := by
    obtain ⟨e, h, hinOrder⟩ := expression_of_loopTakes first hs (loopTakes hs m links)
    exact ⟨e, h, (isGroupingOf_of_expression h hinOrder).only⟩
  have hzero : ∀ link ∈ links, link.hasPower 0 = true := fun link _ => by simp [Link.hasPower_eq]
  refine ⟨?_, longest⟩
  obtain ⟨e, h, honly⟩ := longest 0
  rw [List.dropWhile_eq_nil_iff.mpr hzero] at h
  rw [List.takeWhile_eq_self_iff.mpr hzero] at honly
  exact ⟨e, h, honly⟩

/-- The `a` of `a - b * 2 - c`. -/
def minuend : Atom :=
  ⟨⟨.identifier "a", ⟨0, 1⟩, "a"⟩, .column [] "a", rfl⟩

/-- What follows the `a` of `a - b * 2 - c`. -/
def subtrahends : List Link :=
  let b : Atom := ⟨⟨.identifier "b", ⟨4, 5⟩, "b"⟩, .column [] "b", rfl⟩
  let two : Atom := ⟨⟨.integer 2, ⟨8, 9⟩, "2"⟩, .literal (.integer 2), rfl⟩
  let c : Atom := ⟨⟨.identifier "c", ⟨12, 13⟩, "c"⟩, .column [] "c", rfl⟩
  [⟨⟨.symbol .minus, ⟨2, 3⟩, "-"⟩, .sub, b, rfl⟩, ⟨⟨.symbol .star, ⟨6, 7⟩, "*"⟩, .mul, two, rfl⟩,
    ⟨⟨.symbol .minus, ⟨10, 11⟩, "-"⟩, .sub, c, rfl⟩]

/-- The chain `a - b * 2 - c` is grouped from left to right, but for the factors. -/
theorem expression_subtrahends :
    let a : Expr := .column [] "a"
    let b : Expr := .column [] "b"
    let c : Expr := .column [] "c"
    let two : Expr := .literal (.integer 2)
    let s : TokenStream := ⟨[⟨.symbol .comma, ⟨13, 14⟩, ","⟩], .at 14, ""⟩
    EndsChain s.current.kind ∧
      expression .spark 0 (s.push (minuend.token :: linkTokens subtrahends)) =
        .ok (.binary (.binary a .sub (.binary b .mul two)) .sub c) s ∧
      (Expr.binary (.binary a .sub (.binary b .mul two)) .sub c).IsOnlyGroupingOf
        (a, [(.sub, b), (.mul, two), (.sub, c)]) := by
  intro a b c two s
  have hs : EndsChain s.current.kind := .inr (.inl rfl)
  have hread : expression .spark 0 (s.push (minuend.token :: linkTokens subtrahends)) =
      .ok (.binary (.binary a .sub (.binary b .mul two)) .sub c) s := by cbv
  obtain ⟨⟨e, h, honly⟩, -⟩ := expression_eq_grouping (d := .spark) minuend subtrahends hs
  cases hread.symm.trans h
  exact ⟨hs, hread, honly⟩

end Parser

end SqlDialects
