import SqlDialects.Proofs.Parser.Bounds

/-!
# The steps of the grammar

Each step that the grammar repeats passes a token when it is taken, and whatever is nested passes a
token when it is there.
-/

namespace SqlDialects.Parser

/-- A parser passes a token whenever it succeeds. -/
def Passes {α : Type} (p : Parser α) : Prop :=
  ∀ ⦃s a s'⦄, p s = .ok a s' → s'.rest.length < s.rest.length

section Passing

variable {α β : Type}

theorem Passes.bind {p : Parser α} {f : α → Parser β} (hp : Passes p)
    (hf : ∀ a, GoesForward (f a)) : Passes (p >>= f) := by
  intro s b s' h
  obtain ⟨a, t, ha, hb⟩ := bind_eq_ok.mp h
  exact Nat.lt_of_le_of_lt (isLeftOf_of_ok (hf a) hb).rest.length_le (hp ha)

theorem Passes.after {p : Parser α} {f : α → Parser β} (hp : GoesForward p)
    (hf : ∀ a, Passes (f a)) : Passes (p >>= f) := by
  intro s b s' h
  obtain ⟨a, t, ha, hb⟩ := bind_eq_ok.mp h
  exact Nat.lt_of_lt_of_le (hf a hb) (isLeftOf_of_ok hp ha).rest.length_le

theorem passes_expect {k : TokenKind} (hk : k ≠ .endOfInput) : Passes (expect k) := by
  intro s a s' h
  rw [expect_apply] at h
  split at h
  · rename_i hcurrent
    cases h
    exact PassAlike.rest_tail_length (hcurrent ▸ hk)
  · cases h

theorem Passes.kind {f : TokenKind → Parser α} (h : ∀ k, Passes (f k)) :
    Passes (Parser.kind >>= f) :=
  fun s _ _ hp => h s.current.kind hp

theorem Passes.progresses {p : Parser (Option α)} (h : Passes p) : Progresses p :=
  fun _ _ _ hp => h hp

theorem progresses_none : Progresses (pure none : Parser (Option α)) :=
  fun _ _ _ h => nomatch h

theorem Progresses.kind {f : TokenKind → Parser (Option α)} (h : ∀ k, Progresses (f k)) :
    Progresses (Parser.kind >>= f) :=
  fun s _ _ hp => h s.current.kind hp

theorem Progresses.second {f : TokenKind → Parser (Option α)} (h : ∀ k, Progresses (f k)) :
    Progresses (Parser.second >>= f) :=
  fun s _ _ hp => h s.second hp

theorem progresses_accept {k : TokenKind} (hk : k ≠ .endOfInput) {p : Parser (Option α)}
    (hp : GoesForward p) : Progresses (do if ← accept k then p else return none) := by
  intro s a s' h
  rw [bind_apply, accept_apply] at h
  by_cases hcurrent : s.current.kind = k
  · rw [if_pos hcurrent] at h
    exact Nat.lt_of_le_of_lt (isLeftOf_of_ok hp h).rest.length_le
      (PassAlike.rest_tail_length (hcurrent ▸ hk))
  · rw [if_neg hcurrent] at h
    cases h

theorem passes_parenthesized {p : Parser α} (hp : GoesForward p) : Passes (parenthesized p) :=
  (passes_expect (k := .symbol .leftParen) nofun).bind fun _ => .bind hp fun _ =>
    .bind (goesForward_congruence.expect _) fun _ => goesForward_congruence.pure _

/-- A further item of a list with commas. -/
theorem progresses_commaItem {p : Parser α} (hp : GoesForward p) :
    Progresses (do if ← accept (.symbol .comma) then return some (← p) else return none) :=
  progresses_accept (k := .symbol .comma) nofun (.bind hp fun _ => goesForward_congruence.pure _)

theorem passes_commaList {p : Parser α} (hp : Passes p) (hforward : GoesForward p) :
    Passes (commaList p) := by
  have forward := goesForward_congruence
  have item : GoesForward
      (do if ← accept (.symbol .comma) then return some (← p) else return none) := by
    refine .bind (forward.accept _) fun _ => ?_
    split
    · exact .bind hforward fun _ => forward.pure _
    · exact forward.pure _
  exact hp.bind fun _ => .bind (forward.many (q := pure none) item) fun _ => forward.pure _

end Passing

/-- What is nested goes forward, and passes a token if it is there. -/
structure Nested.Passing (g : Nested) : Prop where
  forward : Nested.Related (fun p _ => GoesForward p) g g
  expression (power : Nat) : Passes (g.expression power)
  query : Passes g.query

section Grammar

variable (d : Dialect)

theorem passes_operand {g : Nested} (hg : Nested.Related (fun p _ => GoesForward p) g g) :
    Passes (operand d g) := by
  intro s a s' h
  have agree : Nested.Related (AgreeBelow s.rest.length) g g :=
    ⟨fun m u _ => ⟨rfl, hg.expression m u⟩, fun u _ => ⟨rfl, hg.query u⟩⟩
  exact (passAlike_operand d (Nat.lt_succ_self _) agree).passes h

theorem nestedWithin_passing (n : Nat) : (nestedWithin d n).Passing := by
  have forward := goesForward_congruence
  have hforward := forward.nestedWithin d
  cases n with
  | zero => exact ⟨hforward 0, fun _ _ _ _ h => (nomatch h), fun _ _ _ h => (nomatch h)⟩
  | succ n =>
    refine ⟨hforward (n + 1), fun m => ?_, ?_⟩
    · exact (passes_operand d (hforward n)).bind fun _ =>
        .iterate (forward.extend (hforward n) d m) _
    · exact (passes_expect (k := .keyword .SELECT) nofun).bind fun _ =>
        forward.queryBody (hforward n) d

theorem nested_passing : (nested d).Passing where
  forward := ⟨goesForward_congruence.expression d, goesForward_congruence.query d⟩
  expression m s _ _ h := (nestedWithin_passing d (s.rest.length + 1)).expression m h
  query s _ _ h := (nestedWithin_passing d (s.rest.length + 1)).query h

theorem progresses_pathPart (e : Expr) : Progresses (pathPart d e) := by
  have forward := goesForward_congruence
  unfold pathPart
  split
  · refine progresses_accept (k := .symbol .dot) nofun (.bind (forward.accept _) fun _ => ?_)
    split
    · exact forward.pure _
    · exact .bind (forward.name d) fun _ => forward.pure _
  · exact progresses_none

theorem passes_joinType : Passes (joinType d) := by
  have forward := goesForward_congruence
  have close (type : JoinType) : Passes (do expect (.keyword .JOIN); return type) :=
    (passes_expect (k := .keyword .JOIN) nofun).bind fun _ => forward.pure _
  refine .kind fun _ => ?_
  dsimp only
  split
  · exact .after forward.advance fun _ => close _
  · exact .after forward.advance fun _ => .after (forward.leftJoinType d) fun _ => close _
  · exact .after forward.advance fun _ => .after (forward.accept _) fun _ => close .right
  · exact .after forward.advance fun _ => .after (forward.accept _) fun _ => close .full
  · exact .after forward.advance fun _ => close _
  · exact close _

variable {d} {g : Nested} (hg : g.Passing)
include hg

theorem progresses_whenClause : Progresses (whenClause g) := by
  have forward := goesForward_congruence
  refine progresses_accept (k := .keyword .WHEN) nofun ?_
  exact .bind (hg.forward.expression 0) fun _ => .bind (forward.expect _) fun _ =>
    .bind (hg.forward.expression 0) fun _ => forward.pure _

theorem progresses_join : Progresses (join d g) := by
  have forward := goesForward_congruence
  refine .kind fun _ => ?_
  split
  · refine ((passes_joinType d).bind fun _ =>
      .bind (forward.relation hg.forward d) fun _ => ?_).progresses
    split
    · exact forward.pure _
    · refine .bind (forward.accept _) fun _ => ?_
      split
      · exact .bind (hg.forward.expression 0) fun _ => forward.pure _
      · refine .bind (forward.accept _) fun _ => ?_
        split
        · exact .bind (forward.parenthesized (q := identifierList d) (forward.identifierList d))
            fun _ => forward.pure _
        · exact forward.pure _
  · exact progresses_none

theorem progresses_lateralView : Progresses (lateralView d g) := by
  have forward := goesForward_congruence
  refine .kind fun _ => ?_
  split
  · refine (Passes.after (forward.require d _) fun _ => .after forward.advance fun _ =>
      (passes_expect (k := .keyword .VIEW) nofun).bind fun _ => ?_).progresses
    exact .bind (forward.accept _) fun _ => .bind (forward.identifier d) fun _ =>
      .bind (forward.call hg.forward _) fun _ => .bind (forward.identifier d) fun _ =>
        .bind (forward.expect _) fun _ => .bind (forward.identifierList d) fun _ => forward.pure _
  · exact progresses_none

theorem passes_inList (left : Expr) (negated : Bool) : Passes (inList g left negated) := by
  have forward := goesForward_congruence
  refine (passes_parenthesized (.kind fun _ => ?_)).bind fun _ => forward.pure _
  split
  · exact .bind hg.forward.query fun _ => forward.pure _
  · exact forward.expressionList hg.forward

theorem passes_between (left : Expr) (power : Nat) (negated : Bool) :
    Passes (between g left power negated) :=
  have forward := goesForward_congruence
  (hg.expression _).bind fun _ => .bind (forward.expect _) fun _ =>
    .bind (hg.forward.expression _) fun _ => forward.pure _

theorem passes_pattern (left : Expr) (power : Nat) (op : BinaryOp)
    (feature : Option Dialect.Feature) (negated : Bool) :
    Passes (pattern d g left power op feature negated) := by
  have forward := goesForward_congruence
  have operator : Passes (do
      advance
      return Expr.binary left (if negated then op.negated?.getD op else op)
        (← g.expression power)) :=
    .after forward.advance fun _ => (hg.expression _).bind fun _ => forward.pure _
  cases feature with
  | none => exact operator
  | some f => exact .after (forward.require d f) fun _ => operator

theorem progresses_negatedPredicate (left : Expr) (power : Nat) :
    Progresses (negatedPredicate d g left power) := by
  have forward := goesForward_congruence
  refine .second fun _ => ?_
  split
  · exact (Passes.after forward.advance fun _ => .after forward.advance fun _ =>
      (passes_inList hg left true).bind fun _ => forward.pure _).progresses
  · exact (Passes.after forward.advance fun _ => .after forward.advance fun _ =>
      (passes_between hg left power true).bind fun _ => forward.pure _).progresses
  · split
    · exact (Passes.after forward.advance fun _ =>
        (passes_pattern hg left power _ _ true).bind fun _ => forward.pure _).progresses
    · exact progresses_none

theorem progresses_extend (m : Nat) (left : Expr) : Progresses (extend d g m left) := by
  have forward := goesForward_congruence
  refine .kind fun _ => ?_
  split
  · exact progresses_none
  · split
    · exact progresses_none
    · split
      · refine (Passes.after forward.advance fun _ => .after (forward.accept _) fun _ => ?_).progresses
        exact (passes_expect (k := .keyword .NULL) nofun).bind fun _ => forward.pure _
      · exact (Passes.after forward.advance fun _ =>
          (passes_inList hg left false).bind fun _ => forward.pure _).progresses
      · exact (Passes.after forward.advance fun _ =>
          (passes_between hg left _ false).bind fun _ => forward.pure _).progresses
      · exact progresses_negatedPredicate hg left _
      · split
        · exact ((passes_pattern hg _ _ _ _ _).bind fun _ => forward.pure _).progresses
        · exact (Passes.after forward.advance fun _ =>
            (hg.expression _).bind fun _ => forward.pure _).progresses
        · exact progresses_none

end Grammar

end SqlDialects.Parser
