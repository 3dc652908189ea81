import SqlDialects.Proofs.Parser.Operators
import SqlDialects.Proofs.Parser.Yields

/-!
# How deep productions nest, and how often steps are repeated

A production passes a token before it reads what is nested in it, and so does a step that is
repeated, so the tokens left bound both. Main statements: whatever stands for what would be nested
deeper than there are tokens is never asked, a loop ends because there is no step left, and so
productions and loops satisfy the equations of the grammar, which know no bounds.
-/

namespace SqlDialects.Parser

/-! ## Parsers that agree on short streams -/

/-- Where fewer than `n` tokens are left, two parsers do the same and go forward. -/
def AgreeBelow (n : Nat) {α : Type} (p q : Parser α) : Prop :=
  ∀ s : TokenStream, s.rest.length < n → p s = q s ∧ (after q s).IsLeftOf s

theorem agreeBelow_congruence (n : Nat) : Congruence (AgreeBelow n) where
  pure _ s _ := ⟨rfl, .refl s⟩
  bind {_ _ p q f g} hp hf s hs := by
    obtain ⟨heq, hleft⟩ := hp s hs
    cases hq : q s with
    | error e s' =>
      rw [bind_of_error (heq.trans hq), after_of_error (bind_of_error hq g), bind_of_error hq]
      rw [after_of_error hq] at hleft
      exact ⟨rfl, hleft⟩
    | ok a s' =>
      rw [bind_of_ok (heq.trans hq), after_bind_of_ok hq, bind_of_ok hq]
      rw [after_of_ok hq] at hleft
      obtain ⟨heq', hleft'⟩ := hf a s' (Nat.lt_of_le_of_lt hleft.rest.length_le hs)
      exact ⟨heq', hleft'.trans hleft⟩
  fail _ _ s _ := ⟨rfl, .refl s⟩
  unexpected _ s _ := ⟨rfl, .refl s⟩
  current hf s hs := hf s.current s.current rfl rfl s hs
  second s _ := ⟨rfl, .refl s⟩
  advance s _ := ⟨rfl, .tail s⟩
  remaining hf s hs := hf s.rest.length s hs

/-- At a stream, two parsers do the same, go forward, and pass a token if they succeed. -/
structure PassAlike {α : Type} (s : TokenStream) (p q : Parser α) : Prop where
  eq : p s = q s
  forward : (after q s).IsLeftOf s
  passes ⦃a : α⦄ ⦃s' : TokenStream⦄ (h : q s = .ok a s') : s'.rest.length < s.rest.length

namespace PassAlike

variable {α β : Type} {n : Nat} {s : TokenStream}

theorem rest_tail_length (hk : s.current.kind ≠ .endOfInput) :
    s.tail.rest.length < s.rest.length := by
  obtain ⟨_ | ⟨t, rest⟩, span, lexeme⟩ := s
  · exact absurd rfl hk
  · exact Nat.lt_succ_self _

/-- Behind a token that is there, fewer tokens are left. -/
theorem of_tail {p q f g : Parser α} (hs : s.rest.length < n + 1)
    (hk : s.current.kind ≠ .endOfInput) (hp : p s = f s.tail) (hq : q s = g s.tail)
    (h : AgreeBelow n f g) : PassAlike s p q := by
  have hlt := rest_tail_length hk
  obtain ⟨heq, hleft⟩ := h s.tail (by omega)
  have hafter : after q s = after g s.tail := by rw [after, hq, after]
  refine ⟨by rw [hp, hq, heq], hafter ▸ hleft.trans (.tail s), fun a s' ha => ?_⟩
  rw [← hafter, after_of_ok ha] at hleft
  exact Nat.lt_of_le_of_lt hleft.rest.length_le hlt

theorem advance {f g : Unit → Parser α} (hs : s.rest.length < n + 1)
    (hk : s.current.kind ≠ .endOfInput) (h : AgreeBelow n (f ()) (g ())) :
    PassAlike s (Parser.advance >>= f) (Parser.advance >>= g) :=
  of_tail hs hk rfl rfl h

theorem expect {k : TokenKind} {f g : Unit → Parser α} (hs : s.rest.length < n + 1)
    (hk : k ≠ .endOfInput) (h : AgreeBelow n (f ()) (g ())) :
    PassAlike s (Parser.expect k >>= f) (Parser.expect k >>= g) := by
  by_cases hcurrent : s.current.kind = k
  · have pass (f : Unit → Parser α) : (Parser.expect k >>= f) s = f () s.tail := by
      rw [bind_apply, expect_apply, if_pos hcurrent]
    exact of_tail hs (hcurrent ▸ hk) (pass f) (pass g) h
  · have refuse (f : Unit → Parser α) : (Parser.expect k >>= f) s =
        .error ⟨.unexpected (.token k) s.current.kind, s.current.span⟩ s := by
      rw [bind_apply, expect_apply, if_neg hcurrent]
    refine ⟨by rw [refuse, refuse], ?_, fun a s' ha => ?_⟩
    · rw [after_of_error (refuse g)]
      exact .refl s
    · cases (refuse g).symm.trans ha

theorem current {f g : Token → Parser α} (h : PassAlike s (f s.current) (g s.current)) :
    PassAlike s (Parser.current >>= f) (Parser.current >>= g) :=
  ⟨h.eq, h.forward, h.passes⟩

theorem kind {f g : TokenKind → Parser α} (h : PassAlike s (f s.current.kind) (g s.current.kind)) :
    PassAlike s (Parser.kind >>= f) (Parser.kind >>= g) :=
  ⟨h.eq, h.forward, h.passes⟩

theorem second {f g : TokenKind → Parser α} (h : PassAlike s (f s.second) (g s.second)) :
    PassAlike s (Parser.second >>= f) (Parser.second >>= g) :=
  ⟨h.eq, h.forward, h.passes⟩

theorem unexpected (expected : Expected) :
    PassAlike (α := α) s (Parser.unexpected expected) (Parser.unexpected expected) :=
  ⟨rfl, .refl s, fun _ _ h => nomatch h⟩

theorem parenthesized {p q : Parser α} (hs : s.rest.length < n + 1) (h : AgreeBelow n p q) :
    PassAlike s (Parser.parenthesized p) (Parser.parenthesized q) := by
  have hR := agreeBelow_congruence n
  exact expect hs nofun (hR.bind h fun _ => hR.bind (hR.expect _) fun _ => hR.pure _)

/-- What comes after a passed token may do the same on shorter streams only. -/
theorem bind {p q : Parser α} {f g : α → Parser β} (hs : s.rest.length < n + 1)
    (h : PassAlike s p q) (hf : ∀ a, AgreeBelow n (f a) (g a)) :
    PassAlike s (p >>= f) (q >>= g) := by
  obtain ⟨heq, hleft, hpasses⟩ := h
  cases hq : q s with
  | error e s' =>
    rw [after_of_error hq] at hleft
    refine ⟨?_, ?_, fun b t hb => ?_⟩
    · rw [bind_of_error (heq.trans hq), bind_of_error hq]
    · rw [after_of_error (bind_of_error hq g)]
      exact hleft
    · cases (bind_of_error hq g).symm.trans hb
  | ok a s' =>
    have hlt := hpasses hq
    obtain ⟨heq', hleft'⟩ := hf a s' (by omega)
    rw [after_of_ok hq] at hleft
    refine ⟨?_, ?_, fun b t hb => ?_⟩
    · rw [bind_of_ok (heq.trans hq), bind_of_ok hq, heq']
    · rw [after_bind_of_ok hq]
      exact hleft'.trans hleft
    · rw [after_of_ok ((bind_of_ok hq g).symm.trans hb)] at hleft'
      exact Nat.lt_of_le_of_lt hleft'.rest.length_le hlt

end PassAlike

/-! ## Productions -/

/-- The end of input is no name. -/
theorem kind_ne_of_name? {d : Dialect} {t : Token} {name : String} (h : t.name? d = some name) :
    t.kind ≠ .endOfInput := by
  intro hk
  simp [Token.name?, Token.identifier?, hk] at h

theorem kind_ne_of_identifier? {d : Dialect} {t : Token} {name : String}
    (h : t.identifier? d = some name) : t.kind ≠ .endOfInput := by
  intro hk
  simp [Token.identifier?, hk] at h

theorem kind_ne_of_unaryOp? {k : TokenKind} {o : UnaryOp × Nat} (h : unaryOp? k = some o) :
    k ≠ .endOfInput := by
  rintro rfl
  cases h

theorem kind_ne_of_literal? {d : Dialect} {k : TokenKind} {value : Literal}
    (h : literal? d k = some value) : k ≠ .endOfInput := by
  rintro rfl
  cases h

section Productions

variable (d : Dialect) {n : Nat} {s : TokenStream} (hs : s.rest.length < n + 1)
include hs

theorem passAlike_dataTypeOf {p q : Parser DataType} (h : AgreeBelow n p q) :
    PassAlike s (dataTypeOf d p) (dataTypeOf d q) := by
  have hR := agreeBelow_congruence n
  rw [dataTypeOf_eq, dataTypeOf_eq]
  refine .current ?_
  split
  · exact .unexpected _
  · rename_i word hword
    exact .advance hs (kind_ne_of_name? hword) (hR.typeBody d h word.toUpper)

variable {g h : Nested} (hg : Nested.Related (AgreeBelow n) g h)
include hg

theorem passAlike_namedOperand : PassAlike s (namedOperand d g) (namedOperand d h) := by
  have hR := agreeBelow_congruence n
  refine .current ?_
  split
  · rename_i first hfirst
    exact .advance hs (kind_ne_of_identifier? hfirst) (hR.named hg d first)
  · exact .unexpected _

theorem passAlike_primary : PassAlike s (primary d g) (primary d h) := by
  have hR := agreeBelow_congruence n
  have literal {value : Literal} (hv : literal? d s.current.kind = some value) :
      PassAlike s (do advance; return Expr.literal value) (do advance; return Expr.literal value) :=
    .advance hs (kind_ne_of_literal? hv) (hR.pure _)
  have function (hk : s.current.kind ≠ .endOfInput) :
      PassAlike s
        (do
          if (← second) = .symbol .leftParen then
            advance
            return .call (← call g s.current.lexeme)
          else namedOperand d g)
        (do
          if (← second) = .symbol .leftParen then
            advance
            return .call (← call h s.current.lexeme)
          else namedOperand d h) := by
    refine .second ?_
    split
    · exact .advance hs hk (hR.bind (hR.call hg _) fun _ => hR.pure _)
    · exact passAlike_namedOperand d hs hg
  refine .current ?_
  split
  · exact literal ‹_›
  · split
    · exact .advance hs (by simp_all) (hR.pure _)
    · refine .parenthesized hs (hR.kindBind fun _ => ?_)
      split
      · exact hR.bind hg.query fun _ => hR.pure _
      · exact hR.bind (hg.expression 0) fun _ => hR.pure _
    · exact .expect hs nofun (hR.parenthesized (hR.bind (hg.expression 0) fun _ =>
        hR.bind (hR.expect _) fun _ => hR.bind (hR.dataType d) fun _ => hR.pure _))
    · exact .expect hs nofun (hR.caseBody hg)
    · exact .advance hs (by simp_all)
        (hR.bind (hR.parenthesized hg.query) fun _ => hR.pure _)
    · exact function (by simp_all)
    · exact function (by simp_all)
    · exact passAlike_namedOperand d hs hg

theorem passAlike_operand : PassAlike s (operand d g) (operand d h) := by
  have hR := agreeBelow_congruence n
  refine .kind ?_
  split
  · exact .advance hs (kind_ne_of_unaryOp? ‹_›) (hR.bind (hg.expression _) fun _ => hR.pure _)
  · exact passAlike_primary d hs hg

theorem passAlike_expressionOf (m : Nat) : PassAlike s (expressionOf d g m) (expressionOf d h m) :=
  have hR := agreeBelow_congruence n
  .bind hs (passAlike_operand d hs hg) fun _ => hR.iterate (hR.extend hg d m) _

theorem passAlike_queryOf : PassAlike s (queryOf d g) (queryOf d h) :=
  .expect hs nofun ((agreeBelow_congruence n).queryBody hg d)

end Productions

/-! ## Nesting -/

section Nesting

variable (d : Dialect)

/-- Expressions and queries that nest less than `n` deep, where something else stands for what is
nested deeper. -/
def nestedOver (base : Nested) : Nat → Nested
  | 0 => base
  | n + 1 => ⟨expressionOf d (nestedOver base n), queryOf d (nestedOver base n)⟩

/-- Types that nest less than `n` deep, where something else stands for what is nested deeper. -/
def dataTypeOver (base : Parser DataType) : Nat → Parser DataType
  | 0 => base
  | n + 1 => dataTypeOf d (dataTypeOver base n)

/-- Where fewer than `n` tokens are left, nothing is nested `n` deep. -/
theorem agreeBelow_nestedOver (base base' : Nested) (n : Nat) :
    Nested.Related (AgreeBelow n) (nestedOver d base n) (nestedOver d base' n) := by
  induction n with
  | zero => exact ⟨fun _ _ hs => absurd hs (Nat.not_lt_zero _), fun _ hs => absurd hs (Nat.not_lt_zero _)⟩
  | succ n ih =>
    refine ⟨fun m s hs => ?_, fun s hs => ?_⟩
    · have h := passAlike_expressionOf d hs ih m
      exact ⟨h.eq, h.forward⟩
    · have h := passAlike_queryOf d hs ih
      exact ⟨h.eq, h.forward⟩

theorem agreeBelow_dataTypeOver (base base' : Parser DataType) (n : Nat) :
    AgreeBelow n (dataTypeOver d base n) (dataTypeOver d base' n) := by
  induction n with
  | zero => exact fun _ hs => absurd hs (Nat.not_lt_zero _)
  | succ n ih =>
    intro s hs
    have h := passAlike_dataTypeOf d hs ih
    exact ⟨h.eq, h.forward⟩

theorem nestedOver_add (base : Nested) (m n : Nat) :
    nestedOver d (nestedOver d base m) n = nestedOver d base (m + n) := by
  induction n with
  | zero => rfl
  | succ n ih => rw [nestedOver, ih, ← Nat.add_assoc, nestedOver]

theorem dataTypeOver_add (base : Parser DataType) (m n : Nat) :
    dataTypeOver d (dataTypeOver d base m) n = dataTypeOver d base (m + n) := by
  induction n with
  | zero => rfl
  | succ n ih => rw [dataTypeOver, ih, ← Nat.add_assoc, dataTypeOver]

theorem nestedWithin_eq (n : Nat) : nestedWithin d n = nestedOver d (nestedWithin d 0) n := by
  induction n with
  | zero => rfl
  | succ n ih => rw [nestedOver, ← ih, nestedWithin]

theorem dataTypeWithin_eq (n : Nat) :
    dataTypeWithin d n = dataTypeOver d (dataTypeWithin d 0) n := by
  induction n with
  | zero => rfl
  | succ n ih => rw [dataTypeOver, ← ih, dataTypeWithin]

variable {s : TokenStream} {n : Nat}

/-- The tokens left bound the depth of what is nested, whatever stands for what would be deeper. -/
theorem nested_eq_nestedOver (base : Nested) (n : Nat) :
    Nested.Related (AgreeBelow n) (nested d) (nestedOver d base n) := by
  have related (s : TokenStream) (hs : s.rest.length < n) :
      Nested.Related (AgreeBelow (s.rest.length + 1)) (nestedWithin d (s.rest.length + 1))
        (nestedOver d base n) := by
    obtain ⟨k, rfl⟩ := Nat.exists_eq_add_of_le' (Nat.succ_le_of_lt hs)
    rw [← nestedOver_add, nestedWithin_eq]
    exact agreeBelow_nestedOver d _ _ _
  exact ⟨fun m s hs => (related s hs).expression m s (Nat.lt_succ_self _),
    fun s hs => (related s hs).query s (Nat.lt_succ_self _)⟩

theorem dataType_eq_dataTypeOver (base : Parser DataType) (n : Nat) :
    AgreeBelow n (dataType d) (dataTypeOver d base n) := by
  intro s hs
  obtain ⟨k, rfl⟩ := Nat.exists_eq_add_of_le' (Nat.succ_le_of_lt hs)
  have h := agreeBelow_dataTypeOver d (dataTypeWithin d 0) (dataTypeOver d base k)
    (s.rest.length + 1) s (Nat.lt_succ_self _)
  rwa [dataTypeOver_add, ← dataTypeWithin_eq] at h

/-- Expressions are read as the grammar says, without a bound on their depth. -/
theorem expression_unfold (m : Nat) : expression d m = expressionOf d (nested d) m := by
  funext s
  have h := nested_eq_nestedOver d (nestedWithin d 0) s.rest.length
  rw [← nestedWithin_eq] at h
  exact (passAlike_expressionOf d (Nat.lt_succ_self _) h m).eq.symm

theorem query_unfold : query d = queryOf d (nested d) := by
  funext s
  have h := nested_eq_nestedOver d (nestedWithin d 0) s.rest.length
  rw [← nestedWithin_eq] at h
  exact (passAlike_queryOf d (Nat.lt_succ_self _) h).eq.symm

theorem dataType_unfold : dataType d = dataTypeOf d (dataType d) := by
  funext s
  have h := dataType_eq_dataTypeOver d (dataTypeWithin d 0) s.rest.length
  rw [← dataTypeWithin_eq] at h
  exact (passAlike_dataTypeOf d (Nat.lt_succ_self _) h).eq.symm

end Nesting

/-! ## Repetition -/

/-- Repeats a step as long as it returns a value; something else stands for the repetitions beyond
`n`. -/
def iterateOver {α : Type} (base : α → Parser α) (step : α → Parser (Option α)) :
    Nat → α → Parser α
  | 0, a => base a
  | n + 1, a => do
    match ← step a with
    | some b => iterateOver base step n b
    | none => return a

/-- Collects the values of a parser until it returns none; something else stands for the values
beyond `n`. -/
def manyOver {α : Type} (base : Parser (List α)) (p : Parser (Option α)) : Nat → Parser (List α)
  | 0 => base
  | n + 1 => do
    match ← p with
    | some a => return a :: (← manyOver base p n)
    | none => return []

/-- A step that returns a value passes a token. -/
def Progresses {α : Type} (p : Parser (Option α)) : Prop :=
  ∀ ⦃s a s'⦄, p s = .ok (some a) s' → s'.rest.length < s.rest.length

section Repetition

variable {α : Type} {s : TokenStream} {m n : Nat}

theorem iterateUpTo_eq_iterateOver (step : α → Parser (Option α)) (n : Nat) (a : α) :
    iterateUpTo step n a = iterateOver pure step n a := by
  induction n generalizing a with
  | zero => rfl
  | succ n ih =>
    refine congrArg (step a >>= ·) (funext fun next => ?_)
    cases next with
    | none => rfl
    | some b => exact ih b

theorem manyUpTo_eq_manyOver (p : Parser (Option α)) (n : Nat) :
    manyUpTo p n = manyOver (pure []) p n := by
  induction n with
  | zero => rfl
  | succ n ih =>
    refine congrArg (p >>= ·) (funext fun item => ?_)
    cases item with
    | none => rfl
    | some a => exact congrArg (· >>= fun as => pure (a :: as)) ih

/-- The tokens left bound the repetitions of a step that passes tokens, whatever stands for those
beyond. -/
theorem iterateOver_eq_iterateOver {step : α → Parser (Option α)} (h : ∀ a, Progresses (step a))
    (base base' : α → Parser α) {a : α} (hm : s.rest.length < m) (hn : s.rest.length < n) :
    iterateOver base step m a s = iterateOver base' step n a s := by
  induction m generalizing n a s with
  | zero => exact absurd hm (Nat.not_lt_zero _)
  | succ m ih =>
    obtain ⟨n, rfl⟩ := Nat.exists_eq_succ_of_ne_zero (Nat.ne_zero_of_lt hn)
    rw [iterateOver, iterateOver, bind_apply, bind_apply]
    cases hstep : step a s with
    | error e s' => rfl
    | ok o s' =>
      cases o with
      | none => rfl
      | some b =>
        have hlt := h a hstep
        exact ih (by omega) (by omega)

theorem manyOver_eq_manyOver {p : Parser (Option α)} (h : Progresses p)
    (base base' : Parser (List α)) (hm : s.rest.length < m) (hn : s.rest.length < n) :
    manyOver base p m s = manyOver base' p n s := by
  induction m generalizing n s with
  | zero => exact absurd hm (Nat.not_lt_zero _)
  | succ m ih =>
    obtain ⟨n, rfl⟩ := Nat.exists_eq_succ_of_ne_zero (Nat.ne_zero_of_lt hn)
    rw [manyOver, manyOver, bind_apply, bind_apply]
    cases hp : p s with
    | error e s' => rfl
    | ok o s' =>
      cases o with
      | none => rfl
      | some a =>
        have hlt := h hp
        have heq : manyOver base p m s' = manyOver base' p n s' := ih (by omega) (by omega)
        show (manyOver base p m >>= _) s' = (manyOver base' p n >>= _) s'
        rw [bind_apply, bind_apply, heq]

/-- A loop ends by itself: whatever stands for the repetitions beyond the tokens left is never
asked. -/
theorem iterate_eq_iterateOver {step : α → Parser (Option α)} (h : ∀ a, Progresses (step a))
    (base : α → Parser α) (a : α) (hn : s.rest.length < n) :
    iterate step a s = iterateOver base step n a s := by
  show iterateUpTo step (s.rest.length + 1) a s = _
  rw [iterateUpTo_eq_iterateOver]
  exact iterateOver_eq_iterateOver h _ _ (Nat.lt_succ_self _) hn

theorem many_eq_manyOver {p : Parser (Option α)} (h : Progresses p) (base : Parser (List α))
    (hn : s.rest.length < n) : many p s = manyOver base p n s := by
  show manyUpTo p (s.rest.length + 1) s = _
  rw [manyUpTo_eq_manyOver]
  exact manyOver_eq_manyOver h _ _ (Nat.lt_succ_self _) hn

/-- A loop takes a step and goes on, or ends because there is no step left. -/
theorem iterate_eq {step : α → Parser (Option α)} (h : ∀ a, Progresses (step a)) (a : α) :
    iterate step a = (do
      match ← step a with
      | some b => iterate step b
      | none => return a) := by
  funext s
  show iterateUpTo step (s.rest.length + 1) a s = _
  rw [iterateUpTo, bind_apply, bind_apply]
  cases hstep : step a s with
  | error e s' => rfl
  | ok o s' =>
    cases o with
    | none => rfl
    | some b =>
      have hrest := iterate_eq_iterateOver h pure b (h a hstep)
      rw [← iterateUpTo_eq_iterateOver] at hrest
      exact hrest.symm

theorem many_eq {p : Parser (Option α)} (h : Progresses p) :
    many p = (do
      match ← p with
      | some a => return a :: (← many p)
      | none => return []) := by
  funext s
  show manyUpTo p (s.rest.length + 1) s = _
  rw [manyUpTo, bind_apply, bind_apply]
  cases hp : p s with
  | error e s' => rfl
  | ok o s' =>
    cases o with
    | none => rfl
    | some a =>
      have hrest := many_eq_manyOver h (pure []) (h hp)
      rw [← manyUpTo_eq_manyOver] at hrest
      show (manyUpTo p s.rest.length >>= _) s' = (many p >>= _) s'
      rw [bind_apply, bind_apply, hrest]

theorem iterate_of_none {step : α → Parser (Option α)} (h : ∀ a, Progresses (step a)) {a : α}
    (hstop : step a s = .ok none s) : iterate step a s = .ok a s := by
  rw [iterate_eq h, bind_apply, hstop]
  rfl

theorem many_of_none {p : Parser (Option α)} (h : Progresses p) (hstop : p s = .ok none s) :
    many p s = .ok [] s := by
  rw [many_eq h, bind_apply, hstop]
  rfl

end Repetition

end SqlDialects.Parser
