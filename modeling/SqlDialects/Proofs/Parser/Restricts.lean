import SqlDialects.Proofs.Parser.Yields

/-!
# A parser as another one restricted to some values

Whatever the one returns the other returns as well, and the other way round where the value has a
property. A value that is built from others tells what those were, so the property of the parts is
had from that of the whole; it is handed on as a condition.
-/

namespace SqlDialects.Parser

/-- The first parser returns what the second returns if it has the property `Q`, and then the
condition `c` holds; it returns nothing that the second one does not return. -/
structure Restricts {α : Type} (c : Prop) (p q : Parser α) (Q : α → Prop) : Prop where
  extends_ok ⦃s : TokenStream⦄ ⦃a : α⦄ ⦃s' : TokenStream⦄ (h : p s = .ok a s') : q s = .ok a s'
  of_ok ⦃s : TokenStream⦄ ⦃a : α⦄ ⦃s' : TokenStream⦄ (h : q s = .ok a s') (ha : Q a) :
    c ∧ p s = .ok a s'

namespace Restricts

variable {α β : Type} {c : Prop} {Q : β → Prop}

theorem pure {b : β} (h : Q b → c) : Restricts c (Pure.pure b) (Pure.pure b) Q where
  extends_ok _ _ _ h := h
  of_ok _ _ _ hb hQ := by
    cases hb
    exact ⟨h hQ, rfl⟩

/-- A parser that returns nothing restricts those that do not return values with the property. -/
theorem of_error {p q : Parser β} (hp : ∀ s, ∃ e s', p s = .error e s')
    (hq : ∀ s, ∃ e s', q s = .error e s') : Restricts c p q Q where
  extends_ok s _ _ h := by
    obtain ⟨_, _, he⟩ := hp s
    cases he.symm.trans h
  of_ok s _ _ h _ := by
    obtain ⟨_, _, he⟩ := hq s
    cases he.symm.trans h

theorem fail (cause cause' : SyntaxCause) :
    Restricts c (Parser.fail cause) (Parser.fail cause') Q :=
  of_error (fun _ => ⟨_, _, rfl⟩) fun _ => ⟨_, _, rfl⟩

theorem unexpected (expected : Expected) :
    Restricts c (Parser.unexpected expected) (Parser.unexpected expected) Q :=
  of_error (fun _ => ⟨_, _, rfl⟩) fun _ => ⟨_, _, rfl⟩

theorem of_eq {p q : Parser β} (h : p = q) : Restricts True p q Q where
  extends_ok _ _ _ hb := h ▸ hb
  of_ok _ _ _ hb _ := ⟨trivial, h ▸ hb⟩

theorem imp {c' : Prop} {p q : Parser β} (h : Restricts c p q Q) (hc : c → c') :
    Restricts c' p q Q where
  extends_ok := h.extends_ok
  of_ok _ _ _ hb hQ := (h.of_ok hb hQ).imp_left hc

theorem mono {p q : Parser β} {Q' : β → Prop} (h : Restricts c p q Q) (hQ : ∀ b, Q' b → Q b) :
    Restricts c p q Q' where
  extends_ok := h.extends_ok
  of_ok _ _ _ hb hQ' := h.of_ok hb (hQ _ hQ')

theorem seq {p q : Parser α} {f g : α → Parser β} {A : α → Prop} (hp : Restricts c p q A)
    (hf : ∀ a, Restricts (A a) (f a) (g a) Q) : Restricts c (p >>= f) (q >>= g) Q where
  extends_ok s b s' h := by
    obtain ⟨a, t, ha, hb⟩ := bind_eq_ok.mp h
    exact bind_eq_ok.mpr ⟨a, t, hp.extends_ok ha, (hf a).extends_ok hb⟩
  of_ok s b s' h hQ := by
    obtain ⟨a, t, ha, hb⟩ := bind_eq_ok.mp h
    obtain ⟨hA, hb⟩ := (hf a).of_ok hb hQ
    obtain ⟨hc, ha⟩ := hp.of_ok ha hA
    exact ⟨hc, bind_eq_ok.mpr ⟨a, t, ha, hb⟩⟩

/-- A condition that is known afterwards was known before. -/
theorem frame {p q : Parser α} {A : α → Prop} (hp : Restricts True p q A) :
    Restricts c p q fun a => c ∧ A a where
  extends_ok := hp.extends_ok
  of_ok _ _ _ h hA := ⟨hA.1, (hp.of_ok h hA.2).2⟩

/-- What has to be known of the first value is known from the rest. -/
theorem bind {p q : Parser α} {f g : α → Parser β} {A : α → Prop} (hp : Restricts True p q A)
    (hf : ∀ a, Restricts (c ∧ A a) (f a) (g a) Q) : Restricts c (p >>= f) (q >>= g) Q :=
  seq (frame hp) hf

/-- The first parts are equal. -/
theorem same {p q : Parser α} (h : p = q) {f g : α → Parser β}
    (hf : ∀ a, Restricts c (f a) (g a) Q) : Restricts c (p >>= f) (q >>= g) Q :=
  h ▸ seq ⟨fun _ _ _ h => h, fun _ _ _ h hc => ⟨hc, h⟩⟩ hf

/-- The second parser goes on wherever the first one does, and the value tells whether the first
one did. -/
theorem gate {b b' : Prop} [Decidable b] [Decidable b'] (h : b → b') {p q p' q' : Parser β}
    (hp : Restricts (c ∧ b) p q Q) (hp' : ∀ s, ∃ e s', p' s = .error e s')
    (hq' : ∀ s, ∃ e s', q' s = .error e s') :
    Restricts c (if b then p else p') (if b' then q else q') Q := by
  by_cases hb : b
  · rw [if_pos hb, if_pos (h hb)]
    exact hp.imp And.left
  · rw [if_neg hb]
    refine ⟨fun s _ _ hok => ?_, fun s _ _ hok hQ => ?_⟩
    · obtain ⟨_, _, he⟩ := hp' s
      cases he.symm.trans hok
    · by_cases hb' : b'
      · rw [if_pos hb'] at hok
        exact absurd (hp.of_ok hok hQ).1.2 hb
      · rw [if_neg hb'] at hok
        obtain ⟨_, _, he⟩ := hq' s
        cases he.symm.trans hok

theorem require {d e : Dialect} {f : Dialect.Feature}
    (h : d.supports f = true → e.supports f = true) {k k' : Unit → Parser β}
    (hk : Restricts (c ∧ d.supports f = true) (k ()) (k' ()) Q) :
    Restricts c (Parser.require d f >>= k) (Parser.require e f >>= k') Q := by
  have gated (d : Dialect) (k : Unit → Parser β) : (Parser.require d f >>= k) =
      if d.supports f = true then k () else Parser.fail (.unsupported f d.name) >>= k := by
    unfold Parser.require
    split <;> rfl
  rw [gated, gated]
  exact gate h hk (fun _ => ⟨_, _, rfl⟩) fun _ => ⟨_, _, rfl⟩

theorem map {p q : Parser α} {f : α → β} {A : α → Prop} (hp : Restricts True p q A)
    (hf : ∀ a, Q (f a) → c ∧ A a) : Restricts c (f <$> p) (f <$> q) Q :=
  bind hp fun a => pure (hf a)

theorem ite {b : Prop} [Decidable b] {p q p' q' : Parser β} (hp : Restricts c p q Q)
    (hq : Restricts c p' q' Q) : Restricts c (if b then p else p') (if b then q else q') Q := by
  split
  · exact hp
  · exact hq

/-- A step that is taken keeps what is known of the value before it. -/
theorem iterate {step step' : α → Parser (Option α)} {A : α → Prop}
    (hstep : ∀ a, Restricts (A a) (step a) (step' a) fun o => A (o.getD a)) (a : α) :
    Restricts (A a) (Parser.iterate step a) (Parser.iterate step' a) A := by
  have upTo (n : Nat) (a : α) :
      Restricts (A a) (iterateUpTo step n a) (iterateUpTo step' n a) A := by
    induction n generalizing a with
    | zero => exact pure id
    | succ n ih =>
      refine seq (hstep a) fun o => ?_
      cases o with
      | none => exact pure id
      | some b => exact ih b
  exact ⟨fun s _ _ h => (upTo (s.rest.length + 1) a).extends_ok h,
    fun s _ _ h hQ => (upTo (s.rest.length + 1) a).of_ok h hQ⟩

theorem many {p q : Parser (Option α)} {A : α → Prop}
    (hp : Restricts True p q fun o => ∀ a ∈ o, A a) :
    Restricts True (Parser.many p) (Parser.many q) fun l => ∀ a ∈ l, A a := by
  have upTo (n : Nat) :
      Restricts True (manyUpTo p n) (manyUpTo q n) fun l => ∀ a ∈ l, A a := by
    induction n with
    | zero => exact pure fun _ => trivial
    | succ n ih =>
      refine bind hp fun o => ?_
      cases o with
      | none => exact pure fun _ => ⟨trivial, by simp⟩
      | some a => exact bind ih fun l => pure fun h => by simpa using h
  exact ⟨fun s _ _ h => (upTo (s.rest.length + 1)).extends_ok h,
    fun s _ _ h hQ => (upTo (s.rest.length + 1)).of_ok h hQ⟩

theorem commaList {p q : Parser α} {A : α → Prop} (hp : Restricts True p q A) :
    Restricts True (Parser.commaList p) (Parser.commaList q) fun l => ∀ a ∈ l, A a := by
  have others : Restricts True (do
      if ← Parser.accept (.symbol .comma) then return some (← p) else return none) (do
      if ← Parser.accept (.symbol .comma) then return some (← q) else return none)
      fun o => ∀ a ∈ o, A a :=
    same rfl fun _ => ite (bind hp fun a => pure (by simp)) (pure fun _ => trivial)
  exact bind hp fun a => bind (many others) fun l => pure (by simp)

theorem parenthesized {p q : Parser α} {A : α → Prop} (hp : Restricts True p q A) :
    Restricts True (Parser.parenthesized p) (Parser.parenthesized q) A :=
  same rfl fun _ => bind hp fun _ => same rfl fun _ => pure fun h => ⟨trivial, h⟩

end Restricts

end SqlDialects.Parser
