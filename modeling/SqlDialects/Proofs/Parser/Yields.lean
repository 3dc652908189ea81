import SqlDialects.Proofs.Parser.Progress

/-!
# What parsers return

A statement about the values that a parser returns, on streams whose tokens have a given property.
Main statements: how it passes through sequencing, repetition and lists.
-/

namespace SqlDialects

/-- All tokens before the end of a stream have a property. -/
def TokenStream.Within (T : Token → Prop) (s : TokenStream) : Prop :=
  ∀ t ∈ s.rest, T t

theorem TokenStream.Within.of_isLeftOf {T : Token → Prop} {s s' : TokenStream} (h : s.Within T)
    (hs : s'.IsLeftOf s) : s'.Within T :=
  fun t ht => h t (hs.rest.subset ht)

namespace Parser

/-- What a parser returns has the property `Q`, if the tokens of the stream have the property
`T`. -/
def Yields {α : Type} (T : Token → Prop) (p : Parser α) (Q : α → Prop) : Prop :=
  ∀ ⦃s a s'⦄, s.Within T → p s = .ok a s' → Q a ∧ s'.Within T

theorem bind_eq_ok {α β : Type} {p : Parser α} {f : α → Parser β} {s s' : TokenStream} {b : β} :
    (p >>= f) s = .ok b s' ↔ ∃ a t, p s = .ok a t ∧ f a t = .ok b s' := by
  rw [bind_apply]
  cases p s with
  | ok a t => exact ⟨fun h => ⟨a, t, rfl, h⟩, by rintro ⟨_, _, ⟨⟩, h⟩; exact h⟩
  | error e t => simp

namespace Yields

variable {α β : Type} {T : Token → Prop}

theorem mono {p : Parser α} {Q Q' : α → Prop} (h : Yields T p Q) (hQ : ∀ a, Q a → Q' a) :
    Yields T p Q' :=
  fun _ _ _ hs hp => ⟨hQ _ (h hs hp).1, (h hs hp).2⟩

/-- Whatever a parser returns, the tokens that it leaves are among those it was given. -/
theorem any {p : Parser α} (h : GoesForward p) : Yields T p fun _ => True :=
  fun _ _ _ hs hp => ⟨trivial, hs.of_isLeftOf (isLeftOf_of_ok h hp)⟩

theorem pure {Q : α → Prop} {a : α} (h : Q a) : Yields T (Pure.pure a) Q := by
  rintro s b s' hs ⟨⟩
  exact ⟨h, hs⟩

theorem fail {Q : α → Prop} (cause : SyntaxCause) : Yields T (Parser.fail cause) Q := by
  rintro s a s' - ⟨⟩

theorem unexpected {Q : α → Prop} (expected : Expected) : Yields T (Parser.unexpected expected) Q := by
  rintro s a s' - ⟨⟩

theorem bind {p : Parser α} {f : α → Parser β} {Q : α → Prop} {Q' : β → Prop}
    (hp : Yields T p Q) (hf : ∀ a, Q a → Yields T (f a) Q') : Yields T (p >>= f) Q' := by
  intro s b s' hs h
  obtain ⟨a, t, ha, hb⟩ := bind_eq_ok.mp h
  obtain ⟨hQ, ht⟩ := hp hs ha
  exact hf a hQ ht hb

theorem map {p : Parser α} {Q : α → Prop} {Q' : β → Prop} {f : α → β} (hp : Yields T p Q)
    (hf : ∀ a, Q a → Q' (f a)) : Yields T (f <$> p) Q' :=
  hp.bind fun a ha => .pure (hf a ha)

/-- A parser about which nothing needs to be known goes first. -/
theorem skip {p : Parser α} {f : α → Parser β} {Q : β → Prop} (hp : GoesForward p)
    (hf : ∀ a, Yields T (f a) Q) : Yields T (p >>= f) Q :=
  (any hp).bind fun a _ => hf a

theorem ite {c : Prop} [Decidable c] {p q : Parser α} {Q : α → Prop} (hp : c → Yields T p Q)
    (hq : ¬c → Yields T q Q) : Yields T (if c then p else q) Q := by
  split
  · exact hp ‹_›
  · exact hq ‹_›

theorem accept {Q : α → Prop} (k : TokenKind) {f : Bool → Parser α}
    (hf : ∀ b, Yields T (f b) Q) : Yields T (Parser.accept k >>= f) Q :=
  skip (goesForward_congruence.accept k) hf

theorem expect {Q : α → Prop} (k : TokenKind) {f : Unit → Parser α} (hf : Yields T (f ()) Q) :
    Yields T (Parser.expect k >>= f) Q :=
  skip (goesForward_congruence.expect k) fun _ => hf

theorem advance {Q : α → Prop} {f : Unit → Parser α} (hf : Yields T (f ()) Q) :
    Yields T (Parser.advance >>= f) Q :=
  skip goesForward_congruence.advance fun _ => hf

theorem kind {Q : α → Prop} {f : TokenKind → Parser α} (hf : ∀ k, Yields T (f k) Q) :
    Yields T (Parser.kind >>= f) Q :=
  fun s _ _ hs h => hf s.current.kind hs h

theorem second {Q : α → Prop} {f : TokenKind → Parser α} (hf : ∀ k, Yields T (f k) Q) :
    Yields T (Parser.second >>= f) Q :=
  skip goesForward_congruence.second hf

/-- The current token is one of the stream, or the end of input. -/
theorem current {Q : α → Prop} {f : Token → Parser α}
    (hf : ∀ t, T t ∨ t.kind = .endOfInput → Yields T (f t) Q) :
    Yields T (Parser.current >>= f) Q := by
  intro s _ _ hs h
  refine hf s.current ?_ hs h
  obtain ⟨_ | ⟨t, rest⟩, span, lexeme⟩ := s
  · exact .inr rfl
  · exact .inl (hs t (by simp))

theorem require {Q : α → Prop} {d : Dialect} {feature : Dialect.Feature} {f : Unit → Parser α}
    (hf : d.supports feature = true → Yields T (f ()) Q) :
    Yields T (Parser.require d feature >>= f) Q := by
  refine bind (Q := fun _ => d.supports feature = true) ?_ fun _ => hf
  unfold Parser.require
  split
  · exact .pure ‹_›
  · exact .fail _

/-- A step keeps a property of the value that is built up. -/
theorem iterate {step : α → Parser (Option α)} {Q : α → Prop}
    (hstep : ∀ a, Q a → Yields T (step a) fun o => ∀ b ∈ o, Q b) {a : α} (ha : Q a) :
    Yields T (Parser.iterate step a) Q := by
  intro s b s' hs h
  change iterateUpTo step (s.rest.length + 1) a s = _ at h
  generalize s.rest.length + 1 = n at h
  induction n generalizing a s with
  | zero => exact Yields.pure ha hs h
  | succ n ih =>
    obtain ⟨o, t, ho, h⟩ := bind_eq_ok.mp h
    obtain ⟨hQ, ht⟩ := hstep a ha hs ho
    cases o with
    | none => exact Yields.pure ha ht h
    | some c => exact ih (hQ c rfl) ht h

theorem many {p : Parser (Option α)} {Q : α → Prop} (hp : Yields T p fun o => ∀ a ∈ o, Q a) :
    Yields T (Parser.many p) fun l => ∀ a ∈ l, Q a := by
  intro s l s' hs h
  change manyUpTo p (s.rest.length + 1) s = _ at h
  generalize s.rest.length + 1 = n at h
  induction n generalizing s l s' with
  | zero => exact Yields.pure (Q := fun l => ∀ a ∈ l, Q a) (by simp) hs h
  | succ n ih =>
    obtain ⟨o, t, ho, h⟩ := bind_eq_ok.mp h
    obtain ⟨hQ, ht⟩ := hp hs ho
    cases o with
    | none => exact Yields.pure (Q := fun l => ∀ a ∈ l, Q a) (by simp) ht h
    | some a =>
      obtain ⟨rest, u, hrest, h⟩ := bind_eq_ok.mp h
      obtain ⟨hall, hu⟩ := ih ht hrest
      exact Yields.pure (Q := fun l => ∀ a ∈ l, Q a) (by simpa using ⟨hQ a rfl, hall⟩) hu h

theorem commaList {p : Parser α} {Q : α → Prop} (hp : Yields T p Q) :
    Yields T (Parser.commaList p) fun l => l ≠ [] ∧ ∀ a ∈ l, Q a := by
  refine hp.bind fun a ha => bind (many (Q := Q) ?_) fun l hl => .pure ⟨by simp, by simp_all⟩
  exact .accept _ fun _ => .ite (fun _ => hp.bind fun b hb => .pure (by simpa using hb))
    fun _ => .pure (by simp)

theorem parenthesized {p : Parser α} {Q : α → Prop} (hp : Yields T p Q) :
    Yields T (Parser.parenthesized p) Q :=
  .expect _ (hp.bind fun _ ha => .expect _ (.pure ha))

end Yields

end Parser

end SqlDialects
