import SqlDialects.Proofs.Parser.Productions

/-!
# Parsers only go forward

Whatever a parser does, it leaves a part of what it was given, and the end of the stream stays where
it is.
-/

namespace SqlDialects

/-- A stream is what is left of another after some of its tokens. -/
structure TokenStream.IsLeftOf (s' s : TokenStream) : Prop where
  rest : s'.rest <:+ s.rest
  stop : s'.stop = s.stop

namespace TokenStream.IsLeftOf

theorem refl (s : TokenStream) : s.IsLeftOf s := ⟨List.suffix_refl _, rfl⟩

theorem trans {s s' s'' : TokenStream} (h' : s''.IsLeftOf s') (h : s'.IsLeftOf s) :
    s''.IsLeftOf s :=
  ⟨h'.rest.trans h.rest, h'.stop.trans h.stop⟩

theorem tail (s : TokenStream) : s.tail.IsLeftOf s := ⟨List.tail_suffix _, rfl⟩

end TokenStream.IsLeftOf

namespace Parser

/-- Where a parser stands after it has succeeded or failed. -/
def after {α : Type} (p : Parser α) (s : TokenStream) : TokenStream :=
  match p s with
  | .ok _ s' => s'
  | .error _ s' => s'

section After

variable {α β : Type} {p : Parser α} {s s' : TokenStream} {a : α} {e : SyntaxError}

theorem after_of_ok (h : p s = .ok a s') : after p s = s' := by
  rw [after, h]

theorem after_of_error (h : p s = .error e s') : after p s = s' := by
  rw [after, h]

theorem bind_of_ok (h : p s = .ok a s') (f : α → Parser β) : (p >>= f) s = f a s' := by
  rw [bind_apply, h]

theorem bind_of_error (h : p s = .error e s') (f : α → Parser β) :
    (p >>= f) s = .error e s' := by
  rw [bind_apply, h]

theorem after_bind_of_ok (h : p s = .ok a s') (f : α → Parser β) :
    after (p >>= f) s = after (f a) s' := by
  rw [after, bind_of_ok h, after]

end After

/-- A parser leaves a part of what it was given. -/
def GoesForward {α : Type} (p : Parser α) : Prop :=
  ∀ s, (after p s).IsLeftOf s

theorem GoesForward.bind {α β : Type} {p : Parser α} {f : α → Parser β} (hp : GoesForward p)
    (hf : ∀ a, GoesForward (f a)) : GoesForward (p >>= f) := by
  intro s
  have h := hp s
  cases hs : p s with
  | ok a s' =>
    rw [after_of_ok hs] at h
    rw [after_bind_of_ok hs]
    exact (hf a s').trans h
  | error e s' =>
    rw [after_of_error hs] at h
    rw [after_of_error (bind_of_error hs f)]
    exact h

theorem goesForward_congruence : Congruence fun p _ => GoesForward p where
  pure _ s := .refl s
  bind := .bind
  fail _ _ s := .refl s
  unexpected _ s := .refl s
  current hf s := hf s.current s.current rfl rfl s
  second s := .refl s
  advance s := .tail s
  remaining hf s := hf s.rest.length s

theorem GoesForward.kind {α : Type} {f : TokenKind → Parser α} (h : ∀ k, GoesForward (f k)) :
    GoesForward (Parser.kind >>= f) :=
  fun s => h s.current.kind s

theorem GoesForward.iterate {α : Type} {step : α → Parser (Option α)}
    (h : ∀ a, GoesForward (step a)) (a : α) : GoesForward (iterate step a) :=
  @Congruence.iterate _ goesForward_congruence α step step h a

theorem isLeftOf_of_ok {α : Type} {p : Parser α} (hp : GoesForward p) {s s' : TokenStream} {a : α}
    (h : p s = .ok a s') : s'.IsLeftOf s :=
  after_of_ok h ▸ hp s

end Parser

theorem TokenStream.statement_eq_ok {d : Dialect} {s s' : TokenStream} {a : Statement} :
    s.statement d = (.ok a, s') ↔ Parser.statement d s = .ok a s' := by
  unfold TokenStream.statement
  cases Parser.statement d s <;> simp

end SqlDialects
