import SqlDialects.Proofs.Conservation.Payload
import SqlDialects.Proofs.Parser.Yields

/-!
# Parsers that carry what they pass

The payload of the tokens that a parser passes is the payload of the value it returns. Here is how
that goes through sequencing, where the payload of the tokens passed so far is put in front, and
through repetition and lists.
-/

namespace SqlDialects.Parser

/-- Where tokens with the payload `before` have been passed, the parser passes tokens such that the
value it returns has the payload of all of them. -/
def CarriesAt {α : Type} (d : Dialect) (s : TokenStream) (before : List TokenKind) (p : Parser α)
    (after : α → List TokenKind) : Prop :=
  s.Within Token.IsSpelled → ∀ ⦃a s'⦄, p s = .ok a s' →
    before ++ payload d s.rest = after a ++ payload d s'.rest ∧ s'.Within Token.IsSpelled

/-- The value that a parser returns has the payload of the tokens it passes. -/
def Carries {α : Type} (d : Dialect) (p : Parser α) (after : α → List TokenKind) : Prop :=
  ∀ s, CarriesAt d s [] p after

variable {α β : Type} {d : Dialect}

/-- The payload of a stream is that of its current token and of what is behind it. -/
theorem payload_rest (d : Dialect) (s : TokenStream) :
    payload d s.rest = (s.current.kind.payload? d).toList ++ payload d s.tail.rest := by
  obtain ⟨_ | ⟨t, rest⟩, span, lexeme⟩ := s
  · rfl
  · exact payload_cons d t rest

theorem isSpelled_current {s : TokenStream} (hs : s.Within Token.IsSpelled) :
    s.current.IsSpelled ∨ s.current.kind = .endOfInput := by
  obtain ⟨_ | ⟨t, rest⟩, span, lexeme⟩ := s
  · exact .inr rfl
  · exact .inl (hs t (List.mem_cons_self ..))

namespace CarriesAt

variable {s : TokenStream} {before : List TokenKind} {after : β → List TokenKind}

theorem pure {b : β} (h : before = after b) : CarriesAt d s before (Pure.pure b) after := by
  rintro hs _ _ ⟨⟩
  exact ⟨by rw [h], hs⟩

theorem of_error {p : Parser β} (h : ∃ e s', p s = .error e s') :
    CarriesAt d s before p after := by
  obtain ⟨e, s', h⟩ := h
  intro _ b s'' hb
  cases h.symm.trans hb

theorem fail (cause : SyntaxCause) : CarriesAt d s before (Parser.fail cause) after :=
  of_error ⟨_, _, rfl⟩

theorem unexpected (expected : Expected) :
    CarriesAt d s before (Parser.unexpected expected) after :=
  of_error ⟨_, _, rfl⟩

/-- What was passed before stays in front. -/
theorem frame (front : List TokenKind) {p : Parser α} {mid : α → List TokenKind}
    (hp : CarriesAt d s before p mid) :
    CarriesAt d s (front ++ before) p fun a => front ++ mid a := by
  intro hs a s' ha
  obtain ⟨hpassed, hs'⟩ := hp hs ha
  refine ⟨?_, hs'⟩
  rw [List.append_assoc, hpassed, List.append_assoc]

theorem seq {p : Parser α} {f : α → Parser β} {mid : α → List TokenKind}
    (hp : CarriesAt d s before p mid) (hf : ∀ a s', CarriesAt d s' (mid a) (f a) after) :
    CarriesAt d s before (p >>= f) after := by
  intro hs b s'' h
  obtain ⟨a, s', ha, hb⟩ := bind_eq_ok.mp h
  obtain ⟨hpassed, hs'⟩ := hp hs ha
  obtain ⟨hrest, hs''⟩ := hf a s' hs' hb
  exact ⟨hpassed.trans hrest, hs''⟩

/-- The payload of the first part is put behind what was passed before. -/
theorem bind {p : Parser α} {f : α → Parser β} {mid : α → List TokenKind} (hp : Carries d p mid)
    (hf : ∀ a s', CarriesAt d s' (before ++ mid a) (f a) after) :
    CarriesAt d s before (p >>= f) after := by
  have h := frame before (hp s)
  rw [List.append_nil] at h
  exact seq h hf

theorem last {p : Parser β} {mid : β → List TokenKind} (hp : Carries d p mid)
    (h : ∀ b, before ++ mid b = after b) : CarriesAt d s before p after := by
  have hframe := frame before (hp s)
  rwa [List.append_nil, funext h] at hframe

theorem map {p : Parser α} {f : α → β} {mid : α → List TokenKind} (hp : Carries d p mid)
    (h : ∀ a, before ++ mid a = after (f a)) : CarriesAt d s before (f <$> p) after :=
  bind hp fun a _ => pure (h a)

/-- A parser that passes no payload goes first. -/
theorem silent {p : Parser α} {f : α → Parser β} (hp : Carries d p fun _ => [])
    (hf : ∀ a s', CarriesAt d s' before (f a) after) : CarriesAt d s before (p >>= f) after :=
  bind hp fun a s' => by rw [List.append_nil]; exact hf a s'

theorem ite {c : Prop} [Decidable c] {p q : Parser β} (hp : c → CarriesAt d s before p after)
    (hq : ¬c → CarriesAt d s before q after) : CarriesAt d s before (if c then p else q) after := by
  split
  · exact hp ‹_›
  · exact hq ‹_›

theorem current {f : Token → Parser β}
    (hf : s.current.IsSpelled ∨ s.current.kind = .endOfInput →
      CarriesAt d s before (f s.current) after) :
    CarriesAt d s before (Parser.current >>= f) after :=
  fun hs _ _ h => hf (isSpelled_current hs) hs h

theorem kind {f : TokenKind → Parser β} (hf : CarriesAt d s before (f s.current.kind) after) :
    CarriesAt d s before (Parser.kind >>= f) after :=
  fun hs _ _ h => hf hs h

theorem second {f : TokenKind → Parser β} (hf : CarriesAt d s before (f s.second) after) :
    CarriesAt d s before (Parser.second >>= f) after :=
  fun hs _ _ h => hf hs h

theorem require {feature : Dialect.Feature} {f : Unit → Parser β}
    (hf : CarriesAt d s before (f ()) after) :
    CarriesAt d s before (Parser.require d feature >>= f) after := by
  by_cases h : d.supports feature = true
  · rw [Parser.require, if_pos h]
    exact hf
  · rw [Parser.require, if_neg h]
    exact of_error ⟨_, _, rfl⟩

theorem advance {f : Unit → Parser β}
    (hf : CarriesAt d s.tail (before ++ (s.current.kind.payload? d).toList) (f ()) after) :
    CarriesAt d s before (Parser.advance >>= f) after := by
  intro hs b s' h
  have htail : s.tail.Within Token.IsSpelled := hs.of_isLeftOf (.tail s)
  rw [payload_rest, ← List.append_assoc]
  exact hf htail h

/-- A token without payload is passed. -/
theorem pass {f : Unit → Parser β} {k : TokenKind} (hk : s.current.kind = k)
    (hsilent : k.payload? d = none) (hf : CarriesAt d s.tail before (f ()) after) :
    CarriesAt d s before (Parser.advance >>= f) after :=
  advance (by rw [hk, hsilent, Option.toList_none, List.append_nil]; exact hf)

end CarriesAt

namespace Carries

theorem accept {k : TokenKind} (hk : k.payload? d = none) :
    Carries d (Parser.accept k) fun _ => [] :=
  fun _ => .kind <| .ite (fun h => .pass h hk (.pure rfl)) fun _ => .pure rfl

theorem expect {k : TokenKind} (hk : k.payload? d = none) :
    Carries d (Parser.expect k) fun _ => [] :=
  fun _ => .silent (accept hk) fun _ _ => .ite (fun _ => .pure rfl) fun _ => .unexpected _

/-- Every step keeps the payload of what is built up. -/
theorem iterate {step : α → Parser (Option α)} {content : α → List TokenKind}
    (hstep : ∀ a s, CarriesAt d s (content a) (step a) fun o => content (o.getD a)) (a : α)
    (s : TokenStream) : CarriesAt d s (content a) (Parser.iterate step a) content := by
  have upTo (n : Nat) (a : α) (s : TokenStream) :
      CarriesAt d s (content a) (iterateUpTo step n a) content := by
    induction n generalizing a s with
    | zero => exact .pure rfl
    | succ n ih =>
      refine .seq (hstep a s) fun o s' => ?_
      cases o with
      | none => exact .pure rfl
      | some b => exact ih b s'
  exact upTo (s.rest.length + 1) a s

theorem many {p : Parser (Option α)} {content : α → List TokenKind}
    (hp : Carries d p fun o => o.toList.flatMap content) :
    Carries d (Parser.many p) fun l => l.flatMap content := by
  have upTo (n : Nat) : Carries d (manyUpTo p n) fun l => l.flatMap content := by
    induction n with
    | zero => exact fun _ => .pure rfl
    | succ n ih =>
      refine fun s => .bind hp fun o s' => ?_
      cases o with
      | none => exact .pure rfl
      | some a => exact .bind ih fun l _ => .pure (by simp)
  exact fun s => upTo (s.rest.length + 1) s

theorem commaList {p : Parser α} {content : α → List TokenKind} (hp : Carries d p content) :
    Carries d (Parser.commaList p) fun l => l.flatMap content := by
  have others : Carries d (do
      if ← Parser.accept (.symbol .comma) then return some (← p) else return none)
      fun o => o.toList.flatMap content :=
    fun _ => .silent (accept rfl) fun _ _ => .ite
      (fun _ => .bind hp fun _ _ => .pure (by simp)) fun _ => .pure rfl
  exact fun _ => .bind hp fun _ _ => .bind (many others) fun _ _ => .pure (by simp)

theorem parenthesized {p : Parser α} {content : α → List TokenKind} (hp : Carries d p content) :
    Carries d (Parser.parenthesized p) content :=
  fun _ => .silent (expect rfl) fun _ _ => .bind hp fun _ _ => .silent (expect rfl) fun _ _ =>
    .pure (by simp)

end Carries

end SqlDialects.Parser
