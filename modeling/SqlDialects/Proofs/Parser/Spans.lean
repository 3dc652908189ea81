import SqlDialects.Proofs.Parser.Productions

/-!
# Parsers do not look at spans

Two streams are alike if their tokens have the same kinds and lexemes. On such streams a parser
returns the same value or fails for the same cause, and leaves streams that are alike again.
-/

namespace SqlDialects

/-- What a parser sees of a token. -/
def Token.content (t : Token) : TokenKind × String :=
  (t.kind, t.lexeme)

namespace TokenStream

structure Alike (s u : TokenStream) : Prop where
  rest : s.rest.map Token.content = u.rest.map Token.content
  endLexeme : s.endLexeme = u.endLexeme

namespace Alike

variable {s u : TokenStream}

theorem symm (h : Alike s u) : Alike u s :=
  ⟨h.rest.symm, h.endLexeme.symm⟩

theorem content_current (h : Alike s u) : s.current.content = u.current.content := by
  have hr := h.rest
  cases hs : s.rest with
  | nil =>
    rw [hs, List.map_nil] at hr
    simp [current, hs, List.map_eq_nil_iff.mp hr.symm, Token.content, stop, h.endLexeme]
  | cons t rest =>
    rw [hs] at hr
    obtain ⟨v, rest', hu, ht, -⟩ := List.map_eq_cons_iff.mp hr.symm
    simp [current, hs, hu, ht]

theorem kind_current (h : Alike s u) : s.current.kind = u.current.kind :=
  congrArg Prod.fst h.content_current

theorem lexeme_current (h : Alike s u) : s.current.lexeme = u.current.lexeme :=
  congrArg Prod.snd h.content_current

theorem tail (h : Alike s u) : Alike s.tail u.tail :=
  ⟨by simpa [TokenStream.tail] using congrArg List.tail h.rest, h.endLexeme⟩

theorem second (h : Alike s u) : s.second = u.second := by
  have second_eq (s : TokenStream) : s.second = s.tail.current.kind := by
    rcases s with ⟨_ | ⟨t, _ | ⟨t', rest⟩⟩, span, lexeme⟩ <;> rfl
  rw [second_eq, second_eq, h.tail.kind_current]

theorem length_rest (h : Alike s u) : s.rest.length = u.rest.length := by
  simpa using congrArg List.length h.rest

end Alike

end TokenStream

namespace Parser

/-- Two parsers do the same on streams that are alike. -/
def SameOutcome {α : Type} (p q : Parser α) : Prop :=
  ∀ ⦃s u⦄, TokenStream.Alike s u →
    match p s, q u with
    | .ok a s', .ok b u' => a = b ∧ s'.Alike u'
    | .error e s', .error f u' => e.cause = f.cause ∧ s'.Alike u'
    | _, _ => False

theorem SameOutcome.bind {α β : Type} {p q : Parser α} {f g : α → Parser β}
    (hp : SameOutcome p q) (hf : ∀ a, SameOutcome (f a) (g a)) :
    SameOutcome (p >>= f) (q >>= g) := by
  intro s u h
  have hpq := hp h
  rw [bind_apply, bind_apply]
  cases hs : p s <;> cases hu : q u <;> simp only [hs, hu] at hpq ⊢
  · obtain ⟨rfl, h'⟩ := hpq
    exact hf _ h'
  · exact hpq

theorem sameOutcome_congruence : Congruence @SameOutcome where
  pure _ _ _ h := ⟨rfl, h⟩
  bind := .bind
  fail _ _ _ _ h := ⟨rfl, h⟩
  unexpected expected _ _ h :=
    ⟨congrArg (SyntaxCause.unexpected expected) h.kind_current, h⟩
  current hf _ _ h := hf _ _ h.kind_current h.lexeme_current h
  second _ _ h := ⟨h.second, h⟩
  advance _ _ h := ⟨rfl, h.tail⟩
  remaining {_ f g} hf s u h := by
    show match f s.rest.length s, g u.rest.length u with
      | .ok a s', .ok b u' => a = b ∧ s'.Alike u'
      | .error e s', .error f u' => e.cause = f.cause ∧ s'.Alike u'
      | _, _ => False
    rw [h.length_rest]
    exact hf _ h

theorem sameOutcome_statement (d : Dialect) : SameOutcome (statement d) (statement d) :=
  sameOutcome_congruence.statement d

/-- Streams of the same contents hold the same statement. -/
theorem statement_eq_ok_of_alike {d : Dialect} {s s' u : TokenStream} {a : Statement}
    (h : TokenStream.Alike s u) (hs : statement d s = .ok a s') :
    ∃ u', statement d u = .ok a u' := by
  have hsame := sameOutcome_statement d h
  rw [hs] at hsame
  cases hu : statement d u with
  | ok b u' =>
    rw [hu] at hsame
    exact ⟨u', by rw [hsame.1]⟩
  | error e u' =>
    rw [hu] at hsame
    exact hsame.elim

end Parser

end SqlDialects
