import SqlDialects.Proofs.Parser.QueryTrees
import SqlDialects.Statement

/-!
# Statements that are read from a text
-/

namespace SqlDialects.Statement

variable {d : Dialect} {text : String} {a : Statement}

theorem parse_eq_ok :
    parse d text = .ok a ↔
      ∃ s s', TokenStream.ofText text = .ok s ∧ Parser.statement d s = .ok a s' := by
  unfold parse
  cases TokenStream.ofText text with
  | error e => exact ⟨fun h => (nomatch h), fun ⟨_, _, h, _⟩ => (nomatch h)⟩
  | ok s =>
    change (s.statement d).1.mapError Error.grammar = _ ↔ _
    unfold TokenStream.statement
    cases hs : Parser.statement d s with
    | error e s' =>
      exact ⟨fun h => (nomatch h), fun ⟨_, _, rfl, h⟩ => (nomatch hs.symm.trans h)⟩
    | ok b s' =>
      refine ⟨fun h => ?_, fun ⟨_, _, hu, h⟩ => ?_⟩
      · cases h
        exact ⟨s, s', rfl, hs⟩
      · cases hu
        cases hs.symm.trans h
        rfl

/-- Every node of a statement that is read is sound, whatever is known of the tokens. -/
theorem sound_of_parse {T : Token → Prop}
    (hT : ∀ s, TokenStream.ofText text = .ok s → s.Within T) (h : parse d text = .ok a) :
    ∀ n ∈ a.nodes, n.Sound T d := by
  obtain ⟨s, s', hs, hp⟩ := parse_eq_ok.mp h
  exact (Parser.yields_statement (hT s hs) hp).1

end SqlDialects.Statement
