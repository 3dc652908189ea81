import SqlDialects.Lexer.Token
import SqlDialects.Proofs.Word
import SqlDialects.Unicode.WhiteSpace

/-!
# Which characters begin which token

The signs, quotes and digits are ASCII characters that begin no word, and none of these is a blank.
-/

namespace SqlDialects

namespace Unicode

/-- Two classes whose runs lie apart have no character in common. -/
theorem Ranges.not_contains {a b : Ranges}
    (h : ∀ r ∈ a, ∀ u ∈ b, r.2 < u.1 ∨ u.2 < r.1) {c : Char} (hc : a.contains c = true) :
    b.contains c = false := by
  rw [← Bool.not_eq_true, contains_iff]
  obtain ⟨r, hr, hlo, hhi⟩ := contains_iff.mp hc
  rintro ⟨u, hu, hlo', hhi'⟩
  have := h r hr u hu
  omega

end Unicode

theorem isWhiteSpace_of_isWordStart {c : Char} (h : isWordStart c = true) :
    Unicode.isWhiteSpace c = false := by
  by_cases hc : c.toNat < 128
  · exact forall_ascii (P := fun c => isWordStart c = true → Unicode.isWhiteSpace c = false)
      (by decide) c hc h
  · have halpha : Unicode.alphabeticRanges.contains c = true := by
      have hne : c ≠ '_' := fun he => hc (by rw [he]; decide)
      simpa [isWordStart, Unicode.isAlphabetic, hc, hne] using h
    exact Unicode.Ranges.not_contains (b := Unicode.whiteSpaceRanges) (by decide +kernel) halpha

/-- A character that is none of a list of ASCII characters because it begins a word. -/
theorem ne_of_isWordStart {c x : Char} (h : isWordStart c = true) (hx : isWordStart x = false) :
    c ≠ x := by
  rintro rfl
  simp [hx] at h

theorem isDigit_of_isWordStart {c : Char} (h : isWordStart c = true) : c.isDigit = false := by
  by_cases hc : c.toNat < 128
  · exact forall_ascii (P := fun c => isWordStart c = true → c.isDigit = false)
      (by decide) c hc h
  · rw [← Bool.not_eq_true, Char.isDigit_iff_toNat]
    exact fun hd => hc (Nat.lt_of_le_of_lt hd.2 (by decide))

namespace Lexer

/-- The characters that signs begin with. -/
def signStarts : List Char :=
  ['=', '<', '>', '!', '|', '(', ')', ',', ';', '.', ':', '+', '-', '*', '/', '%']

theorem leadingSymbol?_eq_none {c : Char} (rest : List Char) (h : c ∉ signStarts) :
    leadingSymbol? (c :: rest) = none := by
  simp only [signStarts, List.mem_cons, List.not_mem_nil, or_false, not_or] at h
  unfold leadingSymbol?
  split <;> simp_all

theorem leadingSymbol?_of_isWordStart {c : Char} (rest : List Char) (h : isWordStart c = true) :
    leadingSymbol? (c :: rest) = none := by
  refine leadingSymbol?_eq_none rest fun hc => ?_
  have hsigns : signStarts.all (!isWordStart ·) = true := by decide
  have hsign := List.all_eq_true.mp hsigns c hc
  simp [h] at hsign

theorem leadingSymbol?_of_isDigit {c : Char} (rest : List Char) (h : c.isDigit = true) :
    leadingSymbol? (c :: rest) = none := by
  refine leadingSymbol?_eq_none rest fun hc => ?_
  have hsigns : signStarts.all (!Char.isDigit ·) = true := by decide
  have hsign := List.all_eq_true.mp hsigns c hc
  simp [h] at hsign

end Lexer

end SqlDialects
