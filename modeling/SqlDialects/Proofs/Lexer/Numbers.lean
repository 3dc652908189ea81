import SqlDialects.Proofs.Lexer.Rescan

/-!
# The texts of numbers

Digits, perhaps a dot with digits, perhaps an exponent: these are the texts of number tokens, and
each is read as such a token where neither a word nor a dot follows.
-/

namespace SqlDialects

/-- A row of at least one digit. -/
structure IsDigits (text : List Char) : Prop where
  ne_nil : text ≠ []
  isDigit : ∀ c ∈ text, c.isDigit = true

/-- A dot with digits, or nothing. -/
def IsFraction (text : List Char) : Prop :=
  text = [] ∨ ∃ digits, IsDigits digits ∧ text = '.' :: digits

/-- The mark of an exponent, with or without a sign. -/
def IsExponentMark (text : List Char) : Prop :=
  ∃ e, (e = 'e' ∨ e = 'E') ∧ (text = [e] ∨ text = [e, '+'] ∨ text = [e, '-'])

/-- An exponent, or nothing. -/
def IsExponent (text : List Char) : Prop :=
  text = [] ∨ ∃ mark digits, IsExponentMark mark ∧ IsDigits digits ∧ text = mark ++ digits

/-- The three parts of a number as it is written. -/
structure NumberText (whole fraction exponent : List Char) : Prop where
  whole : IsDigits whole
  fraction : IsFraction fraction
  exponent : IsExponent exponent

namespace Lexer

/-- What a number is: an integer if it has digits only and these are not too many. -/
def numberKind (whole fraction exponent : List Char) : TokenKind :=
  if fraction = [] ∧ exponent = [] then integerKind whole
  else .number (.ofList (whole ++ fraction ++ exponent))

/-- Nothing that continues a number stands at the head of a text. -/
def EndsNumber (rest : List Char) : Prop :=
  ∀ c ∈ rest.head?, isWordPart c = false ∧ c ≠ '.'

theorem isWordPart_of_isDigit {c : Char} (h : c.isDigit = true) : isWordPart c = true := by
  have hc : c.toNat < 128 := Nat.lt_of_le_of_lt (Char.isDigit_iff_toNat.mp h).2 (by decide)
  exact forall_ascii (P := fun c => c.isDigit = true → isWordPart c = true) (by decide) c hc h

/-- A digit begins a number. -/
theorem scan_of_isDigit {c : Char} (hc : c.isDigit = true) (rest : List Char) :
    scan (c :: rest) = scanNumber (c :: rest) := by
  have hquote : ¬ (c = '\x27' ∨ c = '\x22') := by
    rintro (rfl | rfl) <;> exact absurd hc (by decide)
  have hback : c ≠ '\x60' := by rintro rfl; exact absurd hc (by decide)
  simp only [scan, leadingSymbol?_of_isDigit _ hc, hquote, hback, if_false, hc, if_true]

section Rest

variable {rest : List Char} (hr : EndsNumber rest)
include hr

theorem EndsNumber.isDigit : ∀ c ∈ rest.head?, c.isDigit = false := by
  intro c hc
  rw [← Bool.not_eq_true]
  exact fun hd => by simpa [isWordPart_of_isDigit hd] using (hr c hc).1

theorem endNumber_of_endsNumber (kind : TokenKind) (read : List Char) :
    endNumber kind read rest = ⟨.ok kind, read, rest⟩ := by
  unfold endNumber
  split
  · rename_i c rest
    have hc : isWordStart c = false := by
      rw [← Bool.not_eq_true]
      exact fun h => by simpa [isWordPart_of_isWordStart h] using (hr c rfl).1
    simp [hc]
  · rfl

theorem splitExponentMark_of_endsNumber : splitExponentMark rest = ([], rest) := by
  cases rest with
  | nil => rfl
  | cons c rest =>
    have hc : ¬ (c = 'e' ∨ c = 'E') := by
      rintro (rfl | rfl) <;> exact absurd (hr _ rfl).1 (by decide)
    simp [splitExponentMark, hc]

omit hr in
theorem splitExponentMark_append_mark {mark digits : List Char} (rest : List Char)
    (hm : IsExponentMark mark) (hd : IsDigits digits) :
    splitExponentMark (mark ++ (digits ++ rest)) = (mark, digits ++ rest) := by
  obtain ⟨c, digits, rfl⟩ := List.exists_cons_of_ne_nil hd.ne_nil
  have hc : c.isDigit = true := hd.isDigit c (by simp)
  have hplus : c ≠ '+' := by rintro rfl; exact absurd hc (by decide)
  have hminus : c ≠ '-' := by rintro rfl; exact absurd hc (by decide)
  obtain ⟨e, he, rfl | rfl | rfl⟩ := hm
  · simp [splitExponentMark, he, hplus, hminus]
  · simp [splitExponentMark, he]
  · simp [splitExponentMark, he]

theorem isDigit_head_exponent {exponent : List Char} (he : IsExponent exponent) :
    ∀ c ∈ (exponent ++ rest).head?, c.isDigit = false ∧ c ≠ '.' := by
  obtain rfl | ⟨mark, digits, ⟨e, he, hm⟩, -, rfl⟩ := he
  · exact fun c hc => ⟨hr.isDigit c hc, (hr c hc).2⟩
  · intro c hc
    have hc : c = e := by rcases hm with rfl | rfl | rfl <;> simp_all
    subst hc
    rcases he with rfl | rfl <;> decide

theorem splitFraction_append_fraction {fraction exponent : List Char} (hf : IsFraction fraction)
    (he : IsExponent exponent) :
    splitFraction (fraction ++ (exponent ++ rest)) = (fraction, exponent ++ rest) := by
  have hhead := isDigit_head_exponent hr he
  generalize exponent ++ rest = text at hhead
  obtain rfl | ⟨digits, hd, rfl⟩ := hf
  · cases text with
    | nil => rfl
    | cons c text => simp [splitFraction, (hhead c rfl).2]
  · have htake := takeWhile_append hd.isDigit fun c hc => (hhead c hc).1
    have hdrop := dropWhile_append hd.isDigit fun c hc => (hhead c hc).1
    obtain ⟨c, digits, rfl⟩ := List.exists_cons_of_ne_nil hd.ne_nil
    simp only [splitFraction, List.cons_append] at htake hdrop ⊢
    simp only [htake, hdrop]

/-- The text of a number is read as that number. -/
theorem scanNumber_text {whole fraction exponent : List Char}
    (h : NumberText whole fraction exponent) :
    scanNumber (whole ++ fraction ++ exponent ++ rest) =
      ⟨.ok (numberKind whole fraction exponent), whole ++ fraction ++ exponent, rest⟩ := by
  have hhead : ∀ c ∈ (fraction ++ (exponent ++ rest)).head?, c.isDigit = false := by
    obtain hf | ⟨_, _, hf⟩ := h.fraction
    · simpa [hf] using fun c hc => (isDigit_head_exponent hr h.exponent c (by simpa using hc)).1
    · simp [hf]
  have hfraction := splitFraction_append_fraction hr h.fraction h.exponent
  simp only [List.append_assoc] at hfraction ⊢
  simp only [scanNumber, takeWhile_append h.whole.isDigit hhead,
    dropWhile_append h.whole.isDigit hhead, hfraction]
  obtain he | ⟨mark, digits, hm, hd, he⟩ := h.exponent
  · simp [he, splitExponentMark_of_endsNumber hr, endNumber_of_endsNumber hr, numberKind]
  · have hmark := splitExponentMark_append_mark rest hm hd
    have hne : mark ≠ [] := by
      obtain ⟨e, -, rfl | rfl | rfl⟩ := hm <;> simp
    simp [he, hmark, hne, takeWhile_append hd.isDigit hr.isDigit,
      dropWhile_append hd.isDigit hr.isDigit, hd.ne_nil, endNumber_of_endsNumber hr, numberKind]

end Rest

/-! ## What is read is such a text -/

theorem isDigits_takeWhile {text : List Char} (h : text.takeWhile Char.isDigit ≠ []) :
    IsDigits (text.takeWhile Char.isDigit) :=
  ⟨h, List.all_eq_true.mp List.all_takeWhile⟩

theorem isFraction_splitFraction (text : List Char) : IsFraction (splitFraction text).1 := by
  unfold splitFraction
  split
  · split
    · exact .inl rfl
    · rename_i rest digits hd
      exact .inr ⟨_, isDigits_takeWhile hd, rfl⟩
  · exact .inl rfl

theorem isExponentMark_splitExponentMark {text : List Char} (h : (splitExponentMark text).1 ≠ []) :
    IsExponentMark (splitExponentMark text).1 := by
  unfold splitExponentMark at h ⊢
  split at h
  · rename_i e rest
    split at h
    · rename_i he
      rw [if_pos he]
      exact ⟨e, he, by split <;> simp⟩
    · exact absurd rfl h
  · exact absurd rfl h

theorem endNumber_eq_ok {kind k : TokenKind} {read rest : List Char}
    (h : (endNumber kind read rest).found = .ok k) :
    k = kind ∧ (endNumber kind read rest).read = read := by
  unfold endNumber at h ⊢
  split at h
  · split at h
    · cases h
    · rename_i c rest hc
      cases h
      exact ⟨rfl, by simp [hc]⟩
  · cases h
    exact ⟨rfl, rfl⟩

/-- A number that is read has the text of one. -/
theorem numberText_of_scanNumber {c : Char} {text : List Char} {k : TokenKind}
    (hc : c.isDigit = true) (h : (scanNumber (c :: text)).found = .ok k) :
    ∃ whole fraction exponent, NumberText whole fraction exponent ∧
      (scanNumber (c :: text)).read = whole ++ fraction ++ exponent ∧
        k = numberKind whole fraction exponent := by
  have hwhole : IsDigits ((c :: text).takeWhile Char.isDigit) := isDigits_takeWhile (by simp [hc])
  have hfraction := isFraction_splitFraction ((c :: text).dropWhile Char.isDigit)
  simp only [scanNumber] at h ⊢
  generalize (c :: text).takeWhile Char.isDigit = whole at *
  generalize splitFraction ((c :: text).dropWhile Char.isDigit) = fraction at *
  split at h
  · rename_i hm
    obtain ⟨rfl, hread⟩ := endNumber_eq_ok h
    rw [if_pos hm]
    exact ⟨whole, fraction.1, [], ⟨hwhole, hfraction, .inl rfl⟩, by rw [hread, hm],
      by simp [numberKind, hm]⟩
  · rename_i hm
    rw [if_neg hm]
    split at h
    · cases h
    · rename_i hd
      obtain ⟨rfl, hread⟩ := endNumber_eq_ok h
      rw [if_neg hd]
      refine ⟨whole, fraction.1, _, ⟨hwhole, hfraction, .inr ⟨_, _,
        isExponentMark_splitExponentMark hm, isDigits_takeWhile hd, rfl⟩⟩, ?_, ?_⟩
      · rw [hread, List.append_assoc (whole ++ fraction.1)]
      · simp [numberKind, hm]

end Lexer

end SqlDialects
