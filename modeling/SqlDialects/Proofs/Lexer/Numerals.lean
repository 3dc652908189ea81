import SqlDialects.Proofs.Lexer.Lexed
import SqlDialects.Proofs.Lexer.QuotedNames

/-!
# The grammar of numbers

A number is the longest beginning of a text that has the form of a decimal, and the exponent behind
it where a mark follows. Main statement: where a text begins with a digit, this grammar tells what
is read and what it stands for, or why nothing can be read; and the literal that was read is written
as a number of the same kind.
-/

namespace SqlDialects

/-! ## The longest part -/

/-- The part begins a text and has a property, and no longer one does. -/
structure IsLongest (P : List Char → Prop) (text part : List Char) : Prop where
  isPrefix : part <+: text
  holds : P part
  longest ⦃other : List Char⦄ (hbegins : other <+: text) (hother : P other) :
    other.length ≤ part.length

theorem IsLongest.eq {P : List Char → Prop} {text a b : List Char} (ha : IsLongest P text a)
    (hb : IsLongest P text b) : a = b := by
  have hlength : a.length = b.length :=
    Nat.le_antisymm (hb.longest ha.isPrefix ha.holds) (ha.longest hb.isPrefix hb.holds)
  have hbegins := List.prefix_of_prefix_length_le ha.isPrefix hb.isPrefix hlength.le
  exact hbegins.eq_of_length hlength

/-! ## The grammar -/

/-- Digits, and perhaps a dot with digits. -/
def IsDecimal (text : List Char) : Prop :=
  ∃ whole fraction, IsDigits whole ∧ IsFraction fraction ∧ text = whole ++ fraction

/-- An exponent mark with its digits. -/
def IsMarkedExponent (text : List Char) : Prop :=
  ∃ mark digits, IsExponentMark mark ∧ IsDigits digits ∧ text = mark ++ digits

/-- The number at the beginning of a text: the longest decimal, with the exponent if it is followed
by the letter of one. -/
inductive LeadingNumber (text : List Char) : List Char → Prop
  | decimal {m rest : List Char} (hm : IsLongest IsDecimal text m) (htext : m ++ rest = text)
    (hrest : ∀ c ∈ rest.head?, ¬ (c = 'e' ∨ c = 'E')) : LeadingNumber text m
  | exponent {m rest e : List Char} (hm : IsLongest IsDecimal text m) (htext : m ++ rest = text)
    (he : IsLongest IsMarkedExponent rest e) : LeadingNumber text (m ++ e)

/-- Digits whose value fits in 64 bits with a sign. -/
def IsIntegerText (text : List Char) : Prop :=
  (∀ c ∈ text, c.isDigit = true) ∧ Nat.ofDigitChars 10 text 0 ≤ 0x7FFFFFFFFFFFFFFF

/-- What a number as it is written stands for. -/
inductive NumeralKind (text : List Char) : TokenKind → Prop
  | integer {v : Int64} (htext : IsIntegerText text) (hv : v.toInt = Nat.ofDigitChars 10 text 0) :
    NumeralKind text (.integer v)
  | number (htext : ¬ IsIntegerText text) : NumeralKind text (.number (.ofList text))

/-- What is read of a text that begins with a digit: its number, unless a word runs into it; or the
beginning of an exponent that has no digits. -/
inductive NumberScan (text : List Char) : Scan → Prop
  | token {m rest : List Char} {k : TokenKind} (hm : LeadingNumber text m)
    (htext : m ++ rest = text) (hrest : ∀ c ∈ rest.head?, isWordStart c = false)
    (hk : NumeralKind m k) : NumberScan text ⟨.ok k, m, rest⟩
  | malformed {m rest : List Char} {c : Char} (hm : LeadingNumber text m)
    (htext : m ++ c :: rest = text) (hc : isWordStart c = true) :
    NumberScan text ⟨.error (.malformedNumber (.ofList (m ++ [c]))), m ++ [c], rest⟩
  | missingExponent {m mark rest : List Char} (hm : IsLongest IsDecimal text m)
    (htext : m ++ (mark ++ rest) = text) (hmark : IsLongest IsExponentMark (mark ++ rest) mark)
    (hnone : ∀ e, e <+: mark ++ rest → ¬ IsMarkedExponent e) :
    NumberScan text ⟨.error .missingExponent, m ++ mark, rest⟩

/-! ## One reading -/

theorem head?_of_isExponentMark {mark text : List Char} (hmark : IsExponentMark mark)
    (hbegins : mark <+: text) : ∃ c ∈ text.head?, c = 'e' ∨ c = 'E' := by
  obtain ⟨rest, rfl⟩ := hbegins
  obtain ⟨e, he, rfl | rfl | rfl⟩ := hmark <;> exact ⟨e, rfl, he⟩

theorem IsMarkedExponent.head? {e text : List Char} (he : IsMarkedExponent e)
    (hbegins : e <+: text) : ∃ c ∈ text.head?, c = 'e' ∨ c = 'E' := by
  obtain ⟨mark, digits, hmark, -, rfl⟩ := he
  exact head?_of_isExponentMark hmark ((List.prefix_append mark digits).trans hbegins)

theorem LeadingNumber.eq {text m m' : List Char} (h : LeadingNumber text m)
    (h' : LeadingNumber text m') : m = m' := by
  cases h with
  | decimal hm htext hrest =>
    cases h' with
    | decimal hm' => exact hm.eq hm'
    | exponent hm' htext' he =>
      obtain rfl := hm.eq hm'
      obtain rfl := List.append_cancel_left (htext.trans htext'.symm)
      obtain ⟨c, hc, hmark⟩ := he.holds.head? he.isPrefix
      exact absurd hmark (hrest c hc)
  | exponent hm htext he =>
    cases h' with
    | decimal hm' htext' hrest =>
      obtain rfl := hm.eq hm'
      obtain rfl := List.append_cancel_left (htext.trans htext'.symm)
      obtain ⟨c, hc, hmark⟩ := he.holds.head? he.isPrefix
      exact absurd hmark (hrest c hc)
    | exponent hm' htext' he' =>
      obtain rfl := hm.eq hm'
      obtain rfl := List.append_cancel_left (htext.trans htext'.symm)
      rw [he.eq he']

theorem LeadingNumber.rest_eq {text m m' rest rest' : List Char} (h : LeadingNumber text m)
    (h' : LeadingNumber text m') (htext : m ++ rest = text) (htext' : m' ++ rest' = text) :
    rest = rest' := by
  obtain rfl := h.eq h'
  exact List.append_cancel_left (htext.trans htext'.symm)

/-- A text begins with no number if the exponent behind its decimal has no digits. -/
theorem not_leadingNumber {text m mark rest : List Char} (hm : IsLongest IsDecimal text m)
    (htext : m ++ (mark ++ rest) = text) (hmark : IsExponentMark mark)
    (hnone : ∀ e, e <+: mark ++ rest → ¬ IsMarkedExponent e) (m' : List Char) :
    ¬ LeadingNumber text m' := by
  intro h
  cases h with
  | decimal hm' htext' hrest =>
    obtain rfl := hm.eq hm'
    obtain rfl := List.append_cancel_left (htext.trans htext'.symm)
    obtain ⟨c, hc, hletter⟩ := head?_of_isExponentMark hmark (List.prefix_append mark rest)
    exact hrest c hc hletter
  | exponent hm' htext' he =>
    obtain rfl := hm.eq hm'
    obtain rfl := List.append_cancel_left (htext.trans htext'.symm)
    exact hnone _ he.isPrefix he.holds

theorem NumeralKind.eq {text : List Char} {k k' : TokenKind} (h : NumeralKind text k)
    (h' : NumeralKind text k') : k = k' := by
  cases h with
  | integer htext hv =>
    cases h' with
    | integer _ hv' => rw [Int64.toInt_inj.mp (hv.trans hv'.symm)]
    | number htext' => exact absurd htext htext'
  | number htext =>
    cases h' with
    | integer htext' => exact absurd htext' htext
    | number => rfl

/-- The grammar allows one reading of a text. -/
theorem NumberScan.eq {text : List Char} {s s' : Scan} (h : NumberScan text s)
    (h' : NumberScan text s') : s = s' := by
  cases h with
  | token hm htext hrest hk =>
    cases h' with
    | token hm' htext' _ hk' =>
      obtain rfl := hm.rest_eq hm' htext htext'
      obtain rfl := hm.eq hm'
      rw [hk.eq hk']
    | malformed hm' htext' hc =>
      obtain rfl := hm.rest_eq hm' htext htext'
      exact absurd hc (by simp [hrest _ rfl])
    | missingExponent hm' htext' hmark hnone =>
      exact absurd hm (not_leadingNumber hm' htext' hmark.holds hnone _)
  | malformed hm htext hc =>
    cases h' with
    | token hm' htext' hrest =>
      obtain rfl := hm.rest_eq hm' htext htext'
      exact absurd hc (by simp [hrest _ rfl])
    | malformed hm' htext' =>
      cases hm.rest_eq hm' htext htext'
      rw [hm.eq hm']
    | missingExponent hm' htext' hmark hnone =>
      exact absurd hm (not_leadingNumber hm' htext' hmark.holds hnone _)
  | missingExponent hm htext hmark hnone =>
    cases h' with
    | token hm' => exact absurd hm' (not_leadingNumber hm htext hmark.holds hnone _)
    | malformed hm' => exact absurd hm' (not_leadingNumber hm htext hmark.holds hnone _)
    | missingExponent hm' htext' hmark' =>
      obtain rfl := hm.eq hm'
      have hbehind := List.append_cancel_left (htext.trans htext'.symm)
      obtain rfl := hmark.eq (hbehind ▸ hmark')
      rw [List.append_cancel_left hbehind]

theorem NumberScan.exists_numeralKind {text : List Char} {s : Scan} {k : TokenKind}
    (h : NumberScan text s) (hk : s.found = .ok k) : ∃ m, NumeralKind m k := by
  cases h with
  | token _ _ _ hkind =>
    cases hk
    exact ⟨_, hkind⟩
  | malformed => cases hk
  | missingExponent => cases hk

/-! ## The reading of the lexer -/

namespace Lexer

theorem prefix_takeWhile {digits text : List Char} (hd : ∀ c ∈ digits, c.isDigit = true)
    (hbegins : digits <+: text) : digits <+: text.takeWhile Char.isDigit := by
  obtain ⟨rest, rfl⟩ := hbegins
  rw [List.takeWhile_append_of_pos hd]
  exact List.prefix_append ..

theorem splitFraction_dot {digits rest : List Char} (hd : IsDigits digits) :
    (splitFraction ('.' :: (digits ++ rest))).1 =
      '.' :: (digits ++ rest).takeWhile Char.isDigit := by
  have hne : (digits ++ rest).takeWhile Char.isDigit ≠ [] :=
    (prefix_takeWhile hd.isDigit (List.prefix_append digits rest)).ne_nil hd.ne_nil
  simp only [splitFraction]

theorem isLongest_decimal {text : List Char} (hw : text.takeWhile Char.isDigit ≠ []) :
    IsLongest IsDecimal text
      (text.takeWhile Char.isDigit ++ (splitFraction (text.dropWhile Char.isDigit)).1) where
  isPrefix := by
    refine ⟨(splitFraction (text.dropWhile Char.isDigit)).2, ?_⟩
    rw [List.append_assoc, splitFraction_append, List.takeWhile_append_dropWhile]
  holds := ⟨_, _, isDigits_takeWhile hw, isFraction_splitFraction _, rfl⟩
  longest := by
    rintro other hbegins ⟨whole, fraction, hwhole, rfl | ⟨digits, hdigits, rfl⟩, rfl⟩
    · rw [List.append_nil] at hbegins
      have hlength := (prefix_takeWhile hwhole.isDigit hbegins).length_le
      simp only [List.length_append, List.length_nil]
      omega
    · obtain ⟨rest, rfl⟩ := hbegins
      have hdot : ∀ c ∈ ('.' :: (digits ++ rest)).head?, c.isDigit = false := by
        rintro _ ⟨⟩
        decide
      have hlength := (prefix_takeWhile hdigits.isDigit (List.prefix_append digits rest)).length_le
      rw [List.append_assoc, List.cons_append, takeWhile_append hwhole.isDigit hdot,
        dropWhile_append hwhole.isDigit hdot, splitFraction_dot hdigits]
      simp only [List.length_append, List.length_cons]
      omega

theorem isLongest_mark {text : List Char} (hm : (splitExponentMark text).1 ≠ []) :
    IsLongest IsExponentMark text (splitExponentMark text).1 where
  isPrefix := ⟨_, splitExponentMark_append text⟩
  holds := isExponentMark_splitExponentMark hm
  longest := by
    rintro other ⟨rest, rfl⟩ ⟨e, he, rfl | rfl | rfl⟩
    · exact List.length_pos_iff.mpr hm
    · simp [splitExponentMark, he]
    · simp [splitExponentMark, he]

theorem isLongest_exponent {text : List Char} (hm : (splitExponentMark text).1 ≠ [])
    (hd : (splitExponentMark text).2.takeWhile Char.isDigit ≠ []) :
    IsLongest IsMarkedExponent text
      ((splitExponentMark text).1 ++ (splitExponentMark text).2.takeWhile Char.isDigit) where
  isPrefix := by
    refine ⟨(splitExponentMark text).2.dropWhile Char.isDigit, ?_⟩
    rw [List.append_assoc, List.takeWhile_append_dropWhile, splitExponentMark_append]
  holds := ⟨_, _, isExponentMark_splitExponentMark hm, isDigits_takeWhile hd, rfl⟩
  longest := by
    rintro other ⟨rest, rfl⟩ ⟨mark, digits, hmark, hdigits, rfl⟩
    have hlength := (prefix_takeWhile hdigits.isDigit (List.prefix_append digits rest)).length_le
    rw [List.append_assoc, splitExponentMark_append_mark rest hmark hdigits]
    simp only [List.length_append]
    omega

theorem not_isMarkedExponent {text : List Char}
    (hd : (splitExponentMark text).2.takeWhile Char.isDigit = []) {e : List Char}
    (hbegins : e <+: text) : ¬ IsMarkedExponent e := by
  obtain ⟨rest, rfl⟩ := hbegins
  rintro ⟨mark, digits, hmark, hdigits, rfl⟩
  rw [List.append_assoc, splitExponentMark_append_mark rest hmark hdigits] at hd
  have hbegins := prefix_takeWhile hdigits.isDigit (List.prefix_append digits rest)
  exact hbegins.ne_nil hdigits.ne_nil hd

theorem splitExponentMark_eq_of_nil {text : List Char} (hm : (splitExponentMark text).1 = []) :
    (splitExponentMark text).2 = text ∧ ∀ c ∈ text.head?, ¬ (c = 'e' ∨ c = 'E') := by
  have happend := splitExponentMark_append text
  rw [hm, List.nil_append] at happend
  refine ⟨happend, fun c hc he => ?_⟩
  obtain ⟨rest, rfl⟩ := List.head?_eq_some_iff.mp hc
  simp only [splitExponentMark, if_pos he] at hm
  split at hm <;> cases hm

theorem decimalValue_eq (digits : List Char) : decimalValue digits = Nat.ofDigitChars 10 digits 0 :=
  Nat.ofDigitChars_eq_foldl.symm

theorem numeralKind_integerKind {whole : List Char} (h : IsDigits whole) :
    NumeralKind whole (integerKind whole) := by
  unfold integerKind
  rw [decimalValue_eq]
  split
  · rename_i hlt
    have hvalue : Nat.ofDigitChars 10 whole 0 ≤ 0x7FFFFFFFFFFFFFFF := by omega
    exact .integer ⟨h.isDigit, hvalue⟩ (Int64.toInt_ofNat_of_lt (by omega))
  · rename_i hlt
    exact .number fun ⟨_, hvalue⟩ => hlt (by omega)

/-- A dot or an exponent mark is no digit. -/
theorem not_isIntegerText {whole fraction exponent : List Char} (hf : IsFraction fraction)
    (he : IsExponent exponent) (hne : ¬ (fraction = [] ∧ exponent = [])) :
    ¬ IsIntegerText (whole ++ fraction ++ exponent) := by
  rintro ⟨hdigits, -⟩
  obtain rfl | ⟨_, -, rfl⟩ := hf
  · obtain rfl | ⟨mark, digits, hmark, -, rfl⟩ := he
    · exact hne ⟨rfl, rfl⟩
    · obtain ⟨e, he, hhead⟩ : ∃ e, (e = 'e' ∨ e = 'E') ∧ e ∈ mark := by
        obtain ⟨e, he, rfl | rfl | rfl⟩ := hmark <;> exact ⟨e, he, List.mem_cons_self⟩
      have hdigit := hdigits e (by simp [hhead])
      obtain rfl | rfl := he <;> exact absurd hdigit (by decide)
  · exact absurd (hdigits '.' (by simp)) (by decide)

theorem numeralKind_numberKind {whole fraction exponent : List Char}
    (h : NumberText whole fraction exponent) :
    NumeralKind (whole ++ fraction ++ exponent) (numberKind whole fraction exponent) := by
  unfold numberKind
  split
  · rename_i hnil
    obtain ⟨rfl, rfl⟩ := hnil
    rw [List.append_nil, List.append_nil]
    exact numeralKind_integerKind h.whole
  · exact .number (not_isIntegerText h.fraction h.exponent ‹_›)

theorem numberScan_endNumber {text m rest : List Char} {k : TokenKind} (hm : LeadingNumber text m)
    (htext : m ++ rest = text) (hk : NumeralKind m k) : NumberScan text (endNumber k m rest) := by
  unfold endNumber
  split
  · split
    · exact .malformed hm htext ‹_›
    · rename_i hc
      exact .token hm htext (by simpa using hc) hk
  · exact .token hm htext (by simp) hk

section Exponent

variable {text whole fraction behind : List Char}

/-- Without an exponent mark behind it, the decimal is the number. -/
theorem numberScan_decimal (hdecimal : IsLongest IsDecimal text (whole ++ fraction))
    (hwhole : IsDigits whole) (hfraction : IsFraction fraction)
    (htext : whole ++ fraction ++ behind = text)
    (hhead : ∀ c ∈ behind.head?, ¬ (c = 'e' ∨ c = 'E')) :
    NumberScan text (endNumber (numberKind whole fraction []) (whole ++ fraction) behind) := by
  have hkind := numeralKind_numberKind ⟨hwhole, hfraction, .inl rfl⟩
  rw [List.append_nil] at hkind
  exact numberScan_endNumber (.decimal hdecimal htext hhead) htext hkind

theorem numberScan_missingExponent (hdecimal : IsLongest IsDecimal text (whole ++ fraction))
    (htext : whole ++ fraction ++ behind = text) (hm : (splitExponentMark behind).1 ≠ [])
    (hd : (splitExponentMark behind).2.takeWhile Char.isDigit = []) :
    NumberScan text ⟨.error .missingExponent, whole ++ fraction ++ (splitExponentMark behind).1,
      (splitExponentMark behind).2⟩ := by
  have hmark := splitExponentMark_append behind
  refine .missingExponent hdecimal ?_ ?_ ?_
  · rw [hmark, htext]
  · rw [hmark]
    exact isLongest_mark hm
  · rw [hmark]
    exact fun e => not_isMarkedExponent hd

theorem numberScan_exponent (hdecimal : IsLongest IsDecimal text (whole ++ fraction))
    (hwhole : IsDigits whole) (hfraction : IsFraction fraction)
    (htext : whole ++ fraction ++ behind = text) (hm : (splitExponentMark behind).1 ≠ [])
    (hd : (splitExponentMark behind).2.takeWhile Char.isDigit ≠ []) {exponent : List Char}
    (hexponent : (splitExponentMark behind).1 ++
      (splitExponentMark behind).2.takeWhile Char.isDigit = exponent) :
    NumberScan text
      (endNumber (numberKind whole fraction exponent) (whole ++ fraction ++ exponent)
        ((splitExponentMark behind).2.dropWhile Char.isDigit)) := by
  subst hexponent
  have hlongest := isLongest_exponent hm hd
  have hkind := numeralKind_numberKind ⟨hwhole, hfraction, .inr ⟨_, _,
    isExponentMark_splitExponentMark hm, isDigits_takeWhile hd, rfl⟩⟩
  refine numberScan_endNumber (.exponent hdecimal htext hlongest) ?_ hkind
  rw [List.append_assoc, List.append_assoc (splitExponentMark behind).1,
    List.takeWhile_append_dropWhile, splitExponentMark_append, htext]

end Exponent

theorem numberScan_scanNumber {text : List Char} (hw : text.takeWhile Char.isDigit ≠ []) :
    NumberScan text (scanNumber text) := by
  have hdecimal := isLongest_decimal hw
  have hwhole := isDigits_takeWhile hw
  have hfraction := isFraction_splitFraction (text.dropWhile Char.isDigit)
  have htext : text.takeWhile Char.isDigit ++ (splitFraction (text.dropWhile Char.isDigit)).1 ++
      (splitFraction (text.dropWhile Char.isDigit)).2 = text := by
    rw [List.append_assoc, splitFraction_append, List.takeWhile_append_dropWhile]
  simp only [scanNumber]
  split
  · rename_i hm
    obtain ⟨hbehind, hhead⟩ := splitExponentMark_eq_of_nil hm
    rw [hm, hbehind, List.append_nil]
    simpa [numberKind] using numberScan_decimal hdecimal hwhole hfraction htext hhead
  · rename_i hm
    split
    · rename_i hd
      exact numberScan_missingExponent hdecimal htext hm hd
    · rename_i hd
      have hexponent := numberScan_exponent hdecimal hwhole hfraction htext hm hd rfl
      simpa [numberKind, hm] using hexponent

/-- The literal that a number stands for, and what it is written as. -/
theorem exists_literal_of_numeralKind {text m : List Char} {k : TokenKind}
    (hfound : (scan text).found = .ok k) (hk : NumeralKind m k) :
    ∃ value : Literal, (∀ d, Parser.literal? d k = some value) ∧
      ∀ names, SqlDialects.tokenize (value.text names) =
        .ok (Token.alone k (value.text names)) := by
  have hlexed : (Token.bare k "").IsLexed := ⟨text, hfound⟩
  cases hk with
  | @integer v =>
    have hread : (Literal.integer v).ReadsBack .generic :=
      Literal.readsBack_of_isLexed hlexed rfl
    have hkind : (Literal.integer v).piece.kind? = some (.integer v) := by
      simp [Literal.piece, Piece.kind?]
    exact ⟨.integer v, fun _ => rfl, Literal.tokenize_text hread.1 hkind⟩
  | number =>
    have hread : (Literal.number (.ofList m)).ReadsBack .generic :=
      Literal.readsBack_of_isLexed hlexed rfl
    exact ⟨.number (.ofList m), fun _ => rfl, Literal.tokenize_text hread.1 rfl⟩

/-- A text that begins with a digit is read as the grammar tells: as its number, or with the error
that the grammar names. The literal that the number stands for is written as the same kind of
token. -/
theorem next_number {c : Char} (hc : c.isDigit = true) (tail : List Char) :
    (∃ s, NumberScan (c :: tail) s) ∧ ∀ s, NumberScan (c :: tail) s →
      (∀ offset, next ⟨offset, c :: tail⟩ = s.readAt offset) ∧
        ∀ k, s.found = .ok k → ∃ value : Literal, (∀ d, Parser.literal? d k = some value) ∧
          ∀ names, SqlDialects.tokenize (value.text names) =
            .ok (Token.alone k (value.text names)) := by
  have hwhole : (c :: tail).takeWhile Char.isDigit ≠ [] := by simp [hc]
  have hscan := numberScan_scanNumber hwhole
  rw [← scan_of_isDigit hc] at hscan
  refine ⟨⟨_, hscan⟩, fun s hs => ?_⟩
  obtain rfl := hscan.eq hs
  refine ⟨fun offset => next_of_scan (skipFrom_of_isDigit hc offset tail) rfl, fun k hk => ?_⟩
  obtain ⟨m, hkind⟩ := hscan.exists_numeralKind hk
  exact exists_literal_of_numeralKind hk hkind

/-- A number with zeros before it, and a sign behind its exponent. -/
theorem next_scaledNumber :
    '0'.isDigit = true ∧
      NumberScan "07.50e+3/x".toList ⟨.ok (.number "07.50e+3"), "07.50e+3".toList, ['/', 'x']⟩ ∧
        next ⟨0, "07.50e+3/x".toList⟩ =
          (.ok ⟨.number "07.50e+3", ⟨0, 8⟩, "07.50e+3"⟩, ⟨8, ['/', 'x']⟩) := by
  have hscan : NumberScan "07.50e+3/x".toList (scanNumber "07.50e+3/x".toList) :=
    numberScan_scanNumber (by decide)
  have hread : scanNumber "07.50e+3/x".toList =
      ⟨.ok (.number "07.50e+3"), "07.50e+3".toList, ['/', 'x']⟩ := by rfl
  rw [hread] at hscan
  refine ⟨by decide, hscan, ?_⟩
  have hdigit : '0'.isDigit = true := by decide
  exact ((next_number hdigit "7.50e+3/x".toList).2 _ hscan).1 0

end Lexer

end SqlDialects
