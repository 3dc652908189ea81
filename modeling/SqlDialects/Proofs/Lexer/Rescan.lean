import SqlDialects.Lexer.Tokenize
import SqlDialects.Proofs.Lexer.Characters

/-!
# Reading a token whose text is known

What the lexer finds where the text of a sign, a word, a quoted name or a string stands, and nothing
behind it continues the token.
-/

namespace SqlDialects

/-- No longer sign and no comment begins with the sign and the character behind it. -/
def Symbol.EndsBefore (s : Symbol) (next : Option Char) : Prop :=
  match s with
  | .eq | .gt => next ≠ some '='
  | .lt => next ≠ some '=' ∧ next ≠ some '>'
  | .minus => next ≠ some '-'
  | .slash => next ≠ some '*'
  | _ => True

/-- What is read at an offset: the token or the error with its span, and the place behind it. -/
def Scan.readAt (s : Scan) (offset : Nat) : Except LexError Token × Lexer :=
  let span : Span := ⟨offset, offset + byteLength s.read⟩
  (match s.found with
    | .ok kind => .ok ⟨kind, span, .ofList s.read⟩
    | .error cause => .error ⟨cause, span⟩,
   ⟨span.stop, s.rest⟩)

namespace Lexer

/-! ## Blanks -/

theorem skipFrom_of_not_blank {c : Char} {rest : List Char} (offset : Nat)
    (hw : Unicode.isWhiteSpace c = false) (hm : c = '-' → rest.head? ≠ some '-')
    (hs : c = '/' → rest.head? ≠ some '*') :
    skipFrom .between offset (c :: rest) = .ok ⟨offset, c :: rest⟩ := by
  unfold skipFrom
  split <;> simp_all

theorem skipFrom_of_isDigit {c : Char} (hc : c.isDigit = true) (offset : Nat) (rest : List Char) :
    skipFrom .between offset (c :: rest) = .ok ⟨offset, c :: rest⟩ := by
  have hascii : c.toNat < 128 := Nat.lt_of_le_of_lt (Char.isDigit_iff_toNat.mp hc).2 (by decide)
  refine skipFrom_of_not_blank offset ?_ (fun he => ?_) (fun he => ?_)
  · exact forall_ascii (P := fun c => c.isDigit = true → Unicode.isWhiteSpace c = false)
      (by decide) c hascii hc
  · exact absurd hc (by rw [he]; decide)
  · exact absurd hc (by rw [he]; decide)

theorem skipFrom_of_quote {quote : Char} (hq : quote = '\x60' ∨ quote = '\x27' ∨ quote = '\x22')
    (offset : Nat) (rest : List Char) :
    skipFrom .between offset (quote :: rest) = .ok ⟨offset, quote :: rest⟩ := by
  refine skipFrom_of_not_blank offset ?_ (fun he => ?_) (fun he => ?_) <;>
    rcases hq with rfl | rfl | rfl <;> first | decide | cases he

/-- Where no blank lies, the next token is what the scan finds. -/
theorem next_of_scan {offset : Nat} {text : List Char} {s : Scan}
    (hskip : skipFrom .between offset text = .ok ⟨offset, text⟩) (hscan : scan text = s) :
    next ⟨offset, text⟩ = s.readAt offset := by
  subst hscan
  rw [next, skipBlanks, hskip]
  rfl

/-! ## Signs -/

theorem scan_symbol (s : Symbol) {rest : List Char} (h : s.EndsBefore rest.head?) :
    scan (s.text.toList ++ rest) = ⟨.ok (.symbol s), s.text.toList, rest⟩ := by
  have hlead : leadingSymbol? (s.text.toList ++ rest) = some (s, s.text.toList.length) := by
    rcases rest with _ | ⟨c, rest⟩ <;> cases s <;>
      simp_all [Symbol.text, Symbol.EndsBefore, leadingSymbol?]
  obtain ⟨c, text, hc⟩ : ∃ c text, s.text.toList = c :: text := by
    cases s <;> exact ⟨_, _, rfl⟩
  rw [hc, List.cons_append] at hlead ⊢
  simp only [scan, hlead]
  simp

/-! ## Words -/

theorem takeWhile_append {p : Char → Bool} {text rest : List Char} (h : ∀ c ∈ text, p c = true)
    (hr : ∀ c ∈ rest.head?, p c = false) : (text ++ rest).takeWhile p = text := by
  rw [List.takeWhile_append_of_pos h]
  cases rest with
  | nil => simp
  | cons c rest => simp [hr c rfl]

theorem dropWhile_append {p : Char → Bool} {text rest : List Char} (h : ∀ c ∈ text, p c = true)
    (hr : ∀ c ∈ rest.head?, p c = false) : (text ++ rest).dropWhile p = rest := by
  rw [List.dropWhile_append_of_pos h]
  cases rest with
  | nil => simp
  | cons c rest => simp [hr c rfl]

theorem isBareWord_iff {w : String} :
    isBareWord w = true ↔
      ∃ c text, w.toList = c :: text ∧ isWordStart c = true ∧ ∀ x ∈ w.toList, isWordPart x = true := by
  unfold isBareWord
  cases w.toList with
  | nil => simp
  | cons c text =>
    simp only [Bool.and_eq_true, List.all_eq_true, List.cons.injEq, List.forall_mem_cons]
    constructor
    · rintro ⟨hc, ht⟩
      exact ⟨c, text, ⟨rfl, rfl⟩, hc, isWordPart_of_isWordStart hc, ht⟩
    · rintro ⟨_, _, ⟨rfl, rfl⟩, hc, -, ht⟩
      exact ⟨hc, ht⟩

theorem scan_word {w : String} {rest : List Char} (hw : isBareWord w = true)
    (hr : ∀ c ∈ rest.head?, isWordPart c = false) :
    scan (w.toList ++ rest) = ⟨.ok (wordKind w), w.toList, rest⟩ := by
  obtain ⟨c, text, hc, hstart, hall⟩ := isBareWord_iff.mp hw
  have hscan : scanWord (w.toList ++ rest) = ⟨.ok (wordKind w), w.toList, rest⟩ := by
    simp only [scanWord, takeWhile_append hall hr, dropWhile_append hall hr, String.ofList_toList]
  have hquote : ¬ (c = '\x27' ∨ c = '\x22') := by
    rintro (rfl | rfl) <;> revert hstart <;> decide
  have hback : c ≠ '\x60' := ne_of_isWordStart hstart (by decide)
  rw [hc, List.cons_append] at hscan ⊢
  simp only [scan, leadingSymbol?_of_isWordStart _ hstart, hquote, hback, if_false,
    isDigit_of_isWordStart hstart, Bool.false_eq_true, hstart, if_true, hscan]

/-! ## Quoted names -/

theorem splitName_double {quote : Char} (name : List Char) {rest : List Char}
    (hr : rest.head? ≠ some quote) :
    splitName quote (double quote name ++ quote :: rest) = some (name, rest) := by
  induction name with
  | nil =>
    cases rest with
    | nil => simp [double, splitName]
    | cons d rest =>
      have hd : d ≠ quote := by simpa using hr
      simp [double, splitName, hd]
  | cons c name ih =>
    by_cases hc : c = quote
    · simp [double, hc, splitName, ih]
    · rw [double, if_neg hc, List.cons_append]
      cases hd : double quote name ++ quote :: rest with
      | nil => simp at hd
      | cons d text =>
        rw [hd] at ih
        simp [splitName, hc, ih]

theorem scan_name (name : String) {rest : List Char} (hr : rest.head? ≠ some '\x60') :
    scan (quoted '\x60' name.toList ++ rest) =
      ⟨.ok (.identifier name), quoted '\x60' name.toList, rest⟩ := by
  have htext : quoted '\x60' name.toList ++ rest =
      '\x60' :: (double '\x60' name.toList ++ '\x60' :: rest) := by simp [quoted]
  rw [htext]
  simp only [scan, leadingSymbol?_eq_none _ (by decide : '\x60' ∉ _)]
  simp [scanName, splitName_double _ hr]

/-! ## Strings -/

/-- The bodies of strings: an escape with the character behind it, a doubled quote, or any other
character, as often as one likes. -/
inductive StringBody (quote : Char) : List Char → Prop
  | nil : StringBody quote []
  | escape (c : Char) {body : List Char} (h : StringBody quote body) :
    StringBody quote ('\\' :: c :: body)
  | doubled {body : List Char} (h : StringBody quote body) :
    StringBody quote (quote :: quote :: body)
  | plain {c : Char} {body : List Char} (hc : c ≠ quote) (he : c ≠ '\\') (h : StringBody quote body) :
    StringBody quote (c :: body)

theorem splitString_body {quote : Char} {body rest : List Char} (hq : quote ≠ '\\')
    (h : StringBody quote body) (hr : rest.head? ≠ some quote) :
    splitString quote (body ++ quote :: rest) = some (body, rest) := by
  induction h with
  | nil =>
    cases rest with
    | nil => simp [splitString]
    | cons d rest =>
      have hd : d ≠ quote := by simpa using hr
      simp [splitString, hd, hq]
  | escape c _ ih => simp [splitString, ih]
  | doubled _ ih => simp [splitString, ih]
  | @plain c body hc he _ ih =>
    rw [List.cons_append]
    cases hd : body ++ quote :: rest with
    | nil => simp at hd
    | cons d text =>
      rw [hd] at ih
      simp [splitString, hc, he, ih]

theorem stringBody_of_splitString {quote : Char} {text body rest : List Char}
    (h : splitString quote text = some (body, rest)) :
    StringBody quote body ∧ rest.head? ≠ some quote := by
  fun_induction splitString quote text generalizing body rest with
  | case1 c d text hpair ih =>
    obtain ⟨⟨body', rest'⟩, hs, ⟨⟩⟩ := Option.map_eq_some_iff.mp h
    obtain ⟨hb, hr⟩ := ih hs
    obtain rfl | ⟨rfl, rfl⟩ := hpair
    · exact ⟨.escape _ hb, hr⟩
    · exact ⟨.doubled hb, hr⟩
  | case2 d text hpair =>
    cases h
    exact ⟨.nil, by simpa using fun hd => hpair (.inr ⟨rfl, hd⟩)⟩
  | case3 c d text hpair hc ih =>
    obtain ⟨⟨body', rest'⟩, hs, ⟨⟩⟩ := Option.map_eq_some_iff.mp h
    obtain ⟨hb, hr⟩ := ih hs
    exact ⟨.plain hc (fun he => hpair (.inl he)) hb, hr⟩
  | case4 => cases h; exact ⟨.nil, by simp⟩
  | case5 c hc => cases h
  | case6 => cases h

theorem scan_string {quote : Char} (hq : quote = '\x27' ∨ quote = '\x22') {body : String}
    {rest : List Char} (h : StringBody quote body.toList) (hr : rest.head? ≠ some quote) :
    scan (quote :: body.toList ++ quote :: rest) =
      ⟨.ok (.string body quote), quote :: body.toList ++ [quote], rest⟩ := by
  have hlead : leadingSymbol? (quote :: body.toList ++ quote :: rest) = none :=
    leadingSymbol?_eq_none _ (by rcases hq with rfl | rfl <;> decide)
  have hescape : quote ≠ '\\' := by rcases hq with rfl | rfl <;> decide
  rw [List.cons_append] at hlead ⊢
  simp only [scan, hlead, hq, if_true, scanString, splitString_body hescape h hr,
    String.ofList_toList]

end Lexer

end SqlDialects
