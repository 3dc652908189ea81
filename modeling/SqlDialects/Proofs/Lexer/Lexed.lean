import SqlDialects.Proofs.Lexer.Pieces
import SqlDialects.Proofs.Parser.Text

/-!
# Literals that were read can be written

The tokens of a text are what the lexer found somewhere in it. A literal that is such a token is
written as a piece that is read as the same literal again.
-/

namespace SqlDialects

/-- The token is what the lexer finds at the head of some text. -/
def Token.IsLexed (t : Token) : Prop :=
  ∃ text, (Lexer.scan text).found = .ok t.kind

namespace Lexer

theorem isLexed_of_next {l l' : Lexer} {t : Token} (h : l.next = (.ok t, l')) : t.IsLexed := by
  unfold next at h
  split at h
  · rename_i start _
    unfold readToken at h
    cases hs : (scan start.rest).found with
    | ok kind =>
      simp only [hs, Prod.mk.injEq, Except.ok.injEq] at h
      exact ⟨start.rest, by rw [hs, ← h.1]⟩
    | error cause => simp [hs] at h
  · simp at h

/-- What holds of every token that the lexer finds holds of all that it returns; the last of them,
and no other, is the end of input. -/
theorem exists_append_of_tokenize {P : Token → Prop}
    (hP : ∀ ⦃l l' : Lexer⦄ ⦃t : Token⦄, l.next = (.ok t, l') → P t)
    {l l' : Lexer} {ts : List Token} (h : l.tokenize = (.ok ts, l')) :
    ∃ us t, ts = us ++ [t] ∧ (t.kind = .endOfInput ∧ P t) ∧
      ∀ u ∈ us, u.kind ≠ .endOfInput ∧ P u := by
  induction hn : l.rest.length using Nat.strong_induction_on generalizing l l' ts with
  | h n ih =>
    rw [tokenize_eq] at h
    split at h
    · cases h
    · rename_i t l₁ hnext
      split at h
      · cases h
        exact ⟨[], t, rfl, ⟨‹_›, hP hnext⟩, by simp⟩
      · rename_i ht
        split at h
        · cases h
        · rename_i ts' l₂ htokenize
          cases h
          have hlt := rest_length_lt_of_next hnext ht
          obtain ⟨us, u, rfl, hu, hus⟩ := ih _ (hn ▸ hlt) htokenize rfl
          refine ⟨t :: us, u, rfl, hu, ?_⟩
          rw [List.forall_mem_cons]
          exact ⟨⟨ht, hP hnext⟩, hus⟩

/-- What a token can be. -/
theorem found_cases {text : List Char} {k : TokenKind} (h : (scan text).found = .ok k) :
    k = .endOfInput ∨ (∃ s, k = .symbol s) ∨ (∃ name, k = .identifier name) ∨
      (∃ w, k = .keyword w) ∨
      (∃ whole fraction exponent, NumberText whole fraction exponent ∧
        k = numberKind whole fraction exponent) ∨
      ∃ body quote, (quote = '\x27' ∨ quote = '\x22') ∧ StringBody quote body.toList ∧
        k = .string body quote := by
  cases text with
  | nil => cases h; exact .inl rfl
  | cons c rest =>
    simp only [scan] at h
    split at h
    · cases h
      exact .inr (.inl ⟨_, rfl⟩)
    · split at h
      · rename_i hquote
        unfold scanString at h
        split at h
        · rename_i body rest' hs
          cases h
          exact .inr (.inr (.inr (.inr (.inr ⟨_, c, hquote, by
            simpa using (stringBody_of_splitString hs).1, rfl⟩))))
        · cases h
      · split at h
        · unfold scanName at h
          split at h
          · cases h
            exact .inr (.inr (.inl ⟨_, rfl⟩))
          · cases h
        · split at h
          · rename_i hd
            obtain ⟨w, f, e, hn, -, hk⟩ := numberText_of_scanNumber hd h
            exact .inr (.inr (.inr (.inr (.inl ⟨w, f, e, hn, hk⟩))))
          · split at h
            · unfold scanWord at h
              cases h
              unfold wordKind
              split
              · exact .inr (.inr (.inr (.inl ⟨_, rfl⟩)))
              · exact .inr (.inr (.inl ⟨_, rfl⟩))
            · cases h

/-- A string that was found has one of the two quotes, and a body in which nothing closes it. -/
theorem stringBody_of_found {text : List Char} {body : String} {quote : Char}
    (h : (scan text).found = .ok (.string body quote)) :
    (quote = '\x27' ∨ quote = '\x22') ∧ StringBody quote body.toList := by
  obtain hk | ⟨_, hk⟩ | ⟨_, hk⟩ | ⟨_, hk⟩ | ⟨_, _, _, -, hk⟩ | ⟨_, _, hq, hb, hk⟩ := found_cases h
  · cases hk
  · cases hk
  · cases hk
  · cases hk
  · unfold numberKind integerKind at hk
    split at hk
    · split at hk <;> cases hk
    · cases hk
  · cases hk
    exact ⟨hq, hb⟩

end Lexer

/-- A list that ends with its first end of input is the stream of what stands before that. -/
theorem TokenStream.ofList_append {us : List Token} {t : Token}
    (hus : ∀ u ∈ us, u.kind ≠ .endOfInput) (ht : t.kind = .endOfInput) :
    ofList (us ++ [t]) = ⟨us, t.span, t.lexeme⟩ :=
  ofList_append_cons hus ht

/-- What holds of every token that the lexer finds holds of the stream of a text. -/
theorem TokenStream.within_ofList {P : Token → Prop}
    (hP : ∀ ⦃l l' : Lexer⦄ ⦃t : Token⦄, l.next = (.ok t, l') → t.kind ≠ .endOfInput → P t)
    {text : String} {ts : List Token} (h : tokenize text = .ok ts) :
    (ofList ts).Within P ∧ ∃ t, t.kind = .endOfInput ∧ ts = (ofList ts).rest ++ [t] := by
  have htokens : (Lexer.ofString text).tokenize = (.ok ts, (Lexer.ofString text).tokenize.2) :=
    Prod.ext h rfl
  obtain ⟨us, t, rfl, ⟨ht, -⟩, hus⟩ := Lexer.exists_append_of_tokenize hP htokens
  rw [ofList_append (fun u hu => (hus u hu).1) ht]
  refine ⟨fun u hu => ?_, t, ht, rfl⟩
  obtain ⟨hne, hu⟩ := hus u hu
  exact hu hne

theorem TokenStream.ofText_eq_ok {text : String} {s : TokenStream} :
    ofText text = .ok s ↔ ∃ ts, tokenize text = .ok ts ∧ s = ofList ts := by
  unfold ofText
  cases tokenize text with
  | error e => simp [Except.map]
  | ok ts => simp [Except.map, eq_comm]

/-- The tokens of a stream that is read from a text are lexed. -/
theorem TokenStream.within_ofText {text : String} {s : TokenStream}
    (h : TokenStream.ofText text = .ok s) : s.Within Token.IsLexed := by
  obtain ⟨ts, hts, rfl⟩ := ofText_eq_ok.mp h
  exact (within_ofList (fun _ _ _ hnext _ => Lexer.isLexed_of_next hnext) hts).1

/-- The literal is written as one piece that is read as the literal. -/
def Literal.ReadsBack (d : Dialect) (value : Literal) : Prop :=
  value.piece.Legible ∧ ∃ k, value.piece.kind? = some k ∧ Parser.literal? d k = some value

namespace Lexer

/-- An integer that was read is not negative. -/
theorem toInt_of_numberKind {whole fraction exponent : List Char} {value : Int64}
    (h : numberKind whole fraction exponent = .integer value) :
    0 ≤ value.toInt ∧ value.toInt < 0x8000000000000000 := by
  unfold numberKind at h
  split at h
  · unfold integerKind at h
    split at h
    · rename_i hlt
      cases h
      rw [Int64.toInt_ofNat_of_lt (by simpa using hlt)]
      omega
    · cases h
  · cases h

theorem toList_of_numberKind {whole fraction exponent : List Char} {text : String}
    (h : numberKind whole fraction exponent = .number text) :
    text.toList = whole ++ fraction ++ exponent := by
  unfold numberKind at h
  split at h
  · rename_i hnil
    unfold integerKind at h
    split at h
    · cases h
    · cases h
      simp [hnil]
  · cases h
    simp

end Lexer

theorem Literal.readsBack_of_isLexed {d : Dialect} {t : Token} {value : Literal} (ht : t.IsLexed)
    (h : Parser.literal? d t.kind = some value) : value.ReadsBack d := by
  obtain ⟨text, ht⟩ := ht
  have hfound := Lexer.found_cases ht
  generalize t.kind = k at h ht hfound
  cases k with
  | integer n =>
    cases h
    obtain ⟨w, f, e, -, hk⟩ : ∃ w f e, NumberText w f e ∧ _ = Lexer.numberKind w f e := by
      simpa using hfound
    exact ⟨Lexer.toInt_of_numberKind hk.symm, _, rfl, by simp [Parser.literal?]⟩
  | number n =>
    cases h
    obtain ⟨w, f, e, hn, hk⟩ : ∃ w f e, NumberText w f e ∧ _ = Lexer.numberKind w f e := by
      simpa using hfound
    exact ⟨⟨w, f, e, hn, Lexer.toList_of_numberKind hk.symm, hk.symm⟩, _, rfl, rfl⟩
  | string body quote =>
    have hbody := Lexer.stringBody_of_found ht
    have hvalue := h
    simp only [Parser.literal?] at h
    split at h
    · cases h
    · cases h
      exact ⟨hbody, _, rfl, hvalue⟩
  | keyword w =>
    cases w <;> cases h <;> exact ⟨trivial, _, rfl, rfl⟩
  | _ => cases h

end SqlDialects
