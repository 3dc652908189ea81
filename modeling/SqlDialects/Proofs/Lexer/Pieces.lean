import SqlDialects.Proofs.Lexer.DoubleQuotes
import SqlDialects.Proofs.Lexer.Numbers
import SqlDialects.Proofs.Parser.Spans
import SqlDialects.Render.Pieces

/-!
# The tokens of a written text

Each piece but a space stands for one token. Where no piece runs into the character behind it, the
text of pieces is read as exactly the tokens that they stand for.
-/

namespace SqlDialects

/-- A token at no place in particular. -/
def Token.bare (kind : TokenKind) (lexeme : String) : Token :=
  ⟨kind, .at 0, lexeme⟩

namespace Piece

/-- What a piece stands for. -/
def kind? : Piece → Option TokenKind
  | .space => none
  | .mark m => some m.kind
  | .emptyAngles => some (.symbol .notEq)
  | .name body quote =>
    if quote = '\x60' then some (.identifier body)
    else some (.string (.ofList (double quote body.toList)) quote)
  | .word text => some (Lexer.wordKind text)
  | .integer value => some (.integer (.ofInt value))
  | .number text => some (.number text)
  | .string body quote => some (.string body quote)

def token? (p : Piece) : Option Token :=
  p.kind?.map fun k => .bare k (.ofList p.chars)

/-- The tokens that pieces stand for. -/
def tokens (pieces : List Piece) : List Token :=
  pieces.filterMap token?

@[simp] theorem tokens_nil : tokens [] = [] := rfl

@[simp] theorem tokens_space_cons (ps : List Piece) : tokens (.space :: ps) = tokens ps := rfl

@[simp] theorem tokens_append (a b : List Piece) : tokens (a ++ b) = tokens a ++ tokens b := by
  simp [tokens]

@[simp] theorem text_nil : text [] = [] := rfl

@[simp] theorem text_cons (p : Piece) (ps : List Piece) : text (p :: ps) = p.chars ++ text ps := rfl

@[simp] theorem text_append (a b : List Piece) : text (a ++ b) = text a ++ text b := by
  simp [text]

/-- The quotes that names are written in. -/
def IsQuote (quote : Char) : Prop :=
  quote = '\x60' ∨ quote = '\x22'

/-- The piece is read as one token where it stands alone, but for the name it may hold. -/
def Legible : Piece → Prop
  | .name _ quote => IsQuote quote
  | .word text => isBareWord text = true
  | .integer value => 0 ≤ value ∧ value < 0x8000000000000000
  | .number text =>
    ∃ whole fraction exponent, NumberText whole fraction exponent ∧
      text.toList = whole ++ fraction ++ exponent ∧
        Lexer.numberKind whole fraction exponent = .number text
  | .string body quote =>
    (quote = '\x27' ∨ quote = '\x22') ∧ Lexer.StringBody quote body.toList
  | _ => True

/-- The name in the piece can be written in its quotes. -/
def Quotable : Piece → Prop
  | .name body quote => quote = '\x22' → Lexer.Survives body
  | _ => True

/-- The character behind a piece does not continue it. -/
def EndsBefore (next : Option Char) : Piece → Prop
  | .space | .emptyAngles => True
  | .mark (.sign s) => s.EndsBefore next
  | .mark (.word _) | .word _ => ∀ c ∈ next, isWordPart c = false
  | .name _ quote | .string _ quote => next ≠ some quote
  | .integer _ | .number _ => ∀ c ∈ next, isWordPart c = false ∧ c ≠ '.'

/-- The first character of a text. -/
def first (ps : List Piece) : Option Char :=
  (text ps).head?

@[simp] theorem first_nil : first [] = none := rfl

@[simp] theorem first_append (a b : List Piece) : first (a ++ b) = (first a).or (first b) := by
  simp [first, List.head?_append]

/-- Each piece has the property, to be legible as a rule, and none runs into the next one or the
last one into what follows. -/
def Separate (L : Piece → Prop) (next : Option Char) : List Piece → Prop
  | [] => True
  | p :: ps => L p ∧ p.EndsBefore ((first ps).or next) ∧ Separate L next ps

@[simp] theorem separate_append {L : Piece → Prop} {next : Option Char} {a b : List Piece} :
    Separate L next (a ++ b) ↔ Separate L ((first b).or next) a ∧ Separate L next b := by
  induction a with
  | nil => simp [Separate]
  | cons p ps ih => simp [Separate, ih, and_assoc, Option.or_assoc]

end Piece

namespace Lexer

/-! ## One piece -/

theorem isBareWord_text (k : Keyword) : isBareWord k.text = true := by
  cases k <;> decide

theorem wordKind_text (k : Keyword) : wordKind k.text = .keyword k := by
  simp [wordKind, Keyword.ofText?_text]

theorem isDigits_toDigits (n : Nat) : IsDigits (Nat.toDigits 10 n) :=
  ⟨Nat.toDigits_ne_nil, fun _ => Nat.isDigit_of_mem_toDigits (by decide) (by decide)⟩

theorem decimalValue_toDigits (n : Nat) : decimalValue (Nat.toDigits 10 n) = n :=
  Nat.ofDigitChars_eq_foldl.symm.trans Nat.ofDigitChars_ten_toDigits

theorem scan_number {whole fraction exponent rest : List Char} (hr : EndsNumber rest)
    (h : NumberText whole fraction exponent) :
    scan (whole ++ fraction ++ exponent ++ rest) =
      ⟨.ok (numberKind whole fraction exponent), whole ++ fraction ++ exponent, rest⟩ := by
  have hscan := scanNumber_text hr h
  obtain ⟨c, digits, rfl⟩ := List.exists_cons_of_ne_nil h.whole.ne_nil
  have hc : c.isDigit = true := h.whole.isDigit c (by simp)
  simp only [List.cons_append] at hscan ⊢
  rw [scan_of_isDigit hc, hscan]

/-- A piece is read as the token that it stands for. -/
theorem scan_piece {p : Piece} {k : TokenKind} {rest : List Char} (hp : p.Legible)
    (hq : p.Quotable) (hr : p.EndsBefore rest.head?) (hk : p.kind? = some k) :
    scan (p.chars ++ rest) = ⟨.ok k, p.chars, rest⟩ := by
  cases p with
  | space => cases hk
  | emptyAngles =>
    cases hk
    rfl
  | mark m =>
    cases hk
    cases m with
    | sign s => exact scan_symbol s hr
    | word w =>
      have h := scan_word (isBareWord_text w) hr
      rw [wordKind_text] at h
      exact h
  | name body quote =>
    obtain rfl | rfl := hp
    · cases hk
      exact scan_name body hr
    · cases hk
      have hbody' : StringBody '\x22' (String.ofList (double '\x22' body.toList)).toList := by
        rw [String.toList_ofList]
        exact (stringBody_double_iff _).mpr (hq rfl)
      have h := scan_string (.inr rfl) hbody' hr
      simpa [Piece.chars, quoted] using h
  | word text =>
    cases hk
    exact scan_word hp hr
  | integer value =>
    obtain ⟨hpos, hlt⟩ := hp
    obtain ⟨n, rfl⟩ := Int.eq_ofNat_of_zero_le hpos
    have hn : n < 0x8000000000000000 := by omega
    have hkind : numberKind (Nat.toDigits 10 n) [] [] = .integer (.ofInt n) := by
      simp [numberKind, integerKind, decimalValue_toDigits, hn, Int64.ofInt_eq_ofNat]
    have hchars : (Piece.integer n).chars = Nat.toDigits 10 n := by
      simp [Piece.chars, Int.repr_eq_if]
    have h := scan_number hr ⟨isDigits_toDigits n, .inl rfl, .inl rfl⟩
    cases hk
    simpa [hchars, hkind] using h
  | number text =>
    obtain ⟨whole, fraction, exponent, hn, htext, hkind⟩ := hp
    have h := scan_number hr hn
    cases hk
    simpa [Piece.chars, htext, hkind] using h
  | string body quote =>
    cases hk
    simpa [Piece.chars] using scan_string hp.1 hp.2 hr

theorem kind_ne_endOfInput {p : Piece} {k : TokenKind} (hk : p.kind? = some k) :
    k ≠ .endOfInput := by
  cases p with
  | mark m => cases m <;> cases hk <;> nofun
  | name body quote =>
    simp only [Piece.kind?] at hk
    split at hk <;> cases hk <;> nofun
  | word text =>
    cases hk
    unfold wordKind
    split <;> nofun
  | _ => cases hk <;> nofun

theorem kind_ne_endOfInput_of_mem_tokens {t : Token} {ps : List Piece} (h : t ∈ Piece.tokens ps) :
    t.kind ≠ .endOfInput := by
  simp only [Piece.tokens, List.mem_filterMap, Piece.token?, Option.map_eq_some_iff] at h
  obtain ⟨p, -, k, hk, rfl⟩ := h
  exact kind_ne_endOfInput hk

/-- A blank or a comment stands before no piece. -/
theorem skipFrom_piece {p : Piece} {rest : List Char} (offset : Nat) (hp : p.Legible)
    (hr : p.EndsBefore rest.head?) (hk : p ≠ .space) :
    skipFrom .between offset (p.chars ++ rest) = .ok ⟨offset, p.chars ++ rest⟩ := by
  have word {w : String} (hw : isBareWord w = true) :
      skipFrom .between offset (w.toList ++ rest) = .ok ⟨offset, w.toList ++ rest⟩ := by
    obtain ⟨c, text, hc, hstart, -⟩ := isBareWord_iff.mp hw
    rw [hc]
    exact skipFrom_of_not_blank offset (isWhiteSpace_of_isWordStart hstart)
      (fun he => absurd he (ne_of_isWordStart hstart (by decide)))
      (fun he => absurd he (ne_of_isWordStart hstart (by decide)))
  cases p with
  | space => exact absurd rfl hk
  | emptyAngles =>
    exact skipFrom_of_not_blank offset (by decide) (fun he => absurd he (by decide))
      (fun he => absurd he (by decide))
  | mark m =>
    cases m with
    | word w => exact word (isBareWord_text w)
    | sign s =>
      cases s <;> refine skipFrom_of_not_blank offset (by decide) ?_ ?_ <;>
        first | exact fun he => absurd he (by decide) | exact fun _ => hr
  | name body q =>
    refine skipFrom_of_quote ?_ offset _
    obtain rfl | rfl := hp <;> simp
  | word text => exact word hp
  | integer value =>
    obtain ⟨n, rfl⟩ := Int.eq_ofNat_of_zero_le hp.1
    have hchars : (Piece.integer n).chars = Nat.toDigits 10 n := by
      simp [Piece.chars, Int.repr_eq_if]
    obtain ⟨c, text, hc⟩ := List.exists_cons_of_ne_nil (Nat.toDigits_ne_nil (b := 10) (n := n))
    rw [hchars, hc]
    exact skipFrom_of_isDigit ((isDigits_toDigits n).isDigit c (by simp [hc])) offset _
  | number text =>
    obtain ⟨whole, fraction, exponent, hn, htext, -⟩ := hp
    obtain ⟨c, text', rfl⟩ := List.exists_cons_of_ne_nil hn.whole.ne_nil
    rw [Piece.chars, htext]
    exact skipFrom_of_isDigit (hn.whole.isDigit c (by simp)) offset _
  | string body q =>
    refine skipFrom_of_quote ?_ offset _
    obtain ⟨rfl | rfl, -⟩ := hp <;> simp

/-! ## All pieces -/

theorem tokenize_eq (l : Lexer) :
    l.tokenize = match l.next with
      | (.error e, l') => (.error e, l')
      | (.ok t, l') =>
        if t.kind = .endOfInput then (.ok [t], l')
        else match l'.tokenize with
          | (.error e, l'') => (.error e, l'')
          | (.ok ts, l'') => (.ok (t :: ts), l'') := by
  rw [tokenize]
  split <;> rename_i h <;> rw [h]
  dsimp only
  split <;> rfl

theorem tokenize_nil (offset : Nat) :
    tokenize ⟨offset, []⟩ = (.ok [⟨.endOfInput, .at offset, ""⟩], ⟨offset, []⟩) := by
  rw [tokenize_eq]
  rfl

theorem tokenize_cons {l l' : Lexer} {t : Token} (hnext : l.next = (.ok t, l'))
    (ht : t.kind ≠ .endOfInput) {ts : List Token} {l'' : Lexer} :
    l.tokenize = (.ok ts, l'') ↔ ∃ us, ts = t :: us ∧ l'.tokenize = (.ok us, l'') := by
  rw [tokenize_eq, hnext]
  simp only [ht, if_false]
  cases h : l'.tokenize with
  | mk result l₁ =>
    cases result with
    | error e => simp
    | ok us =>
      simp only [Prod.mk.injEq, Except.ok.injEq]
      constructor
      · rintro ⟨rfl, rfl⟩
        exact ⟨us, rfl, rfl, rfl⟩
      · rintro ⟨us, rfl, rfl, rfl⟩
        exact ⟨rfl, rfl⟩

/-- The text of pieces is read as the tokens that they stand for, and reading goes on behind it. -/
theorem tokenize_append {ps : List Piece} {rest : List Char}
    (h : Piece.Separate Piece.Legible rest.head? ps) (hq : ∀ p ∈ ps, p.Quotable) (offset : Nat) :
    ∃ us, us.map Token.content = (Piece.tokens ps).map Token.content ∧
      ∀ ts l, tokenize ⟨offset, Piece.text ps ++ rest⟩ = (.ok ts, l) ↔
        ∃ vs, ts = us ++ vs ∧
          tokenize ⟨offset + byteLength (Piece.text ps), rest⟩ = (.ok vs, l) := by
  induction ps generalizing offset with
  | nil => exact ⟨[], rfl, fun ts l => by simp⟩
  | cons p ps ih =>
    obtain ⟨hp, hr, hps⟩ := h
    rw [List.forall_mem_cons] at hq
    have hr : p.EndsBefore (Piece.text ps ++ rest).head? := by
      rwa [List.head?_append]
    rw [Piece.text_cons, List.append_assoc, byteLength_append, ← Nat.add_assoc]
    obtain ⟨us, hus, hiff⟩ := ih hps hq.2 (offset + byteLength p.chars)
    cases hk : p.kind? with
    | none =>
      -- The lexer passes the space on its way to the next token.
      have hspace : p = .space := by
        cases p with
        | space => rfl
        | name body quote =>
          simp only [Piece.kind?] at hk
          split at hk <;> cases hk
        | _ => cases hk
      subst hspace
      have hnext : next ⟨offset, ' ' :: (Piece.text ps ++ rest)⟩ =
          next ⟨offset + 1, Piece.text ps ++ rest⟩ := rfl
      have htokens : tokenize ⟨offset, ' ' :: (Piece.text ps ++ rest)⟩ =
          tokenize ⟨offset + 1, Piece.text ps ++ rest⟩ := by
        rw [tokenize_eq, hnext, ← tokenize_eq]
      refine ⟨us, hus, fun ts l => ?_⟩
      show tokenize ⟨offset, ' ' :: (Piece.text ps ++ rest)⟩ = _ ↔ _
      rw [htokens]
      exact hiff ts l
    | some k =>
      have hne : p ≠ .space := by rintro rfl; cases hk
      have hnext : next ⟨offset, p.chars ++ (Piece.text ps ++ rest)⟩ =
          (.ok ⟨k, ⟨offset, offset + byteLength p.chars⟩, .ofList p.chars⟩,
            ⟨offset + byteLength p.chars, Piece.text ps ++ rest⟩) := by
        simp only [next, skipBlanks, skipFrom_piece offset hp hr hne, readToken,
          scan_piece hp hq.1 hr hk]
      refine ⟨⟨k, ⟨offset, offset + byteLength p.chars⟩, .ofList p.chars⟩ :: us, ?_, fun ts l => ?_⟩
      · simp [Piece.tokens, Piece.token?, hk, Token.content, Token.bare, hus]
      · rw [tokenize_cons hnext (kind_ne_endOfInput hk)]
        simp only [hiff]
        constructor
        · rintro ⟨_, rfl, vs, rfl, hvs⟩
          exact ⟨vs, rfl, hvs⟩
        · rintro ⟨vs, rfl, hvs⟩
          exact ⟨_, rfl, vs, rfl, hvs⟩

end Lexer

/-- The text of pieces is read as the tokens that they stand for. -/
theorem Piece.tokenize_text {ps : List Piece} (h : Separate Legible none ps)
    (hq : ∀ p ∈ ps, p.Quotable) :
    ∃ ts, tokenize (.ofList (text ps)) = .ok ts ∧
      ts.map Token.content = (tokens ps).map Token.content ++ [(.endOfInput, "")] := by
  have hnext : Separate Legible ([] : List Char).head? ps := h
  obtain ⟨us, hus, hiff⟩ := Lexer.tokenize_append hnext hq 0
  rw [List.append_nil] at hiff
  have hend := Lexer.tokenize_nil (0 + byteLength (text ps))
  refine ⟨us ++ [⟨.endOfInput, .at (0 + byteLength (text ps)), ""⟩], ?_,
    by simp [hus, Token.content]⟩
  unfold tokenize Lexer.ofString
  rw [String.toList_ofList, (hiff _ _).mpr ⟨_, rfl, hend⟩]

end SqlDialects
