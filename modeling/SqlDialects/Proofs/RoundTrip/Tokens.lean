import SqlDialects.Parser.Expression
import SqlDialects.Proofs.Lexer.Pieces
import SqlDialects.Proofs.Render.Canonical

/-!
# The tokens of written parts

Marks, words and names as tokens, and what the parser takes them for. A name in quotes is read as
the name if the dialect takes the quotes for those of names.
-/

namespace SqlDialects

/-- What stands in the quotes is a name of the dialect, and no string. -/
def Dialect.Unquotes (d : Dialect) (quote : Char) : Prop :=
  quote = '\x60' ∨ quote = '\x22' ∧ d.doubleQuotedStrings = false

/-- `LEFT` and `RIGHT` are reserved words, and functions where a parenthesis follows. -/
def IsSideFunction (name : String) : Prop :=
  Keyword.ofText? name = some .LEFT ∨ Keyword.ofText? name = some .RIGHT

namespace Token

def mark (m : Mark) : Token :=
  .bare m.kind m.text

@[simp] theorem kind_sign (s : Symbol) : (mark (.sign s)).kind = .symbol s := rfl

@[simp] theorem lexeme_sign (s : Symbol) : (mark (.sign s)).lexeme = s.text := rfl

@[simp] theorem kind_keyword (k : Keyword) : (mark (.word k)).kind = .keyword k := rfl

/-- A name in quotes. -/
def name (quote : Char) (body : String) : Token :=
  .bare
    (if quote = '\x60' then .identifier body
     else .string (.ofList (double quote body.toList)) quote)
    (.ofList (quoted quote body.toList))

/-- A word without quotes. -/
def word (text : String) : Token :=
  .bare (Lexer.wordKind text) text

/-- The two brackets of a type without parts. -/
def emptyAngles : Token :=
  .bare (.symbol .notEq) "<>"

def integer (value : Int) : Token :=
  .bare (.integer (.ofInt value)) (toString value)

/-- The name of a function in a call. -/
def function (quote : Char) (text : String) : Token :=
  if isPlainFunction text then word text.toUpper else name quote text

def typeName (quote : Char) (text : String) : Token :=
  if isBareWord text then word text.toUpper else name quote text

def fieldName (quote : Char) (text : String) : Token :=
  if isBareWord text then word text else name quote text

end Token

namespace Piece

variable (ps : List Piece) (quote : Char) (text : String)

theorem tokens_cons_of_kind? {p : Piece} {k : TokenKind} (h : p.kind? = some k) :
    tokens (p :: ps) = .bare k (.ofList p.chars) :: tokens ps := by
  simp [tokens, token?, h]

@[simp] theorem tokens_mark_cons (m : Mark) : tokens (.mark m :: ps) = .mark m :: tokens ps := by
  simp [tokens, token?, kind?, chars, Token.mark]

@[simp] theorem tokens_sign_cons (s : Symbol) :
    tokens (sign s :: ps) = .mark (.sign s) :: tokens ps :=
  tokens_mark_cons ps _

@[simp] theorem tokens_keyword_cons (k : Keyword) :
    tokens (keyword k :: ps) = .mark (.word k) :: tokens ps :=
  tokens_mark_cons ps _

@[simp] theorem tokens_name_cons :
    tokens (.name text quote :: ps) = .name quote text :: tokens ps := by
  by_cases h : quote = '\x60' <;> simp [tokens, token?, kind?, chars, Token.name, h]

@[simp] theorem tokens_word_cons : tokens (.word text :: ps) = .word text :: tokens ps := by
  simp [tokens, token?, kind?, chars, Token.word]

@[simp] theorem tokens_emptyAngles_cons :
    tokens (.emptyAngles :: ps) = .emptyAngles :: tokens ps := rfl

@[simp] theorem tokens_integer_cons (value : Int) :
    tokens (.integer value :: ps) = .integer value :: tokens ps := by
  simp [tokens, token?, kind?, chars, Token.integer]

@[simp] theorem tokens_functionName_cons :
    tokens (functionName quote text :: ps) = .function quote text :: tokens ps := by
  unfold functionName Token.function
  rw [isPlainFunction_eq]
  split <;> simp

@[simp] theorem tokens_typeName_cons :
    tokens (typeName quote text :: ps) = .typeName quote text :: tokens ps := by
  unfold typeName Token.typeName
  split <;> simp

@[simp] theorem tokens_fieldName_cons :
    tokens (fieldName quote text :: ps) = .fieldName quote text :: tokens ps := by
  unfold fieldName Token.fieldName
  split <;> simp

theorem tokens_flatMap {α : Type} (l : List α) (f : α → List Piece) :
    tokens (l.flatMap f) = l.flatMap fun x => tokens (f x) :=
  List.filterMap_flatMap

@[simp] theorem tokens_phrase (marks : List Mark) : tokens (phrase marks) = marks.map .mark := by
  induction marks with
  | nil => rfl
  | cons m rest ih =>
    cases rest with
    | nil => simp [phrase]
    | cons m' rest => simpa [phrase] using ih

@[simp] theorem tokens_parenthesized :
    tokens (parenthesized ps) =
      .mark (.sign .leftParen) :: (tokens ps ++ [.mark (.sign .rightParen)]) := by
  simp [parenthesized]

@[simp] theorem tokens_negative :
    tokens (negative ps) = .mark (.sign .minus) :: tokens ps := by
  unfold negative
  split <;> simp

@[simp] theorem tokens_negation (negated : Bool) :
    tokens (negation negated) = if negated then [.mark (.word .NOT)] else [] := by
  cases negated <;> simp [negation]

@[simp] theorem tokens_commaSeparated (items : List (List Piece)) :
    tokens (commaSeparated items) =
      [Token.mark (.sign .comma)].intercalate (items.map tokens) := by
  induction items with
  | nil => rfl
  | cons item rest ih =>
    cases rest with
    | nil => simp [commaSeparated]
    | cons item' rest =>
      unfold commaSeparated at ih ⊢
      rw [List.intercalate_cons_cons, tokens_append, tokens_append, ih]
      simp [List.intercalate_cons_cons]

end Piece

/-! ## Names -/

namespace Token

variable {d : Dialect} {quote : Char} {t : Token} {text : String}

/-- A name in quotes is neither a keyword nor a sign. -/
theorem kind_name_cases (quote : Char) (text : String) :
    (∃ body, (name quote text).kind = .identifier body) ∨
      ∃ body q, (name quote text).kind = .string body q := by
  unfold name bare
  split
  · exact .inl ⟨_, rfl⟩
  · exact .inr ⟨_, _, rfl⟩

theorem kind_name_ne_keyword (k : Keyword) : (name quote text).kind ≠ .keyword k := by
  obtain ⟨_, h⟩ | ⟨_, _, h⟩ := kind_name_cases quote text <;> rw [h] <;> nofun

theorem kind_name_ne_symbol (s : Symbol) : (name quote text).kind ≠ .symbol s := by
  obtain ⟨_, h⟩ | ⟨_, _, h⟩ := kind_name_cases quote text <;> rw [h] <;> nofun

theorem identifier?_name (hq : d.Unquotes quote) : (name quote text).identifier? d = some text := by
  obtain rfl | ⟨rfl, hd⟩ := hq
  · rfl
  · simp [identifier?, name, bare, hd, undouble_double]

theorem name?_name (hq : d.Unquotes quote) : (name quote text).name? d = some text := by
  unfold name?
  split
  · exact absurd ‹_› (kind_name_ne_keyword _)
  · exact identifier?_name hq

theorem name?_word (d : Dialect) (text : String) : (word text).name? d = some text := by
  unfold name? word bare Lexer.wordKind
  cases Keyword.ofText? text <;> rfl

/-- A type is read by its name in upper case, whether it is written so or in quotes. -/
theorem exists_name?_typeName (hq : d.Unquotes quote) (text : String) :
    ∃ word, (typeName quote text).name? d = some word ∧ word.toUpper = text.toUpper := by
  unfold typeName
  split
  · exact ⟨text.toUpper, name?_word d _, toUpper_toUpper text⟩
  · exact ⟨text, name?_name hq, rfl⟩

theorem name?_fieldName (hq : d.Unquotes quote) : (fieldName quote text).name? d = some text := by
  unfold fieldName
  split
  · exact name?_word d text
  · exact name?_name hq

/-! ## Functions -/

theorem isBareWord_of_ofText? {k : Keyword} (h : Keyword.ofText? text = some k) :
    isBareWord text = true := by
  rw [← isBareWord_toUpper, ← Keyword.text_of_ofText? h]
  exact Lexer.isBareWord_text k

theorem function_of_side (quote : Char) (h : IsSideFunction text) :
    ((function quote text).kind = .keyword .LEFT ∨ (function quote text).kind = .keyword .RIGHT) ∧
      (function quote text).lexeme = canonicalFunction text := by
  have hplain : isPlainFunction text = true := by
    unfold isPlainFunction
    obtain h | h := h <;> simp [isBareWord_of_ofText? h, h]
  unfold function canonicalFunction word bare Lexer.wordKind
  simp only [hplain, if_true, Keyword.ofText?_toUpper, and_true]
  obtain h | h := h <;> simp [h]

theorem ofText?_of_kind_function {k : Keyword} (h : (function quote text).kind = .keyword k) :
    Keyword.ofText? text = some k := by
  unfold function at h
  split at h
  · unfold word bare Lexer.wordKind at h
    rw [Keyword.ofText?_toUpper] at h
    cases hk : Keyword.ofText? text with
    | none => simp [hk] at h
    | some k' => simpa [hk] using h
  · exact absurd h (kind_name_ne_keyword k)

theorem kind_function_of_ofText? {k : Keyword} (h : Keyword.ofText? text = some k)
    (hk : k.isReserved = false) : (function quote text).kind = .keyword k := by
  have hplain : isPlainFunction text = true := by
    simp [isPlainFunction, isBareWord_of_ofText? h, h, hk]
  unfold function word bare Lexer.wordKind
  simp [hplain, h]

theorem identifier?_function (hq : d.Unquotes quote) (h : ¬IsSideFunction text) :
    (function quote text).identifier? d = some (canonicalFunction text) := by
  unfold function canonicalFunction
  split
  · rename_i hplain
    unfold identifier? word bare Lexer.wordKind
    rw [Keyword.ofText?_toUpper]
    cases hk : Keyword.ofText? text with
    | none => rfl
    | some k =>
      have hreserved : k.isReserved = false := by
        simp only [isPlainFunction, hk, Option.all_some, Bool.and_eq_true, Bool.or_eq_true,
          Bool.not_eq_true', beq_iff_eq] at hplain
        obtain ⟨-, (hr | rfl) | rfl⟩ := hplain
        · exact hr
        · exact absurd (.inl hk) h
        · exact absurd (.inr hk) h
      simp [hreserved]
  · exact identifier?_name hq

/-! ## What a name is not -/

/-- The token is no literal, no sign and no reserved word. -/
theorem kind_of_identifier? (h : t.identifier? d = some text) :
    Parser.literal? d t.kind = none ∧ Parser.unaryOp? t.kind = none ∧
      (∀ s, t.kind ≠ .symbol s) ∧ t.kind ≠ .endOfInput ∧
        ∀ k, k.isReserved = true → t.kind ≠ .keyword k := by
  unfold identifier? at h
  cases hk : t.kind with
  | identifier name => simp [Parser.literal?, Parser.unaryOp?]
  | keyword k =>
    have hreserved : k.isReserved = false := by
      cases hr : k.isReserved with
      | false => rfl
      | true => simp [hk, hr] at h
    refine ⟨?_, ?_, by simp, by simp, ?_⟩
    · cases k <;> first | rfl | cases hreserved
    · cases k <;> first | rfl | cases hreserved
    · intro k' hk' hkeyword
      cases hkeyword
      simp [hreserved] at hk'
  | string body q =>
    simp only [hk] at h
    split at h <;> simp_all [Parser.literal?, Parser.unaryOp?]
  | _ => simp [hk] at h

end Token

end SqlDialects
