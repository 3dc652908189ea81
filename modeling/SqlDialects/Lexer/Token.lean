import SqlDialects.Lexer.Number
import SqlDialects.Lexer.Quoted

/-!
# One token

Which token a text begins with, by its first characters. Main statement: what is read and what is
left make up the text.
-/

namespace SqlDialects.Lexer

/-- The longest sign at the beginning of a text, and its length. Two closing angle brackets are two
signs, so that nested types close. -/
def leadingSymbol? : List Char → Option (Symbol × Nat)
  | '=' :: '=' :: _ => some (.eq, 2)
  | '<' :: '=' :: _ => some (.ltEq, 2)
  | '<' :: '>' :: _ => some (.notEq, 2)
  | '>' :: '=' :: _ => some (.gtEq, 2)
  | '!' :: '=' :: _ => some (.notEq, 2)
  | '|' :: '|' :: _ => some (.concat, 2)
  | '(' :: _ => some (.leftParen, 1)
  | ')' :: _ => some (.rightParen, 1)
  | ',' :: _ => some (.comma, 1)
  | ';' :: _ => some (.semicolon, 1)
  | '.' :: _ => some (.dot, 1)
  | ':' :: _ => some (.colon, 1)
  | '+' :: _ => some (.plus, 1)
  | '-' :: _ => some (.minus, 1)
  | '*' :: _ => some (.star, 1)
  | '/' :: _ => some (.slash, 1)
  | '%' :: _ => some (.percent, 1)
  | '=' :: _ => some (.eq, 1)
  | '<' :: _ => some (.lt, 1)
  | '>' :: _ => some (.gt, 1)
  | _ => none

/-- A word is the keyword it spells, or else a name. -/
def wordKind (word : String) : TokenKind :=
  match Keyword.ofText? word with
  | some k => .keyword k
  | none => .identifier word

/-- Reads the word at the beginning of a text. -/
def scanWord (text : List Char) : Scan :=
  let word := text.takeWhile isWordPart
  ⟨.ok (wordKind (.ofList word)), word, text.dropWhile isWordPart⟩

/-- Reads the token at the beginning of a text that begins with no blank. -/
def scan : List Char → Scan
  | [] => ⟨.ok .endOfInput, [], []⟩
  | c :: rest =>
    match leadingSymbol? (c :: rest) with
    | some (sign, length) =>
      ⟨.ok (.symbol sign), (c :: rest).take length, (c :: rest).drop length⟩
    | none =>
      if c = '\x27' ∨ c = '\x22' then scanString c rest
      else if c = '\x60' then scanName c rest
      else if c.isDigit then scanNumber (c :: rest)
      else if isWordStart c then scanWord (c :: rest)
      else ⟨.error (.unexpectedCharacter c), [c], rest⟩

@[simp] theorem scanWord_append (text : List Char) :
    (scanWord text).read ++ (scanWord text).rest = text := by
  simp [scanWord, List.takeWhile_append_dropWhile]

@[simp] theorem scan_append (text : List Char) : (scan text).read ++ (scan text).rest = text := by
  unfold scan
  split
  · rfl
  · split
    · simp
    · grind [scanString_append, scanName_append, scanNumber_append, scanWord_append]

private theorem length_pos_of_leadingSymbol? {text : List Char} {sign : Symbol} {length : Nat}
    (h : leadingSymbol? text = some (sign, length)) : 0 < length := by
  unfold leadingSymbol? at h
  grind

private theorem takeWhile_ne_nil {p : Char → Bool} {c : Char} (rest : List Char)
    (h : p c = true) : (c :: rest).takeWhile p ≠ [] := by
  simp [h]

private theorem scanNumber_read_ne_nil {c : Char} (rest : List Char) (h : c.isDigit = true) :
    (scanNumber (c :: rest)).read ≠ [] :=
  (takeWhile_prefix_scanNumber (c :: rest)).ne_nil (takeWhile_ne_nil rest h)

/-- Every token but the end of input has characters, and so has every error. -/
theorem scan_read_ne_nil (c : Char) (rest : List Char) : (scan (c :: rest)).read ≠ [] := by
  simp only [scan]
  split
  · rename_i h
    have := length_pos_of_leadingSymbol? h
    simp
    omega
  · split
    · unfold scanString
      split <;> simp
    · split
      · unfold scanName
        split <;> simp [quoted]
      · split
        · exact scanNumber_read_ne_nil rest ‹_›
        · split
          · exact takeWhile_ne_nil rest (isWordPart_of_isWordStart ‹_›)
          · simp

theorem scan_rest_length_lt (c : Char) (rest : List Char) :
    (scan (c :: rest)).rest.length < (c :: rest).length := by
  have happ := congrArg List.length (scan_append (c :: rest))
  have hpos := List.length_pos_iff.mpr (scan_read_ne_nil c rest)
  rw [List.length_append] at happ
  omega

end SqlDialects.Lexer
