import SqlDialects.Decimal
import SqlDialects.Lexer.Scan
import SqlDialects.Word

/-!
# Number literals

Digits, then perhaps a dot with digits, then perhaps an exponent. A word may not follow directly.
-/

namespace SqlDialects.Lexer

/-- Splits off a dot with the digits behind it; a dot without digits is no part of the number. -/
def splitFraction : List Char → List Char × List Char
  | '.' :: rest =>
    match rest.takeWhile Char.isDigit with
    | [] => ([], '.' :: rest)
    | digits => ('.' :: digits, rest.dropWhile Char.isDigit)
  | rest => ([], rest)

/-- Splits off an exponent mark with its sign. -/
def splitExponentMark : List Char → List Char × List Char
  | e :: rest =>
    if e = 'e' ∨ e = 'E' then
      match rest with
      | '+' :: rest' => ([e, '+'], rest')
      | '-' :: rest' => ([e, '-'], rest')
      | _ => ([e], rest)
    else ([], e :: rest)
  | [] => ([], [])

/-- A row of digits is an integer if its value fits in 64 bits with a sign; else it keeps its
text. -/
def integerKind (digits : List Char) : TokenKind :=
  if decimalValue digits < 0x8000000000000000 then .integer (.ofNat (decimalValue digits))
  else .number (.ofList digits)

/-- Closes a number literal, unless a word runs into it. -/
def endNumber (kind : TokenKind) (read : List Char) : List Char → Scan
  | c :: rest =>
    if isWordStart c then
      ⟨.error (.malformedNumber (.ofList (read ++ [c]))), read ++ [c], rest⟩
    else ⟨.ok kind, read, c :: rest⟩
  | [] => ⟨.ok kind, read, []⟩

/-- Reads a number literal from a text that begins with a digit. -/
def scanNumber (text : List Char) : Scan :=
  let whole := text.takeWhile Char.isDigit
  let (fraction, afterFraction) := splitFraction (text.dropWhile Char.isDigit)
  let (mark, afterMark) := splitExponentMark afterFraction
  let digits := afterMark.takeWhile Char.isDigit
  let read := whole ++ fraction ++ mark
  if mark = [] then
    endNumber (if fraction = [] then integerKind whole else .number (.ofList read)) read afterMark
  else if digits = [] then ⟨.error .missingExponent, read, afterMark⟩
  else endNumber (.number (.ofList (read ++ digits))) (read ++ digits)
    (afterMark.dropWhile Char.isDigit)

@[simp] theorem splitFraction_append (text : List Char) :
    (splitFraction text).1 ++ (splitFraction text).2 = text := by
  unfold splitFraction
  split
  · split
    · rfl
    · rename_i digits _
      simp [List.takeWhile_append_dropWhile]
  · rfl

@[simp] theorem splitExponentMark_append (text : List Char) :
    (splitExponentMark text).1 ++ (splitExponentMark text).2 = text := by
  unfold splitExponentMark
  grind

@[simp] theorem endNumber_append (kind : TokenKind) (read rest : List Char) :
    (endNumber kind read rest).read ++ (endNumber kind read rest).rest = read ++ rest := by
  unfold endNumber
  grind

@[simp] theorem scanNumber_append (text : List Char) :
    (scanNumber text).read ++ (scanNumber text).rest = text := by
  have hf := splitFraction_append (text.dropWhile Char.isDigit)
  have he := splitExponentMark_append (splitFraction (text.dropWhile Char.isDigit)).2
  have hd := List.takeWhile_append_dropWhile (p := Char.isDigit)
    (l := (splitExponentMark (splitFraction (text.dropWhile Char.isDigit)).2).2)
  have hw := List.takeWhile_append_dropWhile (p := Char.isDigit) (l := text)
  unfold scanNumber
  grind [endNumber_append]

private theorem prefix_endNumber (kind : TokenKind) (read rest : List Char) :
    read <+: (endNumber kind read rest).read := by
  unfold endNumber
  split
  · split <;> simp
  · simp

/-- The number begins with all the digits that the text begins with. -/
theorem takeWhile_prefix_scanNumber (text : List Char) :
    text.takeWhile Char.isDigit <+: (scanNumber text).read := by
  simp only [scanNumber]
  split
  · refine .trans ?_ (prefix_endNumber ..)
    simp [List.append_assoc]
  · split
    · simp [List.append_assoc]
    · refine .trans ?_ (prefix_endNumber ..)
      simp [List.append_assoc]

end SqlDialects.Lexer
