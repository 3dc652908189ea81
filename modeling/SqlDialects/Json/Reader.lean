import SqlDialects.Decimal
import SqlDialects.Json.Basic

/-!
# Reading JSON

The strict grammar: no comments, no trailing commas, no other quotes, no leading zeros. Each reader
takes the text from its place on and returns what it read with the text behind it.
-/

namespace SqlDialects.Json

/-- What an escape that names half of a surrogate pair does: it is no text, and so an error, or it
stands for the replacement character where the text is only passed over. -/
inductive LoneSurrogate where
  | rejected
  | replaced

/-- White space between the parts of a value. -/
def isSpace (c : Char) : Bool :=
  c == ' ' || c == '\t' || c == '\n' || c == '\r'

def skipSpace (text : List Char) : List Char :=
  text.dropWhile isSpace

/-- The value of a hexadecimal digit. -/
def hexValue? (c : Char) : Option Nat :=
  if '0' ≤ c ∧ c ≤ '9' then some (c.toNat - '0'.toNat)
  else if 'a' ≤ c ∧ c ≤ 'f' then some (c.toNat - 'a'.toNat + 10)
  else if 'A' ≤ c ∧ c ≤ 'F' then some (c.toNat - 'A'.toNat + 10)
  else none

/-- The code unit that four hexadecimal digits name. -/
def codeUnit? (a b c d : Char) : Option Nat := do
  return (((← hexValue? a) * 16 + (← hexValue? b)) * 16 + (← hexValue? c)) * 16 + (← hexValue? d)

/-- The character behind a backslash, other than that of a numbered escape. -/
def simpleEscape? : Char → Option Char
  | '\x22' => some '\x22'
  | '\\' => some '\\'
  | '/' => some '/'
  | 'b' => some '\x08'
  | 'f' => some '\x0c'
  | 'n' => some '\n'
  | 'r' => some '\r'
  | 't' => some '\t'
  | _ => none

/-- The UTF-16 code units of a string up to its closing quote, those of a character that is not
escaped taken together as its code point. -/
def readUnits : List Char → Option (List Nat × List Char)
  | '\\' :: 'u' :: a :: b :: c :: d :: rest => do
    let unit ← codeUnit? a b c d
    let (units, behind) ← readUnits rest
    return (unit :: units, behind)
  | '\\' :: c :: rest => do
    let c ← simpleEscape? c
    let (units, behind) ← readUnits rest
    return (c.toNat :: units, behind)
  | '\x22' :: rest => some ([], rest)
  | c :: rest => do
    guard (0x20 ≤ c.toNat)
    let (units, behind) ← readUnits rest
    return (c.toNat :: units, behind)
  | [] => none

/-- Joins the halves of surrogate pairs. -/
def joinSurrogates (lone : LoneSurrogate) : List Nat → Option (List Char)
  | high :: low :: rest =>
    if 0xD800 ≤ high ∧ high < 0xDC00 ∧ 0xDC00 ≤ low ∧ low < 0xE000 then
      (joinSurrogates lone rest).map
        (.ofNat (0x10000 + (high - 0xD800) * 0x400 + (low - 0xDC00)) :: ·)
    else do
      let c ← single high
      return c :: (← joinSurrogates lone (low :: rest))
  | [unit] => (single unit).map ([·])
  | [] => some []
where
  single (unit : Nat) : Option Char :=
    if 0xD800 ≤ unit ∧ unit < 0xE000 then
      match lone with
      | .rejected => none
      | .replaced => some '\ufffd'
    else some (.ofNat unit)

/-- Reads a string whose opening quote precedes the text. -/
def readString (lone : LoneSurrogate) (text : List Char) : Option (String × List Char) := do
  let (units, rest) ← readUnits text
  return (.ofList (← joinSurrogates lone units), rest)

/-- At least one decimal digit. -/
def readDigits (text : List Char) : Option (List Char × List Char) :=
  match text.takeWhile Char.isDigit with
  | [] => none
  | digits => some (digits, text.dropWhile Char.isDigit)

/-- The digits before the point: a lone zero, or digits that begin with another. -/
def readWhole : List Char → Option (List Char × List Char)
  | '0' :: rest => some (['0'], rest)
  | text => readDigits text

def readFraction : List Char → Option (List Char × List Char)
  | '.' :: rest => do
    let (digits, behind) ← readDigits rest
    return ('.' :: digits, behind)
  | text => some ([], text)

def readExponent : List Char → Option (List Char × List Char)
  | e :: rest =>
    if e = 'e' ∨ e = 'E' then do
      let (sign, digits) := match rest with
        | '+' :: digits => (['+'], digits)
        | '-' :: digits => (['-'], digits)
        | digits => ([], digits)
      let (digits, behind) ← readDigits digits
      return (e :: sign ++ digits, behind)
    else some ([], e :: rest)
  | [] => some ([], [])

/-- Reads a number. Minus zero is no integer. -/
def readNumber (text : List Char) : Option (Json × List Char) := do
  let (sign, unsigned) := match text with
    | '-' :: rest => (['-'], rest)
    | rest => ([], rest)
  let (whole, behind) ← readWhole unsigned
  let (fraction, behind) ← readFraction behind
  let (exponent, behind) ← readExponent behind
  let value : Int := decimalValue whole
  if fraction ++ exponent = [] ∧ (sign = [] ∨ value ≠ 0) then
    return (.integer (if sign = [] then value else -value), behind)
  else return (.number (.ofList (sign ++ whole ++ fraction ++ exponent)), behind)

mutual

/-- Reads a value; the first argument bounds the length of the text. -/
def readValue (lone : LoneSurrogate) : Nat → List Char → Option (Json × List Char)
  | 0, _ => none
  | n + 1, text =>
    match skipSpace text with
    | 'n' :: 'u' :: 'l' :: 'l' :: rest => some (.null, rest)
    | 't' :: 'r' :: 'u' :: 'e' :: rest => some (.boolean true, rest)
    | 'f' :: 'a' :: 'l' :: 's' :: 'e' :: rest => some (.boolean false, rest)
    | '\x22' :: rest => do
      let (text, behind) ← readString lone rest
      return (.string text, behind)
    | '[' :: rest =>
      match skipSpace rest with
      | ']' :: behind => some (.array [], behind)
      | rest => do
        let (items, behind) ← readItems lone n rest
        return (.array items, behind)
    | '\x7b' :: rest =>
      match skipSpace rest with
      | '\x7d' :: behind => some (.object [], behind)
      | rest => do
        let (members, behind) ← readMembers lone (fun _ => lone) n rest
        return (.object members, behind)
    | rest => readNumber rest

/-- Reads the items of an array that has some, and its closing bracket. -/
def readItems (lone : LoneSurrogate) : Nat → List Char → Option (List Json × List Char)
  | 0, _ => none
  | n + 1, text => do
    let (item, behind) ← readValue lone n text
    match skipSpace behind with
    | ',' :: rest => do
      let (items, behind) ← readItems lone n rest
      return (item :: items, behind)
    | ']' :: rest => return ([item], rest)
    | _ => none

/-- Reads the members of an object that has some, and its closing brace. The key of a member may
decide how its value is read. -/
def readMembers (lone : LoneSurrogate) (inside : String → LoneSurrogate) :
    Nat → List Char → Option (List (String × Json) × List Char)
  | 0, _ => none
  | n + 1, text =>
    match skipSpace text with
    | '\x22' :: rest => do
      let (key, behind) ← readString lone rest
      match skipSpace behind with
      | ':' :: rest => do
        let (value, behind) ← readValue (inside key) n rest
        match skipSpace behind with
        | ',' :: rest => do
          let (members, behind) ← readMembers lone inside n rest
          return ((key, value) :: members, behind)
        | '\x7d' :: rest => return ([(key, value)], rest)
        | _ => none
      | _ => none
    | _ => none

end

/-- Accepts what was read only if nothing but space lies behind it. -/
def atEnd : Option (α × List Char) → Option α
  | some (a, rest) => if skipSpace rest = [] then some a else none
  | none => none

/-- The value that a text holds. -/
def ofText? (text : String) : Option Json :=
  atEnd (readValue .rejected (text.length + 1) text.toList)

/-- The members of the object that a text holds. Where only the members of the given keys matter,
the text of the others need not be well formed. -/
def membersOfText? (text : String) (keys : List String) : Option (List (String × Json)) :=
  match skipSpace text.toList with
  | '\x7b' :: rest =>
    match skipSpace rest with
    | '\x7d' :: behind => atEnd (some ([], behind))
    | rest =>
      atEnd (readMembers .rejected (fun key => if keys.contains key then .rejected else .replaced)
        (text.length + 1) rest)
  | _ => none

end SqlDialects.Json
