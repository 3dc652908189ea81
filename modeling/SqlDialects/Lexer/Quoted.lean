import SqlDialects.Lexer.Scan
import SqlDialects.Quoting

/-!
# Quoted literals

String literals keep their text raw; a name in backticks is read back to the name itself.
-/

namespace SqlDialects.Lexer

/-- The raw body of a string and the text behind its closing quote. A backslash and the character
after it belong together, and so do two adjacent quotes; neither pair closes the string. -/
def splitString (quote : Char) : List Char → Option (List Char × List Char)
  | c :: d :: rest =>
    if c = '\\' ∨ (c = quote ∧ d = quote) then
      (splitString quote rest).map fun (body, behind) => (c :: d :: body, behind)
    else if c = quote then some ([], d :: rest)
    else (splitString quote (d :: rest)).map fun (body, behind) => (c :: body, behind)
  | [c] => if c = quote then some ([], []) else none
  | [] => none

/-- Reads the string literal whose opening quote precedes the text. -/
def scanString (quote : Char) (text : List Char) : Scan :=
  match splitString quote text with
  | some (body, rest) =>
    ⟨.ok (.string (.ofList body) quote), quote :: body ++ [quote], rest⟩
  | none => ⟨.error .unterminatedString, quote :: text, []⟩

/-- The name up to the first quote that stands alone, and the text behind that quote. -/
def splitName (quote : Char) : List Char → Option (List Char × List Char)
  | c :: d :: rest =>
    if c = quote ∧ d = quote then
      (splitName quote rest).map fun (name, behind) => (quote :: name, behind)
    else if c = quote then some ([], d :: rest)
    else (splitName quote (d :: rest)).map fun (name, behind) => (c :: name, behind)
  | [c] => if c = quote then some ([], []) else none
  | [] => none

/-- Reads the quoted name whose opening quote precedes the text. -/
def scanName (quote : Char) (text : List Char) : Scan :=
  match splitName quote text with
  | some (name, rest) => ⟨.ok (.identifier (.ofList name)), quoted quote name, rest⟩
  | none => ⟨.error .unterminatedName, quote :: text, []⟩

theorem append_of_splitString {quote : Char} {text body rest : List Char}
    (h : splitString quote text = some (body, rest)) : body ++ quote :: rest = text := by
  fun_induction splitString quote text generalizing body rest <;>
    grind [Option.map_eq_some_iff]

theorem append_of_splitName {quote : Char} {text name rest : List Char}
    (h : splitName quote text = some (name, rest)) :
    double quote name ++ quote :: rest = text := by
  fun_induction splitName quote text generalizing name rest <;>
    grind [double, Option.map_eq_some_iff]

@[simp] theorem scanString_append (quote : Char) (text : List Char) :
    (scanString quote text).read ++ (scanString quote text).rest = quote :: text := by
  unfold scanString
  grind [append_of_splitString]

@[simp] theorem scanName_append (quote : Char) (text : List Char) :
    (scanName quote text).read ++ (scanName quote text).rest = quote :: text := by
  unfold scanName
  grind [append_of_splitName, quoted]

end SqlDialects.Lexer
