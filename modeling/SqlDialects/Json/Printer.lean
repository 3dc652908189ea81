import SqlDialects.Json.Basic

/-!
# Printing JSON

Without spaces. Quotes, backslashes and control characters are escaped; all others stand as they
are.
-/

namespace SqlDialects.Json

/-- One hexadecimal digit. -/
def hexDigit (n : Nat) : Char :=
  if n < 10 then .ofNat ('0'.toNat + n) else .ofNat ('a'.toNat + n - 10)

/-- A character as it stands in a string. -/
def escapeChar (c : Char) : List Char :=
  match c with
  | '\x22' => ['\\', '\x22']
  | '\\' => ['\\', '\\']
  | '\x08' => ['\\', 'b']
  | '\x0c' => ['\\', 'f']
  | '\n' => ['\\', 'n']
  | '\r' => ['\\', 'r']
  | '\t' => ['\\', 't']
  | _ =>
    if c.toNat < 0x20 then
      ['\\', 'u', '0', '0', hexDigit (c.toNat / 16), hexDigit (c.toNat % 16)]
    else [c]

def printString (text : String) : String :=
  .ofList ('\x22' :: text.toList.flatMap escapeChar ++ ['\x22'])

mutual

/-- Appends the text of a value. -/
def printTo (out : String) : Json → String
  | .null => out ++ "null"
  | .boolean true => out ++ "true"
  | .boolean false => out ++ "false"
  | .integer value => out ++ toString value
  | .number text => out ++ text
  | .string text => out ++ printString text
  | .array items => printItemsTo (out ++ "[") items ++ "]"
  | .object members => printMembersTo (out ++ "\x7b") members ++ "\x7d"

def printItemsTo (out : String) : List Json → String
  | [] => out
  | [item] => printTo out item
  | item :: rest => printItemsTo (printTo out item ++ ",") rest

def printMembersTo (out : String) : List (String × Json) → String
  | [] => out
  | [(key, value)] => printTo (out ++ printString key ++ ":") value
  | (key, value) :: rest => printMembersTo (printTo (out ++ printString key ++ ":") value ++ ",") rest

end

/-- The text of a value. -/
def print (value : Json) : String :=
  printTo "" value

end SqlDialects.Json
