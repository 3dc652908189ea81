import SqlDialects.Lexer.Token
import SqlDialects.Quoting
import SqlDialects.Tree.Spelling

/-!
# Pieces of a written statement

A statement is written as a list of pieces, each of them a space or what one token is written as
(two tokens for a negative integer). Its text is that of the pieces one after another.
-/

namespace SqlDialects

inductive Piece where
  | space
  | mark (mark : Mark)
  /-- The brackets of a type without parts, which are read as one sign. -/
  | emptyAngles
  /-- A name in quotes. -/
  | name (body : String) (quote : Char)
  /-- A word that stands without quotes. -/
  | word (text : String)
  | integer (value : Int)
  /-- A number as it was written. -/
  | number (text : String)
  | string (body : String) (quote : Char)
  deriving DecidableEq

namespace Piece

def chars : Piece → List Char
  | .space => [' ']
  | .mark m => m.text.toList
  | .emptyAngles => ['<', '>']
  | .name body quote => quoted quote body.toList
  | .word text => text.toList
  | .integer value => (toString value).toList
  | .number text => text.toList
  | .string body quote => quote :: body.toList ++ [quote]

/-- The text of pieces. -/
def text (pieces : List Piece) : List Char :=
  pieces.flatMap chars

def sign (s : Symbol) : Piece :=
  .mark (.sign s)

def keyword (k : Keyword) : Piece :=
  .mark (.word k)

/-- Marks with a space between any two. -/
def phrase (marks : List Mark) : List Piece :=
  (marks.map .mark).intersperse .space

/-- Lists with a comma and a space between any two. -/
def commaSeparated (items : List (List Piece)) : List Piece :=
  [sign .comma, .space].intercalate items

def parenthesized (pieces : List Piece) : List Piece :=
  sign .leftParen :: pieces ++ [sign .rightParen]

def parenthesizedIf (needed : Bool) (pieces : List Piece) : List Piece :=
  if needed then parenthesized pieces else pieces

/-- A minus sign and its operand. Two minus signs have a space between them, for together they would
begin a comment. -/
def negative (operand : List Piece) : List Piece :=
  if operand.findSome? (·.chars.head?) = some '-' then sign .minus :: .space :: operand
  else sign .minus :: operand

/-- `NOT` where a predicate is negated. -/
def negation (negated : Bool) : List Piece :=
  if negated then [keyword .NOT, .space] else []

end Piece

end SqlDialects
