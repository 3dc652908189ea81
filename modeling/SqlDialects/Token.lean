import SqlDialects.Keyword
import SqlDialects.Span

/-!
# Tokens

A token is what the lexer found, where it found it, and how it was written there.
-/

namespace SqlDialects

/-- Operators and punctuation signs. -/
inductive Symbol where
  | plus | minus | star | slash | percent | concat
  | eq | notEq | lt | ltEq | gt | gtEq
  | leftParen | rightParen | comma | semicolon | dot | colon
  deriving DecidableEq

/-- The canonical spelling. -/
def Symbol.text : Symbol → String
  | .plus => "+"
  | .minus => "-"
  | .star => "*"
  | .slash => "/"
  | .percent => "%"
  | .concat => "||"
  | .eq => "="
  | .notEq => "!="
  | .lt => "<"
  | .ltEq => "<="
  | .gt => ">"
  | .gtEq => ">="
  | .leftParen => "("
  | .rightParen => ")"
  | .comma => ","
  | .semicolon => ";"
  | .dot => "."
  | .colon => ":"

/-- What a token is. -/
inductive TokenKind where
  /-- Decimal digits whose value fits 64 signed bits. -/
  | integer (value : Int64)
  /-- Any other numeric literal, as written. -/
  | number (text : String)
  /-- The raw text between two quotes, escapes and doubled quotes left as they are. -/
  | string (body : String) (quote : Char)
  /-- A name: a word that is no keyword, or the contents of a pair of backticks. -/
  | identifier (name : String)
  | keyword (word : Keyword)
  | symbol (sign : Symbol)
  | endOfInput
  deriving DecidableEq

/-- How messages name a token. -/
def TokenKind.describe : TokenKind → String
  | .integer value => s!"integer {value.toInt}"
  | .number text => s!"number {text}"
  | .string body quote => s!"string {quote}{body}{quote}"
  | .identifier name => s!"identifier {name}"
  | .keyword word => s!"keyword {word.text}"
  | .symbol sign => s!"'{sign.text}'"
  | .endOfInput => "end of input"

structure Token where
  kind : TokenKind
  span : Span
  /-- The source text of the token; empty at the end of input. -/
  lexeme : String
  deriving DecidableEq

end SqlDialects
