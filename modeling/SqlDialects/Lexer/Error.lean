import SqlDialects.Span

/-!
# Lexical errors
-/

namespace SqlDialects

/-- Why a text has no next token. -/
inductive LexCause where
  | unterminatedComment
  | unterminatedName
  | unterminatedString
  /-- An exponent mark without digits behind it. -/
  | missingExponent
  /-- A number that runs into a word; the text includes the first character of the word. -/
  | malformedNumber (text : String)
  | unexpectedCharacter (c : Char)
  deriving DecidableEq

def LexCause.message : LexCause → String
  | .unterminatedComment => "Unterminated block comment"
  | .unterminatedName => "Unterminated quoted identifier"
  | .unterminatedString => "Unterminated string literal"
  | .missingExponent => "Invalid numeric literal: missing exponent digits"
  | .malformedNumber text => s!"Invalid numeric literal: {text}"
  | .unexpectedCharacter c => s!"Unexpected character: {c}"

structure LexError where
  cause : LexCause
  /-- From where the failed token begins to where its reading stopped. -/
  span : Span
  deriving DecidableEq

end SqlDialects
