import SqlDialects.Lexer.Error
import SqlDialects.Token

/-!
# The outcome of reading one token
-/

namespace SqlDialects

/-- What the beginning of a text holds, the characters read for it, and those behind them. After an
error, `read` is what was read before it was noticed. -/
structure Scan where
  found : Except LexCause TokenKind
  read : List Char
  rest : List Char

end SqlDialects
