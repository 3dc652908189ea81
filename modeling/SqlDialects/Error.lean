import SqlDialects.Lexer.Error
import SqlDialects.Parser.Error
import SqlDialects.Render.Malformed

/-!
# Errors

Everything that reading, writing or choosing a dialect may fail with.
-/

namespace SqlDialects

/-- A name that is no dialect's, as it was given. -/
structure UnsupportedDialect where
  name : String
  deriving DecidableEq

inductive Error where
  | lexical (e : LexError)
  | grammar (e : SyntaxError)
  | unsupportedDialect (e : UnsupportedDialect)
  | malformed (e : Malformed)
  deriving DecidableEq

namespace Error

/-- What went wrong, without what kind of error it is and where it lies. -/
def detail : Error → String
  | .lexical e => e.cause.message
  | .grammar e => e.cause.message
  | .unsupportedDialect e => e.name
  | .malformed e => e.message

/-- Where the error lies in the source text. -/
def span? : Error → Option Span
  | .lexical e => some e.span
  | .grammar e => some e.span
  | .unsupportedDialect _ | .malformed _ => none

def kind : Error → String
  | .lexical _ => "lex error"
  | .grammar _ => "syntax error"
  | .unsupportedDialect _ => "unsupported dialect"
  | .malformed _ => "invalid AST"

def message (e : Error) : String :=
  match e.span? with
  | some span => s!"{e.kind}: {e.detail} at position {span.describe}"
  | none => s!"{e.kind}: {e.detail}"

/-- The byte offset that an error points at. -/
def position? (e : Error) : Option Nat :=
  e.span?.map (·.start)

end Error

end SqlDialects
