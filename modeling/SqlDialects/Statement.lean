import SqlDialects.Options
import SqlDialects.Parser.Statement
import SqlDialects.Render.Statement
import SqlDialects.Tree.Decoding

/-!
# Statements as text

Reading a statement in one dialect and writing it in another.
-/

namespace SqlDialects

/-- The stream of the tokens of a text. -/
def TokenStream.ofText (text : String) : Except LexError TokenStream :=
  (tokenize text).map .ofList

namespace Statement

/-- Reads a text as one statement of a dialect. A lexical error anywhere precedes all others. -/
def parse (d : Dialect) (text : String) : Except Error Statement := do
  let stream ← (TokenStream.ofText text).mapError .lexical
  (stream.statement d).1.mapError .grammar

/-- Reads a text in the dialect that the options choose. -/
def parseWith (options : Options) (text : String) : Except Error Statement := do
  let d ← options.dialect.mapError .unsupportedDialect
  parse d text

/-- Writes a tree in the dialect that the options choose. -/
def renderWith (options : Options) (s : Statement) : Except Error String := do
  let d ← options.dialect.mapError .unsupportedDialect
  (s.render d).mapError .malformed

/-- Whether two trees are equal, which is so exactly if their JSON forms are. -/
def same (a b : Statement) : Bool :=
  a.toJson.same b.toJson

end Statement

end SqlDialects
