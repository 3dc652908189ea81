import SqlDialects.Parser.Basic

/-!
# Names

Which tokens may stand for a name, and which name they are.
-/

namespace SqlDialects

namespace Token

/-- The name of a table or column: a word, quoted in backticks or not, a keyword that is not
reserved, or a name in double quotes where these do not delimit strings. -/
def identifier? (d : Dialect) (t : Token) : Option String :=
  match t.kind with
  | .identifier name => some name
  | .keyword k => if k.isReserved then none else some t.lexeme
  | .string body quote =>
    if quote = '\x22' ∧ ¬ d.doubleQuotedStrings then
      some (.ofList (undouble '\x22' body.toList))
    else none
  | _ => none

/-- The name where only a name can stand, as after a dot: reserved words count too. -/
def name? (d : Dialect) (t : Token) : Option String :=
  match t.kind with
  | .keyword _ => some t.lexeme
  | _ => t.identifier? d

/-- Whether a token is an alias that is not introduced by `AS`. -/
def isImplicitAlias (d : Dialect) (t : Token) : Bool :=
  match t.kind with
  | .keyword k => !k.isReserved && !k.startsClause
  | _ => (t.identifier? d).isSome

end Token

namespace Parser

variable (d : Dialect)

def identifier : Parser String := do
  match (← current).identifier? d with
  | some name =>
    advance
    return name
  | none => unexpected .identifier

def name : Parser String := do
  match (← current).name? d with
  | some name =>
    advance
    return name
  | none => unexpected .identifier

def identifierList : Parser (List String) :=
  commaList (identifier d)

/-- `AS` and an alias, or an alias alone, or nothing. -/
def optionalAlias : Parser (Option String) := do
  if ← accept (.keyword .AS) then return some (← identifier d)
  else if (← current).isImplicitAlias d then return some (← identifier d)
  else return none

end Parser

end SqlDialects
