import SqlDialects.Parser.Error

/-!
# Parsers over a stream of tokens

A parser reads tokens from the front of a stream and keeps its place when it fails. The stream ends
at its first end-of-input token, which is never passed.
-/

namespace SqlDialects

/-- What is left of a list of tokens: those before its end of input, and where and how that was
written. -/
structure TokenStream where
  rest : List Token
  endSpan : Span
  endLexeme : String
  deriving DecidableEq

namespace TokenStream

/-- The end of input. -/
def stop (s : TokenStream) : Token :=
  ⟨.endOfInput, s.endSpan, s.endLexeme⟩

/-- The token at the place of a stream. -/
def current (s : TokenStream) : Token :=
  s.rest.headD s.stop

/-- The kind of the token behind the current one. -/
def second (s : TokenStream) : TokenKind :=
  match s.rest with
  | _ :: t :: _ => t.kind
  | _ => .endOfInput

/-- The stream behind its current token; the end of input stays. -/
def tail (s : TokenStream) : TokenStream :=
  { s with rest := s.rest.tail }

/-- The stream of a list of tokens up to the first end of input, which is supplied behind the last
token where the list has none. -/
def ofList (tokens : List Token) : TokenStream :=
  let rest := tokens.takeWhile (·.kind ≠ .endOfInput)
  match tokens.find? (·.kind = .endOfInput) with
  | some t => ⟨rest, t.span, t.lexeme⟩
  | none => ⟨rest, .at (tokens.getLast?.elim 0 (·.span.stop)), ""⟩

@[simp] theorem current_nil (span : Span) (lexeme : String) :
    (TokenStream.mk [] span lexeme).current = ⟨.endOfInput, span, lexeme⟩ := rfl

@[simp] theorem current_cons (t : Token) (rest : List Token) (span : Span) (lexeme : String) :
    (TokenStream.mk (t :: rest) span lexeme).current = t := rfl

@[simp] theorem rest_tail (s : TokenStream) : s.tail.rest = s.rest.tail := rfl

/-- Whatever stands behind the first end of input is left out. -/
theorem ofList_append_cons {before behind : List Token} {t : Token}
    (hbefore : ∀ u ∈ before, u.kind ≠ .endOfInput) (ht : t.kind = .endOfInput) :
    ofList (before ++ t :: behind) = ⟨before, t.span, t.lexeme⟩ := by
  have hrest : (before ++ t :: behind).takeWhile (·.kind ≠ .endOfInput) = before := by
    rw [List.takeWhile_append_of_pos (by simpa using hbefore)]
    simp [ht]
  have hfind : (before ++ t :: behind).find? (·.kind = .endOfInput) = some t := by
    have hnone : before.find? (·.kind = .endOfInput) = none := by simpa using hbefore
    simp [List.find?_append, hnone, ht]
  simp only [ofList, hfind, hrest]

end TokenStream

/-- A function on streams that returns a value or fails, and says what is left in either case. -/
abbrev Parser := EStateM SyntaxError TokenStream

namespace Parser

/-- The token at the place of the stream. -/
def current : Parser Token :=
  return (← get).current

/-- The kind of the current token. -/
def kind : Parser TokenKind :=
  return (← current).kind

/-- The kind of the token behind the current one. -/
def second : Parser TokenKind :=
  return (← get).second

/-- Passes the current token. -/
def advance : Parser Unit :=
  modify TokenStream.tail

/-- Fails at the current token. -/
def fail (cause : SyntaxCause) : Parser α := do
  throw ⟨cause, (← current).span⟩

/-- Fails because the current token is none of what the grammar has a place for. -/
def unexpected (expected : Expected) : Parser α := do
  fail (.unexpected expected (← kind))

/-- Passes the current token if it is of a kind, and says whether it was. -/
def accept (k : TokenKind) : Parser Bool := do
  if (← kind) = k then
    advance
    return true
  else return false

/-- Passes the current token, which has to be of a kind. -/
def expect (k : TokenKind) : Parser Unit := do
  unless ← accept k do unexpected (.token k)

/-- Fails at the current token if it opens a construct that the dialect does not have. -/
def require (d : Dialect) (feature : Dialect.Feature) : Parser Unit := do
  unless d.supports feature do fail (.unsupported feature d.name)

theorem bind_apply (p : Parser α) (f : α → Parser β) (s : TokenStream) :
    (p >>= f) s = match p s with
      | .ok a s' => f a s'
      | .error e s' => .error e s' := by
  show EStateM.bind p f s = _
  unfold EStateM.bind
  cases p s <;> rfl

theorem accept_apply (k : TokenKind) (s : TokenStream) :
    accept k s = if s.current.kind = k then .ok true s.tail else .ok false s := by
  show (if s.current.kind = k then _ else _ : Parser Bool) s = _
  split <;> rfl

theorem expect_apply (k : TokenKind) (s : TokenStream) :
    expect k s = if s.current.kind = k then .ok () s.tail
      else .error ⟨.unexpected (.token k) s.current.kind, s.current.span⟩ s := by
  rw [expect, bind_apply, accept_apply]
  split <;> rename_i h <;> split at h <;> simp_all <;> rfl

/-- Repeats a step as long as it returns a value, at most `n` times. -/
def iterateUpTo (step : α → Parser (Option α)) : Nat → α → Parser α
  | 0, a => return a
  | n + 1, a => do
    match ← step a with
    | some b => iterateUpTo step n b
    | none => return a

/-- Repeats a step as long as it returns a value. A step that returns one has to pass a token, so
that the tokens left bound the repetitions. -/
def iterate (step : α → Parser (Option α)) (a : α) : Parser α := do
  iterateUpTo step ((← get).rest.length + 1) a

/-- Collects the values of a parser until it returns none, at most `n` of them. -/
def manyUpTo (p : Parser (Option α)) : Nat → Parser (List α)
  | 0 => return []
  | n + 1 => do
    match ← p with
    | some a => return a :: (← manyUpTo p n)
    | none => return []

/-- Collects the values of a parser until it returns none. When it returns one it has to pass a
token, so that the tokens left bound the repetitions. -/
def many (p : Parser (Option α)) : Parser (List α) := do
  manyUpTo p ((← get).rest.length + 1)

/-- One or more, with commas between. -/
def commaList (p : Parser α) : Parser (List α) := do
  let first ← p
  let others ← many do
    if ← accept (.symbol .comma) then return some (← p) else return none
  return first :: others

/-- What stands between parentheses. -/
def parenthesized (p : Parser α) : Parser α := do
  expect (.symbol .leftParen)
  let a ← p
  expect (.symbol .rightParen)
  return a

end Parser

end SqlDialects
