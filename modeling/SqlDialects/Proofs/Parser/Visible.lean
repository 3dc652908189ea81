import SqlDialects.Proofs.Lexer.Layout
import SqlDialects.Proofs.Parser.Runs

/-!
# What the parser sees of its tokens

The kinds and the lexemes up to the first end of input. Main statement: where two lists of tokens
have these in common, all attempts to read a statement stop at the same places and return the same,
wherever the tokens lie and whatever stands behind the end of input. Where productions look one
token ahead, nothing behind the end of input decides what they do.
-/

namespace SqlDialects

/-- The tokens of a list up to its first end of input, that one included. -/
def upToEnd : List Token → List Token
  | [] => []
  | t :: rest => if t.kind = .endOfInput then [t] else t :: upToEnd rest

theorem upToEnd_of_forall {tokens : List Token} (h : ∀ t ∈ tokens, t.kind ≠ .endOfInput) :
    upToEnd tokens = tokens := by
  induction tokens with
  | nil => rfl
  | cons t rest ih =>
    obtain ⟨ht, hrest⟩ := List.forall_mem_cons.mp h
    rw [upToEnd, if_neg ht, ih hrest]

theorem upToEnd_append_cons {before behind : List Token} {t : Token}
    (hbefore : ∀ u ∈ before, u.kind ≠ .endOfInput) (ht : t.kind = .endOfInput) :
    upToEnd (before ++ t :: behind) = before ++ [t] := by
  induction before with
  | nil => rw [List.nil_append, upToEnd, if_pos ht, List.nil_append]
  | cons u rest ih =>
    obtain ⟨hu, hrest⟩ := List.forall_mem_cons.mp hbefore
    rw [List.cons_append, upToEnd, if_neg hu, ih hrest, List.cons_append]

/-! ## Looking ahead -/

/-- The kind of the token at a place of a list. Places behind the last token, which is an end of
input, are taken for that of the last token. -/
def kindAt (tokens : List Token) (i : Nat) : TokenKind :=
  ((terminated tokens)[min i ((terminated tokens).length - 1)]?).elim .endOfInput Token.kind

/-- The kind of the token behind the current one, in the whole list of which a stream is left. -/
def TokenStream.kindBehind (tokens : List Token) (s : TokenStream) : TokenKind :=
  kindAt tokens (s.position tokens + 1)

/-- Before the end of input, a stream goes on as the list does. -/
theorem TokenStream.IsLeftOf.second_eq {tokens : List Token} {s : TokenStream}
    (h : s.IsLeftOf (ofList tokens)) (hcurrent : s.current.kind ≠ .endOfInput) :
    s.second = s.kindBehind tokens := by
  obtain ⟨passed, more, hsplit, hposition, -⟩ := h.exists_terminated_eq
  obtain ⟨t, rest, hrest⟩ : ∃ t rest, s.rest = t :: rest := by
    obtain ⟨_ | ⟨t, rest⟩, span, lexeme⟩ := s
    · exact absurd rfl hcurrent
    · exact ⟨t, rest, rfl⟩
  have hsplit : terminated tokens = (passed ++ [t]) ++ (rest ++ s.stop :: more) := by
    simp [hsplit, hrest]
  have hplace : min (passed.length + 1) ((terminated tokens).length - 1) = (passed ++ [t]).length := by
    simp only [hsplit, List.length_append, List.length_cons, List.length_nil]
    omega
  rw [kindBehind, kindAt, hposition, hplace, hsplit, List.getElem?_append_right (Nat.le_refl _),
    Nat.sub_self]
  cases rest <;> simp [second, hrest, TokenStream.stop]

namespace Parser

/-! What the productions that look ahead do if the token behind the current one is of a kind. -/

def argumentsBefore (next : TokenKind) (g : Nested) (distinct : Bool) : Parser (List Expr) := do
  if !distinct && (← kind) = .symbol .rightParen then return []
  else if (← kind) = .symbol .star && next = .symbol .rightParen then
    advance
    return [.wildcard []]
  else expressionList g

def ignoreNullsBefore (next : TokenKind) : Parser Bool := do
  if (← kind) = .keyword .IGNORE && next = .keyword .NULLS then
    advance
    advance
    return true
  else return false

def optionalWindowBefore (next : TokenKind) (g : Nested) : Parser (Option Window) := do
  if (← kind) = .keyword .OVER && next = .symbol .leftParen then
    advance
    return some (← window g)
  else return none

/-- The operand that begins with `LEFT` or `RIGHT`. -/
def sideBefore (next : TokenKind) (d : Dialect) (g : Nested) : Parser Expr := do
  let t ← current
  if next = .symbol .leftParen then
    advance
    return .call (← call g t.lexeme)
  else namedOperand d g

/-- What `NOT` behind an operand begins. -/
def negatedPredicateBefore (next : TokenKind) (d : Dialect) (g : Nested) (left : Expr)
    (power : Nat) : Parser (Option Expr) :=
  match next with
  | .keyword .IN => do
    advance
    advance
    return some (← inList g left true)
  | .keyword .BETWEEN => do
    advance
    advance
    return some (← between g left power true)
  | _ =>
    match patternOp? next with
    | some (op, feature) => do
      advance
      return some (← pattern d g left power op feature true)
    | none => return none

/-- At a stream that is left of some tokens, each production that looks ahead does what it would do
if it looked at the whole list, with what stands there behind the end of input. -/
structure LooksInto (d : Dialect) (g : Nested) (tokens : List Token) (s : TokenStream) :
    Prop where
  arguments (distinct : Bool) :
    arguments g distinct s = argumentsBefore (s.kindBehind tokens) g distinct s
  ignoreNulls : ignoreNulls s = ignoreNullsBefore (s.kindBehind tokens) s
  optionalWindow : optionalWindow g s = optionalWindowBefore (s.kindBehind tokens) g s
  side (h : s.current.kind = .keyword .LEFT ∨ s.current.kind = .keyword .RIGHT) :
    primary d g s = sideBefore (s.kindBehind tokens) d g s
  negatedPredicate (h : s.current.kind = .keyword .NOT) (left : Expr) (power : Nat) :
    negatedPredicate d g left power s =
      negatedPredicateBefore (s.kindBehind tokens) d g left power s

theorem looksInto (d : Dialect) (g : Nested) {tokens : List Token} {s : TokenStream}
    (h : s.IsLeftOf (.ofList tokens)) : LooksInto d g tokens s where
  arguments distinct := by
    rw [Parser.arguments, argumentsBefore, kind_bind, kind_bind]
    split
    · rfl
    · rw [kind_bind, kind_bind, second_bind]
      by_cases hk : s.current.kind = .symbol .star
      · rw [h.second_eq (by simp [hk])]
      · simp only [hk, decide_false, Bool.false_and]
  ignoreNulls := by
    rw [Parser.ignoreNulls, ignoreNullsBefore, kind_bind, kind_bind, second_bind]
    by_cases hk : s.current.kind = .keyword .IGNORE
    · rw [h.second_eq (by simp [hk])]
    · simp only [hk, decide_false, Bool.false_and]
  optionalWindow := by
    rw [Parser.optionalWindow, optionalWindowBefore, kind_bind, kind_bind, second_bind]
    by_cases hk : s.current.kind = .keyword .OVER
    · rw [h.second_eq (by simp [hk])]
    · simp only [hk, decide_false, Bool.false_and]
  side hside := by
    have hsecond : s.second = s.kindBehind tokens :=
      h.second_eq (by rcases hside with hk | hk <;> simp [hk])
    have hliteral : literal? d s.current.kind = none := by
      rcases hside with hk | hk <;> rw [hk] <;> rfl
    rw [primary, current_bind, hliteral, sideBefore, current_bind, ← hsecond]
    rcases hside with hk | hk <;> simp only [hk, second_bind]
  negatedPredicate hnot left power := by
    rw [← h.second_eq (by simp [hnot])]
    rfl

end Parser

namespace TokenStream

theorem ofList_upToEnd (tokens : List Token) : ofList (upToEnd tokens) = ofList tokens := by
  cases hfind : tokens.find? (·.kind = .endOfInput) with
  | some t =>
    obtain ⟨hkind, before, behind, rfl, hbefore⟩ := List.find?_eq_some_iff_append.mp hfind
    have ht : t.kind = .endOfInput := of_decide_eq_true hkind
    have hbefore : ∀ u ∈ before, u.kind ≠ .endOfInput := by simpa using hbefore
    rw [upToEnd_append_cons hbefore ht, ofList_append_cons hbefore ht,
      ofList_append_cons hbefore ht]
  | none =>
    have hall : ∀ t ∈ tokens, t.kind ≠ .endOfInput := by simpa using hfind
    rw [upToEnd_of_forall hall]

/-! ## Attempts -/

variable {d : Dialect} {s u : TokenStream}

/-- What an attempt to read a statement returns, without the place of an error. The cause of an
error tells its message, what was expected and what was found. -/
def reply (d : Dialect) (s : TokenStream) : Except SyntaxCause Statement :=
  (s.statement d).1.mapError SyntaxError.cause

theorem Alike.reply_eq (h : Alike s u) : s.reply d = u.reply d := by
  have hsame := Parser.sameOutcome_statement d h
  unfold reply statement
  cases hs : Parser.statement d s <;> cases hu : Parser.statement d u <;>
    simp only [hs, hu] at hsame ⊢
  · rw [hsame.1]
  · exact congrArg Except.error hsame.1

theorem Alike.statement (h : Alike s u) : Alike (s.statement d).2 (u.statement d).2 := by
  have hsame := Parser.sameOutcome_statement d h
  unfold TokenStream.statement
  cases hs : Parser.statement d s <;> cases hu : Parser.statement d u <;>
    simp only [hs, hu] at hsame ⊢
  · exact hsame.2
  · exact hsame.2

theorem Alike.afterCalls (h : Alike s u) (n : Nat) :
    Alike (afterCalls d n s) (afterCalls d n u) := by
  induction n with
  | zero => exact h
  | succ n ih => exact ih.statement

/-- Attempts to read statements from two lists that are the same up to the first end of input, but
for the places of tokens, stop at the same places and return the same. What productions see of the
tokens ahead of them is told by the part of a list before that end. -/
theorem reply_afterCalls_congr (d : Dialect) {ts us : List Token}
    (h : (upToEnd ts).map Token.content = (upToEnd us).map Token.content) (n : Nat) :
    (∀ g s, s.IsLeftOf (ofList ts) → Parser.LooksInto d g ts s) ∧
      (afterCalls d n (ofList ts)).position ts = (afterCalls d n (ofList us)).position us ∧
        (afterCalls d n (ofList ts)).reply d = (afterCalls d n (ofList us)).reply d := by
  have halike : Alike (ofList ts) (ofList us) := by
    rw [← ofList_upToEnd ts, ← ofList_upToEnd us]
    exact alike_ofList_ofList h
  have hcalls := halike.afterCalls (d := d) n
  refine ⟨fun g s hs => Parser.looksInto d g hs, ?_, hcalls.reply_eq⟩
  rw [position, position, halike.length_rest, hcalls.length_rest]

/-- The tokens of `SELECT a IGNORE`. -/
def ignoreTokens : List Token :=
  [⟨.keyword .SELECT, ⟨0, 6⟩, "SELECT"⟩, ⟨.identifier "a", ⟨7, 8⟩, "a"⟩,
    ⟨.keyword .IGNORE, ⟨9, 15⟩, "IGNORE"⟩, ⟨.endOfInput, .at 15, ""⟩]

/-- The same tokens at other places, with more of them behind the end of input. -/
def ignoreNullsTokens : List Token :=
  [⟨.keyword .SELECT, .at 0, "SELECT"⟩, ⟨.identifier "a", .at 0, "a"⟩,
    ⟨.keyword .IGNORE, .at 0, "IGNORE"⟩, ⟨.endOfInput, .at 0, ""⟩, ⟨.keyword .NULLS, .at 0, "NULLS"⟩,
    ⟨.endOfInput, .at 0, "NULLS"⟩]

theorem reply_ignoreTokens :
    (upToEnd ignoreTokens).map Token.content = (upToEnd ignoreNullsTokens).map Token.content ∧
      (afterCalls .spark 1 (ofList ignoreTokens)).position ignoreTokens =
        (afterCalls .spark 1 (ofList ignoreNullsTokens)).position ignoreNullsTokens ∧
      (afterCalls .spark 1 (ofList ignoreTokens)).reply .spark =
        (afterCalls .spark 1 (ofList ignoreNullsTokens)).reply .spark := by
  have h : (upToEnd ignoreTokens).map Token.content =
      (upToEnd ignoreNullsTokens).map Token.content := by decide
  exact ⟨h, (reply_afterCalls_congr .spark h 1).2⟩

end TokenStream

end SqlDialects
