import Mathlib.Data.List.TakeWhile
import SqlDialects.Proofs.Parser.Steps

/-!
# Runs of the statement parser

One stream may be read from several times, each time from where the last attempt stopped. Main
statement: whatever the tokens are, no attempt leaves them or goes back, errors lie where the
attempt stopped, and no attempt depends on the bounds that its productions and loops are given.
-/

namespace SqlDialects

/-! ## Places in a list of tokens -/

/-- A list of tokens that ends with an end of input, which is supplied where the last token is
none. -/
def terminated (tokens : List Token) : List Token :=
  if tokens.getLast?.any (·.kind = .endOfInput) then tokens
  else tokens ++ [⟨.endOfInput, .at (tokens.getLast?.elim 0 (·.span.stop)), ""⟩]

namespace TokenStream

variable {tokens : List Token} {s : TokenStream}

/-- What a stream of tokens is cut off from lies behind its end of input. -/
theorem exists_terminated_eq (tokens : List Token) :
    ∃ more, terminated tokens = (ofList tokens).rest ++ (ofList tokens).stop :: more := by
  cases hfind : tokens.find? (·.kind = .endOfInput) with
  | some t =>
    obtain ⟨hkind, before, behind, rfl, hbefore⟩ := List.find?_eq_some_iff_append.mp hfind
    have hstream : ofList (before ++ t :: behind) = ⟨before, t.span, t.lexeme⟩ :=
      ofList_append_cons (by simpa using hbefore) (of_decide_eq_true hkind)
    have hstop : stop ⟨before, t.span, t.lexeme⟩ = t := by
      rw [stop, ← of_decide_eq_true hkind]
    rw [hstream, hstop, terminated]
    split
    · exact ⟨behind, rfl⟩
    · exact ⟨behind ++ [_], by rw [List.append_assoc, List.cons_append]⟩
  | none =>
    have hall : ∀ t ∈ tokens, t.kind ≠ .endOfInput := by simpa using hfind
    have hstream : ofList tokens = ⟨tokens, .at (tokens.getLast?.elim 0 (·.span.stop)), ""⟩ := by
      rw [ofList, hfind, List.takeWhile_eq_self_iff.mpr (by simpa using hall)]
    have hlast : tokens.getLast?.any (·.kind = .endOfInput) = false := by
      rw [Option.any_eq_false]
      intro t ht
      simpa using hall t (List.mem_of_getLast? ht)
    rw [hstream, terminated, hlast]
    exact ⟨[], rfl⟩

theorem isPrefix_rest_ofList (tokens : List Token) : (ofList tokens).rest <+: tokens := by
  unfold ofList
  split <;> exact List.takeWhile_prefix _

/-- No token before the end of input is one. -/
theorem kind_ne_of_mem_ofList {t : Token} (ht : t ∈ (ofList tokens).rest) :
    t.kind ≠ .endOfInput := by
  have hmem : t ∈ tokens.takeWhile (·.kind ≠ .endOfInput) := by
    unfold ofList at ht
    split at ht <;> exact ht
  simpa using List.mem_takeWhile_imp hmem

/-- How many tokens of a list have been passed where a part of its stream is left. -/
def position (tokens : List Token) (s : TokenStream) : Nat :=
  (ofList tokens).rest.length - s.rest.length

/-- A stream is left of a list at the token that it begins with, and no end of input has been
passed. -/
structure AtPlace (tokens : List Token) (s : TokenStream) : Prop where
  current : (terminated tokens)[s.position tokens]? = some s.current
  passed : ∀ t ∈ (terminated tokens).take (s.position tokens), t.kind ≠ .endOfInput

namespace IsLeftOf

/-- What is left of a list lies between the tokens that have been passed and those behind the end
of input. -/
theorem exists_terminated_eq (h : s.IsLeftOf (ofList tokens)) :
    ∃ passed more, terminated tokens = passed ++ (s.rest ++ s.stop :: more) ∧
      s.position tokens = passed.length ∧ passed ++ s.rest = (ofList tokens).rest := by
  obtain ⟨passed, hpassed⟩ := h.rest
  obtain ⟨more, hmore⟩ := TokenStream.exists_terminated_eq tokens
  refine ⟨passed, more, ?_, ?_, hpassed⟩
  · rw [hmore, ← hpassed, h.stop, List.append_assoc]
  · rw [position, ← hpassed, List.length_append, Nat.add_sub_cancel]

/-- The tokens that have been passed lie before those that are left. -/
theorem take_append_rest (h : s.IsLeftOf (ofList tokens)) :
    tokens.take (s.position tokens) ++ s.rest = (ofList tokens).rest := by
  obtain ⟨passed, -, -, hposition, hpassed⟩ := h.exists_terminated_eq
  have htake : passed = tokens.take passed.length :=
    List.prefix_iff_eq_take.mp ((hpassed ▸ List.prefix_append _ _).trans (isPrefix_rest_ofList tokens))
  rw [hposition, ← htake, hpassed]

theorem atPlace (h : s.IsLeftOf (ofList tokens)) : s.AtPlace tokens := by
  obtain ⟨passed, more, hsplit, hposition, hpassed⟩ := h.exists_terminated_eq
  refine ⟨?_, fun t ht => ?_⟩
  · rw [hposition, hsplit, List.getElem?_append_right (Nat.le_refl _), Nat.sub_self]
    cases hrest : s.rest <;> simp [TokenStream.current, hrest]
  · rw [hposition, hsplit, List.take_left] at ht
    exact kind_ne_of_mem_ofList (hpassed ▸ List.mem_append_left _ ht)

theorem position_le {s' : TokenStream} (h : s'.IsLeftOf s) : s.position tokens ≤ s'.position tokens :=
  Nat.sub_le_sub_left h.rest.length_le _

end IsLeftOf

end TokenStream

/-! ## Where errors lie -/

/-- An error lies at a token, and if it says what was found, that is this token. -/
structure SyntaxError.IsAt (e : SyntaxError) (t : Token) : Prop where
  span : e.span = t.span
  found : ∀ k ∈ e.cause.found?, k = t.kind

namespace Parser

/-- A parser that fails stops at the token where the error lies. -/
def FailsInPlace {α : Type} (p : Parser α) : Prop :=
  ∀ ⦃s e s'⦄, p s = .error e s' → e.IsAt s'.current

theorem failsInPlace_congruence : Congruence fun p _ => FailsInPlace p where
  pure _ _ _ _ h := nomatch h
  bind {_ _ p _ f _} hp hf := by
    intro s e s' h
    cases hs : p s with
    | error e' t =>
      cases (bind_of_error hs f).symm.trans h
      exact hp hs
    | ok a t => exact hf a ((bind_of_ok hs f).symm.trans h)
  fail cause hcause := by
    rintro s _ _ ⟨⟩
    exact ⟨rfl, by simp [hcause]⟩
  unexpected expected := by
    rintro s _ _ ⟨⟩
    exact ⟨rfl, fun k hk => (Option.some.inj hk).symm⟩
  current hf := fun s _ _ h => hf s.current s.current rfl rfl h
  second _ _ _ h := nomatch h
  advance _ _ _ h := nomatch h
  remaining hf := fun s _ _ h => hf s.rest.length h

/-! ## Bounds -/

/-- Expressions, queries and types are what the grammar says they are, and the tokens left bound how
deep they nest and how often their loops repeat a step: whatever stands for what would lie beyond is
never asked. -/
structure Bounded (d : Dialect) : Prop where
  expression_eq (power : Nat) : expression d power = expressionOf d (nested d) power
  query_eq : query d = queryOf d (nested d)
  dataType_eq : dataType d = dataTypeOf d (dataType d)
  expression (base : Nested) (power : Nat) ⦃n : Nat⦄ ⦃s : TokenStream⦄ (h : s.rest.length < n) :
    expression d power s = (nestedOver d base n).expression power s
  query (base : Nested) ⦃n : Nat⦄ ⦃s : TokenStream⦄ (h : s.rest.length < n) :
    query d s = (nestedOver d base n).query s
  dataType (base : Parser DataType) ⦃n : Nat⦄ ⦃s : TokenStream⦄ (h : s.rest.length < n) :
    dataType d s = dataTypeOver d base n s
  operators (base : Expr → Parser Expr) (power : Nat) (left : Expr) ⦃n : Nat⦄ ⦃s : TokenStream⦄
    (h : s.rest.length < n) : iterate (extend d (nested d) power) left s =
      iterateOver base (extend d (nested d) power) n left s
  path (base : Expr → Parser Expr) (column : Expr) ⦃n : Nat⦄ ⦃s : TokenStream⦄
    (h : s.rest.length < n) : iterate (pathPart d) column s = iterateOver base (pathPart d) n column s
  whenClauses (base : Parser (List WhenClause)) ⦃n : Nat⦄ ⦃s : TokenStream⦄
    (h : s.rest.length < n) : many (whenClause (nested d)) s =
      manyOver base (whenClause (nested d)) n s
  joins (base : Parser (List Join)) ⦃n : Nat⦄ ⦃s : TokenStream⦄ (h : s.rest.length < n) :
    many (join d (nested d)) s = manyOver base (join d (nested d)) n s
  lateralViews (base : Parser (List LateralView)) ⦃n : Nat⦄ ⦃s : TokenStream⦄
    (h : s.rest.length < n) : many (lateralView d (nested d)) s =
      manyOver base (lateralView d (nested d)) n s
  /-- The items of any list with commas. -/
  items {α : Type} {item : Parser α} (hitem : GoesForward item) (base : Parser (List α)) ⦃n : Nat⦄
    ⦃s : TokenStream⦄ (h : s.rest.length < n) :
    many (do if ← accept (.symbol .comma) then return some (← item) else return none) s =
      manyOver base (do if ← accept (.symbol .comma) then return some (← item) else return none) n s

theorem bounded (d : Dialect) : Bounded d where
  expression_eq := expression_unfold d
  query_eq := query_unfold d
  dataType_eq := dataType_unfold d
  expression base power n _ h := ((nested_eq_nestedOver d base n).expression power _ h).1
  query base n _ h := ((nested_eq_nestedOver d base n).query _ h).1
  dataType base n _ h := (dataType_eq_dataTypeOver d base n _ h).1
  operators base power left _ _ h :=
    iterate_eq_iterateOver (progresses_extend (nested_passing d) power) base left h
  path base column _ _ h := iterate_eq_iterateOver (progresses_pathPart d) base column h
  whenClauses base _ _ h := many_eq_manyOver (progresses_whenClause (nested_passing d)) base h
  joins base _ _ h := many_eq_manyOver (progresses_join (nested_passing d)) base h
  lateralViews base _ _ h := many_eq_manyOver (progresses_lateralView (nested_passing d)) base h
  items hitem base _ _ h := many_eq_manyOver (progresses_commaItem hitem) base h

end Parser

/-! ## Calls -/

namespace TokenStream

variable {d : Dialect} {tokens : List Token} {s s' : TokenStream}

/-- What is left after a number of attempts to read a statement, each from where the last one
stopped. -/
def afterCalls (d : Dialect) : Nat → TokenStream → TokenStream
  | 0, s => s
  | n + 1, s => ((afterCalls d n s).statement d).2

theorem isLeftOf_statement (d : Dialect) (s : TokenStream) : (s.statement d).2.IsLeftOf s := by
  have h := Parser.goesForward_congruence.statement d s
  unfold statement Parser.after at *
  cases hs : Parser.statement d s <;> simpa only [hs] using h

/-- Whatever one attempt leaves is left of the whole stream, and so is what all of them leave. -/
theorem isLeftOf_afterCalls (d : Dialect) (n : Nat) (s : TokenStream) :
    (afterCalls d n s).IsLeftOf s := by
  induction n with
  | zero => exact .refl s
  | succ n ih => exact (isLeftOf_statement d _).trans ih

theorem statement_of_ne_select (h : s.current.kind ≠ .keyword .SELECT) :
    s.statement d =
      (.error ⟨.unexpected (.token (.keyword .SELECT)) s.current.kind, s.current.span⟩, s) := by
  have hquery : Parser.query d s =
      .error ⟨.unexpected (.token (.keyword .SELECT)) s.current.kind, s.current.span⟩ s := by
    rw [Parser.query_unfold, Parser.queryOf_eq, Parser.bind_apply, Parser.expect_apply, if_neg h]
  rw [statement, Parser.statement, Parser.bind_of_error hquery]

/-- At the end of input, no attempt goes on. -/
theorem afterCalls_of_endOfInput (h : s.current.kind = .endOfInput) (n : Nat) :
    afterCalls d n s = s := by
  induction n with
  | zero => rfl
  | succ n ih => rw [afterCalls, ih, statement_of_ne_select (by simp [h])]

theorem isAt_of_statement_eq_error {e : SyntaxError} (h : s.statement d = (.error e, s')) :
    e.IsAt s'.current := by
  unfold statement at h
  cases hs : Parser.statement d s with
  | ok a t => simp [hs] at h
  | error e' t =>
    simp only [hs, Prod.mk.injEq, Except.error.injEq] at h
    obtain ⟨rfl, rfl⟩ := h
    exact Parser.failsInPlace_congruence.statement d hs

theorem current_of_statement_eq_ok {a : Statement} (h : s.statement d = (.ok a, s')) :
    s'.current.kind = .endOfInput := by
  obtain ⟨q, t, -, hs⟩ := Parser.bind_eq_ok.mp (statement_eq_ok.mp h)
  obtain ⟨b, u, -, hs⟩ := Parser.bind_eq_ok.mp hs
  rw [Parser.kind_bind] at hs
  by_cases hkind : u.current.kind = .endOfInput
  · rw [if_pos hkind] at hs
    cases hs
    exact hkind
  · rw [if_neg hkind] at hs
    cases hs

/-- What is promised about an attempt to read a statement where a part of the stream of some tokens
is left. -/
structure SafeCall (d : Dialect) (tokens : List Token) (s : TokenStream) : Prop where
  before : s.AtPlace tokens
  after : (s.statement d).2.AtPlace tokens
  position_le : s.position tokens ≤ (s.statement d).2.position tokens
  error ⦃e : SyntaxError⦄ (h : (s.statement d).1 = .error e) : e.IsAt (s.statement d).2.current
  ok ⦃a : Statement⦄ (h : (s.statement d).1 = .ok a) :
    (s.statement d).2.current.kind = .endOfInput ∧
      ∀ n, (afterCalls d n (s.statement d).2).statement d =
        (.error ⟨.unexpected (.token (.keyword .SELECT)) .endOfInput, (s.statement d).2.current.span⟩,
          (s.statement d).2)
  start (h : s.current.kind ≠ .keyword .SELECT) : s.statement d =
    (.error ⟨.unexpected (.token (.keyword .SELECT)) s.current.kind, s.current.span⟩, s)

theorem IsLeftOf.safeCall (h : s.IsLeftOf (ofList tokens)) : SafeCall d tokens s where
  before := h.atPlace
  after := ((isLeftOf_statement d s).trans h).atPlace
  position_le := (isLeftOf_statement d s).position_le
  error _ he := isAt_of_statement_eq_error (Prod.ext he rfl)
  ok a ha := by
    have hok : s.statement d = (.ok a, (s.statement d).2) := Prod.ext ha rfl
    have hend := current_of_statement_eq_ok hok
    refine ⟨hend, fun n => ?_⟩
    rw [afterCalls_of_endOfInput hend, statement_of_ne_select (by simp [hend]), hend]
  start := statement_of_ne_select

/-- However often a dialect's statements are read from the stream of some tokens, each attempt
comes to an end by itself, and is safe. -/
theorem safeCall_afterCalls (d : Dialect) (tokens : List Token) (n : Nat) :
    Parser.Bounded d ∧ SafeCall d tokens (afterCalls d n (ofList tokens)) :=
  ⟨Parser.bounded d, (isLeftOf_afterCalls d n (ofList tokens)).safeCall⟩

end TokenStream

end SqlDialects
