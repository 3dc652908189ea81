import SqlDialects.Proofs.Parser.Runs
import SqlDialects.Proofs.Prefix.Queries

/-!
# Prefixes of statements

Main statement: what has been passed where the parser of statements fails is the beginning of a
statement, so that no error is reported later than at the first token that makes one impossible.
-/

open SqlDialects.Parser

namespace SqlDialects

namespace TokenStream

theorem eq_push_current {s : TokenStream} (h : s.current.kind ≠ .endOfInput) :
    s = s.tail.push [s.current] := by
  obtain ⟨rest, span, lexeme⟩ := s
  cases rest with
  | nil => exact absurd rfl h
  | cons t rest => rfl

theorem ofList_append_singleton {ts : List Token} {t : Token} (hts : Unended ts)
    (ht : t.kind = .endOfInput) :
    ofList (ts ++ [t]) = (TokenStream.mk [] t.span t.lexeme).push ts := by
  have hrest : (ts ++ [t]).takeWhile (·.kind ≠ .endOfInput) = ts := by
    rw [List.takeWhile_append_of_pos (by simpa [Unended] using hts),
      List.takeWhile_cons_of_neg (by simpa using ht), List.append_nil]
  have hfind : (ts ++ [t]).find? (·.kind = .endOfInput) = some t := by
    rw [List.find?_append, List.find?_eq_none.mpr (by simpa [Unended] using hts)]
    simp [ht]
  rw [ofList, hfind, hrest, push, List.append_nil]

end TokenStream

namespace Parser

variable {d : Dialect} {s t : TokenStream} {q : Select}

/-- The stream behind a query, and behind its semicolon if there is one. -/
def afterSemicolon (t : TokenStream) : TokenStream :=
  if t.current.kind = .symbol .semicolon then t.tail else t

/-- A query is a statement if the input ends behind it. -/
theorem statement_of_query (hq : query d s = .ok q t) :
    statement d s =
      if (afterSemicolon t).current.kind = .endOfInput then .ok (.select q) (afterSemicolon t)
      else .error ⟨.unexpected (.token .endOfInput) (afterSemicolon t).current.kind,
        (afterSemicolon t).current.span⟩ (afterSemicolon t) := by
  have haccept : ∃ b, accept (.symbol .semicolon) t = .ok b (afterSemicolon t) := by
    rw [accept_apply, afterSemicolon]
    split
    · exact ⟨true, rfl⟩
    · exact ⟨false, rfl⟩
  obtain ⟨b, hb⟩ := haccept
  rw [statement, bind_of_ok hq, bind_of_ok hb, kind_bind]
  split <;> rfl

theorem statement_of_end (hq : query d s = .ok q t) (ht : t.current.kind = .endOfInput) :
    statement d s = .ok (.select q) t := by
  have hafter : afterSemicolon t = t := if_neg (by rw [ht]; nofun)
  rw [statement_of_query hq, hafter, if_pos ht]

theorem statement_of_semicolon (hq : query d s = .ok q t)
    (hsemicolon : t.current.kind = .symbol .semicolon) (ht : t.tail.current.kind = .endOfInput) :
    statement d s = .ok (.select q) t.tail := by
  have hafter : afterSemicolon t = t.tail := if_pos hsemicolon
  rw [statement_of_query hq, hafter, if_pos ht]

/-- Where the parser of statements stops, the parser of queries has stopped, or a semicolon has been
passed behind a query. -/
theorem after_query_of_statement_eq_error {e : SyntaxError} (h : statement d s = .error e t) :
    after (query d) s = t ∨
      ∃ q u, query d s = .ok q u ∧ u.current.kind = .symbol .semicolon ∧ u.tail = t := by
  cases hq : query d s with
  | error e' u =>
    cases (bind_of_error hq _).symm.trans h
    exact .inl (after_of_error hq)
  | ok q u =>
    have hu : afterSemicolon u = t := by
      rw [statement_of_query hq] at h
      split at h <;> cases h
      rfl
    unfold afterSemicolon at hu
    split at hu
    · exact .inr ⟨q, u, rfl, ‹_›, hu⟩
    · exact .inl ((after_of_ok hq).trans hu)

/-- What has been passed of a statement can be completed. -/
theorem exists_statement_push {e : SyntaxError} {ts : List Token}
    (h : statement d (t.push ts) = .error e t) :
    ∃ us a, Unended us ∧ ∀ v : TokenStream, v.current.kind = .endOfInput →
      statement d (v.push (ts ++ us)) = .ok a v := by
  obtain hquery | ⟨q, u, hq, hsemicolon, rfl⟩ := after_query_of_statement_eq_error h
  · cases ts with
    | nil =>
      obtain ⟨us, q, hunended, hus⟩ := begins_query d
      refine ⟨us, .select q, hunended, fun v hv => ?_⟩
      exact statement_of_end (hus v (.inr hv)).2 hv
    | cons c ts =>
      obtain ⟨us, q, hunended, hus⟩ := (continues_query d).viable.complete trivial hquery
      refine ⟨us, .select q, hunended, fun v hv => ?_⟩
      exact statement_of_end (hus v (.inr hv)).2 hv
  · have hu : u = u.tail.push [u.current] := TokenStream.eq_push_current (by rw [hsemicolon]; nofun)
    have viable := (continues_query d).viable
    obtain ⟨us, hus⟩ := (isLeftOf_of_ok viable.forward hq).exists_push
    obtain rfl : ts = us ++ [u.current] := by
      rw [hu, ← TokenStream.push_append] at hus
      exact u.tail.push_injective hus
    refine ⟨[], .select q, unended_nil, fun v hv => ?_⟩
    rw [List.append_nil, TokenStream.push_append]
    rw [hus] at hq
    have hread : query d ((v.push [u.current]).push us) = .ok q (v.push [u.current]) :=
      viable.stable trivial hq (.inr ⟨trivial, .inr (.inl hsemicolon), .inr (.inl hsemicolon)⟩)
    exact statement_of_semicolon hread hsemicolon hv

end Parser

/-- The tokens that have been passed where a dialect's parser fails are the beginning of a
statement. -/
theorem TokenStream.exists_statement {d : Dialect} {tokens : List Token} {e : SyntaxError}
    {s : TokenStream} (h : (ofList tokens).statement d = (.error e, s)) :
    ∃ us a, Unended us ∧ ∀ stop : Token, stop.kind = .endOfInput →
      ((ofList (tokens.take (s.position tokens) ++ us ++ [stop])).statement d).1 = .ok a := by
  have hleft : s.IsLeftOf (ofList tokens) := by
    have hleft := isLeftOf_statement d (ofList tokens)
    rwa [h] at hleft
  obtain ⟨ts, hts⟩ := hleft.exists_push
  have hpassed : tokens.take (s.position tokens) = ts := by
    have hrest := hleft.take_append_rest
    rw [hts] at hrest
    exact List.append_cancel_right hrest
  have hunended : Unended ts := fun t ht => by
    have hmem : t ∈ (ofList tokens).rest := hts ▸ List.mem_append_left _ ht
    exact kind_ne_of_mem_ofList hmem
  have herror : Parser.statement d (s.push ts) = .error e s := by
    rw [← hts]
    unfold statement at h
    cases hs : Parser.statement d (ofList tokens) <;> simp_all
  obtain ⟨us, a, hus, hcomplete⟩ := exists_statement_push herror
  refine ⟨us, a, hus, fun stop hstop => ?_⟩
  rw [hpassed, ofList_append_singleton (hunended.append hus) hstop, statement,
    hcomplete ⟨[], stop.span, stop.lexeme⟩ rfl]

/-- The tokens of `SELECT 1 NOT`, which are passed up to `NOT`. -/
def danglingNot : List Token :=
  [⟨.keyword .SELECT, ⟨0, 6⟩, "SELECT"⟩, ⟨.integer 1, ⟨7, 8⟩, "1"⟩, ⟨.keyword .NOT, ⟨9, 12⟩, "NOT"⟩,
    ⟨.endOfInput, .at 12, ""⟩]

theorem TokenStream.exists_statement_danglingNot :
    (ofList danglingNot).statement .generic =
        (.error ⟨.unexpected (.token .endOfInput) (.keyword .NOT), ⟨9, 12⟩⟩,
          ⟨[⟨.keyword .NOT, ⟨9, 12⟩, "NOT"⟩], .at 12, ""⟩) ∧
      ∃ us a, Unended us ∧ ∀ stop : Token, stop.kind = .endOfInput →
        ((ofList (danglingNot.take 2 ++ us ++ [stop])).statement .generic).1 = .ok a := by
  have h : (ofList danglingNot).statement .generic =
      (.error ⟨.unexpected (.token .endOfInput) (.keyword .NOT), ⟨9, 12⟩⟩,
        ⟨[⟨.keyword .NOT, ⟨9, 12⟩, "NOT"⟩], .at 12, ""⟩) := by
    rfl
  have hposition : position danglingNot ⟨[⟨.keyword .NOT, ⟨9, 12⟩, "NOT"⟩], .at 12, ""⟩ = 2 := by
    rfl
  exact ⟨h, hposition ▸ exists_statement h⟩

end SqlDialects
