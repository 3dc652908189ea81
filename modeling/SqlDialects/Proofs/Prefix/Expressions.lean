import Mathlib
import SqlDialects.Proofs.Prefix.Calls

/-!
# Prefixes of expressions

How the tokens of operands, predicates and whole expressions are completed wherever the parser
stops, if this holds of what is nested in them.
-/

namespace SqlDialects.Parser

section Follow

variable {x : Token} {m : Nat}

theorem FollowsExpression.not_callWord (h : FollowsExpression m x) :
    x.kind ≠ .keyword .IGNORE ∧ x.kind ≠ .keyword .OVER := by
  obtain (h | h) | h | h | h | h | ⟨-, h⟩ := h <;> simp [h]

/-- A token behind the alternatives of `CASE`. -/
def FollowsClauses (x : Token) : Prop :=
  x.kind = .keyword .END

theorem FollowsClauses.followsExpression (h : FollowsClauses x) (m : Nat) :
    FollowsExpression m x :=
  .inr (.inr (.inr (.inr (.inl h))))

end Follow

/-- What follows the alternatives of `CASE`. -/
def caseEnd (g : Nested) (operand : Option Expr) (clauses : List WhenClause) : Parser Expr := do
  let otherwise ← if ← accept (.keyword .ELSE) then some <$> g.expression 0 else pure none
  expect (.keyword .END)
  return .caseOf operand clauses otherwise

/-- What follows `CASE` and its operand. -/
def caseClauses (g : Nested) (operand : Option Expr) : Parser Expr := do
  let clauses ← many (whenClause g)
  if clauses.isEmpty then unexpected (.token (.keyword .WHEN)) else caseEnd g operand clauses

theorem caseBody_eq (g : Nested) :
    caseBody g = kind >>= fun k =>
      (if k = .keyword .WHEN then pure none else some <$> g.expression 0) >>= caseClauses g := by
  have clauses (operand : Option Expr) : caseClauses g operand = (do
      let clauses ← many (whenClause g)
      if clauses.isEmpty then unexpected (.token (.keyword .WHEN))
      let otherwise ← if ← accept (.keyword .ELSE) then some <$> g.expression 0 else pure none
      expect (.keyword .END)
      return .caseOf operand clauses otherwise) := by
    refine congrArg (many (whenClause g) >>= ·) (funext fun clauses => ?_)
    split
    · rfl
    · rfl
  funext s
  rw [caseBody, kind_bind, kind_bind, funext clauses]
  split
  · rfl
  · rfl

/-- An operand that begins with a name. -/
def namedAt (d : Dialect) (g : Nested) (t : Token) : Parser Expr :=
  match t.identifier? d with
  | some first => do
    advance
    named d g first
  | none => unexpected .expression

/-- A function whose name counts as one only before a parenthesis. -/
def functionAt (g : Nested) (t : Token) : Parser Expr := do
  if (← second) = .symbol .leftParen then
    advance
    return .call (← call g t.lexeme)
  else unexpected .expression

/-- An operand that begins with a token. `LEFT` and `RIGHT` are reserved, so that they are nothing
but functions. -/
def primaryAt (d : Dialect) (g : Nested) (t : Token) : Parser Expr :=
  match literal? d t.kind with
  | some value => do
    advance
    return .literal value
  | none =>
    match t.kind with
    | .symbol .star => do
      advance
      return .wildcard []
    | .symbol .leftParen => group g
    | .keyword .CAST => cast d g
    | .keyword .CASE => caseOf g
    | .keyword .EXISTS => do
      advance
      return .existsRow (← parenthesized g.query)
    | .keyword .LEFT | .keyword .RIGHT => functionAt g t
    | _ => namedAt d g t

theorem primary_eq (d : Dialect) (g : Nested) : primary d g = current >>= primaryAt d g := by
  funext s
  have function {k : Keyword} (hk : s.current.kind = .keyword k) (hreserved : k.isReserved = true) :
      (do
        if (← second) = .symbol .leftParen then
          advance
          return .call (← call g s.current.lexeme)
        else namedOperand d g : Parser Expr) s = functionAt g s.current s := by
    have hname : s.current.identifier? d = none := by
      rw [Token.identifier?, hk]
      exact if_pos hreserved
    show (if s.second = _ then _ else _ : Parser Expr) s =
      (if s.second = _ then _ else _ : Parser Expr) s
    split
    · rfl
    · rw [namedOperand, current_bind, hname]
  rw [primary, current_bind, current_bind, primaryAt]
  cases literal? d s.current.kind with
  | some value => rfl
  | none =>
    dsimp only
    generalize hk : s.current.kind = k
    cases k with
    | keyword word =>
      cases word with
      | LEFT => exact function hk rfl
      | RIGHT => exact function hk rfl
      | _ => rfl
    | symbol symbol => cases symbol <;> rfl
    | _ => rfl

section Grammar

variable {d : Dialect} {g h : Nested} (hg : g.Viable h)

/-! ## Names -/

theorem viable_pathPart (e : Expr) :
    Viable (FollowsExpression 13) (pathPart d e) (pathPart d e) := by
  unfold pathPart
  split
  · refine .acceptThen (.symbol .dot) (by decide) ?_ ?_ (.pure none)
    · refine .acceptThen (.symbol .star) (by decide) (.pure _) (.pure (fun _ _ _ => id) _) ?_
      exact .name (fun _ => .pure _) fun _ => .pure (fun _ hx _ => hx.plain) _
    · exact ⟨[word], _, by decide, fun _ _ => ⟨fun _ => id, rfl⟩⟩
  · exact .pure none

theorem pathPart_stop {v : TokenStream} (hv : FollowsExpression 13 v.current) (e : Expr) :
    pathPart d e v = .ok none v := by
  have hdot : v.current.kind ≠ .symbol .dot := hv.kind_ne_symbol nofun
  unfold pathPart
  split
  · exact bind_of_ok (accept_of_kind_ne hdot) _
  · rfl

theorem begins_named (first : String) :
    Begins (FollowsExpression 13) (FollowsExpression 13) (named d h first) :=
  .skip (fun _ hx => hx) (a := .column [] first) fun v hv => by
    rw [named, kind_bind, if_neg (hv.kind_ne_symbol (s := .leftParen) nofun),
      iterate_of_none (progresses_pathPart d) (pathPart_stop hv _)]

include hg

theorem viable_named (first : String) :
    Viable (FollowsExpression 13) (named d g first) (named d h first) := by
  refine .kind (fun k => ?_) fun _ k k' hk hk' => ?_
  · split
    · exact ((viable_call hg first fun _ hx => hx.not_callWord).map Expr.call).anywhere
    · exact (ViableAt.iterate viable_pathPart (progresses_pathPart d) (progresses_pathPart d)
        (fun e _ hv => pathPart_stop hv e) _).anywhere
  · rw [if_neg (hk.ne (by decide)), if_neg (hk'.ne (by decide))]

/-! ## Operands of several parts -/

theorem viable_cast {F : Token → Prop} : Viable F (cast d g) (cast d h) := by
  have begins (operand : Expr) : Begins Closes (fun _ => True) (do
      return Expr.cast operand (← dataType d)) :=
    .bind (((begins_dataType d).before fun _ hx => hx.followsType).mono fun _ _ => trivial)
      fun _ => .pure (fun _ hx => hx) _
  have castAs (operand : Expr) : Begins Closes (FollowsExpression 0) (do
      expect (.keyword .AS)
      return Expr.cast operand (← dataType d)) :=
    .expect (by decide) (.inr (.inl rfl)) (begins operand)
  refine .expect (.keyword .CAST) nofun (.parenthesized ?_ ?_) ?_
  · refine ((hg.expression 0).mono nofun id (fun _ _ => trivial) fun _ hx => hx).bind
      (fun operand => ?_) castAs
    refine .expect (.keyword .AS) nofun ?_ ((begins operand).mono fun _ _ _ => id)
    exact ((viable_dataType d).before fun _ hx => hx.followsType).map _
  · exact ((hg.one 0).mono fun _ _ => trivial).bind castAs
  · exact .parenthesized (fun _ => id) (((hg.one 0).mono fun _ _ => trivial).bind castAs)

theorem viable_whenClause : Viable FollowsClauses (whenClause g) (whenClause h) := by
  have value (condition : Expr) : Begins FollowsClauses Plain (do
      return some (WhenClause.mk condition (← h.expression 0))) :=
    (hg.begins fun _ hx => hx.followsExpression 0).bind fun _ => .pure (fun _ hx => hx) _
  have thenValue (condition : Expr) : Begins FollowsClauses (FollowsExpression 0) (do
      expect (.keyword .THEN)
      return some (WhenClause.mk condition (← h.expression 0))) :=
    .expect (by decide) (.inr (.inr (.inl rfl))) ((value condition).mono fun _ _ => trivial)
  refine .acceptThen (.keyword .WHEN) (by decide) ?_ ?_ (.pure none)
  · refine (hg.expression 0).bind (fun condition => ?_) thenValue
    refine .expect (.keyword .THEN) nofun ?_ ((value condition).mono fun _ _ _ => id)
    exact ((hg.expression 0).before fun _ hx => hx.followsExpression 0).map _
  · exact ((hg.one 0).mono fun _ _ _ => id).bind thenValue

omit hg in
theorem whenClause_stop {v : TokenStream} (hv : FollowsClauses v.current) :
    whenClause h v = .ok none v :=
  bind_of_ok (accept_of_kind_ne (by rw [hv]; nofun)) _

/-- At least one alternative is needed. -/
theorem begins_many_whenClause : ∃ us clauses, clauses ≠ [] ∧ Unended us ∧ ∀ v : TokenStream,
    FollowsClauses v.current → (v.push us).current.kind = .keyword .WHEN ∧
      many (whenClause h) (v.push us) = .ok clauses v := by
  obtain ⟨us, a, hunended, hus⟩ := hg.one 0
  refine ⟨sample (.keyword .WHEN) :: (us ++ sample (.keyword .THEN) :: us), [⟨a, a⟩], nofun,
    (hunended.append (hunended.cons (by decide))).cons (by decide), fun v hv => ⟨rfl, ?_⟩⟩
  have hclause : whenClause h (v.push (sample (.keyword .WHEN) ::
      (us ++ sample (.keyword .THEN) :: us))) = .ok (some ⟨a, a⟩) v := by
    refine (bind_of_ok (accept_of_kind (k := .keyword .WHEN) rfl) _).trans ?_
    rw [TokenStream.tail_push_cons, TokenStream.push_append]
    refine (bind_of_ok (hus _ (.inr (.inr (.inl rfl)))).2 _).trans ?_
    refine (bind_of_ok (expect_of_kind (k := .keyword .THEN) rfl) _).trans ?_
    exact bind_of_ok (hus v (hv.followsExpression 0)).2 _
  have progress := progresses_whenClause hg.passing'
  rw [many_eq progress, bind_of_ok hclause]
  exact bind_of_ok (many_of_none progress (whenClause_stop hv)) _

omit hg in
/-- Where there is no alternative, nothing is passed. -/
theorem many_whenClause_ne_nil {s s' : TokenStream} {clauses : List WhenClause}
    (hclauses : many (whenClause h) s = .ok clauses s') (hs : s' ≠ s)
    (hprogress : Progresses (whenClause h)) : clauses ≠ [] := by
  rintro rfl
  rw [many_eq hprogress] at hclauses
  obtain ⟨o, t, ho, hrest⟩ := bind_eq_ok.mp hclauses
  cases o with
  | some clause =>
    obtain ⟨_, _, _, hnil⟩ := bind_eq_ok.mp hrest
    cases hnil
  | none =>
    cases hrest
    by_cases hwhen : s.current.kind = .keyword .WHEN
    · obtain ⟨_, _, _, hclause⟩ := bind_eq_ok.mp ((bind_of_ok (accept_of_kind hwhen) _).symm.trans ho)
      obtain ⟨_, _, _, hclause⟩ := bind_eq_ok.mp hclause
      obtain ⟨_, _, _, hsome⟩ := bind_eq_ok.mp hclause
      cases hsome
    · cases (bind_of_ok (accept_of_kind_ne hwhen) _).symm.trans ho
      exact hs rfl

section Alternatives

variable {F : Token → Prop}

theorem viable_caseEnd (operand : Option Expr) (clauses : List WhenClause) :
    Viable F (caseEnd g operand clauses) (caseEnd h operand clauses) := by
  have shut (otherwise : Option Expr) : Begins F FollowsClauses (do
      expect (.keyword .END)
      return Expr.caseOf operand clauses otherwise) :=
    .expect (by decide) rfl (.pure (fun _ _ => trivial) _)
  have value : Begins F Plain (do
      let otherwise ← some <$> h.expression 0
      expect (.keyword .END)
      return Expr.caseOf operand clauses otherwise) :=
    .bind ((hg.begins fun _ hx => hx.followsExpression 0).bind fun _ => .pure (fun _ hx => hx) _) shut
  refine .accept (.keyword .ELSE) (by decide) ?_ (value.mono fun _ _ _ => id) ?_
  · refine (((hg.expression 0).map some).before fun _ hx => hx.followsExpression 0).bind
      (fun otherwise => ?_) shut
    exact .expect (.keyword .END) nofun (.pure _) (.pure (fun _ _ _ => id) _)
  · exact .expect (.keyword .END) nofun (.pure _) (.pure (fun _ _ _ => id) _)

omit hg in
theorem begins_caseEnd (operand : Option Expr) (clauses : List WhenClause) :
    Begins F FollowsClauses (caseEnd h operand clauses) :=
  .accept (fun _ hx => by rw [hx]; nofun) (.expect (by decide) rfl (.pure (fun _ _ => trivial) _))

theorem viable_caseClauses (operand : Option Expr) :
    Viable F (caseClauses g operand) (caseClauses h operand) := by
  have progress := progresses_whenClause hg.passing'
  refine ViableAt.bindOf (Q := (· ≠ [])) (K := FollowsClauses)
    ((viable_whenClause hg).many (progresses_whenClause hg.passing) progress fun _ => whenClause_stop)
    (fun clauses => ?_) (.inl id) (fun c ts clauses hclauses => ?_) fun clauses hclauses => ?_
  · split
    · exact .unexpected _ _
    · exact viable_caseEnd hg operand clauses
  · exact many_whenClause_ne_nil (hclauses ⟨[sample (.keyword .END)], .at 0, ""⟩ rfl)
      (TokenStream.push_cons_ne _ c ts).symm progress
  · rw [if_neg (by simpa using hclauses)]
    exact begins_caseEnd operand clauses

theorem begins_caseClauses (operand : Option Expr) :
    Begins F (fun x => x.kind = .keyword .WHEN) (caseClauses h operand) := by
  obtain ⟨us, clauses, hclauses, hunended, hus⟩ := begins_many_whenClause hg
  obtain ⟨us', a, hunended', hus'⟩ := begins_caseEnd (F := F) (h := h) operand clauses
  refine ⟨us ++ us', a, hunended.append hunended', fun v hv => ?_⟩
  obtain ⟨hkind, hmany⟩ := hus (v.push us') (hus' v hv).1
  rw [TokenStream.push_append]
  refine ⟨hkind, (bind_of_ok hmany _).trans ?_⟩
  rw [if_neg (by simpa using hclauses)]
  exact (hus' v hv).2

theorem viable_caseOf : Viable F (caseOf g) (caseOf h) := by
  have body : Viable F (caseBody g) (caseBody h) := by
    rw [caseBody_eq, caseBody_eq]
    refine .kind (fun k => ?_) fun _ k k' hk hk' => ?_
    · split
      · exact (viable_caseClauses hg none).anywhere
      · exact (((hg.expression 0).map some).bind (viable_caseClauses hg) fun operand =>
          (begins_caseClauses hg operand).mono fun _ hx => .inr (.inr (.inr (.inl hx)))).anywhere
    · rw [if_neg (hk.ne (by decide)), if_neg (hk'.ne (by decide))]
  have start : Begins F (fun x => x.kind = .keyword .WHEN) (caseBody h) := by
    rw [caseBody_eq]
    refine .kind (fun _ hx => by rw [hx]) ?_
    exact begins_caseClauses hg none
  rw [caseOf_eq, caseOf_eq]
  exact .expect (.keyword .CASE) nofun body (start.mono fun _ _ _ => id)

end Alternatives

section Parentheses

variable {α : Type} {p q : Parser α} (f : Select → α)

/-- A query, or what else may stand in its place. -/
theorem viable_queryOr (hp : Viable Closes p q) :
    Viable Closes (do if (← kind) = .keyword .SELECT then return f (← g.query) else p)
      (do if (← kind) = .keyword .SELECT then return f (← h.query) else q) := by
  refine .kind (fun k => ?_) fun _ k k' hk hk' => ?_
  · split
    · exact ((hg.query.before fun _ => Closes.followsQuery).map f).anywhere
    · exact hp.anywhere
  · rw [if_neg (hk.ne (by decide)), if_neg (hk'.ne (by decide))]

omit hg in
theorem begins_queryOr (hq : Begins Closes (· = Parser.one) q) :
    Begins Closes (· = Parser.one)
      (do if (← kind) = .keyword .SELECT then return f (← h.query) else q) := by
  refine .kind (k := Parser.one.kind) (fun _ hx => by rw [hx]) ?_
  rw [if_neg nofun]
  exact hq

end Parentheses

theorem viable_group {F : Token → Prop} : Viable F (group g) (group h) := by
  have paren : Viable Closes (do return Expr.paren (← g.expression 0))
      (do return Expr.paren (← h.expression 0)) :=
    ((hg.expression 0).before fun _ hx => hx.followsQuery.followsExpression 0).map Expr.paren
  have start : Begins Closes (· = Parser.one) (do return Expr.paren (← h.expression 0)) :=
    ((hg.one 0).before fun _ hx => hx.followsQuery.followsExpression 0).bind fun _ =>
      .pure (fun _ hx => hx) _
  exact .parenthesized ((viable_queryOr hg Expr.subquery paren).mono nofun id (fun _ => id) fun _ => id)
    ((begins_queryOr Expr.subquery start).mono fun _ _ => trivial)

theorem viable_namedAt {u : Token} :
    ViableAt True True (fun x => x = u) (FollowsExpression 13) (namedAt d g u) (namedAt d h u) := by
  unfold namedAt
  cases hname : u.identifier? d with
  | none => exact .unexpected _ _
  | some first =>
    refine .advance (fun _ _ hx => hx ▸ kind_ne_of_identifier? hname) (viable_named hg first) ?_
    exact fun _ _ => (begins_named first).mono fun _ hx _ => hx.plain _

theorem viable_functionAt {u : Token} (hpairs : ∀ k, Pairs u.kind k ↔ k = .symbol .leftParen) :
    ViableAt True True (fun x => x = u) (FollowsExpression 13) (functionAt g u)
      (functionAt h u) := by
  have call' : Viable (FollowsExpression 13) (do return Expr.call (← call g u.lexeme))
      (do return Expr.call (← call h u.lexeme)) :=
    (viable_call hg _ fun _ hx => hx.not_callWord).map Expr.call
  refine .second hpairs (fun _ hx => congrArg Token.kind hx) (fun _ _ => call'.anywhere) (fun s a s' _ ha => ?_)
    rfl ?_ (fun _ => rfl) (.unexpected _ _)
  · exact (passes_call hg.passing.forward u.lexeme).bind (fun _ => goesForward_congruence.pure _) ha
  · exact (begins_call hg u.lexeme fun _ hx => hx.not_callWord).bind fun _ => .pure (fun _ hx => hx) _

omit hg in
theorem primaryAt_of_isEnd {t : Token} (ht : IsEnd t.kind) :
    primaryAt d h t = unexpected .expression := by
  have hname : namedAt d h t = unexpected .expression := by
    rw [namedAt, ViableAt.identifier?_of_isEnd ht]
  obtain ht | ht | ht := ht <;> rw [primaryAt, ht] <;> exact hname

theorem viable_primary : Viable (FollowsExpression 13) (primary d g) (primary d h) := by
  have alone (u : Token) (hu : u.kind ≠ .endOfInput) (value : Expr) :
      ViableAt True True (fun x => True ∧ x = u) (FollowsExpression 13)
        (do advance; return value) (do advance; return value) :=
    .advance (fun _ _ hx => hx.2 ▸ hu) (.pure _) fun _ _ => .pure (fun _ hy _ => hy.plain _) _
  rw [primary_eq, primary_eq]
  refine .current (fun u => ?_) fun _ t u ht hu => ?_
  · unfold primaryAt
    split
    · refine alone u (fun hu => ?_) _
      simp_all [literal?]
    · split <;> rename_i hu
      · exact alone u (by simp [hu]) _
      · exact (viable_group hg).anywhere
      · exact (viable_cast hg).anywhere
      · exact (viable_caseOf hg).anywhere
      · have start : Begins Closes (fun _ => True) h.query :=
          (hg.select.before fun _ => Closes.followsQuery).mono fun _ _ => trivial
        have hend : u.kind ≠ .endOfInput := by simp [hu]
        refine .advance (fun _ _ hx => hx.2 ▸ hend) (.map (.parenthesized ?_ start) _) ?_
        · exact hg.query.mono False.elim id (fun _ => id) fun _ => Closes.followsQuery
        · rintro _ ⟨-, rfl⟩
          rw [hu]
          exact .bind (.parenthesized (fun _ => id) start) fun _ => .pure (fun _ hx => hx) _
      · exact (viable_functionAt hg (by rw [hu]; exact fun _ => Iff.rfl)).mono id id (fun _ hx => hx.2) fun _ hx => hx
      · exact (viable_functionAt hg (by rw [hu]; exact fun _ => Iff.rfl)).mono id id (fun _ hx => hx.2) fun _ hx => hx
      · exact (viable_namedAt hg).mono id id (fun _ hx => hx.2) fun _ hx => hx
  · rw [primaryAt_of_isEnd ht, primaryAt_of_isEnd hu]

theorem viable_operand : Viable (FollowsExpression 13) (operand d g) (operand d h) := by
  refine .kind (fun k => ?_) fun _ k k' hk hk' => ?_
  · split
    · rename_i op power hop
      have follows (x : Token) (hx : FollowsExpression 13 x) : FollowsExpression power x :=
        hx.mono fun _ => by
          unfold unaryOp? at hop
          split at hop <;> cases hop <;> decide
      refine .advance (fun _ _ hx he => ?_) (((hg.expression power).before follows).map _) fun x _ => ?_
      · rw [← hx.2, he] at hop
        cases hop
      · exact ((hg.begins follows).mono fun _ hx _ => hx _).bind fun _ => .pure (fun _ hx => hx) _
    · exact (viable_primary hg).anywhere
  · have hnone {k : TokenKind} (hk : IsEnd k) : unaryOp? k = none := by
      obtain rfl | rfl | rfl := hk <;> rfl
    rw [hnone hk, hnone hk']

/-! ## What follows an operand -/

theorem viable_inList {F : Token → Prop} (left : Expr) (negated : Bool) :
    Viable F (inList g left negated) (inList h left negated) := by
  have list : Viable Closes (expressionList g) (expressionList h) :=
    (viable_expressionList hg).before fun _ hx => hx.followsQuery.followsExpression 0
  have start : Begins Closes (· = Parser.one) (expressionList h) :=
    (begins_expressionList hg).before fun _ hx => hx.followsQuery.followsExpression 0
  exact (ViableAt.parenthesized
    ((viable_queryOr hg (fun query => [Expr.subquery query]) list).mono nofun id (fun _ => id) fun _ => id)
    ((begins_queryOr _ start).mono fun _ _ => trivial)).map _

theorem begins_inList {F : Token → Prop} (left : Expr) (negated : Bool) :
    Begins F (fun x => x.kind = .symbol .leftParen) (inList h left negated) := by
  have start : Begins Closes (· = Parser.one) (expressionList h) :=
    (begins_expressionList hg).before fun _ hx => hx.followsQuery.followsExpression 0
  exact .bind (.parenthesized rfl ((begins_queryOr _ start).mono fun _ _ => trivial))
    fun _ => .pure (fun _ hx => hx) _

theorem begins_betweenEnd (left low : Expr) (negated : Bool) :
    Begins (FollowsExpression 8) (FollowsExpression 8) (do
      expect (.keyword .AND)
      return Expr.between left low (← h.expression 8) negated) :=
  .expect (by decide) (.inr (.inr (.inr (.inr (.inr ⟨by decide, rfl⟩)))))
    (((hg.one 8).mono fun _ _ => trivial).bind fun _ => .pure (fun _ hx => hx) _)

theorem viable_between (left : Expr) (negated : Bool) :
    Viable (FollowsExpression 8) (between g left 8 negated) (between h left 8 negated) := by
  refine (hg.expression 8).bind (fun low => ?_) fun low => begins_betweenEnd hg left low negated
  refine .expect (.keyword .AND) nofun ((hg.expression 8).map _) ?_
  exact .bind ((hg.one 8).mono fun _ _ _ => id) fun _ => .pure (fun _ hx => hx) _

theorem begins_between (left : Expr) (negated : Bool) :
    Begins (FollowsExpression 8) (· = Parser.one) (between h left 8 negated) :=
  (hg.one 8).bind fun low => begins_betweenEnd hg left low negated

theorem viable_pattern (left : Expr) (op : BinaryOp) (feature : Option Dialect.Feature)
    (negated : Bool) {G : Prop} :
    ViableAt True G (fun x => x.kind ≠ .endOfInput) (FollowsExpression 8)
      (pattern d g left 8 op feature negated) (pattern d h left 8 op feature negated) := by
  have operator : ViableAt True G (fun x => x.kind ≠ .endOfInput) (FollowsExpression 8)
      (do
        advance
        return Expr.binary left (if negated then op.negated?.getD op else op) (← g.expression 8))
      (do
        advance
        return Expr.binary left (if negated then op.negated?.getD op else op) (← h.expression 8)) :=
    .advance (fun _ _ hx => hx) ((hg.expression 8).map _) fun _ _ =>
      ((hg.begins fun _ hx => hx).mono fun _ hx _ => hx _).bind fun _ => .pure (fun _ hx => hx) _
  cases feature with
  | none => exact operator
  | some f => exact .require d f operator

/-- What follows `IS`. -/
def isNull (left : Expr) : Parser (Option Expr) := do
  let negated ← accept (.keyword .NOT)
  expect (.keyword .NULL)
  return some (.isNull left negated)

/-- The predicate behind `NOT`, by the token that follows it. -/
def negatedAt (d : Dialect) (g : Nested) (left : Expr) (power : Nat) (next : TokenKind) :
    Parser (Option Expr) :=
  match next with
  | .keyword .IN => do
    advance
    return some (← inList g left true)
  | .keyword .BETWEEN => do
    advance
    return some (← between g left power true)
  | _ =>
    match patternOp? next with
    | some (op, feature) => do
      return some (← pattern d g left power op feature true)
    | none => return none

omit hg in
theorem negatedPredicate_eq (left : Expr) (power : Nat) :
    negatedPredicate d g left power = second >>= fun next =>
      if next = .keyword .IN ∨ next = .keyword .BETWEEN ∨ (patternOp? next).isSome = true then
        advance >>= fun _ => negatedAt d g left power next
      else pure none := by
  refine congrArg (second >>= ·) (funext fun next => ?_)
  split
  · rfl
  · rfl
  · rename_i hin hbetween
    have hnegated : negatedAt d g left power next =
        match patternOp? next with
        | some (op, feature) => do return some (← pattern d g left power op feature true)
        | none => return none := by
      unfold negatedAt
      split
      · exact absurd rfl hin
      · exact absurd rfl hbetween
      · rfl
    rw [hnegated]
    cases patternOp? next with
    | none => exact (if_neg (by rintro (h | h | h) <;> [exact hin h; exact hbetween h; cases h])).symm
    | some op => exact (if_pos (.inr (.inr rfl))).symm

theorem passes_negatedAt (left : Expr) (power : Nat) {next : TokenKind}
    (hnext : next = .keyword .IN ∨ next = .keyword .BETWEEN ∨ (patternOp? next).isSome = true) :
    Passes (negatedAt d g left power next) := by
  have forward := goesForward_congruence
  unfold negatedAt
  split
  · exact .after forward.advance fun _ => (passes_inList hg.passing left true).bind fun _ =>
      forward.pure _
  · exact .after forward.advance fun _ => (passes_between hg.passing left power true).bind fun _ =>
      forward.pure _
  · split
    · exact (passes_pattern hg.passing left power _ _ true).bind fun _ => forward.pure _
    · obtain hnext | hnext | hnext := hnext <;> simp_all

theorem viable_negatedAt (left : Expr) (next : TokenKind) :
    ViableAt True True (fun x => x.kind = next) (FollowsExpression 8)
      (negatedAt d g left 8 next) (negatedAt d h left 8 next) := by
  unfold negatedAt
  split
  · refine .advance (fun _ _ hx => hx ▸ nofun) ((viable_inList hg left true).map some) fun x hx => ?_
    rw [hx]
    exact .bind ((begins_inList hg left true).mono fun _ _ _ => id) fun _ => .pure (fun _ hy => hy) _
  · refine .advance (fun _ _ hx => hx ▸ nofun) ((viable_between hg left true).map some) fun x hx => ?_
    rw [hx]
    exact .bind ((begins_between hg left true).mono fun _ _ _ => id) fun _ => .pure (fun _ hy => hy) _
  · split
    · rename_i op feature hop
      have pattern := viable_pattern (d := d) hg left op feature true (G := True)
      refine (pattern.mono id id (fun x hx he => ?_) fun _ hx => hx).map some
      rw [← hx, he] at hop
      cases hop
    · exact .pure none

/-- `NOT` behind an operand stays where it is unless a predicate follows. -/
theorem viable_negatedPredicate (left : Expr) :
    ViableAt True True (fun x => x.kind = .keyword .NOT) (FollowsExpression 8)
      (negatedPredicate d g left 8) (negatedPredicate d h left 8) := by
  rw [negatedPredicate_eq, negatedPredicate_eq]
  refine .second (l := .keyword .IN) (by exact fun _ => Iff.rfl) (fun _ hx => hx)
    (fun next _ => viable_negatedAt hg left next)
    (fun _ _ _ hs ha => passes_negatedAt hg left 8 hs ha) (.inl rfl) ?_ (fun _ => rfl) (.pure none)
  exact .advance (x := sample (.keyword .IN)) (by decide) rfl
    (.bind ((begins_inList hg left true).mono fun _ _ => trivial) fun _ => .pure (fun _ hx => hx) _)

omit hg in
/-- Every operator takes its operands above the level at which it is looked for. -/
theorem follows_operand {k : TokenKind} {m l power : Nat} {x : Token}
    (hpower : infixPower? k = some (l, power)) (hm : ¬ l < m) (hx : FollowsExpression m x) :
    FollowsExpression power x :=
  hx.mono fun _ => by
    unfold infixPower? at hpower
    split at hpower <;> cases hpower <;> omega

omit hg in
theorem viable_isNull {F : Token → Prop} (left : Expr) : Viable F (isNull left) (isNull left) := by
  have null (negated : Bool) : Viable F
      (do expect (.keyword .NULL); return some (Expr.isNull left negated))
      (do expect (.keyword .NULL); return some (Expr.isNull left negated)) :=
    .expect (.keyword .NULL) nofun (.pure _) (.pure (fun _ _ _ => id) _)
  refine .accept (.keyword .NOT) (by decide) (null true) (.expect (by decide) (fun _ => ?_) ?_) (null false)
  · exact plain_of_kind (x := sample (.keyword .NULL)) (by decide) _
  · exact .pure (fun _ _ => trivial) _

omit hg in
theorem begins_isNull {F : Token → Prop} (left : Expr) :
    Begins F (fun x => x.kind = .keyword .NULL) (isNull left) :=
  .accept (fun _ hx => by rw [hx]; nofun) (.expect (by decide) rfl (.pure (fun _ _ => trivial) _))

omit hg in
theorem infixPower?_of_patternOp? {k : TokenKind} {op : BinaryOp × Option Dialect.Feature}
    (hk : patternOp? k = some op) : infixPower? k = some (7, 8) := by
  unfold patternOp? at hk
  split at hk <;> first | rfl | cases hk

theorem viable_extend (m : Nat) (left : Expr) :
    Viable (FollowsExpression m) (extend d g m left) (extend d h m left) := by
  refine .kind (fun k => ?_) fun _ k k' hk hk' => ?_
  · cases hpower : infixPower? k with
    | none => exact .pure none
    | some powers =>
      obtain ⟨l, power⟩ := powers
      dsimp only
      split
      · exact .pure none
      · rename_i hm
        have follows (x : Token) (hx : FollowsExpression m x) : FollowsExpression power x :=
          follows_operand hpower hm hx
        split
        · refine .advance (fun _ _ hx => hx.2 ▸ nofun) (viable_isNull left) fun x hx => ?_
          rw [hx.2]
          exact (begins_isNull left).mono fun _ _ _ => id
        · refine .advance (fun _ _ hx => hx.2 ▸ nofun) ((viable_inList hg left false).map some) fun x hx => ?_
          rw [hx.2]
          exact .bind ((begins_inList hg left false).mono fun _ _ _ => id) fun _ => .pure (fun _ hy => hy) _
        · cases hpower
          refine .advance (fun _ _ hx => hx.2 ▸ nofun) (((viable_between hg left false).before follows).map some) fun x hx => ?_
          rw [hx.2]
          exact .bind (((begins_between hg left false).before follows).mono fun _ _ _ => id) fun _ => .pure (fun _ hy => hy) _
        · cases hpower
          exact (viable_negatedPredicate hg left).mono id id (fun _ hx => hx.2) follows
        · split
          · rename_i op feature hop
            cases hpower.symm.trans (infixPower?_of_patternOp? hop)
            have operator := viable_pattern (d := d) hg left op feature false (G := True)
            refine (operator.mono id id (fun x hx he => ?_) follows).map some
            rw [← hx.2, he] at hop
            cases hop
          · refine .advance (fun _ x hx he => ?_) (((hg.expression power).before follows).map _) fun x _ => ?_
            · rw [← hx.2, he] at hpower
              cases hpower
            · exact ((hg.begins follows).mono fun _ hx _ => hx _).bind fun _ => .pure (fun _ hx => hx) _
          · exact .pure none
  · have hnone {k : TokenKind} (hk : IsEnd k) : infixPower? k = none := by
      obtain rfl | rfl | rfl := hk <;> rfl
    rw [hnone hk, hnone hk']

theorem viable_expressionOf (m : Nat) :
    Viable (FollowsExpression m) (expressionOf d g m) (expressionOf d h m) := by
  have stop (left : Expr) (v : TokenStream) (hv : FollowsExpression m v.current) :
      extend d h m left v = .ok none v :=
    extend_stop fun _ _ => hv.infixPower?_lt
  have progress := progresses_extend (d := d) hg.passing' m
  refine ((viable_operand hg).before fun _ hx => hx.mono fun _ => by decide).bind (K := FollowsExpression m) (fun left => ?_)
    fun left => ?_
  · exact .iterate (viable_extend hg m) (progresses_extend hg.passing m) progress stop left
  · exact .iterate (fun _ hx => hx) progress stop left

end Grammar

end SqlDialects.Parser
