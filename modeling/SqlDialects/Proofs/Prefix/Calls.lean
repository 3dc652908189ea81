import SqlDialects.Proofs.Prefix.DataTypes

/-!
# Prefixes of orderings and calls

How the tokens of an ordering, of a window and of a call are completed wherever the parser stops, if
this holds of what is nested in them.
-/

namespace SqlDialects.Parser

/-- The second half of a window. -/
def windowOrder (g : Nested) (partition : List Expr) : Parser Window := do
  let order ← if ← accept (.keyword .ORDER) then do
      expect (.keyword .BY)
      orderItems g
    else pure []
  return ⟨partition, order⟩

/-- What stands between the parentheses of a window. -/
def windowBody (g : Nested) : Parser Window := do
  if ← accept (.keyword .PARTITION) then
    expect (.keyword .BY)
    let partition ← expressionList g
    windowOrder g partition
  else windowOrder g []

/-- The arguments of a call that begin with a star. -/
def starred (g : Nested) : Parser (List Expr) := do
  if (← second) = .symbol .rightParen then
    advance
    return [.wildcard []]
  else expressionList g

theorem arguments_starred (g : Nested) (distinct : Bool) :
    arguments g distinct = kind >>= fun k =>
      if distinct = false ∧ k = .symbol .rightParen then pure []
      else if k = .symbol .star then starred g else expressionList g := by
  funext s
  rw [kind_bind, arguments, kind_bind]
  simp only [Bool.and_eq_true, Bool.not_eq_true', decide_eq_true_eq]
  split
  · rfl
  · rw [kind_bind]
    by_cases hstar : s.current.kind = .symbol .star
    · simp only [hstar, true_and, if_true]
      rfl
    · simp only [hstar, false_and, if_false]
      rfl

theorem starred_of_second (g : Nested) {s : TokenStream} (h : s.second = .symbol .rightParen) :
    starred g s = .ok [.wildcard []] s.tail := by
  show (if s.second = _ then _ else _ : Parser (List Expr)) s = _
  rw [if_pos h]
  rfl

theorem starred_of_second_ne (g : Nested) {s : TokenStream} (h : s.second ≠ .symbol .rightParen) :
    starred g s = expressionList g s := by
  show (if s.second = _ then _ else _ : Parser (List Expr)) s = _
  rw [if_neg h]

/-- What follows the arguments of a call. -/
def callEnd (g : Nested) (name : String) (distinct : Bool) (arguments : List Expr) :
    Parser Call := do
  expect (.symbol .rightParen)
  let ignoreNulls ← ignoreNulls
  return ⟨name, arguments, distinct, ignoreNulls, ← optionalWindow g⟩

theorem call_eq (g : Nested) (name : String) :
    call g name = expect (.symbol .leftParen) >>= fun _ => distinctOrAll >>= fun distinct =>
      arguments g distinct >>= callEnd g name distinct := rfl

/-! ## Orderings and calls -/

/-- What is nested is viable, and is completed by a literal and by a query of one. -/
structure Nested.Viable (g h : Nested) : Prop where
  passing : g.Passing
  passing' : h.Passing
  expression (m : Nat) :
    Parser.Viable (FollowsExpression m) (g.expression m) (h.expression m)
  query : Parser.Viable FollowsQuery g.query h.query
  one (m : Nat) : Begins (FollowsExpression m) (· = Parser.one) (h.expression m)
  select : Begins FollowsQuery (· = sample (.keyword .SELECT)) h.query

section Small

variable {E : Prop} {F : Token → Prop}

theorem viable_direction : ViableAt E True (fun _ => True) F direction direction :=
  .acceptThen (.keyword .ASC) (by decide) (.pure _) (.pure (fun _ _ _ => id) _)
    (.acceptThen (.keyword .DESC) (by decide) (.pure _) (.pure (fun _ _ _ => id) _) (.pure _))

theorem begins_direction : Begins FollowsQuery FollowsQuery direction :=
  .skip (fun _ hx => hx) fun v hv => by
    have h (k : Keyword) := accept_of_kind_ne (hv.kind_ne_keyword k)
    exact (bind_of_ok (h .ASC) _).trans (bind_of_ok (h .DESC) _)

theorem viable_nullOrdering : ViableAt E True (fun _ => True) F nullOrdering nullOrdering := by
  refine .acceptThen (.keyword .NULLS) (by decide) ?_ ?_ (.pure _)
  · exact .acceptThen (.keyword .FIRST) (by decide) (.pure _) (.pure (fun _ _ _ => id) _)
      (.acceptThen (.keyword .LAST) (by decide) (.pure _) (.pure (fun _ _ _ => id) _)
        (.unexpected _ _))
  · exact ⟨[sample (.keyword .FIRST)], some .first, by decide, fun _ _ => ⟨fun _ => id, rfl⟩⟩

theorem begins_nullOrdering : Begins FollowsQuery FollowsQuery nullOrdering :=
  .skip (fun _ hx => hx) fun _ hv => bind_of_ok (accept_of_kind_ne (hv.kind_ne_keyword .NULLS)) _

theorem viable_ignoreNulls : ViableAt E True (fun _ => True) F ignoreNulls ignoreNulls := by
  refine .pair (k := .keyword .IGNORE) (l := .keyword .NULLS) (fun _ => Iff.rfl)
    (p := do advance; return true) ?_ (fun s a s' hs h => ?_) ?_
  · exact .advance (fun _ _ hx => hx ▸ nofun) (.pure _) fun x hx =>
      .pure (fun _ _ _ => by rw [hx]; exact id) _
  · cases h
    exact PassAlike.rest_tail_length (hs ▸ nofun)
  · exact ⟨[sample (.keyword .NULLS)], true, by decide, fun _ _ => ⟨rfl, rfl⟩⟩

theorem viable_distinctOrAll : ViableAt E True (fun _ => True) F distinctOrAll distinctOrAll :=
  .acceptThen (.keyword .DISTINCT) (by decide) (.pure _) (.pure (fun _ _ _ => id) _)
    (.accept (.keyword .ALL) (by decide) (.pure _) (.pure (fun _ _ _ => id) _) (.pure _))

theorem begins_distinctOrAll
    (hF : ∀ x, F x → x.kind ≠ .keyword .DISTINCT ∧ x.kind ≠ .keyword .ALL) :
    Begins F F distinctOrAll :=
  .skip (fun _ hx => hx) fun _ hv =>
    (bind_of_ok (accept_of_kind_ne (hF _ hv).1) _).trans
      (bind_of_ok (accept_of_kind_ne (hF _ hv).2) _)

end Small

section Grammar

variable {d : Dialect} {g h : Nested} (hg : g.Viable h)
include hg

theorem Nested.Viable.forward : Nested.Related (fun p _ => GoesForward p) h h :=
  hg.passing'.forward

/-- A literal does for an expression, whatever it follows. -/
theorem Nested.Viable.begins {F : Token → Prop} {m : Nat} (hF : ∀ x, F x → FollowsExpression m x) :
    Begins F (fun x => Plain x) (h.expression m) :=
  ((hg.one m).before hF).mono fun _ hx => hx ▸ plain_one

theorem viable_expressionList :
    Viable (FollowsExpression 0) (expressionList g) (expressionList h) :=
  (hg.expression 0).commaList (hg.forward.expression 0) (fun _ hx => hx.kind_ne_symbol nofun)
    ((hg.one 0).mono fun _ _ => trivial)

theorem begins_expressionList : Begins (FollowsExpression 0) (· = Parser.one) (expressionList h) :=
  (hg.one 0).commaList (hg.forward.expression 0) fun _ hx => hx.kind_ne_symbol nofun

theorem viable_orderItem : Viable FollowsQuery (orderItem g) (orderItem h) := by
  have nulls (key : Expr) (direction : Option Direction) :
      Begins FollowsQuery FollowsQuery (do return (⟨key, direction, ← nullOrdering⟩ : OrderItem)) :=
    begins_nullOrdering.bind fun _ => .pure (fun _ hx => hx) _
  refine (hg.expression 0).bind (fun key => viable_direction.bind
    (fun direction => viable_nullOrdering.map _) (nulls key)) fun key => ?_
  exact (begins_direction.bind (nulls key)).mono fun _ hx => hx.followsExpression 0

theorem begins_orderItem : Begins FollowsQuery (· = Parser.one) (orderItem h) :=
  (hg.one 0).bind fun _ => (begins_direction.bind fun _ => begins_nullOrdering.bind fun _ =>
    .pure (fun _ hx => hx) _).mono fun _ hx => hx.followsExpression 0

theorem viable_orderItems : Viable FollowsQuery (orderItems g) (orderItems h) :=
  (viable_orderItem hg).commaList (goesForward_congruence.orderItem hg.forward)
    (fun _ hx => (hx.followsExpression 0).kind_ne_symbol nofun)
    ((begins_orderItem hg).mono fun _ _ => trivial)

theorem begins_orderItems : Begins FollowsQuery (· = Parser.one) (orderItems h) :=
  (begins_orderItem hg).commaList (goesForward_congruence.orderItem hg.forward)
    fun _ hx => (hx.followsExpression 0).kind_ne_symbol nofun

theorem viable_windowOrder (partition : List Expr) :
    Viable Closes (windowOrder g partition) (windowOrder h partition) := by
  have items := (begins_orderItems hg).before fun _ => Closes.followsQuery
  refine .accept (.keyword .ORDER) (by decide) ?_ ?_ (.pure _)
  · refine .expect (.keyword .BY) nofun ?_ ?_
    · exact ((viable_orderItems hg).before fun _ => Closes.followsQuery).map _
    · exact .bind (items.mono fun _ _ _ => id) fun _ => .pure (fun _ hx => hx) _
  · exact .expect (by decide) (fun _ => id) (.bind (items.mono fun _ _ => trivial) fun _ =>
      .pure (fun _ hx => hx) _)

omit hg in
theorem begins_windowOrder (partition : List Expr) :
    Begins Closes Closes (windowOrder h partition) :=
  .accept (fun _ hx => hx.kind_ne_keyword _) (.pure (fun _ hx => hx) _)

theorem viable_window {F : Token → Prop} : Viable F (window g) (window h) := by
  have order (partition : List Expr) :
      Begins Closes (FollowsExpression 0) (windowOrder h partition) :=
    (begins_windowOrder partition).mono fun _ hx => hx.followsQuery.followsExpression 0
  have body : Viable Closes (windowBody g) (windowBody h) := by
    refine .accept (.keyword .PARTITION) (by decide) ?_ ?_ (viable_windowOrder hg [])
    · refine .expect (.keyword .BY) nofun
        ((viable_expressionList hg).bind (viable_windowOrder hg) order) ?_
      exact .bind ((begins_expressionList hg).mono fun _ _ _ => id) order
    · exact .expect (by decide) (fun _ => id)
        (.bind ((begins_expressionList hg).mono fun _ _ => trivial) order)
  refine .parenthesized (body.mono nofun id (fun _ => id) fun _ => id) ?_
  exact (Begins.accept (fun _ hx => hx.kind_ne_keyword _) (begins_windowOrder [])).mono fun _ _ => trivial

omit hg in
theorem begins_window {F : Token → Prop} :
    Begins F (fun x => x.kind = .symbol .leftParen) (window h) :=
  .parenthesized rfl
    ((Begins.accept (fun _ hx => hx.kind_ne_keyword _) (begins_windowOrder [])).mono fun _ _ => trivial)

omit hg in
theorem passes_window (hg : Nested.Related (fun p _ => GoesForward p) g g) : Passes (window g) := by
  have forward := goesForward_congruence
  have order (partition : List Expr) : GoesForward (windowOrder g partition) := by
    refine .bind (forward.accept _) fun _ => ?_
    split
    · exact .bind (forward.expect _) fun _ => .bind (forward.orderItems hg) fun _ => forward.pure _
    · exact forward.pure _
  refine passes_parenthesized (p := windowBody g) (.bind (forward.accept _) fun _ => ?_)
  split
  · exact .bind (forward.expect _) fun _ => .bind (forward.expressionList hg) order
  · exact order []

theorem viable_optionalWindow {F : Token → Prop} :
    Viable F (optionalWindow g) (optionalWindow h) := by
  refine .pair (k := .keyword .OVER) (l := .symbol .leftParen) (fun _ => Iff.rfl)
    (p := some <$> window g) (q := some <$> window h) ?_ (fun s a s' _ hs => ?_) ?_
  · exact ((viable_window hg).map some).anywhere
  · exact (passes_window hg.passing.forward).bind (fun _ => goesForward_congruence.pure _) hs
  · exact begins_window.bind fun _ => .pure (fun _ hx => hx) _

theorem passes_expressionList : Passes (expressionList g) :=
  passes_commaList (hg.passing.expression 0) (hg.passing.forward.expression 0)

/-- A star is the only argument if a parenthesis closes the call behind it, and an operand
otherwise. -/
theorem viable_starred :
    ViableAt False True (fun x => x.kind = .symbol .star) Closes (starred g) (starred h) where
  forward := by
    refine .bind goesForward_congruence.second fun _ => ?_
    split
    · exact .bind goesForward_congruence.advance fun _ => goesForward_congruence.pure _
    · exact goesForward_congruence.expressionList hg.passing.forward
  stable t w ts a hstar ha hw := by
    by_cases hsecond : (t.push ts).second = .symbol .rightParen
    · rw [starred_of_second g hsecond] at ha
      obtain ⟨rfl, hts⟩ := EStateM.Result.ok.inj ha
      cases ts with
      | nil =>
        have hpasses := PassAlike.rest_tail_length (s := t.push []) (hstar ▸ nofun)
        rw [hts] at hpasses
        exact absurd hpasses (Nat.lt_irrefl _)
      | cons c ts =>
        obtain rfl := t.eq_nil_of_push hts
        obtain hw | ⟨⟨⟩, -⟩ := hw
        rw [TokenStream.second_push_cons, TokenStream.push_nil, hw.current] at hsecond
        exact starred_of_second h ((TokenStream.second_push_cons c [] w).trans hsecond)
    · rw [starred_of_second_ne g hsecond] at ha
      cases ts with
      | nil => exact absurd (passes_expressionList hg ha) (Nat.lt_irrefl _)
      | cons c ts =>
        have hsecond : (w.push (c :: ts)).second ≠ .symbol .rightParen := by
          obtain hw | ⟨⟨⟩, -⟩ := hw.push_append ts
          rwa [TokenStream.second_push_cons, ← hw.current, ← TokenStream.second_push_cons]
        rw [starred_of_second_ne h hsecond]
        exact (viable_expressionList hg).stable trivial ha (hw.imp_right nofun)
  complete s c ts hstar hp := by
    cases ts with
    | nil =>
      refine ⟨[], [.wildcard []], unended_nil, fun v hv => ⟨fun _ => .push_cons ?_ _ _ _ _, ?_⟩⟩
      · rw [hstar]
        exact fun _ => id
      · exact starred_of_second h ((TokenStream.second_push_cons c [] v).trans (congrArg Token.kind hv))
    | cons c' ts =>
      by_cases hc' : c'.kind = .symbol .rightParen
      · rw [after_of_ok (starred_of_second g (s := s.push (c :: c' :: ts)) hc')] at hp
        exact absurd hp (s.push_cons_ne c' ts)
      · rw [after, starred_of_second_ne g (s := s.push (c :: c' :: ts)) hc', ← after] at hp
        obtain ⟨us, a, hunended, hus⟩ := (viable_expressionList hg).complete trivial hp
        refine ⟨us, a, hunended, fun v hv => ?_⟩
        obtain ⟨hres, ha⟩ := hus v (hv.followsQuery.followsExpression 0)
        exact ⟨hres, (starred_of_second_ne h (s := v.push (c :: c' :: ts ++ us)) hc').trans ha⟩

theorem viable_arguments (distinct : Bool) :
    ViableAt False True (fun _ => True) Closes (arguments g distinct) (arguments h distinct) := by
  rw [arguments_starred, arguments_starred]
  refine .kind (fun k => ?_) nofun
  split
  · exact .pure []
  · split
    · exact (viable_starred hg).mono id id (fun _ hx => hx.2.trans ‹_›) fun _ => id
    · exact (viable_expressionList hg).mono nofun id (fun _ _ => trivial) fun _ hx =>
        hx.followsQuery.followsExpression 0

theorem begins_arguments (distinct : Bool) :
    Begins Closes (· = Parser.one) (arguments h distinct) := by
  rw [arguments_starred]
  refine .kind (k := Parser.one.kind) (fun _ hx => by rw [hx]) ?_
  rw [if_neg (by rintro ⟨-, ⟨⟩⟩), if_neg nofun]
  exact (begins_expressionList hg).before fun _ hx => hx.followsQuery.followsExpression 0

omit hg in
theorem begins_callEnd {F : Token → Prop} (name : String) (distinct : Bool) (arguments : List Expr)
    (hF : ∀ x, F x → x.kind ≠ .keyword .IGNORE ∧ x.kind ≠ .keyword .OVER) :
    Begins F Closes (callEnd h name distinct arguments) :=
  .expect (by decide) rfl <| .bind ((Begins.pair (fun _ hx => (hF _ hx).1) _ _).mono fun _ _ => trivial)
    fun _ => .bind (.pair (fun _ hx => (hF _ hx).2) _ _) fun _ => .pure (fun _ hx => hx) _

/-- What may follow a call is none of the words that go on with it. -/
theorem viable_call {F : Token → Prop} (name : String)
    (hF : ∀ x, F x → x.kind ≠ .keyword .IGNORE ∧ x.kind ≠ .keyword .OVER) :
    Viable F (call g name) (call h name) := by
  have shut (distinct : Bool) (arguments : List Expr) :
      Viable F (callEnd g name distinct arguments) (callEnd h name distinct arguments) := by
    have window (ignored : Bool) :
        Begins F F (do return (⟨name, arguments, distinct, ignored, ← optionalWindow h⟩ : Call)) :=
      .bind (.pair (fun _ hx => (hF _ hx).2) _ _) fun _ => .pure (fun _ hx => hx) _
    refine .expect (.symbol .rightParen) nofun
      (viable_ignoreNulls.bind (fun _ => (viable_optionalWindow hg).map _) window) ?_
    exact .bind ((Begins.pair (fun _ hx => (hF _ hx).1) _ _).mono fun _ _ _ => id) window
  have passes (distinct : Bool) (arguments : List Expr) :
      Passes (callEnd g name distinct arguments) :=
    (passes_expect (k := .symbol .rightParen) nofun).bind fun _ =>
      .bind goesForward_congruence.ignoreNulls fun _ =>
        .bind (viable_optionalWindow hg (F := F)).forward fun _ => goesForward_congruence.pure _
  have list (distinct : Bool) :
      Begins F (· = Parser.one) (arguments h distinct >>= callEnd h name distinct) :=
    (begins_arguments hg distinct).bind fun _ => begins_callEnd _ _ _ hF
  rw [call_eq, call_eq]
  refine .expect (.symbol .leftParen) nofun (viable_distinctOrAll.bind (fun distinct =>
    (viable_arguments hg distinct).bindPassing (shut distinct) (passes distinct)
      fun _ => begins_callEnd _ _ _ hF) list) ?_
  have start := begins_distinctOrAll (F := (· = Parser.one)) (by rintro _ rfl; decide)
  exact .bind (start.mono fun _ _ _ => id) list

omit hg in
theorem passes_call (hg : Nested.Related (fun p _ => GoesForward p) g g) (name : String) :
    Passes (call g name) := by
  have forward := goesForward_congruence
  exact (passes_expect (k := .symbol .leftParen) nofun).bind fun _ =>
    .bind forward.distinctOrAll fun _ => .bind (forward.arguments hg _) fun _ =>
      .bind (forward.expect _) fun _ => .bind forward.ignoreNulls fun _ =>
        .bind (forward.optionalWindow hg) fun _ => forward.pure _

theorem begins_call {F : Token → Prop} (name : String)
    (hF : ∀ x, F x → x.kind ≠ .keyword .IGNORE ∧ x.kind ≠ .keyword .OVER) :
    Begins F (fun x => x.kind = .symbol .leftParen) (call h name) := by
  rw [call_eq]
  have start := begins_distinctOrAll (F := (· = Parser.one)) (by rintro _ rfl; decide)
  refine .expect (by decide) rfl (.bind (start.mono fun _ _ => trivial) fun distinct => ?_)
  exact (begins_arguments hg distinct).bind fun _ => begins_callEnd _ _ _ hF

end Grammar

end SqlDialects.Parser
