import SqlDialects.Proofs.Prefix.Expressions

/-!
# Prefixes of queries

How the tokens of relations, clauses and whole queries are completed wherever the parser stops, if
this holds of what is nested in them.
-/

namespace SqlDialects.Parser

/-- What follows the first name of a table. -/
def tableEnd (d : Dialect) (first : String) : Parser Relation := do
  if ← accept (.symbol .dot) then
    let table ← name d
    return .table (some first) table (← optionalAlias d)
  else return .table none first (← optionalAlias d)

/-- What follows the relation of a join. -/
def joinEnd (d : Dialect) (g : Nested) (type : JoinType) (relation : Relation) :
    Parser (Option Join) := do
  if type = .cross then return some ⟨type, relation, none, []⟩
  else if ← accept (.keyword .ON) then
    return some ⟨type, relation, some (← g.expression 0), []⟩
  else if ← accept (.keyword .USING) then
    return some ⟨type, relation, none, ← parenthesized (identifierList d)⟩
  else return some ⟨type, relation, none, []⟩

/-- What follows the generator of a lateral view. -/
def viewEnd (d : Dialect) (outer : Bool) (generator : Call) : Parser (Option LateralView) := do
  let table ← identifier d
  expect (.keyword .AS)
  return some ⟨outer, generator, table, ← identifierList d⟩

/-- What follows the keywords of a lateral view. -/
def viewBody (d : Dialect) (g : Nested) (outer : Bool) : Parser (Option LateralView) := do
  let function ← identifier d
  let generator ← call g function
  viewEnd d outer generator

/-- What follows an ordering clause. -/
def orderingEnd (first : OrderingKind) (body : RowOrdering) : Parser (Option RowOrdering) := do
  match orderingKind? (← kind) with
  | some second => fail (.cannotFollow second first)
  | none => return some body

theorem ordering_eq (d : Dialect) (g : Nested) :
    ordering d g = kind >>= fun k =>
      match orderingKind? k with
      | none => pure none
      | some first => require d (.ordering first) >>= fun _ => advance >>= fun _ =>
          expect (.keyword .BY) >>= fun _ => orderingBody d g first >>= orderingEnd first := rfl

theorem relation_eq (d : Dialect) (g : Nested) :
    relation d g = kind >>= fun k =>
      if k = .symbol .leftParen then (do
        let query ← parenthesized g.query
        return .derived query (← optionalAlias d))
      else identifier d >>= tableEnd d := rfl

theorem join_eq (d : Dialect) (g : Nested) :
    join d g = kind >>= fun k =>
      if startsJoin k then
        joinType d >>= fun type => relation d g >>= joinEnd d g type
      else pure none := rfl

theorem lateralView_eq (d : Dialect) (g : Nested) :
    lateralView d g = kind >>= fun k =>
      if k = .keyword .LATERAL then
        require d .lateralView >>= fun _ => advance >>= fun _ => expect (.keyword .VIEW) >>= fun _ =>
          accept (.keyword .OUTER) >>= viewBody d g
      else pure none := rfl

/-! ## Names -/

section Names

variable {d : Dialect} {F : Token → Prop}

theorem FollowsQuery.isImplicitAlias_eq_false {x : Token} (h : FollowsQuery x) :
    x.isImplicitAlias d = false := by
  obtain h | h := h <;> simp [Token.isImplicitAlias, Token.identifier?, h]

theorem viable_identifier (hF : ∀ x, F x → Plain x) : Viable F (identifier d) (identifier d) := by
  rw [← bind_pure (identifier d)]
  exact .identifier (fun _ => .pure _) fun _ => .pure (fun x hx _ => hF x hx) _

theorem begins_identifier : Begins F (· = word) (identifier d) :=
  ⟨[word], _, by decide, fun _ _ => ⟨rfl, rfl⟩⟩

theorem begins_name : Begins F (· = word) (name d) :=
  ⟨[word], _, by decide, fun _ _ => ⟨rfl, rfl⟩⟩

theorem viable_identifierList (hF : ∀ x, F x → Plain x ∧ x.kind ≠ .symbol .comma) :
    Viable F (identifierList d) (identifierList d) :=
  (viable_identifier fun x hx => (hF x hx).1).commaList (goesForward_congruence.identifier d)
    (fun x hx => (hF x hx).2) (begins_identifier.mono fun _ _ => trivial)

theorem begins_identifierList (hF : ∀ x, F x → x.kind ≠ .symbol .comma) :
    Begins F (· = word) (identifierList d) :=
  begins_identifier.commaList (goesForward_congruence.identifier d) hF

theorem optionalAlias_of_not {v : TokenStream} (has : v.current.kind ≠ .keyword .AS)
    (halias : v.current.isImplicitAlias d = false) : optionalAlias d v = .ok none v := by
  rw [optionalAlias, bind_of_ok (accept_of_kind_ne has)]
  show (if v.current.isImplicitAlias d then _ else _ : Parser (Option String)) v = _
  rw [halias]
  rfl

theorem optionalAlias_stop {v : TokenStream} (hv : FollowsQuery v.current) :
    optionalAlias d v = .ok none v :=
  optionalAlias_of_not (hv.kind_ne_keyword .AS) hv.isImplicitAlias_eq_false

theorem continues_optionalAlias :
    Continues FollowsQuery FollowsQuery (optionalAlias d) (optionalAlias d) where
  viable := by
    have name : Viable FollowsQuery (do return some (← identifier d)) (do return some (← identifier d)) :=
      (viable_identifier fun _ hx => hx.plain).map some
    refine .acceptThen (.keyword .AS) (by decide) name ?_ (.current (fun u => ?_) fun _ t u ht hu => ?_)
    · exact (begins_identifier.mono fun _ _ _ => id).bind fun _ => .pure (fun _ hx => hx) _
    · split
      · exact name.anywhere
      · exact .pure none
    · have hnone {t : Token} (ht : IsEnd t.kind) : t.isImplicitAlias d = false := by
        have hname := ViableAt.identifier?_of_isEnd (d := d) ht
        obtain h | h | h := ht <;> simp [Token.isImplicitAlias, hname, h]
      rw [hnone ht, hnone hu]
  begins := .skip (fun _ hx => hx) fun _ => optionalAlias_stop

end Names

theorem begins_accepted {α : Type} (keyword : Keyword) (p : Parser α) (a : α) :
    Begins FollowsQuery FollowsQuery (do if ← accept (.keyword keyword) then p else return a) :=
  .accept (fun _ hx => hx.kind_ne_keyword keyword) (.pure (fun _ hx => hx) a)

/-- A clause behind a keyword, or nothing where the keyword is missing. -/
theorem continues_accepted {α : Type} (keyword : Keyword) {p q : Parser α}
    (h : Continues FollowsQuery Plain p q) (a : α) :
    Continues FollowsQuery FollowsQuery
      (do if ← accept (.keyword keyword) then p else return a)
      (do if ← accept (.keyword keyword) then q else return a) where
  viable := .acceptThen (.keyword keyword) (by rintro (h | h | h) <;> cases h) h.viable
    (h.begins.mono fun _ hx _ => hx _) (.pure a)
  begins := begins_accepted keyword q a

/-- What `BY` introduces. -/
theorem continues_sorted {α : Type} {p q : Parser α}
    (h : Continues FollowsQuery (· = Parser.one) p q) :
    Continues FollowsQuery Plain (do expect (.keyword .BY); p) (do expect (.keyword .BY); q) :=
  .expect (.keyword .BY) nofun h (fun _ _ => id) (plain_of_kind (by decide))

section Grammar

variable {d : Dialect} {g h : Nested} (hg : g.Viable h)
include hg

theorem continues_selectItem :
    Continues FollowsQuery (· = Parser.one) (selectItem d g) (selectItem d h) :=
  have value : Continues (FollowsExpression 0) (· = Parser.one) (g.expression 0) (h.expression 0) :=
    ⟨hg.expression 0, hg.one 0⟩
  value.bind fun _ => (continues_optionalAlias.map _).mono fun _ hx => hx.followsExpression 0

/-! ## Relations -/

omit hg in
theorem continues_tableEnd (first : String) :
    Continues FollowsQuery FollowsQuery (tableEnd d first) (tableEnd d first) := by
  have named (schema : Option String) (table : String) :
      Continues FollowsQuery FollowsQuery
        (do return Relation.table schema table (← optionalAlias d))
        (do return Relation.table schema table (← optionalAlias d)) :=
    continues_optionalAlias.map _
  refine ⟨.acceptThen (.symbol .dot) (by decide) ?_ ?_ (named none first).viable, ?_⟩
  · exact .name (fun table => (named _ table).viable) fun table =>
      (named _ table).begins.mono fun _ hx _ => hx.plain
  · exact (begins_name.mono fun _ _ _ => id).bind fun table => (named _ table).begins
  · exact .accept (fun _ hx => (hx.followsExpression 0).kind_ne_symbol nofun) (named none first).begins

theorem continues_relation : Continues FollowsQuery (· = word) (relation d g) (relation d h) := by
  rw [relation_eq, relation_eq]
  constructor
  · refine .kind (fun k => ?_) fun _ k k' hk hk' => ?_
    · split
      · have query : Viable FollowsQuery (parenthesized g.query) (parenthesized h.query) :=
          .parenthesized (hg.query.mono nofun id (fun _ => id) fun _ => Closes.followsQuery)
            ((hg.select.before fun _ => Closes.followsQuery).mono fun _ _ => trivial)
        exact (query.bind (fun _ => (continues_optionalAlias.map _).viable) fun _ =>
          (continues_optionalAlias.map _).begins).anywhere
      · exact .identifier (fun first => (continues_tableEnd first).viable) fun first =>
          (continues_tableEnd first).begins.mono fun _ hx _ => hx.plain
    · rw [if_neg (hk.ne (by decide)), if_neg (hk'.ne (by decide))]
  · refine .kind (k := word.kind) (fun _ hx => by rw [hx]) ?_
    rw [if_neg nofun]
    exact begins_identifier.bind fun first => ((continues_tableEnd first).begins.mono fun _ _ => trivial)

section JoinTypes

variable {F : Token → Prop}

omit hg in
theorem plain_join : Plain (sample (.keyword .JOIN)) :=
  plain_of_kind (by decide)

omit hg in
theorem continues_joinKeyword (type : JoinType) :
    Continues F Plain (do expect (.keyword .JOIN); return type)
      (do expect (.keyword .JOIN); return type) :=
  .expect (.keyword .JOIN) nofun ⟨.pure type, .pure (fun _ _ => trivial) type⟩ (fun _ _ => id)
    plain_join

omit hg in
theorem continues_outerJoin (type : JoinType) :
    Continues F Plain
      (do
        let _ ← accept (.keyword .OUTER)
        expect (.keyword .JOIN)
        return type)
      (do
        let _ ← accept (.keyword .OUTER)
        expect (.keyword .JOIN)
        return type) where
  viable := .accept (.keyword .OUTER) (by decide) (continues_joinKeyword type).viable
    ((continues_joinKeyword type).begins.mono fun _ _ _ => id) (continues_joinKeyword type).viable
  begins := ⟨[sample (.keyword .JOIN)], type, by decide, fun _ _ => ⟨plain_join, rfl⟩⟩

omit hg in
theorem viable_leftJoinType : Viable F (leftJoinType d) (leftJoinType d) := by
  refine .kind (fun k => ?_) fun _ k k' hk hk' => ?_
  · split
    · exact .require d _ (.advance (fun _ _ hx => hx.2 ▸ nofun) (.pure _) fun _ hx =>
        .pure (fun _ _ _ => by rw [hx.2]; exact id) _)
    · exact .require d _ (.advance (fun _ _ hx => hx.2 ▸ nofun) (.pure _) fun _ hx =>
        .pure (fun _ _ _ => by rw [hx.2]; exact id) _)
    · exact .accept (.keyword .OUTER) (by decide) (.pure _) (.pure (fun _ _ _ => id) _) (.pure _)
  · obtain rfl | rfl | rfl := hk <;> obtain rfl | rfl | rfl := hk' <;> rfl

omit hg in
theorem continues_leftJoin :
    Continues F Plain
      (do
        let type ← leftJoinType d
        expect (.keyword .JOIN)
        return type)
      (do
        let type ← leftJoinType d
        expect (.keyword .JOIN)
        return type) where
  viable := viable_leftJoinType.bind (fun type => (continues_joinKeyword type).viable)
    fun type => (continues_joinKeyword type).begins
  begins := ⟨[sample (.keyword .JOIN)], .left, by decide, fun _ _ => ⟨plain_join, rfl⟩⟩

omit hg in
theorem viable_joinType : Viable F (joinType d) (joinType d) := by
  have begun {k : TokenKind} {p : Parser JoinType} (hk : k ≠ .endOfInput) (hp : Continues F Plain p p) :
      ViableAt True True (fun x => True ∧ x.kind = k) F (do advance; p) (do advance; p) :=
    .advance (fun _ _ hx => hx.2 ▸ hk) hp.viable fun _ _ => hp.begins.mono fun _ hx _ => hx _
  refine .kind (fun k => ?_) fun _ k k' hk hk' => ?_
  · dsimp only
    split
    · exact begun nofun (continues_joinKeyword .inner)
    · exact begun nofun continues_leftJoin
    · exact begun nofun (continues_outerJoin .right)
    · exact begun nofun (continues_outerJoin .full)
    · exact begun nofun (continues_joinKeyword .cross)
    · exact (continues_joinKeyword .inner).viable.anywhere
  · obtain rfl | rfl | rfl := hk <;> obtain rfl | rfl | rfl := hk' <;> rfl

end JoinTypes

theorem continues_joinEnd (type : JoinType) (relation : Relation) :
    Continues FollowsQuery FollowsQuery (joinEnd d g type relation) (joinEnd d h type relation) := by
  unfold joinEnd
  split
  · exact .pure (fun _ hx => hx) _
  · constructor
    · refine .acceptThen (.keyword .ON) (by decide) ?_ ?_ ?_
      · exact ((hg.expression 0).before fun _ hx => hx.followsExpression 0).map _
      · exact .bind ((hg.begins fun _ hx => hx.followsExpression 0).mono fun _ hx _ => hx _) fun _ =>
          .pure (fun _ hx => hx) _
      · have names : Begins Closes (fun _ => True) (identifierList d) :=
          (begins_identifierList fun _ hx => (hx.followsQuery.followsExpression 0).kind_ne_symbol nofun).mono
            fun _ _ => trivial
        refine .acceptThen (.keyword .USING) (by decide) ?_ ?_ (.pure _)
        · refine .map (.parenthesized ?_ names) _
          exact (viable_identifierList fun _ hx => ⟨hx.followsQuery.plain,
            (hx.followsQuery.followsExpression 0).kind_ne_symbol nofun⟩).mono nofun id (fun _ => id) fun _ hx => hx
        · exact .bind (.parenthesized (fun _ => id) names) fun _ => .pure (fun _ hx => hx) _
    · exact .accept (fun _ hx => hx.kind_ne_keyword _)
        (.accept (fun _ hx => hx.kind_ne_keyword _) (.pure (fun _ hx => hx) _))

omit hg in
theorem startsJoin_of_isEnd {k : TokenKind} (hk : IsEnd k) : startsJoin k = false := by
  obtain rfl | rfl | rfl := hk <;> rfl

omit hg in
theorem join_stop {v : TokenStream} (hv : FollowsQuery v.current) : join d h v = .ok none v := by
  rw [join_eq, kind_bind, startsJoin_of_isEnd hv.isEnd]
  rfl

theorem continues_join : Continues FollowsQuery FollowsQuery (many (join d g)) (many (join d h)) := by
  have step : Viable FollowsQuery (join d g) (join d h) := by
    rw [join_eq, join_eq]
    refine .kind (fun k => ?_) fun _ k k' hk hk' => ?_
    · split
      · have relation (type : JoinType) := (continues_relation (d := d) hg).bind
          (continues_joinEnd (d := d) hg type)
        exact (viable_joinType.bind (fun type => (relation type).viable) fun type =>
          (relation type).begins).anywhere
      · exact .pure none
    · rw [startsJoin_of_isEnd hk, startsJoin_of_isEnd hk']
  exact ⟨step.many (progresses_join hg.passing) (progresses_join hg.passing') fun _ => join_stop,
    .many (fun _ hx => hx) (progresses_join hg.passing') fun _ => join_stop⟩

theorem continues_source : Continues FollowsQuery (· = word) (source d g) (source d h) :=
  (continues_relation hg).bind fun _ => (continues_join hg).map _

omit hg in
theorem continues_viewEnd (outer : Bool) (generator : Call) :
    Continues FollowsQuery (· = word) (viewEnd d outer generator) (viewEnd d outer generator) := by
  have names : Continues FollowsQuery (· = word) (identifierList d) (identifierList d) :=
    ⟨viable_identifierList fun _ hx => ⟨hx.plain, (hx.followsExpression 0).kind_ne_symbol nofun⟩,
      begins_identifierList fun _ hx => (hx.followsExpression 0).kind_ne_symbol nofun⟩
  have table : Continues (· = sample (.keyword .AS)) (· = word) (identifier d) (identifier d) :=
    ⟨viable_identifier fun _ hx => hx ▸ plain_of_kind (by decide), begins_identifier⟩
  exact table.bind fun _ => .expect (.keyword .AS) nofun (names.map _) (fun _ _ => id) rfl

/-- The name of the generator, which may be `OVER`, comes to mean something else by what follows
it. -/
theorem viable_viewBody (outer : Bool) :
    ViableAt True False (fun _ => True) FollowsQuery (viewBody d g outer) (viewBody d h outer) := by
  have generator (function : String) := viable_call (F := (· = word)) hg function
    (by rintro _ rfl; decide)
  have start (function : String) := begins_call (F := (· = word)) hg function
    (by rintro _ rfl; decide)
  refine .identifier (fun function => ?_) fun function => ?_
  · exact (generator function).bind (fun call => (continues_viewEnd outer call).viable) fun call =>
      (continues_viewEnd outer call).begins
  · exact ((start function).mono fun _ _ => nofun).bind fun call => (continues_viewEnd outer call).begins

theorem begins_viewBody (outer : Bool) : Begins FollowsQuery (· = word) (viewBody d h outer) :=
  begins_identifier.bind fun function => ((begins_call (F := (· = word)) hg function
    (by rintro _ rfl; decide)).mono fun _ _ => trivial).bind fun call =>
      (continues_viewEnd outer call).begins

omit hg in
theorem lateralView_stop {v : TokenStream} (hv : FollowsQuery v.current) :
    lateralView d h v = .ok none v := by
  rw [lateralView_eq, kind_bind, if_neg (hv.kind_ne_keyword _)]
  rfl

theorem continues_lateralViews :
    Continues FollowsQuery FollowsQuery (many (lateralView d g)) (many (lateralView d h)) := by
  have body : Begins FollowsQuery (· = word) (accept (.keyword .OUTER) >>= viewBody d h) :=
    .accept (by rintro _ rfl; nofun) (begins_viewBody hg false)
  have step : Viable FollowsQuery (lateralView d g) (lateralView d h) := by
    rw [lateralView_eq, lateralView_eq]
    refine .kind (fun k => ?_) fun _ k k' hk hk' => ?_
    · split
      · rename_i hlateral
        refine .require d _ (.advance (fun _ _ hx => by rw [hx.2, hlateral]; nofun)
          (.expectThen (.keyword .VIEW) nofun ?_ (body.mono fun _ _ _ => id))
          fun _ _ => .expect (by decide) (fun _ => plain_of_kind (x := sample (.keyword .VIEW)) (by decide) _)
            (body.mono fun _ _ => trivial))
        exact .acceptOr (.keyword .OUTER) (by decide) (viable_viewBody hg true)
          ((begins_viewBody hg true).mono fun _ _ => nofun) (viable_viewBody hg false)
      · exact .pure none
    · rw [if_neg (hk.ne (by decide)), if_neg (hk'.ne (by decide))]
  have progress := progresses_lateralView (d := d) hg.passing'
  exact ⟨step.many (progresses_lateralView hg.passing) progress fun _ => lateralView_stop,
    .many (fun _ hx => hx) progress fun _ => lateralView_stop⟩

theorem continues_fromClause :
    Continues FollowsQuery FollowsQuery (fromClause d g) (fromClause d h) :=
  continues_accepted .FROM (((continues_source hg).mono fun _ hx => hx ▸ plain_word).bind fun _ =>
    (continues_lateralViews hg).map _) _

/-! ## The clauses behind the relations -/

theorem continues_clause (keyword : Keyword) :
    Continues FollowsQuery FollowsQuery (clause g keyword) (clause h keyword) := by
  have value : Continues FollowsQuery Plain (g.expression 0) (h.expression 0) :=
    ⟨(hg.expression 0).before fun _ hx => hx.followsExpression 0,
      hg.begins fun _ hx => hx.followsExpression 0⟩
  exact continues_accepted keyword (value.map some) none

theorem continues_groupItem : Continues FollowsQuery (· = Parser.one) (groupItem g) (groupItem h) := by
  have value : Continues FollowsQuery (· = Parser.one) (g.expression 0) (h.expression 0) :=
    ⟨(hg.expression 0).before fun _ hx => hx.followsExpression 0,
      (hg.one 0).before fun _ hx => hx.followsExpression 0⟩
  refine value.bind fun key => ?_
  split
  · split <;> exact .pure (fun _ hx => hx) _
  · exact .pure (fun _ hx => hx) _

theorem continues_groupBy : Continues FollowsQuery FollowsQuery (groupBy g) (groupBy h) := by
  have items := (continues_groupItem hg).commaList (goesForward_congruence.groupItem hg.forward)
    fun _ hx => (hx.followsExpression 0).kind_ne_symbol nofun
  exact continues_accepted .GROUP (continues_sorted items) []

/-! ## Orderings -/

theorem continues_orderItems : Continues FollowsQuery (· = Parser.one) (orderItems g) (orderItems h) :=
  ⟨viable_orderItems hg, begins_orderItems hg⟩

theorem continues_keys : Continues FollowsQuery (· = Parser.one) (keys g) (keys h) := by
  have list : Continues FollowsQuery (· = Parser.one) (expressionList g) (expressionList h) :=
    ⟨(viable_expressionList hg).before fun _ hx => hx.followsExpression 0,
      (begins_expressionList hg).before fun _ hx => hx.followsExpression 0⟩
  exact list.map _

theorem continues_trailingSort (after : OrderingKind) :
    Continues FollowsQuery FollowsQuery (trailingSort d g after) (trailingSort d h after) where
  viable := by
    have sorted := continues_sorted ((continues_orderItems hg).map some)
    refine .kind (fun k => ?_) fun _ k k' hk hk' => ?_
    · split
      · rename_i hk
        dsimp only
        split
        · exact .advance (fun _ _ hx => by rw [hx.2, hk]; nofun) sorted.viable fun _ _ =>
            sorted.begins.mono fun _ hx _ => hx _
        · exact .of_error fun _ => ⟨_, rfl⟩
      · exact .pure none
    · rw [if_neg (hk.ne (by decide)), if_neg (hk'.ne (by decide))]
  begins := .skip (fun _ hx => hx) fun v hv => by
    rw [trailingSort, kind_bind, if_neg (hv.kind_ne_keyword _)]
    rfl

theorem continues_orderingBody (kind : OrderingKind) :
    Continues FollowsQuery (· = Parser.one) (orderingBody d g kind) (orderingBody d h kind) := by
  cases kind with
  | orderBy => exact (continues_orderItems hg).map _
  | sortBy => exact (continues_orderItems hg).map _
  | distributeBy => exact (continues_keys hg).bind fun _ => ((continues_trailingSort hg _).map _)
  | clusterBy => exact (continues_keys hg).bind fun _ => (continues_trailingSort hg _).map _

omit hg in
theorem orderingKind?_of_isEnd {k : TokenKind} (hk : IsEnd k) : orderingKind? k = none := by
  obtain rfl | rfl | rfl := hk <;> rfl

omit hg in
/-- A second ordering is refused before it is passed. -/
theorem continues_orderingEnd (first : OrderingKind) (body : RowOrdering) :
    Continues FollowsQuery FollowsQuery (orderingEnd first body) (orderingEnd first body) where
  viable := by
    refine .kind (fun k => ?_) fun _ k k' hk hk' => ?_
    · split
      · exact .fail _ _
      · exact .pure _
    · rw [orderingKind?_of_isEnd hk, orderingKind?_of_isEnd hk']
  begins := .skip (fun _ hx => hx) fun v hv => by
    rw [orderingEnd, kind_bind, orderingKind?_of_isEnd hv.isEnd]
    rfl

omit hg in
theorem ordering_stop {v : TokenStream} (hv : FollowsQuery v.current) :
    ordering d h v = .ok none v := by
  rw [ordering_eq, kind_bind, orderingKind?_of_isEnd hv.isEnd]
  rfl

omit hg in
theorem begins_ordering : Begins FollowsQuery FollowsQuery (ordering d h) :=
  .skip (fun _ hx => hx) fun _ => ordering_stop

theorem continues_ordering :
    Continues FollowsQuery FollowsQuery (ordering d g) (ordering d h) where
  viable := by
    have sorted (first : OrderingKind) := continues_sorted
      ((continues_orderingBody (d := d) hg first).bind (continues_orderingEnd first))
    rw [ordering_eq, ordering_eq]
    refine .kind (fun k => ?_) fun _ k k' hk hk' => ?_
    · split
      · exact .pure none
      · rename_i first hfirst
        refine .require d _ (.advance (fun _ _ hx he => ?_) (sorted first).viable fun _ _ =>
          (sorted first).begins.mono fun _ hx _ => hx _)
        rw [← hx.2, he] at hfirst
        cases hfirst
    · rw [orderingKind?_of_isEnd hk, orderingKind?_of_isEnd hk']
  begins := begins_ordering

theorem continues_queryBody :
    Continues FollowsQuery (· = Parser.one) (queryBody d g) (queryBody d h) := by
  have items := (continues_selectItem (d := d) hg).commaList
    (goesForward_congruence.selectItem hg.forward d)
    fun _ hx => (hx.followsExpression 0).kind_ne_symbol nofun
  have distinct : Continues (· = Parser.one) (· = Parser.one) distinctOrAll distinctOrAll :=
    ⟨viable_distinctOrAll, begins_distinctOrAll (by rintro _ rfl; decide)⟩
  exact distinct.bind fun _ => items.bind fun _ => (continues_fromClause hg).bind fun ⟨_, _⟩ =>
    (continues_clause hg .WHERE).bind fun _ => (continues_groupBy hg).bind fun _ =>
      (continues_clause hg .HAVING).bind fun _ => (continues_ordering hg).bind fun _ =>
        (continues_clause hg .LIMIT).map _

theorem continues_queryOf :
    Continues FollowsQuery (· = sample (.keyword .SELECT)) (queryOf d g) (queryOf d h) := by
  rw [queryOf_eq, queryOf_eq]
  exact .expect (.keyword .SELECT) nofun (continues_queryBody hg) (fun _ _ => id) rfl

end Grammar

/-! ## Nesting -/

section Nesting

variable (d : Dialect)

theorem begins_expression (m : Nat) :
    Begins (FollowsExpression m) (· = Parser.one) (expression d m) := by
  refine ⟨[Parser.one], .literal (.integer 1), by decide, fun v hv => ⟨rfl, ?_⟩⟩
  have operand : operand d (nested d) (v.push [Parser.one]) = .ok (.literal (.integer 1)) v := rfl
  rw [expression_unfold, expressionOf, bind_of_ok operand,
    iterate_of_none (progresses_extend (nested_passing d) m) (extend_stop fun _ _ => hv.infixPower?_lt)]

/-- A query needs no more than one column. -/
theorem begins_query : Begins FollowsQuery (· = sample (.keyword .SELECT)) (query d) := by
  have forward := (nested_passing d).forward
  have column : Begins FollowsQuery (· = Parser.one) (selectItem d (nested d)) :=
    (begins_expression d 0).bind fun _ => (continues_optionalAlias.begins.bind fun _ =>
      .pure (fun _ hx => hx) _).mono fun _ hx => hx.followsExpression 0
  have columns := column.commaList (goesForward_congruence.selectItem forward d)
    fun _ hx => (hx.followsExpression 0).kind_ne_symbol nofun
  have body : Begins FollowsQuery (· = Parser.one) (queryBody d (nested d)) :=
    (begins_distinctOrAll (by rintro _ rfl; decide)).bind fun _ => columns.bind fun _ =>
      (begins_accepted .FROM _ _).bind fun ⟨_, _⟩ => (begins_accepted .WHERE _ _).bind fun _ =>
        (begins_accepted .GROUP _ _).bind fun _ => (begins_accepted .HAVING _ _).bind fun _ =>
          begins_ordering.bind fun _ => (begins_accepted .LIMIT _ _).bind fun _ =>
            .pure (fun _ hx => hx) _
  rw [query_unfold, queryOf_eq]
  exact .expect (by decide) rfl (body.mono fun _ _ => trivial)

theorem viable_nested (n : Nat) : (nestedWithin d n).Viable (nested d) := by
  induction n with
  | zero =>
    exact ⟨nestedWithin_passing d 0, nested_passing d, fun _ => .unexpected _ _, .unexpected _ _,
      begins_expression d, begins_query d⟩
  | succ n ih =>
    refine ⟨nestedWithin_passing d (n + 1), nested_passing d, fun m => ?_, ?_,
      begins_expression d, begins_query d⟩
    · show Viable _ (expressionOf d (nestedWithin d n) m) (expression d m)
      rw [expression_unfold]
      exact viable_expressionOf ih m
    · show Viable _ (queryOf d (nestedWithin d n)) (query d)
      rw [query_unfold]
      exact (continues_queryOf ih).viable

theorem continues_query : Continues FollowsQuery (· = sample (.keyword .SELECT)) (query d) (query d) := by
  refine ⟨.of_bounded (r := fun n => (nestedWithin d n).query) (fun n => (viable_nested d n).query) ?_, begins_query d⟩
  intro s n hn
  have agree := nested_eq_nestedOver d (nestedWithin d 0) n
  rw [← nestedWithin_eq] at agree
  exact (agree.query s hn).1

end Nesting

end SqlDialects.Parser
