import SqlDialects.Proofs.Parser.Congruence

/-!
# Expressions and queries under a relation between parsers

Every production is related to itself, and so are the parsers of nested expressions and queries and
the parser of statements.
-/

namespace SqlDialects.Parser

/-- What follows `CASE`. -/
def caseBody (g : Nested) : Parser Expr := do
  let operand ← if (← kind) = .keyword .WHEN then pure none else some <$> g.expression 0
  let clauses ← many (whenClause g)
  if clauses.isEmpty then unexpected (.token (.keyword .WHEN))
  let otherwise ← if ← accept (.keyword .ELSE) then some <$> g.expression 0 else pure none
  expect (.keyword .END)
  return .caseOf operand clauses otherwise

/-- What follows `SELECT`. -/
def queryBody (d : Dialect) (g : Nested) : Parser Select := do
  let distinct ← distinctOrAll
  let columns ← commaList (selectItem d g)
  let (source, views) ← fromClause d g
  let filter ← clause g .WHERE
  let groups ← groupBy g
  let having ← clause g .HAVING
  let ordering ← ordering d g
  return ⟨distinct, columns, source, views, filter, groups, having, ordering, ← clause g .LIMIT⟩

theorem caseOf_eq (g : Nested) :
    caseOf g = expect (.keyword .CASE) >>= fun _ => caseBody g := rfl

theorem queryOf_eq (d : Dialect) (g : Nested) :
    queryOf d g = expect (.keyword .SELECT) >>= fun _ => queryBody d g := rfl

namespace Congruence

variable {R : ∀ {α : Type}, Parser α → Parser α → Prop} (hR : Congruence @R)
variable {g h : Nested} (hg : Nested.Related @R g h)
include hR

/-! ## Orderings and calls -/

theorem direction : R direction Parser.direction :=
  hR.acceptBind _ fun _ => by
    split
    · exact hR.pure _
    · exact hR.acceptBind _ fun _ => by split <;> exact hR.pure _

theorem nullOrdering : R nullOrdering Parser.nullOrdering :=
  hR.acceptBind _ fun _ => by
    split
    · refine hR.acceptBind _ fun _ => ?_
      split
      · exact hR.pure _
      · refine hR.acceptBind _ fun _ => ?_
        split
        · exact hR.pure _
        · exact hR.unexpected _
    · exact hR.pure _

theorem distinctOrAll : R distinctOrAll Parser.distinctOrAll :=
  hR.acceptBind _ fun _ => by
    split
    · exact hR.pure _
    · exact hR.acceptBind _ fun _ => hR.pure _

theorem ignoreNulls : R ignoreNulls Parser.ignoreNulls :=
  hR.kindBind fun _ => hR.bind hR.second fun _ => by
    split
    · exact hR.bind hR.advance fun _ => hR.bind hR.advance fun _ => hR.pure _
    · exact hR.pure _

section Calls
include hg

theorem expressionList : R (expressionList g) (Parser.expressionList h) :=
  hR.commaList (hg.expression 0)

theorem orderItem : R (orderItem g) (Parser.orderItem h) :=
  hR.bind (hg.expression 0) fun _ => hR.bind hR.direction fun _ =>
    hR.bind hR.nullOrdering fun _ => hR.pure _

theorem orderItems : R (orderItems g) (Parser.orderItems h) :=
  hR.commaList (hR.orderItem hg)

theorem window : R (window g) (Parser.window h) := by
  refine hR.parenthesized (hR.acceptBind _ fun _ => ?_)
  have order (partition : List Expr) :
      R (do
          let order ← if ← Parser.accept (.keyword .ORDER) then do
              Parser.expect (.keyword .BY)
              Parser.orderItems g
            else Pure.pure []
          return (⟨partition, order⟩ : Window))
        (do
          let order ← if ← Parser.accept (.keyword .ORDER) then do
              Parser.expect (.keyword .BY)
              Parser.orderItems h
            else Pure.pure []
          return (⟨partition, order⟩ : Window)) := by
    refine hR.acceptBind _ fun _ => ?_
    split
    · exact hR.bind (hR.expect _) fun _ => hR.bind (hR.orderItems hg) fun _ => hR.pure _
    · exact hR.bind (hR.pure _) fun _ => hR.pure _
  split
  · exact hR.bind (hR.expect _) fun _ => hR.bind (hR.expressionList hg) fun _ => order _
  · exact hR.bind (hR.pure _) fun _ => order _

theorem arguments (distinct : Bool) :
    R (arguments g distinct) (Parser.arguments h distinct) := by
  refine hR.kindBind fun _ => ?_
  split
  · exact hR.pure _
  · refine hR.kindBind fun _ => hR.bind hR.second fun _ => ?_
    split
    · exact hR.bind hR.advance fun _ => hR.pure _
    · exact hR.expressionList hg

theorem optionalWindow : R (optionalWindow g) (Parser.optionalWindow h) :=
  hR.kindBind fun _ => hR.bind hR.second fun _ => by
    split
    · exact hR.bind hR.advance fun _ => hR.bind (hR.window hg) fun _ => hR.pure _
    · exact hR.pure _

theorem call (name : String) : R (call g name) (Parser.call h name) :=
  hR.bind (hR.expect _) fun _ => hR.bind hR.distinctOrAll fun _ =>
    hR.bind (hR.arguments hg _) fun _ => hR.bind (hR.expect _) fun _ =>
      hR.bind hR.ignoreNulls fun _ => hR.bind (hR.optionalWindow hg) fun _ => hR.pure _

end Calls

/-! ## Operands -/

variable (d : Dialect)

theorem pathPart (e : Expr) : R (pathPart d e) (Parser.pathPart d e) := by
  unfold Parser.pathPart
  split
  · refine hR.acceptBind _ fun _ => ?_
    split
    · refine hR.acceptBind _ fun _ => ?_
      split
      · exact hR.pure _
      · exact hR.bind (hR.name d) fun _ => hR.pure _
    · exact hR.pure _
  · exact hR.pure _

include hg

theorem named (first : String) : R (named d g first) (Parser.named d h first) :=
  hR.kindBind fun _ => by
    split
    · exact hR.bind (hR.call hg _) fun _ => hR.pure _
    · exact hR.iterate (hR.pathPart d) _

theorem namedOperand : R (namedOperand d g) (Parser.namedOperand d h) :=
  hR.current fun t u hk hl => by
    rw [identifier?_congr d hk hl]
    split
    · exact hR.bind hR.advance fun _ => hR.named hg d _
    · exact hR.unexpected _

theorem cast : R (cast d g) (Parser.cast d h) :=
  hR.bind (hR.expect _) fun _ => hR.parenthesized <|
    hR.bind (hg.expression 0) fun _ => hR.bind (hR.expect _) fun _ =>
      hR.bind (hR.dataType d) fun _ => hR.pure _

theorem whenClause : R (whenClause g) (Parser.whenClause h) :=
  hR.acceptBind _ fun _ => by
    split
    · exact hR.bind (hg.expression 0) fun _ => hR.bind (hR.expect _) fun _ =>
        hR.bind (hg.expression 0) fun _ => hR.pure _
    · exact hR.pure _

theorem caseBody : R (caseBody g) (Parser.caseBody h) := by
  have otherwise (operand : Option Expr) (clauses : List WhenClause) :
      R (do
          let otherwise ← if ← Parser.accept (.keyword .ELSE) then some <$> g.expression 0
            else Pure.pure none
          Parser.expect (.keyword .END)
          return Expr.caseOf operand clauses otherwise)
        (do
          let otherwise ← if ← Parser.accept (.keyword .ELSE) then some <$> h.expression 0
            else Pure.pure none
          Parser.expect (.keyword .END)
          return Expr.caseOf operand clauses otherwise) := by
    refine hR.acceptBind _ fun _ => ?_
    split
    · exact hR.bind (hR.map some (hg.expression 0)) fun _ => hR.bind (hR.expect _) fun _ => hR.pure _
    · exact hR.bind (hR.pure _) fun _ => hR.bind (hR.expect _) fun _ => hR.pure _
  have clauses (operand : Option Expr) :
      R (do
          let clauses ← Parser.many (Parser.whenClause g)
          if clauses.isEmpty then Parser.unexpected (.token (.keyword .WHEN))
          let otherwise ← if ← Parser.accept (.keyword .ELSE) then some <$> g.expression 0
            else Pure.pure none
          Parser.expect (.keyword .END)
          return Expr.caseOf operand clauses otherwise)
        (do
          let clauses ← Parser.many (Parser.whenClause h)
          if clauses.isEmpty then Parser.unexpected (.token (.keyword .WHEN))
          let otherwise ← if ← Parser.accept (.keyword .ELSE) then some <$> h.expression 0
            else Pure.pure none
          Parser.expect (.keyword .END)
          return Expr.caseOf operand clauses otherwise) := by
    refine hR.bind (hR.many (hR.whenClause hg)) fun _ => ?_
    dsimp only
    split
    · exact hR.bind (hR.unexpected _) fun _ => otherwise _ _
    · exact otherwise _ _
  refine hR.kindBind fun _ => ?_
  split
  · exact hR.bind (hR.pure _) fun _ => clauses _
  · exact hR.bind (hR.map some (hg.expression 0)) fun _ => clauses _

theorem caseOf : R (caseOf g) (Parser.caseOf h) :=
  hR.bind (hR.expect _) fun _ => hR.caseBody hg

theorem group : R (group g) (Parser.group h) := by
  refine hR.parenthesized (hR.kindBind fun _ => ?_)
  split
  · exact hR.bind hg.query fun _ => hR.pure _
  · exact hR.bind (hg.expression 0) fun _ => hR.pure _

theorem primary : R (primary d g) (Parser.primary d h) := by
  refine hR.current fun t u hk hl => ?_
  rw [hk, hl]
  split
  · exact hR.bind hR.advance fun _ => hR.pure _
  · have functionOrName : R
        (do
          if (← Parser.second) = .symbol .leftParen then
            Parser.advance
            return .call (← Parser.call g u.lexeme)
          else Parser.namedOperand d g)
        (do
          if (← Parser.second) = .symbol .leftParen then
            Parser.advance
            return .call (← Parser.call h u.lexeme)
          else Parser.namedOperand d h) := by
      refine hR.bind hR.second fun _ => ?_
      split
      · exact hR.bind hR.advance fun _ => hR.bind (hR.call hg _) fun _ => hR.pure _
      · exact hR.namedOperand hg d
    split
    · exact hR.bind hR.advance fun _ => hR.pure _
    · exact hR.group hg
    · exact hR.cast hg d
    · exact hR.caseOf hg
    · exact hR.bind hR.advance fun _ => hR.bind (hR.parenthesized hg.query) fun _ => hR.pure _
    · exact functionOrName
    · exact functionOrName
    · exact hR.namedOperand hg d

theorem operand : R (operand d g) (Parser.operand d h) :=
  hR.kindBind fun _ => by
    split
    · exact hR.bind hR.advance fun _ => hR.bind (hg.expression _) fun _ => hR.pure _
    · exact hR.primary hg d

/-! ## What follows an operand -/

theorem inList (left : Expr) (negated : Bool) :
    R (inList g left negated) (Parser.inList h left negated) := by
  refine hR.bind (hR.parenthesized (hR.kindBind fun _ => ?_)) fun _ => hR.pure _
  split
  · exact hR.bind hg.query fun _ => hR.pure _
  · exact hR.expressionList hg

theorem between (left : Expr) (power : Nat) (negated : Bool) :
    R (between g left power negated) (Parser.between h left power negated) :=
  hR.bind (hg.expression _) fun _ => hR.bind (hR.expect _) fun _ =>
    hR.bind (hg.expression _) fun _ => hR.pure _

theorem pattern (left : Expr) (power : Nat) (op : BinaryOp) (feature : Option Dialect.Feature)
    (negated : Bool) :
    R (pattern d g left power op feature negated)
      (Parser.pattern d h left power op feature negated) := by
  cases feature with
  | none => exact hR.bind hR.advance fun _ => hR.bind (hg.expression _) fun _ => hR.pure _
  | some f =>
    exact hR.bind (hR.require d f) fun _ => hR.bind hR.advance fun _ =>
      hR.bind (hg.expression _) fun _ => hR.pure _

theorem negatedPredicate (left : Expr) (power : Nat) :
    R (negatedPredicate d g left power) (Parser.negatedPredicate d h left power) := by
  refine hR.bind hR.second fun _ => ?_
  split
  · exact hR.bind hR.advance fun _ => hR.bind hR.advance fun _ =>
      hR.bind (hR.inList hg _ _) fun _ => hR.pure _
  · exact hR.bind hR.advance fun _ => hR.bind hR.advance fun _ =>
      hR.bind (hR.between hg _ _ _) fun _ => hR.pure _
  · split
    · exact hR.bind hR.advance fun _ => hR.bind (hR.pattern hg d _ _ _ _ _) fun _ => hR.pure _
    · exact hR.pure _

theorem extend (minPower : Nat) (left : Expr) :
    R (extend d g minPower left) (Parser.extend d h minPower left) := by
  refine hR.kindBind fun _ => ?_
  split
  · exact hR.pure _
  · split
    · exact hR.pure _
    · split
      · exact hR.bind hR.advance fun _ => hR.acceptBind _ fun _ =>
          hR.bind (hR.expect _) fun _ => hR.pure _
      · exact hR.bind hR.advance fun _ => hR.bind (hR.inList hg _ _) fun _ => hR.pure _
      · exact hR.bind hR.advance fun _ => hR.bind (hR.between hg _ _ _) fun _ => hR.pure _
      · exact hR.negatedPredicate hg d _ _
      · split
        · exact hR.bind (hR.pattern hg d _ _ _ _ _) fun _ => hR.pure _
        · exact hR.bind hR.advance fun _ => hR.bind (hg.expression _) fun _ => hR.pure _
        · exact hR.pure _

theorem expressionOf (minPower : Nat) :
    R (expressionOf d g minPower) (Parser.expressionOf d h minPower) :=
  hR.bind (hR.operand hg d) fun _ => hR.iterate (hR.extend hg d minPower) _

/-! ## Queries -/

theorem selectItem : R (selectItem d g) (Parser.selectItem d h) :=
  hR.bind (hg.expression 0) fun _ => hR.bind (hR.optionalAlias d) fun _ => hR.pure _

theorem relation : R (relation d g) (Parser.relation d h) := by
  refine hR.kindBind fun _ => ?_
  split
  · exact hR.bind (hR.parenthesized hg.query) fun _ => hR.bind (hR.optionalAlias d) fun _ =>
      hR.pure _
  · refine hR.bind (hR.identifier d) fun _ => hR.acceptBind _ fun _ => ?_
    split
    · exact hR.bind (hR.name d) fun _ => hR.bind (hR.optionalAlias d) fun _ => hR.pure _
    · exact hR.bind (hR.optionalAlias d) fun _ => hR.pure _

omit hg in
theorem leftJoinType : R (leftJoinType d) (Parser.leftJoinType d) :=
  hR.kindBind fun _ => by
    split
    · exact hR.bind (hR.require d _) fun _ => hR.bind hR.advance fun _ => hR.pure _
    · exact hR.bind (hR.require d _) fun _ => hR.bind hR.advance fun _ => hR.pure _
    · exact hR.acceptBind _ fun _ => hR.pure _

omit hg in
theorem joinType : R (joinType d) (Parser.joinType d) := by
  have close (type : JoinType) : R (do Parser.expect (.keyword .JOIN); return type)
      (do Parser.expect (.keyword .JOIN); return type) :=
    hR.bind (hR.expect _) fun _ => hR.pure _
  have outer (type : JoinType) :
      R (do
          let _ ← Parser.accept (.keyword .OUTER)
          let type ← Pure.pure type
          Parser.expect (.keyword .JOIN)
          return type)
        (do
          let _ ← Parser.accept (.keyword .OUTER)
          let type ← Pure.pure type
          Parser.expect (.keyword .JOIN)
          return type) :=
    hR.acceptBind _ fun _ => hR.bind (hR.pure _) fun _ => close _
  refine hR.kindBind fun _ => ?_
  dsimp only
  split
  · exact hR.bind hR.advance fun _ => hR.bind (hR.pure _) fun _ => close _
  · exact hR.bind hR.advance fun _ => hR.bind (hR.leftJoinType d) fun _ => close _
  · exact hR.bind hR.advance fun _ => outer .right
  · exact hR.bind hR.advance fun _ => outer .full
  · exact hR.bind hR.advance fun _ => hR.bind (hR.pure _) fun _ => close _
  · exact hR.bind (hR.pure _) fun _ => close _

theorem join : R (join d g) (Parser.join d h) := by
  refine hR.kindBind fun _ => ?_
  split
  · refine hR.bind (hR.joinType d) fun _ => hR.bind (hR.relation hg d) fun _ => ?_
    split
    · exact hR.pure _
    · refine hR.acceptBind _ fun _ => ?_
      split
      · exact hR.bind (hg.expression 0) fun _ => hR.pure _
      · refine hR.acceptBind _ fun _ => ?_
        split
        · exact hR.bind (hR.parenthesized (hR.identifierList d)) fun _ => hR.pure _
        · exact hR.pure _
  · exact hR.pure _

theorem source : R (source d g) (Parser.source d h) :=
  hR.bind (hR.relation hg d) fun _ => hR.bind (hR.many (hR.join hg d)) fun _ => hR.pure _

theorem lateralView : R (lateralView d g) (Parser.lateralView d h) := by
  refine hR.kindBind fun _ => ?_
  split
  · exact hR.bind (hR.require d _) fun _ => hR.bind hR.advance fun _ =>
      hR.bind (hR.expect _) fun _ => hR.acceptBind _ fun _ => hR.bind (hR.identifier d) fun _ =>
        hR.bind (hR.call hg _) fun _ => hR.bind (hR.identifier d) fun _ =>
          hR.bind (hR.expect _) fun _ => hR.bind (hR.identifierList d) fun _ => hR.pure _
  · exact hR.pure _

theorem fromClause : R (fromClause d g) (Parser.fromClause d h) := by
  refine hR.acceptBind _ fun _ => ?_
  split
  · exact hR.bind (hR.source hg d) fun _ => hR.bind (hR.many (hR.lateralView hg d)) fun _ =>
      hR.pure _
  · exact hR.pure _

omit d in
theorem clause (keyword : Keyword) : R (clause g keyword) (Parser.clause h keyword) := by
  refine hR.acceptBind _ fun _ => ?_
  split
  · exact hR.bind (hg.expression 0) fun _ => hR.pure _
  · exact hR.pure _

omit d in
theorem groupItem : R (groupItem g) (Parser.groupItem h) := by
  refine hR.bind (hg.expression 0) fun _ => ?_
  split
  · split <;> exact hR.pure _
  · exact hR.pure _

omit d in
theorem groupBy : R (groupBy g) (Parser.groupBy h) := by
  refine hR.acceptBind _ fun _ => ?_
  split
  · exact hR.bind (hR.expect _) fun _ => hR.commaList (hR.groupItem hg)
  · exact hR.pure _

omit d in
theorem keys : R (keys g) (Parser.keys h) :=
  hR.bind (hR.expressionList hg) fun _ => hR.pure _

theorem trailingSort (after : OrderingKind) :
    R (trailingSort d g after) (Parser.trailingSort d h after) := by
  have sort : R
      (do
        Parser.advance
        Parser.expect (.keyword .BY)
        return some (← Parser.orderItems g))
      (do
        Parser.advance
        Parser.expect (.keyword .BY)
        return some (← Parser.orderItems h)) :=
    hR.bind hR.advance fun _ => hR.bind (hR.expect _) fun _ => hR.bind (hR.orderItems hg) fun _ =>
      hR.pure _
  refine hR.kindBind fun _ => ?_
  split
  · dsimp only
    split
    · exact sort
    · exact hR.bind (hR.fail _ rfl) fun _ => sort
  · exact hR.pure _

theorem orderingBody (kind : OrderingKind) :
    R (orderingBody d g kind) (Parser.orderingBody d h kind) := by
  cases kind with
  | orderBy => exact hR.bind (hR.orderItems hg) fun _ => hR.pure _
  | sortBy => exact hR.bind (hR.orderItems hg) fun _ => hR.pure _
  | distributeBy =>
    exact hR.bind (hR.keys hg) fun _ => hR.bind (hR.trailingSort hg d _) fun _ => hR.pure _
  | clusterBy =>
    exact hR.bind (hR.keys hg) fun _ => hR.bind (hR.trailingSort hg d _) fun _ => hR.pure _

theorem ordering : R (ordering d g) (Parser.ordering d h) := by
  refine hR.kindBind fun _ => ?_
  split
  · exact hR.pure _
  · refine hR.bind (hR.require d _) fun _ => hR.bind hR.advance fun _ =>
      hR.bind (hR.expect _) fun _ => hR.bind (hR.orderingBody hg d _) fun _ =>
        hR.kindBind fun _ => ?_
    split
    · exact hR.fail _ rfl
    · exact hR.pure _

theorem queryBody : R (queryBody d g) (Parser.queryBody d h) :=
  hR.bind hR.distinctOrAll fun _ => hR.bind (hR.commaList (hR.selectItem hg d)) fun _ =>
    hR.bind (hR.fromClause hg d) fun _ => hR.bind (hR.clause hg _) fun _ =>
      hR.bind (hR.groupBy hg) fun _ => hR.bind (hR.clause hg _) fun _ =>
        hR.bind (hR.ordering hg d) fun _ => hR.bind (hR.clause hg _) fun _ => hR.pure _

theorem queryOf : R (queryOf d g) (Parser.queryOf d h) :=
  hR.bind (hR.expect _) fun _ => hR.queryBody hg d

/-! ## Nesting and statements -/

omit hg in
theorem nestedWithin (n : Nat) : Nested.Related @R (nestedWithin d n) (Parser.nestedWithin d n) := by
  induction n with
  | zero => exact ⟨fun _ => hR.unexpected _, hR.unexpected _⟩
  | succ n ih => exact ⟨hR.expressionOf ih d, hR.queryOf ih d⟩

omit hg in
theorem expression (minPower : Nat) : R (expression d minPower) (Parser.expression d minPower) :=
  hR.remaining (f := fun n => (Parser.nestedWithin d (n + 1)).expression minPower)
    (g := fun n => (Parser.nestedWithin d (n + 1)).expression minPower)
    fun n => (hR.nestedWithin d (n + 1)).expression minPower

omit hg in
theorem query : R (query d) (Parser.query d) :=
  hR.remaining (f := fun n => (Parser.nestedWithin d (n + 1)).query)
    (g := fun n => (Parser.nestedWithin d (n + 1)).query)
    fun n => (hR.nestedWithin d (n + 1)).query

omit hg in
/-- What relates the elementary parsers and passes through sequencing relates the parser of
statements to itself. -/
theorem statement : R (statement d) (Parser.statement d) := by
  refine hR.bind (hR.query d) fun _ => hR.acceptBind _ fun _ => hR.kindBind fun _ => ?_
  dsimp only
  split
  · exact hR.pure _
  · exact hR.bind (hR.unexpected _) fun _ => hR.pure _

end Congruence

end SqlDialects.Parser
