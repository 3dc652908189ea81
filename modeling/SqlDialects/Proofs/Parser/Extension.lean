import SqlDialects.Proofs.Parser.Restricts
import SqlDialects.Proofs.Parser.QueryTrees

/-!
# Dialects that extend others

A dialect reads what a smaller dialect reads, as the same trees, and whatever else it reads uses
something that the smaller dialect does not have.
-/

namespace SqlDialects

/-- A dialect has every capability of another one. -/
structure Dialect.IsCoveredBy (d e : Dialect) : Prop where
  ilike : d.ilike = true → e.ilike = true
  rlike : d.rlike = true → e.rlike = true
  semiAntiJoin : d.semiAntiJoin = true → e.semiAntiJoin = true
  lateralView : d.lateralView = true → e.lateralView = true
  distributeSortCluster : d.distributeSortCluster = true → e.distributeSortCluster = true
  sortAfterDistribute : d.sortAfterDistribute = true → e.sortAfterDistribute = true
  sortAfterCluster : d.sortAfterCluster = true → e.sortAfterCluster = true

/-- Moreover, text in double quotes means the same in both. -/
structure Dialect.IsExtendedBy (d e : Dialect) : Prop extends d.IsCoveredBy e where
  doubleQuotedStrings : d.doubleQuotedStrings = e.doubleQuotedStrings

namespace Dialect.IsCoveredBy

variable {d e : Dialect} (h : d.IsCoveredBy e)
include h

theorem supports {f : Feature} (hf : d.supports f = true) : e.supports f = true := by
  cases f with
  | ilike => exact h.ilike hf
  | rlike => exact h.rlike hf
  | leftSemiJoin | leftAntiJoin => exact h.semiAntiJoin hf
  | lateralView => exact h.lateralView hf
  | ordering kind =>
    cases kind with
    | orderBy => rfl
    | _ => exact h.distributeSortCluster hf

theorem allowsSortAfter {kind : OrderingKind} (hk : d.allowsSortAfter kind = true) :
    e.allowsSortAfter kind = true := by
  cases kind with
  | distributeBy => exact h.sortAfterDistribute hk
  | clusterBy => exact h.sortAfterCluster hk
  | _ => cases hk

theorem supportedBy {n : Node} (hn : n.SupportedBy d) : n.SupportedBy e := by
  cases n with
  | expr x =>
    cases x with
    | binary left op right => exact fun f hf => h.supports (hn f hf)
    | _ => trivial
  | join j => exact fun f hf => h.supports (hn f hf)
  | view v => exact h.supports hn
  | ordering o => exact ⟨h.supports hn.1, fun hsort => h.allowsSortAfter (hn.2 hsort)⟩
  | _ => trivial

end Dialect.IsCoveredBy

namespace Parser

/-- What is nested in the smaller dialect is what is nested in the larger one as far as the smaller
dialect has what it uses. -/
structure Nested.Restricts (d : Dialect) (g h : Nested) : Prop where
  expression (power : Nat) :
    Parser.Restricts True (g.expression power) (h.expression power)
      fun x => ∀ n ∈ x.nodes, n.SupportedBy d
  query : Parser.Restricts True g.query h.query fun q => ∀ n ∈ q.nodes, n.SupportedBy d

/-! ## Names, types and literals -/

section Strings
variable {d e : Dialect} (h : d.doubleQuotedStrings = e.doubleQuotedStrings)
include h

theorem identifier?_eq (t : Token) : t.identifier? d = t.identifier? e := by
  simp only [Token.identifier?, h]

theorem name?_eq (t : Token) : t.name? d = t.name? e := by
  simp only [Token.name?, identifier?_eq h]

theorem isImplicitAlias_eq (t : Token) : t.isImplicitAlias d = t.isImplicitAlias e := by
  simp only [Token.isImplicitAlias, identifier?_eq h]

theorem literal?_eq (k : TokenKind) : literal? d k = literal? e k := by
  simp only [literal?, h]

theorem identifier_eq : identifier d = identifier e := by
  simp only [identifier, identifier?_eq h]

theorem name_eq : name d = name e := by
  simp only [name, name?_eq h]

theorem identifierList_eq : identifierList d = identifierList e := by
  simp only [identifierList, identifier_eq h]

theorem optionalAlias_eq : optionalAlias d = optionalAlias e := by
  simp only [optionalAlias, identifier_eq h, isImplicitAlias_eq h]

theorem pathPart_eq (x : Expr) : pathPart d x = pathPart e x := by
  cases x <;> simp only [pathPart, name_eq h]

theorem dataType_eq : dataType d = dataType e := by
  have within (n : Nat) : dataTypeWithin d n = dataTypeWithin e n := by
    induction n with
    | zero => rfl
    | succ n ih => simp only [dataTypeWithin, dataTypeOf, structField, name?_eq h, name_eq h, ih]
  simp only [dataType, within]

end Strings

variable {d e : Dialect} {g h : Nested} (hg : g.Restricts d h)
include hg

/-! ## Orderings and calls -/

theorem restricts_expressionList :
    Restricts True (expressionList g) (expressionList h)
      fun l => ∀ x ∈ l, ∀ n ∈ x.nodes, n.SupportedBy d :=
  .commaList (hg.expression 0)

theorem restricts_orderItems :
    Restricts True (orderItems g) (orderItems h)
      fun l => ∀ i ∈ l, ∀ n ∈ i.key.nodes, n.SupportedBy d := by
  apply Restricts.commaList
  apply Restricts.bind (hg.expression 0)
  intro key
  apply Restricts.same rfl
  intro descending
  apply Restricts.same rfl
  intro nulls
  exact .pure fun h => ⟨trivial, h⟩

theorem restricts_window :
    Restricts True (window g) (window h) fun w =>
      (∀ x ∈ w.partition, ∀ n ∈ x.nodes, n.SupportedBy d) ∧
        ∀ i ∈ w.order, ∀ n ∈ i.key.nodes, n.SupportedBy d := by
  have order (partition : List Expr) :
      Restricts (∀ x ∈ partition, ∀ n ∈ x.nodes, n.SupportedBy d)
        (do
          let order ← if ← accept (.keyword .ORDER) then do
              expect (.keyword .BY)
              orderItems g
            else pure []
          return Window.mk partition order)
        (do
          let order ← if ← accept (.keyword .ORDER) then do
              expect (.keyword .BY)
              orderItems h
            else pure []
          return Window.mk partition order) fun w =>
        (∀ x ∈ w.partition, ∀ n ∈ x.nodes, n.SupportedBy d) ∧
          ∀ i ∈ w.order, ∀ n ∈ i.key.nodes, n.SupportedBy d := by
    apply Restricts.same rfl
    intro ordered
    apply Restricts.ite
    · apply Restricts.same rfl
      intro _
      apply Restricts.bind (restricts_orderItems hg)
      intro order
      exact .pure id
    · apply Restricts.same rfl
      intro _
      exact .pure And.left
  apply Restricts.parenthesized
  apply Restricts.same rfl
  intro partitioned
  apply Restricts.ite
  · apply Restricts.same rfl
    intro _
    exact .seq (restricts_expressionList hg) order
  · exact (order []).imp fun _ => trivial

theorem restricts_arguments (distinct : Bool) :
    Restricts True (arguments g distinct) (arguments h distinct)
      fun l => ∀ x ∈ l, ∀ n ∈ x.nodes, n.SupportedBy d := by
  apply Restricts.same rfl
  intro next
  refine .ite (.pure fun _ => trivial) ?_
  apply Restricts.same rfl
  intro second
  apply Restricts.same rfl
  intro third
  apply Restricts.ite
  · apply Restricts.same rfl
    intro _
    exact .pure fun _ => trivial
  · exact restricts_expressionList hg

theorem restricts_optionalWindow :
    Restricts True (optionalWindow g) (optionalWindow h)
      fun o => ∀ n ∈ windowNodes o, n.SupportedBy d := by
  apply Restricts.same rfl
  intro next
  apply Restricts.same rfl
  intro second
  refine .ite ?_ (.pure fun _ => trivial)
  apply Restricts.same rfl
  intro _
  apply Restricts.bind (restricts_window hg)
  intro w
  exact .pure fun h => by simpa using h

theorem restricts_call (name : String) :
    Restricts True (call g name) (call h name) fun c => ∀ n ∈ c.nodes, n.SupportedBy d := by
  apply Restricts.same rfl
  intro _
  apply Restricts.same rfl
  intro distinct
  apply Restricts.bind (restricts_arguments hg distinct)
  intro arguments
  apply Restricts.same rfl
  intro _
  apply Restricts.same rfl
  intro nulls
  apply Restricts.bind (restricts_optionalWindow hg)
  intro window
  apply Restricts.pure
  intro h
  simpa [Call.nodes, or_imp, forall_and] using h

/-! ## Operands -/

section Operands
variable (hs : d.doubleQuotedStrings = e.doubleQuotedStrings)
include hs

theorem restricts_named (first : String) :
    Restricts True (named d g first) (named e h first) fun x => ∀ n ∈ x.nodes, n.SupportedBy d := by
  apply Restricts.same rfl
  intro next
  apply Restricts.ite
  · apply Restricts.bind (restricts_call hg first)
    intro c
    apply Restricts.pure
    intro h
    simpa [Expr.nodes] using h
  · have hpath : pathPart d = pathPart e := funext (pathPart_eq hs)
    exact .of_eq (by rw [hpath])

theorem restricts_namedOperand :
    Restricts True (namedOperand d g) (namedOperand e h)
      fun x => ∀ n ∈ x.nodes, n.SupportedBy d := by
  apply Restricts.same rfl
  intro t
  rw [identifier?_eq hs]
  split
  · rename_i first _
    apply Restricts.same rfl
    intro _
    exact restricts_named hg hs first
  · exact .unexpected _

theorem restricts_cast :
    Restricts True (cast d g) (cast e h) fun x => ∀ n ∈ x.nodes, n.SupportedBy d := by
  apply Restricts.same rfl
  intro _
  apply Restricts.parenthesized
  apply Restricts.bind (hg.expression 0)
  intro operand
  apply Restricts.same rfl
  intro _
  apply Restricts.same (dataType_eq hs)
  intro type
  apply Restricts.pure
  intro h
  simp only [Expr.nodes, List.forall_mem_cons, List.forall_mem_append] at h
  exact ⟨trivial, h.2.1⟩

omit hs in
theorem restricts_whenClause :
    Restricts True (whenClause g) (whenClause h) fun o => ∀ c ∈ o,
      (∀ n ∈ c.condition.nodes, n.SupportedBy d) ∧ ∀ n ∈ c.result.nodes, n.SupportedBy d := by
  apply Restricts.same rfl
  intro given
  refine .ite ?_ (.pure fun _ => trivial)
  apply Restricts.bind (hg.expression 0)
  intro condition
  apply Restricts.same rfl
  intro _
  apply Restricts.bind (hg.expression 0)
  intro result
  exact .pure fun h => by simpa using h

omit hs in
theorem restricts_caseOf :
    Restricts True (caseOf g) (caseOf h) fun x => ∀ n ∈ x.nodes, n.SupportedBy d := by
  have optional : Restricts True (some <$> g.expression 0) (some <$> h.expression 0)
      fun o => ∀ n ∈ optionalNodes o, n.SupportedBy d :=
    .map (hg.expression 0) fun x h => ⟨trivial, by simpa using h⟩
  have close (operand : Option Expr) (clauses : List WhenClause) (otherwise : Option Expr) :
      Restricts
        (((∀ n ∈ optionalNodes operand, n.SupportedBy d) ∧ ∀ c ∈ clauses,
          (∀ n ∈ c.condition.nodes, n.SupportedBy d) ∧ ∀ n ∈ c.result.nodes, n.SupportedBy d) ∧
            ∀ n ∈ optionalNodes otherwise, n.SupportedBy d)
        (do
          expect (.keyword .END)
          return Expr.caseOf operand clauses otherwise)
        (do
          expect (.keyword .END)
          return Expr.caseOf operand clauses otherwise)
        fun x => ∀ n ∈ x.nodes, n.SupportedBy d := by
    apply Restricts.same rfl
    intro _
    apply Restricts.pure
    intro h
    rw [Expr.nodes, List.forall_mem_cons, List.forall_mem_append, List.forall_mem_append,
      forall_clausesNodes] at h
    exact ⟨⟨h.2.1, h.2.2.1⟩, h.2.2.2⟩
  have clauses (operand : Option Expr) :
      Restricts (∀ n ∈ optionalNodes operand, n.SupportedBy d)
        (do
          let clauses ← many (whenClause g)
          if clauses.isEmpty then unexpected (.token (.keyword .WHEN))
          let otherwise ← if ← accept (.keyword .ELSE) then some <$> g.expression 0 else pure none
          expect (.keyword .END)
          return Expr.caseOf operand clauses otherwise)
        (do
          let clauses ← many (whenClause h)
          if clauses.isEmpty then unexpected (.token (.keyword .WHEN))
          let otherwise ← if ← accept (.keyword .ELSE) then some <$> h.expression 0 else pure none
          expect (.keyword .END)
          return Expr.caseOf operand clauses otherwise)
        fun x => ∀ n ∈ x.nodes, n.SupportedBy d := by
    apply Restricts.bind (Restricts.many (restricts_whenClause hg))
    intro clauses
    refine .ite (.of_error (fun _ => ⟨_, _, rfl⟩) fun _ => ⟨_, _, rfl⟩) ?_
    apply Restricts.same rfl
    intro given
    apply Restricts.ite
    · exact .bind optional (close operand clauses)
    · exact (close operand clauses none).imp And.left
  apply Restricts.same rfl
  intro _
  apply Restricts.same rfl
  intro next
  apply Restricts.ite
  · exact (clauses none).imp fun _ => trivial
  · exact .seq optional clauses

omit hs in
theorem restricts_group :
    Restricts True (group g) (group h) fun x => ∀ n ∈ x.nodes, n.SupportedBy d := by
  apply Restricts.parenthesized
  apply Restricts.same rfl
  intro next
  apply Restricts.ite
  · apply Restricts.bind hg.query
    intro q
    exact .pure fun h => by simpa [Expr.nodes] using h
  · apply Restricts.bind (hg.expression 0)
    intro x
    exact .pure fun h => by simpa [Expr.nodes] using h

theorem restricts_primary :
    Restricts True (primary d g) (primary e h) fun x => ∀ n ∈ x.nodes, n.SupportedBy d := by
  have word (name : String) :
      Restricts True
        (do
          if (← second) = .symbol .leftParen then
            advance
            return Expr.call (← call g name)
          else namedOperand d g)
        (do
          if (← second) = .symbol .leftParen then
            advance
            return Expr.call (← call h name)
          else namedOperand e h)
        fun x => ∀ n ∈ x.nodes, n.SupportedBy d := by
    apply Restricts.same rfl
    intro next
    apply Restricts.ite
    · apply Restricts.same rfl
      intro _
      apply Restricts.bind (restricts_call hg name)
      intro c
      exact .pure fun h => by simpa [Expr.nodes] using h
    · exact restricts_namedOperand hg hs
  apply Restricts.same rfl
  intro t
  rw [literal?_eq hs]
  split
  · apply Restricts.same rfl
    intro _
    exact .pure fun _ => trivial
  split
  · apply Restricts.same rfl
    intro _
    exact .pure fun _ => trivial
  · exact restricts_group hg
  · exact restricts_cast hg hs
  · exact restricts_caseOf hg
  · apply Restricts.same rfl
    intro _
    apply Restricts.bind (Restricts.parenthesized hg.query)
    intro q
    exact .pure fun h => by simpa [Expr.nodes] using h
  · exact word t.lexeme
  · exact word t.lexeme
  · exact restricts_namedOperand hg hs

theorem restricts_operand :
    Restricts True (operand d g) (operand e h) fun x => ∀ n ∈ x.nodes, n.SupportedBy d := by
  apply Restricts.same rfl
  intro k
  split
  · rename_i op _
    apply Restricts.same rfl
    intro _
    apply Restricts.bind (hg.expression _)
    intro x
    exact .pure fun h => by simpa [Expr.nodes] using h
  · exact restricts_primary hg hs

end Operands

/-! ## Operators -/

/-- A step over an operator keeps the operand on its left. -/
theorem restricts_inList (left : Expr) (negated : Bool) :
    Restricts (∀ n ∈ left.nodes, n.SupportedBy d) (inList g left negated) (inList h left negated)
      fun x => ∀ n ∈ x.nodes, n.SupportedBy d := by
  have values : Restricts True
      (do if (← kind) = .keyword .SELECT then return [.subquery (← g.query)] else expressionList g)
      (do if (← kind) = .keyword .SELECT then return [.subquery (← h.query)] else expressionList h)
      fun l => ∀ x ∈ l, ∀ n ∈ x.nodes, n.SupportedBy d := by
    apply Restricts.same rfl
    intro next
    apply Restricts.ite
    · apply Restricts.bind hg.query
      intro q
      exact .pure fun h => by simpa [Expr.nodes] using h
    · exact restricts_expressionList hg
  apply Restricts.bind (Restricts.parenthesized values)
  intro list
  apply Restricts.pure
  intro h
  rw [Expr.nodes, List.forall_mem_cons, List.forall_mem_append, forall_exprsNodes] at h
  exact h.2

theorem restricts_between (left : Expr) (power : Nat) (negated : Bool) :
    Restricts (∀ n ∈ left.nodes, n.SupportedBy d) (between g left power negated)
      (between h left power negated) fun x => ∀ n ∈ x.nodes, n.SupportedBy d := by
  apply Restricts.bind (hg.expression power)
  intro low
  apply Restricts.same rfl
  intro _
  apply Restricts.bind (hg.expression power)
  intro high
  apply Restricts.pure
  intro h
  rw [Expr.nodes, List.forall_mem_cons, List.forall_mem_append, List.forall_mem_append] at h
  exact ⟨⟨h.2.1, h.2.2.1⟩, h.2.2.2⟩

section Extends
variable (hde : d.IsExtendedBy e)
include hde

/-- The smaller dialect has the operator if it is to have the tree. -/
theorem restricts_pattern {left : Expr} {power : Nat} {op : BinaryOp} {f : Option Dialect.Feature}
    {k : TokenKind} (hop : patternOp? k = some (op, f)) (negated : Bool) :
    Restricts (∀ n ∈ left.nodes, n.SupportedBy d) (pattern d g left power op f negated)
      (pattern e h left power op f negated) fun x => ∀ n ∈ x.nodes, n.SupportedBy d := by
  obtain ⟨-, -, hf⟩ := power_of_patternOp? negated hop rfl
  cases f with
  | none =>
    apply Restricts.same rfl
    intro _
    apply Restricts.bind (hg.expression power)
    intro right
    apply Restricts.pure
    intro h
    rw [Expr.nodes, List.forall_mem_cons, List.forall_mem_append] at h
    exact h.2
  | some f =>
    apply Restricts.require hde.supports
    apply Restricts.same rfl
    intro _
    apply Restricts.bind (hg.expression power)
    intro right
    apply Restricts.pure
    intro h
    rw [Expr.nodes, List.forall_mem_cons, List.forall_mem_append] at h
    exact ⟨⟨h.2.1, h.1 f hf⟩, h.2.2⟩

theorem restricts_negatedPredicate (left : Expr) (power : Nat) :
    Restricts (∀ n ∈ left.nodes, n.SupportedBy d) (negatedPredicate d g left power)
      (negatedPredicate e h left power) fun o => ∀ n ∈ (o.getD left).nodes, n.SupportedBy d := by
  apply Restricts.same rfl
  intro next
  split
  · apply Restricts.same rfl
    intro _
    apply Restricts.same rfl
    intro _
    apply Restricts.seq (restricts_inList hg left true)
    intro x
    exact .pure id
  · apply Restricts.same rfl
    intro _
    apply Restricts.same rfl
    intro _
    apply Restricts.seq (restricts_between hg left power true)
    intro x
    exact .pure id
  split
  · rename_i hop
    apply Restricts.same rfl
    intro _
    apply Restricts.seq (restricts_pattern hg hde hop true)
    intro x
    exact .pure id
  · exact .pure id

theorem restricts_extend (minPower : Nat) (left : Expr) :
    Restricts (∀ n ∈ left.nodes, n.SupportedBy d) (extend d g minPower left)
      (extend e h minPower left) fun o => ∀ n ∈ (o.getD left).nodes, n.SupportedBy d := by
  apply Restricts.same rfl
  intro k
  split
  · exact .pure id
  rename_i power _
  refine .ite (.pure id) ?_
  split
  · apply Restricts.same rfl
    intro _
    apply Restricts.same rfl
    intro negated
    apply Restricts.same rfl
    intro _
    apply Restricts.pure
    intro h
    simpa [Expr.nodes] using h
  · apply Restricts.same rfl
    intro _
    apply Restricts.seq (restricts_inList hg left false)
    intro x
    exact .pure id
  · apply Restricts.same rfl
    intro _
    apply Restricts.seq (restricts_between hg left power false)
    intro x
    exact .pure id
  · exact restricts_negatedPredicate hg hde left power
  split
  · rename_i hop
    apply Restricts.seq (restricts_pattern hg hde hop false)
    intro x
    exact .pure id
  · apply Restricts.same rfl
    intro _
    apply Restricts.bind (hg.expression power)
    intro right
    apply Restricts.pure
    intro h
    simp only [Option.getD_some, Expr.nodes, List.forall_mem_cons, List.forall_mem_append] at h
    exact h.2
  · exact .pure id

theorem restricts_expressionOf (minPower : Nat) :
    Restricts True (expressionOf d g minPower) (expressionOf e h minPower)
      fun x => ∀ n ∈ x.nodes, n.SupportedBy d := by
  apply Restricts.seq (restricts_operand hg hde.doubleQuotedStrings)
  intro left
  exact .iterate (restricts_extend hg hde minPower) left

end Extends

end Parser

end SqlDialects
