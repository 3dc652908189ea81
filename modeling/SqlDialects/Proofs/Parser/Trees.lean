import SqlDialects.Proofs.Parser.Operators
import SqlDialects.Proofs.Parser.Yields
import SqlDialects.Proofs.Tree.Shape
import SqlDialects.Proofs.Word

/-!
# The trees that parsers return

Every node of a tree that a parser returns is sound: it lacks nothing, none of its operands reaches
into its neighbours, it uses only what the dialect has, and its literals are tokens of the stream.
What an expression returns carries one more fact through the loop over operators: the token behind
it is none that it would take.
-/

namespace SqlDialects

/-- A literal is a token with the property `T`. -/
@[simp] def Node.LiteralFrom (T : Token → Prop) (d : Dialect) : Node → Prop
  | .expr (.literal value) => ∃ t, T t ∧ Parser.literal? d t.kind = some value
  | _ => True

structure Node.Sound (T : Token → Prop) (d : Dialect) (n : Node) : Prop where
  complete : n.Complete
  tidy : n.Tidy
  bound : n.Bound
  supported : n.SupportedBy d
  literal : n.LiteralFrom T d

namespace Parser

/-- The current token is no operator that the expression takes. -/
def StopsAt (minPower : Nat) (e : Expr) (s : TokenStream) : Prop :=
  ∀ l r, infixPower? s.current.kind = some (l, r) → (l < minPower ∧ l < e.rightBound) ∨ AtLoneNot s

structure Nested.Sound (T : Token → Prop) (d : Dialect) (g : Nested) : Prop where
  expression ⦃m : Nat⦄ ⦃s : TokenStream⦄ ⦃e : Expr⦄ ⦃s' : TokenStream⦄ (hm : m ≤ 13)
    (hs : s.Within T) (h : g.expression m s = .ok e s') :
    (∀ n ∈ e.nodes, n.Sound T d) ∧ m ≤ e.leftBound ∧ StopsAt m e s' ∧ s'.Within T
  query : Yields T g.query fun q => ∀ n ∈ q.nodes, n.Sound T d
  forward : Nested.Related (fun p _ => GoesForward p) g g

variable {T : Token → Prop} {d : Dialect}

/-! ## Types -/

theorem yields_structField {p : Parser DataType}
    (hp : Yields T p fun t => ∀ n ∈ t.nodes, n.Sound T d) :
    Yields T (structField d p) fun f =>
      (Node.field f).Sound T d ∧ ∀ n ∈ f.dataType.nodes, n.Sound T d :=
  .skip (goesForward_congruence.name d) fun _ => .accept _ fun _ =>
    hp.bind fun _ ht => .pure ⟨⟨trivial, trivial, trivial, trivial, trivial⟩, ht⟩

theorem yields_dataTypeOf {p : Parser DataType}
    (hp : Yields T p fun t => ∀ n ∈ t.nodes, n.Sound T d) :
    Yields T (dataTypeOf d p) fun t => ∀ n ∈ t.nodes, n.Sound T d := by
  have sound (t : DataType) (hc : (Node.dataType t).Complete) (ht : (Node.dataType t).Tidy) :
      (Node.dataType t).Sound T d := ⟨hc, ht, trivial, trivial, trivial⟩
  refine .current fun t _ => ?_
  split
  · exact .unexpected _
  · rename_i word _
    refine .advance (.skip (goesForward_congruence.typeShape _) fun shape => ?_)
    cases shape with
    | emptyStruct => exact .pure (by simpa [DataType.nodes] using sound (.struct []) trivial trivial)
    | array =>
      refine hp.bind fun element he => .expect _ (.pure ?_)
      simpa [DataType.nodes] using ⟨sound (.array element) trivial trivial, he⟩
    | map =>
      refine hp.bind fun key hk => .expect _ (hp.bind fun value hv => .expect _ (.pure ?_))
      simpa [DataType.nodes, or_imp, forall_and] using
        ⟨sound (.map key value) trivial trivial, hk, hv⟩
    | struct =>
      refine (Yields.commaList (yields_structField hp)).bind fun fields hf => .expect _ (.pure ?_)
      simpa [DataType.nodes] using ⟨sound (.struct fields) trivial trivial, hf.2⟩
    | plain =>
      refine .accept _ fun _ => .ite (fun _ => ?_) fun _ => .pure ?_
      · refine (Yields.commaList (Yields.any goesForward_congruence.typeParameter)).bind
          fun parameters hne => .expect _ (.pure ?_)
        simpa [DataType.nodes] using sound (.sized word.toUpper parameters) hne.1 (by simp)
      · simpa [DataType.nodes] using sound (.simple word.toUpper) trivial (by simp)

theorem yields_dataType : Yields T (dataType d) fun t => ∀ n ∈ t.nodes, n.Sound T d := by
  have within (n : Nat) : Yields T (dataTypeWithin d n) fun t => ∀ n ∈ t.nodes, n.Sound T d := by
    induction n with
    | zero => exact .unexpected _
    | succ n ih => exact yields_dataTypeOf ih
  exact fun s _ _ hs h => within (s.rest.length + 1) hs h

variable {g : Nested} (hg : g.Sound T d)
include hg

theorem yields_expression :
    Yields T (g.expression 0) fun e => ∀ n ∈ e.nodes, n.Sound T d := by
  intro s e s' hs h
  obtain ⟨hn, -, -, hs'⟩ := hg.expression (Nat.zero_le _) hs h
  exact ⟨hn, hs'⟩

theorem yields_expressionList :
    Yields T (expressionList g) fun l => l ≠ [] ∧ ∀ e ∈ l, ∀ n ∈ e.nodes, n.Sound T d :=
  .commaList (yields_expression hg)

/-! ## Orderings and calls -/

theorem yields_orderItems :
    Yields T (orderItems g) fun l => l ≠ [] ∧ ∀ i ∈ l, ∀ n ∈ i.key.nodes, n.Sound T d :=
  .commaList <| (yields_expression hg).bind fun _ he =>
    .skip goesForward_congruence.direction fun _ =>
      .skip goesForward_congruence.nullOrdering fun _ => .pure he

theorem yields_window :
    Yields T (window g) fun w =>
      (∀ e ∈ w.partition, ∀ n ∈ e.nodes, n.Sound T d) ∧
        ∀ i ∈ w.order, ∀ n ∈ i.key.nodes, n.Sound T d := by
  refine .parenthesized (.accept _ fun b => ?_)
  dsimp only
  refine .ite (fun _ => .expect _ ((yields_expressionList hg).bind fun partition hp => ?_))
    fun _ => .bind (.pure (Q := (· = [])) rfl) fun partition hp => ?_
  all_goals
    refine .accept _ fun b => ?_
    refine .ite (fun _ => .expect _ ((yields_orderItems hg).bind fun order ho => .pure ?_))
      fun _ => .bind (.pure (Q := (· = [])) rfl) fun order ho => .pure ?_
  · exact ⟨hp.2, ho.2⟩
  · exact ⟨hp.2, by simp [ho]⟩
  · exact ⟨by simp [hp], ho.2⟩
  · exact ⟨by simp [hp], by simp [ho]⟩

/-- With `DISTINCT` there is an argument. -/
theorem yields_arguments (distinct : Bool) :
    Yields T (arguments g distinct) fun l =>
      (distinct = true → l ≠ []) ∧ ∀ e ∈ l, ∀ n ∈ e.nodes, n.Sound T d := by
  refine .kind fun _ => .ite (fun h => .pure ?_) fun _ => .kind fun _ => .second fun _ =>
    .ite (fun _ => .advance (.pure ?_)) fun _ =>
      (yields_expressionList hg).mono fun _ h => ⟨fun _ => h.1, h.2⟩
  · simp_all
  · have star : (Node.expr (.wildcard [])).Sound T d :=
      ⟨trivial, trivial, trivial, trivial, trivial⟩
    simpa [Expr.nodes] using star

theorem yields_call (name : String) :
    Yields T (call g name) fun c => ∀ n ∈ c.nodes, n.Sound T d := by
  refine .expect _ (.skip goesForward_congruence.distinctOrAll fun distinct =>
    (yields_arguments hg distinct).bind fun arguments ha => .expect _
      (.skip goesForward_congruence.ignoreNulls fun ignoreNulls => ?_))
  have hw : Yields T (optionalWindow g) fun o => ∀ n ∈ windowNodes o, n.Sound T d := by
    refine .kind fun _ => .second fun _ => .ite (fun _ => .advance ?_) fun _ => .pure ?_
    · exact (yields_window hg).bind fun w hw => .pure (by simpa using hw)
    · simp
  refine hw.bind fun w hw => .pure ?_
  have sound : (Node.call ⟨name, arguments, distinct, ignoreNulls, w⟩).Sound T d :=
    ⟨ha.1, trivial, trivial, trivial, trivial⟩
  rw [Call.nodes, List.forall_mem_cons, List.forall_mem_append, forall_exprsNodes]
  exact ⟨sound, ha.2, hw⟩

/-! ## Operands -/

/-- An expression without operators at its edges. -/
def IsClosed (T : Token → Prop) (d : Dialect) (e : Expr) : Prop :=
  (∀ n ∈ e.nodes, n.Sound T d) ∧ e.leftBound = 13 ∧ e.rightBound = 13

theorem yields_named (first : String) : Yields T (named d g first) (IsClosed T d) := by
  have column (q : List String) (n : String) : IsClosed T d (.column q n) :=
    ⟨by simpa [Expr.nodes] using ⟨trivial, trivial, trivial, trivial, trivial⟩, rfl, rfl⟩
  have wildcard (q : List String) : IsClosed T d (.wildcard q) :=
    ⟨by simpa [Expr.nodes] using ⟨trivial, trivial, trivial, trivial, trivial⟩, rfl, rfl⟩
  refine .kind fun _ => .ite (fun _ => ?_) fun _ => .iterate (fun e _ => ?_) (column [] first)
  · refine (yields_call hg first).bind fun c hc => .pure ⟨?_, rfl, rfl⟩
    rw [Expr.nodes, List.forall_mem_cons]
    exact ⟨⟨trivial, trivial, trivial, trivial, trivial⟩, hc⟩
  · unfold pathPart
    split
    · refine .accept _ fun _ => .ite (fun _ => .accept _ fun _ => .ite (fun _ => .pure ?_) fun _ =>
        .skip (goesForward_congruence.name d) fun _ => .pure ?_) fun _ => .pure ?_
      · simpa using wildcard _
      · simpa using column _ _
      · simp
    · exact .pure (by simp)

theorem yields_namedOperand : Yields T (namedOperand d g) (IsClosed T d) := by
  refine .current fun _ _ => ?_
  split
  · exact .advance (yields_named hg _)
  · exact .unexpected _

theorem yields_cast : Yields T (cast d g) (IsClosed T d) := by
  refine .expect _ <| .parenthesized <| (yields_expression hg).bind fun e he => .expect _ <|
    yields_dataType.bind fun t ht => .pure ⟨?_, rfl, rfl⟩
  rw [Expr.nodes, List.forall_mem_cons, List.forall_mem_append]
  exact ⟨⟨trivial, trivial, trivial, trivial, trivial⟩, he, ht⟩

theorem yields_whenClause :
    Yields T (whenClause g) fun o => ∀ c ∈ o,
      (∀ n ∈ c.condition.nodes, n.Sound T d) ∧ ∀ n ∈ c.result.nodes, n.Sound T d :=
  .accept _ fun _ => .ite
    (fun _ => (yields_expression hg).bind fun _ hc => .expect _ <|
      (yields_expression hg).bind fun _ hr => .pure (by simpa using ⟨hc, hr⟩))
    fun _ => .pure (by simp)

theorem yields_caseOf : Yields T (caseOf g) (IsClosed T d) := by
  have close {operand otherwise : Option Expr} {clauses : List WhenClause}
      (ho : ∀ n ∈ optionalNodes operand, n.Sound T d)
      (hc : ∀ c ∈ clauses, (∀ n ∈ c.condition.nodes, n.Sound T d) ∧ ∀ n ∈ c.result.nodes, n.Sound T d)
      (hne : clauses ≠ []) (hw : ∀ n ∈ optionalNodes otherwise, n.Sound T d) :
      IsClosed T d (.caseOf operand clauses otherwise) := by
    refine ⟨?_, rfl, rfl⟩
    rw [Expr.nodes, List.forall_mem_cons, List.forall_mem_append, List.forall_mem_append,
      forall_clausesNodes]
    exact ⟨⟨hne, trivial, trivial, trivial, trivial⟩, ho, hc, hw⟩
  have clauses {operand : Option Expr} (ho : ∀ n ∈ optionalNodes operand, n.Sound T d) :
      Yields T (do
        let clauses ← many (whenClause g)
        if clauses.isEmpty then unexpected (.token (.keyword .WHEN))
        let otherwise ← if ← accept (.keyword .ELSE) then some <$> g.expression 0 else pure none
        expect (.keyword .END)
        return .caseOf operand clauses otherwise) (IsClosed T d) := by
    refine (Yields.many (yields_whenClause hg)).bind fun clauses hc => ?_
    dsimp only
    refine .ite (fun _ => .bind (Q := fun _ => False) (.unexpected _) fun _ h => h.elim) fun hne => ?_
    have hne : clauses ≠ [] := by simpa using hne
    refine .accept _ fun _ => .ite (fun _ => ?_) fun _ => ?_
    · exact ((yields_expression hg).map (f := some) fun _ he => he).bind fun w hw =>
        .expect _ (.pure (close ho hc hne hw))
    · exact .bind (.pure (Q := fun o => ∀ n ∈ optionalNodes o, n.Sound T d) (by simp)) fun w hw =>
        .expect _ (.pure (close ho hc hne hw))
  refine .expect _ (.kind fun _ => .ite (fun _ => ?_) fun _ => ?_)
  · exact .bind (.pure (Q := fun o => ∀ n ∈ optionalNodes o, n.Sound T d) (by simp)) fun _ => clauses
  · exact ((yields_expression hg).map (f := some) fun _ he => he).bind fun _ => clauses

theorem yields_group : Yields T (group g) (IsClosed T d) := by
  refine .parenthesized (.kind fun _ => .ite (fun _ => ?_) fun _ => ?_)
  · refine hg.query.bind fun q hq => .pure ⟨?_, rfl, rfl⟩
    rw [Expr.nodes, List.forall_mem_cons]
    exact ⟨⟨trivial, trivial, trivial, trivial, trivial⟩, hq⟩
  · refine (yields_expression hg).bind fun e he => .pure ⟨?_, rfl, rfl⟩
    rw [Expr.nodes, List.forall_mem_cons]
    exact ⟨⟨trivial, trivial, trivial, trivial, trivial⟩, he⟩

theorem yields_primary : Yields T (primary d g) (IsClosed T d) := by
  have calls (name : String) :
      Yields T (do return .call (← call g name)) (IsClosed T d) := by
    refine (yields_call hg name).bind fun c hc => .pure ⟨?_, rfl, rfl⟩
    rw [Expr.nodes, List.forall_mem_cons]
    exact ⟨⟨trivial, trivial, trivial, trivial, trivial⟩, hc⟩
  refine .current fun t ht => ?_
  split
  · rename_i value hv
    have ht : T t := ht.resolve_right fun he => by simp [he, literal?] at hv
    refine .advance (.pure ⟨?_, rfl, rfl⟩)
    simpa [Expr.nodes] using ⟨trivial, trivial, trivial, trivial, t, ht, hv⟩
  · split
    · refine .advance (.pure ⟨?_, rfl, rfl⟩)
      simpa [Expr.nodes] using ⟨trivial, trivial, trivial, trivial, trivial⟩
    · exact yields_group hg
    · exact yields_cast hg
    · exact yields_caseOf hg
    · refine .advance ((Yields.parenthesized hg.query).bind fun q hq => .pure ⟨?_, rfl, rfl⟩)
      rw [Expr.nodes, List.forall_mem_cons]
      exact ⟨⟨trivial, trivial, trivial, trivial, trivial⟩, hq⟩
    · exact .second fun _ => .ite (fun _ => .advance (calls _)) fun _ => yields_namedOperand hg
    · exact .second fun _ => .ite (fun _ => .advance (calls _)) fun _ => yields_namedOperand hg
    · exact yields_namedOperand hg

/-! ## Operators -/

/-- What the loop over operators has built so far: a tree that does not take the current token for
an operator of its own right edge. -/
structure Extended (T : Token → Prop) (d : Dialect) (m : Nat) (e : Expr) (s : TokenStream) :
    Prop where
  nodes : ∀ n ∈ e.nodes, n.Sound T d
  leftBound : m ≤ e.leftBound
  stops : ∀ l r, infixPower? s.current.kind = some (l, r) → l < e.rightBound ∨ AtLoneNot s
  within : s.Within T

omit hg in
theorem Extended.of_rightBound {m : Nat} {e : Expr} {s : TokenStream}
    (hn : ∀ n ∈ e.nodes, n.Sound T d) (hm : m ≤ e.leftBound) (he : e.rightBound = 13)
    (hs : s.Within T) : Extended T d m e s :=
  ⟨hn, hm, fun _ _ h => .inl (he ▸ infixPower?_lt h), hs⟩

theorem extended_operand {m : Nat} {s s' : TokenStream} {e : Expr} (hs : s.Within T) (hm : m ≤ 13)
    (h : operand d g s = .ok e s') : Extended T d m e s' := by
  cases hop : unaryOp? s.current.kind with
  | some o =>
    obtain ⟨op, power⟩ := o
    rw [operand_unary hop, power_of_unaryOp? hop] at h
    obtain ⟨x, _, hx, ⟨⟩⟩ := bind_eq_ok.mp h
    obtain ⟨hn, hl, hstop, hs'⟩ := hg.expression op.power_le (hs.of_isLeftOf (.tail s)) hx
    refine ⟨?_, hm, fun l r hk => ?_, hs'⟩
    · rw [Expr.nodes, List.forall_mem_cons]
      exact ⟨⟨trivial, trivial, hl, trivial, trivial⟩, hn⟩
    · exact (hstop l r hk).imp_left fun ⟨h₁, h₂⟩ => lt_min h₁ h₂
  | none =>
    rw [operand_primary hop] at h
    obtain ⟨⟨hn, hl, hr⟩, hs'⟩ := yields_primary hg hs h
    exact .of_rightBound hn (hl ▸ hm) hr hs'

section Step

variable {m : Nat} {left e : Expr} {s s' : TokenStream} (hleft : ∀ n ∈ left.nodes, n.Sound T d)
variable (hm : m ≤ left.leftBound) (hs : s.Within T)
include hleft hm hs

omit hg in
theorem extended_isNull (hp : m ≤ 7) (hb : 7 < left.rightBound)
    (h : (do
      let negated ← accept (.keyword .NOT)
      expect (.keyword .NULL)
      return some (Expr.isNull left negated) : Parser (Option Expr)) s = .ok (some e) s') :
    Extended T d m e s' ∧ s'.IsLeftOf s := by
  obtain ⟨negated, s₁, haccept, h⟩ := bind_eq_ok.mp h
  obtain ⟨_, s₂, hexpect, ⟨⟩⟩ := bind_eq_ok.mp h
  have hleft₂ : s'.IsLeftOf s :=
    (isLeftOf_of_ok (goesForward_congruence.expect _) hexpect).trans
      (isLeftOf_of_ok (goesForward_congruence.accept _) haccept)
  refine ⟨.of_rightBound ?_ (le_min hp hm) rfl (hs.of_isLeftOf hleft₂), hleft₂⟩
  rw [Expr.nodes, List.forall_mem_cons]
  exact ⟨⟨trivial, trivial, hb, trivial, trivial⟩, hleft⟩

theorem extended_inList {negated : Bool} (hp : m ≤ 7) (hb : 7 < left.rightBound)
    (h : inList g left negated s = .ok e s') : Extended T d m e s' := by
  have list : Yields T (inList g left negated) fun e =>
      (∀ n ∈ e.nodes, n.Sound T d) ∧ ∃ l, e = .inList left l negated := by
    have values : Yields T (do
        if (← kind) = .keyword .SELECT then return [.subquery (← g.query)] else expressionList g)
        fun l => l ≠ [] ∧ ∀ e ∈ l, ∀ n ∈ e.nodes, n.Sound T d := by
      refine .kind fun _ => .ite (fun _ => hg.query.bind fun q hq => .pure ⟨by simp, ?_⟩)
        fun _ => yields_expressionList hg
      simp only [List.forall_mem_singleton, Expr.nodes, List.forall_mem_cons]
      exact ⟨⟨trivial, trivial, trivial, trivial, trivial⟩, hq⟩
    refine (Yields.parenthesized values).bind fun l hl => .pure ⟨?_, l, rfl⟩
    rw [Expr.nodes, List.forall_mem_cons, List.forall_mem_append, forall_exprsNodes]
    exact ⟨⟨hl.1, trivial, hb, trivial, trivial⟩, hleft, hl.2⟩
  obtain ⟨⟨hn, l, rfl⟩, hs'⟩ := list hs h
  exact .of_rightBound hn (le_min hp hm) rfl hs'

theorem extended_between {negated : Bool} (hp : m ≤ 7) (hb : 7 < left.rightBound)
    (h : between g left 8 negated s = .ok e s') : Extended T d m e s' := by
  obtain ⟨low, s₁, hlow, h⟩ := bind_eq_ok.mp h
  obtain ⟨hln, hl, -, hs₁⟩ := hg.expression (by decide) hs hlow
  obtain ⟨_, s₂, hand, h⟩ := bind_eq_ok.mp h
  have hs₂ := hs₁.of_isLeftOf (isLeftOf_of_ok (goesForward_congruence.expect _) hand)
  obtain ⟨high, s₃, hhigh, h⟩ := bind_eq_ok.mp h
  obtain ⟨hhn, hh, hstop, hs₃⟩ := hg.expression (by decide) hs₂ hhigh
  cases h
  refine ⟨?_, le_min hp hm, fun l r hk => ?_, hs₃⟩
  · rw [Expr.nodes, List.forall_mem_cons, List.forall_mem_append, List.forall_mem_append]
    exact ⟨⟨trivial, trivial, ⟨hb, hl, hh⟩, trivial, trivial⟩, hleft, hln, hhn⟩
  · exact (hstop l r hk).imp_left fun ⟨h₁, h₂⟩ => lt_min h₁ h₂

/-- The operand on the right of an operator. -/
theorem extended_binary {op : BinaryOp} (hp : m ≤ op.leftPower) (hb : op.leftPower < left.rightBound)
    (hf : ∀ f ∈ op.feature?, d.supports f = true)
    (h : (do return Expr.binary left op (← g.expression op.rightPower) : Parser Expr) s = .ok e s') :
    Extended T d m e s' := by
  obtain ⟨right, s₁, hright, h⟩ := bind_eq_ok.mp h
  obtain ⟨hrn, hr, hstop, hs₁⟩ := hg.expression op.rightPower_le hs hright
  cases h
  refine ⟨?_, le_min hp hm, fun l r hk => ?_, hs₁⟩
  · rw [Expr.nodes, List.forall_mem_cons, List.forall_mem_append]
    exact ⟨⟨trivial, trivial, ⟨hb, hr⟩, hf, trivial⟩, hleft, hrn⟩
  · exact (hstop l r hk).imp_left fun ⟨h₁, h₂⟩ => lt_min h₁ h₂

theorem extended_pattern {op : BinaryOp} {f : Option Dialect.Feature} {negated : Bool}
    {k : TokenKind} (hk : patternOp? k = some (op, f)) (hp : m ≤ 7) (hb : 7 < left.rightBound)
    (h : pattern d g left 8 op f negated s = .ok e s') : Extended T d m e s' := by
  obtain ⟨hd, h⟩ := pattern_eq_ok.mp h
  obtain ⟨hl, hr, hf⟩ := power_of_patternOp? negated hk rfl
  generalize (if negated then op.negated?.getD op else op) = op' at h hl hr hf
  rw [← hr] at h
  exact extended_binary hg hleft hm (hs.of_isLeftOf (.tail s)) (hl ▸ hp) (hl ▸ hb) (hf ▸ hd) h

end Step

omit hg in
theorem rest_length_lt {s s' : TokenStream} (h : s'.IsLeftOf s.tail)
    (hk : s.current.kind ≠ .endOfInput) : s'.rest.length < s.rest.length := by
  have hle := h.rest.length_le
  obtain ⟨_ | ⟨t, rest⟩, span, lexeme⟩ := s
  · exact absurd rfl hk
  · exact Nat.lt_succ_of_le hle

omit hg in
/-- Where no step is taken, the loop stops. -/
theorem stopped_of_extend {m : Nat} {left : Expr} {s s' : TokenStream}
    (h : extend d g m left s = .ok none s') :
    s' = s ∧ ∀ l r, infixPower? s.current.kind = some (l, r) → l < m ∨ AtLoneNot s := by
  have some_ne_none {p : Parser Expr} {s : TokenStream} (h : (some <$> p) s = .ok none s') :
      False := by
    obtain ⟨_, _, _, ⟨⟩⟩ := bind_eq_ok.mp h
  cases hk : infixPower? s.current.kind with
  | none =>
    rw [extend_stop (by simp [hk])] at h
    exact ⟨by cases h; rfl, by simp⟩
  | some p =>
    obtain ⟨l, r⟩ := p
    by_cases hm : l < m
    · rw [extend_stop (by simp [hk, hm])] at h
      exact ⟨by cases h; rfl, by rintro _ _ ⟨⟩; exact .inl hm⟩
    · have hm : m ≤ l := Nat.not_lt.mp hm
      obtain ⟨rfl, hop | hop | hop | hop⟩ | ⟨op, f, hop, rfl⟩ | ⟨op, hop, rfl⟩ := operator_cases hk
      · rw [extend_isNull hop hm] at h
        obtain ⟨_, _, _, h⟩ := bind_eq_ok.mp h
        obtain ⟨_, _, _, ⟨⟩⟩ := bind_eq_ok.mp h
      · exact (some_ne_none (extend_in hop hm ▸ h)).elim
      · exact (some_ne_none (extend_between hop hm ▸ h)).elim
      · rw [extend_not hop hm] at h
        by_cases hin : s.second = .keyword .IN
        · exact (some_ne_none (negatedPredicate_in hin ▸ h)).elim
        by_cases hbetween : s.second = .keyword .BETWEEN
        · exact (some_ne_none (negatedPredicate_between hbetween ▸ h)).elim
        cases hpattern : patternOp? s.second with
        | some o => exact (some_ne_none (negatedPredicate_pattern hpattern ▸ h)).elim
        | none =>
          have hlone : AtLoneNot s := ⟨hop, hin, hbetween, hpattern⟩
          rw [negatedPredicate_stop hlone] at h
          exact ⟨by cases h; rfl, fun _ _ _ => .inr hlone⟩
      · exact (some_ne_none (extend_pattern hop hm ▸ h)).elim
      · rw [extend_binary hop hm] at h
        obtain ⟨_, _, _, ⟨⟩⟩ := bind_eq_ok.mp h

/-- A step takes at least one token, and the tree that it returns is as its operand was. -/
theorem extended_extend {m : Nat} {left e : Expr} {s s' : TokenStream}
    (hleft : Extended T d m left s) (h : extend d g m left s = .ok (some e) s') :
    Extended T d m e s' ∧ s'.rest.length < s.rest.length := by
  obtain ⟨hn, hl, hstop, hs⟩ := hleft
  cases hk : infixPower? s.current.kind with
  | none =>
    rw [extend_stop (by simp [hk])] at h
    cases h
  | some p =>
    obtain ⟨l, r⟩ := p
    by_cases hm : l < m
    · rw [extend_stop (by simp [hk, hm])] at h
      cases h
    have hm : m ≤ l := Nat.not_lt.mp hm
    have hb : l < left.rightBound ∨ AtLoneNot s := hstop l r hk
    have hne : s.current.kind ≠ .endOfInput := fun he => by simp [he, infixPower?] at hk
    have ht := hs.of_isLeftOf (.tail s)
    have htt := ht.of_isLeftOf (.tail s.tail)
    -- Every form of step passes the current token first, and then at least none.
    have shorter {p : Parser Expr} {u : TokenStream} (hu : u.IsLeftOf s.tail) (hp : GoesForward p)
        (h : p u = .ok e s') : s'.rest.length < s.rest.length :=
      rest_length_lt ((isLeftOf_of_ok hp h).trans hu) hne
    have forward := goesForward_congruence
    have inList (negated : Bool) := forward.inList hg.forward left negated
    have between (negated : Bool) := forward.between hg.forward left 8 negated
    have binary (op : BinaryOp) (power : Nat) :
        GoesForward (do return Expr.binary left op (← g.expression power) : Parser Expr) :=
      .bind (hg.forward.expression _) fun _ => forward.pure _
    obtain ⟨rfl, hop | hop | hop | hop⟩ | ⟨op, f, hop, rfl⟩ | ⟨op, hop, rfl⟩ := operator_cases hk
    · have hb := hb.resolve_right fun hlone => by cases hop.symm.trans hlone.1
      obtain ⟨he, hs'⟩ := extended_isNull hn hl ht hm hb (extend_isNull hop hm ▸ h)
      exact ⟨he, rest_length_lt hs' hne⟩
    · have hb := hb.resolve_right fun hlone => by cases hop.symm.trans hlone.1
      obtain ⟨_, _, hin, ⟨⟩⟩ := bind_eq_ok.mp (extend_in hop hm ▸ h)
      exact ⟨extended_inList hg hn hl ht hm hb hin, shorter (.refl _) (inList false) hin⟩
    · have hb := hb.resolve_right fun hlone => by cases hop.symm.trans hlone.1
      obtain ⟨_, _, hbetween, ⟨⟩⟩ := bind_eq_ok.mp (extend_between hop hm ▸ h)
      exact ⟨extended_between hg hn hl ht hm hb hbetween,
        shorter (.refl _) (between false) hbetween⟩
    · rw [extend_not hop hm] at h
      have hb := hb.resolve_right fun hlone => by
        rw [negatedPredicate_stop hlone] at h
        cases h
      by_cases hin : s.second = .keyword .IN
      · obtain ⟨_, _, hin, ⟨⟩⟩ := bind_eq_ok.mp (negatedPredicate_in hin ▸ h)
        exact ⟨extended_inList hg hn hl htt hm hb hin, shorter (.tail _) (inList true) hin⟩
      by_cases hbetween : s.second = .keyword .BETWEEN
      · obtain ⟨_, _, hbetween, ⟨⟩⟩ := bind_eq_ok.mp (negatedPredicate_between hbetween ▸ h)
        exact ⟨extended_between hg hn hl htt hm hb hbetween,
          shorter (.tail _) (between true) hbetween⟩
      cases hpattern : patternOp? s.second with
      | some o =>
        obtain ⟨_, _, hp, ⟨⟩⟩ := bind_eq_ok.mp (negatedPredicate_pattern hpattern ▸ h)
        exact ⟨extended_pattern hg hn hl ht hpattern hm hb hp,
          shorter (.tail _) (binary _ 8) (pattern_eq_ok.mp hp).2⟩
      | none =>
        rw [negatedPredicate_stop ⟨hop, hin, hbetween, hpattern⟩] at h
        cases h
    · have hb := hb.resolve_right fun hlone => by simp [hlone.1, patternOp?] at hop
      obtain ⟨_, _, hp, ⟨⟩⟩ := bind_eq_ok.mp (extend_pattern hop hm ▸ h)
      exact ⟨extended_pattern hg hn hl hs hop hm hb hp,
        shorter (.refl _) (binary _ 8) (pattern_eq_ok.mp hp).2⟩
    · have hb := hb.resolve_right fun hlone => by simp [hlone.1, binaryOp?] at hop
      obtain ⟨right, _, hright, ⟨⟩⟩ := bind_eq_ok.mp (extend_binary hop hm ▸ h)
      have hp : (do return Expr.binary left op (← g.expression op.rightPower) : Parser Expr) s.tail =
          .ok (.binary left op right) s' := bind_eq_ok.mpr ⟨right, _, hright, rfl⟩
      exact ⟨extended_binary hg hn hl ht hm hb (by simp [(infixPower?_of_binaryOp? hop).2.2]) hp,
        shorter (.refl _) (binary op op.rightPower) hp⟩

/-- The tokens left bound the repetitions, so the loop ends because there is no step left. -/
theorem sound_expressionOf {m : Nat} {s s' : TokenStream} {e : Expr} (hs : s.Within T) (hm : m ≤ 13)
    (h : expressionOf d g m s = .ok e s') :
    (∀ n ∈ e.nodes, n.Sound T d) ∧ m ≤ e.leftBound ∧ StopsAt m e s' ∧ s'.Within T := by
  obtain ⟨left, s₁, hleft, h⟩ := bind_eq_ok.mp h
  replace hleft := extended_operand hg hs hm hleft
  change iterateUpTo (extend d g m) (s₁.rest.length + 1) left s₁ = _ at h
  have hn : s₁.rest.length < s₁.rest.length + 1 := Nat.lt_succ_self _
  generalize s₁.rest.length + 1 = n at h hn
  induction n generalizing left s₁ with
  | zero => exact absurd hn (Nat.not_lt_zero _)
  | succ n ih =>
    obtain ⟨o, s₂, hstep, h⟩ := bind_eq_ok.mp h
    cases o with
    | none =>
      cases h
      obtain ⟨rfl, hstop⟩ := stopped_of_extend hstep
      refine ⟨hleft.nodes, hleft.leftBound, fun l r hk => ?_, hleft.within⟩
      obtain hlt | hlone := hstop l r hk
      · exact (hleft.stops l r hk).imp_left fun hr => ⟨hlt, hr⟩
      · exact .inr hlone
    | some x =>
      obtain ⟨hx, hshort⟩ := extended_extend hg hleft hstep
      exact ih x s₂ hx h (by omega)

end Parser

end SqlDialects
