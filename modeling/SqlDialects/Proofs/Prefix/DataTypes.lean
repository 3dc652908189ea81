import SqlDialects.Proofs.Prefix.Viable

/-!
# Prefixes of types

What may follow an expression, a type or a query, and how the tokens of a type are completed,
wherever its parser stops.
-/

namespace SqlDialects.Parser

/-! ## What may follow -/

/-- A token behind a query. -/
def FollowsQuery (x : Token) : Prop :=
  x.kind = .symbol .rightParen ∨ x.kind = .endOfInput

/-- A token behind an expression whose operators bind at least as tightly as `m`. -/
def FollowsExpression (m : Nat) (x : Token) : Prop :=
  FollowsQuery x ∨ x.kind = .keyword .AS ∨ x.kind = .keyword .THEN ∨ x.kind = .keyword .WHEN ∨
    x.kind = .keyword .END ∨ (3 < m ∧ x.kind = .keyword .AND)

/-- A token behind a type. -/
def FollowsType (x : Token) : Prop :=
  (x.kind = .symbol .gt ∨ x.kind = .symbol .comma ∨ x.kind = .symbol .rightParen) ∧ x.lexeme ≠ "<>"

section Follow

variable {x : Token} {m n : Nat}

/-- A name. -/
def word : Token :=
  sample (.identifier "x")

/-- A literal. -/
def one : Token :=
  sample (.integer 1)

theorem Plain.kind_ne_leftParen {x : Token} (h : Plain x) : x.kind ≠ .symbol .leftParen :=
  fun hx => h (.keyword .OVER) hx

theorem plain_word : Plain word :=
  plain_of_kind (by decide)

theorem plain_one : Plain one :=
  plain_of_kind (by decide)

theorem Closes.followsQuery (h : Closes x) : FollowsQuery x :=
  .inl (congrArg Token.kind h)

theorem Closes.followsType (h : Closes x) : FollowsType x := by
  subst h
  exact ⟨.inr (.inr rfl), by decide⟩

theorem FollowsQuery.isEnd (h : FollowsQuery x) : IsEnd x.kind :=
  h.imp_right .inr

theorem FollowsQuery.followsExpression (h : FollowsQuery x) (m : Nat) : FollowsExpression m x :=
  .inl h

theorem FollowsExpression.mono (h : FollowsExpression m x) (hm : 3 < m → 3 < n) :
    FollowsExpression n x := by
  obtain h | h | h | h | h | ⟨h3, h⟩ := h
  · exact .inl h
  · exact .inr (.inl h)
  · exact .inr (.inr (.inl h))
  · exact .inr (.inr (.inr (.inl h)))
  · exact .inr (.inr (.inr (.inr (.inl h))))
  · exact .inr (.inr (.inr (.inr (.inr ⟨hm h3, h⟩))))

theorem FollowsExpression.plain (h : FollowsExpression m x) : Plain x := by
  apply plain_of_kind
  obtain (h | h) | h | h | h | h | ⟨-, h⟩ := h <;> simp [h, patternOp?]

theorem FollowsQuery.plain (h : FollowsQuery x) : Plain x :=
  (h.followsExpression 0).plain

theorem FollowsType.plain (h : FollowsType x) : Plain x := by
  apply plain_of_kind
  obtain ⟨h | h | h, -⟩ := h <;> simp [h, patternOp?]

/-- No symbol but the closing parenthesis follows an expression. -/
theorem FollowsExpression.kind_ne_symbol (h : FollowsExpression m x) {s : Symbol}
    (hs : s ≠ .rightParen) : x.kind ≠ .symbol s := by
  obtain (h | h) | h | h | h | h | ⟨-, h⟩ := h <;> simp [h, hs.symm]

theorem FollowsQuery.kind_ne_keyword (h : FollowsQuery x) (k : Keyword) : x.kind ≠ .keyword k := by
  obtain h | h := h <;> simp [h]

theorem Closes.kind_ne_keyword (h : Closes x) (k : Keyword) : x.kind ≠ .keyword k :=
  h.followsQuery.kind_ne_keyword k

/-- No operator that binds tightly enough follows an expression. -/
theorem FollowsExpression.infixPower?_lt (h : FollowsExpression m x) {l r : Nat}
    (hp : infixPower? x.kind = some (l, r)) : l < m := by
  obtain (h | h) | h | h | h | h | ⟨h3, h⟩ := h <;> rw [h] at hp <;> cases hp
  exact h3

end Follow

/-! ## Types -/

section Types

variable {d : Dialect} {E : Prop} {F K : Token → Prop}

theorem viable_typeParameter : ViableAt E True (fun _ => True) F typeParameter typeParameter := by
  refine .kind (fun k => ?_) fun _ k k' hk hk' => ?_
  · split
    · split
      · exact .advance (fun _ _ hx => hx.2 ▸ nofun) (.pure _) fun x hx =>
          .pure (fun _ _ _ => by rw [hx.2]; exact id) _
      · exact .fail _ _
    · exact .unexpected _ _
  · obtain rfl | rfl | rfl := hk <;> obtain rfl | rfl | rfl := hk' <;> rfl

theorem begins_typeParameter : Begins F (· = one) typeParameter :=
  ⟨[one], 1, by decide, fun _ _ => ⟨rfl, rfl⟩⟩

/-- What follows the name of a type, by its shape. -/
def shapeBody (d : Dialect) (part : Parser DataType) (name : String) : TypeShape → Parser DataType
  | .emptyStruct => return .struct []
  | .array => do
    let element ← part
    expect (.symbol .gt)
    return .array element
  | .map => do
    let key ← part
    expect (.symbol .comma)
    let value ← part
    expect (.symbol .gt)
    return .map key value
  | .struct => do
    let fields ← commaList (structField d part)
    expect (.symbol .gt)
    return .struct fields
  | .plain => do
    if ← accept (.symbol .leftParen) then
      let parameters ← commaList typeParameter
      expect (.symbol .rightParen)
      return .sized name parameters
    else return .simple name

theorem typeBody_eq (part : Parser DataType) (name : String) :
    typeBody d part name = typeShape name >>= shapeBody d part name := rfl

theorem typeShape_bind {α : Type} (name : String) (f : TypeShape → Parser α) :
    typeShape name >>= f =
      if name = "ARRAY" then
        accept (.symbol .lt) >>= fun b => f (if b then .array else .plain)
      else if name = "MAP" then
        accept (.symbol .lt) >>= fun b => f (if b then .map else .plain)
      else if name = "STRUCT" then do
        if (← current).lexeme = "<>" then
          advance
          f .emptyStruct
        else accept (.symbol .lt) >>= fun b => f (if b then .struct else .plain)
      else f .plain := by
  funext s
  have shape (open' shut : TypeShape) :
      ((do return if ← accept (.symbol .lt) then open' else shut) >>= f : Parser α) s =
        (accept (.symbol .lt) >>= fun b => f (if b then open' else shut)) s := by
    rw [bind_apply, bind_apply, bind_apply]
    cases accept (.symbol .lt) s <;> rfl
  unfold typeShape
  split
  · exact shape _ _
  · split
    · exact shape _ _
    · split
      · show ((do
            if s.current.lexeme = "<>" then
              advance
              return .emptyStruct
            else return if ← accept (.symbol .lt) then .struct else .plain) >>= f : Parser α) s = _
        rw [current_bind]
        split
        · rfl
        · exact shape _ _
      · rfl

/-- The bracket that closes the arguments of a type. -/
def closingAngle : Token :=
  sample (.symbol .gt)

theorem followsType_closingAngle : FollowsType closingAngle :=
  ⟨.inl rfl, by decide⟩

/-- What the brackets of a type close. -/
theorem viable_closeAngle {α : Type} (a : α) :
    ViableAt E True (fun _ => True) F (do expect (.symbol .gt); return a)
      (do expect (.symbol .gt); return a) :=
  .expect (.symbol .gt) nofun (.pure a) (.pure (fun _ _ _ => id) a)

theorem begins_closeAngle {α : Type} (a : α) :
    Begins F (· = closingAngle) (do expect (.symbol .gt); return a) :=
  .expect (by decide) rfl (.pure (fun _ _ => trivial) a)

section Parts

variable {part part' : Parser DataType}
  (h : ViableAt False True (fun _ => True) FollowsType part part')
  (hs : Begins FollowsType (· = word) part')

section Begins
include hs

theorem begins_structField : Begins FollowsType (· = word) (structField d part') := by
  obtain ⟨us, a, hunended, hs⟩ := hs
  refine ⟨word :: us, ⟨"x", a⟩, hunended.cons (by decide), fun v hv => ⟨rfl, ?_⟩⟩
  have hcolon : (v.push us).current.kind ≠ .symbol .colon := by
    rw [(hs v hv).1]
    nofun
  show (accept (.symbol .colon) >>= fun _ => part' >>= fun a => pure (StructField.mk "x" a))
    (v.push us) = .ok ⟨"x", a⟩ v
  rw [bind_of_ok (accept_of_kind_ne hcolon), bind_of_ok (hs v hv).2]
  rfl

/-- Each shape is completed by its parts and the bracket that closes it. -/
theorem begins_shapeBody (hforward : GoesForward part') (name : String) (shape : TypeShape) :
    Begins FollowsType (fun _ => True) (shapeBody d part' name shape) := by
  have close (type : DataType) : Begins FollowsType FollowsType (do expect (.symbol .gt); return type) :=
    (begins_closeAngle type).mono fun _ hx => hx ▸ followsType_closingAngle
  have hs' : Begins FollowsType (fun _ => True) part' := hs.mono fun _ _ => trivial
  cases shape with
  | emptyStruct => exact .pure (fun _ _ => trivial) _
  | array => exact hs'.bind fun _ => close _
  | map =>
    exact hs'.bind fun _ => .expect (k := .symbol .comma) nofun ⟨.inr (.inl rfl), by decide⟩
      (hs'.bind fun _ => close _)
  | struct =>
    have field : Begins (· = closingAngle) (fun _ => True) (structField d part') :=
      ((begins_structField hs).mono fun _ _ => trivial).before fun _ hx =>
        hx ▸ followsType_closingAngle
    have forward := goesForward_congruence.structField d (q := part') hforward
    exact (Begins.commaList field forward fun _ hx => hx ▸ nofun).bind fun _ => begins_closeAngle _
  | plain =>
    refine .skip (fun _ _ => trivial) (a := .simple name) fun v hv => ?_
    exact bind_of_ok (accept_of_kind_ne (hv.plain.kind_ne_leftParen)) _

end Begins

include h hs

theorem viable_structField :
    ViableAt False True (fun _ => True) FollowsType (structField d part) (structField d part') := by
  refine .name (fun name => ?_) fun name => ?_
  · have typed := h.map (StructField.mk name)
    refine .accept (.symbol .colon) (by decide) typed ?_ typed
    exact .bind (hs.mono fun _ _ _ => id) fun _ => .pure (fun _ hx => hx) _
  · refine .mono (K := (· = word)) (.accept ?_ ?_) fun x hx _ => hx ▸ plain_word
    · rintro _ rfl
      nofun
    · exact .bind hs fun _ => .pure (fun _ hx => hx) _

theorem viable_shapeBody (hforward : GoesForward part') (name : String) (shape : TypeShape) :
    ViableAt False True (fun _ => True) FollowsType (shapeBody d part name shape)
      (shapeBody d part' name shape) := by
  have close (type : DataType) : Begins FollowsType FollowsType (do expect (.symbol .gt); return type) :=
    (begins_closeAngle type).mono fun _ hx => hx ▸ followsType_closingAngle
  cases shape with
  | emptyStruct => exact .pure _
  | array => exact h.bind (fun _ => viable_closeAngle _) fun _ => close _
  | map =>
    have value (key : DataType) : Begins FollowsType (fun _ => True) (do
        let value ← part'
        expect (.symbol .gt)
        return DataType.map key value) :=
      .bind (hs.mono fun _ _ => trivial) fun _ => close _
    refine h.bind (fun key => ?_) fun key => ?_
    · refine .expect (.symbol .comma) nofun ?_ ((value key).mono fun _ _ _ => id)
      exact h.bind (fun _ => viable_closeAngle _) fun _ => close _
    · exact .expect (k := .symbol .comma) nofun ⟨.inr (.inl rfl), by decide⟩ (value key)
  | struct =>
    have field := (viable_structField (d := d) h hs).before (K := (· = closingAngle)) fun _ hx =>
      hx ▸ followsType_closingAngle
    have start : Begins (· = closingAngle) (fun _ => True) (structField d part') :=
      ((begins_structField hs).mono fun _ _ => trivial).before fun _ hx =>
        hx ▸ followsType_closingAngle
    have forward := goesForward_congruence.structField d (q := part') hforward
    exact (field.commaList forward (fun _ hx => hx ▸ nofun) start).bind
      (fun _ => viable_closeAngle _) fun _ => begins_closeAngle _
  | plain =>
    refine .acceptThen (.symbol .leftParen) (by decide) ?_ ?_ (.pure _)
    · refine (viable_typeParameter.commaList (F := Closes) (goesForward_congruence.typeParameter)
        (fun _ hx => hx ▸ nofun) (begins_typeParameter.mono fun _ _ => trivial)).bind
        (fun _ => .expect (.symbol .rightParen) nofun (.pure _) (.pure (fun _ _ _ => id) _))
        fun _ => .expect (by decide) rfl (.pure (fun _ _ => trivial) _)
    · refine (Begins.commaList (F := Closes) (begins_typeParameter.mono fun _ _ _ => id)
        goesForward_congruence.typeParameter (fun _ hx => hx ▸ nofun)).bind
        fun _ => .expect (by decide) rfl (.pure (fun _ _ => trivial) _)

theorem viable_typeBody (hforward : GoesForward part') (name : String) :
    ViableAt False True (fun _ => True) FollowsType (typeBody d part name)
      (typeBody d part' name) := by
  have shape := viable_shapeBody (d := d) h hs hforward name
  have start := begins_shapeBody (d := d) hs hforward name
  have bracket (open' : TypeShape) :
      ViableAt False True (fun _ => True) FollowsType
        (accept (.symbol .lt) >>= fun b => shapeBody d part name (if b then open' else .plain))
        (accept (.symbol .lt) >>= fun b => shapeBody d part' name (if b then open' else .plain)) :=
    .accept (.symbol .lt) (by decide) (shape open') ((start open').mono fun _ _ _ => id)
      (shape .plain)
  rw [typeBody_eq, typeBody_eq, typeShape_bind, typeShape_bind]
  split
  · exact bracket _
  · split
    · exact bracket _
    · split
      · refine .current (fun u => ?_) fun h => h.elim
        split
        · exact .advance (fun h => h.elim) (.pure _) fun x _ =>
            .pure (fun y hy _ => hy.plain _) _
        · exact (bracket _).anywhere
      · exact shape _

omit h hs in
/-- The name of a type is completed by nothing. -/
theorem begins_typeBody (name : String) : Begins FollowsType FollowsType (typeBody d part' name) := by
  refine .skip (fun _ hx => hx) (a := .simple name) fun v hv => ?_
  have hlt : v.current.kind ≠ .symbol .lt := by
    obtain ⟨h | h | h, -⟩ := hv <;> simp [h]
  have plain : shapeBody d part' name .plain v = .ok (.simple name) v :=
    bind_of_ok (accept_of_kind_ne hv.plain.kind_ne_leftParen) _
  have bracket (open' : TypeShape) :
      (accept (.symbol .lt) >>= fun b => shapeBody d part' name (if b then open' else .plain)) v =
        .ok (.simple name) v :=
    (bind_of_ok (accept_of_kind_ne hlt) _).trans plain
  rw [typeBody_eq, typeShape_bind]
  split
  · exact bracket _
  · split
    · exact bracket _
    · split
      · rw [current_bind, if_neg hv.2]
        exact bracket _
      · exact plain

theorem viable_dataTypeOf (hforward : GoesForward part') :
    ViableAt False True (fun _ => True) FollowsType (dataTypeOf d part) (dataTypeOf d part') := by
  rw [dataTypeOf_eq, dataTypeOf_eq]
  refine .current (fun u => ?_) fun h => h.elim
  split
  · exact .unexpected _ _
  · exact .advance (fun h => h.elim) (viable_typeBody h hs hforward _) fun x _ =>
      (begins_typeBody _).mono fun y hy _ => hy.plain _

end Parts

theorem begins_dataType (d : Dialect) : Begins FollowsType (· = word) (dataType d) := by
  have hbody : Begins FollowsType FollowsType (typeBody d (dataType d) "x".toUpper) :=
    begins_typeBody _
  obtain ⟨us, a, hunended, h⟩ := hbody
  refine ⟨word :: us, a, hunended.cons (by decide), fun v hv => ⟨rfl, ?_⟩⟩
  rw [dataType_unfold, dataTypeOf_eq]
  exact (h v hv).2

theorem viable_dataType (d : Dialect) :
    ViableAt False True (fun _ => True) FollowsType (dataType d) (dataType d) := by
  refine .of_bounded (r := dataTypeOver d (unexpected .dataType)) (fun n => ?_) fun _ _ hn =>
    (dataType_eq_dataTypeOver d _ _ _ hn).1
  induction n with
  | zero => exact .unexpected _ _
  | succ n ih =>
    rw [dataTypeOver, dataType_unfold]
    exact viable_dataTypeOf ih (begins_dataType d) (goesForward_congruence.dataType d)

end Types

end SqlDialects.Parser
