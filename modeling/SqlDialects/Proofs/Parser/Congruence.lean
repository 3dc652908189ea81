import SqlDialects.Parser.Statement

/-!
# Relations between parsers

A relation between parsers that holds of the elementary ones and passes through sequencing holds
between any production and itself. The elementary parsers see the kind and the lexeme of the current
token, the kind of the one behind it, and how many tokens are left. Productions with nested parsers
are related if these are.
-/

namespace SqlDialects.Parser

structure Congruence (R : ∀ {α : Type}, Parser α → Parser α → Prop) : Prop where
  pure {α : Type} (a : α) : R (pure a) (pure a)
  bind {α β : Type} {p q : Parser α} {f g : α → Parser β} (hp : R p q)
    (hf : ∀ a, R (f a) (g a)) : R (p >>= f) (q >>= g)
  /-- A failure that does not say what was found. -/
  fail {α : Type} (cause : SyntaxCause) (h : cause.found? = none) :
    R (fail cause : Parser α) (fail cause)
  unexpected {α : Type} (expected : Expected) :
    R (unexpected expected : Parser α) (unexpected expected)
  current {α : Type} {f g : Token → Parser α}
    (h : ∀ t u, t.kind = u.kind → t.lexeme = u.lexeme → R (f t) (g u)) :
    R (current >>= f) (current >>= g)
  second : R second second
  advance : R advance advance
  remaining {α : Type} {f g : Nat → Parser α} (h : ∀ n, R (f n) (g n)) :
    R (get >>= fun s => f s.rest.length) (get >>= fun s => g s.rest.length)

/-- The parsers of what is nested are related. -/
structure Nested.Related (R : ∀ {α : Type}, Parser α → Parser α → Prop) (g h : Nested) :
    Prop where
  expression (power : Nat) : R (g.expression power) (h.expression power)
  query : R g.query h.query

/-- Which names a token may stand for is told by its kind and its lexeme. -/
theorem identifier?_congr (d : Dialect) {t u : Token} (hk : t.kind = u.kind)
    (hl : t.lexeme = u.lexeme) : t.identifier? d = u.identifier? d := by
  simp only [Token.identifier?, hk, hl]

theorem name?_congr (d : Dialect) {t u : Token} (hk : t.kind = u.kind)
    (hl : t.lexeme = u.lexeme) : t.name? d = u.name? d := by
  simp only [Token.name?, hk, hl, identifier?_congr d hk hl]

theorem isImplicitAlias_congr (d : Dialect) {t u : Token} (hk : t.kind = u.kind)
    (hl : t.lexeme = u.lexeme) : t.isImplicitAlias d = u.isImplicitAlias d := by
  simp only [Token.isImplicitAlias, hk, identifier?_congr d hk hl]

/-- What follows the name of a type, which is in upper case. -/
def typeBody (d : Dialect) (part : Parser DataType) (name : String) : Parser DataType := do
  match ← typeShape name with
  | .emptyStruct => return .struct []
  | .array =>
    let element ← part
    expect (.symbol .gt)
    return .array element
  | .map =>
    let key ← part
    expect (.symbol .comma)
    let value ← part
    expect (.symbol .gt)
    return .map key value
  | .struct =>
    let fields ← commaList (structField d part)
    expect (.symbol .gt)
    return .struct fields
  | .plain =>
    if ← accept (.symbol .leftParen) then
      let parameters ← commaList typeParameter
      expect (.symbol .rightParen)
      return .sized name parameters
    else return .simple name

theorem dataTypeOf_eq (d : Dialect) (part : Parser DataType) :
    dataTypeOf d part = (do
      match (← current).name? d with
      | none => unexpected .dataType
      | some word =>
        advance
        typeBody d part word.toUpper) := rfl

namespace Congruence

variable {R : ∀ {α : Type}, Parser α → Parser α → Prop} (hR : Congruence @R)
include hR

/-! ## Elementary parsers -/

theorem kindBind {α : Type} {f g : TokenKind → Parser α} (h : ∀ k, R (f k) (g k)) :
    R (kind >>= f) (kind >>= g) := by
  show R (Parser.current >>= fun t => f t.kind) (Parser.current >>= fun t => g t.kind)
  exact hR.current fun t u hk _ => by rw [hk]; exact h u.kind

theorem map {α β : Type} {p q : Parser α} (f : α → β) (h : R p q) : R (f <$> p) (f <$> q) :=
  hR.bind h fun a => hR.pure (f a)

theorem accept (k : TokenKind) : R (accept k) (Parser.accept k) :=
  hR.kindBind fun _ => by
    split
    · exact hR.bind hR.advance fun _ => hR.pure _
    · exact hR.pure _

theorem acceptBind {α : Type} (k : TokenKind) {f g : Bool → Parser α} (h : ∀ b, R (f b) (g b)) :
    R (Parser.accept k >>= f) (Parser.accept k >>= g) :=
  hR.bind (hR.accept k) h

theorem expect (k : TokenKind) : R (expect k) (Parser.expect k) :=
  hR.acceptBind k fun _ => by
    split
    · exact hR.pure _
    · exact hR.unexpected _

theorem require (d : Dialect) (feature : Dialect.Feature) :
    R (require d feature) (Parser.require d feature) := by
  unfold Parser.require
  split
  · exact hR.pure _
  · exact hR.fail _ rfl

/-! ## Repetition -/

theorem iterate {α : Type} {step step' : α → Parser (Option α)}
    (h : ∀ a, R (step a) (step' a)) (a : α) : R (iterate step a) (Parser.iterate step' a) := by
  refine hR.remaining (f := fun n => iterateUpTo step (n + 1) a)
    (g := fun n => iterateUpTo step' (n + 1) a) fun n => ?_
  generalize n + 1 = m
  induction m generalizing a with
  | zero => exact hR.pure a
  | succ m ih =>
    refine hR.bind (h a) fun o => ?_
    cases o with
    | none => exact hR.pure a
    | some b => exact ih b

theorem many {α : Type} {p q : Parser (Option α)} (h : R p q) : R (many p) (Parser.many q) := by
  refine hR.remaining (f := fun n => manyUpTo p (n + 1)) (g := fun n => manyUpTo q (n + 1))
    fun n => ?_
  generalize n + 1 = m
  induction m with
  | zero => exact hR.pure []
  | succ m ih =>
    refine hR.bind h fun o => ?_
    cases o with
    | none => exact hR.pure []
    | some a => exact hR.bind ih fun l => hR.pure (a :: l)

theorem commaList {α : Type} {p q : Parser α} (h : R p q) :
    R (commaList p) (Parser.commaList q) := by
  refine hR.bind h fun _ => hR.bind (hR.many ?_) fun _ => hR.pure _
  refine hR.acceptBind _ fun _ => ?_
  split
  · exact hR.bind h fun _ => hR.pure _
  · exact hR.pure _

theorem parenthesized {α : Type} {p q : Parser α} (h : R p q) :
    R (parenthesized p) (Parser.parenthesized q) :=
  hR.bind (hR.expect _) fun _ => hR.bind h fun _ => hR.bind (hR.expect _) fun _ => hR.pure _

/-! ## Names -/

variable (d : Dialect)

theorem identifier : R (identifier d) (Parser.identifier d) :=
  hR.current fun t u hk hl => by
    rw [identifier?_congr d hk hl]
    split
    · exact hR.bind hR.advance fun _ => hR.pure _
    · exact hR.unexpected _

theorem name : R (name d) (Parser.name d) :=
  hR.current fun t u hk hl => by
    rw [name?_congr d hk hl]
    split
    · exact hR.bind hR.advance fun _ => hR.pure _
    · exact hR.unexpected _

theorem identifierList : R (identifierList d) (Parser.identifierList d) :=
  hR.commaList (hR.identifier d)

theorem optionalAlias : R (optionalAlias d) (Parser.optionalAlias d) := by
  have named : R (do return some (← Parser.identifier d)) (do return some (← Parser.identifier d)) :=
    hR.bind (hR.identifier d) fun _ => hR.pure _
  refine hR.acceptBind _ fun _ => ?_
  split
  · exact named
  · refine hR.current fun t u hk hl => ?_
    rw [isImplicitAlias_congr d hk hl]
    split
    · exact named
    · exact hR.pure _

/-! ## Types -/

theorem typeShape (name : String) : R (typeShape name) (Parser.typeShape name) := by
  unfold Parser.typeShape
  split
  · exact hR.acceptBind _ fun _ => hR.pure _
  · split
    · exact hR.acceptBind _ fun _ => hR.pure _
    · split
      · refine hR.current fun t u _ hl => ?_
        rw [hl]
        split
        · exact hR.bind hR.advance fun _ => hR.pure _
        · exact hR.acceptBind _ fun _ => hR.pure _
      · exact hR.pure _

theorem typeParameter : R typeParameter Parser.typeParameter :=
  hR.kindBind fun _ => by
    split
    · split
      · exact hR.bind hR.advance fun _ => hR.pure _
      · exact hR.fail _ rfl
    · exact hR.unexpected _

theorem structField {p q : Parser DataType} (h : R p q) :
    R (structField d p) (Parser.structField d q) :=
  hR.bind (hR.name d) fun _ => hR.acceptBind _ fun _ => hR.bind h fun _ => hR.pure _

theorem typeBody {p q : Parser DataType} (h : R p q) (name : String) :
    R (typeBody d p name) (Parser.typeBody d q name) := by
  refine hR.bind (hR.typeShape _) fun shape => ?_
  cases shape with
  | emptyStruct => exact hR.pure _
  | array => exact hR.bind h fun _ => hR.bind (hR.expect _) fun _ => hR.pure _
  | map =>
    exact hR.bind h fun _ => hR.bind (hR.expect _) fun _ => hR.bind h fun _ =>
      hR.bind (hR.expect _) fun _ => hR.pure _
  | struct =>
    exact hR.bind (hR.commaList (hR.structField d h)) fun _ => hR.bind (hR.expect _) fun _ =>
      hR.pure _
  | plain =>
    refine hR.acceptBind _ fun _ => ?_
    split
    · exact hR.bind (hR.commaList hR.typeParameter) fun _ => hR.bind (hR.expect _) fun _ =>
        hR.pure _
    · exact hR.pure _

theorem dataTypeOf {p q : Parser DataType} (h : R p q) :
    R (dataTypeOf d p) (Parser.dataTypeOf d q) := by
  refine hR.current fun t u hk hl => ?_
  rw [name?_congr d hk hl]
  split
  · exact hR.unexpected _
  · exact hR.bind hR.advance fun _ => hR.typeBody d h _

theorem dataType : R (dataType d) (Parser.dataType d) := by
  refine hR.remaining (f := fun n => dataTypeWithin d (n + 1))
    (g := fun n => dataTypeWithin d (n + 1)) fun n => ?_
  generalize n + 1 = m
  induction m with
  | zero => exact hR.unexpected _
  | succ m ih => exact hR.dataTypeOf d ih

end Congruence

end SqlDialects.Parser
