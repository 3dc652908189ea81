import SqlDialects.Proofs.Parser.Steps
import SqlDialects.Proofs.Tree.Parentheses
import SqlDialects.Tree.Build

/-!
# Opening parentheses that are passed

A parser that returns an expression has passed an opening parenthesis for each that the expression
has. Main statement: the tokens of a statement have at least the parentheses of the expression that
is its column.
-/

namespace SqlDialects

/-- The number of opening parentheses among tokens. -/
def openings (ts : List Token) : Nat :=
  ts.countP (·.kind = .symbol .leftParen)

@[simp] theorem openings_nil : openings [] = 0 := rfl

@[simp] theorem openings_cons (t : Token) (ts : List Token) :
    openings (t :: ts) = openings ts + if t.kind = .symbol .leftParen then 1 else 0 := by
  simp [openings, List.countP_cons]

@[simp] theorem openings_append (ts us : List Token) :
    openings (ts ++ us) = openings ts + openings us :=
  List.countP_append

theorem TokenStream.IsLeftOf.openings_le {s s' : TokenStream} (h : s'.IsLeftOf s) :
    openings s'.rest ≤ openings s.rest :=
  h.rest.sublist.countP_le

theorem exprsGroupings_eq_foldr (list : List Expr) :
    exprsGroupings list = list.foldr (·.groupings + ·) 0 := by
  induction list with
  | nil => rfl
  | cons e rest ih => rw [exprsGroupings, ih, List.foldr_cons]

namespace Parser

/-- Where `before` opening parentheses have been passed, the parser passes so many that they are at
least `after` of the value it returns. -/
def PassesOpenings {α : Type} (before : Nat) (p : Parser α) (after : α → Nat) : Prop :=
  ∀ ⦃s a s'⦄, p s = .ok a s' → after a + openings s'.rest ≤ before + openings s.rest

namespace PassesOpenings

variable {α β : Type} {before : Nat} {after : β → Nat}

theorem pure {b : β} (h : after b ≤ before) : PassesOpenings before (Pure.pure b) after := by
  rintro s _ _ ⟨⟩
  omega

theorem unexpected (expected : Expected) :
    PassesOpenings before (Parser.unexpected expected : Parser β) after := by
  rintro s _ _ ⟨⟩

theorem bind {p : Parser α} {f : α → Parser β} {mid : α → Nat} (hp : PassesOpenings before p mid)
    (hf : ∀ a, PassesOpenings (mid a) (f a) after) : PassesOpenings before (p >>= f) after := by
  intro s b s'' h
  obtain ⟨a, s', ha, hb⟩ := bind_eq_ok.mp h
  have hfirst := hp ha
  have hsecond := hf a hb
  omega

/-- The parentheses of a parser that comes first, whatever they are, need not be counted. -/
theorem skip {p : Parser α} {f : α → Parser β} (hp : GoesForward p)
    (hf : ∀ a, PassesOpenings before (f a) after) : PassesOpenings before (p >>= f) after := by
  intro s b s'' h
  obtain ⟨a, s', ha, hb⟩ := bind_eq_ok.mp h
  have hfirst := (isLeftOf_of_ok hp ha).openings_le
  have hsecond := hf a hb
  omega

theorem ite {c : Prop} [Decidable c] {p q : Parser β} (hp : PassesOpenings before p after)
    (hq : PassesOpenings before q after) : PassesOpenings before (if c then p else q) after := by
  split
  · exact hp
  · exact hq

theorem kind {f : TokenKind → Parser β} (hf : ∀ k, PassesOpenings before (f k) after) :
    PassesOpenings before (Parser.kind >>= f) after :=
  fun s _ _ h => hf s.current.kind h

theorem second {f : TokenKind → Parser β} (hf : ∀ k, PassesOpenings before (f k) after) :
    PassesOpenings before (Parser.second >>= f) after :=
  fun s _ _ h => hf s.second h

theorem current {f : Token → Parser β} (hf : ∀ t, PassesOpenings before (f t) after) :
    PassesOpenings before (Parser.current >>= f) after :=
  fun s _ _ h => hf s.current h

theorem accept (k : TokenKind) {f : Bool → Parser β} (hf : ∀ b, PassesOpenings before (f b) after) :
    PassesOpenings before (Parser.accept k >>= f) after :=
  skip (goesForward_congruence.accept k) hf

theorem expect (k : TokenKind) {f : Unit → Parser β} (hf : PassesOpenings before (f ()) after) :
    PassesOpenings before (Parser.expect k >>= f) after :=
  skip (goesForward_congruence.expect k) fun _ => hf

theorem advance {f : Unit → Parser β} (hf : PassesOpenings before (f ()) after) :
    PassesOpenings before (Parser.advance >>= f) after :=
  skip goesForward_congruence.advance fun _ => hf

theorem opening :
    PassesOpenings before (Parser.expect (.symbol .leftParen)) fun _ => before + 1 := by
  intro s a s' h
  rw [expect_apply] at h
  split at h
  · cases h
    obtain ⟨_ | ⟨t, rest⟩, span, lexeme⟩ := s
    · rename_i hkind
      cases hkind
    · rename_i hkind
      simp_all [TokenStream.tail]
      omega
  · cases h

/-- What stands between parentheses, and the opening one. -/
theorem parenthesized {p : Parser β} (hp : PassesOpenings (before + 1) p after) :
    PassesOpenings before (Parser.parenthesized p) after :=
  opening.bind fun _ => hp.bind fun _ => .expect _ (.pure le_rfl)

theorem iterate {step : α → Parser (Option α)} {content : α → Nat}
    (hstep : ∀ a, PassesOpenings (content a) (step a) fun o => content (o.getD a)) (a : α) :
    PassesOpenings (content a) (Parser.iterate step a) content := by
  have upTo (n : Nat) (a : α) : PassesOpenings (content a) (iterateUpTo step n a) content := by
    induction n generalizing a with
    | zero => exact .pure le_rfl
    | succ n ih =>
      refine (hstep a).bind fun o => ?_
      cases o with
      | none => exact .pure le_rfl
      | some b => exact ih b
  exact fun s _ _ h => upTo (s.rest.length + 1) a h

theorem many {p : Parser (Option α)} {content : α → Nat}
    (hp : ∀ before, PassesOpenings before p fun o => before + (o.map content).getD 0) :
    PassesOpenings before (Parser.many p) fun l => before + l.foldr (content · + ·) 0 := by
  have upTo (n before : Nat) :
      PassesOpenings before (manyUpTo p n) fun l => before + l.foldr (content · + ·) 0 := by
    induction n generalizing before with
    | zero => exact .pure (by simp)
    | succ n ih =>
      refine (hp before).bind fun o => ?_
      cases o with
      | none => exact .pure (by simp)
      | some a => exact (ih _).bind fun l => .pure (by simp; omega)
  exact fun s _ _ h => upTo (s.rest.length + 1) before h

theorem commaList {p : Parser α} {content : α → Nat}
    (hp : ∀ before, PassesOpenings before p fun a => before + content a) :
    PassesOpenings before (Parser.commaList p) fun l => before + l.foldr (content · + ·) 0 := by
  have others (before : Nat) : PassesOpenings before (do
      if ← Parser.accept (.symbol .comma) then return some (← p) else return none)
      fun o => before + (o.map content).getD 0 :=
    .accept _ fun _ => .ite ((hp before).bind fun _ => .pure (by simp)) (.pure (by simp))
  exact (hp before).bind fun _ => (many others).bind fun _ => .pure (by simp; omega)

end PassesOpenings

/-! ## Productions -/

/-- The parser passes the parentheses of the expression that it returns. -/
def PassesGroupings (p : Parser Expr) : Prop :=
  ∀ before, PassesOpenings before p fun e => before + e.groupings

/-- The parser passes the parentheses by which the expression that it returns has more than one
that has been read before. -/
def ExtendsGroupings (left : Expr) (p : Parser Expr) : Prop :=
  ∀ before, PassesOpenings (before + left.groupings) p fun e => before + e.groupings

/-- The nested parser of expressions passes the parentheses of what it returns. -/
structure Nested.PassesGroupings (g : Nested) : Prop where
  expression (m : Nat) : Parser.PassesGroupings (g.expression m)
  forward : Nested.Related (fun p _ => GoesForward p) g g

section Productions

variable {d : Dialect} {g : Nested} (hg : g.PassesGroupings)

theorem passesOpenings_pathPart (before : Nat) (e : Expr) :
    PassesOpenings (before + e.groupings) (pathPart d e)
      fun o => before + (o.getD e).groupings := by
  unfold pathPart
  split
  · refine .accept _ fun _ => .ite (.accept _ fun _ => .ite (.pure le_rfl) ?_) (.pure le_rfl)
    exact .skip (goesForward_congruence.name d) fun _ => .pure le_rfl
  · exact .pure le_rfl

include hg

theorem passesGroupings_call (name : String) :
    PassesGroupings (do return Expr.call (← call g name)) := fun _ =>
  .skip (goesForward_congruence.call hg.forward name) fun _ => .pure le_rfl

theorem passesGroupings_namedOperand : PassesGroupings (namedOperand d g) := by
  refine fun before => .current fun t => ?_
  split
  · rename_i first _
    refine .advance (.kind fun _ => .ite (passesGroupings_call hg _ before) ?_)
    have path := PassesOpenings.iterate (passesOpenings_pathPart (d := d) before)
    exact path (.column [] first)
  · exact .unexpected _

theorem passesGroupings_cast : PassesGroupings (cast d g) := fun _ =>
  .expect _ <| .parenthesized <| .skip (hg.forward.expression 0) fun _ => .expect _ <|
    .skip (goesForward_congruence.dataType d) fun _ => .pure (Nat.le_add_right _ 1)

theorem passesGroupings_caseOf : PassesGroupings (caseOf g) := by
  -- Nothing is counted inside of a `CASE`, so it is enough that its parts go forward.
  have forward := goesForward_congruence
  have expression : GoesForward (some <$> g.expression 0) :=
    .bind (hg.forward.expression 0) fun _ => forward.pure _
  have otherwise (operand : Option Expr) (clauses : List WhenClause) : PassesGroupings (do
      let otherwise ← if ← accept (.keyword .ELSE) then some <$> g.expression 0 else pure none
      expect (.keyword .END)
      return Expr.caseOf operand clauses otherwise) := fun _ =>
    .accept _ fun _ => .ite (.skip expression fun _ => .expect _ (.pure le_rfl))
      (.skip (forward.pure none) fun _ => .expect _ (.pure le_rfl))
  have clauses (operand : Option Expr) : PassesGroupings (do
      let clauses ← many (whenClause g)
      if clauses.isEmpty then unexpected (.token (.keyword .WHEN))
      let otherwise ← if ← accept (.keyword .ELSE) then some <$> g.expression 0 else pure none
      expect (.keyword .END)
      return Expr.caseOf operand clauses otherwise) := by
    have many : GoesForward (many (whenClause g)) :=
      @Congruence.many _ forward _ _ (whenClause g) (forward.whenClause hg.forward)
    refine fun before => .skip many fun clauses => ?_
    exact .ite (.skip (forward.unexpected _) fun _ => otherwise _ _ before) (otherwise _ _ before)
  exact fun before => .expect _ <| .kind fun _ =>
    .ite (.skip (forward.pure none) fun _ => clauses _ before)
      (.skip expression fun _ => clauses _ before)

theorem passesGroupings_group : PassesGroupings (group g) := fun _ =>
  .parenthesized <| .kind fun _ => .ite
    (.skip hg.forward.query fun _ => .pure (Nat.le_add_right _ 1))
    ((hg.expression 0 _).bind fun _ => .pure (by simp [Expr.groupings]; omega))

theorem passesGroupings_primary : PassesGroupings (primary d g) := by
  intro before
  have named := passesGroupings_namedOperand (d := d) hg before
  refine .current fun t => ?_
  split
  · exact .advance (.pure le_rfl)
  · split
    · exact .advance (.pure le_rfl)
    · exact passesGroupings_group hg before
    · exact passesGroupings_cast hg before
    · exact passesGroupings_caseOf hg before
    · have forward : GoesForward (parenthesized g.query) :=
        @Congruence.parenthesized _ goesForward_congruence _ _ g.query hg.forward.query
      exact .advance (.skip forward fun _ => .pure le_rfl)
    · exact .second fun _ => .ite (.advance (passesGroupings_call hg _ before)) named
    · exact .second fun _ => .ite (.advance (passesGroupings_call hg _ before)) named
    · exact named

theorem passesGroupings_operand : PassesGroupings (operand d g) := by
  refine fun before => .kind fun _ => ?_
  split
  · exact .advance ((hg.expression _ before).bind fun _ => .pure le_rfl)
  · exact passesGroupings_primary hg before

theorem extendsGroupings_inList (left : Expr) (negated : Bool) :
    ExtendsGroupings left (inList g left negated) := by
  have values (before : Nat) : PassesOpenings before (do
      if (← kind) = .keyword .SELECT then return [.subquery (← g.query)] else expressionList g)
      fun l => before + exprsGroupings l := by
    simp only [exprsGroupings_eq_foldr]
    exact .kind fun _ => .ite (.skip hg.forward.query fun _ => .pure le_rfl)
      (.commaList (hg.expression 0))
  refine fun before => (PassesOpenings.parenthesized (values _)).bind fun _ => .pure ?_
  simp only [Expr.groupings]
  omega

theorem extendsGroupings_between (left : Expr) (power : Nat) (negated : Bool) :
    ExtendsGroupings left (between g left power negated) := fun _ =>
  (hg.expression power _).bind fun _ => .expect _ <| (hg.expression power _).bind fun _ =>
    .pure (by simp only [Expr.groupings]; omega)

theorem extendsGroupings_binary (left : Expr) (op : BinaryOp) (power : Nat) :
    ExtendsGroupings left (do return Expr.binary left op (← g.expression power)) := fun _ =>
  (hg.expression power _).bind fun _ => .pure (by simp only [Expr.groupings]; omega)

theorem extendsGroupings_pattern (left : Expr) (power : Nat) (op : BinaryOp)
    (feature : Option Dialect.Feature) (negated : Bool) :
    ExtendsGroupings left (pattern d g left power op feature negated) := by
  intro before
  have right (op : BinaryOp) := extendsGroupings_binary hg left op power before
  cases feature with
  | none => exact .advance (right _)
  | some f => exact .skip (goesForward_congruence.require d f) fun _ => .advance (right _)

theorem passesOpenings_extend (before m : Nat) (left : Expr) :
    PassesOpenings (before + left.groupings) (extend d g m left)
      fun o => before + (o.getD left).groupings := by
  have some {p : Parser Expr} (h : ExtendsGroupings left p) :
      PassesOpenings (before + left.groupings) (do return some (← p))
        fun o => before + (o.getD left).groupings :=
    (h before).bind fun _ => .pure le_rfl
  refine .kind fun k => ?_
  split
  · exact .pure le_rfl
  · refine .ite (.pure le_rfl) ?_
    split
    · exact .advance (.accept _ fun _ => .expect _ (.pure le_rfl))
    · exact .advance (some (extendsGroupings_inList hg left false))
    · exact .advance (some (extendsGroupings_between hg left _ false))
    · refine .second fun next => ?_
      split
      · exact .advance (.advance (some (extendsGroupings_inList hg left true)))
      · exact .advance (.advance (some (extendsGroupings_between hg left _ true)))
      · split
        · exact .advance (some (extendsGroupings_pattern hg left _ _ _ true))
        · exact .pure le_rfl
    · split
      · exact some (extendsGroupings_pattern hg left _ _ _ false)
      · exact .advance ((hg.expression _ _).bind fun _ =>
          .pure (by simp only [Option.getD_some, Expr.groupings]; omega))
      · exact .pure le_rfl

theorem passesGroupings_expressionOf (m : Nat) : PassesGroupings (expressionOf d g m) :=
  fun before => (passesGroupings_operand hg before).bind (.iterate (passesOpenings_extend hg before m))

end Productions

theorem passesGroupings_nestedWithin (d : Dialect) (n : Nat) :
    (nestedWithin d n).PassesGroupings := by
  have forward := goesForward_congruence.nestedWithin d
  induction n with
  | zero => exact ⟨fun _ _ => .unexpected _, forward 0⟩
  | succ n ih => exact ⟨passesGroupings_expressionOf ih, forward (n + 1)⟩

/-- A query has the parentheses of its columns. -/
theorem passesOpenings_queryOf {d : Dialect} {g : Nested} (hg : g.PassesGroupings) (before : Nat) :
    PassesOpenings before (queryOf d g)
      fun q => before + q.columns.foldr (·.value.groupings + ·) 0 := by
  have forward := goesForward_congruence
  have item (before : Nat) :
      PassesOpenings before (selectItem d g) fun c => before + c.value.groupings :=
    (hg.expression 0 before).bind fun _ => .skip (forward.optionalAlias d) fun _ => .pure le_rfl
  refine .expect _ <| .skip forward.distinctOrAll fun _ => ?_
  refine (PassesOpenings.commaList item).bind fun columns => ?_
  refine .skip (forward.fromClause hg.forward d) fun ⟨source, views⟩ => ?_
  exact .skip (forward.clause hg.forward _) fun _ => .skip (forward.groupBy hg.forward) fun _ =>
    .skip (forward.clause hg.forward _) fun _ => .skip (forward.ordering hg.forward d) fun _ =>
      .skip (forward.clause hg.forward _) fun _ => .pure le_rfl

/-- A statement whose only column is an expression has at least the parentheses of the
expression. -/
theorem groupings_le_openings {d : Dialect} {s s' : TokenStream} {e : Expr}
    (h : statement d s = .ok (.ofExpr e) s') : e.groupings ≤ openings s.rest := by
  obtain ⟨q, s₁, hq, h⟩ := bind_eq_ok.mp h
  obtain ⟨_, s₂, -, h⟩ := bind_eq_ok.mp h
  rw [kind_bind] at h
  split at h
  · cases h
    have hpasses := passesOpenings_queryOf (passesGroupings_nestedWithin d s.rest.length) 0 hq
    simp only [Select.ofColumns, List.foldr_cons, List.foldr_nil] at hpasses
    omega
  · cases h

end Parser

end SqlDialects
