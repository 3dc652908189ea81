import SqlDialects.Proofs.Conservation.Carries
import SqlDialects.Proofs.Parser.Reads

/-!
# Names, types and expressions carry what is read

The payload of a name, a type or an expression is that of its pieces, whatever quotes the dialect
takes for those of names.
-/

namespace SqlDialects

open Piece (keyword phrase)

/-- The payload of a tree is that of its pieces. -/
structure Parser.Nested.Carries (d : Dialect) (quote : Char) (g : Parser.Nested) : Prop where
  expression (power : Nat) :
    Parser.Carries d (g.expression power) fun e => Piece.payload d (e.pieces quote)
  query : Parser.Carries d g.query fun q => Piece.payload d (q.pieces quote)

namespace Token

variable {d : Dialect} {t : Token} {name : String}

theorem payload?_of_identifier? (ht : t.IsSpelled ∨ t.kind = .endOfInput)
    (h : t.identifier? d = some name) : t.kind.payload? d = namePayload? name := by
  unfold identifier? at h
  split at h
  · rename_i hk
    cases h
    rw [hk]
    rfl
  · rename_i k hk
    split at h
    · cases h
    · cases h
      obtain ht | ht := ht
      · rw [namePayload?_of_ofText? (ht.keyword k hk), hk]
        rfl
      · rw [hk] at ht
        cases ht
  · rename_i hk
    split at h
    · rename_i hquote
      cases h
      rw [hk, TokenKind.payload?, if_pos hquote]
    · cases h
  · cases h

theorem payload?_of_name? (ht : t.IsSpelled ∨ t.kind = .endOfInput)
    (h : t.name? d = some name) : t.kind.payload? d = namePayload? name := by
  unfold name? at h
  split at h
  · rename_i k hk
    cases h
    obtain ht | ht := ht
    · rw [namePayload?_of_ofText? (ht.keyword k hk), hk]
      rfl
    · rw [hk] at ht
      cases ht
  · exact payload?_of_identifier? ht h

end Token

namespace Parser

variable {d : Dialect} {quote : Char}

/-! ## Names -/

theorem carries_identifier : Carries d (identifier d) fun n => (namePayload? n).toList := by
  intro s
  apply CarriesAt.current
  intro ht
  split
  · apply CarriesAt.advance
    apply CarriesAt.pure
    rw [Token.payload?_of_identifier? ht ‹_›, List.nil_append]
  · exact .unexpected _

theorem carries_name : Carries d (name d) fun n => (namePayload? n).toList := by
  intro s
  apply CarriesAt.current
  intro ht
  split
  · apply CarriesAt.advance
    apply CarriesAt.pure
    rw [Token.payload?_of_name? ht ‹_›, List.nil_append]
  · exact .unexpected _

section Unquotes
variable (hq : d.Unquotes quote)
include hq

theorem carries_identifierList :
    Carries d (identifierList d) fun l => Piece.payload d (Piece.names quote l) := by
  intro s
  apply CarriesAt.last (Carries.commaList carries_identifier)
  intro names
  simp [Piece.names, List.flatMap_map, Piece.payload_name_cons hq]

theorem carries_optionalAlias :
    Carries d (optionalAlias d) fun o => Piece.payload d (Piece.label quote o) := by
  have named (s : TokenStream) : CarriesAt d s [] (do return some (← identifier d))
      fun o => Piece.payload d (Piece.label quote o) := by
    apply CarriesAt.bind carries_identifier
    intro name _
    apply CarriesAt.pure
    simp [Piece.label, Piece.payload_name_cons hq]
  intro s
  apply CarriesAt.silent (Carries.accept rfl)
  intro introduced s'
  apply CarriesAt.ite
  · intro _
    exact named s'
  · intro _
    apply CarriesAt.current
    intro _
    exact .ite (fun _ => named s') fun _ => .pure rfl

end Unquotes

/-! ## Types -/

/-- The name that a type of some shape is written with. -/
def TypeShape.typeName (name : String) : TypeShape → String
  | .plain => name
  | .array => "ARRAY"
  | .map => "MAP"
  | .struct | .emptyStruct => "STRUCT"

theorem carriesAt_typeShape (name : String) (s : TokenStream) :
    CarriesAt d s (namePayload? name).toList (typeShape name) fun shape =>
      (namePayload? (shape.typeName name)).toList := by
  have bracket {shape : TypeShape} (h : name = shape.typeName name) :
      CarriesAt d s (namePayload? name).toList
        (do return if ← accept (.symbol .lt) then shape else .plain) fun shape =>
          (namePayload? (shape.typeName name)).toList := by
    apply CarriesAt.silent (Carries.accept rfl)
    intro opened _
    apply CarriesAt.pure
    cases opened with
    | true => exact congrArg (fun n => (namePayload? n).toList) h
    | false => rfl
  unfold typeShape
  split
  · exact bracket ‹_›
  split
  · exact bracket ‹_›
  split
  · rename_i hstruct
    apply CarriesAt.current
    intro ht
    apply CarriesAt.ite
    · intro hangles
      obtain ⟨k, hk, hsilent⟩ : ∃ k, s.current.kind = k ∧ k.payload? d = none := by
        rcases ht with ht | ht
        · obtain ⟨_, hk⟩ := ht.emptyAngles hangles
          exact ⟨_, hk, rfl⟩
        · exact ⟨_, ht, rfl⟩
      apply CarriesAt.pass hk hsilent
      apply CarriesAt.pure
      rw [hstruct]
      rfl
    · intro _
      exact bracket hstruct
  · exact .pure rfl

/-- A parameter is written as the integer that it was. -/
theorem carries_typeParameter :
    Carries d typeParameter fun n => Piece.payload d [.integer n.toNat] := by
  intro s
  apply CarriesAt.kind
  split
  · rename_i value hk
    apply CarriesAt.ite
    · intro hrange
      apply CarriesAt.advance
      apply CarriesAt.pure
      have hn : (UInt32.ofNat value.toInt.toNat).toNat = value.toInt.toNat :=
        UInt32.toNat_ofNat_of_lt' (show value.toInt.toNat < 0x100000000 by omega)
      have hvalue : Int64.ofInt (value.toInt.toNat : Int) = value := by
        rw [Int.toNat_of_nonneg hrange.1, Int64.ofInt_toInt]
      rw [hk, hn, Piece.payload_integer_cons, hvalue]
      rfl
    · intro _
      exact .fail _
  · exact .unexpected _

section Unquotes
variable (hq : d.Unquotes quote)
include hq

theorem carries_structField {p : Parser DataType}
    (hp : Carries d p fun t => Piece.payload d (t.pieces quote)) :
    Carries d (structField d p) fun f => Piece.payload d (f.pieces quote) := by
  intro s
  apply CarriesAt.bind carries_name
  intro name _
  apply CarriesAt.silent (Carries.accept rfl)
  intro _ _
  apply CarriesAt.bind hp
  intro type _
  apply CarriesAt.pure
  simp [StructField.pieces, Piece.payload_fieldName_cons hq]

theorem carries_dataTypeOf {p : Parser DataType}
    (hp : Carries d p fun t => Piece.payload d (t.pieces quote)) :
    Carries d (dataTypeOf d p) fun t => Piece.payload d (t.pieces quote) := by
  intro s
  apply CarriesAt.current
  intro ht
  split
  · exact .unexpected _
  rename_i word hword
  have hshape := carriesAt_typeShape (d := d) word.toUpper s.tail
  rw [namePayload?_toUpper, ← Token.payload?_of_name? ht hword] at hshape
  apply CarriesAt.advance
  apply CarriesAt.seq hshape
  intro shape s'
  cases shape with
  | emptyStruct =>
    apply CarriesAt.pure
    simp [TypeShape.typeName, DataType.pieces]
  | array =>
    apply CarriesAt.bind hp
    intro element _
    apply CarriesAt.silent (Carries.expect rfl)
    intro _ _
    apply CarriesAt.pure
    simp [TypeShape.typeName, DataType.pieces]
  | map =>
    apply CarriesAt.bind hp
    intro key _
    apply CarriesAt.silent (Carries.expect rfl)
    intro _ _
    apply CarriesAt.bind hp
    intro value _
    apply CarriesAt.silent (Carries.expect rfl)
    intro _ _
    apply CarriesAt.pure
    simp [TypeShape.typeName, DataType.pieces]
  | struct =>
    apply CarriesAt.bind (Carries.commaList (carries_structField hq hp))
    intro fields _
    apply CarriesAt.silent (Carries.expect rfl)
    intro _ _
    apply CarriesAt.pure
    cases fields <;>
      simp [TypeShape.typeName, DataType.pieces, fieldsPieces_eq_map, List.flatMap_map]
  | plain =>
    apply CarriesAt.silent (Carries.accept rfl)
    intro sized _
    apply CarriesAt.ite
    · intro _
      apply CarriesAt.bind (Carries.commaList carries_typeParameter)
      intro parameters _
      apply CarriesAt.silent (Carries.expect rfl)
      intro _ _
      apply CarriesAt.pure
      simp [TypeShape.typeName, DataType.pieces, Piece.payload_typeName_cons hq, List.flatMap_map]
    · intro _
      apply CarriesAt.pure
      simp [TypeShape.typeName, DataType.pieces, Piece.payload_typeName_cons hq]

theorem carries_dataType : Carries d (dataType d) fun t => Piece.payload d (t.pieces quote) := by
  have within (n : Nat) :
      Carries d (dataTypeWithin d n) fun t => Piece.payload d (t.pieces quote) := by
    induction n with
    | zero => exact fun _ => .unexpected _
    | succ n ih => exact carries_dataTypeOf hq ih
  exact fun s => within (s.rest.length + 1) s

end Unquotes

/-! ## Orderings and calls -/

theorem carries_direction : Carries d direction fun _ => [] := by
  intro s
  apply CarriesAt.silent (Carries.accept rfl)
  intro ascending _
  refine .ite (fun _ => .pure rfl) fun _ => ?_
  apply CarriesAt.silent (Carries.accept rfl)
  intro descending _
  exact .ite (fun _ => .pure rfl) fun _ => .pure rfl

theorem carries_nullOrdering : Carries d nullOrdering fun _ => [] := by
  intro s
  apply CarriesAt.silent (Carries.accept rfl)
  intro nulls _
  refine .ite (fun _ => ?_) fun _ => .pure rfl
  apply CarriesAt.silent (Carries.accept rfl)
  intro first _
  refine .ite (fun _ => .pure rfl) fun _ => ?_
  apply CarriesAt.silent (Carries.accept rfl)
  intro last _
  exact .ite (fun _ => .pure rfl) fun _ => .unexpected _

theorem carries_distinctOrAll : Carries d distinctOrAll fun _ => [] := by
  intro s
  apply CarriesAt.silent (Carries.accept rfl)
  intro distinct _
  refine .ite (fun _ => .pure rfl) fun _ => ?_
  apply CarriesAt.silent (Carries.accept rfl)
  intro all _
  exact .pure rfl

theorem carries_ignoreNulls : Carries d ignoreNulls fun _ => [] := by
  intro s
  apply CarriesAt.kind
  apply CarriesAt.second
  refine .ite (fun h => ?_) fun _ => .pure rfl
  obtain ⟨hk, hsecond⟩ : s.current.kind = .keyword .IGNORE ∧ s.second = .keyword .NULLS := by
    simpa using h
  rw [s.second_eq] at hsecond
  apply CarriesAt.pass hk rfl
  apply CarriesAt.pass hsecond rfl
  exact .pure rfl

section Nested
variable {g : Nested} (hg : g.Carries d quote)
include hg

theorem carries_expressionList :
    Carries d (expressionList g) fun l => l.flatMap fun e => Piece.payload d (e.pieces quote) :=
  .commaList (hg.expression 0)

theorem carries_orderItem :
    Carries d (orderItem g) fun i => Piece.payload d (i.pieces quote) := by
  intro s
  apply CarriesAt.bind (hg.expression 0)
  intro key _
  apply CarriesAt.silent carries_direction
  intro direction _
  apply CarriesAt.silent carries_nullOrdering
  intro nulls _
  apply CarriesAt.pure
  simp

theorem carries_orderItems :
    Carries d (orderItems g) fun l => l.flatMap fun i => Piece.payload d (i.pieces quote) :=
  .commaList (carries_orderItem hg)

theorem carries_window : Carries d (window g) fun w => Piece.payload d (w.pieces quote) := by
  have close (partition : List Expr) (order : List OrderItem) (s : TokenStream) :
      CarriesAt d s ((partition.flatMap fun e => Piece.payload d (e.pieces quote)) ++
          order.flatMap fun i => Piece.payload d (i.pieces quote))
        (pure (Window.mk partition order)) fun w => Piece.payload d (w.pieces quote) := by
    apply CarriesAt.pure
    unfold Window.pieces
    split <;> simp [List.flatMap_map]
  have order (partition : List Expr) (s : TokenStream) :
      CarriesAt d s (partition.flatMap fun e => Piece.payload d (e.pieces quote)) (do
        let order ← if ← accept (.keyword .ORDER) then do
            expect (.keyword .BY)
            orderItems g
          else pure []
        return Window.mk partition order) fun w => Piece.payload d (w.pieces quote) := by
    apply CarriesAt.silent (Carries.accept rfl)
    intro ordered s'
    apply CarriesAt.ite
    · intro _
      apply CarriesAt.silent (Carries.expect rfl)
      intro _ _
      apply CarriesAt.bind (carries_orderItems hg)
      intro order s''
      exact close partition order s''
    · intro _
      simpa using close partition [] s'
  apply Carries.parenthesized
  intro s
  apply CarriesAt.silent (Carries.accept rfl)
  intro partitioned s'
  apply CarriesAt.ite
  · intro _
    apply CarriesAt.silent (Carries.expect rfl)
    intro _ _
    apply CarriesAt.bind (carries_expressionList hg)
    intro partition s''
    exact order partition s''
  · intro _
    exact order [] s'

theorem carries_arguments (distinct : Bool) :
    Carries d (arguments g distinct) fun l =>
      l.flatMap fun e => Piece.payload d (e.pieces quote) := by
  intro s
  apply CarriesAt.kind
  refine .ite (fun _ => .pure rfl) fun _ => ?_
  apply CarriesAt.kind
  apply CarriesAt.second
  apply CarriesAt.ite
  · intro h
    obtain ⟨hk, -⟩ : s.current.kind = .symbol .star ∧ s.second = .symbol .rightParen := by
      simpa using h
    apply CarriesAt.pass hk rfl
    apply CarriesAt.pure
    simp [Expr.pieces, Piece.qualifier]
  · intro _
    exact carries_expressionList hg s

theorem carries_optionalWindow :
    Carries d (optionalWindow g) fun o => Piece.payload d (windowPieces quote o) := by
  intro s
  apply CarriesAt.kind
  apply CarriesAt.second
  refine .ite (fun h => ?_) fun _ => .pure rfl
  obtain ⟨hk, -⟩ : s.current.kind = .keyword .OVER ∧ s.second = .symbol .leftParen := by
    simpa using h
  apply CarriesAt.pass hk rfl
  apply CarriesAt.bind (carries_window hg)
  intro w _
  apply CarriesAt.pure
  simp [windowPieces_some]

/-- The name of the function was passed before. -/
theorem carriesAt_call (hq : d.Unquotes quote) (name : String) (s : TokenStream) :
    CarriesAt d s (namePayload? name).toList (call g name) fun c =>
      Piece.payload d (c.pieces quote) := by
  apply CarriesAt.silent (Carries.expect rfl)
  intro _ _
  apply CarriesAt.silent carries_distinctOrAll
  intro distinct _
  apply CarriesAt.bind (carries_arguments hg distinct)
  intro arguments _
  apply CarriesAt.silent (Carries.expect rfl)
  intro _ _
  apply CarriesAt.silent carries_ignoreNulls
  intro ignoreNulls _
  apply CarriesAt.bind (carries_optionalWindow hg)
  intro w _
  apply CarriesAt.pure
  cases distinct <;> cases ignoreNulls <;>
    simp [Call.pieces, Piece.payload_functionName_cons hq, List.flatMap_map]

/-! ## Operands -/

omit hg in
/-- A part that is appended to a path is written behind it. -/
theorem carriesAt_pathPart (hq : d.Unquotes quote) (e : Expr) (s : TokenStream) :
    CarriesAt d s (Piece.payload d (e.pieces quote)) (pathPart d e) fun o =>
      Piece.payload d ((o.getD e).pieces quote) := by
  cases e with
  | column qualifier last =>
    apply CarriesAt.silent (Carries.accept rfl)
    intro dotted _
    refine .ite (fun _ => ?_) fun _ => .pure rfl
    apply CarriesAt.silent (Carries.accept rfl)
    intro star _
    apply CarriesAt.ite
    · intro _
      apply CarriesAt.pure
      simp [Expr.pieces, Piece.qualifier, Piece.payload_name_cons hq]
    · intro _
      apply CarriesAt.bind carries_name
      intro name _
      apply CarriesAt.pure
      simp [Expr.pieces, Piece.qualifier, Piece.payload_name_cons hq]
  | _ => exact .pure rfl

theorem carriesAt_named (hq : d.Unquotes quote) (first : String) (s : TokenStream) :
    CarriesAt d s (namePayload? first).toList (named d g first) fun e =>
      Piece.payload d (e.pieces quote) := by
  apply CarriesAt.kind
  apply CarriesAt.ite
  · intro _
    apply CarriesAt.seq (carriesAt_call hg hq first s)
    intro c _
    apply CarriesAt.pure
    rw [Expr.pieces]
  · intro _
    have hfirst : Piece.payload d ((Expr.column [] first).pieces quote) =
        (namePayload? first).toList := by
      simp [Expr.pieces, Piece.qualifier, Piece.payload_name_cons hq]
    rw [← hfirst]
    exact Carries.iterate (carriesAt_pathPart hq) _ _

theorem carries_namedOperand (hq : d.Unquotes quote) :
    Carries d (namedOperand d g) fun e => Piece.payload d (e.pieces quote) := by
  intro s
  apply CarriesAt.current
  intro ht
  split
  · rename_i first hfirst
    apply CarriesAt.advance
    rw [Token.payload?_of_identifier? ht hfirst]
    exact carriesAt_named hg hq first _
  · exact .unexpected _

theorem carries_cast (hq : d.Unquotes quote) :
    Carries d (cast d g) fun e => Piece.payload d (e.pieces quote) := by
  intro s
  apply CarriesAt.silent (Carries.expect rfl)
  intro _ s'
  refine Carries.parenthesized (fun s => ?_) s'
  apply CarriesAt.bind (hg.expression 0)
  intro operand _
  apply CarriesAt.silent (Carries.expect rfl)
  intro _ _
  apply CarriesAt.bind (carries_dataType hq)
  intro type _
  apply CarriesAt.pure
  simp [Expr.pieces]

theorem carries_whenClause :
    Carries d (whenClause g) fun o =>
      o.toList.flatMap fun c => Piece.payload d (c.pieces quote) := by
  intro s
  apply CarriesAt.silent (Carries.accept rfl)
  intro more _
  refine .ite (fun _ => ?_) fun _ => .pure rfl
  apply CarriesAt.bind (hg.expression 0)
  intro condition _
  apply CarriesAt.silent (Carries.expect rfl)
  intro _ _
  apply CarriesAt.bind (hg.expression 0)
  intro result _
  apply CarriesAt.pure
  simp [WhenClause.pieces]

theorem carries_caseOf : Carries d (caseOf g) fun e => Piece.payload d (e.pieces quote) := by
  have optional : Carries d (some <$> g.expression 0) fun o =>
      o.toList.flatMap fun e => Piece.payload d (e.pieces quote) :=
    fun _ => .map (hg.expression 0) fun e => by simp
  have close (operand : Option Expr) (clauses : List WhenClause) (otherwise : Option Expr)
      (s : TokenStream) :
      CarriesAt d s ((operand.toList.flatMap fun e => Piece.payload d (e.pieces quote)) ++
          (clauses.flatMap fun c => Piece.payload d (c.pieces quote)) ++
          otherwise.toList.flatMap fun e => Piece.payload d (e.pieces quote)) (do
        expect (.keyword .END)
        return Expr.caseOf operand clauses otherwise)
        fun e => Piece.payload d (e.pieces quote) := by
    apply CarriesAt.silent (Carries.expect rfl)
    intro _ _
    apply CarriesAt.pure
    simp [Expr.pieces, Piece.payload_flatMap]
  have clauses (operand : Option Expr) (s : TokenStream) :
      CarriesAt d s (operand.toList.flatMap fun e => Piece.payload d (e.pieces quote)) (do
        let clauses ← many (whenClause g)
        if clauses.isEmpty then unexpected (.token (.keyword .WHEN))
        let otherwise ← if ← accept (.keyword .ELSE) then some <$> g.expression 0 else pure none
        expect (.keyword .END)
        return Expr.caseOf operand clauses otherwise)
        fun e => Piece.payload d (e.pieces quote) := by
    apply CarriesAt.bind (Carries.many (carries_whenClause hg))
    intro clauses _
    refine .ite (fun _ => .of_error ⟨_, _, rfl⟩) fun _ => ?_
    apply CarriesAt.silent (Carries.accept rfl)
    intro more s'
    apply CarriesAt.ite
    · intro _
      apply CarriesAt.bind optional
      intro otherwise s''
      exact close operand clauses otherwise s''
    · intro _
      simpa using close operand clauses none s'
  intro s
  apply CarriesAt.silent (Carries.expect rfl)
  intro _ s'
  apply CarriesAt.kind
  apply CarriesAt.ite
  · intro _
    exact clauses none s'
  · intro _
    apply CarriesAt.bind optional
    intro operand s''
    exact clauses operand s''

theorem carries_group : Carries d (group g) fun e => Piece.payload d (e.pieces quote) := by
  apply Carries.parenthesized
  intro s
  apply CarriesAt.kind
  apply CarriesAt.ite
  · intro _
    apply CarriesAt.bind hg.query
    intro q _
    apply CarriesAt.pure
    simp [Expr.pieces]
  · intro _
    apply CarriesAt.bind (hg.expression 0)
    intro e _
    apply CarriesAt.pure
    simp [Expr.pieces]

theorem carries_primary (hq : d.Unquotes quote) :
    Carries d (primary d g) fun e => Piece.payload d (e.pieces quote) := by
  intro s
  apply CarriesAt.current
  intro ht
  split
  · rename_i value hv
    apply CarriesAt.advance
    apply CarriesAt.pure
    rw [Expr.pieces, Literal.payload_piece hv, List.nil_append]
  -- `LEFT` and `RIGHT` are named like keywords.
  have side {k : Keyword} (hk : s.current.kind = .keyword k) :
      CarriesAt d s [] (do
        if (← second) = .symbol .leftParen then
          advance
          return .call (← call g s.current.lexeme)
        else namedOperand d g) fun e => Piece.payload d (e.pieces quote) := by
    have hname : namePayload? s.current.lexeme = none := by
      rcases ht with ht | ht
      · exact namePayload?_of_ofText? (ht.keyword k hk)
      · rw [hk] at ht
        cases ht
    have hcall := carriesAt_call hg hq s.current.lexeme s.tail
    rw [hname] at hcall
    apply CarriesAt.second
    apply CarriesAt.ite
    · intro _
      apply CarriesAt.pass hk rfl
      apply CarriesAt.seq hcall
      intro c _
      apply CarriesAt.pure
      rw [Expr.pieces]
    · intro _
      exact carries_namedOperand hg hq s
  split
  · rename_i hk
    apply CarriesAt.pass hk rfl
    apply CarriesAt.pure
    simp [Expr.pieces, Piece.qualifier]
  · exact carries_group hg s
  · exact carries_cast hg hq s
  · exact carries_caseOf hg s
  · rename_i hk
    apply CarriesAt.pass hk rfl
    apply CarriesAt.bind (Carries.parenthesized hg.query)
    intro q _
    apply CarriesAt.pure
    simp [Expr.pieces]
  · exact side ‹_›
  · exact side ‹_›
  · exact carries_namedOperand hg hq s

theorem carries_operand (hq : d.Unquotes quote) :
    Carries d (operand d g) fun e => Piece.payload d (e.pieces quote) := by
  intro s
  apply CarriesAt.kind
  split
  · rename_i op power hop
    have hsilent : s.current.kind.payload? d = none := by
      unfold unaryOp? at hop
      split at hop <;> rename_i hk <;> cases hop <;> rw [hk] <;> rfl
    apply CarriesAt.pass rfl hsilent
    apply CarriesAt.bind (hg.expression power)
    intro e _
    apply CarriesAt.pure
    cases op <;> simp [Expr.pieces]
  · exact carries_primary hg hq s

/-! ## Operators -/

section Step

variable (left : Expr) (s : TokenStream)

theorem carriesAt_inList (negated : Bool) :
    CarriesAt d s (Piece.payload d (left.pieces quote)) (inList g left negated) fun e =>
      Piece.payload d (e.pieces quote) := by
  have values : Carries d (do
      if (← kind) = .keyword .SELECT then return [.subquery (← g.query)] else expressionList g)
      fun l => l.flatMap fun e => Piece.payload d (e.pieces quote) := by
    intro s
    apply CarriesAt.kind
    apply CarriesAt.ite
    · intro _
      apply CarriesAt.bind hg.query
      intro q _
      apply CarriesAt.pure
      simp [Expr.pieces]
    · intro _
      exact carries_expressionList hg s
  apply CarriesAt.bind (Carries.parenthesized values)
  intro list _
  apply CarriesAt.pure
  simp [Expr.pieces, List.flatMap_map]

theorem carriesAt_between (power : Nat) (negated : Bool) :
    CarriesAt d s (Piece.payload d (left.pieces quote)) (between g left power negated) fun e =>
      Piece.payload d (e.pieces quote) := by
  apply CarriesAt.bind (hg.expression power)
  intro low _
  apply CarriesAt.silent (Carries.expect rfl)
  intro _ _
  apply CarriesAt.bind (hg.expression power)
  intro high _
  apply CarriesAt.pure
  simp [Expr.pieces]

theorem carriesAt_pattern {op : BinaryOp} {f : Option Dialect.Feature}
    (hop : patternOp? s.current.kind = some (op, f)) (power : Nat) (negated : Bool) :
    CarriesAt d s (Piece.payload d (left.pieces quote)) (pattern d g left power op f negated)
      fun e => Piece.payload d (e.pieces quote) := by
  have hsilent : s.current.kind.payload? d = none := by
    unfold patternOp? at hop
    split at hop <;> rename_i hk <;> cases hop <;> rw [hk] <;> rfl
  have operand : CarriesAt d s (Piece.payload d (left.pieces quote)) (do
      advance
      let right ← g.expression power
      return Expr.binary left (if negated then op.negated?.getD op else op) right)
      fun e => Piece.payload d (e.pieces quote) := by
    apply CarriesAt.pass rfl hsilent
    apply CarriesAt.bind (hg.expression power)
    intro right _
    apply CarriesAt.pure
    simp [Expr.pieces]
  intro hs e s' h
  exact operand hs (pattern_eq_ok.mp h).2

theorem carriesAt_negatedPredicate (power : Nat) (hnot : s.current.kind = .keyword .NOT) :
    CarriesAt d s (Piece.payload d (left.pieces quote)) (negatedPredicate d g left power) fun o =>
      Piece.payload d ((o.getD left).pieces quote) := by
  apply CarriesAt.second
  split
  · rename_i hin
    rw [s.second_eq] at hin
    apply CarriesAt.pass hnot rfl
    apply CarriesAt.pass hin rfl
    apply CarriesAt.seq (carriesAt_inList hg left _ true)
    intro e _
    exact .pure rfl
  · rename_i hbetween
    rw [s.second_eq] at hbetween
    apply CarriesAt.pass hnot rfl
    apply CarriesAt.pass hbetween rfl
    apply CarriesAt.seq (carriesAt_between hg left _ power true)
    intro e _
    exact .pure rfl
  · split
    · rename_i hop
      rw [s.second_eq] at hop
      apply CarriesAt.pass hnot rfl
      apply CarriesAt.seq (carriesAt_pattern hg left _ hop power true)
      intro e _
      exact .pure rfl
    · exact .pure rfl

/-- An operator and its operands are written where they were read, behind the operand on the
left. -/
theorem carriesAt_extend (minPower : Nat) :
    CarriesAt d s (Piece.payload d (left.pieces quote)) (extend d g minPower left) fun o =>
      Piece.payload d ((o.getD left).pieces quote) := by
  apply CarriesAt.kind
  split
  · exact .pure rfl
  rename_i power hpower
  refine .ite (fun _ => .pure rfl) fun _ => ?_
  split
  · rename_i hk
    apply CarriesAt.pass hk rfl
    apply CarriesAt.silent (Carries.accept rfl)
    intro negated _
    apply CarriesAt.silent (Carries.expect rfl)
    intro _ _
    apply CarriesAt.pure
    simp [Expr.pieces]
  · rename_i hk
    apply CarriesAt.pass hk rfl
    apply CarriesAt.seq (carriesAt_inList hg left _ false)
    intro e _
    exact .pure rfl
  · rename_i hk
    apply CarriesAt.pass hk rfl
    apply CarriesAt.seq (carriesAt_between hg left _ power false)
    intro e _
    exact .pure rfl
  · exact carriesAt_negatedPredicate hg left s power ‹_›
  · split
    · rename_i hop
      apply CarriesAt.seq (carriesAt_pattern hg left s hop power false)
      intro e _
      exact .pure rfl
    · rename_i op hop
      have hsilent : s.current.kind.payload? d = none := by
        unfold binaryOp? at hop
        split at hop <;> rename_i hk <;> cases hop <;> rw [hk] <;> rfl
      apply CarriesAt.pass rfl hsilent
      apply CarriesAt.bind (hg.expression power)
      intro right _
      apply CarriesAt.pure
      simp [Expr.pieces]
    · exact .pure rfl

end Step

/-- The loop over operators keeps the payload of what it has built up. -/
theorem carries_expressionOf (hq : d.Unquotes quote) (minPower : Nat) :
    Carries d (expressionOf d g minPower) fun e => Piece.payload d (e.pieces quote) := by
  intro s
  apply CarriesAt.bind (carries_operand hg hq)
  intro left s'
  exact Carries.iterate (fun left s => carriesAt_extend hg left s minPower) left s'

end Nested

end Parser

end SqlDialects
