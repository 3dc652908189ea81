import SqlDialects.Proofs.Lexer.Pieces
import SqlDialects.Proofs.Tree.Shape

/-!
# Written trees are legible

Wherever two pieces of a written tree meet, neither runs into the other, whatever the tree is: only
its names and literals have to be legible by themselves. For the pieces to be kept apart, literals
need not even be that, as long as their quotes are known.
-/

namespace SqlDialects

/-- What is written at a node has the property, to be read as one token as a rule, but for the
names. -/
def Node.IsLegible (L : Piece → Prop) (quote : Char) (n : Node) : Prop :=
  Piece.IsQuote quote ∧
    match n with
    | .expr (.literal value) => L value.piece
    | .group (.ordinal position) => L (.integer position.toNat)
    | _ => True

/-- A property of pieces that is no stricter than to be legible, and says what the quotes are. -/
class Piece.Loosens (L : Piece → Prop) : Prop where
  of_legible ⦃p : Piece⦄ (h : p.Legible) : L p
  name_quote ⦃body : String⦄ ⦃quote : Char⦄ (h : L (.name body quote)) : IsQuote quote
  string_quote ⦃body : String⦄ ⦃quote : Char⦄ (h : L (.string body quote)) :
    quote = '\x27' ∨ quote = '\x22'

instance : Piece.Loosens Piece.Legible where
  of_legible _ h := h
  name_quote _ _ h := h
  string_quote _ _ h := h.1

variable {L : Piece → Prop}

namespace Piece

/-- The characters that may stand behind an expression or a type. -/
def IsSoft (next : Option Char) : Prop :=
  ∀ c ∈ next, c ∈ [' ', ',', '(', ')', '>']

@[simp] theorem isSoft_none : IsSoft none := by simp [IsSoft]

@[simp] theorem isSoft_some {c : Char} : IsSoft (some c) ↔ c ∈ [' ', ',', '(', ')', '>'] := by
  simp [IsSoft]

@[simp] theorem separate_nil {next : Option Char} : Separate L next [] := trivial

theorem separate_cons {next : Option Char} {p : Piece} {ps : List Piece} :
    Separate L next (p :: ps) ↔ L p ∧ p.EndsBefore ((first ps).or next) ∧ Separate L next ps :=
  Iff.rfl

/-- The pieces have the property and are kept apart wherever a soft character follows them. -/
def Settled (L : Piece → Prop) (ps : List Piece) : Prop :=
  ∀ ⦃next⦄, IsSoft next → Separate L next ps

theorem settled_nil : Settled L [] := fun _ _ => trivial

/-- The pieces may stand behind an expression: they begin with a soft character, if there are
any. -/
structure Trails (L : Piece → Prop) (ps : List Piece) : Prop where
  settled : Settled L ps
  isSoft : IsSoft (first ps)

theorem trails_nil : Trails L [] := ⟨settled_nil, isSoft_none⟩

theorem Settled.append {a b : List Piece} (ha : Settled L a) (hb : Trails L b) :
    Settled L (a ++ b) := by
  intro next hnext
  refine separate_append.mpr ⟨ha ?_, hb.settled hnext⟩
  cases h : first b with
  | none => simpa using hnext
  | some c => simpa [h] using hb.isSoft

theorem Trails.append {a b : List Piece} (ha : Trails L a) (hb : Trails L b) :
    Trails L (a ++ b) := by
  refine ⟨ha.settled.append hb, ?_⟩
  rw [first_append]
  cases h : first a with
  | none => simpa using hb.isSoft
  | some c => simpa [h] using ha.isSoft

variable [Loosens L]

theorem endsBefore_of_isSoft {p : Piece} {next : Option Char} (hp : L p) (hlt : p ≠ sign .lt)
    (h : IsSoft next) : p.EndsBefore next := by
  cases next with
  | none =>
    cases p with
    | mark m =>
      cases m with
      | sign s => cases s <;> simp [EndsBefore, Symbol.EndsBefore]
      | word w => simp [EndsBefore]
    | _ => simp [EndsBefore]
  | some c =>
    have hword : isWordPart c = false := by
      have hsoft : [' ', ',', '(', ')', '>'].all (!isWordPart ·) = true := by decide
      simpa using List.all_eq_true.mp hsoft c (isSoft_some.mp h)
    simp only [isSoft_some, List.mem_cons, List.not_mem_nil, or_false] at h
    cases p with
    | space | emptyAngles => trivial
    | mark m =>
      cases m with
      | sign s =>
        rcases h with rfl | rfl | rfl | rfl | rfl <;> cases s <;>
          simp_all [EndsBefore, Symbol.EndsBefore, sign]
      | word w => simpa [EndsBefore] using hword
    | name body quote =>
      obtain rfl | rfl := Loosens.name_quote hp <;> rcases h with rfl | rfl | rfl | rfl | rfl <;>
        simp [EndsBefore]
    | word text => simpa [EndsBefore] using hword
    | integer value =>
      refine fun x hx => ⟨?_, ?_⟩ <;> cases hx
      · exact hword
      · rcases h with rfl | rfl | rfl | rfl | rfl <;> decide
    | number text =>
      refine fun x hx => ⟨?_, ?_⟩ <;> cases hx
      · exact hword
      · rcases h with rfl | rfl | rfl | rfl | rfl <;> decide
    | string body quote =>
      obtain rfl | rfl := Loosens.string_quote hp <;> rcases h with rfl | rfl | rfl | rfl | rfl <;>
        simp [EndsBefore]

/-! ## Lists of pieces -/

theorem holds_space : L .space := Loosens.of_legible trivial

theorem holds_mark (m : Mark) : L (.mark m) := Loosens.of_legible trivial

@[simp] theorem first_space_cons (ps : List Piece) : first (.space :: ps) = some ' ' := rfl

@[simp] theorem first_comma_cons (ps : List Piece) : first (sign .comma :: ps) = some ',' := rfl

@[simp] theorem first_dot_cons (ps : List Piece) : first (sign .dot :: ps) = some '.' := rfl

@[simp] theorem first_parenthesized (ps : List Piece) : first (parenthesized ps) = some '(' := rfl

@[simp] theorem separate_space_cons {next : Option Char} {ps : List Piece} :
    Separate L next (.space :: ps) ↔ Separate L next ps := by
  simp [separate_cons, holds_space, EndsBefore]

@[simp] theorem separate_comma_cons {next : Option Char} {ps : List Piece} :
    Separate L next (sign .comma :: ps) ↔ Separate L next ps := by
  simp [separate_cons, holds_mark, EndsBefore, sign, Symbol.EndsBefore]

/-- A piece that ends an expression or stands before a space. -/
theorem settled_of_holds {p : Piece} (hp : L p) (hlt : p ≠ sign .lt) : Settled L [p] :=
  fun _ h => ⟨hp, by simpa using endsBefore_of_isSoft hp hlt h, trivial⟩

theorem settled_singleton {p : Piece} (hp : p.Legible) (hlt : p ≠ sign .lt) : Settled L [p] :=
  settled_of_holds (Loosens.of_legible hp) hlt

theorem trails_space_cons {ps : List Piece} (h : Settled L ps) : Trails L (.space :: ps) :=
  ⟨fun _ hnext => separate_space_cons.mpr (h hnext), isSoft_some.mpr (by decide)⟩

@[simp] theorem separate_keyword_space {next : Option Char} {k : Keyword} {ps : List Piece} :
    Separate L next (keyword k :: .space :: ps) ↔ Separate L next ps := by
  have hspace : isWordPart ' ' = false := by decide
  simp [separate_cons, holds_space, holds_mark, EndsBefore, keyword, hspace]

theorem settled_keyword_space {k : Keyword} {ps : List Piece} (h : Settled L ps) :
    Settled L (keyword k :: .space :: ps) :=
  fun _ hnext => separate_keyword_space.mpr (h hnext)

theorem settled_keyword (k : Keyword) : Settled L [keyword k] :=
  settled_singleton trivial nofun

@[simp] theorem separate_parenthesized {next : Option Char} {ps : List Piece} :
    Separate L next (parenthesized ps) ↔ Separate L (some ')') ps := by
  rw [parenthesized, List.cons_append, separate_cons, separate_append]
  exact ⟨fun h => h.2.2.1, fun h => ⟨holds_mark _, trivial, h, holds_mark _, trivial, trivial⟩⟩

theorem settled_parenthesized {ps : List Piece} (h : Settled L ps) : Settled L (parenthesized ps) :=
  fun _ _ => separate_parenthesized.mpr (h (by simp))

/-- A piece before an opening parenthesis. -/
theorem settled_cons_parenthesized {p : Piece} {ps : List Piece} (hp : p.Legible)
    (hlt : p ≠ sign .lt) (h : Settled L ps) : Settled L (p :: parenthesized ps) :=
  fun _ hnext => ⟨Loosens.of_legible hp, endsBefore_of_isSoft hp hlt (by simp),
    settled_parenthesized h hnext⟩

theorem settled_parenthesizedIf (needed : Bool) {ps : List Piece} (h : Settled L ps) :
    Settled L (parenthesizedIf needed ps) := by
  cases needed with
  | true => exact settled_parenthesized h
  | false => exact h

theorem settled_commaSeparated {items : List (List Piece)} (h : ∀ item ∈ items, Settled L item) :
    Settled L (commaSeparated items) := by
  unfold commaSeparated
  induction items with
  | nil => exact settled_nil
  | cons item rest ih =>
    rw [List.forall_mem_cons] at h
    cases rest with
    | nil => simpa using h.1
    | cons item' rest =>
      rw [List.intercalate_cons_cons]
      intro next hnext
      simpa using ⟨h.1 (isSoft_some.mpr (by decide) : IsSoft (some ',')), ih h.2 hnext⟩

theorem settled_phrase (marks : List Mark) (h : ∀ m ∈ marks, Piece.mark m ≠ sign .lt) :
    Settled L (phrase marks) := by
  unfold phrase
  induction marks with
  | nil => exact settled_nil
  | cons m rest ih =>
    rw [List.forall_mem_cons] at h
    cases rest with
    | nil => exact settled_singleton trivial h.1
    | cons m' rest =>
      exact fun next hnext => ⟨holds_mark m, endsBefore_of_isSoft (L := L) (holds_mark m) h.1
        (by simp), separate_space_cons.mpr (ih h.2 hnext)⟩

theorem separate_phrase_op (op : BinaryOp) : Separate L (some ' ') (phrase op.marks) := by
  by_cases h : op = .lt
  · subst h
    exact ⟨holds_mark _, by simp [EndsBefore, Symbol.EndsBefore], trivial⟩
  · exact settled_phrase op.marks (by cases op <;> simp_all [BinaryOp.marks, sign]) (by simp)

/-- Two minus signs have a space between them. -/
theorem settled_negative {ps : List Piece} (h : Settled L ps) : Settled L (negative ps) := by
  intro next hnext
  replace h := h hnext
  have hfirst : ps.findSome? (·.chars.head?) = first ps := by
    induction ps with
    | nil => rfl
    | cons p ps ih =>
      simp only [List.findSome?_cons, first, text_cons, List.head?_append]
      cases hp : p.chars.head? with
      | none => simpa [first] using ih h.2.2
      | some c => rfl
  unfold negative
  rw [hfirst]
  split
  · exact ⟨holds_mark _, by simp [EndsBefore, Symbol.EndsBefore, sign], by simpa using h⟩
  · rename_i hne
    refine ⟨holds_mark _, ?_, h⟩
    cases hf : first ps with
    | none =>
      intro hc
      rw [Option.none_or] at hc
      simp [hc] at hnext
    | some c => simpa [EndsBefore, Symbol.EndsBefore, sign, hf] using hne

/-! ## Names -/

theorem legible_typeName {quote : Char} (h : IsQuote quote) (text : String) :
    (typeName quote text).Legible := by
  unfold typeName
  split
  · exact (isBareWord_toUpper text).trans ‹_›
  · exact h

theorem legible_fieldName {quote : Char} (h : IsQuote quote) (text : String) :
    (fieldName quote text).Legible := by
  unfold fieldName
  split
  · exact ‹isBareWord text = true›
  · exact h

theorem legible_functionName {quote : Char} (h : IsQuote quote) (text : String) :
    (functionName quote text).Legible := by
  unfold functionName
  split
  · rename_i hb
    exact (isBareWord_toUpper text).trans (Bool.and_eq_true_iff.mp hb).1
  · exact h

/-- Each dotted part is followed by a dot, and the name behind them by what follows. -/
theorem separate_qualifier {quote : Char} (h : IsQuote quote) (parts : List String)
    {next : Option Char} : Separate L next (qualifier quote parts) := by
  unfold qualifier
  induction parts with
  | nil => simp
  | cons part rest ih =>
    have hdot : (name part quote).EndsBefore (some '.') := by
      obtain rfl | rfl := h <;> simp [EndsBefore]
    exact ⟨Loosens.of_legible h, hdot, holds_mark _, trivial, ih⟩

theorem settled_name {quote : Char} (h : IsQuote quote) (text : String) :
    Settled L [name text quote] :=
  settled_singleton (p := .name text quote) h nofun

theorem trails_label {quote : Char} (h : IsQuote quote) (label : Option String) :
    Trails L (Piece.label quote label) := by
  cases label with
  | none => exact trails_nil
  | some text => exact trails_space_cons (settled_keyword_space (settled_name h text))

theorem settled_names {quote : Char} (h : IsQuote quote) (items : List String) :
    Settled L (names quote items) := by
  refine settled_commaSeparated ?_
  simpa using fun text _ => settled_name h text

end Piece

open Piece

variable [Loosens L] {quote : Char}

/-! ## Types -/

/-- What makes a text no continuation of an opening angle bracket. -/
def Piece.OpensType (ps : List Piece) : Prop :=
  ∃ c, first ps = some c ∧ c ≠ '=' ∧ c ≠ '>'

theorem Piece.opensType_of_legible {p : Piece} {ps : List Piece} (hp : p.Legible)
    (h : (∃ w, p = .word w) ∨ ∃ w, p = .name w quote) : OpensType (p :: ps) := by
  obtain ⟨w, rfl⟩ | ⟨w, rfl⟩ := h
  · obtain ⟨c, text, hc, hstart, -⟩ := Lexer.isBareWord_iff.mp hp
    exact ⟨c, by simp [first, chars, hc], ne_of_isWordStart hstart (by decide),
      ne_of_isWordStart hstart (by decide)⟩
  · exact ⟨quote, rfl, by obtain rfl | rfl := hp <;> decide⟩

theorem Piece.OpensType.commaSeparated {item : List Piece} {items : List (List Piece)}
    (h : OpensType item) : OpensType (commaSeparated (item :: items)) := by
  obtain ⟨c, hc, hne⟩ := h
  refine ⟨c, ?_, hne⟩
  unfold Piece.commaSeparated
  cases items with
  | nil => simpa using hc
  | cons item' items => simp [List.intercalate_cons_cons, hc]

theorem typeName_cases (text : String) :
    (∃ w, typeName quote text = .word w) ∨ ∃ w, typeName quote text = .name w quote := by
  unfold typeName
  split
  · exact .inl ⟨_, rfl⟩
  · exact .inr ⟨_, rfl⟩

theorem fieldName_cases (text : String) :
    (∃ w, fieldName quote text = .word w) ∨ ∃ w, fieldName quote text = .name w quote := by
  unfold fieldName
  split
  · exact .inl ⟨_, rfl⟩
  · exact .inr ⟨_, rfl⟩

omit [Loosens L] in
theorem DataType.opensType (t : DataType) (h : ∀ n ∈ t.nodes, n.IsLegible L quote) :
    OpensType (t.pieces quote) := by
  have word {w : String} (hw : isBareWord w = true) {ps : List Piece} :
      OpensType (.word w :: ps) := @opensType_of_legible quote _ _ hw (.inl ⟨w, rfl⟩)
  cases t with
  | simple text | sized text _ =>
    rw [nodes, List.forall_mem_singleton] at h
    exact opensType_of_legible (legible_typeName h.1 text)
      (typeName_cases text)
  | array element => exact word (by decide)
  | map key value => exact word (by decide)
  | struct fields => cases fields <;> exact word (by decide)

/-- A word that opens a pair of angle brackets. -/
theorem settled_bracketed {w : String} {ps : List Piece} (hw : isBareWord w = true)
    (hopens : OpensType ps) (h : Settled L ps) :
    Settled L ([.word w, sign .lt] ++ ps ++ [sign .gt]) := by
  intro next hnext
  obtain ⟨c, hc, hne⟩ := hopens
  have hlt : isWordPart '<' = false := by decide
  have hfirst : (sign .lt).EndsBefore (some c) := by
    simpa [EndsBefore, Symbol.EndsBefore, sign] using hne
  refine ⟨Loosens.of_legible hw, ?_, holds_mark _, ?_, ?_⟩
  · intro x hx
    cases hx
    exact hlt
  · simpa [hc] using hfirst
  · change Separate L next (ps ++ [sign .gt])
    have hgt : Settled L [sign .gt] := settled_singleton trivial (by simp [sign])
    exact h.append ⟨hgt, isSoft_some.mpr (by decide)⟩ hnext

theorem Piece.ne_lt {p : Piece} (h : (∃ w, p = .word w) ∨ ∃ w, p = .name w quote) :
    p ≠ sign .lt := by
  obtain ⟨w, rfl⟩ | ⟨w, rfl⟩ := h <;> nofun

mutual

theorem DataType.settled_pieces : ∀ t : DataType,
    (∀ n ∈ t.nodes, n.IsLegible L quote) → Settled L (t.pieces quote)
  | .simple text, h => by
    rw [DataType.nodes, List.forall_mem_singleton] at h
    exact settled_singleton (legible_typeName h.1 text)
      (ne_lt (typeName_cases text))
  | .sized text parameters, h => by
    rw [DataType.nodes, List.forall_mem_singleton] at h
    have small (n : UInt32) : (Piece.integer n.toNat).Legible := by
      have := n.toNat_lt
      exact ⟨by omega, by omega⟩
    refine settled_cons_parenthesized (legible_typeName h.1 text)
      (ne_lt (typeName_cases text)) (settled_commaSeparated ?_)
    simpa using fun n _ => settled_singleton (small n) nofun
  | .array element, h => by
    rw [DataType.nodes, List.forall_mem_cons] at h
    exact settled_bracketed (by decide) (element.opensType h.2)
      (element.settled_pieces h.2)
  | .map key value, h => by
    rw [DataType.nodes, List.forall_mem_cons, List.forall_mem_append] at h
    refine settled_bracketed (by decide) (key.opensType h.2.1).commaSeparated
      (settled_commaSeparated ?_)
    simpa using ⟨key.settled_pieces h.2.1, value.settled_pieces h.2.2⟩
  | .struct [], h => by
    intro next _
    have hword : isBareWord "STRUCT" = true := by decide
    have hlt : isWordPart '<' = false := by decide
    refine ⟨Loosens.of_legible hword, ?_, Loosens.of_legible trivial, trivial, trivial⟩
    intro x hx
    cases hx
    exact hlt
  | .struct (⟨text, dataType⟩ :: fields), h => by
    rw [DataType.nodes, List.forall_mem_cons] at h
    have hfields := settled_fieldsPieces _ h.2
    rw [fieldsNodes, List.forall_mem_cons] at h
    refine settled_bracketed (by decide) ?_ (settled_commaSeparated hfields)
    exact (opensType_of_legible (legible_fieldName h.2.1.1 text)
      (fieldName_cases text)).commaSeparated

theorem settled_fieldsPieces : ∀ fields : List StructField,
    (∀ n ∈ fieldsNodes fields, n.IsLegible L quote) →
      ∀ item ∈ fieldsPieces quote fields, Settled L item
  | [], _ => by simp [fieldsPieces]
  | ⟨text, dataType⟩ :: rest, h => by
    rw [fieldsNodes, List.forall_mem_cons, List.forall_mem_append] at h
    rw [fieldsPieces, List.forall_mem_cons]
    have hname := legible_fieldName h.1.1 text
    exact ⟨(settled_singleton hname (ne_lt (fieldName_cases text))).append
      (trails_space_cons (dataType.settled_pieces h.2.1)), settled_fieldsPieces rest h.2.2⟩

end

/-! ## Expressions and queries -/

-- The linter does not see the use of a section variable in a recursive call.
set_option linter.unusedSectionVars false

theorem functionName_cases (text : String) :
    (∃ w, functionName quote text = .word w) ∨ ∃ w, functionName quote text = .name w quote := by
  unfold functionName
  split
  · exact .inl ⟨_, rfl⟩
  · exact .inr ⟨_, rfl⟩

theorem settled_negation {negated : Bool} {ps : List Piece} (h : Settled L ps) :
    Settled L (negation negated ++ ps) := by
  cases negated with
  | true => exact settled_keyword_space h
  | false => exact h

/-- Words with spaces between them, and a space behind the last. -/
theorem settled_phrase_space {marks : List Mark} {ps : List Piece}
    (hm : ∀ m ∈ marks, Piece.mark m ≠ sign .lt) (h : Settled L ps) :
    Settled L (phrase marks ++ .space :: ps) :=
  (settled_phrase marks hm).append (trails_space_cons h)

mutual

theorem Expr.settled_pieces : ∀ e : Expr,
    (∀ n ∈ e.nodes, n.IsLegible L quote) → Settled L (e.pieces quote)
  | .literal value, h => by
    rw [Expr.nodes, List.forall_mem_singleton] at h
    refine settled_of_holds h.2 ?_
    cases value with
    | boolean b => cases b <;> nofun
    | _ => nofun
  | .column qualifier text, h => by
    rw [Expr.nodes, List.forall_mem_singleton] at h
    intro next hnext
    rw [Expr.pieces, separate_append]
    exact ⟨separate_qualifier h.1 qualifier, settled_name h.1 text hnext⟩
  | .wildcard qualifier, h => by
    rw [Expr.nodes, List.forall_mem_singleton] at h
    have hstar : Settled L [sign .star] := settled_singleton trivial nofun
    intro next hnext
    rw [Expr.pieces, separate_append]
    exact ⟨separate_qualifier h.1 qualifier, hstar hnext⟩
  | .binary left op right, h => by
    rw [Expr.nodes, List.forall_mem_cons, List.forall_mem_append] at h
    have hl := settled_parenthesizedIf (left.looserThan op) (left.settled_pieces h.2.1)
    have hr := settled_parenthesizedIf (right.noTighterThan op)
      (right.settled_pieces h.2.2)
    intro next hnext
    simp only [Expr.pieces, List.append_assoc, List.cons_append, separate_append,
      first_space_cons, separate_space_cons, Option.some_or]
    exact ⟨hl (by simp), separate_phrase_op op, hr hnext⟩
  | .unary .neg operand, h => by
    rw [Expr.nodes, List.forall_mem_cons] at h
    exact settled_negative (settled_parenthesizedIf _ (operand.settled_pieces h.2))
  | .unary .not operand, h => by
    rw [Expr.nodes, List.forall_mem_cons] at h
    exact settled_keyword_space (settled_parenthesizedIf _ (operand.settled_pieces h.2))
  | .paren inner, h => by
    rw [Expr.nodes, List.forall_mem_cons] at h
    exact settled_parenthesized (inner.settled_pieces h.2)
  | .isNull operand negated, h => by
    rw [Expr.nodes, List.forall_mem_cons] at h
    rw [Expr.pieces, List.append_assoc, List.append_assoc]
    exact (operand.settled_pieces h.2).append <| trails_space_cons <| settled_keyword_space <|
      settled_negation (settled_keyword _)
  | .inList operand list negated, h => by
    rw [Expr.nodes, List.forall_mem_cons, List.forall_mem_append] at h
    rw [Expr.pieces, List.append_assoc, List.append_assoc]
    have hl := settled_commaSeparated (settled_exprsPieces list h.2.2)
    exact (operand.settled_pieces h.2.1).append <| trails_space_cons <| settled_negation <|
      settled_keyword_space <| settled_parenthesizedIf _ hl
  | .between operand low high negated, h => by
    rw [Expr.nodes, List.forall_mem_cons, List.forall_mem_append, List.forall_mem_append] at h
    simp only [Expr.pieces, List.append_assoc]
    have hh := (low.settled_pieces h.2.2.1).append <| trails_space_cons <|
      settled_keyword_space (k := .AND) <| high.settled_pieces h.2.2.2
    exact (operand.settled_pieces h.2.1).append <| trails_space_cons <| settled_negation <|
      settled_keyword_space hh
  | .caseOf operand clauses otherwise, h => by
    rw [Expr.nodes, List.forall_mem_cons, List.forall_mem_append, List.forall_mem_append] at h
    simp only [Expr.pieces, List.append_assoc]
    exact (settled_keyword .CASE).append <|
      (trails_optionalPieces operand [] h.2.1 fun _ h => h).append <|
        (trails_clausesPieces clauses h.2.2.1).append <|
          (trails_optionalPieces otherwise [keyword .ELSE, .space] h.2.2.2
            fun _ => settled_keyword_space).append <| trails_space_cons <| settled_keyword .END
  | .cast operand dataType, h => by
    rw [Expr.nodes, List.forall_mem_cons, List.forall_mem_append] at h
    refine settled_cons_parenthesized trivial nofun ?_
    rw [List.append_assoc]
    exact (operand.settled_pieces h.2.1).append <| trails_space_cons <| settled_keyword_space <|
      dataType.settled_pieces h.2.2
  | .call function, h => by
    rw [Expr.nodes, List.forall_mem_cons] at h
    exact function.settled_pieces h.2
  | .subquery query, h => by
    rw [Expr.nodes, List.forall_mem_cons] at h
    exact settled_parenthesized (query.settled_pieces h.2)
  | .existsRow query, h => by
    rw [Expr.nodes, List.forall_mem_cons] at h
    exact settled_keyword_space (settled_parenthesized (query.settled_pieces h.2))

/-- An expression with words before it. -/
theorem trails_optionalPieces : ∀ (e : Option Expr) (lead : List Piece),
    (∀ n ∈ optionalNodes e, n.IsLegible L quote) →
      (∀ ps, Settled L ps → Settled L (lead ++ ps)) →
        Trails L (optionalPieces quote (.space :: lead) e)
  | none, _, _, _ => trails_nil
  | some e, _, h, hlead => trails_space_cons (hlead _ (e.settled_pieces h))

theorem settled_exprsPieces : ∀ list : List Expr,
    (∀ n ∈ exprsNodes list, n.IsLegible L quote) → ∀ item ∈ exprsPieces quote list, Settled L item
  | [], _ => by simp [exprsPieces]
  | e :: rest, h => by
    rw [exprsNodes, List.forall_mem_append] at h
    rw [exprsPieces, List.forall_mem_cons]
    exact ⟨e.settled_pieces h.1, settled_exprsPieces rest h.2⟩

theorem trails_clausesPieces : ∀ clauses : List WhenClause,
    (∀ n ∈ clausesNodes clauses, n.IsLegible L quote) → Trails L (clausesPieces quote clauses)
  | [], _ => trails_nil
  | ⟨condition, result⟩ :: rest, h => by
    rw [clausesNodes, List.forall_mem_append, List.forall_mem_append] at h
    simp only [clausesPieces, List.append_assoc]
    have hr := (result.settled_pieces h.2.1).append (trails_clausesPieces rest h.2.2)
    exact trails_space_cons <| settled_keyword_space <| (condition.settled_pieces h.1).append <|
      trails_space_cons <| settled_keyword_space hr

theorem Call.settled_pieces : ∀ c : Call,
    (∀ n ∈ c.nodes, n.IsLegible L quote) → Settled L (c.pieces quote)
  | ⟨text, arguments, distinct, ignoreNulls, window⟩, h => by
    rw [Call.nodes, List.forall_mem_cons, List.forall_mem_append] at h
    have hargs := settled_commaSeparated (settled_exprsPieces arguments h.2.1)
    have hdistinct : Settled L ((if distinct then [keyword .DISTINCT, .space] else []) ++
        commaSeparated (exprsPieces quote arguments)) := by
      cases distinct with
      | true => exact settled_keyword_space hargs
      | false => exact hargs
    have hnulls : Trails L (if ignoreNulls then .space :: phrase [.word .IGNORE, .word .NULLS]
        else []) := by
      cases ignoreNulls with
      | true => exact trails_space_cons (settled_phrase _ (by simp [sign]))
      | false => exact trails_nil
    rw [Call.pieces, List.append_assoc]
    exact (settled_cons_parenthesized (legible_functionName h.1.1 text)
      (ne_lt (functionName_cases text)) hdistinct).append
        (hnulls.append (trails_windowPieces window h.2.2))

theorem trails_windowPieces : ∀ window : Option Window,
    (∀ n ∈ windowNodes window, n.IsLegible L quote) → Trails L (windowPieces quote window)
  | none, _ => trails_nil
  | some ⟨partition, order⟩, h => by
    rw [windowNodes, List.forall_mem_append] at h
    have hp := settled_commaSeparated (settled_exprsPieces partition h.1)
    have ho := settled_commaSeparated (settled_itemsPieces order h.2)
    refine trails_space_cons <| settled_keyword_space <| settled_parenthesized ?_
    have hby : Settled L (phrase [.word .PARTITION, .word .BY] ++
        .space :: commaSeparated (exprsPieces quote partition)) :=
      settled_phrase_space (by simp [sign]) hp
    have horder : Settled L (phrase OrderingKind.orderBy.marks ++
        .space :: commaSeparated (itemsPieces quote order)) :=
      settled_phrase_space (by simp [OrderingKind.marks, sign]) ho
    cases hpe : partition.isEmpty <;> cases hoe : order.isEmpty
    · simpa using hby.append (trails_space_cons horder)
    · simpa using hby
    · simpa using horder
    · simpa using settled_nil

theorem settled_itemsPieces : ∀ items : List OrderItem,
    (∀ n ∈ itemsNodes items, n.IsLegible L quote) → ∀ item ∈ itemsPieces quote items, Settled L item
  | [], _ => by simp [itemsPieces]
  | ⟨key, direction, nulls⟩ :: rest, h => by
    rw [itemsNodes, List.forall_mem_append] at h
    simp only [itemsPieces, List.forall_mem_cons, List.append_assoc, List.cons_append]
    refine ⟨?_, settled_itemsPieces rest h.2⟩
    refine (key.settled_pieces h.1).append (trails_space_cons ?_)
    have hd : Settled L (phrase (direction.getD .asc).marks) :=
      settled_phrase _ (by cases direction.getD .asc <;> simp [Direction.marks, sign])
    cases nulls with
    | none => simpa using hd
    | some n =>
      exact hd.append (trails_space_cons
        (settled_phrase _ (by cases n <;> simp [NullOrdering.marks, sign])))

theorem Select.settled_pieces : ∀ q : Select,
    (∀ n ∈ q.nodes, n.IsLegible L quote) → Settled L (q.pieces quote)
  | ⟨distinct, columns, source, views, filter, groups, having, ordering, limit⟩, h => by
    simp only [Select.nodes, List.forall_mem_cons, List.forall_mem_append] at h
    obtain ⟨-, hc, hs, hv, hw, hg, hh, ho, hl⟩ := h
    have hcolumns := settled_commaSeparated (settled_columnsPieces columns hc)
    have hgroups : Trails L (if groups.isEmpty then []
        else .space :: phrase [.word .GROUP, .word .BY] ++
          .space :: commaSeparated (groupsPieces quote groups)) := by
      cases groups.isEmpty with
      | true => exact trails_nil
      | false =>
        exact trails_space_cons (settled_phrase_space (by simp [sign])
          (settled_commaSeparated (settled_groupsPieces groups hg)))
    have hrest : Trails L (sourcePieces quote source ++ (viewsPieces quote views ++
        (optionalPieces quote [.space, keyword .WHERE, .space] filter ++
          ((if groups.isEmpty then [] else .space :: phrase [.word .GROUP, .word .BY] ++
              .space :: commaSeparated (groupsPieces quote groups)) ++
            (optionalPieces quote [.space, keyword .HAVING, .space] having ++
              (orderingPieces quote ordering ++
                optionalPieces quote [.space, keyword .LIMIT, .space] limit)))))) :=
      (trails_sourcePieces source hs).append <| (trails_viewsPieces views hv).append <|
        (trails_optionalPieces filter _ hw fun _ => settled_keyword_space).append <|
          hgroups.append <|
            (trails_optionalPieces having _ hh fun _ => settled_keyword_space).append <|
              (trails_orderingPieces ordering ho).append <|
                trails_optionalPieces limit _ hl fun _ => settled_keyword_space
    simp only [Select.pieces, List.append_assoc]
    refine settled_keyword_space ?_
    cases distinct with
    | true => exact settled_keyword_space (hcolumns.append hrest)
    | false => exact hcolumns.append hrest

theorem settled_columnsPieces : ∀ columns : List SelectItem,
    (∀ n ∈ columnsNodes columns, n.IsLegible L quote) →
      ∀ item ∈ columnsPieces quote columns, Settled L item
  | [], _ => by simp [columnsPieces]
  | ⟨value, label⟩ :: rest, h => by
    rw [columnsNodes, List.forall_mem_cons, List.forall_mem_append] at h
    rw [columnsPieces, List.forall_mem_cons]
    exact ⟨(value.settled_pieces h.2.1).append
      (trails_label h.1.1 label),
      settled_columnsPieces rest h.2.2⟩

theorem trails_sourcePieces : ∀ source : Option Source,
    (∀ n ∈ sourceNodes source, n.IsLegible L quote) → Trails L (sourcePieces quote source)
  | none, _ => trails_nil
  | some ⟨relation, joins⟩, h => by
    rw [sourceNodes, List.forall_mem_append] at h
    rw [sourcePieces, List.append_assoc]
    exact trails_space_cons <| settled_keyword_space <|
      (relation.settled_pieces h.1).append (trails_joinsPieces joins h.2)

theorem Relation.settled_pieces : ∀ r : Relation,
    (∀ n ∈ r.nodes, n.IsLegible L quote) → Settled L (r.pieces quote)
  | .table schema text label, h => by
    rw [Relation.nodes, List.forall_mem_singleton] at h
    intro next hnext
    rw [Relation.pieces, separate_append]
    refine ⟨separate_qualifier h.1 schema.toList, ?_⟩
    exact (settled_name h.1 text).append (trails_label h.1 label) hnext
  | .derived query label, h => by
    rw [Relation.nodes, List.forall_mem_cons] at h
    exact (settled_parenthesized (query.settled_pieces h.2)).append
      (trails_label h.1.1 label)

theorem trails_joinsPieces : ∀ joins : List Join,
    (∀ n ∈ joinsNodes joins, n.IsLegible L quote) → Trails L (joinsPieces quote joins)
  | [], _ => trails_nil
  | ⟨type, relation, condition, columns⟩ :: rest, h => by
    rw [joinsNodes, List.forall_mem_cons, List.forall_mem_append, List.forall_mem_append] at h
    obtain ⟨hn, hr, hc, hrest⟩ := h
    have husing : Trails L (if columns.isEmpty then []
        else [.space, keyword .USING, .space] ++ parenthesized (Piece.names quote columns)) := by
      cases columns.isEmpty with
      | true => exact trails_nil
      | false => exact trails_space_cons <| settled_keyword_space <| settled_parenthesized <|
          settled_names hn.1 columns
    simp only [joinsPieces, List.append_assoc, List.cons_append]
    refine trails_space_cons
      (settled_phrase_space (by cases type <;> simp [JoinType.marks, sign]) ?_)
    exact (relation.settled_pieces hr).append <|
      (trails_optionalPieces condition _ hc fun _ => settled_keyword_space).append <|
        husing.append (trails_joinsPieces rest hrest)

theorem trails_viewsPieces : ∀ views : List LateralView,
    (∀ n ∈ viewsNodes views, n.IsLegible L quote) → Trails L (viewsPieces quote views)
  | [], _ => trails_nil
  | ⟨isOuter, generator, table, columns⟩ :: rest, h => by
    rw [viewsNodes, List.forall_mem_cons, List.forall_mem_append] at h
    obtain ⟨hn, hg, hrest⟩ := h
    have hnames : Settled L (Piece.names quote columns ++ viewsPieces quote rest) :=
      (settled_names hn.1 columns).append
        (trails_viewsPieces rest hrest)
    have htable : Settled L (.name table quote :: .space :: keyword .AS :: .space ::
        (Piece.names quote columns ++ viewsPieces quote rest)) :=
      (settled_name hn.1 table).append
        (trails_space_cons (settled_keyword_space hnames))
    have hgenerator := (generator.settled_pieces hg).append (trails_space_cons htable)
    simp only [viewsPieces, List.append_assoc, List.cons_append, List.nil_append]
    refine trails_space_cons (settled_phrase_space (by simp [sign]) ?_)
    cases isOuter with
    | true => exact settled_keyword_space hgenerator
    | false => exact hgenerator

theorem settled_groupsPieces : ∀ groups : List GroupItem,
    (∀ n ∈ groupsNodes groups, n.IsLegible L quote) →
      ∀ item ∈ groupsPieces quote groups, Settled L item
  | [], _ => by simp [groupsPieces]
  | .value key :: rest, h => by
    rw [groupsNodes, List.forall_mem_cons, List.forall_mem_append] at h
    rw [groupsPieces, List.forall_mem_cons]
    exact ⟨key.settled_pieces h.2.1, settled_groupsPieces rest h.2.2⟩
  | .ordinal position :: rest, h => by
    rw [groupsNodes, List.forall_mem_cons] at h
    rw [groupsPieces, List.forall_mem_cons]
    exact ⟨settled_of_holds h.1.2 nofun, settled_groupsPieces rest h.2⟩

theorem trails_orderingPieces : ∀ ordering : Option RowOrdering,
    (∀ n ∈ orderingNodes ordering, n.IsLegible L quote) → Trails L (orderingPieces quote ordering)
  | none, _ => trails_nil
  | some (.orderBy items), h => by
    rw [orderingNodes, List.forall_mem_cons] at h
    exact trails_space_cons <| settled_phrase_space (by simp [OrderingKind.marks, sign])
      (settled_commaSeparated (settled_itemsPieces items h.2))
  | some (.sortBy items), h => by
    rw [orderingNodes, List.forall_mem_cons] at h
    exact trails_space_cons <| settled_phrase_space (by simp [OrderingKind.marks, sign])
      (settled_commaSeparated (settled_itemsPieces items h.2))
  | some (.distributeBy keys sort), h => by
    rw [orderingNodes, List.forall_mem_cons, List.forall_mem_append] at h
    rw [orderingPieces, List.append_assoc]
    exact trails_space_cons <| settled_phrase_space (by simp [OrderingKind.marks, sign]) <|
      (settled_commaSeparated (settled_keysPieces keys h.2.1)).append
        (trails_trailingPieces sort h.2.2)
  | some (.clusterBy keys sort), h => by
    rw [orderingNodes, List.forall_mem_cons, List.forall_mem_append] at h
    rw [orderingPieces, List.append_assoc]
    exact trails_space_cons <| settled_phrase_space (by simp [OrderingKind.marks, sign]) <|
      (settled_commaSeparated (settled_keysPieces keys h.2.1)).append
        (trails_trailingPieces sort h.2.2)

theorem settled_keysPieces : ∀ keys : List OrderItem,
    (∀ n ∈ itemsNodes keys, n.IsLegible L quote) → ∀ item ∈ keysPieces quote keys, Settled L item
  | [], _ => by simp [keysPieces]
  | ⟨key, _, _⟩ :: rest, h => by
    rw [itemsNodes, List.forall_mem_append] at h
    rw [keysPieces, List.forall_mem_cons]
    exact ⟨key.settled_pieces h.1, settled_keysPieces rest h.2⟩

theorem trails_trailingPieces : ∀ sort : Option (List OrderItem),
    (∀ n ∈ trailingNodes sort, n.IsLegible L quote) → Trails L (trailingPieces quote sort)
  | none, _ => trails_nil
  | some items, h =>
    trails_space_cons <| settled_phrase_space (by simp [OrderingKind.marks, sign])
      (settled_commaSeparated (settled_itemsPieces items h))

end

/-- The pieces of a statement are separate from each other if its names can be read and its literals
have the property. -/
theorem Statement.separate_pieces {a : Statement} (h : ∀ n ∈ a.nodes, n.IsLegible L quote) :
    Separate L none (a.pieces quote) := by
  obtain ⟨query⟩ := a
  exact query.settled_pieces h isSoft_none

end SqlDialects
