import SqlDialects.Proofs.Parser.Openings
import SqlDialects.Proofs.RoundTrip.Statements

/-!
# Written operations are read back with their shape

An operation is written as if it had the parentheses that are put around its operands. What is read
from its tokens has no more parentheses than they, and no tree of its shape that can be read has
fewer. So the operation keeps its shape exactly if what is written can be read as it stands.
-/

namespace SqlDialects

open Piece (tokens)

/-! ## Parentheses among tokens -/

theorem openings_parenthesizedIf (needed : Bool) (ps : List Piece) :
    openings (tokens (Piece.parenthesizedIf needed ps)) = openings (tokens ps) + needed.toNat := by
  cases needed <;> simp [Piece.parenthesizedIf]

def TokenKind.IsParenthesis (k : TokenKind) : Prop :=
  k = .symbol .leftParen ∨ k = .symbol .rightParen

theorem not_isParenthesis_column (quote : Char) (qualifier : List String) (name : String) :
    ∀ t ∈ tokens (Expr.pieces quote (.column qualifier name)), ¬t.kind.IsParenthesis := by
  have hname (text : String) : ¬(Token.name quote text).kind.IsParenthesis := by
    rintro (h | h) <;> exact Token.kind_name_ne_symbol _ h
  induction qualifier with
  | nil => simpa [Expr.pieces, Piece.qualifier] using hname name
  | cons part rest ih =>
    have htokens : tokens (Expr.pieces quote (.column (part :: rest) name)) =
        .name quote part :: .mark (.sign .dot) ::
          tokens (Expr.pieces quote (.column rest name)) := by
      simp [Expr.pieces, Piece.qualifier]
    rw [htokens, List.forall_mem_cons, List.forall_mem_cons]
    exact ⟨hname part, by simp [TokenKind.IsParenthesis], ih⟩

theorem openings_eq_zero {ts : List Token} (h : ∀ t ∈ ts, ¬t.kind.IsParenthesis) :
    openings ts = 0 :=
  List.countP_eq_zero.mpr fun t ht hopening => h t ht (.inl (of_decide_eq_true hopening))

theorem openings_intercalate (t : Token) (ht : t.kind ≠ .symbol .leftParen)
    (lists : List (List Token)) : openings ([t].intercalate lists) = openings lists.flatten := by
  induction lists with
  | nil => rfl
  | cons list rest ih =>
    cases rest with
    | nil => simp
    | cons other rest =>
      rw [List.intercalate_cons_cons, openings_append, openings_append, ih, openings_cons,
        if_neg ht]
      simp

namespace Expr

variable {e : Expr} {parens : Bool} (quote : Char)

/-! ## What is written -/

theorem IsOperation.canonical_eq (h : e.IsOperation parens) : e.canonical = e := by
  induction h with
  | column | integer => rfl
  | @inList _ list _ _ _ _ ih ihlist =>
    have hlist : list.map canonical = list := (List.map_congr_left ihlist).trans (List.map_id list)
    simp [canonical, ih, hlist]
  | _ => simp_all [canonical]

theorem IsOperation.isLoneQuery_eq {list : List Expr} (h : ∀ e ∈ list, e.IsOperation parens) :
    isLoneQuery list = false := by
  unfold isLoneQuery
  split
  · cases h _ (List.mem_singleton_self _)
  · rfl

theorem pieces_parenthesizedIf (needed : Bool) (e : Expr) :
    (parenthesizedIf needed e).pieces quote = Piece.parenthesizedIf needed (e.pieces quote) := by
  cases needed <;> rfl

/-! An operand in the parentheses that it needs is written without further ones. -/

@[simp] theorem looserThan_parenthesizedIf (op : BinaryOp) (e : Expr) :
    (parenthesizedIf (e.looserThan op) e.grouped).looserThan op = false := by
  unfold parenthesizedIf
  split
  · rfl
  · simp_all

@[simp] theorem noTighterThan_parenthesizedIf (op : BinaryOp) (e : Expr) :
    (parenthesizedIf (e.noTighterThan op) e.grouped).noTighterThan op = false := by
  unfold parenthesizedIf
  split
  · rfl
  · simp_all

@[simp] theorem looserThanUnary_parenthesizedIf (op : UnaryOp) (e : Expr) :
    (parenthesizedIf (e.looserThanUnary op) e.grouped).looserThanUnary op = false := by
  unfold parenthesizedIf
  split
  · cases op <;> rfl
  · simp_all

/-- The parentheses that are written are those of the grouped tree. -/
theorem IsOperation.pieces_grouped (h : e.IsOperation false) :
    e.grouped.pieces quote = e.pieces quote := by
  induction h with
  | column | integer => rfl
  | paren hparens => cases hparens
  | binary op _ _ ihl ihr =>
    simp [Expr.grouped, pieces, pieces_parenthesizedIf, Piece.parenthesizedIf, ihl, ihr]
  | unary op _ ih =>
    cases op <;> simp [Expr.grouped, pieces, pieces_parenthesizedIf, Piece.parenthesizedIf, ih]
  | isNull | between => simp_all [Expr.grouped, pieces]
  | @inList _ list _ _ _ hlist ih ihlist =>
    have hgrouped : ∀ e ∈ list.map Expr.grouped, e.IsOperation true := by
      simpa using fun e he => (hlist e he).grouped
    have hpieces : list.map (Expr.pieces quote ∘ Expr.grouped) = list.map (Expr.pieces quote) :=
      List.map_congr_left ihlist
    simp [Expr.grouped, pieces, ih, hpieces, isLoneQuery_eq hlist, isLoneQuery_eq hgrouped]

theorem openings_exprsPieces {list : List Expr}
    (h : ∀ e ∈ list, openings (tokens (e.pieces quote)) = e.grouped.groupings) :
    openings (tokens (Piece.commaSeparated (exprsPieces quote list))) =
      exprsGroupings (exprsGrouped list) := by
  rw [Piece.tokens_commaSeparated, openings_intercalate _ (by simp), exprsPieces_eq_map,
    exprsGrouped_eq_map, List.map_map]
  induction list with
  | nil => rfl
  | cons e rest ih =>
    rw [List.forall_mem_cons] at h
    simp [exprsGroupings, h.1, ih h.2]

/-- As many parentheses are written as the grouped tree has. -/
theorem IsOperation.openings_pieces (h : e.IsOperation false) :
    openings (tokens (e.pieces quote)) = e.grouped.groupings := by
  induction h with
  | column => exact openings_eq_zero (not_isParenthesis_column quote _ _)
  | integer => rfl
  | paren hparens => cases hparens
  | binary op _ _ ihl ihr =>
    have hmarks : openings (op.marks.map .mark) = 0 := by cases op <;> rfl
    simp [Expr.grouped, pieces, groupings, openings_parenthesizedIf, ihl, ihr, hmarks]
  | unary op _ ih =>
    cases op <;> simp [Expr.grouped, pieces, groupings, openings_parenthesizedIf, ih]
  | isNull negated => cases negated <;> simp_all [Expr.grouped, pieces, groupings]
  | between negated => cases negated <;> simp_all [Expr.grouped, pieces, groupings]
  | @inList _ list negated _ _ hlist ih ihlist =>
    have hitems := openings_exprsPieces quote ihlist
    cases negated <;>
      simp [Expr.grouped, pieces, groupings, ih, isLoneQuery_eq hlist, openings_parenthesizedIf,
        hitems, -exprsPieces_eq_map, -Piece.tokens_commaSeparated, -exprsGrouped_eq_map]

/-! ## No tree has fewer parentheses -/

/-- An expression has at least the parentheses of another one, and no more only if it is the other
one. -/
def Covers (e f : Expr) : Prop :=
  f.groupings ≤ e.groupings ∧ (e.groupings ≤ f.groupings → e = f)

def isParen : Expr → Bool
  | .paren _ => true
  | _ => false

/-- Parentheses that an operand has cover those that are needed. -/
theorem Covers.operand {f : Expr} {needed : Bool}
    (h : e.Covers (parenthesizedIf e.isParen f)) (hneeded : needed = true → e.isParen = true) :
    e.Covers (parenthesizedIf needed f) := by
  cases hparen : e.isParen <;> rw [hparen] at h hneeded
  · rwa [Bool.eq_false_iff.mpr fun hn => Bool.false_ne_true (hneeded hn)]
  · cases needed with
    | true => exact h
    | false =>
      obtain ⟨hle, -⟩ := h
      rw [groupings_parenthesizedIf] at hle
      simp only [Bool.toNat_true] at hle
      constructor
      · rw [groupings_parenthesizedIf]
        simp only [Bool.toNat_false]
        omega
      · rw [groupings_parenthesizedIf]
        simp only [Bool.toNat_false]
        omega

theorem Covers.bare {f : Expr} (h : e.Covers (parenthesizedIf e.isParen f)) : e.Covers f :=
  @Covers.operand e f false h nofun

theorem covers_map {f : Expr → Expr} {list : List Expr} (h : ∀ e ∈ list, e.Covers (f e)) :
    exprsGroupings (list.map f) ≤ exprsGroupings list ∧
      (exprsGroupings list ≤ exprsGroupings (list.map f) → list = list.map f) := by
  induction list with
  | nil => simp
  | cons e rest ih =>
    rw [List.forall_mem_cons] at h
    obtain ⟨⟨hle, heq⟩, hrest⟩ := h
    obtain ⟨hles, heqs⟩ := ih hrest
    simp only [List.map_cons, exprsGroupings] at hles heqs ⊢
    refine ⟨by omega, fun hge => ?_⟩
    rw [← heq (by omega), ← heqs (by omega)]

/-- An operand that is not in parentheses needs none if it does not reach into the operator. -/
theorem isParen_of_looserThan {op : BinaryOp} (hbound : op.leftPower < e.rightBound)
    (h : e.withoutParens.looserThan op = true) : e.isParen = true := by
  by_contra hparen
  have hbare := looserThan_of_bound hbound
  cases e <;> simp_all [isParen, withoutParens, looserThan]

theorem isParen_of_noTighterThan {op : BinaryOp} (hbound : op.rightPower ≤ e.leftBound)
    (h : e.withoutParens.noTighterThan op = true) : e.isParen = true := by
  by_contra hparen
  have hbare := noTighterThan_of_bound hbound
  cases e <;> simp_all [isParen, withoutParens, noTighterThan]

theorem isParen_of_looserThanUnary {op : UnaryOp} (hbound : op.power ≤ e.leftBound)
    (h : e.withoutParens.looserThanUnary op = true) : e.isParen = true := by
  by_contra hparen
  have hbare := looserThanUnary_of_bound hbound
  cases op <;> cases e <;> simp_all [isParen, withoutParens, looserThanUnary]

/-- A tree in which no operand reaches into its neighbours has the parentheses that are written for
its shape. -/
theorem covers_grouped (h : e.IsOperation parens) (hbound : ∀ n ∈ e.nodes, n.Bound) :
    e.Covers (parenthesizedIf e.isParen e.withoutParens.grouped) := by
  induction h with
  | column | integer => exact ⟨le_rfl, fun _ => rfl⟩
  | @paren inner _ _ ih =>
    rw [nodes, List.forall_mem_cons] at hbound
    obtain ⟨hle, heq⟩ := (ih hbound.2).bare
    refine ⟨Nat.succ_le_succ hle, fun hge => ?_⟩
    exact congrArg paren (heq (Nat.le_of_succ_le_succ hge))
  | @binary left right op _ _ ihl ihr =>
    rw [nodes, List.forall_mem_cons, List.forall_mem_append] at hbound
    obtain ⟨⟨hleft, hright⟩, hl, hr⟩ := hbound
    obtain ⟨hlle, hleq⟩ := (ihl hl).operand (isParen_of_looserThan hleft)
    obtain ⟨hrle, hreq⟩ := (ihr hr).operand (isParen_of_noTighterThan hright)
    refine ⟨Nat.add_le_add hlle hrle, fun hge => ?_⟩
    have hge : left.groupings + right.groupings ≤ _ + _ := hge
    exact congrArg₂ (binary · op ·) (hleq (by omega)) (hreq (by omega))
  | @unary operand op _ ih =>
    rw [nodes, List.forall_mem_cons] at hbound
    obtain ⟨hle, heq⟩ := (ih hbound.2).operand (isParen_of_looserThanUnary hbound.1)
    exact ⟨hle, fun hge => congrArg (unary op) (heq hge)⟩
  | @isNull operand negated _ ih =>
    rw [nodes, List.forall_mem_cons] at hbound
    obtain ⟨hle, heq⟩ := (ih hbound.2).bare
    exact ⟨hle, fun hge => congrArg (isNull · negated) (heq hge)⟩
  | @inList operand list negated _ _ _ ih ihlist =>
    rw [nodes, List.forall_mem_cons, List.forall_mem_append, forall_exprsNodes] at hbound
    obtain ⟨hle, heq⟩ := (ih hbound.2.1).bare
    obtain ⟨hles, heqs⟩ := covers_map (f := fun e => e.withoutParens.grouped) fun e he =>
      (ihlist e he (hbound.2.2 e he)).bare
    have hlist : exprsGrouped (exprsWithoutParens list) =
        list.map fun e => e.withoutParens.grouped := by
      simp [Function.comp_def]
    rw [← hlist] at hles heqs
    refine ⟨Nat.add_le_add hle (Nat.succ_le_succ hles), fun hge => ?_⟩
    have hge : operand.groupings + (exprsGroupings list + 1) ≤ _ + (_ + 1) := hge
    exact congrArg₂ (inList · · negated) (heq (by omega)) (heqs (by omega))
  | @between operand low high negated _ _ _ ih ihl ihh =>
    rw [nodes, List.forall_mem_cons, List.forall_mem_append, List.forall_mem_append] at hbound
    obtain ⟨-, ho, hl, hh⟩ := hbound
    obtain ⟨hle, heq⟩ := (ih ho).bare
    obtain ⟨hlle, hleq⟩ := (ihl hl).bare
    obtain ⟨hhle, hheq⟩ := (ihh hh).bare
    refine ⟨Nat.add_le_add hle (Nat.add_le_add hlle hhle), fun hge => ?_⟩
    have hge : operand.groupings + (low.groupings + high.groupings) ≤ _ + (_ + _) := hge
    show between operand low high negated = between operand.withoutParens.grouped
      low.withoutParens.grouped high.withoutParens.grouped negated
    rw [← heq (by omega), ← hleq (by omega), ← hheq (by omega)]

end Expr

/-! ## Statements of one column -/

/-- What a node needs to be written and read back, apart from how its operands bind. -/
structure Node.Writable (d : Dialect) (n : Node) : Prop where
  complete : n.Complete
  tidy : n.Tidy
  supported : n.SupportedBy d
  literal : n.LiteralReadsBack d
  named : "" ∉ n.names
  view : n.ViewReadable

theorem Node.Writable.readable {d : Dialect} {n : Node} (h : n.Writable d) (hbound : n.Bound) :
    n.Readable d :=
  ⟨h.complete, h.tidy, hbound, h.supported, h.literal⟩

theorem Literal.readsBack_integer {d : Dialect} {value : Int64} (h : 0 ≤ value.toInt) :
    (Literal.integer value).ReadsBack d := by
  have hlt := value.toInt_lt
  exact ⟨⟨h, hlt⟩, .integer value, by simp [piece, Piece.kind?], rfl⟩

theorem Expr.IsOperation.writable {e : Expr} {parens : Bool} (h : e.IsOperation parens) :
    ∀ n ∈ e.nodes, n.Writable .spark := by
  induction h with
  | @column qualifier name hqualifier hname =>
    rw [nodes, List.forall_mem_singleton]
    have hnamed : "" ∉ qualifier ++ [name] := by simp [hqualifier, hname.symm]
    exact ⟨trivial, trivial, trivial, trivial, hnamed, trivial⟩
  | integer h =>
    rw [nodes, List.forall_mem_singleton]
    exact ⟨trivial, trivial, trivial, Literal.readsBack_integer h, by simp [Node.names], trivial⟩
  | binary op _ _ ihl ihr =>
    rw [nodes, List.forall_mem_cons, List.forall_mem_append]
    have hop : ∀ f ∈ op.feature?, Dialect.spark.supports f = true := by cases op <;> decide
    exact ⟨⟨trivial, trivial, hop, trivial, by simp [Node.names], trivial⟩, ihl, ihr⟩
  | unary _ _ ih | isNull _ _ ih | paren _ _ ih =>
    rw [nodes, List.forall_mem_cons]
    exact ⟨⟨trivial, trivial, trivial, trivial, by simp [Node.names], trivial⟩, ih⟩
  | inList _ _ hne _ ih ihlist =>
    rw [nodes, List.forall_mem_cons, List.forall_mem_append, forall_exprsNodes]
    exact ⟨⟨hne, trivial, trivial, trivial, by simp [Node.names], trivial⟩, ih, ihlist⟩
  | between _ _ _ _ ih ihl ihh =>
    rw [nodes, List.forall_mem_cons, List.forall_mem_append, List.forall_mem_append]
    exact ⟨⟨trivial, trivial, trivial, trivial, by simp [Node.names], trivial⟩, ih, ihl, ihh⟩

namespace Statement

variable {e : Expr} {parens : Bool} {t : String}

theorem forall_nodes_ofExpr {P : Node → Prop} :
    (∀ n ∈ (ofExpr e).nodes, P n) ↔
      P (.select (.ofColumns [⟨e, none⟩])) ∧ P (.item ⟨e, none⟩) ∧ ∀ n ∈ e.nodes, P n := by
  simp [ofExpr, nodes, Select.ofColumns, Select.nodes, columnsNodes, sourceNodes, viewsNodes,
    optionalNodes, groupsNodes, orderingNodes]

theorem pieces_ofExpr (quote : Char) (e : Expr) :
    (ofExpr e).pieces quote = .keyword .SELECT :: .space :: e.pieces quote := by
  simp [ofExpr, pieces, Select.ofColumns, Select.pieces, columnsPieces, Piece.commaSeparated,
    Piece.label, sourcePieces, viewsPieces, optionalPieces, orderingPieces]

theorem tokens_ofExpr (quote : Char) (e : Expr) :
    tokens ((ofExpr e).pieces quote) = .mark (.word .SELECT) :: tokens (e.pieces quote) := by
  simp [pieces_ofExpr]

theorem canonical_ofExpr (h : e.IsOperation parens) : (ofExpr e).canonical = ofExpr e := by
  simp [ofExpr, canonical, Select.ofColumns, Select.canonical, columnsCanonical, sourceCanonical,
    viewsCanonical, optionalCanonical, groupsCanonical, orderingCanonical, h.canonical_eq]

theorem writable_ofExpr (h : e.IsOperation parens) :
    ∀ n ∈ (ofExpr e).nodes, n.Writable .spark := by
  rw [forall_nodes_ofExpr]
  refine ⟨⟨⟨?_, ?_⟩, trivial, trivial, trivial, ?_, trivial⟩,
    ⟨trivial, trivial, trivial, trivial, ?_, trivial⟩, h.writable⟩ <;>
    simp [Select.ofColumns, Node.names]

theorem render_ofExpr (h : e.IsOperation parens) :
    (ofExpr e).render .spark = .ok (.ofList (Piece.text ((ofExpr e).pieces '\x60'))) := by
  have hwritable := writable_ofExpr h
  refine render_eq_ok.mpr ⟨(defect?_eq_none _).mpr ⟨fun n hn => (hwritable n hn).complete, ?_⟩, rfl⟩
  simpa [names] using fun n hn => (hwritable n hn).named

/-- An operation is written as its tokens, which are those of the grouped tree. -/
theorem tokenize_ofExpr (h : e.IsOperation parens) (ht : (ofExpr e).render .spark = .ok t) :
    ∃ ts, tokenize t = .ok ts ∧
      ts.map Token.content =
        (Token.mark (.word .SELECT) :: tokens (e.pieces '\x60')).map Token.content ++
          [(.endOfInput, "")] := by
  rw [← tokens_ofExpr]
  refine tokenize_render_of_legible (fun n hn => ?_) (fun hq => absurd hq (by decide)) ht
  have hwritable := writable_ofExpr h n hn
  exact Node.isLegible_of_tidy (.inl rfl) hwritable.tidy hwritable.literal

theorem render_grouped (h : e.IsOperation false) :
    (ofExpr e.grouped).render .spark = (ofExpr e).render .spark := by
  rw [render_ofExpr h, render_ofExpr h.grouped, pieces_ofExpr, pieces_ofExpr, h.pieces_grouped]

/-- What is read from the text of an operation is what its tokens hold. -/
theorem statement_of_parse_ofExpr {a : Statement} (h : e.IsOperation parens)
    (ht : (ofExpr e).render .spark = .ok t) (hparse : parse .spark t = .ok a) :
    ∃ s', Parser.statement .spark (.push (.mark (.word .SELECT) :: tokens (e.pieces '\x60'))
      ⟨[], .at 0, ""⟩) = .ok a s' := by
  obtain ⟨ts, htokens, hcontent⟩ := tokenize_ofExpr h ht
  obtain ⟨s, s', hs, hstatement⟩ := parse_eq_ok.mp hparse
  obtain ⟨us, hus, rfl⟩ := TokenStream.ofText_eq_ok.mp hs
  cases htokens.symm.trans hus
  refine Parser.statement_eq_ok_of_alike (TokenStream.alike_ofList hcontent ?_) hstatement
  rw [← tokens_ofExpr]
  exact fun _ => Lexer.kind_ne_endOfInput_of_mem_tokens

/-- What is read in the shape of an operation has the parentheses that are written for it. -/
theorem covers_of_statement {s s' : TokenStream} {b : Expr} (h : e.IsOperation false)
    (hs : Parser.statement .spark s = .ok (ofExpr b) s') (hshape : b.withoutParens = e) :
    b.Covers e.grouped ∧ ∀ n ∈ b.nodes, n.Bound := by
  have hsound := (Parser.yields_statement (T := fun _ => True) (fun _ _ => trivial) hs).1
  have hbound : ∀ n ∈ b.nodes, n.Bound := fun n hn =>
    ((forall_nodes_ofExpr.mp hsound).2.2 n hn).bound
  have hcovers := (Expr.covers_grouped (.of_withoutParens b (hshape.symm ▸ h)) hbound).bare
  exact ⟨hshape ▸ hcovers, hbound⟩

/-- What is read has not the shape of an operation if it has too few parentheses for it. -/
theorem withoutParens_ne_of_openings_lt {s s' : TokenStream} {b : Expr} (h : e.IsOperation false)
    (hs : Parser.statement .spark s = .ok (ofExpr b) s')
    (hlt : openings s.rest < e.grouped.groupings) : b.withoutParens ≠ e := by
  intro hshape
  obtain ⟨⟨hcovers, -⟩, -⟩ := covers_of_statement h hs hshape
  have hle := Parser.groupings_le_openings hs
  omega

/-- Of the shape of an operation, only the grouped tree can be read from its text. -/
theorem eq_grouped_of_parse {b : Expr} (h : e.IsOperation false)
    (ht : (ofExpr e).render .spark = .ok t) (hparse : parse .spark t = .ok (ofExpr b))
    (hshape : b.withoutParens = e) : b = e.grouped ∧ ∀ n ∈ b.nodes, n.Bound := by
  obtain ⟨s', hs⟩ := statement_of_parse_ofExpr h ht hparse
  obtain ⟨hcovers, hbound⟩ := covers_of_statement h hs hshape
  have hopenings : b.groupings ≤ e.grouped.groupings := by
    have hle := Parser.groupings_le_openings hs
    simpa [h.openings_pieces] using hle
  exact ⟨hcovers.2 hopenings, hbound⟩

/-- The grouped tree is read from the text of an operation if no operand reaches into its
neighbours. -/
theorem parse_render_grouped (h : e.IsOperation false) (hbound : ∀ n ∈ e.grouped.nodes, n.Bound)
    (ht : (ofExpr e).render .spark = .ok t) : parse .spark t = .ok (ofExpr e.grouped) := by
  have hwritable := writable_ofExpr h.grouped
  have hbound : ∀ n ∈ (ofExpr e.grouped).nodes, n.Bound :=
    forall_nodes_ofExpr.mpr ⟨trivial, trivial, hbound⟩
  have hreadable : ∀ n ∈ (ofExpr e.grouped).nodes, n.Readable .spark := fun n hn =>
    (hwritable n hn).readable (hbound n hn)
  refine (parse_render_iff (.inl rfl) hreadable (fun hq => absurd hq (by decide))
    ((render_grouped h).trans ht)).mpr ⟨forall_views.mpr fun n hn => (hwritable n hn).view, ?_⟩
  rw [canonical_ofExpr h.grouped]

/-- An operation is always written, and its text is read as a tree of its shape exactly if, in the
parentheses that are written, no operand reaches into its neighbours. -/
theorem exists_parse_render_ofExpr_iff (h : e.IsOperation false) :
    ∃ t, (ofExpr e).render .spark = .ok t ∧
      ((∃ b, parse .spark t = .ok (ofExpr b) ∧ b.withoutParens = e) ↔
        ∀ n ∈ e.grouped.nodes, n.Bound) := by
  refine ⟨_, render_ofExpr h, ?_, fun hbound => ?_⟩
  · rintro ⟨b, hparse, hshape⟩
    obtain ⟨rfl, hbound⟩ := eq_grouped_of_parse h (render_ofExpr h) hparse hshape
    exact hbound
  · exact ⟨e.grouped, parse_render_grouped h hbound (render_ofExpr h), h.withoutParens_grouped⟩

/-- A negation on the left of a comparison is written without parentheses and takes the whole
comparison when it is read: `NOT` reaches into the operator behind its operand. -/
theorem not_exists_parse_render_negatedOperand :
    let e : Expr := .binary (.unary .not (.column [] "a")) .eq (.column [] "b")
    e.IsOperation false ∧ (ofExpr e).render .spark = .ok "SELECT NOT \x60a\x60 = \x60b\x60" ∧
      ¬∃ b, parse .spark "SELECT NOT \x60a\x60 = \x60b\x60" = .ok (ofExpr b) ∧
        b.withoutParens = e := by
  intro e
  have hoperation : e.IsOperation false :=
    .binary .eq (.unary .not (.column (by simp) (by simp))) (.column (by simp) (by simp))
  have hrender : (ofExpr e).render .spark = .ok "SELECT NOT \x60a\x60 = \x60b\x60" := by
    decide +kernel
  refine ⟨hoperation, hrender, fun hread => ?_⟩
  obtain ⟨t, ht, hiff⟩ := exists_parse_render_ofExpr_iff hoperation
  cases ht.symm.trans hrender
  have hbound : BinaryOp.eq.leftPower < (Expr.unary .not (.column [] "a")).rightBound :=
    (hiff.mp hread (.expr e) List.mem_cons_self).1
  exact absurd hbound (by decide)

end Statement

end SqlDialects
