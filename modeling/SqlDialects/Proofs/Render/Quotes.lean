import SqlDialects.Proofs.Lexer.Pieces
import SqlDialects.Proofs.Tree.Shape
import Mathlib.Tactic.ByContra
import Mathlib.Tactic.Tauto

/-!
# What is written in quotes

A name is written either as a bare word or in quotes, a string always in its own. Main statement:
what holds of every bare word holds of all names and strings of a statement exactly if it holds of
what is in quotes.
-/

namespace SqlDialects

namespace Piece

variable (P : Piece → Prop)

/-- If the piece is a name or a string in quotes, it has the property. -/
def IfQuoted : Piece → Prop
  | .name body quote => P (.name body quote)
  | .string body quote => P (.string body quote)
  | _ => True

/-- The names and strings in quotes have the property. -/
def AllQuoted (ps : List Piece) : Prop :=
  ∀ p ∈ ps, p.IfQuoted P

variable {P}

@[simp] theorem allQuoted_nil : AllQuoted P [] := by simp [AllQuoted]

@[simp] theorem allQuoted_cons {p : Piece} {ps : List Piece} :
    AllQuoted P (p :: ps) ↔ p.IfQuoted P ∧ AllQuoted P ps := List.forall_mem_cons

@[simp] theorem allQuoted_append {a b : List Piece} :
    AllQuoted P (a ++ b) ↔ AllQuoted P a ∧ AllQuoted P b := List.forall_mem_append

@[simp] theorem ifQuoted_space : (space).IfQuoted P ↔ True := Iff.rfl

@[simp] theorem ifQuoted_sign {s : Symbol} : (sign s).IfQuoted P ↔ True := Iff.rfl

@[simp] theorem ifQuoted_keyword {k : Keyword} : (keyword k).IfQuoted P ↔ True := Iff.rfl

@[simp] theorem ifQuoted_word {text : String} : (word text).IfQuoted P ↔ True := Iff.rfl

@[simp] theorem ifQuoted_emptyAngles : (emptyAngles).IfQuoted P ↔ True := Iff.rfl

@[simp] theorem ifQuoted_integer {n : Int} : (integer n).IfQuoted P ↔ True := Iff.rfl

@[simp] theorem ifQuoted_name {text : String} {quote : Char} :
    (name text quote).IfQuoted P ↔ P (.name text quote) := Iff.rfl

@[simp] theorem allQuoted_phrase (marks : List Mark) : AllQuoted P (phrase marks) := by
  unfold phrase
  induction marks with
  | nil => simp
  | cons m rest ih =>
    cases rest with
    | nil => simp [IfQuoted]
    | cons m' rest => simpa [IfQuoted] using ih

@[simp] theorem allQuoted_parenthesized {ps : List Piece} :
    AllQuoted P (parenthesized ps) ↔ AllQuoted P ps := by simp [parenthesized]

@[simp] theorem allQuoted_parenthesizedIf {needed : Bool} {ps : List Piece} :
    AllQuoted P (parenthesizedIf needed ps) ↔ AllQuoted P ps := by
  cases needed <;> simp [parenthesizedIf]

@[simp] theorem allQuoted_negative {ps : List Piece} :
    AllQuoted P (negative ps) ↔ AllQuoted P ps := by
  unfold negative
  split <;> simp

@[simp] theorem allQuoted_negation (negated : Bool) : AllQuoted P (negation negated) := by
  cases negated <;> simp [negation]

@[simp] theorem allQuoted_commaSeparated {items : List (List Piece)} :
    AllQuoted P (commaSeparated items) ↔ ∀ item ∈ items, AllQuoted P item := by
  unfold commaSeparated
  induction items with
  | nil => simp
  | cons item rest ih =>
    cases rest with
    | nil => simp
    | cons item' rest =>
      rw [List.intercalate_cons_cons, allQuoted_append, allQuoted_append, ih, List.forall_mem_cons]
      simp

@[simp] theorem allQuoted_qualifier {quote : Char} {parts : List String} :
    AllQuoted P (qualifier quote parts) ↔ ∀ part ∈ parts, P (.name part quote) := by
  unfold qualifier
  induction parts with
  | nil => simp
  | cons part rest ih => simp [ih]

@[simp] theorem allQuoted_label {quote : Char} {label : Option String} :
    AllQuoted P (Piece.label quote label) ↔ ∀ text ∈ label, P (.name text quote) := by
  cases label <;> simp [Piece.label]

@[simp] theorem allQuoted_names {quote : Char} {items : List String} :
    AllQuoted P (names quote items) ↔ ∀ item ∈ items, P (.name item quote) := by
  simp [names]

/-! ## Names that may be bare -/

section Bare

variable {quote : Char} {text : String} (hP : ∀ text, isBareWord text = true → P (.name text quote))
include hP

theorem ifQuoted_typeName : (typeName quote text).IfQuoted P ↔ P (.name text quote) := by
  unfold typeName
  split
  · simpa using hP text ‹_›
  · exact Iff.rfl

theorem ifQuoted_fieldName : (fieldName quote text).IfQuoted P ↔ P (.name text quote) := by
  unfold fieldName
  split
  · simpa using hP text ‹_›
  · exact Iff.rfl

theorem ifQuoted_functionName : (functionName quote text).IfQuoted P ↔ P (.name text quote) := by
  unfold functionName
  split
  · rename_i h
    simpa using hP text (Bool.and_eq_true_iff.mp h).1
  · exact Iff.rfl

end Bare

end Piece

open Piece (AllQuoted)

/-- If the node is a literal, it has the property where it is written in quotes. -/
@[simp] def Node.IfString (P : Piece → Prop) : Node → Prop
  | .expr (.literal value) => value.piece.IfQuoted P
  | _ => True

/-- The names at a node have the property in quotes, and so has a string. -/
def Node.AllQuoted (P : Piece → Prop) (quote : Char) (n : Node) : Prop :=
  (∀ name ∈ n.names, P (.name name quote)) ∧ n.IfString P

variable {P : Piece → Prop} (quote : Char)
variable (hP : ∀ text, isBareWord text = true → P (.name text quote))
include hP

-- The linter does not see the use of a section variable in a recursive call.
set_option linter.unusedSectionVars false

mutual

theorem DataType.allQuoted_pieces : ∀ t : DataType,
    AllQuoted P (t.pieces quote) ↔ ∀ n ∈ t.nodes, n.AllQuoted P quote
  | .simple name => by
    simp [DataType.pieces, DataType.nodes, Piece.ifQuoted_typeName hP, Node.AllQuoted, Node.names]
  | .sized name parameters => by
    simp [DataType.pieces, DataType.nodes, Piece.ifQuoted_typeName hP, Node.AllQuoted, Node.names]
  | .array element => by
    have h := element.allQuoted_pieces
    simp [DataType.pieces, DataType.nodes, h, Node.AllQuoted, Node.names]
  | .map key value => by
    have hk := key.allQuoted_pieces
    have hv := value.allQuoted_pieces
    rw [DataType.pieces, DataType.nodes, List.forall_mem_cons, List.forall_mem_append, ← hk, ← hv]
    simp [Node.AllQuoted, Node.names]
  | .struct [] => by
    simp [DataType.pieces, DataType.nodes, fieldsNodes, Node.AllQuoted, Node.names]
  | .struct (f :: rest) => by
    have h := allQuoted_fieldsPieces (f :: rest)
    simp [DataType.pieces, DataType.nodes, h, Node.AllQuoted, Node.names]

theorem allQuoted_fieldsPieces : ∀ fields : List StructField,
    (∀ item ∈ fieldsPieces quote fields, AllQuoted P item) ↔
      ∀ n ∈ fieldsNodes fields, n.AllQuoted P quote
  | [] => by simp [fieldsPieces, fieldsNodes]
  | ⟨name, t⟩ :: rest => by
    have ht := t.allQuoted_pieces
    have hrest := allQuoted_fieldsPieces rest
    rw [fieldsPieces, fieldsNodes, List.forall_mem_cons, List.forall_mem_cons,
      List.forall_mem_append, ← ht, ← hrest]
    simp [Piece.ifQuoted_fieldName hP, Node.AllQuoted, Node.names, and_assoc]

end

mutual

theorem Expr.allQuoted_pieces : ∀ e : Expr,
    AllQuoted P (e.pieces quote) ↔ ∀ n ∈ e.nodes, n.AllQuoted P quote
  | .literal value => by simp [Expr.pieces, Expr.nodes, Node.AllQuoted, Node.names]
  | .column qualifier name => by
    simp [Expr.pieces, Expr.nodes, Node.AllQuoted, Node.names, or_imp, forall_and]
  | .wildcard qualifier => by simp [Expr.pieces, Expr.nodes, Node.AllQuoted, Node.names]
  | .binary left op right => by
    have hl := left.allQuoted_pieces
    have hr := right.allQuoted_pieces
    rw [Expr.pieces, Expr.nodes, List.forall_mem_cons, List.forall_mem_append, ← hl, ← hr]
    simp [Node.AllQuoted, Node.names]
  | .unary .neg operand => by
    have h := operand.allQuoted_pieces
    simp [Expr.pieces, Expr.nodes, h, Node.AllQuoted, Node.names]
  | .unary .not operand => by
    have h := operand.allQuoted_pieces
    simp [Expr.pieces, Expr.nodes, h, Node.AllQuoted, Node.names]
  | .paren inner => by
    have h := inner.allQuoted_pieces
    simp [Expr.pieces, Expr.nodes, h, Node.AllQuoted, Node.names]
  | .isNull operand negated => by
    have h := operand.allQuoted_pieces
    simp [Expr.pieces, Expr.nodes, h, Node.AllQuoted, Node.names]
  | .inList operand list negated => by
    have h := operand.allQuoted_pieces
    have hl := allQuoted_exprsPieces list
    rw [Expr.pieces, Expr.nodes, List.forall_mem_cons, List.forall_mem_append, ← h, ← hl]
    simp [Node.AllQuoted, Node.names]
  | .between operand low high negated => by
    have ho := operand.allQuoted_pieces
    have hl := low.allQuoted_pieces
    have hh := high.allQuoted_pieces
    rw [Expr.pieces, Expr.nodes, List.forall_mem_cons, List.forall_mem_append,
      List.forall_mem_append, ← ho, ← hl, ← hh]
    simp [Node.AllQuoted, Node.names]
  | .caseOf operand clauses otherwise => by
    have ho := allQuoted_optionalPieces operand
    have hc := allQuoted_clausesPieces clauses
    have hd := allQuoted_optionalPieces otherwise
    rw [Expr.pieces, Expr.nodes, List.forall_mem_cons, List.forall_mem_append,
      List.forall_mem_append, ← ho [.space] (by simp), ← hc,
      ← hd [.space, Piece.keyword .ELSE, .space] (by simp)]
    simp [Node.AllQuoted, Node.names]
  | .cast operand dataType => by
    have h := operand.allQuoted_pieces
    rw [Expr.pieces, Expr.nodes, List.forall_mem_cons, List.forall_mem_append, ← h,
      ← dataType.allQuoted_pieces quote hP]
    simp [Node.AllQuoted, Node.names]
  | .call function => by
    have h := function.allQuoted_pieces
    simp [Expr.pieces, Expr.nodes, h, Node.AllQuoted, Node.names]
  | .subquery query => by
    have h := query.allQuoted_pieces
    simp [Expr.pieces, Expr.nodes, h, Node.AllQuoted, Node.names]
  | .existsRow query => by
    have h := query.allQuoted_pieces
    simp [Expr.pieces, Expr.nodes, h, Node.AllQuoted, Node.names]

theorem allQuoted_optionalPieces : ∀ (e : Option Expr) (lead : List Piece), AllQuoted P lead →
    (AllQuoted P (optionalPieces quote lead e) ↔ ∀ n ∈ optionalNodes e, n.AllQuoted P quote)
  | none, _, _ => by simp [optionalPieces, optionalNodes]
  | some e, lead, hlead => by
    rw [optionalPieces, optionalNodes, Piece.allQuoted_append, e.allQuoted_pieces]
    exact and_iff_right hlead

theorem allQuoted_exprsPieces : ∀ list : List Expr,
    (∀ item ∈ exprsPieces quote list, AllQuoted P item) ↔ ∀ n ∈ exprsNodes list, n.AllQuoted P quote
  | [] => by simp [exprsPieces, exprsNodes]
  | e :: rest => by
    rw [exprsPieces, exprsNodes, List.forall_mem_cons, List.forall_mem_append, e.allQuoted_pieces,
      allQuoted_exprsPieces rest]

theorem allQuoted_clausesPieces : ∀ clauses : List WhenClause,
    AllQuoted P (clausesPieces quote clauses) ↔ ∀ n ∈ clausesNodes clauses, n.AllQuoted P quote
  | [] => by simp [clausesPieces, clausesNodes]
  | ⟨condition, result⟩ :: rest => by
    rw [clausesPieces, clausesNodes, List.forall_mem_append, List.forall_mem_append,
      ← condition.allQuoted_pieces, ← result.allQuoted_pieces, ← allQuoted_clausesPieces rest]
    simp

theorem Call.allQuoted_pieces : ∀ c : Call,
    AllQuoted P (c.pieces quote) ↔ ∀ n ∈ c.nodes, n.AllQuoted P quote
  | ⟨name, arguments, distinct, ignoreNulls, window⟩ => by
    rw [Call.pieces, Call.nodes, List.forall_mem_cons, List.forall_mem_append,
      ← allQuoted_exprsPieces arguments, ← allQuoted_windowPieces window]
    cases distinct <;> cases ignoreNulls <;>
      simp [Piece.ifQuoted_functionName hP, Node.AllQuoted, Node.names]

theorem allQuoted_windowPieces : ∀ window : Option Window,
    AllQuoted P (windowPieces quote window) ↔ ∀ n ∈ windowNodes window, n.AllQuoted P quote
  | none => by simp [windowPieces, windowNodes]
  | some ⟨partition, order⟩ => by
    rw [windowPieces, windowNodes, List.forall_mem_append, ← allQuoted_exprsPieces partition,
      ← allQuoted_itemsPieces order]
    cases partition <;> cases order <;> simp [exprsPieces, itemsPieces]

theorem allQuoted_itemsPieces : ∀ items : List OrderItem,
    (∀ item ∈ itemsPieces quote items, AllQuoted P item) ↔
      ∀ n ∈ itemsNodes items, n.AllQuoted P quote
  | [] => by simp [itemsPieces, itemsNodes]
  | ⟨key, direction, nulls⟩ :: rest => by
    rw [itemsNodes, List.forall_mem_append, ← key.allQuoted_pieces, ← allQuoted_itemsPieces rest]
    cases nulls <;> simp [itemsPieces]

theorem Select.allQuoted_pieces : ∀ q : Select,
    AllQuoted P (q.pieces quote) ↔ ∀ n ∈ q.nodes, n.AllQuoted P quote
  | ⟨distinct, columns, source, views, filter, groups, having, ordering, limit⟩ => by
    have hgroups : AllQuoted P (if groups.isEmpty then []
        else .space :: Piece.phrase [.word .GROUP, .word .BY] ++
          .space :: Piece.commaSeparated (groupsPieces quote groups)) ↔
        ∀ item ∈ groupsPieces quote groups, AllQuoted P item := by
      cases groups <;> simp [groupsPieces]
    simp only [Select.pieces, Select.nodes, List.forall_mem_cons, List.forall_mem_append,
      Piece.allQuoted_append, hgroups, ← allQuoted_columnsPieces columns,
      ← allQuoted_sourcePieces source, ← allQuoted_viewsPieces views,
      ← allQuoted_optionalPieces filter [.space, Piece.keyword .WHERE, .space] (by simp),
      ← allQuoted_groupsPieces groups,
      ← allQuoted_optionalPieces having [.space, Piece.keyword .HAVING, .space] (by simp),
      ← allQuoted_orderingPieces ordering,
      ← allQuoted_optionalPieces limit [.space, Piece.keyword .LIMIT, .space] (by simp)]
    cases distinct <;> simp [Node.AllQuoted, Node.names, and_assoc]

theorem allQuoted_columnsPieces : ∀ columns : List SelectItem,
    (∀ item ∈ columnsPieces quote columns, AllQuoted P item) ↔
      ∀ n ∈ columnsNodes columns, n.AllQuoted P quote
  | [] => by simp [columnsPieces, columnsNodes]
  | ⟨value, label⟩ :: rest => by
    rw [columnsPieces, columnsNodes, List.forall_mem_cons, List.forall_mem_cons,
      List.forall_mem_append, ← value.allQuoted_pieces, ← allQuoted_columnsPieces rest]
    simp only [Piece.allQuoted_append, Piece.allQuoted_label, Node.AllQuoted, Node.names,
      Option.mem_toList]
    tauto

theorem allQuoted_sourcePieces : ∀ source : Option Source,
    AllQuoted P (sourcePieces quote source) ↔ ∀ n ∈ sourceNodes source, n.AllQuoted P quote
  | none => by simp [sourcePieces, sourceNodes]
  | some ⟨relation, joins⟩ => by
    rw [sourcePieces, sourceNodes, List.forall_mem_append, ← relation.allQuoted_pieces,
      ← allQuoted_joinsPieces joins]
    simp

theorem Relation.allQuoted_pieces : ∀ r : Relation,
    AllQuoted P (r.pieces quote) ↔ ∀ n ∈ r.nodes, n.AllQuoted P quote
  | .table schema name label => by
    simp [Relation.pieces, Relation.nodes, Node.AllQuoted, Node.names, or_imp, forall_and]
  | .derived query label => by
    rw [Relation.pieces, Relation.nodes, List.forall_mem_cons, ← query.allQuoted_pieces]
    simp [Node.AllQuoted, Node.names, and_comm]

theorem allQuoted_joinsPieces : ∀ joins : List Join,
    AllQuoted P (joinsPieces quote joins) ↔ ∀ n ∈ joinsNodes joins, n.AllQuoted P quote
  | [] => by simp [joinsPieces, joinsNodes]
  | ⟨type, relation, condition, columns⟩ :: rest => by
    rw [joinsPieces, joinsNodes, List.forall_mem_cons, List.forall_mem_append,
      List.forall_mem_append, ← relation.allQuoted_pieces,
      ← allQuoted_optionalPieces condition [.space, Piece.keyword .ON, .space] (by simp),
      ← allQuoted_joinsPieces rest]
    have husing : AllQuoted P (if columns.isEmpty then []
        else [.space, Piece.keyword .USING, .space] ++
          Piece.parenthesized (Piece.names quote columns)) ↔
        ∀ name ∈ columns, P (.name name quote) := by
      cases columns <;> simp
    simp only [Piece.allQuoted_append, Piece.allQuoted_cons, husing, Node.AllQuoted, Node.names]
    simp
    tauto

theorem allQuoted_viewsPieces : ∀ views : List LateralView,
    AllQuoted P (viewsPieces quote views) ↔ ∀ n ∈ viewsNodes views, n.AllQuoted P quote
  | [] => by simp [viewsPieces, viewsNodes]
  | ⟨isOuter, generator, table, columns⟩ :: rest => by
    rw [viewsPieces, viewsNodes, List.forall_mem_cons, List.forall_mem_append,
      ← generator.allQuoted_pieces, ← allQuoted_viewsPieces rest]
    cases isOuter <;> simp [Node.AllQuoted, Node.names] <;> tauto

theorem allQuoted_groupsPieces : ∀ groups : List GroupItem,
    (∀ item ∈ groupsPieces quote groups, AllQuoted P item) ↔
      ∀ n ∈ groupsNodes groups, n.AllQuoted P quote
  | [] => by simp [groupsPieces, groupsNodes]
  | .value key :: rest => by
    rw [groupsPieces, groupsNodes, List.forall_mem_cons, List.forall_mem_cons,
      List.forall_mem_append, ← key.allQuoted_pieces, ← allQuoted_groupsPieces rest]
    simp [Node.AllQuoted, Node.names]
  | .ordinal position :: rest => by
    rw [groupsPieces, groupsNodes, List.forall_mem_cons, List.forall_mem_cons,
      ← allQuoted_groupsPieces rest]
    simp [Node.AllQuoted, Node.names]

theorem allQuoted_orderingPieces : ∀ ordering : Option RowOrdering,
    AllQuoted P (orderingPieces quote ordering) ↔ ∀ n ∈ orderingNodes ordering, n.AllQuoted P quote
  | none => by simp [orderingPieces, orderingNodes]
  | some (.orderBy items) => by
    rw [orderingPieces, orderingNodes, List.forall_mem_cons, ← allQuoted_itemsPieces items]
    simp [Node.AllQuoted, Node.names]
  | some (.sortBy items) => by
    rw [orderingPieces, orderingNodes, List.forall_mem_cons, ← allQuoted_itemsPieces items]
    simp [Node.AllQuoted, Node.names]
  | some (.distributeBy keys sort) => by
    rw [orderingPieces, orderingNodes, List.forall_mem_cons, List.forall_mem_append,
      ← allQuoted_keysPieces keys, ← allQuoted_trailingPieces sort]
    simp [Node.AllQuoted, Node.names]
  | some (.clusterBy keys sort) => by
    rw [orderingPieces, orderingNodes, List.forall_mem_cons, List.forall_mem_append,
      ← allQuoted_keysPieces keys, ← allQuoted_trailingPieces sort]
    simp [Node.AllQuoted, Node.names]

theorem allQuoted_keysPieces : ∀ keys : List OrderItem,
    (∀ item ∈ keysPieces quote keys, AllQuoted P item) ↔ ∀ n ∈ itemsNodes keys, n.AllQuoted P quote
  | [] => by simp [keysPieces, itemsNodes]
  | ⟨key, _, _⟩ :: rest => by
    rw [keysPieces, itemsNodes, List.forall_mem_cons, List.forall_mem_append, key.allQuoted_pieces,
      allQuoted_keysPieces rest]

theorem allQuoted_trailingPieces : ∀ sort : Option (List OrderItem),
    AllQuoted P (trailingPieces quote sort) ↔ ∀ n ∈ trailingNodes sort, n.AllQuoted P quote
  | none => by simp [trailingPieces, trailingNodes]
  | some items => by
    rw [trailingPieces, trailingNodes, ← allQuoted_itemsPieces items]
    simp

end

/-- What holds of every bare word holds of what a statement has in quotes exactly if it holds of all
its names and strings. -/
theorem Statement.allQuoted_pieces (a : Statement) :
    AllQuoted P (a.pieces quote) ↔
      (∀ name ∈ a.names, P (.name name quote)) ∧ ∀ n ∈ a.nodes, n.IfString P := by
  obtain ⟨query⟩ := a
  rw [Statement.pieces, query.allQuoted_pieces quote hP]
  simp only [Node.AllQuoted, Statement.names, Statement.nodes, List.mem_flatMap]
  constructor
  · intro h
    constructor
    · rintro name ⟨n, hn, hname⟩
      exact (h n hn).1 name hname
    · intro n hn
      exact (h n hn).2
  · intro h n hn
    exact ⟨fun name hname => h.1 name ⟨n, hn, hname⟩, h.2 n hn⟩

omit hP

/-! ## Names in double quotes -/

theorem Lexer.survives_of_isBareWord {text : String} (h : isBareWord text = true) :
    Survives text := by
  obtain ⟨-, -, -, -, hall⟩ := isBareWord_iff.mp h
  unfold Survives
  generalize text.toList = letters at hall
  induction letters with
  | nil => rfl
  | cons c rest ih =>
    rw [List.forall_mem_cons] at hall
    have hc : c ≠ '\\' := by
      rintro rfl
      exact absurd hall.1 (by decide)
    rw [survives_plain hc]
    exact ih hall.2

/-- Only what stands in quotes can be unfit for them. -/
theorem Piece.forall_quotable_iff {ps : List Piece} :
    (∀ p ∈ ps, p.Quotable) ↔ AllQuoted Quotable ps := by
  refine forall₂_congr fun p _ => ?_
  cases p <;> exact Iff.rfl

theorem Node.ifString_quotable (n : Node) : n.IfString Piece.Quotable := by
  unfold IfString
  split
  · rename_i value
    cases value with
    | boolean b => cases b <;> trivial
    | _ => trivial
  · trivial

/-- Every name can be written in backticks. -/
theorem DataType.quotable_pieces (t : DataType) : ∀ p ∈ t.pieces '\x60', p.Quotable := by
  have hpieces := t.allQuoted_pieces (P := Piece.Quotable) '\x60' fun _ _ => nofun
  refine Piece.forall_quotable_iff.mpr (hpieces.mpr fun n _ => ⟨fun _ _ => nofun, ?_⟩)
  exact n.ifString_quotable

/-- Whether a statement can be written in given quotes is told by its names. -/
theorem Statement.quotable_pieces_iff (a : Statement) :
    (∀ p ∈ a.pieces quote, p.Quotable) ↔
      (quote = '\x22' → ∀ name ∈ a.names, Lexer.Survives name) := by
  have hpieces := a.allQuoted_pieces (P := Piece.Quotable) quote fun text htext _ =>
    Lexer.survives_of_isBareWord htext
  calc (∀ p ∈ a.pieces quote, p.Quotable)
    _ ↔ AllQuoted Piece.Quotable (a.pieces quote) := Piece.forall_quotable_iff
    _ ↔ ∀ name ∈ a.names, quote = '\x22' → Lexer.Survives name :=
      hpieces.trans (and_iff_left fun n _ => n.ifString_quotable)
    _ ↔ (quote = '\x22' → ∀ name ∈ a.names, Lexer.Survives name) :=
      ⟨fun h hq name hname => h name hname hq, fun h name hname hq => h hq name hname⟩

/-- A string in the text of a statement is a string of the statement. -/
theorem Statement.mem_nodes_of_mem_pieces {a : Statement} {body : String} {q : Char}
    (h : .string body q ∈ a.pieces quote) : .expr (.literal (.string body q)) ∈ a.nodes := by
  by_contra hnot
  have hpieces := a.allQuoted_pieces (P := (· ≠ .string body q)) quote fun _ _ => nofun
  have hstrings : ∀ n ∈ a.nodes, n.IfString (· ≠ .string body q) := by
    intro n hn
    unfold Node.IfString
    split
    · rename_i value
      cases value with
      | boolean b => cases b <;> trivial
      | string body' q' =>
        show Piece.string body' q' ≠ .string body q
        rintro ⟨⟩
        exact hnot hn
      | _ => trivial
    · trivial
  exact hpieces.mpr ⟨fun _ _ => nofun, hstrings⟩ _ h rfl

end SqlDialects
