import Mathlib
import SqlDialects.Proofs.Tree.Binding
import SqlDialects.Render.Pieces

/-!
# Where parentheses are written

Every pair of parentheses in the text of a tree belongs either to a node, which is always written
with it, or to an operand that would be read otherwise. Main statement: how many pairs are written,
as a sum over the nodes. Where no operand reaches into its neighbours, none belongs to an operand.
-/

namespace SqlDialects

/-! ## No parentheses are added -/

namespace Expr

variable {op : BinaryOp} {e : Expr}

theorem looserThan_of_bound (h : op.leftPower < e.rightBound) : e.looserThan op = false := by
  unfold looserThan
  split
  · rename_i inner right
    have : op.leftPower < inner.rightPower := (lt_min_iff.mp h).1
    simp only [BinaryOp.leftPower, BinaryOp.rightPower] at this
    simp only [decide_eq_false_iff_not]
    omega
  · rfl

theorem noTighterThan_of_bound (h : op.rightPower ≤ e.leftBound) : e.noTighterThan op = false := by
  unfold noTighterThan
  split
  · rename_i inner right
    have : op.rightPower ≤ inner.leftPower := (le_min_iff.mp h).1
    simp only [BinaryOp.leftPower, BinaryOp.rightPower] at this
    simp only [decide_eq_false_iff_not]
    have : 0 < inner.precedence := inner.precedence_pos
    omega
  · rfl

theorem looserThanUnary_of_bound {op : UnaryOp} (h : op.power ≤ e.leftBound) :
    e.looserThanUnary op = false := by
  unfold looserThanUnary
  split
  · rename_i left inner right
    have : 13 ≤ inner.leftPower := (le_min_iff.mp h).1
    revert this
    cases inner <;> decide
  · rename_i left inner right
    have : 5 ≤ inner.leftPower := (le_min_iff.mp h).1
    revert this
    cases inner <;> decide
  · rfl

end Expr

/-! ## Parentheses of nodes -/

namespace Node

/-- How many pairs of parentheses a node is always written with. -/
@[simp] def ownParens : Node → Nat
  | .dataType (.sized _ _) => 1
  | .expr (.paren _) => 1
  | .expr (.inList _ list _) => (!isLoneQuery list).toNat
  | .expr (.cast _ _) => 1
  | .expr (.subquery _) => 1
  | .expr (.existsRow _) => 1
  | .call c => 1 + c.window.isSome.toNat
  | .relation (.derived _ _) => 1
  | .join j => (!j.columns.isEmpty).toNat
  | _ => 0

/-- How many operands of a node are written in parentheses. -/
@[simp] def operandParens : Node → Nat
  | .expr (.binary left op right) => (left.looserThan op).toNat + (right.noTighterThan op).toNat
  | .expr (.unary op operand) => (operand.looserThanUnary op).toNat
  | _ => 0

theorem Bound.operandParens_eq {n : Node} (h : n.Bound) : n.operandParens = 0 := by
  unfold operandParens
  split
  · rw [Expr.looserThan_of_bound h.1, Expr.noTighterThan_of_bound h.2]
    rfl
  · rw [Expr.looserThanUnary_of_bound h]
    rfl
  · rfl

end Node

/-- How many pairs of parentheses some nodes are written with. -/
def parensOf (nodes : List Node) : Nat :=
  (nodes.map fun n => n.ownParens + n.operandParens).sum

@[simp] theorem parensOf_nil : parensOf [] = 0 := rfl

@[simp] theorem parensOf_cons (n : Node) (nodes : List Node) :
    parensOf (n :: nodes) = n.ownParens + n.operandParens + parensOf nodes := by
  simp [parensOf]

@[simp] theorem parensOf_append (nodes others : List Node) :
    parensOf (nodes ++ others) = parensOf nodes + parensOf others := by
  simp [parensOf]

theorem parensOf_eq_sum {nodes : List Node} (h : ∀ n ∈ nodes, n.operandParens = 0) :
    parensOf nodes = (nodes.map Node.ownParens).sum :=
  congrArg List.sum (List.map_congr_left fun n hn => by rw [h n hn, Nat.add_zero])

/-! ## Parentheses among pieces -/

namespace Piece

def isOpening : Piece → Bool
  | .mark (.sign .leftParen) => true
  | _ => false

/-- How many parentheses are opened. -/
def openings (ps : List Piece) : Nat :=
  ps.countP isOpening

variable (quote : Char)

@[simp] theorem openings_nil : openings [] = 0 := rfl

@[simp] theorem openings_append (ps qs : List Piece) :
    openings (ps ++ qs) = openings ps + openings qs :=
  List.countP_append

@[simp] theorem openings_cons (p : Piece) (ps : List Piece) :
    openings (p :: ps) = p.isOpening.toNat + openings ps := by
  cases h : p.isOpening <;> simp [openings, h, Nat.add_comm]

@[simp] theorem isOpening_space : isOpening .space = false := rfl
@[simp] theorem isOpening_name (body : String) : isOpening (.name body quote) = false := rfl
@[simp] theorem isOpening_word (text : String) : isOpening (.word text) = false := rfl
@[simp] theorem isOpening_mark_word (k : Keyword) : isOpening (.mark (.word k)) = false := rfl
@[simp] theorem isOpening_keyword (k : Keyword) : isOpening (keyword k) = false := rfl
@[simp] theorem isOpening_emptyAngles : isOpening .emptyAngles = false := rfl
@[simp] theorem isOpening_integer (value : Int) : isOpening (.integer value) = false := rfl

@[simp] theorem isOpening_sign (s : Symbol) : isOpening (sign s) = decide (s = .leftParen) := by
  cases s <;> rfl

@[simp] theorem isOpening_functionName (name : String) :
    isOpening (functionName quote name) = false := by
  unfold functionName
  split <;> rfl

@[simp] theorem isOpening_typeName (name : String) : isOpening (typeName quote name) = false := by
  unfold typeName
  split <;> rfl

@[simp] theorem isOpening_fieldName (name : String) : isOpening (fieldName quote name) = false := by
  unfold fieldName
  split <;> rfl

@[simp] theorem isOpening_literal (value : Literal) : isOpening value.piece = false := by
  cases value with
  | boolean b => cases b <;> rfl
  | _ => rfl

theorem openings_intersperse (ps : List Piece) :
    openings (ps.intersperse .space) = openings ps := by
  induction ps with
  | nil => rfl
  | cons p rest ih =>
    cases rest with
    | nil => rfl
    | cons p' rest =>
      rw [List.intersperse_cons_cons, openings_cons, openings_cons, openings_cons, ih]
      simp

@[simp] theorem openings_phrase (marks : List Mark) :
    openings (phrase marks) = marks.countP (isOpening ∘ mark) :=
  (openings_intersperse _).trans List.countP_map

@[simp] theorem openings_commaSeparated (items : List (List Piece)) :
    openings (commaSeparated items) = (items.map openings).sum := by
  unfold commaSeparated
  induction items with
  | nil => rfl
  | cons item rest ih =>
    cases rest with
    | nil => simp
    | cons item' rest =>
      rw [List.intercalate_cons_cons, openings_append, openings_append, ih]
      simp

@[simp] theorem openings_parenthesized (ps : List Piece) :
    openings (parenthesized ps) = openings ps + 1 := by
  simp [parenthesized, Nat.add_comm]

@[simp] theorem openings_parenthesizedIf (needed : Bool) (ps : List Piece) :
    openings (parenthesizedIf needed ps) = openings ps + needed.toNat := by
  cases needed <;> simp [parenthesizedIf]

@[simp] theorem openings_negative (ps : List Piece) : openings (negative ps) = openings ps := by
  unfold negative
  split <;> simp

@[simp] theorem openings_negation (negated : Bool) : openings (negation negated) = 0 := by
  cases negated <;> rfl

@[simp] theorem openings_qualifier (parts : List String) :
    openings (qualifier quote parts) = 0 := by
  induction parts with
  | nil => rfl
  | cons part rest ih => simpa [qualifier] using ih

@[simp] theorem openings_label (text : Option String) : openings (label quote text) = 0 := by
  cases text <;> rfl

@[simp] theorem openings_names (items : List String) : openings (names quote items) = 0 := by
  induction items with
  | nil => rfl
  | cons item rest ih => simpa [names] using ih

end Piece

/-! ## Trees -/

open Piece (openings)

variable (quote : Char)

mutual

theorem DataType.openings_pieces : ∀ t : DataType, openings (t.pieces quote) = parensOf t.nodes
  | .simple _ => by simp [DataType.pieces, DataType.nodes]
  | .sized _ _ => by simp [DataType.pieces, DataType.nodes, Function.comp_def, List.map_const']
  | .array element => by simp [DataType.pieces, DataType.nodes, element.openings_pieces]
  | .map key value => by
    simp [DataType.pieces, DataType.nodes, key.openings_pieces, value.openings_pieces]
  | .struct [] => by simp [DataType.pieces, DataType.nodes, fieldsNodes]
  | .struct (f :: rest) => by
    simp [DataType.pieces, DataType.nodes, openings_fieldsPieces (f :: rest)]

theorem openings_fieldsPieces : ∀ fields : List StructField,
    ((fieldsPieces quote fields).map openings).sum = parensOf (fieldsNodes fields)
  | [] => rfl
  | ⟨_, t⟩ :: rest => by
    simp [fieldsPieces, fieldsNodes, t.openings_pieces, openings_fieldsPieces rest]

end

/-! The marks that operators, joins and directions are spelled with. -/

@[simp] theorem BinaryOp.countP_marks (op : BinaryOp) :
    op.marks.countP (Piece.isOpening ∘ Piece.mark) = 0 := by
  cases op <;> rfl

@[simp] theorem Direction.countP_marks (direction : Direction) :
    direction.marks.countP (Piece.isOpening ∘ Piece.mark) = 0 := by
  cases direction <;> rfl

@[simp] theorem NullOrdering.countP_marks (nulls : NullOrdering) :
    nulls.marks.countP (Piece.isOpening ∘ Piece.mark) = 0 := by
  cases nulls <;> rfl

@[simp] theorem JoinType.countP_marks (type : JoinType) :
    type.marks.countP (Piece.isOpening ∘ Piece.mark) = 0 := by
  cases type <;> rfl

@[simp] theorem OrderingKind.countP_marks (kind : OrderingKind) :
    kind.marks.countP (Piece.isOpening ∘ Piece.mark) = 0 := by
  cases kind <;> rfl

mutual

theorem Expr.openings_pieces : ∀ e : Expr, openings (e.pieces quote) = parensOf e.nodes
  | .literal _ => by simp [Expr.pieces, Expr.nodes]
  | .column _ _ => by simp [Expr.pieces, Expr.nodes]
  | .wildcard _ => by simp [Expr.pieces, Expr.nodes]
  | .binary left op right => by
    simp [Expr.pieces, Expr.nodes, left.openings_pieces, right.openings_pieces]
    omega
  | .unary .neg operand => by
    simp [Expr.pieces, Expr.nodes, operand.openings_pieces]
    omega
  | .unary .not operand => by
    simp [Expr.pieces, Expr.nodes, operand.openings_pieces]
    omega
  | .paren inner => by
    simp [Expr.pieces, Expr.nodes, inner.openings_pieces]
    omega
  | .isNull operand _ => by simp [Expr.pieces, Expr.nodes, operand.openings_pieces]
  | .inList operand list _ => by
    simp [Expr.pieces, Expr.nodes, operand.openings_pieces, openings_exprsPieces list]
    omega
  | .between operand low high _ => by
    simp [Expr.pieces, Expr.nodes, operand.openings_pieces, low.openings_pieces,
      high.openings_pieces]
  | .caseOf operand clauses otherwise => by
    simp [Expr.pieces, Expr.nodes, openings_optionalPieces, openings_clausesPieces clauses]
  | .cast operand t => by
    simp [Expr.pieces, Expr.nodes, operand.openings_pieces, t.openings_pieces]
    omega
  | .call function => by simp [Expr.pieces, Expr.nodes, function.openings_pieces]
  | .subquery query => by
    simp [Expr.pieces, Expr.nodes, query.openings_pieces]
    omega
  | .existsRow query => by
    simp [Expr.pieces, Expr.nodes, query.openings_pieces]
    omega

theorem openings_optionalPieces (lead : List Piece) (hlead : openings lead = 0) :
    ∀ o : Option Expr, openings (optionalPieces quote lead o) = parensOf (optionalNodes o)
  | none => rfl
  | some e => by simp [optionalPieces, optionalNodes, hlead, e.openings_pieces]

theorem openings_exprsPieces : ∀ list : List Expr,
    ((exprsPieces quote list).map openings).sum = parensOf (exprsNodes list)
  | [] => rfl
  | e :: rest => by simp [exprsPieces, exprsNodes, e.openings_pieces, openings_exprsPieces rest]

theorem openings_clausesPieces : ∀ clauses : List WhenClause,
    openings (clausesPieces quote clauses) = parensOf (clausesNodes clauses)
  | [] => rfl
  | ⟨condition, result⟩ :: rest => by
    simp [clausesPieces, clausesNodes, condition.openings_pieces, result.openings_pieces,
      openings_clausesPieces rest]

theorem Call.openings_pieces : ∀ c : Call, openings (c.pieces quote) = parensOf c.nodes
  | ⟨_, arguments, distinct, ignoreNulls, window⟩ => by
    cases distinct <;> cases ignoreNulls <;>
      simp [Call.pieces, Call.nodes, openings_exprsPieces arguments,
        openings_windowPieces window] <;>
      omega

theorem openings_windowPieces : ∀ window : Option Window,
    openings (windowPieces quote window) = window.isSome.toNat + parensOf (windowNodes window)
  | none => rfl
  | some ⟨partition, order⟩ => by
    have hpartition := openings_exprsPieces partition
    have horder := openings_itemsPieces order
    cases partition <;> cases order <;>
      simp_all [windowPieces, windowNodes, exprsNodes, itemsNodes] <;>
      omega

theorem openings_itemsPieces : ∀ items : List OrderItem,
    ((itemsPieces quote items).map openings).sum = parensOf (itemsNodes items)
  | [] => rfl
  | ⟨key, _, nulls⟩ :: rest => by
    cases nulls <;> simp [itemsPieces, itemsNodes, key.openings_pieces, openings_itemsPieces rest]

theorem openings_keysPieces : ∀ keys : List OrderItem,
    ((keysPieces quote keys).map openings).sum = parensOf (itemsNodes keys)
  | [] => rfl
  | ⟨key, _, _⟩ :: rest => by
    simp [keysPieces, itemsNodes, key.openings_pieces, openings_keysPieces rest]

theorem Select.openings_pieces : ∀ q : Select, openings (q.pieces quote) = parensOf q.nodes
  | ⟨distinct, columns, source, views, filter, groups, having, ordering, limit⟩ => by
    have hgroups := openings_groupsPieces groups
    cases distinct <;> cases groups <;>
      simp_all [Select.pieces, Select.nodes, openings_columnsPieces columns,
        openings_sourcePieces source, openings_viewsPieces views, openings_optionalPieces,
        openings_orderingPieces ordering, groupsNodes]

theorem openings_columnsPieces : ∀ columns : List SelectItem,
    ((columnsPieces quote columns).map openings).sum = parensOf (columnsNodes columns)
  | [] => rfl
  | ⟨value, _⟩ :: rest => by
    simp [columnsPieces, columnsNodes, value.openings_pieces, openings_columnsPieces rest]

theorem openings_sourcePieces : ∀ source : Option Source,
    openings (sourcePieces quote source) = parensOf (sourceNodes source)
  | none => rfl
  | some ⟨relation, joins⟩ => by
    simp [sourcePieces, sourceNodes, relation.openings_pieces, openings_joinsPieces joins]

theorem Relation.openings_pieces : ∀ r : Relation, openings (r.pieces quote) = parensOf r.nodes
  | .table _ _ _ => by simp [Relation.pieces, Relation.nodes]
  | .derived query _ => by
    simp [Relation.pieces, Relation.nodes, query.openings_pieces]
    omega

theorem openings_joinsPieces : ∀ joins : List Join,
    openings (joinsPieces quote joins) = parensOf (joinsNodes joins)
  | [] => rfl
  | ⟨_, relation, condition, columns⟩ :: rest => by
    cases columns <;>
      simp [joinsPieces, joinsNodes, relation.openings_pieces, openings_optionalPieces,
        openings_joinsPieces rest, Nat.add_left_comm]

theorem openings_viewsPieces : ∀ views : List LateralView,
    openings (viewsPieces quote views) = parensOf (viewsNodes views)
  | [] => rfl
  | ⟨outer, generator, _, _⟩ :: rest => by
    cases outer <;>
      simp [viewsPieces, viewsNodes, generator.openings_pieces, openings_viewsPieces rest]

theorem openings_groupsPieces : ∀ groups : List GroupItem,
    ((groupsPieces quote groups).map openings).sum = parensOf (groupsNodes groups)
  | [] => rfl
  | .value key :: rest => by
    simp [groupsPieces, groupsNodes, key.openings_pieces, openings_groupsPieces rest]
  | .ordinal _ :: rest => by simp [groupsPieces, groupsNodes, openings_groupsPieces rest]

theorem openings_orderingPieces : ∀ ordering : Option RowOrdering,
    openings (orderingPieces quote ordering) = parensOf (orderingNodes ordering)
  | none => rfl
  | some (.orderBy items) => by simp [orderingPieces, orderingNodes, openings_itemsPieces items]
  | some (.sortBy items) => by simp [orderingPieces, orderingNodes, openings_itemsPieces items]
  | some (.distributeBy keys sort) => by
    simp [orderingPieces, orderingNodes, openings_keysPieces keys, openings_trailingPieces sort]
  | some (.clusterBy keys sort) => by
    simp [orderingPieces, orderingNodes, openings_keysPieces keys, openings_trailingPieces sort]

theorem openings_trailingPieces : ∀ sort : Option (List OrderItem),
    openings (trailingPieces quote sort) = parensOf (trailingNodes sort)
  | none => rfl
  | some items => by simp [trailingPieces, trailingNodes, openings_itemsPieces items]

end

theorem Statement.openings_pieces : ∀ a : Statement, openings (a.pieces quote) = parensOf a.nodes
  | .select query => query.openings_pieces quote

end SqlDialects
