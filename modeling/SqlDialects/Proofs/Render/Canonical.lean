import SqlDialects.Proofs.Render.Defects
import SqlDialects.Proofs.Tree.Canonical
import SqlDialects.Proofs.Word
import SqlDialects.Render.Statement

/-!
# A tree and its canonical tree are written alike

Main statement: a statement and its canonical tree have the same text, or the same defect.
-/

namespace SqlDialects

open Malformed

theorem isPlainFunction_eq (name : String) :
    isPlainFunction name = (isBareWord name && !Piece.isReservedFunction name) := by
  unfold isPlainFunction Piece.isReservedFunction
  cases Keyword.ofText? name with
  | none => rfl
  | some k => cases k <;> rfl

theorem functionName_canonicalFunction (quote : Char) (name : String) :
    Piece.functionName quote (canonicalFunction name) = Piece.functionName quote name := by
  unfold canonicalFunction
  split
  · have hupper : isPlainFunction name.toUpper = isPlainFunction name := by
      simp [isPlainFunction]
    unfold Piece.functionName
    rw [← isPlainFunction_eq, ← isPlainFunction_eq, hupper, toUpper_toUpper, if_pos ‹_›, if_pos ‹_›]
  · rfl

theorem canonicalFunction_eq_empty {name : String} : canonicalFunction name = "" ↔ name = "" := by
  unfold canonicalFunction
  split
  · rw [← String.toList_inj, ← String.toList_inj, toList_toUpper]
    simp
  · rfl

theorem Expr.looserThan_canonical (e : Expr) (op : BinaryOp) :
    e.canonical.looserThan op = e.looserThan op := by
  cases e <;> rfl

theorem Expr.noTighterThan_canonical (e : Expr) (op : BinaryOp) :
    e.canonical.noTighterThan op = e.noTighterThan op := by
  cases e <;> rfl

theorem Expr.looserThanUnary_canonical (e : Expr) (op : UnaryOp) :
    e.canonical.looserThanUnary op = e.looserThanUnary op := by
  cases e <;> cases op <;> rfl

theorem isLoneQuery_exprsCanonical (list : List Expr) :
    isLoneQuery (exprsCanonical list) = isLoneQuery list := by
  rcases list with _ | ⟨e, _ | ⟨e', rest⟩⟩
  · rfl
  · cases e <;> rfl
  · cases e <;> rfl

section Empty

theorem isEmpty_exprsCanonical (list : List Expr) :
    (exprsCanonical list).isEmpty = list.isEmpty := by
  cases list <;> rfl

theorem isEmpty_itemsCanonical (items : List OrderItem) :
    (itemsCanonical items).isEmpty = items.isEmpty := by
  rcases items with _ | ⟨⟨_, _, _⟩, _⟩ <;> rfl

theorem isEmpty_groupsCanonical (groups : List GroupItem) :
    (groupsCanonical groups).isEmpty = groups.isEmpty := by
  rcases groups with _ | ⟨_ | _, _⟩ <;> rfl

end Empty

variable (quote : Char)

mutual

theorem Expr.pieces_canonical : ∀ e : Expr, e.canonical.pieces quote = e.pieces quote
  | .literal _ => rfl
  | .column _ _ => rfl
  | .wildcard _ => rfl
  | .binary left op right => by
    simp only [Expr.canonical, Expr.pieces, left.pieces_canonical, right.pieces_canonical,
      left.looserThan_canonical, right.noTighterThan_canonical]
  | .unary .neg operand => by
    simp only [Expr.canonical, Expr.pieces, operand.pieces_canonical,
      operand.looserThanUnary_canonical]
  | .unary .not operand => by
    simp only [Expr.canonical, Expr.pieces, operand.pieces_canonical,
      operand.looserThanUnary_canonical]
  | .paren inner => by simp only [Expr.canonical, Expr.pieces, inner.pieces_canonical]
  | .isNull operand _ => by simp only [Expr.canonical, Expr.pieces, operand.pieces_canonical]
  | .inList operand list _ => by
    simp only [Expr.canonical, Expr.pieces, operand.pieces_canonical, exprsPieces_canonical list,
      isLoneQuery_exprsCanonical]
  | .between operand low high _ => by
    simp only [Expr.canonical, Expr.pieces, operand.pieces_canonical, low.pieces_canonical,
      high.pieces_canonical]
  | .caseOf operand clauses otherwise => by
    simp only [Expr.canonical, Expr.pieces, optionalPieces_canonical _ operand,
      clausesPieces_canonical clauses, optionalPieces_canonical _ otherwise]
  | .cast operand _ => by simp only [Expr.canonical, Expr.pieces, operand.pieces_canonical]
  | .call function => by simp only [Expr.canonical, Expr.pieces, function.pieces_canonical]
  | .subquery query => by simp only [Expr.canonical, Expr.pieces, query.pieces_canonical]
  | .existsRow query => by simp only [Expr.canonical, Expr.pieces, query.pieces_canonical]

theorem optionalPieces_canonical (lead : List Piece) :
    ∀ e : Option Expr, optionalPieces quote lead (optionalCanonical e) = optionalPieces quote lead e
  | none => rfl
  | some e => by simp only [optionalCanonical, optionalPieces, e.pieces_canonical]

theorem exprsPieces_canonical :
    ∀ list : List Expr, exprsPieces quote (exprsCanonical list) = exprsPieces quote list
  | [] => rfl
  | e :: rest => by
    simp only [exprsCanonical, exprsPieces, e.pieces_canonical, exprsPieces_canonical rest]

theorem clausesPieces_canonical :
    ∀ clauses : List WhenClause,
      clausesPieces quote (clausesCanonical clauses) = clausesPieces quote clauses
  | [] => rfl
  | ⟨condition, result⟩ :: rest => by
    simp only [clausesCanonical, clausesPieces, condition.pieces_canonical,
      result.pieces_canonical, clausesPieces_canonical rest]

theorem Call.pieces_canonical : ∀ c : Call, c.canonical.pieces quote = c.pieces quote
  | ⟨name, arguments, _, _, window⟩ => by
    simp only [Call.canonical, Call.pieces, functionName_canonicalFunction,
      exprsPieces_canonical arguments, windowPieces_canonical window]

theorem windowPieces_canonical :
    ∀ window : Option Window, windowPieces quote (windowCanonical window) = windowPieces quote window
  | none => rfl
  | some ⟨partition, order⟩ => by
    simp only [windowCanonical, windowPieces, exprsPieces_canonical partition,
      itemsPieces_canonical order, isEmpty_exprsCanonical, isEmpty_itemsCanonical]

theorem itemsPieces_canonical :
    ∀ items : List OrderItem, itemsPieces quote (itemsCanonical items) = itemsPieces quote items
  | [] => rfl
  | ⟨key, _, _⟩ :: rest => by
    simp only [itemsCanonical, itemsPieces, key.pieces_canonical, itemsPieces_canonical rest,
      Option.getD_some]

theorem Select.pieces_canonical : ∀ q : Select, q.canonical.pieces quote = q.pieces quote
  | ⟨_, columns, source, views, filter, groups, having, ordering, limit⟩ => by
    simp only [Select.canonical, Select.pieces, columnsPieces_canonical columns,
      sourcePieces_canonical source, viewsPieces_canonical views, optionalPieces_canonical _ filter,
      groupsPieces_canonical groups, optionalPieces_canonical _ having,
      orderingPieces_canonical ordering, optionalPieces_canonical _ limit, isEmpty_groupsCanonical]

theorem columnsPieces_canonical :
    ∀ columns : List SelectItem,
      columnsPieces quote (columnsCanonical columns) = columnsPieces quote columns
  | [] => rfl
  | ⟨value, _⟩ :: rest => by
    simp only [columnsCanonical, columnsPieces, value.pieces_canonical,
      columnsPieces_canonical rest]

theorem sourcePieces_canonical :
    ∀ source : Option Source, sourcePieces quote (sourceCanonical source) = sourcePieces quote source
  | none => rfl
  | some ⟨relation, joins⟩ => by
    simp only [sourceCanonical, sourcePieces, relation.pieces_canonical,
      joinsPieces_canonical joins]

theorem Relation.pieces_canonical : ∀ r : Relation, r.canonical.pieces quote = r.pieces quote
  | .table _ _ _ => rfl
  | .derived query _ => by simp only [Relation.canonical, Relation.pieces, query.pieces_canonical]

theorem joinsPieces_canonical :
    ∀ joins : List Join, joinsPieces quote (joinsCanonical joins) = joinsPieces quote joins
  | [] => rfl
  | ⟨_, relation, condition, _⟩ :: rest => by
    simp only [joinsCanonical, joinsPieces, relation.pieces_canonical,
      optionalPieces_canonical _ condition, joinsPieces_canonical rest]

theorem viewsPieces_canonical :
    ∀ views : List LateralView, viewsPieces quote (viewsCanonical views) = viewsPieces quote views
  | [] => rfl
  | ⟨_, generator, _, _⟩ :: rest => by
    simp only [viewsCanonical, viewsPieces, generator.pieces_canonical, viewsPieces_canonical rest]

theorem groupsPieces_canonical :
    ∀ groups : List GroupItem,
      groupsPieces quote (groupsCanonical groups) = groupsPieces quote groups
  | [] => rfl
  | .value key :: rest => by
    simp only [groupsCanonical, groupsPieces, key.pieces_canonical, groupsPieces_canonical rest]
  | .ordinal _ :: rest => by
    simp only [groupsCanonical, groupsPieces, groupsPieces_canonical rest]

theorem orderingPieces_canonical :
    ∀ ordering : Option RowOrdering,
      orderingPieces quote (orderingCanonical ordering) = orderingPieces quote ordering
  | none => rfl
  | some (.orderBy items) => by
    simp only [orderingCanonical, orderingPieces, itemsPieces_canonical items]
  | some (.sortBy items) => by
    simp only [orderingCanonical, orderingPieces, itemsPieces_canonical items]
  | some (.distributeBy keys sort) => by
    simp only [orderingCanonical, orderingPieces, keysPieces_canonical keys,
      trailingPieces_canonical sort]
  | some (.clusterBy keys sort) => by
    simp only [orderingCanonical, orderingPieces, keysPieces_canonical keys,
      trailingPieces_canonical sort]

theorem keysPieces_canonical :
    ∀ keys : List OrderItem, keysPieces quote (keysCanonical keys) = keysPieces quote keys
  | [] => rfl
  | ⟨key, _, _⟩ :: rest => by
    simp only [keysCanonical, keysPieces, key.pieces_canonical, keysPieces_canonical rest]

theorem trailingPieces_canonical :
    ∀ sort : Option (List OrderItem),
      trailingPieces quote (trailingCanonical sort) = trailingPieces quote sort
  | none => rfl
  | some items => by simp only [trailingCanonical, trailingPieces, itemsPieces_canonical items]

end

theorem isEmpty_clausesCanonical (clauses : List WhenClause) :
    (clausesCanonical clauses).isEmpty = clauses.isEmpty := by
  rcases clauses with _ | ⟨⟨_, _⟩, _⟩ <;> rfl

theorem isEmpty_columnsCanonical (columns : List SelectItem) :
    (columnsCanonical columns).isEmpty = columns.isEmpty := by
  rcases columns with _ | ⟨⟨_, _⟩, _⟩ <;> rfl

theorem isEmpty_viewsCanonical (views : List LateralView) :
    (viewsCanonical views).isEmpty = views.isEmpty := by
  rcases views with _ | ⟨⟨_, _, _, _⟩, _⟩ <;> rfl

theorem isEmpty_keysCanonical (keys : List OrderItem) :
    (keysCanonical keys).isEmpty = keys.isEmpty := by
  rcases keys with _ | ⟨⟨_, _, _⟩, _⟩ <;> rfl

theorem isSome_optionalCanonical (e : Option Expr) :
    (optionalCanonical e).isSome = e.isSome := by
  cases e <;> rfl

theorem isNone_sourceCanonical (source : Option Source) :
    (sourceCanonical source).isNone = source.isNone := by
  rcases source with _ | ⟨⟨_, _⟩⟩ <;> rfl

mutual

theorem Expr.defect?_canonical : ∀ e : Expr, e.canonical.defect? = e.defect?
  | .literal _ => rfl
  | .column _ _ => rfl
  | .wildcard _ => rfl
  | .binary left op right => by
    simp only [Expr.canonical, Expr.defect?, left.defect?_canonical, right.defect?_canonical]
  | .unary _ operand => by simp only [Expr.canonical, Expr.defect?, operand.defect?_canonical]
  | .paren inner => by simp only [Expr.canonical, Expr.defect?, inner.defect?_canonical]
  | .isNull operand _ => by simp only [Expr.canonical, Expr.defect?, operand.defect?_canonical]
  | .inList operand list _ => by
    simp only [Expr.canonical, Expr.defect?, operand.defect?_canonical,
      exprsDefect?_canonical list, isEmpty_exprsCanonical]
  | .between operand low high _ => by
    simp only [Expr.canonical, Expr.defect?, operand.defect?_canonical, low.defect?_canonical,
      high.defect?_canonical]
  | .caseOf operand clauses otherwise => by
    simp only [Expr.canonical, Expr.defect?, optionalDefect?_canonical operand,
      clausesDefect?_canonical clauses, optionalDefect?_canonical otherwise,
      isEmpty_clausesCanonical]
  | .cast operand _ => by simp only [Expr.canonical, Expr.defect?, operand.defect?_canonical]
  | .call function => by simp only [Expr.canonical, Expr.defect?, function.defect?_canonical]
  | .subquery query => by simp only [Expr.canonical, Expr.defect?, query.defect?_canonical]
  | .existsRow query => by simp only [Expr.canonical, Expr.defect?, query.defect?_canonical]

theorem optionalDefect?_canonical :
    ∀ e : Option Expr, optionalDefect? (optionalCanonical e) = optionalDefect? e
  | none => rfl
  | some e => by simp only [optionalCanonical, optionalDefect?, e.defect?_canonical]

theorem exprsDefect?_canonical :
    ∀ list : List Expr, exprsDefect? (exprsCanonical list) = exprsDefect? list
  | [] => rfl
  | e :: rest => by
    simp only [exprsCanonical, exprsDefect?, e.defect?_canonical, exprsDefect?_canonical rest]

theorem clausesDefect?_canonical :
    ∀ clauses : List WhenClause, clausesDefect? (clausesCanonical clauses) = clausesDefect? clauses
  | [] => rfl
  | ⟨condition, result⟩ :: rest => by
    simp only [clausesCanonical, clausesDefect?, condition.defect?_canonical,
      result.defect?_canonical, clausesDefect?_canonical rest]

theorem Call.defect?_canonical : ∀ c : Call, c.canonical.defect? = c.defect?
  | ⟨name, arguments, _, _, window⟩ => by
    simp only [Call.canonical, Call.defect?, canonicalFunction_eq_empty,
      exprsDefect?_canonical arguments, windowDefect?_canonical window, isEmpty_exprsCanonical]

theorem windowDefect?_canonical :
    ∀ window : Option Window, windowDefect? (windowCanonical window) = windowDefect? window
  | none => rfl
  | some ⟨partition, order⟩ => by
    simp only [windowCanonical, windowDefect?, exprsDefect?_canonical partition,
      itemsDefect?_canonical order]

theorem itemsDefect?_canonical :
    ∀ items : List OrderItem, itemsDefect? (itemsCanonical items) = itemsDefect? items
  | [] => rfl
  | ⟨key, _, _⟩ :: rest => by
    simp only [itemsCanonical, itemsDefect?, key.defect?_canonical, itemsDefect?_canonical rest]

theorem Select.defect?_canonical : ∀ q : Select, q.canonical.defect? = q.defect?
  | ⟨_, columns, source, views, filter, groups, having, ordering, limit⟩ => by
    simp only [Select.canonical, Select.defect?, columnsDefect?_canonical columns,
      sourceDefect?_canonical source, viewsDefect?_canonical views,
      optionalDefect?_canonical filter, groupsDefect?_canonical groups,
      optionalDefect?_canonical having, orderingDefect?_canonical ordering,
      optionalDefect?_canonical limit, isEmpty_columnsCanonical, isEmpty_viewsCanonical,
      isNone_sourceCanonical]

theorem columnsDefect?_canonical :
    ∀ columns : List SelectItem, columnsDefect? (columnsCanonical columns) = columnsDefect? columns
  | [] => rfl
  | ⟨value, _⟩ :: rest => by
    simp only [columnsCanonical, columnsDefect?, value.defect?_canonical,
      columnsDefect?_canonical rest]

theorem sourceDefect?_canonical :
    ∀ source : Option Source, sourceDefect? (sourceCanonical source) = sourceDefect? source
  | none => rfl
  | some ⟨relation, joins⟩ => by
    simp only [sourceCanonical, sourceDefect?, relation.defect?_canonical,
      joinsDefect?_canonical joins]

theorem Relation.defect?_canonical : ∀ r : Relation, r.canonical.defect? = r.defect?
  | .table _ _ _ => rfl
  | .derived query _ => by
    simp only [Relation.canonical, Relation.defect?, query.defect?_canonical]

theorem joinsDefect?_canonical :
    ∀ joins : List Join, joinsDefect? (joinsCanonical joins) = joinsDefect? joins
  | [] => rfl
  | ⟨_, relation, condition, _⟩ :: rest => by
    simp only [joinsCanonical, joinsDefect?, relation.defect?_canonical,
      optionalDefect?_canonical condition, joinsDefect?_canonical rest, isSome_optionalCanonical]

theorem viewsDefect?_canonical :
    ∀ views : List LateralView, viewsDefect? (viewsCanonical views) = viewsDefect? views
  | [] => rfl
  | ⟨_, generator, _, _⟩ :: rest => by
    simp only [viewsCanonical, viewsDefect?, generator.defect?_canonical,
      viewsDefect?_canonical rest]

theorem groupsDefect?_canonical :
    ∀ groups : List GroupItem, groupsDefect? (groupsCanonical groups) = groupsDefect? groups
  | [] => rfl
  | .value key :: rest => by
    simp only [groupsCanonical, groupsDefect?, key.defect?_canonical, groupsDefect?_canonical rest]
  | .ordinal _ :: rest => by
    simp only [groupsCanonical, groupsDefect?, groupsDefect?_canonical rest]

theorem orderingDefect?_canonical :
    ∀ ordering : Option RowOrdering,
      orderingDefect? (orderingCanonical ordering) = orderingDefect? ordering
  | none => rfl
  | some (.orderBy items) => by
    simp only [orderingCanonical, orderingDefect?, itemsDefect?_canonical items,
      isEmpty_itemsCanonical]
  | some (.sortBy items) => by
    simp only [orderingCanonical, orderingDefect?, itemsDefect?_canonical items,
      isEmpty_itemsCanonical]
  | some (.distributeBy keys sort) => by
    simp only [orderingCanonical, orderingDefect?, keysDefect?_canonical keys,
      trailingDefect?_canonical sort, isEmpty_keysCanonical]
  | some (.clusterBy keys sort) => by
    simp only [orderingCanonical, orderingDefect?, keysDefect?_canonical keys,
      trailingDefect?_canonical sort, isEmpty_keysCanonical]

theorem keysDefect?_canonical :
    ∀ keys : List OrderItem, itemsDefect? (keysCanonical keys) = itemsDefect? keys
  | [] => rfl
  | ⟨key, _, _⟩ :: rest => by
    simp only [keysCanonical, itemsDefect?, key.defect?_canonical, keysDefect?_canonical rest]

theorem trailingDefect?_canonical :
    ∀ sort : Option (List OrderItem), trailingDefect? (trailingCanonical sort) = trailingDefect? sort
  | none => rfl
  | some items => by
    simp only [trailingCanonical, trailingDefect?, itemsDefect?_canonical items,
      isEmpty_itemsCanonical]

end

/-- A statement and its canonical tree have the same text, or the same defect. -/
theorem Statement.render_canonical (d : Dialect) (a : Statement) :
    a.canonical.render d = a.render d := by
  obtain ⟨query⟩ := a
  simp only [canonical, render, defect?, pieces, query.defect?_canonical, query.pieces_canonical]

end SqlDialects
