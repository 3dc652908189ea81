import SqlDialects.Proofs.RoundTrip.Parts
import SqlDialects.Proofs.Tree.Shape

/-!
# The nodes of a canonical tree

Main statement: the lateral views of the canonical tree are the canonical views of the tree, in the
same order. The same holds of nodes of every kind.
-/

namespace SqlDialects

def RowOrdering.canonical : RowOrdering → RowOrdering
  | .orderBy items => .orderBy (itemsCanonical items)
  | .sortBy items => .sortBy (itemsCanonical items)
  | .distributeBy keys sort => .distributeBy (keysCanonical keys) (trailingCanonical sort)
  | .clusterBy keys sort => .clusterBy (keysCanonical keys) (trailingCanonical sort)

def Node.canonical : Node → Node
  | .dataType t => .dataType t
  | .field f => .field f
  | .expr e => .expr e.canonical
  | .call c => .call c.canonical
  | .select q => .select q.canonical
  | .item c => .item c.canonical
  | .relation r => .relation r.canonical
  | .join j => .join j.canonical
  | .view v => .view v.canonical
  | .group g => .group g.canonical
  | .ordering o => .ordering o.canonical

mutual

theorem DataType.map_canonical_nodes : ∀ t : DataType, t.nodes.map Node.canonical = t.nodes
  | .simple _ => rfl
  | .sized _ _ => rfl
  | .array element => by
    rw [DataType.nodes, List.map_cons, element.map_canonical_nodes]
    rfl
  | .map key value => by
    rw [DataType.nodes, List.map_cons, List.map_append, key.map_canonical_nodes,
      value.map_canonical_nodes]
    rfl
  | .struct fields => by
    rw [DataType.nodes, List.map_cons, map_canonical_fieldsNodes fields]
    rfl

theorem map_canonical_fieldsNodes :
    ∀ fields : List StructField, (fieldsNodes fields).map Node.canonical = fieldsNodes fields
  | [] => rfl
  | ⟨_, t⟩ :: rest => by
    rw [fieldsNodes, List.map_cons, List.map_append, t.map_canonical_nodes,
      map_canonical_fieldsNodes rest]
    rfl

end

mutual

theorem Expr.nodes_canonical : ∀ e : Expr, e.canonical.nodes = e.nodes.map Node.canonical
  | .literal _ => rfl
  | .column _ _ => rfl
  | .wildcard _ => rfl
  | .binary left _ right => by
    simp only [Expr.canonical, Expr.nodes, List.map_cons, List.map_append, Node.canonical,
      left.nodes_canonical, right.nodes_canonical]
  | .unary _ operand => by
    simp only [Expr.canonical, Expr.nodes, List.map_cons, Node.canonical, operand.nodes_canonical]
  | .paren inner => by
    simp only [Expr.canonical, Expr.nodes, List.map_cons, Node.canonical, inner.nodes_canonical]
  | .isNull operand _ => by
    simp only [Expr.canonical, Expr.nodes, List.map_cons, Node.canonical, operand.nodes_canonical]
  | .inList operand list _ => by
    simp only [Expr.canonical, Expr.nodes, List.map_cons, List.map_append, Node.canonical,
      operand.nodes_canonical, exprsNodes_canonical list]
  | .between operand low high _ => by
    simp only [Expr.canonical, Expr.nodes, List.map_cons, List.map_append, Node.canonical,
      operand.nodes_canonical, low.nodes_canonical, high.nodes_canonical]
  | .caseOf operand clauses otherwise => by
    simp only [Expr.canonical, Expr.nodes, List.map_cons, List.map_append, Node.canonical,
      optionalNodes_canonical operand, clausesNodes_canonical clauses,
      optionalNodes_canonical otherwise]
  | .cast operand dataType => by
    simp only [Expr.canonical, Expr.nodes, List.map_cons, List.map_append, Node.canonical,
      operand.nodes_canonical, dataType.map_canonical_nodes]
  | .call function => by
    simp only [Expr.canonical, Expr.nodes, List.map_cons, Node.canonical, function.nodes_canonical]
  | .subquery query => by
    simp only [Expr.canonical, Expr.nodes, List.map_cons, Node.canonical, query.nodes_canonical]
  | .existsRow query => by
    simp only [Expr.canonical, Expr.nodes, List.map_cons, Node.canonical, query.nodes_canonical]

theorem optionalNodes_canonical :
    ∀ e : Option Expr, optionalNodes (optionalCanonical e) = (optionalNodes e).map Node.canonical
  | none => rfl
  | some e => by simp only [optionalCanonical, optionalNodes, e.nodes_canonical]

theorem exprsNodes_canonical :
    ∀ list : List Expr, exprsNodes (exprsCanonical list) = (exprsNodes list).map Node.canonical
  | [] => rfl
  | e :: rest => by
    simp only [exprsCanonical, exprsNodes, List.map_append, e.nodes_canonical,
      exprsNodes_canonical rest]

theorem clausesNodes_canonical :
    ∀ clauses : List WhenClause,
      clausesNodes (clausesCanonical clauses) = (clausesNodes clauses).map Node.canonical
  | [] => rfl
  | ⟨condition, result⟩ :: rest => by
    simp only [clausesCanonical, clausesNodes, List.map_append, condition.nodes_canonical,
      result.nodes_canonical, clausesNodes_canonical rest]

theorem Call.nodes_canonical : ∀ c : Call, c.canonical.nodes = c.nodes.map Node.canonical
  | ⟨_, arguments, _, _, window⟩ => by
    simp only [Call.canonical, Call.nodes, List.map_cons, List.map_append, Node.canonical,
      exprsNodes_canonical arguments, windowNodes_canonical window]

theorem windowNodes_canonical :
    ∀ window : Option Window,
      windowNodes (windowCanonical window) = (windowNodes window).map Node.canonical
  | none => rfl
  | some ⟨partition, order⟩ => by
    simp only [windowCanonical, windowNodes, List.map_append, exprsNodes_canonical partition,
      itemsNodes_canonical order]

theorem itemsNodes_canonical :
    ∀ items : List OrderItem, itemsNodes (itemsCanonical items) = (itemsNodes items).map Node.canonical
  | [] => rfl
  | ⟨key, _, _⟩ :: rest => by
    simp only [itemsCanonical, itemsNodes, List.map_append, key.nodes_canonical,
      itemsNodes_canonical rest]

theorem Select.nodes_canonical : ∀ q : Select, q.canonical.nodes = q.nodes.map Node.canonical
  | ⟨_, columns, source, views, filter, groups, having, ordering, limit⟩ => by
    simp only [Select.canonical, Select.nodes, List.map_cons, List.map_append, Node.canonical,
      columnsNodes_canonical columns, sourceNodes_canonical source, viewsNodes_canonical views,
      optionalNodes_canonical filter, groupsNodes_canonical groups, optionalNodes_canonical having,
      orderingNodes_canonical ordering, optionalNodes_canonical limit]

theorem columnsNodes_canonical :
    ∀ columns : List SelectItem,
      columnsNodes (columnsCanonical columns) = (columnsNodes columns).map Node.canonical
  | [] => rfl
  | ⟨value, _⟩ :: rest => by
    simp only [columnsCanonical, columnsNodes, List.map_cons, List.map_append, Node.canonical,
      SelectItem.canonical, value.nodes_canonical, columnsNodes_canonical rest]

theorem sourceNodes_canonical :
    ∀ source : Option Source,
      sourceNodes (sourceCanonical source) = (sourceNodes source).map Node.canonical
  | none => rfl
  | some ⟨relation, joins⟩ => by
    simp only [sourceCanonical, sourceNodes, List.map_append, relation.nodes_canonical,
      joinsNodes_canonical joins]

theorem Relation.nodes_canonical : ∀ r : Relation, r.canonical.nodes = r.nodes.map Node.canonical
  | .table _ _ _ => rfl
  | .derived query _ => by
    simp only [Relation.canonical, Relation.nodes, List.map_cons, Node.canonical,
      query.nodes_canonical]

theorem joinsNodes_canonical :
    ∀ joins : List Join, joinsNodes (joinsCanonical joins) = (joinsNodes joins).map Node.canonical
  | [] => rfl
  | ⟨_, relation, condition, _⟩ :: rest => by
    simp only [joinsCanonical, joinsNodes, List.map_cons, List.map_append, Node.canonical,
      Join.canonical, relation.nodes_canonical, optionalNodes_canonical condition,
      joinsNodes_canonical rest]

theorem viewsNodes_canonical :
    ∀ views : List LateralView,
      viewsNodes (viewsCanonical views) = (viewsNodes views).map Node.canonical
  | [] => rfl
  | ⟨_, generator, _, _⟩ :: rest => by
    simp only [viewsCanonical, viewsNodes, List.map_cons, List.map_append, Node.canonical,
      LateralView.canonical, generator.nodes_canonical, viewsNodes_canonical rest]

theorem groupsNodes_canonical :
    ∀ groups : List GroupItem,
      groupsNodes (groupsCanonical groups) = (groupsNodes groups).map Node.canonical
  | [] => rfl
  | .value key :: rest => by
    simp only [groupsCanonical, groupsNodes, List.map_cons, List.map_append, Node.canonical,
      GroupItem.canonical, key.nodes_canonical, groupsNodes_canonical rest]
  | .ordinal _ :: rest => by
    simp only [groupsCanonical, groupsNodes, List.map_cons, Node.canonical, GroupItem.canonical,
      groupsNodes_canonical rest]

theorem orderingNodes_canonical :
    ∀ ordering : Option RowOrdering,
      orderingNodes (orderingCanonical ordering) = (orderingNodes ordering).map Node.canonical
  | none => rfl
  | some (.orderBy items) => by
    simp only [orderingCanonical, orderingNodes, List.map_cons, Node.canonical,
      RowOrdering.canonical, itemsNodes_canonical items]
  | some (.sortBy items) => by
    simp only [orderingCanonical, orderingNodes, List.map_cons, Node.canonical,
      RowOrdering.canonical, itemsNodes_canonical items]
  | some (.distributeBy keys sort) => by
    simp only [orderingCanonical, orderingNodes, List.map_cons, List.map_append, Node.canonical,
      RowOrdering.canonical, keysNodes_canonical keys, trailingNodes_canonical sort]
  | some (.clusterBy keys sort) => by
    simp only [orderingCanonical, orderingNodes, List.map_cons, List.map_append, Node.canonical,
      RowOrdering.canonical, keysNodes_canonical keys, trailingNodes_canonical sort]

theorem keysNodes_canonical :
    ∀ keys : List OrderItem, itemsNodes (keysCanonical keys) = (itemsNodes keys).map Node.canonical
  | [] => rfl
  | ⟨key, _, _⟩ :: rest => by
    simp only [keysCanonical, itemsNodes, List.map_append, key.nodes_canonical,
      keysNodes_canonical rest]

theorem trailingNodes_canonical :
    ∀ sort : Option (List OrderItem),
      trailingNodes (trailingCanonical sort) = (trailingNodes sort).map Node.canonical
  | none => rfl
  | some items => by simp only [trailingCanonical, trailingNodes, itemsNodes_canonical items]

end

namespace Statement

theorem nodes_canonical (a : Statement) : a.canonical.nodes = a.nodes.map Node.canonical := by
  obtain ⟨query⟩ := a
  exact query.nodes_canonical

theorem views_canonical (a : Statement) : a.canonical.views = a.views.map (·.canonical) := by
  have hview : ∀ n : Node, n.canonical.view? = n.view?.map (·.canonical) := by
    intro n
    cases n <;> rfl
  simp only [views, nodes_canonical, List.filterMap_map, List.map_filterMap, Function.comp_def,
    hview]

end Statement

end SqlDialects
