import SqlDialects.Tree.Basic

/-!
# The nodes of a syntax tree

All parts of a tree at any depth, each before the parts it holds and in the order in which they are
written. A property of a whole tree is a property of each of its nodes.
-/

namespace SqlDialects

inductive Node where
  | dataType (t : DataType)
  | field (f : StructField)
  | expr (e : Expr)
  | call (c : Call)
  | select (q : Select)
  | item (c : SelectItem)
  | relation (r : Relation)
  | join (j : Join)
  | view (v : LateralView)
  | group (g : GroupItem)
  | ordering (o : RowOrdering)

mutual

def DataType.nodes : DataType → List Node
  | t@(.simple _) => [.dataType t]
  | t@(.sized _ _) => [.dataType t]
  | t@(.array element) => .dataType t :: element.nodes
  | t@(.map key value) => .dataType t :: (key.nodes ++ value.nodes)
  | t@(.struct fields) => .dataType t :: fieldsNodes fields

def fieldsNodes : List StructField → List Node
  | [] => []
  | f@⟨_, dataType⟩ :: rest => .field f :: (dataType.nodes ++ fieldsNodes rest)

end

mutual

def Expr.nodes : Expr → List Node
  | e@(.literal _) => [.expr e]
  | e@(.column _ _) => [.expr e]
  | e@(.wildcard _) => [.expr e]
  | e@(.binary left _ right) => .expr e :: (left.nodes ++ right.nodes)
  | e@(.unary _ operand) => .expr e :: operand.nodes
  | e@(.paren inner) => .expr e :: inner.nodes
  | e@(.isNull operand _) => .expr e :: operand.nodes
  | e@(.inList operand list _) => .expr e :: (operand.nodes ++ exprsNodes list)
  | e@(.between operand low high _) => .expr e :: (operand.nodes ++ (low.nodes ++ high.nodes))
  | e@(.caseOf operand clauses otherwise) =>
    .expr e :: (optionalNodes operand ++ (clausesNodes clauses ++ optionalNodes otherwise))
  | e@(.cast operand dataType) => .expr e :: (operand.nodes ++ dataType.nodes)
  | e@(.call function) => .expr e :: function.nodes
  | e@(.subquery query) => .expr e :: query.nodes
  | e@(.existsRow query) => .expr e :: query.nodes

def optionalNodes : Option Expr → List Node
  | none => []
  | some e => e.nodes

def exprsNodes : List Expr → List Node
  | [] => []
  | e :: rest => e.nodes ++ exprsNodes rest

def clausesNodes : List WhenClause → List Node
  | [] => []
  | ⟨condition, result⟩ :: rest => condition.nodes ++ (result.nodes ++ clausesNodes rest)

def Call.nodes : Call → List Node
  | c@⟨_, arguments, _, _, window⟩ => .call c :: (exprsNodes arguments ++ windowNodes window)

def windowNodes : Option Window → List Node
  | none => []
  | some ⟨partition, order⟩ => exprsNodes partition ++ itemsNodes order

def itemsNodes : List OrderItem → List Node
  | [] => []
  | ⟨key, _, _⟩ :: rest => key.nodes ++ itemsNodes rest

def Select.nodes : Select → List Node
  | q@⟨_, columns, source, views, filter, groups, having, ordering, limit⟩ =>
    .select q :: (columnsNodes columns ++ (sourceNodes source ++ (viewsNodes views ++
      (optionalNodes filter ++ (groupsNodes groups ++ (optionalNodes having ++
        (orderingNodes ordering ++ optionalNodes limit)))))))

def columnsNodes : List SelectItem → List Node
  | [] => []
  | c@⟨value, _⟩ :: rest => .item c :: (value.nodes ++ columnsNodes rest)

def sourceNodes : Option Source → List Node
  | none => []
  | some ⟨relation, joins⟩ => relation.nodes ++ joinsNodes joins

def Relation.nodes : Relation → List Node
  | r@(.table _ _ _) => [.relation r]
  | r@(.derived query _) => .relation r :: query.nodes

def joinsNodes : List Join → List Node
  | [] => []
  | j@⟨_, relation, condition, _⟩ :: rest =>
    .join j :: (relation.nodes ++ (optionalNodes condition ++ joinsNodes rest))

def viewsNodes : List LateralView → List Node
  | [] => []
  | v@⟨_, generator, _, _⟩ :: rest => .view v :: (generator.nodes ++ viewsNodes rest)

def groupsNodes : List GroupItem → List Node
  | [] => []
  | g@(.value key) :: rest => .group g :: (key.nodes ++ groupsNodes rest)
  | g@(.ordinal _) :: rest => .group g :: groupsNodes rest

def orderingNodes : Option RowOrdering → List Node
  | none => []
  | some o@(.orderBy items) => .ordering o :: itemsNodes items
  | some o@(.sortBy items) => .ordering o :: itemsNodes items
  | some o@(.distributeBy keys sort) => .ordering o :: (itemsNodes keys ++ trailingNodes sort)
  | some o@(.clusterBy keys sort) => .ordering o :: (itemsNodes keys ++ trailingNodes sort)

def trailingNodes : Option (List OrderItem) → List Node
  | none => []
  | some items => itemsNodes items

end

def Statement.nodes : Statement → List Node
  | .select query => query.nodes

/-! ## Lists and options -/

variable {P : Node → Prop}

@[simp] theorem forall_fieldsNodes {fields : List StructField} :
    (∀ n ∈ fieldsNodes fields, P n) ↔
      ∀ f ∈ fields, P (.field f) ∧ ∀ n ∈ f.dataType.nodes, P n := by
  induction fields with
  | nil => simp [fieldsNodes]
  | cons f rest ih =>
    cases f
    simp only [fieldsNodes, List.forall_mem_cons, List.forall_mem_append, ih, and_assoc]

@[simp] theorem forall_optionalNodes {e : Option Expr} :
    (∀ n ∈ optionalNodes e, P n) ↔ ∀ x ∈ e, ∀ n ∈ x.nodes, P n := by
  cases e <;> simp [optionalNodes]

@[simp] theorem forall_exprsNodes {list : List Expr} :
    (∀ n ∈ exprsNodes list, P n) ↔ ∀ e ∈ list, ∀ n ∈ e.nodes, P n := by
  induction list with
  | nil => simp [exprsNodes]
  | cons e rest ih => simp only [exprsNodes, List.forall_mem_cons, List.forall_mem_append, ih]

@[simp] theorem forall_clausesNodes {clauses : List WhenClause} :
    (∀ n ∈ clausesNodes clauses, P n) ↔
      ∀ c ∈ clauses, (∀ n ∈ c.condition.nodes, P n) ∧ ∀ n ∈ c.result.nodes, P n := by
  induction clauses with
  | nil => simp [clausesNodes]
  | cons c rest ih =>
    cases c
    simp only [clausesNodes, List.forall_mem_cons, List.forall_mem_append, ih, and_assoc]

@[simp] theorem forall_windowNodes {window : Option Window} :
    (∀ n ∈ windowNodes window, P n) ↔
      ∀ w ∈ window, (∀ n ∈ exprsNodes w.partition, P n) ∧ ∀ n ∈ itemsNodes w.order, P n := by
  rcases window with _ | ⟨⟨partition, order⟩⟩ <;> simp [windowNodes, or_imp, forall_and]

@[simp] theorem forall_itemsNodes {items : List OrderItem} :
    (∀ n ∈ itemsNodes items, P n) ↔ ∀ i ∈ items, ∀ n ∈ i.key.nodes, P n := by
  induction items with
  | nil => simp [itemsNodes]
  | cons i rest ih =>
    cases i
    simp only [itemsNodes, List.forall_mem_cons, List.forall_mem_append, ih]

@[simp] theorem forall_columnsNodes {columns : List SelectItem} :
    (∀ n ∈ columnsNodes columns, P n) ↔
      ∀ c ∈ columns, P (.item c) ∧ ∀ n ∈ c.value.nodes, P n := by
  induction columns with
  | nil => simp [columnsNodes]
  | cons c rest ih =>
    cases c
    simp only [columnsNodes, List.forall_mem_cons, List.forall_mem_append, ih, and_assoc]

@[simp] theorem forall_sourceNodes {source : Option Source} :
    (∀ n ∈ sourceNodes source, P n) ↔
      ∀ s ∈ source, (∀ n ∈ s.relation.nodes, P n) ∧ ∀ n ∈ joinsNodes s.joins, P n := by
  rcases source with _ | ⟨⟨relation, joins⟩⟩ <;> simp [sourceNodes, or_imp, forall_and]

@[simp] theorem forall_joinsNodes {joins : List Join} :
    (∀ n ∈ joinsNodes joins, P n) ↔
      ∀ j ∈ joins, P (.join j) ∧ (∀ n ∈ j.relation.nodes, P n) ∧
        ∀ n ∈ optionalNodes j.condition, P n := by
  induction joins with
  | nil => simp [joinsNodes]
  | cons j rest ih =>
    cases j
    simp only [joinsNodes, List.forall_mem_cons, List.forall_mem_append, ih, and_assoc]

@[simp] theorem forall_viewsNodes {views : List LateralView} :
    (∀ n ∈ viewsNodes views, P n) ↔
      ∀ v ∈ views, P (.view v) ∧ ∀ n ∈ v.generator.nodes, P n := by
  induction views with
  | nil => simp [viewsNodes]
  | cons v rest ih =>
    cases v
    simp only [viewsNodes, List.forall_mem_cons, List.forall_mem_append, ih, and_assoc]

/-- The parts of an entry behind `GROUP BY`. -/
def GroupItem.nodes : GroupItem → List Node
  | .value key => .group (.value key) :: key.nodes
  | .ordinal position => [.group (.ordinal position)]

@[simp] theorem forall_groupsNodes {groups : List GroupItem} :
    (∀ n ∈ groupsNodes groups, P n) ↔ ∀ g ∈ groups, ∀ n ∈ g.nodes, P n := by
  induction groups with
  | nil => simp [groupsNodes]
  | cons g rest ih =>
    cases g <;>
      simp [groupsNodes, GroupItem.nodes, List.forall_mem_cons, List.forall_mem_append, ih, and_assoc,
        -List.mem_append, -List.mem_cons]

@[simp] theorem forall_trailingNodes {sort : Option (List OrderItem)} :
    (∀ n ∈ trailingNodes sort, P n) ↔ ∀ items ∈ sort, ∀ n ∈ itemsNodes items, P n := by
  cases sort <;> simp [trailingNodes]

/-! ## Types -/

mutual

/-- The nodes of a type are types and their fields. -/
theorem DataType.forall_nodes (ht : ∀ t, P (.dataType t)) (hf : ∀ f, P (.field f)) :
    ∀ t : DataType, ∀ n ∈ t.nodes, P n
  | .simple _ => by simpa [DataType.nodes] using ht _
  | .sized _ _ => by simpa [DataType.nodes] using ht _
  | .array element => by
    rw [DataType.nodes, List.forall_mem_cons]
    exact ⟨ht _, element.forall_nodes ht hf⟩
  | .map key value => by
    rw [DataType.nodes, List.forall_mem_cons, List.forall_mem_append]
    exact ⟨ht _, key.forall_nodes ht hf, value.forall_nodes ht hf⟩
  | .struct fields => by
    rw [DataType.nodes, List.forall_mem_cons]
    exact ⟨ht _, forall_nodes_of_fields ht hf fields⟩

theorem forall_nodes_of_fields (ht : ∀ t, P (.dataType t)) (hf : ∀ f, P (.field f)) :
    ∀ fields : List StructField, ∀ n ∈ fieldsNodes fields, P n
  | [] => by simp [fieldsNodes]
  | ⟨_, t⟩ :: rest => by
    rw [fieldsNodes, List.forall_mem_cons, List.forall_mem_append]
    exact ⟨hf _, t.forall_nodes ht hf, forall_nodes_of_fields ht hf rest⟩

end

end SqlDialects
