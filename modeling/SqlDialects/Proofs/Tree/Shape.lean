import SqlDialects.Proofs.Tree.Nodes

/-!
# The shape of a statement

What a tree has at a node beyond its type: the names that are written there, lists that are not
empty where a clause needs an entry, and nothing that has no written form.
-/

namespace SqlDialects

namespace Node

/-- The names that are written at a node itself. -/
def names : Node → List String
  | .dataType (.simple name) => [name]
  | .dataType (.sized name _) => [name]
  | .field f => [f.name]
  | .expr (.column qualifier name) => qualifier ++ [name]
  | .expr (.wildcard qualifier) => qualifier
  | .call c => [c.name]
  | .item c => c.label.toList
  | .relation (.table schema name label) => schema.toList ++ (name :: label.toList)
  | .relation (.derived _ label) => label.toList
  | .join j => j.columns
  | .view v => v.table :: v.columns
  | _ => []

def view? : Node → Option LateralView
  | .view v => some v
  | _ => none

/-- Nothing that the written form of a node needs is missing, and nothing is there that it has no
place for. -/
@[simp] def Complete : Node → Prop
  | .dataType (.sized _ parameters) => parameters ≠ []
  | .expr (.inList _ list _) => list ≠ []
  | .expr (.caseOf _ clauses _) => clauses ≠ []
  | .call c => c.distinct = true → c.arguments ≠ []
  | .select q => q.columns ≠ [] ∧ (q.views ≠ [] → q.source ≠ none)
  | .join j =>
    (j.type = .cross → j.condition = none ∧ j.columns = []) ∧
      (j.condition ≠ none → j.columns = [])
  | .view v => v.columns ≠ []
  | .group (.ordinal position) => position ≠ 0
  | .ordering (.orderBy items) => items ≠ []
  | .ordering (.sortBy items) => items ≠ []
  | .ordering (.distributeBy keys sort) => keys ≠ [] ∧ sort ≠ some []
  | .ordering (.clusterBy keys sort) => keys ≠ [] ∧ sort ≠ some []
  | _ => True

end Node

/-- A key of a distribution, which has neither a direction nor a place for nulls. -/
@[simp] def OrderItem.IsPlain (item : OrderItem) : Prop :=
  item.direction = none ∧ item.nulls = none

namespace Node

/-- What is written at a node can be told from everything else that is written like it: a position
is no expression, type names are upper case, and keys of a distribution have no direction. -/
@[simp] def Tidy : Node → Prop
  | .dataType (.simple name) => name.toUpper = name
  | .dataType (.sized name _) => name.toUpper = name
  | .group (.ordinal position) => position.toNat < 0x8000000000000000
  | .group (.value (.literal (.integer n))) => n.toInt ≤ 0
  | .ordering (.distributeBy keys _) => ∀ k ∈ keys, k.IsPlain
  | .ordering (.clusterBy keys _) => ∀ k ∈ keys, k.IsPlain
  | _ => True

end Node

namespace Statement

/-- The names of a statement, in the order in which they are written. -/
def names (s : Statement) : List String :=
  s.nodes.flatMap Node.names

/-- The lateral views of a statement at any depth. -/
def views (s : Statement) : List LateralView :=
  s.nodes.filterMap Node.view?

end Statement

end SqlDialects
