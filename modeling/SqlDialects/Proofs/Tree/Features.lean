import SqlDialects.Dialect
import SqlDialects.Proofs.Tree.Nodes

/-!
# The features that a tree uses
-/

namespace SqlDialects

def BinaryOp.feature? : BinaryOp → Option Dialect.Feature
  | .ilike | .notIlike => some .ilike
  | .rlike | .notRlike => some .rlike
  | _ => none

def JoinType.feature? : JoinType → Option Dialect.Feature
  | .leftSemi => some .leftSemiJoin
  | .leftAnti => some .leftAntiJoin
  | _ => none

/-- The list behind `SORT BY` that follows the keys of another clause. -/
def RowOrdering.trailingSort? : RowOrdering → Option (List OrderItem)
  | .orderBy _ => none
  | .sortBy _ => none
  | .distributeBy _ sort => sort
  | .clusterBy _ sort => sort

/-- A dialect has what is written at a node. -/
@[simp] def Node.SupportedBy (d : Dialect) : Node → Prop
  | .expr (.binary _ op _) => ∀ f ∈ op.feature?, d.supports f = true
  | .join j => ∀ f ∈ j.type.feature?, d.supports f = true
  | .view _ => d.supports .lateralView = true
  | .ordering o =>
    d.supports (.ordering o.kind) = true ∧
      (o.trailingSort? ≠ none → d.allowsSortAfter o.kind = true)
  | _ => True

end SqlDialects
