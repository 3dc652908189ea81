import SqlDialects.Quoting
import SqlDialects.Tree.Spelling
import SqlDialects.Unicode.WhiteSpace

/-!
# Dialects

A dialect says how names are quoted and which constructs exist in it. Two are known by name; any
other combination of capabilities is a dialect as well.
-/

namespace SqlDialects

structure Dialect where
  name : String
  identifierQuote : Char
  /-- Text in double quotes is a string literal; else it is a quoted name. -/
  doubleQuotedStrings : Bool
  ilike : Bool
  rlike : Bool
  /-- `LEFT SEMI JOIN` and `LEFT ANTI JOIN`. -/
  semiAntiJoin : Bool
  lateralView : Bool
  /-- `SORT BY`, `DISTRIBUTE BY` and `CLUSTER BY`. -/
  distributeSortCluster : Bool
  /-- `SORT BY` may follow `DISTRIBUTE BY`. -/
  sortAfterDistribute : Bool
  /-- `SORT BY` may follow `CLUSTER BY`. -/
  sortAfterCluster : Bool
  deriving DecidableEq

namespace Dialect

/-- The common ground: names in double quotes and no extensions. -/
def generic : Dialect where
  name := "generic"
  identifierQuote := '\x22'
  doubleQuotedStrings := false
  ilike := false
  rlike := false
  semiAntiJoin := false
  lateralView := false
  distributeSortCluster := false
  sortAfterDistribute := false
  sortAfterCluster := false

def spark : Dialect where
  name := "spark"
  identifierQuote := '\x60'
  doubleQuotedStrings := true
  ilike := true
  rlike := true
  semiAntiJoin := true
  lateralView := true
  distributeSortCluster := true
  sortAfterDistribute := true
  sortAfterCluster := false

/-- The constructs that exist in some dialects only. -/
inductive Feature where
  | ilike | rlike | leftSemiJoin | leftAntiJoin | lateralView
  | ordering (kind : OrderingKind)
  deriving DecidableEq

def Feature.text : Feature → String
  | .ilike => "ILIKE"
  | .rlike => "RLIKE"
  | .leftSemiJoin => Mark.phrase JoinType.leftSemi.marks
  | .leftAntiJoin => Mark.phrase JoinType.leftAnti.marks
  | .lateralView => "LATERAL VIEW"
  | .ordering kind => Mark.phrase kind.marks

/-- The features of a dialect. Every dialect has `ORDER BY`. -/
def supports (d : Dialect) : Feature → Bool
  | .ilike => d.ilike
  | .rlike => d.rlike
  | .leftSemiJoin | .leftAntiJoin => d.semiAntiJoin
  | .lateralView => d.lateralView
  | .ordering .orderBy => true
  | .ordering _ => d.distributeSortCluster

/-- Whether `SORT BY` may follow a clause. -/
def allowsSortAfter (d : Dialect) : OrderingKind → Bool
  | .distributeBy => d.sortAfterDistribute
  | .clusterBy => d.sortAfterCluster
  | .orderBy | .sortBy => false

/-- A name in the quotes of the dialect. -/
def quoteIdentifier (d : Dialect) (name : String) : String :=
  .ofList (quoted d.identifierQuote name.toList)

end Dialect

/-- The dialects that are known by name. -/
inductive DialectName where
  | generic | spark
  deriving DecidableEq

namespace DialectName

def text : DialectName → String
  | .generic => "generic"
  | .spark => "spark"

def dialect : DialectName → Dialect
  | .generic => .generic
  | .spark => .spark

/-- A text without the white space around it. -/
def trim (text : List Char) : List Char :=
  ((text.dropWhile Unicode.isWhiteSpace).reverse.dropWhile Unicode.isWhiteSpace).reverse

/-- The dialect that a text names, in any mix of ASCII cases and with white space around it. -/
def ofText? (text : String) : Option DialectName :=
  match (String.ofList (trim text.toList)).toLower with
  | "generic" => some .generic
  | "spark" => some .spark
  | _ => none

theorem ofText?_text (n : DialectName) : ofText? n.text = some n := by
  cases n <;> decide +kernel

end DialectName

end SqlDialects
