import SqlDialects.Token
import SqlDialects.Tree.Basic

/-!
# How the words of a tree are spelled

Each operator, join and clause as the tokens it is written with. A spelling of several tokens has a
space between any two.
-/

namespace SqlDialects

/-- A sign or a keyword of a spelling. -/
inductive Mark where
  | sign (sign : Symbol)
  | word (word : Keyword)
  deriving DecidableEq

namespace Mark

def text : Mark → String
  | .sign s => s.text
  | .word k => k.text

def kind : Mark → TokenKind
  | .sign s => .symbol s
  | .word k => .keyword k

/-- The text of several marks. -/
def phrase (marks : List Mark) : String :=
  " ".intercalate (marks.map text)

end Mark

def BinaryOp.marks : BinaryOp → List Mark
  | .add => [.sign .plus]
  | .sub => [.sign .minus]
  | .mul => [.sign .star]
  | .div => [.sign .slash]
  | .mod => [.sign .percent]
  | .concat => [.sign .concat]
  | .eq => [.sign .eq]
  | .notEq => [.sign .notEq]
  | .lt => [.sign .lt]
  | .ltEq => [.sign .ltEq]
  | .gt => [.sign .gt]
  | .gtEq => [.sign .gtEq]
  | .like => [.word .LIKE]
  | .notLike => [.word .NOT, .word .LIKE]
  | .ilike => [.word .ILIKE]
  | .notIlike => [.word .NOT, .word .ILIKE]
  | .rlike => [.word .RLIKE]
  | .notRlike => [.word .NOT, .word .RLIKE]
  | .and => [.word .AND]
  | .or => [.word .OR]

def UnaryOp.marks : UnaryOp → List Mark
  | .neg => [.sign .minus]
  | .not => [.word .NOT]

def Direction.marks : Direction → List Mark
  | .asc => [.word .ASC]
  | .desc => [.word .DESC]

def NullOrdering.marks : NullOrdering → List Mark
  | .first => [.word .NULLS, .word .FIRST]
  | .last => [.word .NULLS, .word .LAST]

def JoinType.marks : JoinType → List Mark
  | .inner => [.word .INNER, .word .JOIN]
  | .left => [.word .LEFT, .word .JOIN]
  | .right => [.word .RIGHT, .word .JOIN]
  | .full => [.word .FULL, .word .JOIN]
  | .cross => [.word .CROSS, .word .JOIN]
  | .leftSemi => [.word .LEFT, .word .SEMI, .word .JOIN]
  | .leftAnti => [.word .LEFT, .word .ANTI, .word .JOIN]

/-- The keyword that opens a clause. -/
def OrderingKind.keyword : OrderingKind → Keyword
  | .orderBy => .ORDER
  | .sortBy => .SORT
  | .distributeBy => .DISTRIBUTE
  | .clusterBy => .CLUSTER

def OrderingKind.marks (kind : OrderingKind) : List Mark :=
  [.word kind.keyword, .word .BY]

end SqlDialects
