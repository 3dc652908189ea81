import SqlDialects.Render.Piece
import SqlDialects.Tree.Basic

/-!
# Writing syntax trees

The pieces of each part of a tree: keywords in upper case, names in quotes, function and type names
bare and in upper case where they can be, every direction of an ordering spelled out, and
parentheses around an operand that would bind otherwise.
-/

namespace SqlDialects

open Piece (sign keyword phrase commaSeparated parenthesized parenthesizedIf negation)

def Literal.piece : Literal → Piece
  | .integer value => .integer value.toInt
  | .number text => .number text
  | .string body quote => .string body quote
  | .boolean true => keyword .TRUE
  | .boolean false => keyword .FALSE
  | .null => keyword .NULL

namespace Piece

/-- The words that are no function name unless they are quoted. `LEFT` and `RIGHT` are functions
too. -/
def isReservedFunction (name : String) : Bool :=
  match Keyword.ofText? name with
  | some .LEFT | some .RIGHT => false
  | some k => k.isReserved
  | none => false

variable (quote : Char)

def functionName (name : String) : Piece :=
  if isBareWord name && !isReservedFunction name then .word name.toUpper else .name name quote

def typeName (name : String) : Piece :=
  if isBareWord name then .word name.toUpper else .name name quote

def fieldName (name : String) : Piece :=
  if isBareWord name then .word name else .name name quote

/-- The parts of a qualifier, each with a dot behind it. -/
def qualifier (parts : List String) : List Piece :=
  parts.flatMap fun part => [.name part quote, sign .dot]

/-- An alias with `AS` before it, if there is one. -/
def label : Option String → List Piece
  | none => []
  | some text => [.space, keyword .AS, .space, .name text quote]

def names (items : List String) : List Piece :=
  commaSeparated (items.map fun item => [.name item quote])

end Piece

/-- Whether an operand on the left of an operator would give up a part of itself to it. -/
def Expr.looserThan (op : BinaryOp) : Expr → Bool
  | .binary _ inner _ => inner.precedence < op.precedence
  | _ => false

/-- Whether an operand on the right of an operator would give up a part of itself to it. -/
def Expr.noTighterThan (op : BinaryOp) : Expr → Bool
  | .binary _ inner _ => inner.precedence ≤ op.precedence
  | _ => false

/-- Whether an operand would give up a part of itself to a unary operator. -/
def Expr.looserThanUnary : UnaryOp → Expr → Bool
  | .neg, .binary .. => true
  | .not, .binary _ inner _ => inner.precedence ≤ BinaryOp.and.precedence
  | _, _ => false

/-- Whether a list is a query alone, which brings its own parentheses. -/
def isLoneQuery : List Expr → Bool
  | [.subquery _] => true
  | _ => false

variable (quote : Char)

mutual

def DataType.pieces : DataType → List Piece
  | .simple name => [Piece.typeName quote name]
  | .sized name parameters =>
    Piece.typeName quote name ::
      parenthesized (commaSeparated (parameters.map fun n => [.integer n.toNat]))
  | .array element => [.word "ARRAY", sign .lt] ++ element.pieces ++ [sign .gt]
  | .map key value =>
    [.word "MAP", sign .lt] ++ commaSeparated [key.pieces, value.pieces] ++ [sign .gt]
  | .struct [] => [.word "STRUCT", .emptyAngles]
  | .struct fields =>
    [.word "STRUCT", sign .lt] ++ commaSeparated (fieldsPieces fields) ++ [sign .gt]

def fieldsPieces : List StructField → List (List Piece)
  | [] => []
  | ⟨name, dataType⟩ :: rest =>
    (Piece.fieldName quote name :: .space :: dataType.pieces) :: fieldsPieces rest

end

mutual

def Expr.pieces : Expr → List Piece
  | .literal value => [value.piece]
  | .column qualifier name => Piece.qualifier quote qualifier ++ [.name name quote]
  | .wildcard qualifier => Piece.qualifier quote qualifier ++ [sign .star]
  | .binary left op right =>
    parenthesizedIf (left.looserThan op) left.pieces ++ .space :: phrase op.marks ++
      .space :: parenthesizedIf (right.noTighterThan op) right.pieces
  | .unary .neg operand =>
    Piece.negative (parenthesizedIf (operand.looserThanUnary .neg) operand.pieces)
  | .unary .not operand =>
    keyword .NOT :: .space ::
      parenthesizedIf (operand.looserThanUnary .not) operand.pieces
  | .paren inner => parenthesized inner.pieces
  | .isNull operand negated =>
    operand.pieces ++ [.space, keyword .IS, .space] ++ negation negated ++ [keyword .NULL]
  | .inList operand list negated =>
    operand.pieces ++ .space :: negation negated ++ [keyword .IN, .space] ++
      (let values := commaSeparated (exprsPieces list)
       parenthesizedIf (!isLoneQuery list) values)
  | .between operand low high negated =>
    operand.pieces ++ .space :: negation negated ++ [keyword .BETWEEN, .space] ++ low.pieces ++
      [.space, keyword .AND, .space] ++ high.pieces
  | .caseOf operand clauses otherwise =>
    keyword .CASE :: optionalPieces [.space] operand ++ clausesPieces clauses ++
      optionalPieces [.space, keyword .ELSE, .space] otherwise ++ [.space, keyword .END]
  | .cast operand dataType =>
    keyword .CAST ::
      parenthesized (operand.pieces ++ [.space, keyword .AS, .space] ++ dataType.pieces quote)
  | .call function => function.pieces
  | .subquery query => parenthesized query.pieces
  | .existsRow query => keyword .EXISTS :: .space :: parenthesized query.pieces

/-- What leads to an expression, and the expression, if there is one. -/
def optionalPieces (lead : List Piece) : Option Expr → List Piece
  | none => []
  | some e => lead ++ e.pieces

def exprsPieces : List Expr → List (List Piece)
  | [] => []
  | e :: rest => e.pieces :: exprsPieces rest

def clausesPieces : List WhenClause → List Piece
  | [] => []
  | ⟨condition, result⟩ :: rest =>
    [.space, keyword .WHEN, .space] ++ condition.pieces ++
      [.space, keyword .THEN, .space] ++ result.pieces ++ clausesPieces rest

def Call.pieces : Call → List Piece
  | ⟨name, arguments, distinct, ignoreNulls, window⟩ =>
    Piece.functionName quote name ::
      parenthesized ((if distinct then [keyword .DISTINCT, .space] else []) ++
        commaSeparated (exprsPieces arguments)) ++
      (if ignoreNulls then .space :: phrase [.word .IGNORE, .word .NULLS] else []) ++
      windowPieces window

/-- An empty list of a window is left out. -/
def windowPieces : Option Window → List Piece
  | none => []
  | some ⟨partition, order⟩ =>
    [.space, keyword .OVER, .space] ++ parenthesized
      ((if partition.isEmpty then []
        else phrase [.word .PARTITION, .word .BY] ++
          .space :: commaSeparated (exprsPieces partition)) ++
       (if partition.isEmpty || order.isEmpty then [] else [.space]) ++
       (if order.isEmpty then []
        else phrase OrderingKind.orderBy.marks ++ .space :: commaSeparated (itemsPieces order)))

def itemsPieces : List OrderItem → List (List Piece)
  | [] => []
  | ⟨key, direction, nulls⟩ :: rest =>
    (key.pieces ++ .space :: phrase (direction.getD .asc).marks ++
      (match nulls with
       | none => []
       | some n => .space :: phrase n.marks)) :: itemsPieces rest

/-- The keys of a distribution, without directions. -/
def keysPieces : List OrderItem → List (List Piece)
  | [] => []
  | ⟨key, _, _⟩ :: rest => key.pieces :: keysPieces rest

def Select.pieces : Select → List Piece
  | ⟨distinct, columns, source, views, filter, groups, having, ordering, limit⟩ =>
    [keyword .SELECT, .space] ++ (if distinct then [keyword .DISTINCT, .space] else []) ++
      commaSeparated (columnsPieces columns) ++ sourcePieces source ++ viewsPieces views ++
      optionalPieces [.space, keyword .WHERE, .space] filter ++
      (if groups.isEmpty then []
       else .space :: phrase [.word .GROUP, .word .BY] ++
        .space :: commaSeparated (groupsPieces groups)) ++
      optionalPieces [.space, keyword .HAVING, .space] having ++
      orderingPieces ordering ++
      optionalPieces [.space, keyword .LIMIT, .space] limit

def columnsPieces : List SelectItem → List (List Piece)
  | [] => []
  | ⟨value, label⟩ :: rest => (value.pieces ++ Piece.label quote label) :: columnsPieces rest

def sourcePieces : Option Source → List Piece
  | none => []
  | some ⟨relation, joins⟩ =>
    [.space, keyword .FROM, .space] ++ relation.pieces ++ joinsPieces joins

def Relation.pieces : Relation → List Piece
  | .table schema name label =>
    Piece.qualifier quote schema.toList ++ .name name quote :: Piece.label quote label
  | .derived query label => parenthesized query.pieces ++ Piece.label quote label

def joinsPieces : List Join → List Piece
  | [] => []
  | ⟨type, relation, condition, columns⟩ :: rest =>
    .space :: phrase type.marks ++ .space :: relation.pieces ++
      optionalPieces [.space, keyword .ON, .space] condition ++
      (if columns.isEmpty then []
       else [.space, keyword .USING, .space] ++ parenthesized (Piece.names quote columns)) ++
      joinsPieces rest

def viewsPieces : List LateralView → List Piece
  | [] => []
  | ⟨outer, generator, table, columns⟩ :: rest =>
    .space :: phrase [.word .LATERAL, .word .VIEW] ++ .space ::
      (if outer then [keyword .OUTER, .space] else []) ++ generator.pieces ++
      [.space, .name table quote, .space, keyword .AS, .space] ++ Piece.names quote columns ++
      viewsPieces rest

def groupsPieces : List GroupItem → List (List Piece)
  | [] => []
  | .value key :: rest => key.pieces :: groupsPieces rest
  | .ordinal position :: rest => [.integer position.toNat] :: groupsPieces rest

def orderingPieces : Option RowOrdering → List Piece
  | none => []
  | some (.orderBy items) =>
    .space :: phrase OrderingKind.orderBy.marks ++ .space :: commaSeparated (itemsPieces items)
  | some (.sortBy items) =>
    .space :: phrase OrderingKind.sortBy.marks ++ .space :: commaSeparated (itemsPieces items)
  | some (.distributeBy keys sort) =>
    .space :: phrase OrderingKind.distributeBy.marks ++
      .space :: commaSeparated (keysPieces keys) ++ trailingPieces sort
  | some (.clusterBy keys sort) =>
    .space :: phrase OrderingKind.clusterBy.marks ++
      .space :: commaSeparated (keysPieces keys) ++ trailingPieces sort

def trailingPieces : Option (List OrderItem) → List Piece
  | none => []
  | some items =>
    .space :: phrase OrderingKind.sortBy.marks ++ .space :: commaSeparated (itemsPieces items)

end

def Statement.pieces : Statement → List Piece
  | .select query => query.pieces quote

end SqlDialects
