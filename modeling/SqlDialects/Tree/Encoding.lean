import SqlDialects.Json.Basic
import SqlDialects.Tree.Basic

/-!
# The JSON form of syntax trees

A structure is an object with a member for every field. An alternative without fields is its name,
one with fields an object whose only member is named for it. A field that is absent is `null`.
-/

namespace SqlDialects

open Json (ofOption)

/-- An alternative with its contents. -/
def Json.tagged (name : String) (contents : Json) : Json :=
  .object [(name, contents)]

def Json.strings (items : List String) : Json :=
  .array (items.map .string)

def BinaryOp.code : BinaryOp → String
  | .add => "Add"
  | .sub => "Sub"
  | .mul => "Mul"
  | .div => "Div"
  | .mod => "Mod"
  | .concat => "Concat"
  | .eq => "Eq"
  | .notEq => "NotEq"
  | .lt => "Lt"
  | .ltEq => "LtEq"
  | .gt => "Gt"
  | .gtEq => "GtEq"
  | .like => "Like"
  | .notLike => "NotLike"
  | .ilike => "ILike"
  | .notIlike => "NotILike"
  | .rlike => "RLike"
  | .notRlike => "NotRLike"
  | .and => "And"
  | .or => "Or"

def UnaryOp.code : UnaryOp → String
  | .neg => "Neg"
  | .not => "Not"

def Direction.code : Direction → String
  | .asc => "Asc"
  | .desc => "Desc"

def NullOrdering.code : NullOrdering → String
  | .first => "First"
  | .last => "Last"

def JoinType.code : JoinType → String
  | .inner => "Inner"
  | .left => "Left"
  | .right => "Right"
  | .full => "Full"
  | .cross => "Cross"
  | .leftSemi => "LeftSemi"
  | .leftAnti => "LeftAnti"

def Literal.toJson : Literal → Json
  | .integer value => .tagged "Integer" (.integer value.toInt)
  | .number text => .tagged "Number" (.string text)
  | .string body quote =>
    .tagged "String" (.object [("body", .string body), ("quote", .string quote.toString)])
  | .boolean value => .tagged "Boolean" (.boolean value)
  | .null => .string "Null"

mutual

def DataType.toJson : DataType → Json
  | .simple name => .tagged "Simple" (.string name)
  | .sized name parameters =>
    .tagged "Sized" (.object
      [("name", .string name), ("args", .array (parameters.map fun n => .integer n.toNat))])
  | .array element => .tagged "Array" element.toJson
  | .map key value => .tagged "Map" (.object [("key", key.toJson), ("value", value.toJson)])
  | .struct fields => .tagged "Struct" (.array (fieldsToJson fields))

def fieldsToJson : List StructField → List Json
  | [] => []
  | ⟨name, dataType⟩ :: rest =>
    .object [("name", .string name), ("data_type", dataType.toJson)] :: fieldsToJson rest

end

mutual

def Expr.toJson : Expr → Json
  | .literal value => .tagged "Literal" value.toJson
  | .column qualifier name =>
    .tagged "Column" (.object [("qualifier", .strings qualifier), ("name", .string name)])
  | .wildcard qualifier => .tagged "Wildcard" (.object [("qualifier", .strings qualifier)])
  | .binary left op right =>
    .tagged "Binary" (.object
      [("left", left.toJson), ("op", .string op.code), ("right", right.toJson)])
  | .unary op operand =>
    .tagged "Unary" (.object [("op", .string op.code), ("operand", operand.toJson)])
  | .paren inner => .tagged "Paren" inner.toJson
  | .isNull operand negated =>
    .tagged "IsNull" (.object [("expr", operand.toJson), ("negated", .boolean negated)])
  | .inList operand list negated =>
    .tagged "In" (.object
      [("expr", operand.toJson), ("list", .array (exprsToJson list)),
       ("negated", .boolean negated)])
  | .between operand low high negated =>
    .tagged "Between" (.object
      [("expr", operand.toJson), ("low", low.toJson), ("high", high.toJson),
       ("negated", .boolean negated)])
  | .caseOf operand clauses otherwise =>
    .tagged "Case" (.object
      [("operand", exprOrNull operand), ("when_clauses", .array (clausesToJson clauses)),
       ("else_clause", exprOrNull otherwise)])
  | .cast operand dataType =>
    .tagged "Cast" (.object [("expr", operand.toJson), ("data_type", dataType.toJson)])
  | .call function => .tagged "Function" function.toJson
  | .subquery query => .tagged "Subquery" query.toJson
  | .existsRow query => .tagged "Exists" query.toJson

def exprOrNull : Option Expr → Json
  | none => .null
  | some e => e.toJson

def exprsToJson : List Expr → List Json
  | [] => []
  | e :: rest => e.toJson :: exprsToJson rest

/-- A condition and its result are a pair. -/
def clausesToJson : List WhenClause → List Json
  | [] => []
  | ⟨condition, result⟩ :: rest =>
    .array [condition.toJson, result.toJson] :: clausesToJson rest

def Call.toJson : Call → Json
  | ⟨name, arguments, distinct, ignoreNulls, window⟩ =>
    .object
      [("name", .string name), ("args", .array (exprsToJson arguments)),
       ("distinct", .boolean distinct), ("ignore_nulls", .boolean ignoreNulls),
       ("over", windowOrNull window)]

def windowOrNull : Option Window → Json
  | none => .null
  | some w => w.toJson

def Window.toJson : Window → Json
  | ⟨partition, order⟩ =>
    .object
      [("partition_by", .array (exprsToJson partition)), ("order_by", .array (itemsToJson order))]

def OrderItem.toJson : OrderItem → Json
  | ⟨key, direction, nulls⟩ =>
    .object
      [("expr", key.toJson), ("direction", ofOption (fun d => .string d.code) direction),
       ("nulls", ofOption (fun n => .string n.code) nulls)]

def itemsToJson : List OrderItem → List Json
  | [] => []
  | item :: rest => item.toJson :: itemsToJson rest

def itemsOrNull : Option (List OrderItem) → Json
  | none => .null
  | some items => .array (itemsToJson items)

def Select.toJson : Select → Json
  | ⟨distinct, columns, source, views, filter, groups, having, ordering, limit⟩ =>
    .object
      [("distinct", .boolean distinct), ("columns", .array (columnsToJson columns)),
       ("from", sourceOrNull source), ("lateral_views", .array (viewsToJson views)),
       ("where_clause", exprOrNull filter), ("group_by", .array (groupsToJson groups)),
       ("having", exprOrNull having), ("ordering", orderingOrNull ordering),
       ("limit", exprOrNull limit)]

def columnsToJson : List SelectItem → List Json
  | [] => []
  | ⟨value, label⟩ :: rest =>
    .object [("expr", value.toJson), ("alias", ofOption .string label)] :: columnsToJson rest

def sourceOrNull : Option Source → Json
  | none => .null
  | some ⟨relation, joins⟩ =>
    .object [("relation", relation.toJson), ("joins", .array (joinsToJson joins))]

def Relation.toJson : Relation → Json
  | .table schema name label =>
    .tagged "Table" (.object
      [("schema", ofOption .string schema), ("name", .string name),
       ("alias", ofOption .string label)])
  | .derived query label =>
    .tagged "Subquery" (.object [("query", query.toJson), ("alias", ofOption .string label)])

def joinsToJson : List Join → List Json
  | [] => []
  | ⟨type, relation, condition, columns⟩ :: rest =>
    .object
      [("join_type", .string type.code), ("table", relation.toJson),
       ("on", exprOrNull condition), ("using", .strings columns)] :: joinsToJson rest

def viewsToJson : List LateralView → List Json
  | [] => []
  | ⟨outer, generator, table, columns⟩ :: rest =>
    .object
      [("outer", .boolean outer), ("function", generator.toJson),
       ("table_alias", .string table), ("column_aliases", .strings columns)] :: viewsToJson rest

def groupsToJson : List GroupItem → List Json
  | [] => []
  | .value key :: rest => .tagged "Expr" key.toJson :: groupsToJson rest
  | .ordinal position :: rest =>
    .tagged "Ordinal" (.integer position.toNat) :: groupsToJson rest

def orderingOrNull : Option RowOrdering → Json
  | none => .null
  | some ordering => ordering.toJson

def RowOrdering.toJson : RowOrdering → Json
  | .orderBy items => .tagged "OrderBy" (.array (itemsToJson items))
  | .sortBy items => .tagged "SortBy" (.array (itemsToJson items))
  | .distributeBy keys sort =>
    .tagged "DistributeBy" (.object
      [("items", .array (itemsToJson keys)), ("sort_by", itemsOrNull sort)])
  | .clusterBy keys sort =>
    .tagged "ClusterBy" (.object
      [("items", .array (itemsToJson keys)), ("sort_by", itemsOrNull sort)])

end

def Statement.toJson : Statement → Json
  | .select query => .tagged "Select" query.toJson

end SqlDialects
