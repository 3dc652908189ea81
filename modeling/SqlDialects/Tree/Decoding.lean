import SqlDialects.Tree.Encoding

/-!
# Reading syntax trees from JSON

A field that may be absent may be missing or `null`, every other field has to be there, and members
without a field are passed over. Integers have to fit the field's type. A structure may be written
without the names of its fields, as an array of all their values; the fields of an alternative are
always named.
-/

namespace SqlDialects

namespace Json

def string? : Json → Option String
  | .string text => some text
  | _ => none

def boolean? : Json → Option Bool
  | .boolean value => some value
  | _ => none

/-- The integers from `low` up to `high`, the latter excluded. -/
def integerIn? (low high : Int) : Json → Option Int
  | .integer value => if low ≤ value ∧ value < high then some value else none
  | _ => none

def int64? (j : Json) : Option Int64 :=
  (j.integerIn? (-0x8000000000000000) 0x8000000000000000).map .ofInt

def uint64? (j : Json) : Option UInt64 :=
  (j.integerIn? 0 0x10000000000000000).map fun n => .ofNat n.toNat

def uint32? (j : Json) : Option UInt32 :=
  (j.integerIn? 0 0x100000000).map fun n => .ofNat n.toNat

/-- A character is a string of that character alone. -/
def char? : Json → Option Char
  | .string text =>
    match text.toList with
    | [c] => some c
    | _ => none
  | _ => none

def listOf? (decode : Json → Option α) : Json → Option (List α)
  | .array items => items.mapM decode
  | _ => none

/-- The members of a structure with the given fields. An array stands for the structure if it has
the value of every field, in their order. -/
def structure? (fields : List String) : Json → Option (List (String × Json))
  | .object members => some members
  | .array values => if values.length = fields.length then some (fields.zip values) else none
  | _ => none

/-- A field that has to be there. -/
def required (members : List (String × Json)) (name : String) (decode : Json → Option α) :
    Option α :=
  (field? name members).bind decode

/-- A field that may be absent. -/
def optional (members : List (String × Json)) (name : String) (decode : Json → Option α) :
    Option (Option α) :=
  match field? name members with
  | none | some .null => some none
  | some j => (decode j).map some

/-- The name of an alternative, and its contents unless the name stands alone. -/
def variant? : Json → Option (String × Option Json)
  | .string name => some (name, none)
  | .object [(name, contents)] => some (name, some contents)
  | _ => none

/-- The name of an alternative without fields; it may stand alone or have the contents `null`. -/
def tag? (j : Json) : Option String :=
  match j.variant? with
  | some (name, none) | some (name, some .null) => some name
  | _ => none

/-- An alternative with fields. -/
def contents? (j : Json) : Option (String × Json) :=
  match j.variant? with
  | some (name, some contents) => some (name, contents)
  | _ => none

/-- The one of some values whose code is given. -/
def oneOf? (values : List α) (code : α → String) (j : Json) : Option α := do
  let name ← j.tag?
  values.find? fun a => code a == name

end Json

open Json (required optional listOf?)

def BinaryOp.all : List BinaryOp :=
  [.add, .sub, .mul, .div, .mod, .concat, .eq, .notEq, .lt, .ltEq, .gt, .gtEq,
   .like, .notLike, .ilike, .notIlike, .rlike, .notRlike, .and, .or]

def BinaryOp.ofJson? : Json → Option BinaryOp :=
  Json.oneOf? all code

def UnaryOp.ofJson? : Json → Option UnaryOp :=
  Json.oneOf? [.neg, .not] code

def Direction.ofJson? : Json → Option Direction :=
  Json.oneOf? [.asc, .desc] code

def NullOrdering.ofJson? : Json → Option NullOrdering :=
  Json.oneOf? [.first, .last] code

def JoinType.ofJson? : Json → Option JoinType :=
  Json.oneOf? [.inner, .left, .right, .full, .cross, .leftSemi, .leftAnti] code

def Literal.ofJson? (j : Json) : Option Literal :=
  if j.tag? = some "Null" then some .null
  else do
    match ← j.contents? with
    | ("Integer", value) => return .integer (← value.int64?)
    | ("Number", text) => return .number (← text.string?)
    | ("String", contents) =>
      let m ← contents.members?
      return .string (← required m "body" Json.string?) (← required m "quote" Json.char?)
    | ("Boolean", value) => return .boolean (← value.boolean?)
    | _ => none

/-!
The readers below take a bound on the depth of the value, which each alternative lowers by one.
-/

mutual

def dataType? : Nat → Json → Option DataType
  | 0, _ => none
  | n + 1, j => do
    match ← j.contents? with
    | ("Simple", name) => return .simple (← name.string?)
    | ("Sized", contents) =>
      let m ← contents.members?
      return .sized (← required m "name" Json.string?)
        (← required m "args" (listOf? Json.uint32?))
    | ("Array", element) => return .array (← dataType? n element)
    | ("Map", contents) =>
      let m ← contents.members?
      return .map (← required m "key" (dataType? n)) (← required m "value" (dataType? n))
    | ("Struct", fields) => return .struct (← listOf? (structField? n) fields)
    | _ => none

def structField? : Nat → Json → Option StructField
  | 0, _ => none
  | n + 1, j => do
    let m ← j.structure? ["name", "data_type"]
    return ⟨← required m "name" Json.string?, ← required m "data_type" (dataType? n)⟩

end

mutual

def expr? : Nat → Json → Option Expr
  | 0, _ => none
  | n + 1, j => do
    let (name, contents) ← j.contents?
    if name = "Literal" then return .literal (← Literal.ofJson? contents)
    else if name = "Paren" then return .paren (← expr? n contents)
    else if name = "Function" then return .call (← call? n contents)
    else if name = "Subquery" then return .subquery (← select? n contents)
    else if name = "Exists" then return .existsRow (← select? n contents)
    else
      let m ← contents.members?
      match name with
      | "Column" =>
        return .column (← required m "qualifier" (listOf? Json.string?))
          (← required m "name" Json.string?)
      | "Wildcard" => return .wildcard (← required m "qualifier" (listOf? Json.string?))
      | "Binary" =>
        return .binary (← required m "left" (expr? n)) (← required m "op" BinaryOp.ofJson?)
          (← required m "right" (expr? n))
      | "Unary" =>
        return .unary (← required m "op" UnaryOp.ofJson?) (← required m "operand" (expr? n))
      | "IsNull" =>
        return .isNull (← required m "expr" (expr? n)) (← required m "negated" Json.boolean?)
      | "In" =>
        return .inList (← required m "expr" (expr? n)) (← required m "list" (listOf? (expr? n)))
          (← required m "negated" Json.boolean?)
      | "Between" =>
        return .between (← required m "expr" (expr? n)) (← required m "low" (expr? n))
          (← required m "high" (expr? n)) (← required m "negated" Json.boolean?)
      | "Case" =>
        return .caseOf (← optional m "operand" (expr? n))
          (← required m "when_clauses" (listOf? (whenClause? n)))
          (← optional m "else_clause" (expr? n))
      | "Cast" =>
        return .cast (← required m "expr" (expr? n)) (← required m "data_type" (dataType? n))
      | _ => none

def whenClause? : Nat → Json → Option WhenClause
  | 0, _ => none
  | n + 1, .array [condition, result] => return ⟨← expr? n condition, ← expr? n result⟩
  | _, _ => none

def call? : Nat → Json → Option Call
  | 0, _ => none
  | n + 1, j => do
    let m ← j.structure? ["name", "args", "distinct", "ignore_nulls", "over"]
    return ⟨← required m "name" Json.string?, ← required m "args" (listOf? (expr? n)),
      ← required m "distinct" Json.boolean?, ← required m "ignore_nulls" Json.boolean?,
      ← optional m "over" (window? n)⟩

def window? : Nat → Json → Option Window
  | 0, _ => none
  | n + 1, j => do
    let m ← j.structure? ["partition_by", "order_by"]
    return ⟨← required m "partition_by" (listOf? (expr? n)),
      ← required m "order_by" (listOf? (orderItem? n))⟩

def orderItem? : Nat → Json → Option OrderItem
  | 0, _ => none
  | n + 1, j => do
    let m ← j.structure? ["expr", "direction", "nulls"]
    return ⟨← required m "expr" (expr? n), ← optional m "direction" Direction.ofJson?,
      ← optional m "nulls" NullOrdering.ofJson?⟩

def select? : Nat → Json → Option Select
  | 0, _ => none
  | n + 1, j => do
    let m ← j.structure?
      ["distinct", "columns", "from", "lateral_views", "where_clause",
       "group_by", "having", "ordering", "limit"]
    return ⟨← required m "distinct" Json.boolean?,
      ← required m "columns" (listOf? (selectItem? n)),
      ← optional m "from" (source? n),
      ← required m "lateral_views" (listOf? (lateralView? n)),
      ← optional m "where_clause" (expr? n),
      ← required m "group_by" (listOf? (groupItem? n)),
      ← optional m "having" (expr? n),
      ← optional m "ordering" (rowOrdering? n),
      ← optional m "limit" (expr? n)⟩

def selectItem? : Nat → Json → Option SelectItem
  | 0, _ => none
  | n + 1, j => do
    let m ← j.structure? ["expr", "alias"]
    return ⟨← required m "expr" (expr? n), ← optional m "alias" Json.string?⟩

def source? : Nat → Json → Option Source
  | 0, _ => none
  | n + 1, j => do
    let m ← j.structure? ["relation", "joins"]
    return ⟨← required m "relation" (relation? n), ← required m "joins" (listOf? (join? n))⟩

def relation? : Nat → Json → Option Relation
  | 0, _ => none
  | n + 1, j => do
    let (name, contents) ← j.contents?
    let m ← contents.members?
    match name with
    | "Table" =>
      return .table (← optional m "schema" Json.string?) (← required m "name" Json.string?)
        (← optional m "alias" Json.string?)
    | "Subquery" =>
      return .derived (← required m "query" (select? n)) (← optional m "alias" Json.string?)
    | _ => none

def join? : Nat → Json → Option Join
  | 0, _ => none
  | n + 1, j => do
    let m ← j.structure? ["join_type", "table", "on", "using"]
    return ⟨← required m "join_type" JoinType.ofJson?, ← required m "table" (relation? n),
      ← optional m "on" (expr? n), ← required m "using" (listOf? Json.string?)⟩

def lateralView? : Nat → Json → Option LateralView
  | 0, _ => none
  | n + 1, j => do
    let m ← j.structure? ["outer", "function", "table_alias", "column_aliases"]
    return ⟨← required m "outer" Json.boolean?, ← required m "function" (call? n),
      ← required m "table_alias" Json.string?,
      ← required m "column_aliases" (listOf? Json.string?)⟩

def groupItem? : Nat → Json → Option GroupItem
  | 0, _ => none
  | n + 1, j => do
    match ← j.contents? with
    | ("Expr", key) => return .value (← expr? n key)
    | ("Ordinal", position) => return .ordinal (← position.uint64?)
    | _ => none

def rowOrdering? : Nat → Json → Option RowOrdering
  | 0, _ => none
  | n + 1, j => do
    match ← j.contents? with
    | ("OrderBy", items) => return .orderBy (← listOf? (orderItem? n) items)
    | ("SortBy", items) => return .sortBy (← listOf? (orderItem? n) items)
    | ("DistributeBy", contents) =>
      let m ← contents.members?
      return .distributeBy (← required m "items" (listOf? (orderItem? n)))
        (← optional m "sort_by" (listOf? (orderItem? n)))
    | ("ClusterBy", contents) =>
      let m ← contents.members?
      return .clusterBy (← required m "items" (listOf? (orderItem? n)))
        (← optional m "sort_by" (listOf? (orderItem? n)))
    | _ => none

end

/-- Reads by a reader whose bound is the depth of the value. -/
def Json.decodeBy (reader : Nat → Json → Option α) (j : Json) : Option α :=
  reader (j.depth + 1) j

def DataType.ofJson? : Json → Option DataType :=
  Json.decodeBy dataType?

def Expr.ofJson? : Json → Option Expr :=
  Json.decodeBy expr?

def Window.ofJson? : Json → Option Window :=
  Json.decodeBy window?

def OrderItem.ofJson? : Json → Option OrderItem :=
  Json.decodeBy orderItem?

def Relation.ofJson? : Json → Option Relation :=
  Json.decodeBy relation?

def RowOrdering.ofJson? : Json → Option RowOrdering :=
  Json.decodeBy rowOrdering?

def Statement.ofJson? (j : Json) : Option Statement := do
  match ← j.contents? with
  | ("Select", query) => return .select (← Json.decodeBy select? query)
  | _ => none

end SqlDialects
