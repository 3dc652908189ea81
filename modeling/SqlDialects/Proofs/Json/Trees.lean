import SqlDialects.Proofs.Json.Loosened

/-!
# Syntax trees are read back from their JSON form

Each part of a tree is read from every looser form of the JSON that it is written as.
-/

namespace SqlDialects

open Json (ReadAs ReadAsOption FieldsWithin required optional listOf?)

/-! ## Values without parts -/

namespace Json

@[simp] theorem contents?_tagged (name : String) (contents : Json) :
    (tagged name contents).contents? = some (name, contents) := rfl

theorem tag?_tagged_ne {name other : String} (h : name ≠ other) (contents : Json) :
    (tagged name contents).tag? ≠ some other := by
  cases contents <;> simp [tagged, tag?, variant?, h]

theorem readAs_string (text : String) : ReadAs (fun _ => string?) (.string text) text where
  ne_null := nofun
  eq_some _ _ h _ := by rw [h.eq_string, string?]

theorem readAs_boolean (value : Bool) : ReadAs (fun _ => boolean?) (.boolean value) value where
  ne_null := nofun
  eq_some _ _ h _ := by rw [h.eq_boolean, boolean?]

theorem readAs_char (c : Char) : ReadAs (fun _ => char?) (.string c.toString) c where
  ne_null := nofun
  eq_some _ _ h _ := by simp [h.eq_string, char?]

theorem readAs_int64 (value : Int64) : ReadAs (fun _ => int64?) (.integer value.toInt) value where
  ne_null := nofun
  eq_some _ _ h _ := by
    have hlow := value.le_toInt
    have hhigh := value.toInt_lt
    rw [h.eq_integer, int64?, integerIn?, if_pos (by omega), Option.map_some, Int64.ofInt_toInt]

theorem readAs_uint64 (value : UInt64) :
    ReadAs (fun _ => uint64?) (.integer value.toNat) value where
  ne_null := nofun
  eq_some _ _ h _ := by
    have hhigh := value.toNat_lt
    rw [h.eq_integer, uint64?, integerIn?, if_pos (by omega)]
    simp

theorem readAs_uint32 (value : UInt32) :
    ReadAs (fun _ => uint32?) (.integer value.toNat) value where
  ne_null := nofun
  eq_some _ _ h _ := by
    have hhigh := value.toNat_lt
    rw [h.eq_integer, uint32?, integerIn?, if_pos (by omega)]
    simp

theorem readAs_map {α : Type} {reader : Nat → Json → Option α} {encode : α → Json}
    (h : ∀ a, ReadAs reader (encode a) a) (list : List α) :
    ReadAs (fun n => listOf? (reader n)) (.array (list.map encode)) list :=
  .list (List.forall₂_map_left_iff.mpr (List.forall₂_same.mpr fun a _ => h a))

theorem readAs_strings (list : List String) :
    ReadAs (fun _ => listOf? string?) (.strings list) list :=
  readAs_map readAs_string list

theorem readAsOption_ofOption {α : Type} {reader : Nat → Json → Option α} {encode : α → Json}
    (h : ∀ a, ReadAs reader (encode a) a) (o : Option α) :
    ReadAsOption reader (ofOption encode o) o := by
  cases o with
  | none => rfl
  | some a => exact h a

/-- A value that is written as its code. -/
theorem readAs_code {α : Type} {values : List α} {code : α → String} {a : α}
    (h : oneOf? values code (.string (code a)) = some a) :
    ReadAs (fun _ => oneOf? values code) (.string (code a)) a where
  ne_null := nofun
  eq_some _ _ hj _ := by rw [hj.eq_string, h]

end Json

theorem BinaryOp.readAs_code (op : BinaryOp) : ReadAs (fun _ => ofJson?) (.string op.code) op :=
  Json.readAs_code (by cases op <;> rfl)

theorem UnaryOp.readAs_code (op : UnaryOp) : ReadAs (fun _ => ofJson?) (.string op.code) op :=
  Json.readAs_code (by cases op <;> rfl)

theorem Direction.readAs_code (d : Direction) : ReadAs (fun _ => ofJson?) (.string d.code) d :=
  Json.readAs_code (by cases d <;> rfl)

theorem NullOrdering.readAs_code (n : NullOrdering) :
    ReadAs (fun _ => ofJson?) (.string n.code) n :=
  Json.readAs_code (by cases n <;> rfl)

theorem JoinType.readAs_code (t : JoinType) : ReadAs (fun _ => ofJson?) (.string t.code) t :=
  Json.readAs_code (by cases t <;> rfl)

open Json

theorem Literal.readAs_toJson : ∀ value : Literal, ReadAs (fun _ => ofJson?) value.toJson value
  | .integer value => .alternative (by decide) (readAs_int64 value) fun n j h => by
    simp [ofJson?, tag?_tagged_ne, h]
  | .number text => .alternative (by decide) (readAs_string text) fun n j h => by
    simp [ofJson?, tag?_tagged_ne, h]
  | .string body quote =>
    .alternativeFields (by decide) ["body", "quote"] (by decide) rfl fun n m hm => by
      have hbody := hm.required "body" rfl (readAs_string body)
      have hquote := hm.required "quote" rfl (readAs_char quote)
      simp [ofJson?, tag?_tagged_ne, members?, hbody, hquote]
  | .boolean value => .alternative (by decide) (readAs_boolean value) fun n j h => by
    simp [ofJson?, tag?_tagged_ne, h]
  | .null =>
    { ne_null := nofun
      eq_some := fun _ _ h _ => by rw [h.eq_string]; rfl }

/-! ## Types -/

mutual

theorem DataType.readAs_toJson : ∀ t : DataType, ReadAs dataType? t.toJson t
  | .simple name => .alternative (by decide) (readAs_string name) fun n j h => by
    simp [dataType?, h]
  | .sized name parameters =>
    .alternativeFields (by decide) ["name", "args"] (by decide) rfl fun n m hm => by
      have hname := hm.required "name" rfl (readAs_string name)
      have hparameters := hm.required "args" rfl (readAs_map readAs_uint32 parameters)
      simp [dataType?, members?, hname, hparameters]
  | .array element => .alternative (by decide) element.readAs_toJson fun n j h => by
    simp [dataType?, h]
  | .map key value =>
    .alternativeFields (by decide) ["key", "value"] (by decide) rfl fun n m hm => by
      have hkey := hm.required "key" rfl key.readAs_toJson
      have hvalue := hm.required "value" rfl value.readAs_toJson
      simp [dataType?, members?, hkey, hvalue]
  | .struct fields =>
    .alternative (by decide) (.list (readAs_fieldsToJson fields)) fun n j h => by
      simp [dataType?, h]

theorem readAs_fieldsToJson :
    ∀ fields : List StructField, List.Forall₂ (ReadAs structField?) (fieldsToJson fields) fields
  | [] => .nil
  | ⟨name, dataType⟩ :: rest => by
    refine .cons (.fields ["name", "data_type"] (by decide) rfl fun n m hm => ?_)
      (readAs_fieldsToJson rest)
    have hname := hm.required "name" rfl (readAs_string name)
    have htype := hm.required "data_type" rfl dataType.readAs_toJson
    simp [structField?, structure?, hname, htype]

end

/-! ## Expressions and queries -/

mutual

theorem Expr.readAs_toJson : ∀ e : Expr, ReadAs expr? e.toJson e
  | .literal value => .alternative (by decide) value.readAs_toJson fun n j h => by
    simp [expr?, h]
  | .column qualifier name =>
    .alternativeFields (by decide) ["qualifier", "name"] (by decide) rfl fun n m hm => by
      have hqualifier := hm.required "qualifier" rfl (readAs_strings qualifier)
      have hname := hm.required "name" rfl (readAs_string name)
      simp [expr?, members?, hqualifier, hname]
  | .wildcard qualifier =>
    .alternativeFields (by decide) ["qualifier"] (by decide) rfl fun n m hm => by
      have hqualifier := hm.required "qualifier" rfl (readAs_strings qualifier)
      simp [expr?, members?, hqualifier]
  | .binary left op right =>
    .alternativeFields (by decide) ["left", "op", "right"] (by decide) rfl fun n m hm => by
      have hleft := hm.required "left" rfl left.readAs_toJson
      have hop := hm.required "op" rfl op.readAs_code
      have hright := hm.required "right" rfl right.readAs_toJson
      simp [expr?, members?, hleft, hop, hright]
  | .unary op operand =>
    .alternativeFields (by decide) ["op", "operand"] (by decide) rfl fun n m hm => by
      have hop := hm.required "op" rfl op.readAs_code
      have hoperand := hm.required "operand" rfl operand.readAs_toJson
      simp [expr?, members?, hop, hoperand]
  | .paren inner => .alternative (by decide) inner.readAs_toJson fun n j h => by
    simp [expr?, h]
  | .isNull operand negated =>
    .alternativeFields (by decide) ["expr", "negated"] (by decide) rfl fun n m hm => by
      have hoperand := hm.required "expr" rfl operand.readAs_toJson
      have hnegated := hm.required "negated" rfl (readAs_boolean negated)
      simp [expr?, members?, hoperand, hnegated]
  | .inList operand list negated =>
    .alternativeFields (by decide) ["expr", "list", "negated"] (by decide) rfl fun n m hm => by
      have hoperand := hm.required "expr" rfl operand.readAs_toJson
      have hlist := hm.required "list" rfl (.list (readAs_exprsToJson list))
      have hnegated := hm.required "negated" rfl (readAs_boolean negated)
      simp [expr?, members?, hoperand, hlist, hnegated]
  | .between operand low high negated =>
    .alternativeFields (by decide) ["expr", "low", "high", "negated"] (by decide) rfl
      fun n m hm => by
      have hoperand := hm.required "expr" rfl operand.readAs_toJson
      have hlow := hm.required "low" rfl low.readAs_toJson
      have hhigh := hm.required "high" rfl high.readAs_toJson
      have hnegated := hm.required "negated" rfl (readAs_boolean negated)
      simp [expr?, members?, hoperand, hlow, hhigh, hnegated]
  | .caseOf operand clauses otherwise =>
    .alternativeFields (by decide) ["operand", "when_clauses", "else_clause"] (by decide) rfl
      fun n m hm => by
      have hoperand := hm.optional "operand" rfl (readAs_exprOrNull operand)
      have hclauses := hm.required "when_clauses" rfl (.list (readAs_clausesToJson clauses))
      have hotherwise := hm.optional "else_clause" rfl (readAs_exprOrNull otherwise)
      simp [expr?, members?, hoperand, hclauses, hotherwise]
  | .cast operand dataType =>
    .alternativeFields (by decide) ["expr", "data_type"] (by decide) rfl fun n m hm => by
      have hoperand := hm.required "expr" rfl operand.readAs_toJson
      have htype := hm.required "data_type" rfl dataType.readAs_toJson
      simp [expr?, members?, hoperand, htype]
  | .call function => .alternative (by decide) function.readAs_toJson fun n j h => by
    simp [expr?, h]
  | .subquery query => .alternative (by decide) query.readAs_toJson fun n j h => by
    simp [expr?, h]
  | .existsRow query => .alternative (by decide) query.readAs_toJson fun n j h => by
    simp [expr?, h]

theorem readAs_exprOrNull : ∀ e : Option Expr, ReadAsOption expr? (exprOrNull e) e
  | none => rfl
  | some e => e.readAs_toJson

theorem readAs_exprsToJson : ∀ list : List Expr, List.Forall₂ (ReadAs expr?) (exprsToJson list) list
  | [] => .nil
  | e :: rest => .cons e.readAs_toJson (readAs_exprsToJson rest)

theorem readAs_clausesToJson :
    ∀ clauses : List WhenClause, List.Forall₂ (ReadAs whenClause?) (clausesToJson clauses) clauses
  | [] => .nil
  | ⟨condition, result⟩ :: rest => by
    refine .cons (.pair condition.readAs_toJson result.readAs_toJson fun n c r hc hr => ?_)
      (readAs_clausesToJson rest)
    simp [whenClause?, hc, hr]

theorem Call.readAs_toJson : ∀ c : Call, ReadAs call? c.toJson c
  | ⟨name, arguments, distinct, ignoreNulls, window⟩ => by
    refine .fields ["name", "args", "distinct", "ignore_nulls", "over"] (by decide) rfl
      fun n m hm => ?_
    have hname := hm.required "name" rfl (readAs_string name)
    have harguments := hm.required "args" rfl (.list (readAs_exprsToJson arguments))
    have hdistinct := hm.required "distinct" rfl (readAs_boolean distinct)
    have hignoreNulls := hm.required "ignore_nulls" rfl (readAs_boolean ignoreNulls)
    have hwindow := hm.optional "over" rfl (readAs_windowOrNull window)
    simp [call?, structure?, hname, harguments, hdistinct, hignoreNulls, hwindow]

theorem readAs_windowOrNull : ∀ w : Option Window, ReadAsOption window? (windowOrNull w) w
  | none => rfl
  | some w => w.readAs_toJson

theorem Window.readAs_toJson : ∀ w : Window, ReadAs window? w.toJson w
  | ⟨partition, order⟩ => by
    refine .fields ["partition_by", "order_by"] (by decide) rfl fun n m hm => ?_
    have hpartition := hm.required "partition_by" rfl (.list (readAs_exprsToJson partition))
    have horder := hm.required "order_by" rfl (.list (readAs_itemsToJson order))
    simp [window?, structure?, hpartition, horder]

theorem OrderItem.readAs_toJson : ∀ i : OrderItem, ReadAs orderItem? i.toJson i
  | ⟨key, direction, nulls⟩ => by
    refine .fields ["expr", "direction", "nulls"] (by decide) rfl fun n m hm => ?_
    have hkey := hm.required "expr" rfl key.readAs_toJson
    have hdirection := hm.optional "direction" rfl
      (readAsOption_ofOption Direction.readAs_code direction)
    have hnulls := hm.optional "nulls" rfl (readAsOption_ofOption NullOrdering.readAs_code nulls)
    simp [orderItem?, structure?, hkey, hdirection, hnulls]

theorem readAs_itemsToJson :
    ∀ items : List OrderItem, List.Forall₂ (ReadAs orderItem?) (itemsToJson items) items
  | [] => .nil
  | item :: rest => .cons item.readAs_toJson (readAs_itemsToJson rest)

theorem readAs_itemsOrNull :
    ∀ o : Option (List OrderItem), ReadAsOption (fun n => listOf? (orderItem? n)) (itemsOrNull o) o
  | none => rfl
  | some items => ReadAs.list (readAs_itemsToJson items)

theorem Select.readAs_toJson : ∀ q : Select, ReadAs select? q.toJson q
  | ⟨distinct, columns, source, views, filter, groups, having, ordering, limit⟩ => by
    refine .fields
      ["distinct", "columns", "from", "lateral_views", "where_clause", "group_by", "having",
        "ordering", "limit"] (by decide) rfl fun n m hm => ?_
    have hdistinct := hm.required "distinct" rfl (readAs_boolean distinct)
    have hcolumns := hm.required "columns" rfl (.list (readAs_columnsToJson columns))
    have hsource := hm.optional "from" rfl (readAs_sourceOrNull source)
    have hviews := hm.required "lateral_views" rfl (.list (readAs_viewsToJson views))
    have hfilter := hm.optional "where_clause" rfl (readAs_exprOrNull filter)
    have hgroups := hm.required "group_by" rfl (.list (readAs_groupsToJson groups))
    have hhaving := hm.optional "having" rfl (readAs_exprOrNull having)
    have hordering := hm.optional "ordering" rfl (readAs_orderingOrNull ordering)
    have hlimit := hm.optional "limit" rfl (readAs_exprOrNull limit)
    simp [select?, structure?, hdistinct, hcolumns, hsource, hviews, hfilter, hgroups, hhaving,
      hordering, hlimit]

theorem readAs_columnsToJson :
    ∀ columns : List SelectItem, List.Forall₂ (ReadAs selectItem?) (columnsToJson columns) columns
  | [] => .nil
  | ⟨value, label⟩ :: rest => by
    refine .cons (.fields ["expr", "alias"] (by decide) rfl fun n m hm => ?_)
      (readAs_columnsToJson rest)
    have hvalue := hm.required "expr" rfl value.readAs_toJson
    have hlabel := hm.optional "alias" rfl (readAsOption_ofOption readAs_string label)
    simp [selectItem?, structure?, hvalue, hlabel]

theorem readAs_sourceOrNull : ∀ s : Option Source, ReadAsOption source? (sourceOrNull s) s
  | none => rfl
  | some ⟨relation, joins⟩ => by
    refine ReadAs.fields ["relation", "joins"] (by decide) rfl fun n m hm => ?_
    have hrelation := hm.required "relation" rfl relation.readAs_toJson
    have hjoins := hm.required "joins" rfl (.list (readAs_joinsToJson joins))
    simp [source?, structure?, hrelation, hjoins]

theorem Relation.readAs_toJson : ∀ r : Relation, ReadAs relation? r.toJson r
  | .table schema name label =>
    .alternativeFields (by decide) ["schema", "name", "alias"] (by decide) rfl fun n m hm => by
      have hschema := hm.optional "schema" rfl (readAsOption_ofOption readAs_string schema)
      have hname := hm.required "name" rfl (readAs_string name)
      have hlabel := hm.optional "alias" rfl (readAsOption_ofOption readAs_string label)
      simp [relation?, members?, hschema, hname, hlabel]
  | .derived query label =>
    .alternativeFields (by decide) ["query", "alias"] (by decide) rfl fun n m hm => by
      have hquery := hm.required "query" rfl query.readAs_toJson
      have hlabel := hm.optional "alias" rfl (readAsOption_ofOption readAs_string label)
      simp [relation?, members?, hquery, hlabel]

theorem readAs_joinsToJson :
    ∀ joins : List Join, List.Forall₂ (ReadAs join?) (joinsToJson joins) joins
  | [] => .nil
  | ⟨type, relation, condition, columns⟩ :: rest => by
    refine .cons (.fields ["join_type", "table", "on", "using"] (by decide) rfl fun n m hm => ?_)
      (readAs_joinsToJson rest)
    have htype := hm.required "join_type" rfl type.readAs_code
    have hrelation := hm.required "table" rfl relation.readAs_toJson
    have hcondition := hm.optional "on" rfl (readAs_exprOrNull condition)
    have hcolumns := hm.required "using" rfl (readAs_strings columns)
    simp [join?, structure?, htype, hrelation, hcondition, hcolumns]

theorem readAs_viewsToJson :
    ∀ views : List LateralView, List.Forall₂ (ReadAs lateralView?) (viewsToJson views) views
  | [] => .nil
  | ⟨outer, generator, table, columns⟩ :: rest => by
    refine .cons (.fields ["outer", "function", "table_alias", "column_aliases"] (by decide) rfl
      fun n m hm => ?_) (readAs_viewsToJson rest)
    have houter := hm.required "outer" rfl (readAs_boolean outer)
    have hgenerator := hm.required "function" rfl generator.readAs_toJson
    have htable := hm.required "table_alias" rfl (readAs_string table)
    have hcolumns := hm.required "column_aliases" rfl (readAs_strings columns)
    simp [lateralView?, structure?, houter, hgenerator, htable, hcolumns]

theorem readAs_groupsToJson :
    ∀ groups : List GroupItem, List.Forall₂ (ReadAs groupItem?) (groupsToJson groups) groups
  | [] => .nil
  | .value key :: rest =>
    .cons (.alternative (by decide) key.readAs_toJson fun n j h => by simp [groupItem?, h])
      (readAs_groupsToJson rest)
  | .ordinal position :: rest =>
    .cons (.alternative (by decide) (readAs_uint64 position) fun n j h => by simp [groupItem?, h])
      (readAs_groupsToJson rest)

theorem readAs_orderingOrNull :
    ∀ o : Option RowOrdering, ReadAsOption rowOrdering? (orderingOrNull o) o
  | none => rfl
  | some ordering => ordering.readAs_toJson

theorem RowOrdering.readAs_toJson : ∀ o : RowOrdering, ReadAs rowOrdering? o.toJson o
  | .orderBy items => .alternative (by decide) (.list (readAs_itemsToJson items)) fun n j h => by
    simp [rowOrdering?, h]
  | .sortBy items => .alternative (by decide) (.list (readAs_itemsToJson items)) fun n j h => by
    simp [rowOrdering?, h]
  | .distributeBy keys sort =>
    .alternativeFields (by decide) ["items", "sort_by"] (by decide) rfl fun n m hm => by
      have hkeys := hm.required "items" rfl (.list (readAs_itemsToJson keys))
      have hsort := hm.optional "sort_by" rfl (readAs_itemsOrNull sort)
      simp [rowOrdering?, members?, hkeys, hsort]
  | .clusterBy keys sort =>
    .alternativeFields (by decide) ["items", "sort_by"] (by decide) rfl fun n m hm => by
      have hkeys := hm.required "items" rfl (.list (readAs_itemsToJson keys))
      have hsort := hm.optional "sort_by" rfl (readAs_itemsOrNull sort)
      simp [rowOrdering?, members?, hkeys, hsort]

end

/-! ## Statements -/

namespace Statement

/-- A statement is read from the JSON form that it is written as, and from every other that lacks
some of the fields that are `null` there, or has members that are no fields. -/
theorem read_toJson (a : Statement) :
    ofJson? a.toJson = some a ∧ ∀ j, a.toJson.Loosened j → ofJson? j = some a := by
  have hread {j : Json} (h : a.toJson.Loosened j) : ofJson? j = some a := by
    obtain ⟨query⟩ := a
    obtain ⟨contents, rfl, hcontents⟩ := Loosened.exists_contents (by decide) h
    have hquery := query.readAs_toJson.eq_some hcontents (Nat.lt_succ_self _)
    simp [ofJson?, decodeBy, hquery]
  exact ⟨hread (.refl _), fun j => hread⟩

/-- A statement with the least integer and the greatest position. -/
def extremeStatement : Statement :=
  .select ⟨false, [⟨.literal (.integer (-0x8000000000000000)), none⟩], none, [], none,
    [.ordinal 0xFFFFFFFFFFFFFFFF], none, none, none⟩

/-- What is written of it if nothing absent is, with a comment. -/
def extremeJson : Json :=
  .tagged "Select" (.object
    [("distinct", .boolean false), ("comment", .array [.null]),
     ("columns", .array [.object [("expr", .tagged "Literal" (.tagged "Integer"
       (.integer (-9223372036854775808))))]]),
     ("lateral_views", .array []),
     ("group_by", .array [.tagged "Ordinal" (.integer 18446744073709551615)])])

theorem read_extremeJson :
    ofJson? extremeStatement.toJson = some extremeStatement ∧
      ofJson? extremeJson = some extremeStatement := by
  have hcolumn : Loosened
      (.object [("expr", (Expr.literal (.integer (-0x8000000000000000))).toJson), ("alias", .null)])
      (.object
        [("expr", .tagged "Literal" (.tagged "Integer" (.integer (-9223372036854775808))))]) :=
    .fields (by decide) (.keep (.refl _) (.drop .nil)) nofun
  have hloosened : extremeStatement.toJson.Loosened extremeJson :=
    .alternative (by decide) <| .fields (by decide)
      (.keep (.refl _) <| .add <| .keep (.array (.cons hcolumn .nil)) <| .drop <| .keep (.refl _) <|
        .drop <| .keep (.refl _) <| .drop <| .drop <| .drop .nil)
      (by decide)
  obtain ⟨hexact, hloose⟩ := read_toJson extremeStatement
  exact ⟨hexact, hloose _ hloosened⟩

end Statement

end SqlDialects
