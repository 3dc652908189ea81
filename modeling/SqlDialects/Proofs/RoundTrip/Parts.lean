import SqlDialects.Proofs.RoundTrip.Tokens

/-!
# Lists of parts, part by part

The pieces and the canonical form of one entry of each list that a tree holds. Those of the list are
the ones of its entries.
-/

namespace SqlDialects

open Piece (keyword phrase parenthesized)

/-! ## Types -/

def StructField.pieces (quote : Char) (f : StructField) : List Piece :=
  Piece.fieldName quote f.name :: .space :: f.dataType.pieces quote

theorem fieldsPieces_eq_map (quote : Char) (fields : List StructField) :
    fieldsPieces quote fields = fields.map (·.pieces quote) := by
  induction fields with
  | nil => rfl
  | cons f rest ih =>
    cases f
    rw [fieldsPieces, ih]
    rfl

/-! ## Expressions -/

@[simp] theorem exprsPieces_eq_map (quote : Char) (list : List Expr) :
    exprsPieces quote list = list.map (·.pieces quote) := by
  induction list with
  | nil => rfl
  | cons e rest ih => rw [exprsPieces, ih]; rfl

@[simp] theorem exprsCanonical_eq_map (list : List Expr) :
    exprsCanonical list = list.map (·.canonical) := by
  induction list with
  | nil => rfl
  | cons e rest ih => rw [exprsCanonical, ih]; rfl

def WhenClause.pieces (quote : Char) (c : WhenClause) : List Piece :=
  [.space, keyword .WHEN, .space] ++ c.condition.pieces quote ++
    [.space, keyword .THEN, .space] ++ c.result.pieces quote

def WhenClause.canonical (c : WhenClause) : WhenClause :=
  ⟨c.condition.canonical, c.result.canonical⟩

@[simp] theorem clausesPieces_eq_flatMap (quote : Char) (clauses : List WhenClause) :
    clausesPieces quote clauses = clauses.flatMap (·.pieces quote) := by
  induction clauses with
  | nil => rfl
  | cons c rest ih =>
    cases c
    rw [clausesPieces, ih]
    rfl

@[simp] theorem clausesCanonical_eq_map (clauses : List WhenClause) :
    clausesCanonical clauses = clauses.map (·.canonical) := by
  induction clauses with
  | nil => rfl
  | cons c rest ih =>
    cases c
    rw [clausesCanonical, ih]
    rfl

/-! ## Orderings -/

/-- The place of nulls, if one is asked for. -/
def nullsPieces : Option NullOrdering → List Piece
  | none => []
  | some n => .space :: phrase n.marks

def OrderItem.pieces (quote : Char) (i : OrderItem) : List Piece :=
  i.key.pieces quote ++ .space :: phrase (i.direction.getD .asc).marks ++ nullsPieces i.nulls

def OrderItem.canonical (i : OrderItem) : OrderItem :=
  ⟨i.key.canonical, some (i.direction.getD .asc), i.nulls⟩

@[simp] theorem itemsPieces_eq_map (quote : Char) (items : List OrderItem) :
    itemsPieces quote items = items.map (·.pieces quote) := by
  induction items with
  | nil => rfl
  | cons i rest ih =>
    rcases i with ⟨_, _, _ | _⟩ <;> simp [itemsPieces, OrderItem.pieces, nullsPieces, ih]

@[simp] theorem itemsCanonical_eq_map (items : List OrderItem) :
    itemsCanonical items = items.map (·.canonical) := by
  induction items with
  | nil => rfl
  | cons i rest ih =>
    cases i
    rw [itemsCanonical, ih]
    rfl

@[simp] theorem keysPieces_eq_map (quote : Char) (keys : List OrderItem) :
    keysPieces quote keys = keys.map fun k => k.key.pieces quote := by
  induction keys with
  | nil => rfl
  | cons k rest ih =>
    cases k
    rw [keysPieces, ih]
    rfl

/-- Keys without directions stay so. -/
theorem keysCanonical_eq_map {keys : List OrderItem} (h : ∀ k ∈ keys, k.IsPlain) :
    keysCanonical keys = keys.map fun k => ⟨k.key.canonical, none, none⟩ := by
  induction keys with
  | nil => rfl
  | cons k rest ih =>
    rw [List.forall_mem_cons] at h
    obtain ⟨key, direction, nulls⟩ := k
    obtain ⟨⟨rfl, rfl⟩, hrest⟩ := h
    rw [keysCanonical, ih hrest]
    rfl

/-- A list behind the keywords that it is written with; an empty one is left out. -/
def listedPieces (marks : List Mark) (items : List (List Piece)) : List Piece :=
  if items.isEmpty then [] else phrase marks ++ .space :: Piece.commaSeparated items

@[simp] theorem tokens_listedPieces (marks : List Mark) (items : List (List Piece)) :
    Piece.tokens (listedPieces marks items) =
      if items.isEmpty then []
      else marks.map .mark ++ Piece.tokens (Piece.commaSeparated items) := by
  unfold listedPieces
  split
  · rfl
  · rw [Piece.tokens_append, Piece.tokens_phrase, Piece.tokens_space_cons]

theorem length_commaSeparated_le (marks : List Mark) (items : List (List Piece)) :
    (Piece.tokens (Piece.commaSeparated items)).length ≤
      (Piece.tokens (listedPieces marks items)).length := by
  rw [tokens_listedPieces]
  split
  · simp_all
  · simp

def Window.canonical (w : Window) : Window :=
  ⟨exprsCanonical w.partition, itemsCanonical w.order⟩

theorem windowCanonical_eq_map (w : Option Window) :
    windowCanonical w = w.map (·.canonical) := by
  rcases w with _ | ⟨_, _⟩ <;> rfl

/-- What stands between the parentheses of a window. -/
def Window.pieces (quote : Char) (w : Window) : List Piece :=
  listedPieces [.word .PARTITION, .word .BY] (exprsPieces quote w.partition) ++
    (if w.partition.isEmpty || w.order.isEmpty then [] else [.space]) ++
    listedPieces OrderingKind.orderBy.marks (itemsPieces quote w.order)

theorem windowPieces_some (quote : Char) (w : Window) :
    windowPieces quote (some w) =
      [.space, keyword .OVER, .space] ++ parenthesized (w.pieces quote) := by
  obtain ⟨partition, order⟩ := w
  simp [windowPieces, Window.pieces, listedPieces]

/-! ## Queries -/

def SelectItem.pieces (quote : Char) (c : SelectItem) : List Piece :=
  c.value.pieces quote ++ Piece.label quote c.label

def SelectItem.canonical (c : SelectItem) : SelectItem :=
  ⟨c.value.canonical, c.label⟩

@[simp] theorem columnsPieces_eq_map (quote : Char) (columns : List SelectItem) :
    columnsPieces quote columns = columns.map (·.pieces quote) := by
  induction columns with
  | nil => rfl
  | cons c rest ih =>
    cases c
    rw [columnsPieces, ih]
    rfl

@[simp] theorem columnsCanonical_eq_map (columns : List SelectItem) :
    columnsCanonical columns = columns.map (·.canonical) := by
  induction columns with
  | nil => rfl
  | cons c rest ih =>
    cases c
    rw [columnsCanonical, ih]
    rfl

def Join.pieces (quote : Char) (j : Join) : List Piece :=
  .space :: phrase j.type.marks ++ .space :: j.relation.pieces quote ++
    optionalPieces quote [.space, keyword .ON, .space] j.condition ++
    (if j.columns.isEmpty then []
     else [.space, keyword .USING, .space] ++ parenthesized (Piece.names quote j.columns))

def Join.canonical (j : Join) : Join :=
  ⟨j.type, j.relation.canonical, optionalCanonical j.condition, j.columns⟩

@[simp] theorem joinsPieces_eq_flatMap (quote : Char) (joins : List Join) :
    joinsPieces quote joins = joins.flatMap (·.pieces quote) := by
  induction joins with
  | nil => rfl
  | cons j rest ih =>
    cases j
    rw [joinsPieces, ih]
    rfl

@[simp] theorem joinsCanonical_eq_map (joins : List Join) :
    joinsCanonical joins = joins.map (·.canonical) := by
  induction joins with
  | nil => rfl
  | cons j rest ih =>
    cases j
    rw [joinsCanonical, ih]
    rfl

def LateralView.pieces (quote : Char) (v : LateralView) : List Piece :=
  .space :: phrase [.word .LATERAL, .word .VIEW] ++ .space ::
    (if v.outer then [keyword .OUTER, .space] else []) ++ v.generator.pieces quote ++
    [.space, .name v.table quote, .space, keyword .AS, .space] ++ Piece.names quote v.columns

def LateralView.canonical (v : LateralView) : LateralView :=
  ⟨v.outer, v.generator.canonical, v.table, v.columns⟩

@[simp] theorem viewsPieces_eq_flatMap (quote : Char) (views : List LateralView) :
    viewsPieces quote views = views.flatMap (·.pieces quote) := by
  induction views with
  | nil => rfl
  | cons v rest ih =>
    cases v
    rw [viewsPieces, ih]
    rfl

@[simp] theorem viewsCanonical_eq_map (views : List LateralView) :
    viewsCanonical views = views.map (·.canonical) := by
  induction views with
  | nil => rfl
  | cons v rest ih =>
    cases v
    rw [viewsCanonical, ih]
    rfl

def GroupItem.pieces (quote : Char) : GroupItem → List Piece
  | .value key => key.pieces quote
  | .ordinal position => [.integer position.toNat]

def GroupItem.canonical : GroupItem → GroupItem
  | .value key => .value key.canonical
  | .ordinal position => .ordinal position

@[simp] theorem groupsPieces_eq_map (quote : Char) (groups : List GroupItem) :
    groupsPieces quote groups = groups.map (·.pieces quote) := by
  induction groups with
  | nil => rfl
  | cons g rest ih => cases g <;> rw [groupsPieces, ih] <;> rfl

@[simp] theorem groupsCanonical_eq_map (groups : List GroupItem) :
    groupsCanonical groups = groups.map (·.canonical) := by
  induction groups with
  | nil => rfl
  | cons g rest ih => cases g <;> rw [groupsCanonical, ih] <;> rfl

end SqlDialects
