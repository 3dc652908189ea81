import SqlDialects.Dialect
import SqlDialects.Render.Malformed
import SqlDialects.Render.Pieces

/-!
# The text of a statement

A type that stands in a statement has a text of its own.
-/

namespace SqlDialects

/-- The text of a tree in a dialect, or what is wrong with the tree. -/
def Statement.render (d : Dialect) (s : Statement) : Except Malformed String :=
  match s.defect? with
  | some defect => .error defect
  | none => .ok (.ofList (Piece.text (s.pieces d.identifierQuote)))

theorem Statement.render_eq_ok {d : Dialect} {s : Statement} {t : String} :
    s.render d = .ok t ↔
      s.defect? = none ∧ t = .ofList (Piece.text (s.pieces d.identifierQuote)) := by
  unfold render
  cases s.defect? with
  | some defect => simp
  | none => simp [eq_comm]

theorem Statement.render_eq_error {d : Dialect} {s : Statement} {defect : Malformed} :
    s.render d = .error defect ↔ s.defect? = some defect := by
  unfold render
  cases s.defect? <;> simp

theorem Statement.exists_render_eq_error {d : Dialect} {s : Statement} :
    (∃ defect, s.render d = .error defect) ↔ s.defect? ≠ none := by
  simp only [render_eq_error, Option.ne_none_iff_exists']

/-- The text of a type in a dialect, or what is wrong with the type. -/
def DataType.render (d : Dialect) (t : DataType) : Except Malformed String :=
  match t.defect? with
  | some defect => .error defect
  | none => .ok (.ofList (Piece.text (t.pieces d.identifierQuote)))

theorem DataType.render_eq_ok {d : Dialect} {ty : DataType} {t : String} :
    ty.render d = .ok t ↔
      ty.defect? = none ∧ t = .ofList (Piece.text (ty.pieces d.identifierQuote)) := by
  unfold render
  cases ty.defect? with
  | some defect => simp
  | none => simp [eq_comm]

end SqlDialects
