/-!
# Quoting by doubling

A quoted name writes every quote character inside it twice. Main statement: `undouble` reads back
what `double` writes.
-/

namespace SqlDialects

/-- Writes every occurrence of `quote` twice. -/
def double (quote : Char) : List Char → List Char
  | [] => []
  | c :: rest => if c = quote then quote :: quote :: double quote rest else c :: double quote rest

/-- Reads every two adjacent occurrences of `quote`, from the left, as one. -/
def undouble (quote : Char) : List Char → List Char
  | c :: d :: rest =>
    if c = quote ∧ d = quote then quote :: undouble quote rest else c :: undouble quote (d :: rest)
  | rest => rest

/-- A name between two quotes, those inside it doubled. -/
def quoted (quote : Char) (name : List Char) : List Char :=
  quote :: double quote name ++ [quote]

theorem undouble_cons_of_ne {quote c : Char} (h : c ≠ quote) (rest : List Char) :
    undouble quote (c :: rest) = c :: undouble quote rest := by
  cases rest <;> simp [undouble, h]

theorem undouble_double (quote : Char) (name : List Char) :
    undouble quote (double quote name) = name := by
  induction name with
  | nil => rfl
  | cons c rest ih =>
    by_cases h : c = quote
    · simp [double, undouble, h, ih]
    · simp [double, h, undouble_cons_of_ne h, ih]

end SqlDialects
