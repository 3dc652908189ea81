/-!
# Classes of characters as unions of code point ranges
-/

namespace SqlDialects.Unicode

/-- A class of characters as its maximal runs of code points, each with its two ends included. -/
abbrev Ranges := List (Nat × Nat)

/-- Membership of a character in one of the runs. -/
def Ranges.contains (table : Ranges) (c : Char) : Bool :=
  table.any fun (first, last) => first ≤ c.toNat && c.toNat ≤ last

theorem Ranges.contains_iff {table : Ranges} {c : Char} :
    table.contains c = true ↔ ∃ r ∈ table, r.1 ≤ c.toNat ∧ c.toNat ≤ r.2 := by
  simp [Ranges.contains]

end SqlDialects.Unicode
