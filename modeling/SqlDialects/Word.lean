import SqlDialects.Unicode.Alphabetic
import SqlDialects.Unicode.Numeric

/-!
# Words

The texts that may stand unquoted as a name or a keyword.
-/

namespace SqlDialects

/-- A word begins with an alphabetic character or an underscore. -/
def isWordStart (c : Char) : Bool :=
  Unicode.isAlphabetic c || c == '_'

/-- Behind its first character a word may hold numeric characters too. -/
def isWordPart (c : Char) : Bool :=
  Unicode.isAlphabetic c || Unicode.isNumeric c || c == '_'

/-- The texts that are one whole word. -/
def isBareWord (text : String) : Bool :=
  match text.toList with
  | [] => false
  | c :: rest => isWordStart c && rest.all isWordPart

theorem isWordPart_of_isWordStart {c : Char} (h : isWordStart c = true) : isWordPart c = true := by
  simp only [isWordStart, Bool.or_eq_true] at h
  simp only [isWordPart, Bool.or_eq_true]
  exact h.elim (fun a => .inl (.inl a)) .inr

end SqlDialects
