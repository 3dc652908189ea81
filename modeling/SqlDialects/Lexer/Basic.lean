/-!
# Places in a text
-/

namespace SqlDialects

/-- The number of UTF-8 bytes of a text. -/
def byteLength : List Char → Nat
  | [] => 0
  | c :: rest => c.utf8Size + byteLength rest

@[simp] theorem byteLength_nil : byteLength [] = 0 := rfl

@[simp] theorem byteLength_cons (c : Char) (text : List Char) :
    byteLength (c :: text) = c.utf8Size + byteLength text := rfl

@[simp] theorem byteLength_append (a b : List Char) :
    byteLength (a ++ b) = byteLength a + byteLength b := by
  induction a with
  | nil => simp
  | cons c rest ih => simp [ih, Nat.add_assoc]

/-- A place in a text: how many bytes lie before it, and the characters from it on. -/
structure Lexer where
  offset : Nat
  rest : List Char
  deriving DecidableEq

/-- The beginning of a text. -/
def Lexer.ofString (text : String) : Lexer :=
  ⟨0, text.toList⟩

end SqlDialects
