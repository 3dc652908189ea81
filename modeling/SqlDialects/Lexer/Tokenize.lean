import SqlDialects.Lexer.Blank
import SqlDialects.Lexer.Token

/-!
# Reading tokens one after another

A lexer is a place in a text. Each step skips what separates tokens and reads one of them; after an
error it goes on behind what the failed step has read. Main statement: a step that returns a token
other than the end of input leaves less to read, so that reading all tokens ends.
-/

namespace SqlDialects

namespace Lexer

/-- The token at a place where no blank lies, and the place behind it. -/
def readToken (l : Lexer) : Except LexError Token × Lexer :=
  let scan := scan l.rest
  let span : Span := ⟨l.offset, l.offset + byteLength scan.read⟩
  (match scan.found with
    | .ok kind => .ok ⟨kind, span, .ofList scan.read⟩
    | .error cause => .error ⟨cause, span⟩,
   ⟨span.stop, scan.rest⟩)

/-- The next token; at the end of the text, the end of input, however often it is asked for. -/
def next (l : Lexer) : Except LexError Token × Lexer :=
  match l.skipBlanks with
  | .ok start => start.readToken
  | .error span => (.error ⟨.unterminatedComment, span⟩, ⟨span.stop, []⟩)

theorem rest_length_lt_of_next {l l' : Lexer} {t : Token} (h : l.next = (.ok t, l'))
    (ht : t.kind ≠ .endOfInput) : l'.rest.length < l.rest.length := by
  unfold next at h
  split at h
  · rename_i start hs
    refine Nat.lt_of_lt_of_le ?_ (rest_suffix_of_skipFrom hs).length_le
    cases hr : start.rest with
    | nil => simp_all [readToken, scan]; grind
    | cons c rest =>
      have := scan_rest_length_lt c rest
      simp only [readToken, Prod.mk.injEq] at h
      simpa [← h.2, hr] using this
  · simp at h

/-- All tokens from a place on, the last of them the end of input, up to the first error. -/
def tokenize (l : Lexer) : Except LexError (List Token) × Lexer :=
  match _h : l.next with
  | (.error e, l') => (.error e, l')
  | (.ok t, l') =>
    if _ht : t.kind = .endOfInput then (.ok [t], l')
    else
      match tokenize l' with
      | (.error e, l'') => (.error e, l'')
      | (.ok ts, l'') => (.ok (t :: ts), l'')
  termination_by l.rest.length
  decreasing_by exact rest_length_lt_of_next _h _ht

end Lexer

/-- The tokens of a text. -/
def tokenize (text : String) : Except LexError (List Token) :=
  (Lexer.ofString text).tokenize.1

end SqlDialects
