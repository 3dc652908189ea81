import SqlDialects.Lexer.Basic
import SqlDialects.Span
import SqlDialects.Unicode.WhiteSpace

/-!
# What separates tokens

White space, line comments and block comments. A line comment runs to the end of its line, a block
comment to the first closing mark; block comments do not nest.
-/

namespace SqlDialects

namespace Lexer

/-- What is being skipped: white space, or a comment of either kind. -/
inductive Blank where
  | between
  | lineComment
  | blockComment (start : Nat)

/-- The place of the first character that belongs to a token, or the span of a block comment that
is never closed. -/
def skipFrom : Blank → Nat → List Char → Except Span Lexer
  | .between, offset, '-' :: '-' :: rest => skipFrom .lineComment (offset + 2) rest
  | .between, offset, '/' :: '*' :: rest => skipFrom (.blockComment offset) (offset + 2) rest
  | .between, offset, c :: rest =>
    if Unicode.isWhiteSpace c then skipFrom .between (offset + c.utf8Size) rest
    else .ok ⟨offset, c :: rest⟩
  | .lineComment, offset, c :: rest =>
    skipFrom (if c = '\n' then .between else .lineComment) (offset + c.utf8Size) rest
  | .blockComment _, offset, '*' :: '/' :: rest => skipFrom .between (offset + 2) rest
  | .blockComment start, offset, c :: rest =>
    skipFrom (.blockComment start) (offset + c.utf8Size) rest
  | .blockComment start, offset, [] => .error ⟨start, offset⟩
  | _, offset, [] => .ok ⟨offset, []⟩

/-- The place of the next token. -/
def skipBlanks (l : Lexer) : Except Span Lexer :=
  skipFrom .between l.offset l.rest

theorem rest_suffix_of_skipFrom {mode : Blank} {offset : Nat} {text : List Char} {l : Lexer}
    (h : skipFrom mode offset text = .ok l) : l.rest <:+ text := by
  fun_induction skipFrom mode offset text <;> grind [List.IsSuffix]

end Lexer

end SqlDialects
