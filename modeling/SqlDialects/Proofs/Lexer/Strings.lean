import Mathlib.Computability.Language
import SqlDialects.Proofs.Lexer.QuotedNames
import SqlDialects.Proofs.Lexer.Requests

/-!
# The grammar of strings

The body of a string is a row of pieces: an escape with the character behind it, a doubled quote, or
any other character. Main statement: exactly these bodies are read between two quotes, so that a
string literal is read back exactly if its body is one of them.
-/

namespace SqlDialects

open scoped Computability

namespace Lexer

/-- The pieces of which the bodies of strings consist. -/
def stringPieces (quote : Char) : Language Char :=
  {piece | (∃ c, piece = ['\\', c]) ∨ piece = [quote, quote] ∨
    ∃ c, c ≠ quote ∧ c ≠ '\\' ∧ piece = [c]}

section StringPieces

variable {quote : Char} {body : List Char}

theorem stringBody_append_piece {piece : List Char} (hpiece : piece ∈ stringPieces quote)
    (h : StringBody quote body) : StringBody quote (piece ++ body) := by
  obtain ⟨c, rfl⟩ | rfl | ⟨c, hc, he, rfl⟩ := hpiece
  · exact .escape c h
  · exact .doubled h
  · exact .plain hc he h

theorem kstar_append_piece {piece : List Char} (hpiece : piece ∈ stringPieces quote)
    (h : body ∈ (stringPieces quote)∗) : piece ++ body ∈ (stringPieces quote)∗ := by
  obtain ⟨pieces, rfl, hpieces⟩ := Language.mem_kstar.mp h
  exact Language.mem_kstar.mpr ⟨piece :: pieces, rfl, List.forall_mem_cons.mpr ⟨hpiece, hpieces⟩⟩

theorem mem_kstar_stringPieces : body ∈ (stringPieces quote)∗ ↔ StringBody quote body := by
  rw [Language.mem_kstar]
  constructor
  · rintro ⟨pieces, rfl, hpieces⟩
    induction pieces with
    | nil => exact .nil
    | cons piece pieces ih =>
      rw [List.forall_mem_cons] at hpieces
      exact stringBody_append_piece hpieces.1 (ih hpieces.2)
  · intro h
    rw [← Language.mem_kstar]
    induction h with
    | nil => exact Language.nil_mem_kstar _
    | escape c _ ih => exact kstar_append_piece (.inl ⟨c, rfl⟩) ih
    | doubled _ ih => exact kstar_append_piece (.inr (.inl rfl)) ih
    | @plain c _ hc he _ ih => exact kstar_append_piece (.inr (.inr ⟨c, hc, he, rfl⟩)) ih

end StringPieces

/-- A scan that finds a body as a string, between its quotes. -/
def stringScan (quote : Char) (body : String) (rest : List Char) : Scan :=
  ⟨.ok (.string body quote), quote :: body.toList ++ [quote], rest⟩

theorem isLexed_of_answer {l : Lexer} {r : Request} {ts : List Token}
    (h : (l.answer r).1 = .ok ts) : ∀ t ∈ ts, t.IsLexed := by
  cases r with
  | next =>
    cases hnext : l.next with
    | mk found l' =>
      cases found with
      | error e => simp [answer, hnext, Except.map] at h
      | ok t =>
        simp only [answer, hnext, Except.map, Except.ok.injEq] at h
        subst h
        exact List.forall_mem_singleton.mpr (isLexed_of_next hnext)
  | tokenize =>
    have htokens : l.tokenize = (.ok ts, l.tokenize.2) := Prod.ext h rfl
    obtain ⟨us, t, rfl, ⟨-, ht⟩, hus⟩ :=
      exists_append_of_tokenize (fun _ _ _ => isLexed_of_next) htokens
    exact List.forall_mem_append.mpr
      ⟨fun u hu => (hus u hu).2, List.forall_mem_singleton.mpr ht⟩

theorem string_of_isLexed {t : Token} {body : String} {quote : Char} (ht : t.IsLexed)
    (hkind : t.kind = .string body quote) :
    (quote = '\x27' ∨ quote = '\x22') ∧ body.toList ∈ (stringPieces quote)∗ := by
  obtain ⟨text, hfound⟩ := ht
  obtain ⟨hq, hbody⟩ := stringBody_of_found (hkind ▸ hfound)
  exact ⟨hq, mem_kstar_stringPieces.mpr hbody⟩

theorem next_string_iff {quote : Char} (hq : quote = '\x27' ∨ quote = '\x22') (body : String)
    {rest : List Char} (hrest : rest.head? ≠ some quote) (offset : Nat) :
    next ⟨offset, quote :: body.toList ++ quote :: rest⟩ =
        (stringScan quote body rest).readAt offset ↔
      body.toList ∈ (stringPieces quote)∗ := by
  constructor
  · intro hnext
    exact (string_of_isLexed (isLexed_of_next hnext) rfl).2
  · intro hbody
    exact next_of_scan (skipFrom_of_quote (.inr hq) offset _)
      (scan_string hq (mem_kstar_stringPieces.mp hbody) hrest)

theorem tokenize_stringLiteral_iff (body : String) (quote names : Char) :
    SqlDialects.tokenize ((Literal.string body quote).text names) =
        .ok (Token.alone (.string body quote) ((Literal.string body quote).text names)) ↔
      (quote = '\x27' ∨ quote = '\x22') ∧ body.toList ∈ (stringPieces quote)∗ := by
  constructor
  · intro htokens
    have hanswer : ((ofString ((Literal.string body quote).text names)).answer .tokenize).1 = _ :=
      htokens
    exact string_of_isLexed (isLexed_of_answer hanswer _ List.mem_cons_self) rfl
  · rintro ⟨hq, hbody⟩
    have hlegible : (Literal.string body quote).piece.Legible :=
      ⟨hq, mem_kstar_stringPieces.mp hbody⟩
    exact Literal.tokenize_text hlegible rfl names

/-- Between two quotes, in front of anything but a third one, exactly the rows of pieces are read as
the body of a string. The strings that a lexer tells have no other bodies, and a string literal is
read back as it is written exactly if its body is one of these. -/
theorem string_iff_mem_kstar :
    (∀ (quote : Char) (body : String) (rest : List Char) (offset : Nat),
      (quote = '\x27' ∨ quote = '\x22') → rest.head? ≠ some quote →
        (next ⟨offset, quote :: body.toList ++ quote :: rest⟩ =
            (stringScan quote body rest).readAt offset ↔
          body.toList ∈ (stringPieces quote)∗)) ∧
    (∀ (l : Lexer) (r : Request) (ts : List Token), (l.answer r).1 = .ok ts →
      ∀ t ∈ ts, ∀ (body : String) (quote : Char), t.kind = .string body quote →
        (quote = '\x27' ∨ quote = '\x22') ∧ body.toList ∈ (stringPieces quote)∗) ∧
    ∀ (body : String) (quote names : Char),
      SqlDialects.tokenize ((Literal.string body quote).text names) =
          .ok (Token.alone (.string body quote) ((Literal.string body quote).text names)) ↔
        (quote = '\x27' ∨ quote = '\x22') ∧ body.toList ∈ (stringPieces quote)∗ := by
  refine ⟨?_, ?_, tokenize_stringLiteral_iff⟩
  · intro quote body rest offset hq hrest
    exact next_string_iff hq body hrest offset
  · intro l r ts h t ht body quote hkind
    exact string_of_isLexed (isLexed_of_answer h t ht) hkind

/-- A body with a doubled quote and an escaped one, in front of a semicolon. -/
theorem next_quotesInString :
    "it\x27\x27s \\\x27".toList ∈ (stringPieces '\x27')∗ ∧ List.head? [';'] ≠ some '\x27' ∧
      next ⟨0, '\x27' :: "it\x27\x27s \\\x27".toList ++ '\x27' :: [';']⟩ =
        (stringScan '\x27' "it\x27\x27s \\\x27" [';']).readAt 0 := by
  have hsplit : splitString '\x27' "it\x27\x27s \\\x27\x27".toList =
      some ("it\x27\x27s \\\x27".toList, []) := by decide
  have hbody := mem_kstar_stringPieces.mpr (stringBody_of_splitString hsplit).1
  have hrest : List.head? [';'] ≠ some '\x27' := by decide
  exact ⟨hbody, hrest, (string_iff_mem_kstar.1 '\x27' _ _ 0 (.inl rfl) hrest).mpr hbody⟩

end Lexer

end SqlDialects
