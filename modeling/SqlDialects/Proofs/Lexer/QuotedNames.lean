import SqlDialects.Proofs.Lexer.Misread

/-!
# Names in the quotes of a dialect

A text that is a single piece is read as the token that the piece stands for, and nothing else.
Main statement: in backticks every name is read back, and in double quotes exactly those names are
in which no escape takes a quote or the end of the name.
-/

namespace SqlDialects

/-- The text consists of one token of a kind, which the end of input follows. -/
def Token.alone (kind : TokenKind) (text : String) : List Token :=
  [⟨kind, ⟨0, byteLength text.toList⟩, text⟩,
    ⟨.endOfInput, .at (byteLength text.toList), ""⟩]

theorem Piece.tokenize_chars {p : Piece} {k : TokenKind} (hp : p.Legible) (hq : p.Quotable)
    (hend : p.EndsBefore none) (hk : p.kind? = some k) :
    tokenize (.ofList p.chars) = .ok (Token.alone k (.ofList p.chars)) := by
  have hspace : p ≠ .space := by
    rintro rfl
    cases hk
  have hlast : p.EndsBefore ([] : List Char).head? := hend
  have hskip := Lexer.skipFrom_piece 0 hp hlast hspace
  have hscan := Lexer.scan_piece hp hq hlast hk
  rw [List.append_nil] at hskip hscan
  have hnext : Lexer.next ⟨0, p.chars⟩ =
      (.ok ⟨k, ⟨0, byteLength p.chars⟩, .ofList p.chars⟩, ⟨byteLength p.chars, []⟩) := by
    simp only [Lexer.next, Lexer.skipBlanks, hskip, Lexer.readToken, hscan, Nat.zero_add]
  have htokens := (Lexer.tokenize_cons hnext (Lexer.kind_ne_endOfInput hk)).mpr
    ⟨_, rfl, Lexer.tokenize_nil (byteLength p.chars)⟩
  rw [tokenize, Lexer.ofString, String.toList_ofList, htokens, Token.alone, String.toList_ofList]

/-- A literal as it is written in an expression, whatever the quotes of names are. -/
def Literal.text (value : Literal) (quote : Char) : String :=
  .ofList (Piece.text ((Expr.literal value).pieces quote))

theorem Literal.tokenize_text {value : Literal} {k : TokenKind} (hp : value.piece.Legible)
    (hk : value.piece.kind? = some k) (quote : Char) :
    tokenize (value.text quote) = .ok (Token.alone k (value.text quote)) := by
  have htext : value.text quote = .ofList value.piece.chars := by
    simp [text, Expr.pieces]
  have hquotable : value.piece.Quotable := by
    cases value with
    | boolean b => cases b <;> trivial
    | _ => trivial
  have hend : value.piece.EndsBefore none := by
    cases value with
    | boolean b => cases b <;> rintro _ ⟨⟩
    | string body q => rintro ⟨⟩
    | _ => rintro _ ⟨⟩
  rw [htext]
  exact Piece.tokenize_chars hp hquotable hend hk

namespace Dialect

open Lexer (Survives)

/-- A name that is written between double quotes and read back as itself survives: whatever else is
read there is a name of another length. -/
theorem survives_of_identifier? {name : String} {t stop : Token}
    (h : tokenize (generic.quoteIdentifier name) = .ok [t, stop])
    (hname : t.identifier? generic = some name) : Survives name := by
  have htokens : Lexer.tokenize ⟨0, quoted '\x22' name.toList ++ []⟩ =
      (.ok [t, stop], (Lexer.ofString (generic.quoteIdentifier name)).tokenize.2) := by
    rw [List.append_nil, ← h]
    simp only [tokenize, Lexer.ofString, quoteIdentifier, String.toList_ofList]
    rfl
  obtain ⟨_, _, body, ⟨⟩, hkind, hread⟩ := Lexer.tokenize_name (by simp) htokens
  simp only [Token.identifier?, hkind] at hname
  have hlength : (undouble '\x22' body.toList).length = name.toList.length := by
    rw [← Option.some.inj hname, String.toList_ofList]
  exact hread.survives_of_length hlength

theorem tokenize_quoteIdentifier_generic {name : String} (h : Survives name) :
    tokenize (generic.quoteIdentifier name) = .ok (Token.alone
      (.string (.ofList (double '\x22' name.toList)) '\x22') (generic.quoteIdentifier name)) :=
  Piece.tokenize_chars (p := .name name '\x22') (.inr rfl) (fun _ => h) (by nofun) rfl

/-- In the quotes of Spark every name is read back. In those of the generic dialect a name is read
back exactly if no backslash that belongs with what follows it stands before a quote or at the
end. -/
theorem tokenize_quoteIdentifier (name : String) :
    tokenize (spark.quoteIdentifier name) =
        .ok (Token.alone (.identifier name) (spark.quoteIdentifier name)) ∧
      ((∃ t stop, tokenize (generic.quoteIdentifier name) = .ok [t, stop] ∧
          stop.kind = .endOfInput ∧ t.identifier? generic = some name) ↔ Survives name) := by
  constructor
  · exact Piece.tokenize_chars (p := .name name '\x60') (.inl rfl) (fun h => nomatch h)
      (by nofun) rfl
  · constructor
    · rintro ⟨t, stop, htokens, -, hname⟩
      exact survives_of_identifier? htokens hname
    · intro h
      refine ⟨_, _, tokenize_quoteIdentifier_generic h, rfl, ?_⟩
      have hbody : undouble '\x22' (double '\x22' name.toList) = name.toList :=
        undouble_double '\x22' name.toList
      simp [Token.identifier?, generic, hbody]

/-- Of two backslashes before a quote, the second one belongs to the first. -/
example : Survives "a\\\\\x22" ∧ ¬ Survives "a\\\\\\\x22" := by decide

end Dialect

end SqlDialects
