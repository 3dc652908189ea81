import Mathlib
import SqlDialects.Proofs.Parser.Progress
import SqlDialects.Proofs.RoundTrip.Statements

/-!
# Types in casts

Main statement: the text of any type, between the `AS` and the closing parenthesis of a cast, is
read as the type with its names in upper case. Nothing is asked of the names: one that is not a word
stands in quotes, and one that is the word of a constructor is not followed by an angle bracket.
-/

namespace SqlDialects

open Piece (tokens sign keyword)

namespace TokenStream

variable {s u v : TokenStream}

/-- What is left of a stream is told by how many tokens are left. -/
theorem IsLeftOf.eq_of_length (hu : u.IsLeftOf s) (hv : v.IsLeftOf s)
    (h : u.rest.length = v.rest.length) : u = v := by
  obtain ⟨rest, span, lexeme⟩ := u
  obtain ⟨rest', span', lexeme'⟩ := v
  have hrest : rest = rest' :=
    (List.suffix_of_suffix_length_le hu.rest hv.rest h.le).eq_of_length h
  have hstop := hu.stop.trans hv.stop.symm
  simp only [TokenStream.stop, Token.mk.injEq, true_and] at hstop
  rw [hrest, hstop.1, hstop.2]

/-- The stream of the last tokens of a list is left of the stream of the list. -/
theorem isLeftOf_ofList_append {ts us : List Token} {t : Token}
    (h : ∀ x ∈ ts ++ us, x.kind ≠ .endOfInput) (ht : t.kind = .endOfInput) :
    (ofList (us ++ [t])).IsLeftOf (ofList (ts ++ (us ++ [t]))) := by
  have hall := ofList_append h ht
  have hlast := ofList_append (fun x hx => h x (List.mem_append_right ts hx)) ht
  rw [← List.append_assoc, hall, hlast]
  exact ⟨List.suffix_append _ _, rfl⟩

end TokenStream

namespace DataType

variable {ty : DataType} {quote : Char}

/-- The pieces of a cast of `x` to the type. -/
def castPieces (quote : Char) (ty : DataType) : List Piece :=
  keyword .CAST ::
    Piece.parenthesized ([.word "x", .space, keyword .AS, .space] ++ ty.pieces quote)

theorem text_castPieces (quote : Char) (ty : DataType) :
    String.ofList (Piece.text (ty.castPieces quote)) =
      "CAST(x AS " ++ String.ofList (Piece.text (ty.pieces quote)) ++ ")" := by
  apply String.toList_injective
  simp [castPieces, Piece.parenthesized, Piece.chars, keyword, sign, Mark.text, Keyword.text,
    Symbol.text]

theorem tokens_castPieces (quote : Char) (ty : DataType) :
    tokens (ty.castPieces quote) =
      [.mark (.word .CAST), .mark (.sign .leftParen), .word "x", .mark (.word .AS)] ++
        (tokens (ty.pieces quote) ++ [.mark (.sign .rightParen)]) := by
  simp [castPieces]

theorem isLegible_nodes (ty : DataType) : ∀ n ∈ ty.nodes, n.IsLegible Piece.Legible '\x60' :=
  ty.forall_nodes (fun _ => ⟨.inl rfl, trivial⟩) fun _ => ⟨.inl rfl, trivial⟩

/-- The text of a cast is read as its tokens, also where the names of the type are no words. -/
theorem tokenize_castPieces (ty : DataType) :
    ∃ ts, tokenize (.ofList (Piece.text (ty.castPieces '\x60'))) = .ok ts ∧
      ts.map Token.content =
        (tokens (ty.castPieces '\x60')).map Token.content ++ [(.endOfInput, "")] := by
  have htype := ty.settled_pieces ty.isLegible_nodes
  have hx : isBareWord "x" = true := by decide +kernel
  have hinner : Piece.Settled Piece.Legible
      ([.word "x", .space, keyword .AS, .space] ++ ty.pieces '\x60') :=
    (Piece.settled_singleton (p := .word "x") hx (by simp [sign])).append
      (Piece.trails_space_cons (Piece.settled_keyword_space htype))
  have hseparate : Piece.Separate Piece.Legible none (ty.castPieces '\x60') :=
    Piece.settled_cons_parenthesized (p := keyword .CAST) trivial (by simp [keyword, sign]) hinner Piece.isSoft_none
  have hquotable : ∀ p ∈ ty.castPieces '\x60', p.Quotable := by
    simp only [castPieces, Piece.parenthesized, List.cons_append, List.nil_append,
      List.forall_mem_cons, List.forall_mem_append]
    exact ⟨trivial, trivial, trivial, trivial, trivial, trivial, ty.quotable_pieces, trivial,
      List.forall_mem_nil _⟩
  exact Piece.tokenize_text hseparate hquotable

/-- From the tokens of a type and of what ends it, the type is read, and what ends it is left. -/
theorem dataType_of_content (hty : ∀ n ∈ ty.nodes, n.Complete) {during : List Token} {r t : Token}
    (hduring : during.map Token.content = (tokens (ty.pieces '\x60')).map Token.content)
    (hr : r.content = (.symbol .rightParen, ")")) (ht : t.content = (.endOfInput, ""))
    (d : Dialect) :
    Parser.dataType d (.ofList (during ++ [r, t])) = .ok ty.upperNames (.ofList [r, t]) := by
  have hparen : (Token.mark (.sign .rightParen)).content = r.content := hr.symm
  have hne : ∀ x ∈ tokens (ty.pieces '\x60') ++ [.mark (.sign .rightParen)],
      x.kind ≠ .endOfInput := by
    rw [List.forall_mem_append, List.forall_mem_singleton]
    exact ⟨fun _ => Lexer.kind_ne_endOfInput_of_mem_tokens, nofun⟩
  have halike : TokenStream.Alike (.ofList (during ++ [r, t]))
      (.push (tokens (ty.pieces '\x60') ++ [.mark (.sign .rightParen)]) ⟨[], .at 0, ""⟩) :=
    TokenStream.alike_ofList (by simp [hduring, hparen, ht]) hne
  -- The tokens are read as those of the pieces are, and what is left is told by its length.
  have hquotes : d.Unquotes '\x60' := .inl rfl
  have hends : (TokenStream.push [.mark (.sign .rightParen)] ⟨[], .at 0, ""⟩).current.EndsType :=
    Parser.endsType_mark (by simp) []
  have hread := (Parser.reads_dataType hquotes hty hends).ok trivial
  have hsame := Parser.sameOutcome_congruence.dataType d halike
  rw [TokenStream.push_append, hread] at hsame
  cases hp : Parser.dataType d (.ofList (during ++ [r, t])) with
  | error e u =>
    rw [hp] at hsame
    exact hsame.elim
  | ok a u =>
    rw [hp] at hsame
    obtain ⟨rfl, hu⟩ := hsame
    have hkinds : ∀ x ∈ during ++ [r], x.kind ≠ .endOfInput :=
      Token.forall_kind_of_content (P := (· ≠ .endOfInput)) (by simp [hduring, hparen]) hne
    have hforward := Parser.isLeftOf_of_ok (Parser.goesForward_congruence.dataType d) hp
    have hlast := TokenStream.isLeftOf_ofList_append (t := t) hkinds (congrArg Prod.fst ht)
    have hlength : u.rest.length = (TokenStream.ofList ([r] ++ [t])).rest.length := by
      rw [hu.length_rest, TokenStream.ofList_append (fun x hx => ?_) (congrArg Prod.fst ht)]
      · rfl
      · exact hkinds x (List.mem_append_right _ hx)
    rw [hforward.eq_of_length hlast hlength]
    rfl

/-- The text of a type in a cast is read as its tokens, and from these the type is read with its
names in upper case and nothing else changed, up to the parenthesis that closes the cast. -/
theorem dataType_render {ty : DataType} {t : String} (h : ty.render .spark = .ok t) :
    ∃ before during after, tokenize ("CAST(x AS " ++ t ++ ")") = .ok (before ++ (during ++ after)) ∧
      before.map Token.content = [(.keyword .CAST, "CAST"), (.symbol .leftParen, "("),
        (.identifier "x", "x"), (.keyword .AS, "AS")] ∧
      during.map Token.content = (tokens (ty.pieces '\x60')).map Token.content ∧
      after.map Token.content = [(.symbol .rightParen, ")"), (.endOfInput, "")] ∧
      ∀ d, Parser.dataType d (.ofList (during ++ after)) = .ok ty.upperNames (.ofList after) := by
  obtain ⟨hdefect, rfl⟩ := render_eq_ok.mp h
  have hcomplete : ∀ n ∈ ty.nodes, n.Complete := fun n hn =>
    (ty.defect?_eq_none.mp hdefect n hn).1
  obtain ⟨ts, htokens, hcontent⟩ := ty.tokenize_castPieces
  rw [text_castPieces] at htokens
  rw [tokens_castPieces, List.map_append, List.map_append, List.append_assoc, List.append_assoc]
    at hcontent
  obtain ⟨before, rest, rfl, hbefore, hrest⟩ := List.map_eq_append_iff.mp hcontent
  obtain ⟨during, after, rfl, hduring, hafter⟩ := List.map_eq_append_iff.mp hrest
  obtain ⟨r, after, rfl, hr, hafter'⟩ := List.map_eq_cons_iff.mp hafter
  obtain ⟨e, rfl, he⟩ := List.map_eq_singleton_iff.mp hafter'
  exact ⟨before, during, [r, e], htokens, hbefore.trans (by decide +kernel), hduring, hafter,
    dataType_of_content hcomplete hduring hr he⟩

/-- A type that is named like a constructor, names that are no words, and a structure without
fields before two closing brackets. -/
def oddNames : DataType :=
  .map (.simple "array")
    (.struct [⟨"select", .sized "my type" [10, 2]⟩, ⟨"a\x60b", .struct []⟩])

theorem dataType_render_oddNames :
    oddNames.render .spark =
        .ok "MAP<ARRAY, STRUCT<select \x60my type\x60(10, 2), \x60a\x60\x60b\x60 STRUCT<>>>" ∧
      ∃ before during after,
        tokenize ("CAST(x AS " ++
          "MAP<ARRAY, STRUCT<select \x60my type\x60(10, 2), \x60a\x60\x60b\x60 STRUCT<>>>" ++ ")") =
            .ok (before ++ (during ++ after)) ∧
        ∀ d, Parser.dataType d (.ofList (during ++ after)) =
          .ok (.map (.simple "ARRAY")
            (.struct [⟨"select", .sized "MY TYPE" [10, 2]⟩, ⟨"a\x60b", .struct []⟩]))
            (.ofList after) := by
  have hrender : oddNames.render .spark =
      .ok "MAP<ARRAY, STRUCT<select \x60my type\x60(10, 2), \x60a\x60\x60b\x60 STRUCT<>>>" := by
    decide +kernel
  have hupper : oddNames.upperNames = .map (.simple "ARRAY")
      (.struct [⟨"select", .sized "MY TYPE" [10, 2]⟩, ⟨"a\x60b", .struct []⟩]) := by cbv
  obtain ⟨before, during, after, htokens, -, -, -, hread⟩ := dataType_render hrender
  exact ⟨hrender, before, during, after, htokens, fun d => hupper ▸ hread d⟩

end DataType

end SqlDialects
