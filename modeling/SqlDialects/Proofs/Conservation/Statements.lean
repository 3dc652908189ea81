import SqlDialects.Proofs.Conservation.Queries
import SqlDialects.Proofs.RoundTrip.FixedPoints

/-!
# Nothing is lost between a text and its rendering

The tokens of a text that is read and those of the text that is written carry the same numbers,
strings and names, in the same order.
-/

namespace SqlDialects.Statement

variable {d : Dialect} {text t : String} {a : Statement}

/-- A statement has the payload of the text it is read from. -/
theorem payload_of_parse {quote : Char} (hq : d.Unquotes quote) (h : parse d text = .ok a) :
    ∃ ts, tokenize text = .ok ts ∧ payload d ts = Piece.payload d (a.pieces quote) := by
  obtain ⟨s, s', hs, hstatement⟩ := parse_eq_ok.mp h
  obtain ⟨ts, hts, rfl⟩ := TokenStream.ofText_eq_ok.mp hs
  obtain ⟨hspelled, hpayload⟩ := TokenStream.payload_ofList hts d
  exact ⟨ts, hts, hpayload ▸ Parser.payload_of_statement hq hspelled hstatement⟩

/-- In a dialect with backticks, the text that is read and the text that is written carry the
same. -/
theorem payload_render (hq : d.identifierQuote = '\x60') (h : parse d text = .ok a)
    (ht : a.render d = .ok t) :
    ∃ ts us, tokenize text = .ok ts ∧ tokenize t = .ok us ∧ payload d ts = payload d us := by
  have hquotes : d.Unquotes d.identifierQuote := .inl hq
  have hnames : d.identifierQuote = '\x22' → ∀ name ∈ a.names, Lexer.Survives name :=
    fun hd => absurd (hq.symm.trans hd) (by decide)
  obtain ⟨ts, hts, hread⟩ := payload_of_parse hquotes h
  obtain ⟨us, hus, hcontent⟩ := tokenize_render hquotes (readable_of_parse h) hnames ht
  refine ⟨ts, us, hts, hus, hread.trans ?_⟩
  calc Piece.payload d (a.pieces d.identifierQuote)
    _ = payload d (Piece.tokens (a.pieces d.identifierQuote) ++ [.bare .endOfInput ""]) := by
      rw [payload_append]
      exact (List.append_nil _).symm
    _ = payload d us := payload_congr d (by rw [hcontent]; simp [Token.content, Token.bare])

/-- A call with a string among its arguments, under a label that is spelled like a keyword. -/
def labelledCall : Statement :=
  .select ⟨false,
    [⟨.call ⟨"f", [.column [] "b", .literal (.string "x" '\x22')], false, false, none⟩, some "left"⟩],
    some ⟨.table none "t" none, []⟩, [], none, [], none, none, none⟩

theorem payload_render_labelledCall :
    parse .spark "SELECT f(b, \x22x\x22) AS \x60left\x60 FROM t" = .ok labelledCall ∧
      ∃ ts us, tokenize "SELECT f(b, \x22x\x22) AS \x60left\x60 FROM t" = .ok ts ∧
        tokenize "SELECT F(\x60b\x60, \x22x\x22) AS \x60left\x60 FROM \x60t\x60" = .ok us ∧
        payload .spark ts = payload .spark us := by
  have h : parse .spark "SELECT f(b, \x22x\x22) AS \x60left\x60 FROM t" = .ok labelledCall := by cbv
  have ht : labelledCall.render .spark =
      .ok "SELECT F(\x60b\x60, \x22x\x22) AS \x60left\x60 FROM \x60t\x60" := by cbv
  exact ⟨h, payload_render rfl h ht⟩

end SqlDialects.Statement
