import SqlDialects.Proofs.Render.Legible
import SqlDialects.Proofs.Render.Quotes
import SqlDialects.Proofs.RoundTrip.Expressions
import SqlDialects.Proofs.RoundTrip.Queries

/-!
# Written statements are read back

The text of a statement is read as its tokens, and these as its canonical tree, if no lateral view
has a generator that is read as something else. Where one has, the text is refused.
-/

namespace SqlDialects

open Piece (tokens)

namespace Parser

variable {d : Dialect} {quote : Char}

/-- The parsers of nested expressions and queries read back all that nests as deep as they go. -/
theorem nestedWithin_readsBack (hq : d.Unquotes quote) (n : Nat) :
    (nestedWithin d n).ReadsBack d quote n := by
  induction n with
  | zero =>
    exact ⟨fun _ _ _ _ _ hlen => absurd hlen (Nat.not_lt_zero _),
      fun _ _ _ hlen => absurd hlen (Nat.not_lt_zero _), fun _ _ h => absurd h (Nat.lt_irrefl 0)⟩
  | succ n ih =>
    refine ⟨fun m e s hn hm hlen hs => ?_, fun q s hn hlen hs => ?_, fun t s _ ht hs => ?_⟩
    · exact reads_expressionOf ih hq hn hm (Nat.le_of_lt_succ hlen) hs
    · refine reads_queryOf ih hq hn (Nat.le_of_lt_succ hlen) ?_
      obtain h | h := hs <;> rw [h] <;> decide
    · exact reads_expressionOf_star ht hs

theorem reads_query (hq : d.Unquotes quote) {q : Select} {s : TokenStream}
    (hn : ∀ x ∈ q.nodes, x.Readable d)
    (hs : s.current.kind = .symbol .rightParen ∨ s.current.kind = .endOfInput) :
    Reads (∀ x ∈ q.nodes, x.ViewReadable) (query d) (tokens (q.pieces quote)) q.canonical s := by
  have hlen : (tokens (q.pieces quote)).length <
      (s.push (tokens (q.pieces quote))).rest.length + 1 := by
    rw [TokenStream.rest_push, List.length_append]
    omega
  have h := (nestedWithin_readsBack hq _).query hn hlen hs
  exact .congr (q := (nestedWithin d ((s.push (tokens (q.pieces quote))).rest.length + 1)).query)
    rfl h

theorem reads_statement (hq : d.Unquotes quote) {a : Statement} {s : TokenStream}
    (hn : ∀ x ∈ a.nodes, x.Readable d) (hs : s.rest = []) :
    Reads (∀ x ∈ a.nodes, x.ViewReadable) (statement d) (tokens (a.pieces quote)) a.canonical
      s := by
  obtain ⟨q⟩ := a
  have hend : s.current.kind = .endOfInput := by
    rw [TokenStream.current, hs]
    rfl
  have hsemicolon : s.current.kind ≠ .symbol .semicolon := by simp [hend]
  refine .of_append_nil (Reads.iff (.bind (reads_query hq hn (.inr hend)) (.decline hsemicolon
    (.kind (.pos hend (.pure _))))) (and_iff_left trivial).symm)

end Parser

/-! ## Texts -/

theorem Token.forall_kind_of_content {P : TokenKind → Prop} {ts us : List Token}
    (h : ts.map Token.content = us.map Token.content) (hus : ∀ t ∈ us, P t.kind) :
    ∀ t ∈ ts, P t.kind := by
  intro t ht
  obtain ⟨u, hu, hcontent⟩ := List.mem_map.mp (h ▸ List.mem_map_of_mem ht)
  have hkind : u.kind = t.kind := congrArg Prod.fst hcontent
  exact hkind ▸ hus u hu

/-- A list of tokens is the stream of what stands before its end of input. -/
theorem TokenStream.alike_ofList {ts us : List Token}
    (h : ts.map Token.content = us.map Token.content ++ [(.endOfInput, "")])
    (hus : ∀ t ∈ us, t.kind ≠ .endOfInput) :
    Alike (ofList ts) (push us ⟨[], .at 0, ""⟩) := by
  obtain ⟨ts, last, rfl, hts, hlast⟩ := List.map_eq_append_iff.mp h
  obtain ⟨t, rfl, ht⟩ := List.map_eq_singleton_iff.mp hlast
  have hkind : t.kind = .endOfInput := congrArg Prod.fst ht
  have hlexeme : t.lexeme = "" := congrArg Prod.snd ht
  have hne : ∀ x ∈ ts, x.kind ≠ .endOfInput :=
    Token.forall_kind_of_content (P := (· ≠ .endOfInput)) hts hus
  rw [ofList_append hne hkind]
  exact ⟨by simpa [push] using hts, hlexeme⟩

theorem Dialect.Unquotes.isQuote {d : Dialect} {quote : Char} (hq : d.Unquotes quote) :
    Piece.IsQuote quote :=
  hq.imp_right And.left

theorem Node.isLegible_of_tidy {d : Dialect} {quote : Char} {n : Node} (hq : d.Unquotes quote)
    (htidy : n.Tidy) (hliteral : n.LiteralReadsBack d) : n.IsLegible Piece.Legible quote := by
  refine ⟨hq.isQuote, ?_⟩
  split
  · exact hliteral.1
  · have hlt := htidy
    simp only [Tidy] at hlt
    exact ⟨by omega, by omega⟩
  · trivial

theorem Node.Readable.isLegible {d : Dialect} {quote : Char} {n : Node} (hq : d.Unquotes quote)
    (h : n.Readable d) : n.IsLegible Piece.Legible quote :=
  isLegible_of_tidy hq h.tidy h.literal

namespace Statement

variable {d : Dialect} {a b : Statement} {t : String}

theorem forall_views :
    (∀ v ∈ a.views, v.IsReadable) ↔ ∀ n ∈ a.nodes, n.ViewReadable := by
  simp only [views, List.mem_filterMap]
  refine ⟨fun h n hn => ?_, fun h v ⟨n, hn, hv⟩ => ?_⟩
  · cases n with
    | view v => exact h v ⟨_, hn, rfl⟩
    | _ => trivial
  · cases n with
    | view u =>
      cases hv
      exact h _ hn
    | _ => cases hv

/-- A tree whose literals are tokens and whose names can be quoted is written as a text with the
tokens of its pieces. -/
theorem tokenize_render_of_legible
    (hlegible : ∀ n ∈ a.nodes, n.IsLegible Piece.Legible d.identifierQuote)
    (hnames : d.identifierQuote = '\x22' → ∀ name ∈ a.names, Lexer.Survives name)
    (ht : a.render d = .ok t) :
    ∃ ts, tokenize t = .ok ts ∧
      ts.map Token.content =
        (tokens (a.pieces d.identifierQuote)).map Token.content ++ [(.endOfInput, "")] := by
  obtain ⟨-, rfl⟩ := render_eq_ok.mp ht
  exact Piece.tokenize_text (separate_pieces hlegible) ((a.quotable_pieces_iff _).mpr hnames)

theorem tokenize_render (hq : d.Unquotes d.identifierQuote) (hn : ∀ n ∈ a.nodes, n.Readable d)
    (hnames : d.identifierQuote = '\x22' → ∀ name ∈ a.names, Lexer.Survives name)
    (ht : a.render d = .ok t) :
    ∃ ts, tokenize t = .ok ts ∧
      ts.map Token.content =
        (tokens (a.pieces d.identifierQuote)).map Token.content ++ [(.endOfInput, "")] :=
  tokenize_render_of_legible (fun n hmem => (hn n hmem).isLegible hq) hnames ht

/-- A tree whose names can be quoted is written as a text that is read as its canonical tree, or,
where it has lateral views that are not readable, as no tree at all. -/
theorem parse_render_iff (hq : d.Unquotes d.identifierQuote) (hn : ∀ n ∈ a.nodes, n.Readable d)
    (hnames : d.identifierQuote = '\x22' → ∀ name ∈ a.names, Lexer.Survives name)
    (ht : a.render d = .ok t) :
    parse d t = .ok b ↔ (∀ v ∈ a.views, v.IsReadable) ∧ b = a.canonical := by
  obtain ⟨ts, htokens, hcontent⟩ := tokenize_render hq hn hnames ht
  have hstream : TokenStream.ofText t = .ok (.ofList ts) :=
    TokenStream.ofText_eq_ok.mpr ⟨ts, htokens, rfl⟩
  have hpieces : ∀ t ∈ tokens (a.pieces d.identifierQuote), t.kind ≠ .endOfInput := fun _ =>
    Lexer.kind_ne_endOfInput_of_mem_tokens
  have hsame := Parser.sameOutcome_statement d (TokenStream.alike_ofList hcontent hpieces)
  obtain ⟨hok, herror⟩ := Parser.reads_statement (s := ⟨[], .at 0, ""⟩) hq hn rfl
  have hparse : parse d t = .ok b ↔ ∃ s', Parser.statement d (.ofList ts) = .ok b s' := by
    rw [parse_eq_ok, hstream]
    constructor
    · rintro ⟨s, s', hs, h⟩
      cases hs
      exact ⟨s', h⟩
    · rintro ⟨s', h⟩
      exact ⟨_, s', rfl, h⟩
  rw [forall_views, hparse]
  by_cases hviews : ∀ n ∈ a.nodes, n.ViewReadable
  · rw [hok hviews] at hsame
    cases hp : Parser.statement d (.ofList ts) with
    | ok c s' =>
      rw [hp] at hsame
      obtain ⟨rfl, -⟩ := hsame
      constructor
      · rintro ⟨_, h⟩
        cases h
        exact ⟨hviews, rfl⟩
      · rintro ⟨-, h⟩
        exact ⟨s', by rw [h]⟩
    | error e s' =>
      rw [hp] at hsame
      exact hsame.elim
  · obtain ⟨e, s', he⟩ := herror hviews
    rw [he] at hsame
    constructor
    · rintro ⟨s', h⟩
      rw [h] at hsame
      exact hsame.elim
    · intro h
      exact absurd h.1 hviews

end Statement

end SqlDialects
