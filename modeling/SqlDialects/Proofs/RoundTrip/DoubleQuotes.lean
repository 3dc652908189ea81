import SqlDialects.Proofs.Conservation.Statements
import SqlDialects.Proofs.Lexer.Misread
import SqlDialects.Proofs.RoundTrip.Migration

/-!
# Fixed points of the generic dialect

The text of a statement that was read in the generic dialect is read as a statement with the same
text exactly if double quotes can hold all names of the statement. Where they cannot, the string
that is read in place of the first such name is no name in double quotes, so no statement is written
like that.
-/

namespace SqlDialects.Statement

open Piece (tokens)

variable {text t : String} {a b : Statement} {ts : List Token}

theorem exists_tokenize_eq {chars : List Char} (h : tokenize (.ofList chars) = .ok ts) :
    ∃ l, Lexer.tokenize ⟨0, chars⟩ = (.ok ts, l) := by
  unfold tokenize Lexer.ofString at h
  rw [String.toList_ofList] at h
  exact ⟨_, Prod.ext h rfl⟩

theorem separate_of_parse (h : parse .generic text = .ok a) :
    Piece.Separate Piece.Legible none (a.pieces '\x22') :=
  separate_pieces fun n hn => (readable_of_parse h n hn).isLegible (.inr ⟨rfl, rfl⟩)

/-- Where the text of a statement carries what the statement does, all its names can be quoted: what
is read in place of one that cannot be differs from it in length. -/
theorem quotable_of_payload (hs : Piece.Separate Piece.Legible none (a.pieces '\x22'))
    (hts : tokenize (.ofList (Piece.text (a.pieces '\x22'))) = .ok ts)
    (hpayload : payload .generic ts = Piece.payload .generic (a.pieces '\x22')) :
    ∀ p ∈ a.pieces '\x22', p.Quotable := by
  by_contra hnot
  obtain ⟨l, hl⟩ := exists_tokenize_eq hts
  obtain ⟨first, name, rest, us, token, vs, body, hpieces, hname, rfl, hus, htoken, hbody⟩ :=
    Lexer.exists_readFor_of_tokenize hs hnot hl
  have hwritten : namePayload? name = some (.identifier name.toUpper) :=
    namePayload?_of_not_isBareWord fun hword => hname (Lexer.survives_of_isBareWord hword)
  have hread : token.kind.payload? .generic =
      some (.identifier (String.ofList (undouble '\x22' body.toList)).toUpper) := by
    rw [htoken]
    exact namePayload?_of_not_isBareWord fun hword => hname (hbody.survives_of_isBareWord hword)
  have hsame : payload .generic us = Piece.payload .generic first := payload_congr .generic hus
  rw [hpieces, payload_append, payload_cons, hread, hsame, Piece.payload_append,
    Piece.payload_name_cons (.inr ⟨rfl, rfl⟩), hwritten, List.append_cancel_left_eq] at hpayload
  have hupper : (String.ofList (undouble '\x22' body.toList)).toUpper = name.toUpper := by
    simpa using (List.cons.inj hpayload).1
  have hlength : (undouble '\x22' body.toList).length = name.toList.length := by
    have := congrArg (·.toList.length) hupper
    simpa using this
  exact hname (hbody.survives_of_length hlength)

/-- A string in double quotes among the tokens of a statement of the generic dialect is the doubled
text of a name. -/
theorem exists_double_of_mem_tokens (ha : ¬ a.HasDoubleQuotedString) {token : Token} {body : String}
    (hmem : token ∈ tokens (a.pieces '\x22')) (hkind : token.kind = .string body '\x22') :
    ∃ name, body.toList = double '\x22' name := by
  obtain ⟨p, hp, htoken⟩ := List.mem_filterMap.mp hmem
  obtain ⟨k, hk, rfl⟩ := Option.map_eq_some_iff.mp htoken
  have hk : p.kind? = some (.string body '\x22') := hk.trans (congrArg some hkind)
  cases p with
  | string body' quote =>
    cases hk
    exact absurd ⟨body, mem_nodes_of_mem_pieces _ hp⟩ ha
  | name name quote =>
    simp only [Piece.kind?] at hk
    split at hk
    · cases hk
    · cases hk
      exact ⟨name.toList, String.toList_ofList⟩
  | mark m => cases m <;> cases hk
  | word text =>
    simp only [Piece.kind?, Lexer.wordKind] at hk
    split at hk <;> cases hk
  | _ => cases hk

theorem survives_of_tokenize (h : parse .generic text = .ok a) (ht : a.render .generic = .ok t)
    (hb : ¬ b.HasDoubleQuotedString) (hts : tokenize t = .ok ts)
    (hcontent : ts.map Token.content =
      (tokens (b.pieces '\x22')).map Token.content ++ [(.endOfInput, "")]) :
    ∀ name ∈ a.names, Lexer.Survives name := by
  refine (a.quotable_pieces_iff '\x22').mp ?_ rfl
  by_contra hnot
  rw [(render_eq_ok.mp ht).2] at hts
  obtain ⟨l, hl⟩ := exists_tokenize_eq hts
  obtain ⟨first, name, rest, us, token, vs, body, -, hname, rfl, -, htoken, hbody⟩ :=
    Lexer.exists_readFor_of_tokenize (separate_of_parse h) hnot hl
  have hmem : token.content ∈
      (tokens (b.pieces '\x22')).map Token.content ++ [(.endOfInput, "")] := by
    rw [← hcontent]
    simp
  rcases List.mem_append.mp hmem with hmem | hmem
  · obtain ⟨u, hu, hsame⟩ := List.mem_map.mp hmem
    have hkind : u.kind = .string body '\x22' := (congrArg Prod.fst hsame).trans htoken
    obtain ⟨name', hdouble⟩ := exists_double_of_mem_tokens hb hu hkind
    exact hname (hbody.survives_of_eq_double hdouble)
  · have hend : token.kind = .endOfInput := congrArg Prod.fst (List.mem_singleton.mp hmem)
    cases htoken.symm.trans hend

/-- In the generic dialect, the text of a statement is read as a statement that has the same text
exactly if all names of the statement survive in double quotes. -/
theorem exists_parse_render_generic_iff (h : parse .generic text = .ok a)
    (ht : a.render .generic = .ok t) :
    (∃ b, parse .generic t = .ok b ∧ b.render .generic = .ok t) ↔
      ∀ name ∈ a.names, Lexer.Survives name := by
  have hquotes : Dialect.generic.Unquotes '\x22' := .inr ⟨rfl, rfl⟩
  constructor
  · rintro ⟨b, hb, hbt⟩
    obtain ⟨ts, hts, hpayload⟩ := payload_of_parse hquotes hb
    have htext : t = .ofList (Piece.text (b.pieces '\x22')) := (render_eq_ok.mp hbt).2
    have hquotable := quotable_of_payload (separate_of_parse hb) (htext ▸ hts) hpayload
    have hnames := (b.quotable_pieces_iff '\x22').mp hquotable
    obtain ⟨us, hus, hcontent⟩ := tokenize_render hquotes (readable_of_parse hb) hnames hbt
    exact survives_of_tokenize h ht (not_hasDoubleQuotedString rfl hb) hus hcontent
  · intro hnames
    have hviews : a.views = [] := views_eq_nil rfl h
    have hparse : parse .generic t = .ok a.canonical :=
      (parse_render_iff hquotes (readable_of_parse h) (fun _ => hnames) ht).mpr
        ⟨by simp [hviews], rfl⟩
    exact ⟨_, hparse, (render_canonical .generic a).trans ht⟩

/-- A column whose name is `a\"b`. -/
def escapedColumn : Statement :=
  .select ⟨false, [⟨.column [] "a\\\x22b", none⟩], none, [], none, [], none, none, none⟩

/-- The quote behind the backslash is doubled, and read as a part of an escape and the end of the
string. -/
theorem not_exists_parse_render_escapedColumn :
    parse .generic "SELECT \x22a\\\x22b\x22" = .ok escapedColumn ∧
      escapedColumn.render .generic = .ok "SELECT \x22a\\\x22\x22b\x22" ∧
        ¬ ∃ b, parse .generic "SELECT \x22a\\\x22\x22b\x22" = .ok b ∧
          b.render .generic = .ok "SELECT \x22a\\\x22\x22b\x22" := by
  have h : parse .generic "SELECT \x22a\\\x22b\x22" = .ok escapedColumn := by cbv
  have ht : escapedColumn.render .generic = .ok "SELECT \x22a\\\x22\x22b\x22" := by cbv
  have hnames : ¬ ∀ name ∈ escapedColumn.names, Lexer.Survives name := by decide +kernel
  exact ⟨h, ht, fun hb => hnames ((exists_parse_render_generic_iff h ht).mp hb)⟩

end SqlDialects.Statement
