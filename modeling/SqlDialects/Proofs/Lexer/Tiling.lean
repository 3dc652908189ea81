import SqlDialects.Proofs.Lexer.Requests

/-!
# Tokens tile their text

The spans of the tokens of a text lie between its characters, one behind another, and the bytes of
each are those of its token. Main statement: nothing is left out but blanks. What stands before a
token is white space and comments with their ends; behind the last one there may also be a line
comment that runs to the end of the text.
-/

namespace SqlDialects

/-! ## Parts of a text -/

/-- The span lies between characters of a text, and its bytes there are those of a part. -/
structure Span.Holds (s : Span) (text part : String) : Prop where
  start : String.Pos.Raw.IsValid text ⟨s.start⟩
  stop : String.Pos.Raw.IsValid text ⟨s.stop⟩
  bytes : text.toByteArray.extract s.start s.stop = part.toByteArray

theorem utf8ByteSize_ofList (text : List Char) :
    (String.ofList text).utf8ByteSize = byteLength text := by
  induction text with
  | nil => rfl
  | cons c rest ih =>
    rw [String.ofList_cons, String.utf8ByteSize_append, String.utf8ByteSize_singleton, ih,
      byteLength_cons]

theorem byteLength_toList (text : String) : byteLength text.toList = text.utf8ByteSize := by
  rw [← utf8ByteSize_ofList, String.ofList_toList]

/-- A part of a text is held by the span that begins behind what stands before it. -/
theorem Span.holds_append (before part after : String) :
    Span.Holds ⟨before.utf8ByteSize, before.utf8ByteSize + part.utf8ByteSize⟩
      (before ++ part ++ after) part where
  start := by
    refine String.Pos.Raw.isValid_iff_exists_append.mpr ⟨before, part ++ after, ?_, rfl⟩
    exact String.append_assoc
  stop := by
    refine String.Pos.Raw.isValid_iff_exists_append.mpr ⟨before ++ part, after, rfl, ?_⟩
    exact String.Pos.Raw.ext String.utf8ByteSize_append.symm
  bytes := by
    have hbehind : (before.toByteArray ++ (part.toByteArray ++ after.toByteArray)).extract
        (before.toByteArray.size + 0) (before.toByteArray.size + part.toByteArray.size) =
          part.toByteArray := by
      rw [ByteArray.extract_append_size_add, ByteArray.extract_append_eq_left rfl]
    rwa [String.toByteArray_append, String.toByteArray_append, ByteArray.append_assoc]

namespace Lexer

/-- What is passed between two places of a text is held by the span between them. -/
theorem IsBehind.holds {text : String} {l l' : Lexer} {passed : List Char}
    (hl : l.IsBehind (ofString text)) (hrest : passed ++ l'.rest = l.rest)
    (hoffset : l'.offset = l.offset + byteLength passed) :
    Span.Holds ⟨l.offset, l'.offset⟩ text (.ofList passed) := by
  obtain ⟨before, htext, hbefore⟩ := hl
  have hsplit : String.ofList before ++ .ofList passed ++ .ofList l'.rest = text := by
    rw [String.append_assoc, ← String.ofList_append, ← String.ofList_append, hrest, htext]
    exact String.ofList_toList
  have hstart : l.offset = (String.ofList before).utf8ByteSize := by
    rw [hbefore, utf8ByteSize_ofList]
    exact Nat.zero_add _
  rw [hoffset, hstart, ← utf8ByteSize_ofList, ← hsplit]
  exact Span.holds_append ..

/-- A place with nothing behind it is the end of the text. -/
theorem IsBehind.offset_eq {text : String} {l : Lexer} (hl : l.IsBehind (ofString text))
    (hrest : l.rest = []) : l.offset = text.utf8ByteSize := by
  rw [hl.eq_of_rest_eq_nil hrest, ofString, ← byteLength_toList]
  exact Nat.zero_add _

/-! ## Blanks -/

theorem Separator.append {a b : List Char} (ha : Separator a) (hb : Separator b) :
    Separator (a ++ b) := by
  induction ha with
  | nil => exact hb
  | space hc _ ih => exact .space hc ih
  | line hbody _ ih =>
    rw [List.append_assoc]
    exact .line hbody ih
  | block hbody _ ih =>
    rw [List.append_assoc]
    exact .block hbody ih

/-- What may stand before a token: a separator. At the end of the text, a line comment that the end
ends may follow it. -/
def IsGap (atEnd : Prop) (gap : List Char) : Prop :=
  ∃ sep comment, gap = sep ++ comment ∧ Separator sep ∧
    (comment = [] ∨ atEnd ∧ ∃ body, '\n' ∉ body ∧ comment = '-' :: '-' :: body)

namespace IsGap

variable {atEnd : Prop} {sep gap : List Char}

theorem append (hsep : Separator sep) (h : IsGap atEnd gap) : IsGap atEnd (sep ++ gap) := by
  obtain ⟨sep', comment, rfl, hsep', hcomment⟩ := h
  exact ⟨sep ++ sep', comment, (List.append_assoc ..).symm, hsep.append hsep', hcomment⟩

theorem nil : IsGap atEnd [] :=
  ⟨[], [], rfl, .nil, .inl rfl⟩

theorem lastComment {body : List Char} (hend : atEnd) (hbody : '\n' ∉ body) :
    IsGap atEnd ('-' :: '-' :: body) :=
  ⟨[], _, rfl, .nil, .inr ⟨hend, body, hbody, rfl⟩⟩

theorem mono {atEnd' : Prop} (hend : atEnd → atEnd') (h : IsGap atEnd gap) : IsGap atEnd' gap := by
  obtain ⟨sep, comment, rfl, hsep, hcomment⟩ := h
  exact ⟨sep, comment, rfl, hsep, hcomment.imp_right (And.imp_left hend)⟩

end IsGap

/-- What is passed from within white space or a comment on: what ends the comment, and a gap. -/
def Blank.Passes (atEnd : Prop) (passed : List Char) : Blank → Prop
  | .between => IsGap atEnd passed
  | .lineComment =>
    (∃ body gap, '\n' ∉ body ∧ IsGap atEnd gap ∧ passed = body ++ '\n' :: gap) ∨
      atEnd ∧ '\n' ∉ passed
  | .blockComment _ =>
    ∃ body gap, ¬ ['*', '/'] <:+: body ∧ IsGap atEnd gap ∧ passed = body ++ '*' :: '/' :: gap

namespace Blank.Passes

variable {atEnd : Prop} {passed : List Char}

theorem openLine (h : lineComment.Passes atEnd passed) :
    between.Passes atEnd ('-' :: '-' :: passed) := by
  obtain ⟨body, gap, hbody, hgap, rfl⟩ | ⟨hend, hpassed⟩ := h
  · have hline : Separator ('-' :: '-' :: body ++ ['\n']) := .line hbody .nil
    have happend := hgap.append hline
    rwa [List.append_assoc] at happend
  · exact .lastComment hend hpassed

theorem openBlock {start : Nat} (h : (blockComment start).Passes atEnd passed) :
    between.Passes atEnd ('/' :: '*' :: passed) := by
  obtain ⟨body, gap, hbody, hgap, rfl⟩ := h
  have hblock : Separator ('/' :: '*' :: body ++ ['*', '/']) := .block hbody .nil
  have happend := hgap.append hblock
  rwa [List.append_assoc] at happend

theorem space {c : Char} (hc : Unicode.isWhiteSpace c = true) (h : between.Passes atEnd passed) :
    between.Passes atEnd (c :: passed) :=
  IsGap.append (.space hc .nil) h

theorem newline (h : between.Passes atEnd passed) : lineComment.Passes atEnd ('\n' :: passed) :=
  .inl ⟨[], passed, List.not_mem_nil, h, rfl⟩

theorem lineChar {c : Char} (hc : c ≠ '\n') (h : lineComment.Passes atEnd passed) :
    lineComment.Passes atEnd (c :: passed) := by
  obtain ⟨body, gap, hbody, hgap, rfl⟩ | ⟨hend, hpassed⟩ := h
  · exact .inl ⟨c :: body, gap, List.not_mem_cons_of_ne_of_not_mem hc.symm hbody, hgap, rfl⟩
  · exact .inr ⟨hend, List.not_mem_cons_of_ne_of_not_mem hc.symm hpassed⟩

theorem closeBlock {start : Nat} (h : between.Passes atEnd passed) :
    (blockComment start).Passes atEnd ('*' :: '/' :: passed) :=
  ⟨[], passed, by decide, h, rfl⟩

/-- The character does not begin the mark that closes the comment. -/
theorem blockChar {start : Nat} {c : Char} (hc : c = '*' → passed.head? ≠ some '/')
    (h : (blockComment start).Passes atEnd passed) :
    (blockComment start).Passes atEnd (c :: passed) := by
  obtain ⟨body, gap, hbody, hgap, rfl⟩ := h
  refine ⟨c :: body, gap, fun hmark => ?_, hgap, rfl⟩
  obtain hbegins | hinfix := List.infix_cons_iff.mp hmark
  · obtain ⟨rfl, hslash⟩ := List.cons_prefix_cons.mp hbegins
    obtain ⟨tail, rfl⟩ := hslash
    exact hc rfl rfl
  · exact hbody hinfix

end Blank.Passes

theorem passes_of_skipFrom {mode : Blank} {offset : Nat} {text : List Char} {l : Lexer}
    (h : skipFrom mode offset text = .ok l) :
    ∃ passed, passed ++ l.rest = text ∧ mode.Passes (l.rest = []) passed := by
  fun_induction skipFrom mode offset text with
  | case1 offset rest ih =>
    obtain ⟨passed, rfl, hpasses⟩ := ih h
    exact ⟨'-' :: '-' :: passed, rfl, hpasses.openLine⟩
  | case2 offset rest ih =>
    obtain ⟨passed, rfl, hpasses⟩ := ih h
    exact ⟨'/' :: '*' :: passed, rfl, hpasses.openBlock⟩
  | case3 offset c rest _ _ hc ih =>
    obtain ⟨passed, rfl, hpasses⟩ := ih h
    exact ⟨c :: passed, rfl, hpasses.space hc⟩
  | case4 =>
    cases h
    exact ⟨[], rfl, .nil⟩
  | case5 offset c rest ih =>
    obtain ⟨passed, rfl, hpasses⟩ := ih h
    refine ⟨c :: passed, rfl, ?_⟩
    split at hpasses
    · rename_i hc
      exact hc ▸ hpasses.newline
    · rename_i hc
      exact hpasses.lineChar hc
  | case6 start offset rest ih =>
    obtain ⟨passed, rfl, hpasses⟩ := ih h
    exact ⟨'*' :: '/' :: passed, rfl, hpasses.closeBlock⟩
  | case7 start offset c rest hclose ih =>
    obtain ⟨passed, rfl, hpasses⟩ := ih h
    refine ⟨c :: passed, rfl, hpasses.blockChar fun hc hhead => ?_⟩
    obtain ⟨tail, rfl⟩ := List.head?_eq_some_iff.mp hhead
    exact hclose (tail ++ l.rest) hc rfl
  | case8 => cases h
  | case9 mode offset hmode =>
    cases h
    refine ⟨[], rfl, ?_⟩
    cases mode with
    | between => exact .nil
    | lineComment => exact .inr ⟨rfl, List.not_mem_nil⟩
    | blockComment start => exact absurd rfl (hmode start)

/-! ## One token -/

/-- The token stands in a text behind a place, and only blanks stand between. -/
structure Follows (text : String) (start : Nat) (t : Token) : Prop where
  start_le : start ≤ t.span.start
  gap : ∃ gap : String, Span.Holds ⟨start, t.span.start⟩ text gap ∧
    IsGap (t.span.start = text.utf8ByteSize) gap.toList
  lexeme : t.span.Holds text t.lexeme

theorem follows_of_next {text : String} {l l' : Lexer} {t : Token}
    (hl : l.IsBehind (ofString text)) (h : l.next = (.ok t, l')) :
    Follows text l.offset t ∧ t.span.stop = l'.offset := by
  unfold next at h
  cases hskip : l.skipBlanks with
  | error span => simp [hskip] at h
  | ok start =>
    obtain ⟨passed, hrest, hoffset⟩ := isBehind_skipFrom hskip
    obtain ⟨gap, hgap, hpasses⟩ := passes_of_skipFrom hskip
    obtain rfl : passed = gap := List.append_cancel_right (hrest.trans hgap.symm)
    have hstart : start.IsBehind l := ⟨passed, hrest, hoffset⟩
    have hbehind : start.IsBehind (ofString text) := hstart.trans hl
    simp only [hskip, readToken] at h
    cases hfound : (scan start.rest).found with
    | error cause => simp [hfound] at h
    | ok kind =>
      simp only [hfound, Prod.mk.injEq, Except.ok.injEq] at h
      obtain ⟨rfl, rfl⟩ := h
      refine ⟨⟨hstart.offset_le, ⟨.ofList passed, hl.holds hrest hoffset, ?_⟩, ?_⟩, rfl⟩
      · rw [String.toList_ofList]
        exact IsGap.mono hbehind.offset_eq hpasses
      · have hlexeme : (scan start.rest).read ++ start.readToken.2.rest = start.rest :=
          scan_append start.rest
        exact hbehind.holds hlexeme rfl

/-! ## All tokens -/

/-- The tokens stand in a text from a place on, each behind the one before it, up to the end. -/
inductive TiledFrom (text : String) : Nat → List Token → Prop
  | stop {start : Nat} (h : Follows text start (.endAt text.utf8ByteSize)) :
    TiledFrom text start [.endAt text.utf8ByteSize]
  | token {start : Nat} {t : Token} {ts : List Token} (h : Follows text start t)
    (ht : t.kind ≠ .endOfInput) (hspan : t.span.start < t.span.stop)
    (hts : TiledFrom text t.span.stop ts) : TiledFrom text start (t :: ts)

theorem tiledFrom_of_tokenize {text : String} {l l' : Lexer} {ts : List Token}
    (hl : l.IsBehind (ofString text)) (h : l.tokenize = (.ok ts, l')) :
    TiledFrom text l.offset ts := by
  fun_induction tokenize l generalizing ts l' with
  | case1 => cases h
  | case2 l t l₁ hnext ht =>
    cases h
    have hstep := step_next l
    rw [hnext] at hstep
    cases hstep with
    | token hne => exact absurd ht hne
    | @stop n hbehind =>
      obtain rfl : n = text.utf8ByteSize := (hbehind.trans hl).offset_eq rfl
      exact .stop (follows_of_next hl hnext).1
  | case3 => cases h
  | case4 l t l₁ hnext ht us l₂ htokens ih =>
    cases h
    have hstep := step_next l
    rw [hnext] at hstep
    obtain ⟨hfollows, hstop⟩ := follows_of_next hl hnext
    have hus : TiledFrom text t.span.stop us :=
      hstop ▸ ih (hstep.isBehind.trans hl) htokens
    cases hstep with
    | token _ hspan => exact .token hfollows ht hspan.nonempty hus
    | stop => exact absurd rfl ht

/-- The stretches before tokens, each from the end of the token before. -/
def gaps (start : Nat) : List Token → List Span
  | [] => []
  | t :: ts => ⟨start, t.span.start⟩ :: gaps t.span.stop ts

/-- The tokens of a text and the blanks between them make up the text. -/
structure Tiles (text : String) (ts : List Token) : Prop where
  stop : ∃ us, ts = us ++ [.endAt text.utf8ByteSize] ∧
    ∀ u ∈ us, u.kind ≠ .endOfInput ∧ u.span.start < u.span.stop
  lexeme ⦃t : Token⦄ (ht : t ∈ ts) : t.span.Holds text t.lexeme
  ordered : ts.Pairwise fun t u => t.span.start < u.span.start ∧ t.span.stop ≤ u.span.start
  gap ⦃g : Span⦄ (hg : g ∈ gaps 0 ts) : g.start ≤ g.stop ∧
    ∃ gap : String, g.Holds text gap ∧ IsGap (g.stop = text.utf8ByteSize) gap.toList

namespace TiledFrom

variable {text : String} {start : Nat} {ts : List Token}

theorem exists_append (h : TiledFrom text start ts) :
    ∃ us, ts = us ++ [.endAt text.utf8ByteSize] ∧
      ∀ u ∈ us, u.kind ≠ .endOfInput ∧ u.span.start < u.span.stop := by
  induction h with
  | stop => exact ⟨[], rfl, List.forall_mem_nil _⟩
  | @token _ t _ _ ht hspan _ ih =>
    obtain ⟨us, rfl, hus⟩ := ih
    exact ⟨t :: us, rfl, List.forall_mem_cons.mpr ⟨⟨ht, hspan⟩, hus⟩⟩

theorem holds (h : TiledFrom text start ts) : ∀ t ∈ ts, t.span.Holds text t.lexeme := by
  induction h with
  | stop h => exact List.forall_mem_singleton.mpr h.lexeme
  | token h _ _ _ ih => exact List.forall_mem_cons.mpr ⟨h.lexeme, ih⟩

theorem start_le (h : TiledFrom text start ts) : ∀ t ∈ ts, start ≤ t.span.start := by
  induction h with
  | stop h => exact List.forall_mem_singleton.mpr h.start_le
  | token h _ hspan _ ih =>
    exact List.forall_mem_cons.mpr
      ⟨h.start_le, fun u hu => (h.start_le.trans hspan.le).trans (ih u hu)⟩

theorem pairwise (h : TiledFrom text start ts) :
    ts.Pairwise fun t u => t.span.start < u.span.start ∧ t.span.stop ≤ u.span.start := by
  induction h with
  | stop => exact List.pairwise_singleton _ _
  | token _ _ hspan hts ih =>
    exact .cons (fun u hu => ⟨hspan.trans_le (hts.start_le u hu), hts.start_le u hu⟩) ih

theorem isGap (h : TiledFrom text start ts) : ∀ g ∈ gaps start ts, g.start ≤ g.stop ∧
    ∃ gap : String, g.Holds text gap ∧ IsGap (g.stop = text.utf8ByteSize) gap.toList := by
  induction h with
  | stop h => exact List.forall_mem_singleton.mpr ⟨h.start_le, h.gap⟩
  | token h _ _ _ ih => exact List.forall_mem_cons.mpr ⟨⟨h.start_le, h.gap⟩, ih⟩

end TiledFrom

/-- The tokens of a text tile it: they stand in their order at their places, and between them is
nothing but blanks. -/
theorem tiles_of_tokenize {text : String} {ts : List Token}
    (h : SqlDialects.tokenize text = .ok ts) : Tiles text ts := by
  have htokens : (ofString text).tokenize = (.ok ts, (ofString text).tokenize.2) := Prod.ext h rfl
  have htiled : TiledFrom text 0 ts := tiledFrom_of_tokenize (.refl _) htokens
  exact ⟨htiled.exists_append, htiled.holds, htiled.pairwise, htiled.isGap⟩

/-- The tokens of a comparison among comments, the last of which the end of the text ends. -/
def commentedComparison : List Token :=
  [⟨.identifier "a", ⟨7, 8⟩, "a"⟩, ⟨.symbol .ltEq, ⟨8, 10⟩, "<="⟩,
    ⟨.string "é" '\x27', ⟨11, 15⟩, "\x27é\x27"⟩, .endAt 21]

theorem tiles_commentedComparison :
    SqlDialects.tokenize "/*é*/ a<=\n\x27é\x27 --end" = .ok commentedComparison ∧
      Tiles "/*é*/ a<=\n\x27é\x27 --end" commentedComparison := by
  have htokens : SqlDialects.tokenize "/*é*/ a<=\n\x27é\x27 --end" = .ok commentedComparison := by
    decide +kernel
  exact ⟨htokens, tiles_of_tokenize htokens⟩

end Lexer

end SqlDialects
