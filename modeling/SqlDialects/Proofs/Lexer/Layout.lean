import Mathlib.Data.List.TakeWhile
import SqlDialects.Proofs.Lexer.Lexed

/-!
# Tokens in other layouts

Between two tokens of a text any white space and comments may stand that begin with white space.
Main statements: the lexer passes whatever separates tokens, it finds a token again wherever what
it has read for it is followed by white space or by nothing, and so the tokens of a text are the
tokens of every layout of them.
-/

namespace SqlDialects.Lexer

/-! ## Separators -/

/-- What may stand between two tokens: white space, line comments with the ends of their lines and
block comments that are closed, as many as one likes. -/
inductive Separator : List Char → Prop
  | nil : Separator []
  | space {c : Char} {rest : List Char} (hc : Unicode.isWhiteSpace c = true) (h : Separator rest) :
    Separator (c :: rest)
  | line {body rest : List Char} (hbody : '\n' ∉ body) (h : Separator rest) :
    Separator ('-' :: '-' :: body ++ '\n' :: rest)
  | block {body rest : List Char} (hbody : ¬ ['*', '/'] <:+: body) (h : Separator rest) :
    Separator ('/' :: '*' :: body ++ '*' :: '/' :: rest)

theorem skipFrom_space {c : Char} (hc : Unicode.isWhiteSpace c = true) (offset : Nat)
    (rest : List Char) :
    skipFrom .between offset (c :: rest) = skipFrom .between (offset + c.utf8Size) rest := by
  rw [skipFrom.eq_3]
  · rw [if_pos hc]
  · rintro _ rfl -
    exact absurd hc (by decide)
  · rintro _ rfl -
    exact absurd hc (by decide)

theorem skipFrom_lineComment {body : List Char} (hbody : '\n' ∉ body) (offset : Nat)
    (rest : List Char) :
    skipFrom .lineComment offset (body ++ '\n' :: rest) =
      skipFrom .between (offset + byteLength (body ++ ['\n'])) rest := by
  induction body generalizing offset with
  | nil => rfl
  | cons c body ih =>
    obtain ⟨hc, hbody⟩ := not_or.mp (mt List.mem_cons.mpr hbody)
    rw [List.cons_append, skipFrom, if_neg (Ne.symm hc), ih hbody, List.cons_append,
      byteLength_cons, Nat.add_assoc]

theorem skipFrom_blockComment {body : List Char} (hbody : ¬ ['*', '/'] <:+: body)
    (start offset : Nat) (rest : List Char) :
    skipFrom (.blockComment start) offset (body ++ '*' :: '/' :: rest) =
      skipFrom .between (offset + byteLength (body ++ ['*', '/'])) rest := by
  induction body generalizing offset with
  | nil => rfl
  | cons c body ih =>
    have hopen : ∀ tail, c = '*' → body ++ '*' :: '/' :: rest = '/' :: tail → False := by
      rintro tail rfl htail
      cases body with
      | nil => cases htail
      | cons e body =>
        obtain rfl : e = '/' := (List.cons.inj htail).1
        exact hbody (List.prefix_append ['*', '/'] body).isInfix
    have hrest : ¬ ['*', '/'] <:+: body := fun h => hbody (h.trans (List.suffix_cons c body).isInfix)
    rw [List.cons_append, skipFrom.eq_6 _ _ _ _ hopen, ih hrest, List.cons_append,
      byteLength_cons, Nat.add_assoc]

/-- A separator is passed on the way to the next token. -/
theorem skipFrom_separator {sep : List Char} (h : Separator sep) (offset : Nat)
    (rest : List Char) :
    skipFrom .between offset (sep ++ rest) = skipFrom .between (offset + byteLength sep) rest := by
  induction h generalizing offset with
  | nil => rfl
  | space hc _ ih => rw [List.cons_append, skipFrom_space hc, ih, byteLength_cons, Nat.add_assoc]
  | @line body sep hbody _ ih =>
    have hskip := skipFrom_lineComment hbody (offset + 2) (sep ++ rest)
    rw [ih] at hskip
    have hlength : offset + byteLength ('-' :: '-' :: body ++ '\n' :: sep) =
        offset + 2 + byteLength (body ++ ['\n']) + byteLength sep := by
      simp only [List.cons_append, byteLength_cons, byteLength_append, byteLength_nil,
        (by decide : '-'.utf8Size = 1)]
      omega
    rw [hlength, ← hskip, List.append_assoc, List.cons_append, List.cons_append, List.cons_append,
      skipFrom]
  | @block body sep hbody _ ih =>
    have hskip := skipFrom_blockComment hbody offset (offset + 2) (sep ++ rest)
    rw [ih] at hskip
    have hlength : offset + byteLength ('/' :: '*' :: body ++ '*' :: '/' :: sep) =
        offset + 2 + byteLength (body ++ ['*', '/']) + byteLength sep := by
      simp only [List.cons_append, byteLength_cons, byteLength_append, byteLength_nil,
        (by decide : '/'.utf8Size = 1), (by decide : '*'.utf8Size = 1)]
      omega
    rw [hlength, ← hskip, List.append_assoc, List.cons_append, List.cons_append, List.cons_append,
      List.cons_append, skipFrom]

theorem tokenize_separator {sep : List Char} (h : Separator sep) (offset : Nat)
    (rest : List Char) :
    tokenize ⟨offset, sep ++ rest⟩ = tokenize ⟨offset + byteLength sep, rest⟩ := by
  have hnext : next ⟨offset, sep ++ rest⟩ = next ⟨offset + byteLength sep, rest⟩ := by
    simp only [next, skipBlanks, skipFrom_separator h]
  rw [tokenize_eq, hnext, ← tokenize_eq]

/-! ## Tokens in front of white space -/

/-- The text is empty, or white space stands at its head. -/
def EndsToken (text : List Char) : Prop :=
  ∀ c ∈ text.head?, Unicode.isWhiteSpace c = true

theorem isWordPart_of_isWhiteSpace {c : Char} (h : Unicode.isWhiteSpace c = true) :
    isWordPart c = false := by
  by_cases hc : c.toNat < 128
  · exact forall_ascii (P := fun c => Unicode.isWhiteSpace c = true → isWordPart c = false)
      (by decide +kernel) c hc h
  · have halpha : Unicode.alphabeticRanges.contains c = false :=
      Unicode.Ranges.not_contains (a := Unicode.whiteSpaceRanges) (by decide +kernel) h
    have hnumeric : Unicode.numericRanges.contains c = false :=
      Unicode.Ranges.not_contains (a := Unicode.whiteSpaceRanges) (by decide +kernel) h
    have hne : c ≠ '_' := fun he => hc (by rw [he]; decide)
    simp [isWordPart, Unicode.isAlphabetic, Unicode.isNumeric, hc, halpha, hnumeric, hne]

section EndsToken

variable {rest : List Char} (hr : EndsToken rest)
include hr

theorem EndsToken.head?_ne {c : Char} (hc : Unicode.isWhiteSpace c = false) :
    rest.head? ≠ some c := by
  intro h
  simp [hr c h] at hc

theorem EndsToken.isWordPart : ∀ c ∈ rest.head?, isWordPart c = false :=
  fun c hc => isWordPart_of_isWhiteSpace (hr c hc)

/-- A sign that white space follows is not continued by it. -/
theorem leadingSymbol?_take {text : List Char} {s : Symbol} {n : Nat}
    (h : leadingSymbol? text = some (s, n)) :
    leadingSymbol? (text.take n ++ rest) = some (s, n) ∧ (text.take n).length = n := by
  have heq := hr.head?_ne (c := '=') (by decide)
  have hgt := hr.head?_ne (c := '>') (by decide)
  unfold leadingSymbol? at h
  split at h <;> cases h <;> rcases rest with _ | ⟨c, rest⟩ <;> simp_all [leadingSymbol?]

theorem scan_sign {text : List Char} {s : Symbol} {n : Nat}
    (h : leadingSymbol? text = some (s, n)) :
    scan (text.take n ++ rest) = ⟨.ok (.symbol s), text.take n, rest⟩ := by
  obtain ⟨htake, hlength⟩ := leadingSymbol?_take hr h
  generalize text.take n = read at htake hlength
  cases hcons : read ++ rest with
  | nil =>
    rw [hcons] at htake
    cases htake
  | cons c behind =>
    rw [hcons] at htake
    simp only [scan, htake]
    rw [← hcons, List.take_left' hlength, List.drop_left' hlength]

theorem scan_stringLexeme {quote : Char} (hq : quote = '\x27' ∨ quote = '\x22') {text : List Char}
    {k : TokenKind} (h : (scanString quote text).found = .ok k) :
    scan ((scanString quote text).read ++ rest) = ⟨.ok k, (scanString quote text).read, rest⟩ := by
  unfold scanString at h ⊢
  split at h
  · rename_i body behind hsplit
    have hbody : StringBody quote (String.ofList body).toList := by
      rw [String.toList_ofList]
      exact (stringBody_of_splitString hsplit).1
    have hnext : rest.head? ≠ some quote :=
      hr.head?_ne (by rcases hq with rfl | rfl <;> decide)
    cases h
    simpa [hsplit] using scan_string hq hbody hnext
  · cases h

theorem scan_nameLexeme {text : List Char} {k : TokenKind}
    (h : (scanName '\x60' text).found = .ok k) :
    scan ((scanName '\x60' text).read ++ rest) = ⟨.ok k, (scanName '\x60' text).read, rest⟩ := by
  unfold scanName at h ⊢
  split at h
  · rename_i name behind hsplit
    cases h
    have hscan := scan_name (.ofList name) (hr.head?_ne (c := '\x60') (by decide))
    rw [String.toList_ofList] at hscan
    simpa only [hsplit] using hscan
  · cases h

theorem scan_numberLexeme {c : Char} (hc : c.isDigit = true) {text : List Char} {k : TokenKind}
    (h : (scanNumber (c :: text)).found = .ok k) :
    scan ((scanNumber (c :: text)).read ++ rest) = ⟨.ok k, (scanNumber (c :: text)).read, rest⟩ := by
  obtain ⟨whole, fraction, exponent, hnumber, hread, rfl⟩ := numberText_of_scanNumber hc h
  have hends : EndsNumber rest := fun x hx =>
    ⟨hr.isWordPart x hx, fun hdot => hr.head?_ne (c := '.') (by decide) (hdot ▸ hx)⟩
  rw [hread]
  exact scan_number hends hnumber

theorem scan_wordLexeme {c : Char} (hc : isWordStart c = true) (text : List Char) :
    scan ((scanWord (c :: text)).read ++ rest) =
      ⟨(scanWord (c :: text)).found, (scanWord (c :: text)).read, rest⟩ := by
  have hword : isBareWord (.ofList ((c :: text).takeWhile isWordPart)) = true := by
    refine isBareWord_iff.mpr ⟨c, text.takeWhile isWordPart, ?_, hc, fun x hx => ?_⟩
    · rw [String.toList_ofList, List.takeWhile_cons_of_pos (isWordPart_of_isWordStart hc)]
    · rw [String.toList_ofList] at hx
      exact List.mem_takeWhile_imp hx
  have hscan := scan_word hword hr.isWordPart
  rwa [String.toList_ofList] at hscan

/-- What was read for a token is read for it again in front of white space. -/
theorem scan_lexeme {text : List Char} {k : TokenKind} (h : (scan text).found = .ok k)
    (hk : k ≠ .endOfInput) :
    scan ((scan text).read ++ rest) = ⟨.ok k, (scan text).read, rest⟩ := by
  cases text with
  | nil =>
    cases h
    exact absurd rfl hk
  | cons c text =>
    generalize hx : scan (c :: text) = x at h ⊢
    simp only [scan] at hx
    split at hx
    · rename_i s n hlead
      subst hx
      cases h
      exact scan_sign hr hlead
    · split at hx
      · subst hx
        exact scan_stringLexeme hr ‹_› h
      · split at hx
        · subst hx
          rename_i hquote
          subst hquote
          exact scan_nameLexeme hr h
        · split at hx
          · subst hx
            exact scan_numberLexeme hr ‹_› h
          · split at hx
            · subst hx
              cases h
              exact scan_wordLexeme hr ‹_› text
            · subst hx
              cases h

end EndsToken

/-- A text at whose head the lexer has nothing to pass. -/
def StartsToken (text : List Char) : Prop :=
  ∀ offset, skipFrom .between offset text = .ok ⟨offset, text⟩

theorem startsToken_of_skipFrom {mode : Blank} {offset : Nat} {text : List Char} {l : Lexer}
    (h : skipFrom mode offset text = .ok l) : StartsToken l.rest := by
  fun_induction skipFrom mode offset text with
  | case4 offset c rest hm hs hc =>
    cases h
    intro offset
    rw [skipFrom.eq_3 _ _ _ hm hs, if_neg hc]
  | case8 => cases h
  | case9 =>
    cases h
    exact fun _ => rfl
  | _ => rename_i ih; exact ih h

theorem StartsToken.not_isWhiteSpace {c : Char} {text : List Char} (h : StartsToken (c :: text)) :
    Unicode.isWhiteSpace c = false := by
  rw [← Bool.not_eq_true]
  intro hc
  have hskip := h 0
  rw [skipFrom_space hc] at hskip
  exact absurd (rest_suffix_of_skipFrom hskip).length_le (Nat.not_succ_le_self _)

/-- Neither is there anything to pass where the token is followed by something else. -/
theorem StartsToken.lexeme {text rest : List Char} {k : TokenKind} (hs : StartsToken text)
    (hr : EndsToken rest) (h : (scan text).found = .ok k) (hk : k ≠ .endOfInput) :
    StartsToken ((scan text).read ++ rest) := by
  cases text with
  | nil =>
    cases h
    exact absurd rfl hk
  | cons c text =>
    obtain ⟨d, read, hread⟩ := List.exists_cons_of_ne_nil (scan_read_ne_nil c text)
    have happend := scan_append (c :: text)
    rw [hread, List.cons_append] at happend
    obtain rfl : d = c := (List.cons.inj happend).1
    intro offset
    rw [hread, List.cons_append]
    refine skipFrom_of_not_blank offset hs.not_isWhiteSpace ?_ ?_
    · rintro rfl
      have hminus : (scan ('-' :: text)).read = ['-'] := rfl
      obtain rfl : read = [] := (List.cons.inj (hread.symm.trans hminus)).2
      exact hr.head?_ne (by decide)
    · rintro rfl
      have hslash : (scan ('/' :: text)).read = ['/'] := rfl
      obtain rfl : read = [] := (List.cons.inj (hread.symm.trans hslash)).2
      exact hr.head?_ne (by decide)

/-! ## Layouts -/

/-- The lexer finds the token, the end of input included, at the head of some text. -/
def IsFound (t : Token) : Prop :=
  ∃ text, StartsToken text ∧ (scan text).found = .ok t.kind ∧ (scan text).read = t.lexeme.toList

theorem isFound_of_next {l l' : Lexer} {t : Token} (h : l.next = (.ok t, l')) : IsFound t := by
  unfold next at h
  split at h
  · rename_i start hskip
    unfold readToken at h
    cases hs : (scan start.rest).found with
    | ok kind =>
      simp only [hs, Prod.mk.injEq, Except.ok.injEq] at h
      obtain ⟨rfl, -⟩ := h
      exact ⟨start.rest, startsToken_of_skipFrom hskip, hs, by simp⟩
    | error cause => simp [hs] at h
  · simp at h

theorem found_ne_endOfInput (c : Char) (text : List Char) :
    (scan (c :: text)).found ≠ .ok .endOfInput := by
  intro h
  simp only [scan] at h
  split at h
  · cases h
  · split at h
    · unfold scanString at h
      split at h <;> cases h
    · split at h
      · unfold scanName at h
        split at h <;> cases h
      · split at h
        · obtain ⟨whole, fraction, exponent, -, -, hk⟩ := numberText_of_scanNumber ‹_› h
          unfold numberKind integerKind at hk
          split at hk
          · split at hk <;> cases hk
          · cases hk
        · split at h
          · simp only [scanWord, wordKind, Except.ok.injEq] at h
            split at h <;> cases h
          · cases h

/-- The end of input has no text. -/
theorem IsFound.lexeme_eq {t : Token} (h : IsFound t) (ht : t.kind = .endOfInput) :
    t.lexeme = "" := by
  obtain ⟨text, -, hfound, hread⟩ := h
  cases text with
  | nil => exact String.toList_inj.mp hread.symm
  | cons c text => exact absurd (ht ▸ hfound) (found_ne_endOfInput c text)

/-- A token that was found is found again in front of white space. -/
theorem next_lexeme {t : Token} (h : IsFound t) (ht : t.kind ≠ .endOfInput) {rest : List Char}
    (hr : EndsToken rest) (offset : Nat) :
    next ⟨offset, t.lexeme.toList ++ rest⟩ =
      (.ok ⟨t.kind, ⟨offset, offset + byteLength t.lexeme.toList⟩, t.lexeme⟩,
        ⟨offset + byteLength t.lexeme.toList, rest⟩) := by
  obtain ⟨text, hstarts, hfound, hread⟩ := h
  have hskip := hstarts.lexeme hr hfound ht offset
  have hscan := scan_lexeme hr hfound ht
  rw [hread] at hskip hscan
  simp only [next, skipBlanks, hskip, readToken, hscan, String.ofList_toList]

/-- The texts in which tokens stand one after another. What stands between two of them, and perhaps
behind the last one, is a separator that begins with white space. -/
inductive Layout : List Token → List Char → Prop
  | nil : Layout [] []
  | last (t : Token) : Layout [t] t.lexeme.toList
  | cons (t : Token) {ts : List Token} {c : Char} {sep text : List Char}
    (hsep : Separator (c :: sep)) (hc : Unicode.isWhiteSpace c = true) (h : Layout ts text) :
    Layout (t :: ts) (t.lexeme.toList ++ (c :: sep) ++ text)

/-- The lexer finds the same tokens in every layout of them. -/
theorem Layout.tokenize {ts : List Token} {text : List Char} (h : Layout ts text)
    (hts : ∀ t ∈ ts, t.kind ≠ .endOfInput ∧ IsFound t) (offset : Nat) :
    ∃ us l, tokenize ⟨offset, text⟩ = (.ok us, l) ∧
      us.map Token.content = ts.map Token.content ++ [(.endOfInput, "")] := by
  have behind {t : Token} {ts us : List Token} {rest : List Char} {l : Lexer}
      (ht : t.kind ≠ .endOfInput ∧ IsFound t) (hr : EndsToken rest) (offset : Nat)
      (hrest : Lexer.tokenize ⟨offset + byteLength t.lexeme.toList, rest⟩ = (.ok us, l))
      (hcontent : us.map Token.content = ts.map Token.content ++ [(.endOfInput, "")]) :
      ∃ us l, Lexer.tokenize ⟨offset, t.lexeme.toList ++ rest⟩ = (.ok us, l) ∧
        us.map Token.content = (t :: ts).map Token.content ++ [(.endOfInput, "")] := by
    refine ⟨_, l, (tokenize_cons (next_lexeme ht.2 ht.1 hr offset) ht.1).mpr ⟨us, rfl, hrest⟩, ?_⟩
    rw [List.map_cons, hcontent]
    rfl
  induction h generalizing offset with
  | nil => exact ⟨_, _, tokenize_nil offset, rfl⟩
  | last t =>
    have hend : EndsToken [] := fun _ h => nomatch h
    rw [← List.append_nil t.lexeme.toList]
    exact behind (hts t (by simp)) hend offset (tokenize_nil _) rfl
  | @cons t ts c sep text hsep hc _ ih =>
    rw [List.forall_mem_cons] at hts
    obtain ⟨us, l, htokens, hcontent⟩ :=
      ih hts.2 (offset + byteLength t.lexeme.toList + byteLength (c :: sep))
    rw [← tokenize_separator hsep] at htokens
    rw [List.append_assoc]
    exact behind hts.1 (by simpa [EndsToken] using hc) offset htokens hcontent

end SqlDialects.Lexer

namespace SqlDialects

/-- Lists of tokens with the same kinds and lexemes are streams that are alike. -/
theorem TokenStream.alike_ofList_ofList {ts us : List Token}
    (h : ts.map Token.content = us.map Token.content) : Alike (ofList ts) (ofList us) := by
  have hrest (ts : List Token) : (ofList ts).rest.map Token.content =
      (ts.map Token.content).takeWhile (·.1 ≠ .endOfInput) := by
    have hofList : (ofList ts).rest = ts.takeWhile (·.kind ≠ .endOfInput) := by
      unfold ofList
      split <;> rfl
    rw [hofList, List.takeWhile_map]
    rfl
  have hend (ts : List Token) : (ofList ts).endLexeme =
      (((ts.map Token.content).find? (·.1 = .endOfInput)).elim "" Prod.snd) := by
    rw [List.find?_map, Option.elim_map]
    show _ = (ts.find? (·.kind = .endOfInput)).elim "" Token.lexeme
    unfold ofList
    cases ts.find? (·.kind = .endOfInput) <;> rfl
  exact ⟨by rw [hrest, hrest, h], by rw [hend, hend, h]⟩

namespace Statement

/-- Two attempts to read a statement return the same tree, or fail with syntax errors that differ in
nothing but their places. -/
def SameButPlace : Except Error Statement → Except Error Statement → Prop
  | .ok a, .ok b => a = b
  | .error (.grammar e), .error (.grammar f) => e.cause = f.cause
  | _, _ => False

theorem sameButPlace_parse {s u : String} {ts us : List Token} (hs : tokenize s = .ok ts)
    (hu : tokenize u = .ok us) (h : ts.map Token.content = us.map Token.content) (d : Dialect) :
    SameButPlace (parse d s) (parse d u) := by
  have hparse {text : String} {ts : List Token} (htext : tokenize text = .ok ts) :
      parse d text = ((TokenStream.ofList ts).statement d).1.mapError .grammar := by
    rw [parse, TokenStream.ofText_eq_ok.mpr ⟨ts, htext, rfl⟩]
    rfl
  have hsame := Parser.sameOutcome_statement d (TokenStream.alike_ofList_ofList h)
  rw [hparse hs, hparse hu]
  unfold TokenStream.statement
  cases hts : Parser.statement d (.ofList ts) <;> cases hus : Parser.statement d (.ofList us) <;>
    simp only [hts, hus] at hsame ⊢
  · exact hsame.1
  · exact hsame.1

/-- The tokens of a text stand in every layout of them, and every dialect reads the layout as it
reads the text. -/
theorem parse_layout {text : String} {ts : List Token} {t : Token} {before body : List Char}
    (h : tokenize text = .ok (ts ++ [t])) (hbefore : Lexer.Separator before)
    (hbody : Lexer.Layout ts body) :
    ∃ us, tokenize (.ofList (before ++ body)) = .ok us ∧
      us.map Token.content = (ts ++ [t]).map Token.content ∧
        ∀ d, SameButPlace (parse d text) (parse d (.ofList (before ++ body))) := by
  obtain ⟨ts', t', hsplit, ⟨ht, hfound⟩, hts⟩ := Lexer.exists_append_of_tokenize
    (fun _ _ _ => Lexer.isFound_of_next) (Prod.ext h rfl)
  obtain ⟨rfl, ht'⟩ := List.append_inj' hsplit rfl
  obtain rfl : t = t' := List.singleton_inj.mp ht'
  obtain ⟨us, l, hlayout, hcontent⟩ := hbody.tokenize hts (0 + byteLength before)
  rw [← Lexer.tokenize_separator hbefore] at hlayout
  have hus : tokenize (.ofList (before ++ body)) = .ok us := by
    rw [tokenize, Lexer.ofString, String.toList_ofList, hlayout]
  have hsame : us.map Token.content = (ts ++ [t]).map Token.content := by
    rw [hcontent, List.map_append, List.map_singleton, Token.content, ht, hfound.lexeme_eq ht]
  exact ⟨us, hus, hsame, sameButPlace_parse h hus hsame.symm⟩

/-- The tokens of `SELECT 1-2`. -/
def differenceTokens : List Token :=
  [⟨.keyword .SELECT, ⟨0, 6⟩, "SELECT"⟩, ⟨.integer 1, ⟨7, 8⟩, "1"⟩, ⟨.symbol .minus, ⟨8, 9⟩, "-"⟩,
    ⟨.integer 2, ⟨9, 10⟩, "2"⟩]

/-- The same tokens over two lines and with a comment. -/
def differenceLines : List Char :=
  "SELECT".toList ++ ['\n'] ++
    ("1".toList ++ [' '] ++ ("-".toList ++ [' ', '-', '-', 'b', '\n'] ++ "2".toList))

theorem parse_differenceLines :
    tokenize "SELECT 1-2" = .ok (differenceTokens ++ [.mk .endOfInput (.at 10) ""]) ∧
      Lexer.Separator ['/', '*', '*', '*', '/'] ∧ Lexer.Layout differenceTokens differenceLines ∧
        ∃ us, tokenize (.ofList (['/', '*', '*', '*', '/'] ++ differenceLines)) = .ok us ∧
          us.map Token.content =
            (differenceTokens ++ [Token.mk .endOfInput (.at 10) ""]).map Token.content ∧
          ∀ d, SameButPlace (parse d "SELECT 1-2")
            (parse d (.ofList (['/', '*', '*', '*', '/'] ++ differenceLines))) := by
  have htokens : tokenize "SELECT 1-2" = .ok (differenceTokens ++ [.mk .endOfInput (.at 10) ""]) := by
    decide +kernel
  have hbefore : Lexer.Separator ['/', '*', '*', '*', '/'] :=
    @Lexer.Separator.block ['*'] [] (by decide) .nil
  have hlines : Lexer.Layout differenceTokens differenceLines := by
    refine .cons _ (.space (by decide) .nil) (by decide) ?_
    refine .cons _ (.space (by decide) .nil) (by decide) ?_
    refine .cons _ (.space (by decide) ?_) (by decide) (.last _)
    exact @Lexer.Separator.line ['b'] [] (by decide) .nil
  exact ⟨htokens, hbefore, hlines, parse_layout htokens hbefore hlines⟩

end Statement

end SqlDialects
