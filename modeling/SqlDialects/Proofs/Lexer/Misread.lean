import SqlDialects.Proofs.Lexer.Pieces

/-!
# Names that double quotes cannot hold

A name between double quotes is read as a string, which may end before or behind the name where a
backslash stands in it. Main statements: such a string is no name in double quotes at all, and what
it would be as a name differs from the name in length.
-/

namespace SqlDialects.Lexer

/-- The string that is read where a name is written in double quotes. -/
structure ReadFor (name body : List Char) : Prop where
  stringBody : StringBody '\x22' body
  text : ∃ rest after, body ++ '\x22' :: rest = double '\x22' name ++ '\x22' :: after ∧
    rest.head? ≠ some '\x22' ∧ after.head? ≠ some '\x22'

section Doubled

variable {quote : Char} {name body rest after : List Char}

/-- Where a name ends is told by the first quote that stands alone. -/
theorem name_eq_of_double_append {name' : List Char}
    (h : double quote name' ++ quote :: rest = double quote name ++ quote :: after)
    (hrest : rest.head? ≠ some quote) (hafter : after.head? ≠ some quote) : name' = name := by
  have hsplit := splitName_double name' hrest
  rw [h, splitName_double name hafter] at hsplit
  cases hsplit
  rfl

theorem length_undouble_pos (quote c : Char) (body : List Char) :
    0 < (undouble quote (c :: body)).length := by
  cases body with
  | nil => simp [undouble]
  | cons d body =>
    unfold undouble
    split <;> simp

/-- Of the bodies that may be read from the text of a name, only the one that is the doubled name
has its length. -/
theorem eq_double_of_length (h : body ++ quote :: rest = double quote name ++ quote :: after)
    (hrest : rest.head? ≠ some quote) (hafter : after.head? ≠ some quote)
    (hlength : (undouble quote body).length = name.length) : body = double quote name := by
  induction name generalizing body with
  | nil =>
    cases body with
    | nil => rfl
    | cons c body =>
      have := length_undouble_pos quote c body
      simp only [List.length_nil] at hlength
      omega
  | cons c name ih =>
    by_cases hc : c = quote
    · subst hc
      rw [double, if_pos rfl] at h ⊢
      rcases body with _ | ⟨x, _ | ⟨y, body⟩⟩
      · -- The quote that ends the body is the first of a pair.
        simp_all
      · -- It is the second of a pair, and so the name holds nothing else.
        have hnil : name = [] := by
          simp only [undouble, List.length_cons, List.length_nil] at hlength
          exact List.eq_nil_of_length_eq_zero (by omega)
        subst hnil
        simp_all [double]
      · simp only [List.cons_append, List.cons.injEq] at h
        obtain ⟨rfl, rfl, h⟩ := h
        simp only [undouble, and_self, if_true, List.length_cons] at hlength
        rw [ih h (by omega)]
    · rw [double, if_neg hc] at h ⊢
      cases body with
      | nil => simp_all
      | cons x body =>
        simp only [List.cons_append, List.cons.injEq] at h
        obtain ⟨rfl, h⟩ := h
        rw [undouble_cons_of_ne hc, List.length_cons, List.length_cons] at hlength
        rw [ih h (by omega)]

theorem double_of_not_mem_undouble (h : quote ∉ undouble quote body) :
    double quote body = body := by
  induction body with
  | nil => rfl
  | cons c body ih =>
    by_cases hc : c = quote
    · subst hc
      cases body with
      | nil => simp [undouble] at h
      | cons d body =>
        unfold undouble at h
        split at h <;> simp at h
    · rw [undouble_cons_of_ne hc, List.mem_cons, not_or] at h
      rw [double, if_neg hc, ih h.2]

end Doubled

namespace ReadFor

variable {name body : List Char} (h : ReadFor name body)
include h

/-- Only a name that survives is read as what it is written as. -/
theorem survives_of_eq_double {name' : List Char} (hbody : body = double '\x22' name') :
    survives name = true := by
  obtain ⟨rest, after, htext, hrest, hafter⟩ := h.text
  subst hbody
  obtain rfl := name_eq_of_double_append htext hrest hafter
  exact (stringBody_double_iff _).mp h.stringBody

theorem survives_of_length (hlength : (undouble '\x22' body).length = name.length) :
    survives name = true := by
  obtain ⟨rest, after, htext, hrest, hafter⟩ := h.text
  exact h.survives_of_eq_double (eq_double_of_length htext hrest hafter hlength)

/-- What is read for a name that does not survive holds a quote, so it is no bare word. -/
theorem survives_of_isBareWord (hword : isBareWord (.ofList (undouble '\x22' body)) = true) :
    survives name = true := by
  have hquote : '\x22' ∉ undouble '\x22' body := by
    obtain ⟨-, -, -, -, hall⟩ := isBareWord_iff.mp hword
    rw [String.toList_ofList] at hall
    exact fun hmem => absurd (hall _ hmem) (by decide)
  exact h.survives_of_eq_double (double_of_not_mem_undouble hquote).symm

end ReadFor

/-! ## Tokens -/

/-- Where a name is written in double quotes, a string is read. -/
theorem tokenize_name {name : String} {rest : List Char} {offset : Nat} {ts : List Token}
    {l : Lexer} (hr : rest.head? ≠ some '\x22')
    (h : tokenize ⟨offset, quoted '\x22' name.toList ++ rest⟩ = (.ok ts, l)) :
    ∃ t us body, ts = t :: us ∧ t.kind = .string body '\x22' ∧ ReadFor name.toList body.toList := by
  have hskip : skipFrom .between offset (quoted '\x22' name.toList ++ rest) =
      .ok ⟨offset, quoted '\x22' name.toList ++ rest⟩ :=
    skipFrom_piece (p := .name name '\x22') offset (.inr rfl) hr (by nofun)
  have htext : quoted '\x22' name.toList ++ rest =
      '\x22' :: (double '\x22' name.toList ++ '\x22' :: rest) := by
    simp [quoted]
  have hscan : scan (quoted '\x22' name.toList ++ rest) =
      scanString '\x22' (double '\x22' name.toList ++ '\x22' :: rest) := by
    rw [htext]
    simp only [scan, leadingSymbol?_eq_none _ (by decide : '\x22' ∉ _)]
    simp
  rw [tokenize_eq] at h
  simp only [next, skipBlanks, hskip, readToken, hscan, scanString] at h
  cases hsplit : splitString '\x22' (double '\x22' name.toList ++ '\x22' :: rest) with
  | none => simp [hsplit] at h
  | some split =>
    obtain ⟨body, behind⟩ := split
    have happend := append_of_splitString hsplit
    obtain ⟨hbody, hbehind⟩ := stringBody_of_splitString hsplit
    simp only [hsplit, reduceCtorEq, if_false] at h
    split at h
    · cases h
    · rename_i us _ _
      cases h
      refine ⟨_, us, .ofList body, rfl, rfl, ?_⟩
      rw [String.toList_ofList]
      exact ⟨hbody, behind, rest, happend, hbehind, hr⟩

theorem exists_first_not_quotable {ps : List Piece} (h : ¬ ∀ p ∈ ps, p.Quotable) :
    ∃ first name rest, ps = first ++ .name name '\x22' :: rest ∧ (∀ p ∈ first, p.Quotable) ∧
      ¬ Survives name := by
  induction ps with
  | nil => exact absurd (List.forall_mem_nil _) h
  | cons p ps ih =>
    by_cases hp : p.Quotable
    · rw [List.forall_mem_cons, not_and] at h
      obtain ⟨first, name, rest, rfl, hfirst, hname⟩ := ih (h hp)
      exact ⟨p :: first, name, rest, rfl, List.forall_mem_cons.mpr ⟨hp, hfirst⟩, hname⟩
    · cases p with
      | name body quote =>
        obtain ⟨rfl, hbody⟩ := Classical.not_imp.mp hp
        exact ⟨[], body, ps, rfl, List.forall_mem_nil _, hbody⟩
      | _ => exact absurd trivial hp

/-- Where not all names of pieces can be quoted, a string is read in place of the first that cannot,
behind the tokens of the pieces before it. -/
theorem exists_readFor_of_tokenize {ps : List Piece} (hs : Piece.Separate Piece.Legible none ps)
    (hps : ¬ ∀ p ∈ ps, p.Quotable) {offset : Nat} {ts : List Token} {l : Lexer}
    (h : tokenize ⟨offset, Piece.text ps⟩ = (.ok ts, l)) :
    ∃ first name rest us t vs body, ps = first ++ .name name '\x22' :: rest ∧ ¬ Survives name ∧
      ts = us ++ t :: vs ∧ us.map Token.content = (Piece.tokens first).map Token.content ∧
        t.kind = .string body '\x22' ∧ ReadFor name.toList body.toList := by
  obtain ⟨first, name, rest, rfl, hfirst, hname⟩ := exists_first_not_quotable hps
  obtain ⟨hsfirst, hsname⟩ := Piece.separate_append.mp hs
  obtain ⟨-, hr, -⟩ := hsname
  rw [Option.or_none] at hsfirst hr
  obtain ⟨us, hus, hiff⟩ := tokenize_append hsfirst hfirst offset
  rw [Piece.text_append] at h
  obtain ⟨ws, rfl, hws⟩ := (hiff ts l).mp h
  obtain ⟨t, vs, body, rfl, ht, hbody⟩ := tokenize_name hr hws
  exact ⟨first, name, rest, us, t, vs, body, rfl, hname, rfl, hus, ht, hbody⟩

end SqlDialects.Lexer
