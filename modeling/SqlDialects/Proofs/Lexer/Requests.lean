import Mathlib
import SqlDialects.Proofs.Lexer.Layout

/-!
# Requests to a lexer

A lexer may be asked for the next token or for all that are left, as often as one likes and in any
order, also after an error. Main statement: whatever it has been asked before, it stands at a place
of its text and answers from there on as a new lexer would answer on what is left of the text; it
goes forward until the end of input, and tells the tokens of a text in order.
-/

namespace SqlDialects

/-! ## Places moved by an offset -/

def Span.shift (n : Nat) (s : Span) : Span :=
  ⟨n + s.start, n + s.stop⟩

def Token.shift (n : Nat) (t : Token) : Token :=
  { t with span := t.span.shift n }

def LexError.shift (n : Nat) (e : LexError) : LexError :=
  { e with span := e.span.shift n }

/-- The end of input at an offset. -/
def Token.endAt (offset : Nat) : Token :=
  ⟨.endOfInput, .at offset, ""⟩

namespace Lexer

def shift (n : Nat) (l : Lexer) : Lexer :=
  { l with offset := n + l.offset }

def Blank.shift (n : Nat) : Blank → Blank
  | .between => .between
  | .lineComment => .lineComment
  | .blockComment start => .blockComment (n + start)

/-- What is returned together with the place behind it, where the text stands behind others of a
length; `f` moves what is found. -/
def shiftReply {α : Type} (n : Nat) (f : α → α) (reply : Except LexError α × Lexer) :
    Except LexError α × Lexer :=
  ((reply.1.map f).mapError (LexError.shift n), reply.2.shift n)

theorem skipFrom_shift (n : Nat) (mode : Blank) (offset : Nat) (text : List Char) :
    skipFrom (mode.shift n) (n + offset) text =
      ((skipFrom mode offset text).map (shift n)).mapError (Span.shift n) := by
  fun_induction skipFrom mode offset text with
  | case1 offset rest ih => simpa only [Blank.shift, skipFrom, Nat.add_assoc] using ih
  | case2 offset rest ih => simpa only [Blank.shift, skipFrom, Nat.add_assoc] using ih
  | case3 offset c rest _ _ hc ih =>
    rw [← ih, Blank.shift, skipFrom_space hc, Nat.add_assoc]
  | case4 offset c rest hm hs hc =>
    rw [Blank.shift, skipFrom.eq_3 _ _ _ hm hs, if_neg hc]
    rfl
  | case5 offset c rest ih =>
    rw [← ih, Blank.shift, skipFrom, Nat.add_assoc]
    split <;> rfl
  | case6 start offset rest ih => simpa only [Blank.shift, skipFrom, Nat.add_assoc] using ih
  | case7 start offset c rest hs ih =>
    rw [← ih, Blank.shift, skipFrom.eq_6 _ _ _ _ hs, Nat.add_assoc]
  | case8 start offset => rfl
  | case9 mode offset hm =>
    cases mode with
    | between => rfl
    | lineComment => rfl
    | blockComment start => exact absurd rfl (hm start)

theorem readToken_shift (n : Nat) (l : Lexer) :
    (l.shift n).readToken = shiftReply n (Token.shift n) l.readToken := by
  simp only [readToken, shift, shiftReply, Nat.add_assoc]
  cases (scan l.rest).found <;> rfl

theorem next_shift (n : Nat) (l : Lexer) :
    (l.shift n).next = shiftReply n (Token.shift n) l.next := by
  have hskip : (l.shift n).skipBlanks = (l.skipBlanks.map (shift n)).mapError (Span.shift n) :=
    skipFrom_shift n .between l.offset l.rest
  rw [next, next, hskip]
  cases l.skipBlanks with
  | ok start => exact readToken_shift n start
  | error span => rfl

theorem tokenize_shift (n : Nat) (l : Lexer) :
    (l.shift n).tokenize = shiftReply n (List.map (Token.shift n)) l.tokenize := by
  fun_induction tokenize l with
  | case1 l e l' hnext =>
    rw [tokenize_eq, next_shift, hnext]
    rfl
  | case2 l t l' hnext ht =>
    rw [tokenize_eq, next_shift, hnext]
    exact if_pos ht
  | case3 l t l' hnext ht e l'' htokens ih =>
    rw [tokenize_eq, next_shift, hnext]
    refine (if_neg ht).trans ?_
    rw [ih, htokens]
    rfl
  | case4 l t l' hnext ht ts l'' htokens ih =>
    rw [tokenize_eq, next_shift, hnext]
    refine (if_neg ht).trans ?_
    rw [ih, htokens]
    rfl

/-! ## Going forward -/

/-- A place lies in a text behind another one. -/
def IsBehind (l' l : Lexer) : Prop :=
  ∃ passed, passed ++ l'.rest = l.rest ∧ l'.offset = l.offset + byteLength passed

namespace IsBehind

variable {l l' l'' : Lexer}

theorem refl (l : Lexer) : l.IsBehind l :=
  ⟨[], rfl, rfl⟩

theorem trans (h' : l''.IsBehind l') (h : l'.IsBehind l) : l''.IsBehind l := by
  obtain ⟨passed, hrest, hoffset⟩ := h
  obtain ⟨passed', hrest', hoffset'⟩ := h'
  refine ⟨passed ++ passed', ?_, ?_⟩
  · rw [List.append_assoc, hrest', hrest]
  · rw [byteLength_append, hoffset', hoffset, Nat.add_assoc]

theorem offset_le (h : l'.IsBehind l) : l.offset ≤ l'.offset := by
  obtain ⟨passed, -, hoffset⟩ := h
  omega

/-- The end of a text lies behind all of it. -/
theorem eq_of_rest_eq_nil (h : l'.IsBehind l) (hrest : l'.rest = []) :
    l' = ⟨l.offset + byteLength l.rest, []⟩ := by
  obtain ⟨passed, hpassed, hoffset⟩ := h
  rw [hrest, List.append_nil] at hpassed
  obtain ⟨offset, rest⟩ := l'
  simp_all

end IsBehind

theorem byteLength_pos {text : List Char} (h : text ≠ []) : 0 < byteLength text := by
  obtain ⟨c, rest, rfl⟩ := List.exists_cons_of_ne_nil h
  exact Nat.add_pos_left c.utf8Size_pos _

/-- Blanks are passed on the way to the next token. -/
theorem isBehind_skipFrom {mode : Blank} {offset : Nat} {text : List Char} {l : Lexer}
    (h : skipFrom mode offset text = .ok l) : l.IsBehind ⟨offset, text⟩ := by
  have step {l l' : Lexer} (passed : List Char) (hrest : passed ++ l'.rest = l.rest)
      (hoffset : l'.offset = l.offset + byteLength passed) : l'.IsBehind l :=
    ⟨passed, hrest, hoffset⟩
  fun_induction skipFrom mode offset text with
  | case1 offset rest ih => exact (ih h).trans (step ['-', '-'] rfl rfl)
  | case2 offset rest ih => exact (ih h).trans (step ['/', '*'] rfl rfl)
  | case3 offset c rest _ _ _ ih => exact (ih h).trans (step [c] rfl rfl)
  | case4 offset c rest =>
    cases h
    exact .refl _
  | case5 offset c rest ih => exact (ih h).trans (step [c] rfl rfl)
  | case6 start offset rest ih => exact (ih h).trans (step ['*', '/'] rfl rfl)
  | case7 start offset c rest _ ih => exact (ih h).trans (step [c] rfl rfl)
  | case8 => cases h
  | case9 =>
    cases h
    exact .refl _

/-- Where the comment that is being passed begins; between comments, the place itself. -/
def Blank.start (offset : Nat) : Blank → Nat
  | .between => offset
  | .lineComment => offset
  | .blockComment start => start

/-- A comment that is being passed began before the place. -/
def Blank.BeganBefore (offset : Nat) : Blank → Prop
  | .between => True
  | .lineComment => True
  | .blockComment start => start < offset

/-- A comment that is never closed runs to the end of the text. -/
theorem span_of_skipFrom {mode : Blank} {offset : Nat} {text : List Char} {span : Span}
    (hmode : mode.BeganBefore offset) (h : skipFrom mode offset text = .error span) :
    mode.start offset ≤ span.start ∧ span.start < span.stop ∧
      span.stop = offset + byteLength text := by
  have hminus : '-'.utf8Size = 1 := by decide
  have hslash : '/'.utf8Size = 1 := by decide
  have hstar : '*'.utf8Size = 1 := by decide
  fun_induction skipFrom mode offset text with
  | case1 offset rest ih =>
    obtain ⟨hstart, hlt, hstop⟩ := ih trivial h
    simp only [Blank.start, byteLength_cons] at hstart ⊢
    omega
  | case2 offset rest ih =>
    have hopened : offset < offset + 2 := by omega
    obtain ⟨hstart, hlt, hstop⟩ := ih hopened h
    simp only [Blank.start, byteLength_cons] at hstart ⊢
    omega
  | case3 offset c rest _ _ _ ih =>
    obtain ⟨hstart, hlt, hstop⟩ := ih trivial h
    simp only [Blank.start, byteLength_cons] at hstart ⊢
    omega
  | case4 => cases h
  | case5 offset c rest ih =>
    obtain ⟨hstart, hlt, hstop⟩ := ih (by split <;> trivial) h
    split at hstart <;> simp only [Blank.start, byteLength_cons] at hstart ⊢ <;> omega
  | case6 start offset rest ih =>
    have hopened : start < offset := hmode
    obtain ⟨hstart, hlt, hstop⟩ := ih trivial h
    simp only [Blank.start, byteLength_cons] at hstart ⊢
    omega
  | case7 start offset c rest _ ih =>
    have hopened : start < offset := hmode
    obtain ⟨hstart, hlt, hstop⟩ := ih (Nat.lt_add_right c.utf8Size hopened) h
    simp only [Blank.start, byteLength_cons] at hstart ⊢
    omega
  | case8 start offset =>
    cases h
    exact ⟨Nat.le_refl _, hmode, rfl⟩
  | case9 => cases h

/-! ## One token -/

/-- A span is not empty, begins behind one place and ends at another. -/
structure Encloses (l l' : Lexer) (span : Span) : Prop where
  start : l.offset ≤ span.start
  nonempty : span.start < span.stop
  stop : span.stop = l'.offset

namespace Encloses

variable {l l' l'' : Lexer} {span : Span}

theorem offset_lt (h : Encloses l l' span) : l.offset < l'.offset :=
  h.stop ▸ Nat.lt_of_le_of_lt h.start h.nonempty

theorem of_isBehind (h : Encloses l' l'' span) (hl : l'.IsBehind l) : Encloses l l'' span :=
  ⟨hl.offset_le.trans h.start, h.nonempty, h.stop⟩

end Encloses

/-- What a step may find, and where it goes on: a token or an error, which it goes behind, or the
end of input. -/
inductive Step (l : Lexer) : Except LexError Token → Lexer → Prop
  | token {t : Token} {l' : Lexer} (ht : t.kind ≠ .endOfInput) (hspan : Encloses l l' t.span)
    (hbehind : l'.IsBehind l) : Step l (.ok t) l'
  | stop {n : Nat} (hbehind : IsBehind ⟨n, []⟩ l) : Step l (.ok (.endAt n)) ⟨n, []⟩
  | error {e : LexError} {l' : Lexer} (hspan : Encloses l l' e.span) (hbehind : l'.IsBehind l) :
    Step l (.error e) l'

theorem Step.of_isBehind {l l' l'' : Lexer} {found : Except LexError Token}
    (h : Step l' found l'') (hl : l'.IsBehind l) : Step l found l'' := by
  cases h with
  | token ht hspan hbehind => exact .token ht (hspan.of_isBehind hl) (hbehind.trans hl)
  | stop hbehind => exact .stop (hbehind.trans hl)
  | error hspan hbehind => exact .error (hspan.of_isBehind hl) (hbehind.trans hl)

theorem Step.isBehind {l l' : Lexer} {found : Except LexError Token} (h : Step l found l') :
    l'.IsBehind l := by
  cases h <;> assumption

theorem step_readToken (l : Lexer) : Step l l.readToken.1 l.readToken.2 := by
  have hbehind : l.readToken.2.IsBehind l := ⟨(scan l.rest).read, scan_append l.rest, rfl⟩
  obtain ⟨offset, rest⟩ := l
  cases rest with
  | nil => exact .stop (.refl _)
  | cons c rest =>
    have hread := byteLength_pos (scan_read_ne_nil c rest)
    have hspan : Encloses ⟨offset, c :: rest⟩ (readToken ⟨offset, c :: rest⟩).2
        ⟨offset, offset + byteLength (scan (c :: rest)).read⟩ :=
      ⟨Nat.le_refl _, Nat.lt_add_of_pos_right hread, rfl⟩
    cases hfound : (scan (c :: rest)).found with
    | ok kind =>
      have hkind : kind ≠ .endOfInput := by
        rintro rfl
        exact found_ne_endOfInput c rest hfound
      have hok : (readToken ⟨offset, c :: rest⟩).1 = .ok ⟨kind,
          ⟨offset, offset + byteLength (scan (c :: rest)).read⟩,
          .ofList (scan (c :: rest)).read⟩ := by
        simp only [readToken, hfound]
      rw [hok]
      exact .token hkind hspan hbehind
    | error cause =>
      have herror : (readToken ⟨offset, c :: rest⟩).1 =
          .error ⟨cause, ⟨offset, offset + byteLength (scan (c :: rest)).read⟩⟩ := by
        simp only [readToken, hfound]
      rw [herror]
      exact .error hspan hbehind

theorem step_next (l : Lexer) : Step l l.next.1 l.next.2 := by
  unfold next
  cases hskip : l.skipBlanks with
  | ok start => exact (step_readToken start).of_isBehind (isBehind_skipFrom hskip)
  | error span =>
    have hbetween : Blank.between.BeganBefore l.offset := trivial
    obtain ⟨hstart, hlt, hstop⟩ := span_of_skipFrom hbetween hskip
    exact .error ⟨hstart, hlt, rfl⟩ ⟨l.rest, List.append_nil _, hstop⟩

/-! ## Requests -/

/-- What a lexer may be asked for: the next token, or all tokens that are left. -/
inductive Request where
  | next
  | tokenize
  deriving DecidableEq

/-- The tokens that a lexer answers a request with, or an error, and where it goes on. -/
def answer (l : Lexer) : Request → Except LexError (List Token) × Lexer
  | .next => (l.next.1.map ([·]), l.next.2)
  | .tokenize => l.tokenize

/-- Where a lexer stands after some requests. -/
def after (l : Lexer) (requests : List Request) : Lexer :=
  requests.foldl (fun l r => (l.answer r).2) l

/-- The answers to some requests, one after another. -/
def answers (l : Lexer) : List Request → List (Except LexError (List Token))
  | [] => []
  | r :: rest => (l.answer r).1 :: (l.answer r).2.answers rest

theorem answer_shift (n : Nat) (l : Lexer) (r : Request) :
    (l.shift n).answer r = shiftReply n (List.map (Token.shift n)) (l.answer r) := by
  cases r with
  | next =>
    simp only [answer, next_shift, shiftReply]
    cases l.next.1 <;> rfl
  | tokenize => exact tokenize_shift n l

/-- What the answer to a request may be, and where the lexer goes on: tokens or an error, which it
goes behind, or tokens up to the end of input. -/
inductive Answer (l : Lexer) : Except LexError (List Token) → Lexer → Prop
  | tokens {ts : List Token} {l' : Lexer} (hts : ∀ t ∈ ts, t.kind ≠ .endOfInput)
    (hlt : l.offset < l'.offset) (hbehind : l'.IsBehind l) : Answer l (.ok ts) l'
  | stop {ts : List Token} {n : Nat} (hts : ∀ t ∈ ts, t.kind ≠ .endOfInput)
    (hbehind : IsBehind ⟨n, []⟩ l) : Answer l (.ok (ts ++ [.endAt n])) ⟨n, []⟩
  | error {e : LexError} {l' : Lexer} (hspan : Encloses l l' e.span) (hbehind : l'.IsBehind l) :
    Answer l (.error e) l'

theorem Answer.isBehind {l l' : Lexer} {found : Except LexError (List Token)}
    (h : Answer l found l') : l'.IsBehind l := by
  cases h <;> assumption

theorem Answer.encloses {l l' : Lexer} {e : LexError} (h : Answer l (.error e) l') :
    Encloses l l' e.span := by
  cases h with
  | error hspan => exact hspan

theorem Answer.offset_lt {l l' : Lexer} {found : Except LexError (List Token)}
    (h : Answer l found l') (hts : ∀ ts, found = .ok ts → ∀ t ∈ ts, t.kind ≠ .endOfInput) :
    l.offset < l'.offset := by
  cases h with
  | tokens _ hlt => exact hlt
  | stop => exact absurd rfl (hts _ rfl _ (List.mem_append_right _ (List.mem_singleton_self _)))
  | error hspan => exact hspan.offset_lt

theorem Answer.rest_eq_nil {l l' : Lexer} {ts : List Token} {t : Token} (h : Answer l (.ok ts) l')
    (ht : t ∈ ts) (hkind : t.kind = .endOfInput) : l'.rest = [] := by
  cases h with
  | tokens hts => exact absurd hkind (hts t ht)
  | stop => rfl

theorem answer_next (l : Lexer) : Answer l (l.answer .next).1 (l.answer .next).2 := by
  have hstep := step_next l
  rw [answer]
  generalize l.next = reply at hstep ⊢
  obtain ⟨found, l'⟩ := reply
  cases hstep with
  | token ht hspan hbehind =>
    exact .tokens (List.forall_mem_singleton.mpr ht) hspan.offset_lt hbehind
  | stop hbehind => exact .stop (List.forall_mem_nil _) hbehind
  | error hspan hbehind => exact .error hspan hbehind

/-- All tokens that are left are those of one step after another. -/
theorem answer_tokenize (l : Lexer) : Answer l l.tokenize.1 l.tokenize.2 := by
  fun_induction tokenize l with
  | case1 l e l' hnext =>
    have hstep := step_next l
    rw [hnext] at hstep
    cases hstep with
    | error hspan hbehind => exact .error hspan hbehind
  | case2 l t l' hnext ht =>
    have hstep := step_next l
    rw [hnext] at hstep
    cases hstep with
    | token hne => exact absurd ht hne
    | stop hbehind => exact .stop (List.forall_mem_nil _) hbehind
  | case3 l t l' hnext ht e l'' htokens ih =>
    have hbehind : l'.IsBehind l := by simpa only [hnext] using (step_next l).isBehind
    rw [htokens] at ih
    cases ih with
    | error hspan hbehind' => exact .error (hspan.of_isBehind hbehind) (hbehind'.trans hbehind)
  | case4 l t l' hnext ht ts l'' htokens ih =>
    have hbehind : l'.IsBehind l := by simpa only [hnext] using (step_next l).isBehind
    rw [htokens] at ih
    cases ih with
    | tokens hts hlt hbehind' =>
      exact .tokens (List.forall_mem_cons.mpr ⟨ht, hts⟩) (Nat.lt_of_le_of_lt hbehind.offset_le hlt)
        (hbehind'.trans hbehind)
    | stop hts hbehind' =>
      exact .stop (List.forall_mem_cons.mpr ⟨ht, hts⟩) (hbehind'.trans hbehind)

theorem answer_answer (l : Lexer) (r : Request) : Answer l (l.answer r).1 (l.answer r).2 := by
  cases r with
  | next => exact answer_next l
  | tokenize => exact answer_tokenize l

theorem isBehind_after (l : Lexer) (requests : List Request) : (l.after requests).IsBehind l := by
  induction requests generalizing l with
  | nil => exact .refl l
  | cons r rest ih => exact (ih _).trans (answer_answer l r).isBehind

/-! ## The end of the text -/

theorem answer_end (n : Nat) (r : Request) : answer ⟨n, []⟩ r = (.ok [.endAt n], ⟨n, []⟩) := by
  cases r with
  | next => rfl
  | tokenize => exact tokenize_nil n

theorem after_end (n : Nat) (requests : List Request) : after ⟨n, []⟩ requests = ⟨n, []⟩ := by
  induction requests with
  | nil => rfl
  | cons r rest ih =>
    rw [after, List.foldl_cons, answer_end]
    exact ih

/-- All tokens that are left end with the end of input, at the end of the text. -/
theorem exists_eq_append_endAt {l l' : Lexer} {ts : List Token} (h : l.tokenize = (.ok ts, l')) :
    ∃ us, ts = us ++ [.endAt l'.offset] ∧ (∀ u ∈ us, u.kind ≠ .endOfInput) ∧ l'.rest = [] := by
  have hanswer := answer_tokenize l
  rw [h] at hanswer
  cases hanswer with
  | tokens hts =>
    obtain ⟨us, t, rfl, ⟨ht, -⟩, -⟩ :=
      exists_append_of_tokenize (P := fun _ => True) (fun _ _ _ _ => trivial) h
    exact absurd ht (hts t (by simp))
  | stop hts => exact ⟨_, rfl, hts, rfl⟩

/-! ## Tokens in order -/

/-- The answers to some requests tell the tokens of a list from the front, and all remaining tokens
are those that they have not told; each answer at the end of the text tells the end of input once
more. -/
def TellsInOrder (l : Lexer) (requests : List Request) (ts : List Token) (stop : Token) : Prop :=
  ∃ (told : List (List Token)) (remaining : List Token), l.answers requests = told.map .ok ∧
    (l.after requests).tokenize.1 = .ok remaining ∧
      told.flatten ++ remaining = ts ++ List.replicate (told.flatten.count stop) stop

theorem TellsInOrder.cons {l l' : Lexer} {r : Request} {rest : List Request} {us vs ts : List Token}
    {stop : Token} (hanswer : l.answer r = (.ok us, l')) (h : TellsInOrder l' rest vs stop)
    (heq : us ++ vs = ts ++ List.replicate (us.count stop) stop) :
    TellsInOrder l (r :: rest) ts stop := by
  obtain ⟨told, remaining, htold, hremaining, htokens⟩ := h
  refine ⟨us :: told, remaining, ?_, ?_, ?_⟩
  · rw [answers, hanswer, htold, List.map_cons]
  · rwa [after, List.foldl_cons, hanswer]
  · calc (us :: told).flatten ++ remaining
      _ = us ++ vs ++ List.replicate (told.flatten.count stop) stop := by
        rw [List.flatten_cons, List.append_assoc, htokens, List.append_assoc]
      _ = ts ++ List.replicate ((us :: told).flatten.count stop) stop := by
        rw [heq, List.append_assoc, List.replicate_append_replicate, List.flatten_cons,
          List.count_append]

theorem count_endAt {ts : List Token} (hts : ∀ t ∈ ts, t.kind ≠ .endOfInput) (n : Nat) :
    ts.count (.endAt n) = 0 :=
  List.count_eq_zero.mpr fun hmem => hts _ hmem rfl

theorem tellsInOrder_of_tokenize {l l' : Lexer} {ts : List Token}
    (h : l.tokenize = (.ok ts, l')) (requests : List Request) :
    TellsInOrder l requests ts (.endAt l'.offset) := by
  induction requests generalizing l ts with
  | nil => exact ⟨[], ts, rfl, congrArg Prod.fst h, by simp⟩
  | cons r rest ih =>
    obtain ⟨us, hts, hus, hrest⟩ := exists_eq_append_endAt h
    have hend : l'.tokenize = (.ok [.endAt l'.offset], l') := by
      obtain ⟨n, _⟩ := l'
      subst hrest
      exact tokenize_nil n
    cases r with
    | tokenize =>
      refine .cons h (ih hend) ?_
      have hcount : ts.count (.endAt l'.offset) = 1 := by
        simp [hts, count_endAt hus]
      rw [hcount, List.replicate_one]
    | next =>
      cases hnext : l.next with
      | mk found l₁ =>
        have hstep := step_next l
        have hanswer : l.answer .next = (found.map ([·]), l₁) := by rw [answer, hnext]
        rw [hnext] at hstep
        cases hstep with
        | @token t _ ht =>
          obtain ⟨us, rfl, htokens⟩ := (tokenize_cons hnext ht).mp h
          refine .cons hanswer (ih htokens) ?_
          rw [count_endAt (List.forall_mem_singleton.mpr ht), List.replicate_zero, List.append_nil,
            List.singleton_append]
        | @stop n =>
          have htokens : l.tokenize = (.ok [.endAt n], ⟨n, []⟩) := by
            rw [tokenize_eq, hnext]
            rfl
          cases h.symm.trans htokens
          refine .cons hanswer (ih hend) ?_
          simp
        | error =>
          rw [tokenize_eq, hnext] at h
          cases h

/-! ## Any requests -/

/-- What is promised of a request to a lexer over a text. -/
structure SafeRequest (text : String) (l : Lexer) (r : Request) : Prop where
  place : l.IsBehind (ofString text)
  behind : (l.answer r).2.IsBehind l
  error ⦃e : LexError⦄ (h : (l.answer r).1 = .error e) : Encloses l (l.answer r).2 e.span
  advances (h : ∀ ts, (l.answer r).1 = .ok ts → ∀ t ∈ ts, t.kind ≠ .endOfInput) :
    l.offset < (l.answer r).2.offset
  stops ⦃ts : List Token⦄ ⦃t : Token⦄ (h : (l.answer r).1 = .ok ts) (ht : t ∈ ts)
    (hkind : t.kind = .endOfInput) :
    (l.answer r).2 = ⟨byteLength text.toList, []⟩ ∧ ∀ requests r',
      ((l.answer r).2.after requests).answer r' =
        (.ok [.endAt (byteLength text.toList)], (l.answer r).2)
  fresh : l.answer r = shiftReply l.offset (List.map (Token.shift l.offset))
    ((ofString (.ofList l.rest)).answer r)

theorem IsBehind.safeRequest {text : String} {l : Lexer} (h : l.IsBehind (ofString text))
    (r : Request) : SafeRequest text l r := by
  have hanswer := answer_answer l r
  refine ⟨h, hanswer.isBehind, ?_, hanswer.offset_lt, ?_, ?_⟩
  · intro e he
    exact (he ▸ hanswer).encloses
  · intro ts t hts ht hkind
    have hrest : (l.answer r).2.rest = [] := (hts ▸ hanswer).rest_eq_nil ht hkind
    have hend : (l.answer r).2 = ⟨byteLength text.toList, []⟩ := by
      rw [(hanswer.isBehind.trans h).eq_of_rest_eq_nil hrest, ofString, Nat.zero_add]
    refine ⟨hend, fun requests r' => ?_⟩
    rw [hend, after_end, answer_end]
  · rw [← answer_shift]
    simp [ofString, shift]

/-- Whatever a lexer has been asked for before, each request is safe; and if the text has tokens,
the answers tell them in order. -/
theorem safeRequest_after (text : String) (requests : List Request) :
    (∀ r, SafeRequest text ((ofString text).after requests) r) ∧
      ∀ ts, SqlDialects.tokenize text = .ok ts →
        TellsInOrder (ofString text) requests ts (.endAt (byteLength text.toList)) := by
  constructor
  · intro r
    exact (isBehind_after (ofString text) requests).safeRequest r
  · intro ts hts
    have htokens : (ofString text).tokenize = (.ok ts, (ofString text).tokenize.2) := Prod.ext hts rfl
    obtain ⟨-, -, -, hrest⟩ := exists_eq_append_endAt htokens
    have hend := (answer_tokenize (ofString text)).isBehind.eq_of_rest_eq_nil hrest
    have hstop : (ofString text).tokenize.2.offset = byteLength text.toList := by
      rw [hend, ofString, Nat.zero_add]
    exact hstop ▸ tellsInOrder_of_tokenize htokens requests

/-- The tokens of a sum over two lines. -/
def spreadSum : List Token :=
  [⟨.identifier "é", ⟨0, 2⟩, "é"⟩, ⟨.symbol .plus, ⟨7, 8⟩, "+"⟩, ⟨.integer 1, ⟨8, 9⟩, "1"⟩, .endAt 9]

/-- The first token alone, then all others, then the end of input again. -/
theorem tellsInOrder_spreadSum :
    SqlDialects.tokenize "é-- x\n+1" = .ok spreadSum ∧
      TellsInOrder (ofString "é-- x\n+1") [.next, .tokenize, .next] spreadSum (.endAt 9) := by
  have htokens : SqlDialects.tokenize "é-- x\n+1" = .ok spreadSum := by decide +kernel
  have hlength : byteLength "é-- x\n+1".toList = 9 := by decide
  obtain ⟨-, htold⟩ := safeRequest_after "é-- x\n+1" [.next, .tokenize, .next]
  exact ⟨htokens, hlength ▸ htold spreadSum htokens⟩

end Lexer

end SqlDialects
