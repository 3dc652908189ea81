import SqlDialects.Proofs.Parser.Operators

/-!
# Reading given tokens

What a parser does where given tokens lie before it: under a condition it returns a given value and
leaves what lies behind the tokens, and without the condition it fails. Main statements: how this
passes through sequencing, repetition and lists.
-/

namespace SqlDialects

namespace TokenStream

/-- The stream with tokens put before it. -/
def push (ts : List Token) (s : TokenStream) : TokenStream :=
  { s with rest := ts ++ s.rest }

variable (t : Token) (ts us : List Token) (s : TokenStream)

@[simp] theorem push_nil : s.push [] = s := rfl

@[simp] theorem push_append : s.push (ts ++ us) = (s.push us).push ts := by
  simp [push]

@[simp] theorem current_push_cons : (s.push (t :: ts)).current = t := rfl

@[simp] theorem tail_push_cons : (s.push (t :: ts)).tail = s.push ts := rfl

@[simp] theorem rest_push : (s.push ts).rest = ts ++ s.rest := rfl

theorem second_eq : s.second = s.tail.current.kind := by
  rcases s with ⟨_ | ⟨t, _ | ⟨t', rest⟩⟩, span, lexeme⟩ <;> rfl

@[simp] theorem second_push_cons : (s.push (t :: ts)).second = (s.push ts).current.kind := by
  rw [second_eq, tail_push_cons]

end TokenStream

namespace Parser

/-- Before the tokens, a parser returns the value and leaves the stream behind them if the condition
holds, and fails if it does not. -/
structure Reads {α : Type} (P : Prop) (p : Parser α) (ts : List Token) (a : α) (s : TokenStream) :
    Prop where
  ok (h : P) : p (s.push ts) = .ok a s
  error (h : ¬P) : ∃ e s', p (s.push ts) = .error e s'

namespace Reads

variable {α β : Type} {P Q : Prop} {s : TokenStream}

/-- The parser does the same before fewer tokens. -/
theorem of_eq {p q : Parser α} {ts us : List Token} {a : α}
    (h : p (s.push ts) = q (s.push us)) (hq : Reads P q us a s) : Reads P p ts a s :=
  ⟨fun hP => h.trans (hq.ok hP), fun hP => h ▸ hq.error hP⟩

/-- The parser does the same as another one. -/
theorem congr {p q : Parser α} {ts : List Token} {a : α} (h : p (s.push ts) = q (s.push ts))
    (hq : Reads P q ts a s) : Reads P p ts a s :=
  of_eq h hq

theorem iff {p : Parser α} {ts : List Token} {a : α} (h : Reads P p ts a s) (hQ : Q ↔ P) :
    Reads Q p ts a s :=
  ⟨fun hq => h.ok (hQ.mp hq), fun hq => h.error (mt hQ.mpr hq)⟩

theorem of_ok {p : Parser α} {ts : List Token} {a : α} (h : p (s.push ts) = .ok a s) :
    Reads True p ts a s :=
  ⟨fun _ => h, fun hP => absurd trivial hP⟩

theorem pure (a : α) : Reads True (Pure.pure a) [] a s :=
  ⟨fun _ => rfl, fun h => absurd trivial h⟩

theorem bind {p : Parser α} {f : α → Parser β} {ts us : List Token} {a : α} {b : β}
    (hp : Reads P p ts a (s.push us)) (hf : Reads Q (f a) us b s) :
    Reads (P ∧ Q) (p >>= f) (ts ++ us) b s := by
  refine ⟨fun ⟨hP, hQ⟩ => ?_, fun h => ?_⟩
  · rw [bind_apply, TokenStream.push_append, hp.ok hP]
    exact hf.ok hQ
  · rw [bind_apply, TokenStream.push_append]
    by_cases hP : P
    · rw [hp.ok hP]
      exact hf.error fun hQ => h ⟨hP, hQ⟩
    · obtain ⟨e, s', he⟩ := hp.error hP
      rw [he]
      exact ⟨e, s', rfl⟩

theorem of_append_nil {p : Parser α} {ts : List Token} {a : α} (h : Reads P p (ts ++ []) a s) :
    Reads P p ts a s := by
  rwa [List.append_nil] at h

/-- What is read first is read under no condition. -/
theorem after {p : Parser α} {f : α → Parser β} {ts us : List Token} {a : α} {b : β}
    (hp : Reads True p ts a (s.push us)) (hf : Reads Q (f a) us b s) :
    Reads Q (p >>= f) (ts ++ us) b s :=
  (hp.bind hf).iff (by simp)

/-- What the last of several parsers returns goes into the value. -/
theorem last {p : Parser α} {ts : List Token} {a : α} {f : α → β} (hp : Reads P p ts a s) :
    Reads P (p >>= fun x => Pure.pure (f x)) ts (f a) s := by
  have h : Reads (P ∧ True) (p >>= fun x => Pure.pure (f x)) (ts ++ []) (f a) s :=
    hp.bind (pure (f a))
  exact of_append_nil (h.iff (and_iff_left trivial).symm)

/-! ## Elementary parsers -/

section Elementary

variable {t : Token} {ts : List Token} {k : TokenKind} {b : β}

theorem expect {f : Unit → Parser β} (hk : t.kind = k) (h : Reads P (f ()) ts b s) :
    Reads P (Parser.expect k >>= f) (t :: ts) b s :=
  of_eq (by rw [bind_apply, expect_apply]; simp [hk]) h

theorem accept {f : Bool → Parser β} (hk : t.kind = k) (h : Reads P (f true) ts b s) :
    Reads P (Parser.accept k >>= f) (t :: ts) b s :=
  of_eq (by rw [bind_apply, accept_apply]; simp [hk]) h

theorem decline {f : Bool → Parser β} (hk : (s.push ts).current.kind ≠ k)
    (h : Reads P (f false) ts b s) : Reads P (Parser.accept k >>= f) ts b s :=
  of_eq (by rw [bind_apply, accept_apply]; simp [hk]) h

theorem advance {f : Unit → Parser β} (h : Reads P (f ()) ts b s) :
    Reads P (Parser.advance >>= f) (t :: ts) b s :=
  of_eq (q := f ()) rfl h

theorem kind {f : TokenKind → Parser β} (h : Reads P (f (s.push ts).current.kind) ts b s) :
    Reads P (Parser.kind >>= f) ts b s :=
  of_eq (q := f (s.push ts).current.kind) rfl h

theorem current {f : Token → Parser β} (h : Reads P (f (s.push ts).current) ts b s) :
    Reads P (Parser.current >>= f) ts b s :=
  of_eq (q := f (s.push ts).current) rfl h

theorem second {f : TokenKind → Parser β} (h : Reads P (f (s.push ts).second) ts b s) :
    Reads P (Parser.second >>= f) ts b s :=
  of_eq (q := f (s.push ts).second) rfl h

theorem require {d : Dialect} {feature : Dialect.Feature} {f : Unit → Parser β}
    (hd : d.supports feature = true) (h : Reads P (f ()) ts b s) :
    Reads P (Parser.require d feature >>= f) ts b s :=
  of_eq (by rw [bind_apply, Parser.require, if_pos hd]; rfl) h

theorem name {d : Dialect} {name : String} {f : String → Parser β} (ht : t.name? d = some name)
    (h : Reads P (f name) ts b s) : Reads P (Parser.name d >>= f) (t :: ts) b s :=
  of_eq (q := f name) (by
    rw [bind_apply, Parser.name, current_bind, TokenStream.current_push_cons, ht]
    rfl) h

theorem identifier {d : Dialect} {name : String} {f : String → Parser β}
    (ht : t.identifier? d = some name) (h : Reads P (f name) ts b s) :
    Reads P (Parser.identifier d >>= f) (t :: ts) b s :=
  of_eq (q := f name) (by
    rw [bind_apply, Parser.identifier, current_bind, TokenStream.current_push_cons, ht]
    rfl) h

theorem fails {p : Parser β} (h : ∃ e s', p (s.push ts) = .error e s') : Reads False p ts b s :=
  ⟨False.elim, fun _ => h⟩

/-- A token that is no name. -/
theorem noIdentifier {d : Dialect} {f : String → Parser β} (ht : t.identifier? d = none) :
    Reads False (Parser.identifier d >>= f) (t :: ts) b s := by
  have h : (Parser.identifier d >>= f) (s.push (t :: ts)) =
      .error ⟨.unexpected .identifier t.kind, t.span⟩ (s.push (t :: ts)) := by
    rw [bind_apply, Parser.identifier, current_bind, TokenStream.current_push_cons, ht]
    rfl
  exact fails ⟨_, _, h⟩

theorem pos {c : Prop} [Decidable c] {p q : Parser β} (hc : c) (h : Reads P p ts b s) :
    Reads P (if c then p else q) ts b s := by
  rwa [if_pos hc]

theorem neg {c : Prop} [Decidable c] {p q : Parser β} (hc : ¬c) (h : Reads P q ts b s) :
    Reads P (if c then p else q) ts b s := by
  rwa [if_neg hc]

/-- What stands between parentheses. -/
theorem parenthesized {p : Parser α} {a : α} {l r : Token} (hl : l.kind = .symbol .leftParen)
    (hr : r.kind = .symbol .rightParen) (hp : Reads P p ts a (s.push [r])) :
    Reads P (Parser.parenthesized p) (l :: (ts ++ [r])) a s :=
  .expect hl <| (hp.bind (.expect hr (.pure a))).iff (by simp)

end Elementary

/-! ## Repetition -/

theorem length_le_intercalate (sep : List α) {l : List (List α)} {x : List α} (h : x ∈ l) :
    x.length ≤ (sep.intercalate l).length := by
  induction l with
  | nil => cases h
  | cons y rest ih =>
    cases rest with
    | nil => simp_all
    | cons z rest =>
      rw [List.intercalate_cons_cons, List.length_append, List.length_append]
      obtain rfl | h := List.mem_cons.mp h
      · omega
      · have := ih h
        omega

section List

variable {ι : Type} {T : ι → List Token} {v : ι → α} {C : ι → Prop}

theorem length_le_flatMap {l : List ι} {x : ι} (h : x ∈ l) :
    (T x).length ≤ (l.flatMap T).length :=
  (List.sublist_flatten_of_mem (List.mem_map_of_mem h)).length_le

/-- Values that are read one after another. The tokens of each are such that the value before it
ends there. -/
theorem many {p : Parser (Option α)} {F : TokenStream → Prop} {l : List ι}
    (hp : ∀ x ∈ l, ∀ u, F u → Reads (C x) p (T x) (some (v x)) u)
    (hT : ∀ x ∈ l, T x ≠ []) (hF : ∀ x ∈ l, ∀ u : TokenStream, F (u.push (T x)))
    (hs : F s) (hstop : p s = .ok none s) :
    Reads (∀ x ∈ l, C x) (Parser.many p) (l.flatMap T) (l.map v) s := by
  have length_le : ∀ l : List ι, (∀ x ∈ l, T x ≠ []) → l.length ≤ (l.flatMap T).length := by
    intro l hT
    induction l with
    | nil => simp
    | cons x rest ih =>
      rw [List.forall_mem_cons] at hT
      have := List.length_pos_iff.mpr hT.1
      have := ih hT.2
      simp only [List.flatMap_cons, List.length_append, List.length_cons]
      omega
  have upTo : ∀ n, l.length < n →
      Reads (∀ x ∈ l, C x) (manyUpTo p n) (l.flatMap T) (l.map v) s := by
    intro n hn
    induction l generalizing n with
    | nil =>
      obtain ⟨n, rfl⟩ := Nat.exists_eq_succ_of_ne_zero (Nat.ne_of_gt hn)
      refine (of_eq (q := Pure.pure []) ?_ (pure [])).iff (by simp)
      rw [manyUpTo, bind_apply]
      simp [hstop]
    | cons x rest ih =>
      rw [List.forall_mem_cons] at hp hT hF
      obtain ⟨n, rfl⟩ := Nat.exists_eq_succ_of_ne_zero (Nat.ne_zero_of_lt hn)
      have hrest := ih hp.2 hT.2 hF.2 n (by simpa using hn)
      have hnext : F (s.push (rest.flatMap T)) := by
        cases rest with
        | nil => exact hs
        | cons y rest =>
          rw [List.flatMap_cons, TokenStream.push_append]
          exact hF.2 y (by simp) _
      rw [List.flatMap_cons]
      exact ((hp.1 _ hnext).bind hrest.last).iff List.forall_mem_cons
  refine of_eq (q := manyUpTo p ((s.push (l.flatMap T)).rest.length + 1)) rfl (upTo _ ?_)
  have := length_le l hT
  rw [TokenStream.rest_push, List.length_append]
  omega

/-- One or more values with commas between them, and no comma behind them. -/
theorem commaList {p : Parser α} {F : TokenStream → Prop} {l : List ι} {c : Token}
    (hc : c.kind = .symbol .comma)
    (hp : ∀ x ∈ l, ∀ u, F u → Reads (C x) p (T x) (v x) u)
    (hF : ∀ u : TokenStream, u.current = c → F u)
    (hs : F s) (hstop : s.current.kind ≠ .symbol .comma) (hne : l ≠ []) :
    Reads (∀ x ∈ l, C x) (Parser.commaList p) ([c].intercalate (l.map T)) (l.map v) s := by
  obtain ⟨x, rest, rfl⟩ := List.exists_cons_of_ne_nil hne
  rw [List.forall_mem_cons] at hp
  have hTens : [c].intercalate ((x :: rest).map T) =
      T x ++ rest.flatMap fun y => c :: T y := by
    clear hne hp
    induction rest generalizing x with
    | nil => simp
    | cons y rest ih =>
      rw [List.map_cons, List.map_cons, List.intercalate_cons_cons, ← List.map_cons, ih]
      simp
  have hrest : Reads (∀ y ∈ rest, C y)
      (Parser.many do
        if ← Parser.accept (.symbol .comma) then return some (← p) else return none)
      (rest.flatMap fun y => c :: T y) (rest.map v) s := by
    refine many (F := F) (fun y hy u hu => accept hc (pos rfl (hp.2 y hy u hu).last))
      (by simp) (fun y _ u => hF _ rfl) hs ?_
    rw [bind_apply, accept_apply, if_neg hstop]
    rfl
  have hnext : F (s.push (rest.flatMap fun y => c :: T y)) := by
    cases rest with
    | nil => exact hs
    | cons y rest => exact hF _ rfl
  rw [hTens]
  exact ((hp.1 _ hnext).bind hrest.last).iff List.forall_mem_cons

end List

end Reads

/-! ## Loops -/

/-- Before the tokens, the repetitions of a step turn one value into another. -/
def Loops {α : Type} (P : Prop) (step : α → Parser (Option α)) (a : α) (ts : List Token) (b : α)
    (s : TokenStream) : Prop :=
  ∀ n, (s.push ts).rest.length < n → Reads P (iterateUpTo step n a) ts b s

namespace Loops

variable {α : Type} {P Q : Prop} {step : α → Parser (Option α)} {a a' b : α}
variable {ts us : List Token} {s : TokenStream}

theorem stop (h : step a s = .ok none s) : Loops True step a [] a s := by
  intro n hn
  obtain ⟨n, rfl⟩ := Nat.exists_eq_succ_of_ne_zero (Nat.ne_zero_of_lt hn)
  refine .of_eq (q := pure a) ?_ (.pure a)
  rw [iterateUpTo, bind_apply]
  simp only [TokenStream.push_nil, h]

theorem cons (hts : ts ≠ []) (h : Reads P (step a) ts (some a') (s.push us))
    (h' : Loops Q step a' us b s) : Loops (P ∧ Q) step a (ts ++ us) b s := by
  intro n hn
  obtain ⟨n, rfl⟩ := Nat.exists_eq_succ_of_ne_zero (Nat.ne_zero_of_lt hn)
  have hpos := List.length_pos_iff.mpr hts
  rw [TokenStream.push_append, TokenStream.rest_push, List.length_append] at hn
  exact h.bind (h' n (by omega))

theorem iterate (h : Loops P step a ts b s) : Reads P (iterate step a) ts b s :=
  .of_eq (q := iterateUpTo step ((s.push ts).rest.length + 1) a) rfl (h _ (Nat.lt_succ_self _))

end Loops

end Parser

end SqlDialects
