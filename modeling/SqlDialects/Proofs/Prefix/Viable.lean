import SqlDialects.Proofs.Parser.Reads
import SqlDialects.Proofs.Parser.Steps

/-!
# Prefixes that can be completed

What a parser passes before it stops depends on the tokens it has passed, and on a token behind them
only as far as it decides whether to go on. Hence what was read is read before other tokens too, if
they decide alike, and tokens that were passed before a failure can be completed. Main statements:
how this passes through sequencing, repetition and lists.
-/

namespace SqlDialects

namespace TokenStream

theorem push_injective (s : TokenStream) {ts us : List Token} (h : s.push ts = s.push us) :
    ts = us :=
  List.append_cancel_right (congrArg rest h)

theorem eq_nil_of_push (s : TokenStream) {ts : List Token} (h : s.push ts = s) : ts = [] :=
  s.push_injective (h.trans (push_nil s).symm)

theorem push_cons_ne (s : TokenStream) (c : Token) (ts : List Token) : s.push (c :: ts) ≠ s :=
  fun h => nomatch s.eq_nil_of_push h

theorem IsLeftOf.exists_push {s s' : TokenStream} (h : s'.IsLeftOf s) : ∃ ts, s = s'.push ts := by
  obtain ⟨ts, hts⟩ := h.rest
  obtain ⟨-, hspan, hlexeme⟩ := Token.mk.inj h.stop
  obtain ⟨rest, span, lexeme⟩ := s
  exact ⟨ts, by rw [push, hts, hspan, hlexeme]⟩

/-- What a part of a stream is left of lies between the two. -/
theorem IsLeftOf.exists_append {s t : TokenStream} {ts : List Token} (ht : t.IsLeftOf (s.push ts))
    (hs : s.IsLeftOf t) : ∃ us vs, ts = us ++ vs ∧ t = s.push vs := by
  obtain ⟨us, hus⟩ := ht.exists_push
  obtain ⟨vs, rfl⟩ := hs.exists_push
  exact ⟨us, vs, s.push_injective (hus.trans (push_append us vs s).symm), rfl⟩

end TokenStream

namespace Parser

section Given

variable {k : TokenKind} {s : TokenStream}

theorem expect_of_kind (h : s.current.kind = k) : expect k s = .ok () s.tail := by
  rw [expect_apply, if_pos h]

theorem expect_of_kind_ne (h : s.current.kind ≠ k) :
    expect k s = .error ⟨.unexpected (.token k) s.current.kind, s.current.span⟩ s := by
  rw [expect_apply, if_neg h]

theorem accept_of_kind (h : s.current.kind = k) : accept k s = .ok true s.tail := by
  rw [accept_apply, if_pos h]

theorem accept_of_kind_ne (h : s.current.kind ≠ k) : accept k s = .ok false s := by
  rw [accept_apply, if_neg h]

end Given

/-! ## Tokens that decide alike -/

/-- A token of the first kind means something else where one of the second kind follows it. -/
def Pairs : TokenKind → TokenKind → Prop
  | .keyword .IGNORE, k => k = .keyword .NULLS
  | .keyword .OVER, k => k = .symbol .leftParen
  | .keyword .LEFT, k | .keyword .RIGHT, k => k = .symbol .leftParen
  | .keyword .NOT, k => k = .keyword .IN ∨ k = .keyword .BETWEEN ∨ (patternOp? k).isSome = true
  | _, _ => False

/-- The kinds that end a query. -/
def IsEnd (k : TokenKind) : Prop :=
  k = .symbol .rightParen ∨ k = .symbol .semicolon ∨ k = .endOfInput

instance : DecidablePred IsEnd :=
  fun k => inferInstanceAs (Decidable (k = _ ∨ k = _ ∨ k = _))

theorem not_pairs_of_isEnd {k k' : TokenKind} (h : IsEnd k') : ¬ Pairs k k' := by
  intro hpairs
  unfold Pairs at hpairs
  obtain rfl | rfl | rfl := h <;> split at hpairs <;> simp [patternOp?] at hpairs

/-- Both streams begin with the same token, and the next one of the second stream does not change
what that means. -/
inductive Resembles : TokenStream → TokenStream → Prop
  | intro (c : Token) {t w : TokenStream}
    (h : Pairs c.kind w.current.kind → Pairs c.kind t.current.kind) :
    Resembles (t.push [c]) (w.push [c])

/-- A parser that stops at the first stream stops at the second one. Where ends are not told from
each other, any two of them will do. -/
def Agree (ends : Prop) (t w : TokenStream) : Prop :=
  Resembles t w ∨ (ends ∧ IsEnd t.current.kind ∧ IsEnd w.current.kind)

/-- What ends a query, and the end of input in particular, means the same before every token. -/
theorem IsEnd.not_pairs {k k' : TokenKind} (h : IsEnd k) : ¬ Pairs k k' := by
  obtain rfl | rfl | rfl := h <;> exact id

theorem IsEnd.ne {k k' : TokenKind} (h : IsEnd k) (hk : ¬ IsEnd k') : k ≠ k' :=
  fun he => hk (he ▸ h)

/-- The token gives no other meaning to one before it. -/
def Plain (x : Token) : Prop :=
  ∀ k, ¬ Pairs k x.kind

theorem plain_of_kind {x : Token} (h : x.kind ≠ .keyword .NULLS ∧ x.kind ≠ .symbol .leftParen ∧
    x.kind ≠ .keyword .IN ∧ x.kind ≠ .keyword .BETWEEN ∧ patternOp? x.kind = none) : Plain x := by
  obtain ⟨hnulls, hparen, hin, hbetween, hpattern⟩ := h
  intro k hpairs
  unfold Pairs at hpairs
  split at hpairs <;> simp_all

namespace Resembles

variable {t w : TokenStream}

theorem current (h : Resembles t w) : t.current = w.current := by
  cases h
  rfl

theorem second (h : Resembles t w) (hpairs : Pairs w.current.kind w.second) :
    Pairs t.current.kind t.second := by
  cases h with
  | intro c h =>
    rw [TokenStream.second_push_cons] at *
    exact h hpairs

/-- Two tokens decide everything. -/
theorem push_cons_cons (c c' : Token) (ts us : List Token) (t w : TokenStream) :
    Resembles (t.push (c :: c' :: ts)) (w.push (c :: c' :: us)) :=
  .intro c (t := t.push (c' :: ts)) (w := w.push (c' :: us)) id

/-- So does one token that means the same before every other one. -/
theorem push_cons {c : Token} (h : ∀ k, ¬ Pairs c.kind k) (ts us : List Token)
    (t w : TokenStream) : Resembles (t.push (c :: ts)) (w.push (c :: us)) :=
  .intro c (t := t.push ts) (w := w.push us) fun hpairs => absurd hpairs (h _)

end Resembles

theorem Agree.push {ends : Prop} {t w : TokenStream} (h : Agree ends t w) (c : Token)
    (ts : List Token) : Resembles (t.push (c :: ts)) (w.push (c :: ts)) := by
  cases ts with
  | cons c' ts => exact .push_cons_cons c c' ts ts t w
  | nil =>
    refine .intro c fun hpairs => ?_
    obtain h | ⟨-, -, hw⟩ := h
    · exact h.current ▸ hpairs
    · exact absurd hpairs (not_pairs_of_isEnd hw)

theorem Agree.push_append {ends : Prop} {t w : TokenStream} (h : Agree ends t w)
    (ts : List Token) : Agree ends (t.push ts) (w.push ts) := by
  cases ts with
  | nil => exact h
  | cons c ts => exact .inl (h.push c ts)

/-! ## The judgement -/

/-- The tokens lie before an end of input. -/
def Unended (ts : List Token) : Prop :=
  ∀ t ∈ ts, t.kind ≠ .endOfInput

instance : DecidablePred Unended :=
  fun ts => inferInstanceAs (Decidable (∀ t ∈ ts, _))

theorem unended_nil : Unended [] :=
  nofun

theorem Unended.cons {t : Token} {ts : List Token} (ht : t.kind ≠ .endOfInput) (h : Unended ts) :
    Unended (t :: ts) :=
  List.forall_mem_cons.mpr ⟨ht, h⟩

theorem Unended.append {ts us : List Token} (ht : Unended ts) (hu : Unended us) : Unended (ts ++ us) :=
  List.forall_mem_append.mpr ⟨ht, hu⟩

/-- Before tokens that begin with one that has the property `H`: what the first parser reads the
second one reads before any stream that agrees with what it stopped at, and tokens at whose end the
first one stops can be completed to what the second one reads before any token with the property
`F`. Where the judgement is guarded, the completion does not change what the first token means. -/
structure ViableAt (ends guarded : Prop) (H F : Token → Prop) {α : Type} (p q : Parser α) :
    Prop where
  forward : GoesForward p
  stable ⦃t w : TokenStream⦄ ⦃ts : List Token⦄ ⦃a : α⦄ (hH : H (t.push ts).current)
    (hp : p (t.push ts) = .ok a t) (hw : Agree ends t w) : q (w.push ts) = .ok a w
  complete ⦃s : TokenStream⦄ ⦃c : Token⦄ ⦃ts : List Token⦄ (hH : H c)
    (hp : after p (s.push (c :: ts)) = s) :
    ∃ us a, Unended us ∧ ∀ v : TokenStream, F v.current →
      (guarded → Resembles (s.push (c :: ts)) (v.push (c :: ts ++ us))) ∧
        q (v.push (c :: ts ++ us)) = .ok a v

/-- Whatever the first token is, ends are not told from each other. -/
abbrev Viable (F : Token → Prop) {α : Type} (p q : Parser α) : Prop :=
  ViableAt True True (fun _ => True) F p q

/-- Before a token with the property `F`, some tokens are read, the first of which, or that token
itself, has the property `K`. -/
def Begins (F K : Token → Prop) {α : Type} (p : Parser α) : Prop :=
  ∃ us a, Unended us ∧ ∀ v : TokenStream, F v.current →
    K (v.push us).current ∧ p (v.push us) = .ok a v

/-- A token of a kind. -/
def sample (k : TokenKind) : Token :=
  ⟨k, .at 0, ""⟩

/-- The token is a closing parenthesis, and is written like no other one. -/
def Closes (x : Token) : Prop :=
  x = sample (.symbol .rightParen)

namespace Begins

variable {α β : Type} {F K L : Token → Prop}

theorem mono {p : Parser α} (h : Begins F K p) (hF : ∀ x, K x → L x) : Begins F L p := by
  obtain ⟨us, a, hunended, h⟩ := h
  exact ⟨us, a, hunended, fun v hv => ⟨hF _ (h v hv).1, (h v hv).2⟩⟩

theorem before {p : Parser α} (h : Begins F K p) (hF : ∀ x, L x → F x) : Begins L K p := by
  obtain ⟨us, a, hunended, h⟩ := h
  exact ⟨us, a, hunended, fun v hv => h v (hF _ hv)⟩

/-- Nothing needs to be read. -/
theorem skip {p : Parser α} {a : α} (hF : ∀ x, F x → K x)
    (h : ∀ v : TokenStream, F v.current → p v = .ok a v) : Begins F K p :=
  ⟨[], a, unended_nil, fun v hv => ⟨hF _ hv, h v hv⟩⟩

theorem pure (hF : ∀ x, F x → K x) (a : α) : Begins F K (Pure.pure a : Parser α) :=
  skip hF fun _ _ => rfl

theorem bind {p : Parser α} {f : α → Parser β} (hp : Begins L K p)
    (hf : ∀ a, Begins F L (f a)) : Begins F K (p >>= f) := by
  obtain ⟨us, a, hus, hp⟩ := hp
  obtain ⟨us', b, hus', hf⟩ := hf a
  refine ⟨us ++ us', b, hus.append hus', fun v hv => ?_⟩
  obtain ⟨hF, hb⟩ := hf v hv
  obtain ⟨hF', ha⟩ := hp (v.push us') hF
  rw [TokenStream.push_append]
  exact ⟨hF', (bind_of_ok ha f).trans hb⟩

theorem expect {k : TokenKind} {f : Unit → Parser β} (hk : k ≠ .endOfInput) (hF : K (sample k))
    (hf : Begins F (fun _ => True) (f ())) : Begins F K (Parser.expect k >>= f) := by
  obtain ⟨us, b, hus, hf⟩ := hf
  refine ⟨sample k :: us, b, hus.cons hk, fun v hv => ⟨hF, ?_⟩⟩
  exact (bind_of_ok (expect_of_kind rfl) f).trans (hf v hv).2

/-- Any token will do where one is passed. -/
theorem advance {x : Token} {f : Unit → Parser β} (hx : x.kind ≠ .endOfInput) (hF : K x)
    (hf : Begins F (fun _ => True) (f ())) : Begins F K (Parser.advance >>= f) := by
  obtain ⟨us, b, hus, hf⟩ := hf
  exact ⟨x :: us, b, hus.cons hx, fun v hv => ⟨hF, (hf v hv).2⟩⟩

/-- What is not there is not accepted. -/
theorem accept {k : TokenKind} {f : Bool → Parser β} (hk : ∀ x, K x → x.kind ≠ k)
    (hf : Begins F K (f false)) : Begins F K (Parser.accept k >>= f) := by
  obtain ⟨us, b, hus, hf⟩ := hf
  refine ⟨us, b, hus, fun v hv => ⟨(hf v hv).1, ?_⟩⟩
  exact (bind_of_ok (accept_of_kind_ne (hk _ (hf v hv).1)) f).trans (hf v hv).2

theorem kind {f : TokenKind → Parser β} {k : TokenKind} (hk : ∀ x, K x → f x.kind = f k)
    (hf : Begins F K (f k)) : Begins F K (Parser.kind >>= f) := by
  obtain ⟨us, b, hus, hf⟩ := hf
  refine ⟨us, b, hus, fun v hv => ⟨(hf v hv).1, ?_⟩⟩
  rw [kind_bind, hk _ (hf v hv).1]
  exact (hf v hv).2

/-- Two words that are not there need not be completed. -/
theorem pair {k k' : TokenKind} (hk : ∀ x, F x → x.kind ≠ k) (p : Parser α) (a : α) :
    Begins F F (do
      if (← Parser.kind) = k && (← Parser.second) = k' then do Parser.advance; p else return a) :=
  skip (fun _ h => h) fun v hv => by
    rw [kind_bind]
    simp only [hk _ hv, decide_false, Bool.false_and]
    rfl

/-- Nothing needs to be repeated. -/
theorem iterate {step : α → Parser (Option α)} (hF : ∀ x, F x → K x)
    (hp : ∀ a, Progresses (step a))
    (hstop : ∀ a (v : TokenStream), F v.current → step a v = .ok none v) (a : α) :
    Begins F K (Parser.iterate step a) :=
  skip hF fun v hv => iterate_of_none hp (hstop a v hv)

theorem many {p : Parser (Option α)} (hF : ∀ x, F x → K x) (hp : Progresses p)
    (hstop : ∀ v : TokenStream, F v.current → p v = .ok none v) : Begins F K (Parser.many p) :=
  skip hF fun v hv => many_of_none hp (hstop v hv)

theorem commaItem_of_ne {p : Parser α} {v : TokenStream} (h : v.current.kind ≠ .symbol .comma) :
    (do if ← Parser.accept (.symbol .comma) then return some (← p) else return none) v =
      .ok none v :=
  bind_of_ok (accept_of_kind_ne h) _

/-- One item will do for a list. -/
theorem commaList {p : Parser α} (hs : Begins F K p) (hp : GoesForward p)
    (hF : ∀ x, F x → x.kind ≠ .symbol .comma) : Begins F K (Parser.commaList p) :=
  hs.bind fun _ => .bind
    (.many (fun _ h => h) (progresses_commaItem hp) fun _ hv => commaItem_of_ne (hF _ hv))
    fun _ => .pure (fun _ h => h) _

theorem parenthesized {p : Parser α} (hF : K (sample (.symbol .leftParen)))
    (hs : Begins Closes (fun _ => True) p) : Begins F K (Parser.parenthesized p) :=
  .expect (by decide) hF <| hs.bind fun _ => .expect (by decide) rfl (.pure (fun _ _ => trivial) _)

end Begins

namespace ViableAt

variable {α β : Type} {E E' G G' : Prop} {H H' F K : Token → Prop}

theorem mono {p q : Parser α} (h : ViableAt E G H F p q) (hE : E' → E) (hG : G' → G)
    (hH : ∀ x, H' x → H x) (hF : ∀ x, K x → F x) : ViableAt E' G' H' K p q where
  forward := h.forward
  stable _ _ _ _ hH' hp hw := h.stable (hH _ hH') hp (hw.imp_right fun hw => ⟨hE hw.1, hw.2⟩)
  complete _ _ _ hH' hp := by
    obtain ⟨us, a, hunended, hus⟩ := h.complete (hH _ hH') hp
    exact ⟨us, a, hunended, fun v hv => ⟨fun hg => (hus v (hF _ hv)).1 (hG hg), (hus v (hF _ hv)).2⟩⟩

theorem anywhere {p q : Parser α} (h : ViableAt E True (fun _ => True) F p q) :
    ViableAt E G H F p q :=
  h.mono id (fun _ => trivial) (fun _ _ => trivial) fun _ hx => hx

/-- Fewer tokens may follow. -/
theorem before {p q : Parser α} (h : ViableAt E G H F p q) (hF : ∀ x, K x → F x) :
    ViableAt E G H K p q :=
  h.mono id id (fun _ hx => hx) hF

/-- A parser that never moves has nothing to complete. -/
theorem of_stays {p q : Parser α} (hp : ∀ s, after p s = s)
    (hok : ∀ ⦃t w a⦄, H t.current → p t = .ok a t → Agree E t w → q w = .ok a w) :
    ViableAt E G H F p q where
  forward s := (hp s).symm ▸ .refl s
  stable t w ts a hH ha hw := by
    obtain rfl := t.eq_nil_of_push ((hp (t.push ts)).symm.trans (after_of_ok ha))
    exact hok hH ha hw
  complete s c ts _ h := absurd ((hp (s.push (c :: ts))).symm.trans h) (s.push_cons_ne c ts)

theorem pure (a : α) : ViableAt E G H F (Pure.pure a) (Pure.pure a) :=
  of_stays (fun _ => rfl) fun _ _ _ _ h _ => by
    cases h
    rfl

theorem of_error {p q : Parser α} (h : ∀ s, ∃ e, p s = .error e s) : ViableAt E G H F p q := by
  refine of_stays (fun s => ?_) fun t w a _ ha _ => ?_
  · obtain ⟨e, he⟩ := h s
    exact after_of_error he
  · obtain ⟨e, he⟩ := h t
    cases he.symm.trans ha

theorem unexpected (expected : Expected) (q : Parser α) :
    ViableAt E G H F (Parser.unexpected expected) q :=
  of_error fun _ => ⟨_, rfl⟩

theorem fail (cause : SyntaxCause) (q : Parser α) : ViableAt E G H F (Parser.fail cause) q :=
  of_error fun _ => ⟨_, rfl⟩

/-- A parser that a bound never stops is judged by what it is within each bound. -/
theorem of_bounded {p q : Parser α} {r : Nat → Parser α} (h : ∀ n, ViableAt E G H F (r n) q)
    (hp : ∀ ⦃s : TokenStream⦄ ⦃n : Nat⦄, s.rest.length < n → p s = r n s) :
    ViableAt E G H F p q where
  forward s := by
    have hforward := (h (s.rest.length + 1)).forward s
    rwa [after, ← hp (Nat.lt_succ_self _), ← after] at hforward
  stable t w ts a hH ha hw := by
    rw [hp (Nat.lt_succ_self _)] at ha
    exact (h _).stable hH ha hw
  complete s c ts hH hs := by
    rw [after, hp (Nat.lt_succ_self _), ← after] at hs
    exact (h _).complete hH hs

/-! ## Sequencing -/

/-- What follows may depend on a property `Q` of what was read. Unless it always passes a token, ends
must not be told from each other before it either. -/
theorem bindOf {p q : Parser α} {f g : α → Parser β} {Q : α → Prop} (hp : ViableAt E' G H K p q)
    (hf : ∀ a, ViableAt E True (fun _ => True) F (f a) (g a)) (hE : (E → E') ∨ ∀ a, Passes (f a))
    (hQ : ∀ c ts a, (∀ v : TokenStream, K v.current → q (v.push (c :: ts)) = .ok a v) → Q a)
    (hs : ∀ a, Q a → Begins F K (g a)) :
    ViableAt E G H F (p >>= f) (q >>= g) where
  forward := hp.forward.bind fun a => (hf a).forward
  stable t w ts b hH h hw := by
    obtain ⟨a, u, ha, hb⟩ := bind_eq_ok.mp h
    obtain ⟨us, vs, rfl, rfl⟩ :=
      (isLeftOf_of_ok hp.forward ha).exists_append (isLeftOf_of_ok (hf a).forward hb)
    rw [TokenStream.push_append] at hH ha ⊢
    have hagree : Agree E' (t.push vs) (w.push vs) := by
      cases vs with
      | cons c vs => exact .inl (hw.push c vs)
      | nil =>
        obtain hE | hpasses := hE
        · exact hw.imp_right fun hw => ⟨hE hw.1, hw.2⟩
        · exact absurd (hpasses a hb) (Nat.lt_irrefl _)
    exact (bind_of_ok (hp.stable hH ha hagree) g).trans ((hf a).stable trivial hb hw)
  complete s c ts hH h := by
    -- where the first parser has passed all the tokens, the second one starts from nothing
    have restart (h : after p (s.push (c :: ts)) = s) : ∃ us b, Unended us ∧
        ∀ v : TokenStream, F v.current → (G → Resembles (s.push (c :: ts)) (v.push (c :: ts ++ us))) ∧
          (q >>= g) (v.push (c :: ts ++ us)) = .ok b v := by
      obtain ⟨us, a, hunended, hus⟩ := hp.complete hH h
      obtain ⟨vs, b, hunended', hvs⟩ := hs a (hQ c (ts ++ us) a fun v hv => (hus v hv).2)
      refine ⟨us ++ vs, b, hunended.append hunended', fun v hv => ?_⟩
      obtain ⟨hF', hb⟩ := hvs v hv
      obtain ⟨hres, ha⟩ := hus (v.push vs) hF'
      rw [← List.append_assoc, TokenStream.push_append]
      exact ⟨hres, (bind_of_ok ha g).trans hb⟩
    cases hps : p (s.push (c :: ts)) with
    | error e u =>
      rw [after_of_error (bind_of_error hps f)] at h
      exact restart ((after_of_error hps).trans h)
    | ok a u =>
      rw [after_bind_of_ok hps] at h
      have hleft := (hf a).forward u
      rw [h] at hleft
      obtain ⟨us, vs, hsplit, rfl⟩ := (isLeftOf_of_ok hp.forward hps).exists_append hleft
      cases vs with
      | nil => exact restart (after_of_ok hps)
      | cons c' vs =>
        obtain ⟨vs', b, hunended, hvs⟩ := (hf a).complete trivial h
        refine ⟨vs', b, hunended, fun v hv => ?_⟩
        obtain ⟨hres, hb⟩ := hvs v hv
        have hagree : Agree E' (s.push (c' :: vs)) (v.push (c' :: vs ++ vs')) := .inl (hres trivial)
        rw [hsplit, TokenStream.push_append] at hps
        rw [hsplit, List.append_assoc, TokenStream.push_append, TokenStream.push_append]
        have hhead : ((s.push (c' :: vs)).push us).current = c := by
          rw [← TokenStream.push_append, ← hsplit, TokenStream.current_push_cons]
        refine ⟨fun _ => ?_, (bind_of_ok (hp.stable (hhead ▸ hH) hps hagree) g).trans hb⟩
        cases us with
        | nil => exact hres trivial
        | cons c us => exact hagree.push c us

/-- One parser after another. -/
theorem bind {p q : Parser α} {f g : α → Parser β} (hp : ViableAt E G H K p q)
    (hf : ∀ a, ViableAt E True (fun _ => True) F (f a) (g a)) (hs : ∀ a, Begins F K (g a)) :
    ViableAt E G H F (p >>= f) (q >>= g) :=
  hp.bindOf hf (.inl id) (fun _ _ _ _ => trivial) fun a _ => hs a

/-- One parser after another, where the second one always passes a token. -/
theorem bindPassing {p q : Parser α} {f g : α → Parser β} (hp : ViableAt False G H K p q)
    (hf : ∀ a, ViableAt E True (fun _ => True) F (f a) (g a)) (hpasses : ∀ a, Passes (f a))
    (hs : ∀ a, Begins F K (g a)) : ViableAt E G H F (p >>= f) (q >>= g) :=
  hp.bindOf hf (.inr hpasses) (fun _ _ _ _ => trivial) fun a _ => hs a

/-- The value of one parser goes into that of another. -/
theorem map {p q : Parser α} (hp : ViableAt E G H F p q) (f : α → β) :
    ViableAt E G H F (p >>= fun a => Pure.pure (f a)) (q >>= fun a => Pure.pure (f a)) :=
  hp.bind (fun _ => .pure _) fun _ => .pure (fun _ h => h) _

/-! ## One token -/

/-- What is done depends on the kind of the current token. -/
theorem kind {f g : TokenKind → Parser α}
    (h : ∀ k, ViableAt E G (fun x => H x ∧ x.kind = k) F (f k) (g k))
    (hend : E → ∀ k k', IsEnd k → IsEnd k' → g k = g k') :
    ViableAt E G H F (Parser.kind >>= f) (Parser.kind >>= g) where
  forward := .kind fun k => (h k).forward
  stable t w ts a hH ha hw := by
    have hq := (h (t.push ts).current.kind).stable ⟨hH, rfl⟩ ha hw
    obtain hres | ⟨hE, ht, hw'⟩ := hw.push_append ts
    · rw [hres.current] at hq
      exact hq
    · rw [hend hE _ _ ht hw'] at hq
      exact hq
  complete s c ts hH hp := (h c.kind).complete ⟨hH, rfl⟩ hp

/-- What is done depends on the current token. -/
theorem current {f g : Token → Parser α}
    (h : ∀ u, ViableAt E G (fun x => H x ∧ x = u) F (f u) (g u))
    (hend : E → ∀ t u : Token, IsEnd t.kind → IsEnd u.kind → g t = g u) :
    ViableAt E G H F (Parser.current >>= f) (Parser.current >>= g) where
  forward s := (h s.current).forward s
  stable t w ts a hH ha hw := by
    have hq := (h (t.push ts).current).stable ⟨hH, rfl⟩ ha hw
    obtain hres | ⟨hE, ht, hw'⟩ := hw.push_append ts
    · rw [hres.current] at hq
      exact hq
    · rw [hend hE _ _ ht hw'] at hq
      exact hq
  complete s c ts hH hp := (h c).complete ⟨hH, rfl⟩ hp

/-- A token that is there is passed. What follows it need not be guarded, as that token comes
between. -/
theorem advanceThen {f g : Unit → Parser α} (hH : E → ∀ x, H x → x.kind ≠ .endOfInput)
    (hf : ViableAt E False (fun _ => True) F (f ()) (g ()))
    (hs : ∀ x, H x → Begins F (fun y => G → ¬ Pairs x.kind y.kind) (g ())) :
    ViableAt E G H F (Parser.advance >>= f) (Parser.advance >>= g) where
  forward := .bind goesForward_congruence.advance fun _ => hf.forward
  stable t w ts a hHt ha hw := by
    cases ts with
    | nil =>
      have hlt : t.tail.rest.length < t.rest.length := by
        obtain hw | ⟨hE, -⟩ := hw
        · cases hw
          exact Nat.lt_succ_self _
        · exact PassAlike.rest_tail_length (hH hE _ hHt)
      have hle := (isLeftOf_of_ok hf.forward (s := t.tail) ha).rest.length_le
      exact absurd hle (Nat.not_le_of_lt hlt)
    | cons c ts =>
      have ha : f () (t.push ts) = .ok a t := ha
      exact hf.stable trivial ha hw
  complete s c ts hHc hp := by
    have hp : after (f ()) (s.push ts) = s := hp
    cases ts with
    | nil =>
      obtain ⟨us, a, hunended, hus⟩ := hs c hHc
      refine ⟨us, a, hunended, fun v hv => ⟨fun hG => ?_, (hus v hv).2⟩⟩
      exact .intro c (w := v.push us) fun hpairs => absurd hpairs ((hus v hv).1 hG)
    | cons c' ts =>
      obtain ⟨us, a, hunended, hus⟩ := hf.complete trivial hp
      exact ⟨us, a, hunended, fun v hv => ⟨fun _ => .push_cons_cons c c' ts (ts ++ us) s v, (hus v hv).2⟩⟩

theorem advance {f g : Unit → Parser α} (hH : E → ∀ x, H x → x.kind ≠ .endOfInput)
    (hf : ViableAt E True (fun _ => True) F (f ()) (g ()))
    (hs : ∀ x, H x → Begins F (fun y => G → ¬ Pairs x.kind y.kind) (g ())) :
    ViableAt E G H F (Parser.advance >>= f) (Parser.advance >>= g) :=
  advanceThen hH hf.anywhere hs

/-- What is done depends on the kind of the second token too: where it gives another meaning to the
first one, that is passed, and what follows goes on from it; elsewhere nothing is passed. -/
theorem second {k l : TokenKind} {C : TokenKind → Prop} [DecidablePred C]
    (hC : ∀ x, Pairs k x ↔ C x) (hH : ∀ x, H x → x.kind = k) {P Q : TokenKind → Parser α}
    {p q : Parser α} (hP : ∀ x, C x → ViableAt E True (fun y => y.kind = x) F (P x) (Q x))
    (hpasses : ∀ ⦃s : TokenStream⦄ ⦃a s'⦄, C s.current.kind →
      P s.current.kind s = .ok a s' → s'.rest.length < s.rest.length)
    (hl : C l) (hs : Begins F (fun y => y.kind = l) (Q l))
    (hp : ∀ s, after p s = s) (hpq : ViableAt E G H F p q) :
    ViableAt E G H F
      (Parser.second >>= fun x => if C x then Parser.advance >>= fun _ => P x else p)
      (Parser.second >>= fun x => if C x then Parser.advance >>= fun _ => Q x else q) where
  forward := by
    refine .bind goesForward_congruence.second fun x => ?_
    split
    · exact .bind goesForward_congruence.advance fun _ => (hP x ‹_›).forward
    · exact hpq.forward
  stable t w ts a hHt ha hw := by
    have ha : (if C (t.push ts).second then Parser.advance >>= fun _ => P (t.push ts).second else p)
      (t.push ts) = .ok a t := ha
    show (if C (w.push ts).second then Parser.advance >>= fun _ => Q (w.push ts).second else q)
      (w.push ts) = .ok a w
    have hend : ¬ IsEnd (t.push ts).current.kind := fun h =>
      h.not_pairs (hH _ hHt ▸ (hC l).mpr hl)
    by_cases hx : C (t.push ts).second
    · rw [if_pos hx] at ha
      have ha : P (t.push ts).second (t.push ts).tail = .ok a t := ha
      cases ts with
      | nil =>
        have hlt := PassAlike.rest_tail_length fun h => hend (.inr (.inr h))
        have hle := (isLeftOf_of_ok (hP _ hx).forward ha).rest.length_le
        exact absurd hle (Nat.not_le_of_lt hlt)
      | cons c ts =>
        rw [TokenStream.second_push_cons] at ha hx
        cases ts with
        | nil => exact absurd (hpasses (s := t) hx ha) (Nat.lt_irrefl _)
        | cons c' ts =>
          rw [TokenStream.second_push_cons, if_pos (show C (w.push (c' :: ts)).current.kind from hx)]
          have ha : P c'.kind (t.push (c' :: ts)) = .ok a t := ha
          exact (hP c'.kind hx).stable rfl ha hw
    · rw [if_neg hx] at ha
      obtain rfl := t.eq_nil_of_push ((hp (t.push ts)).symm.trans (after_of_ok ha))
      have hq := hpq.stable hHt ha hw
      obtain hw | ⟨-, ht, -⟩ := hw
      · have hstays : ¬ C w.second := fun h => by
          have hpairs := hw.second (hw.current ▸ (hH _ hHt).symm ▸ (hC _).mpr h)
          exact hx ((hC _).mp (hH _ hHt ▸ hpairs))
        exact (congrFun (if_neg hstays) w).trans hq
      · exact absurd ht hend
  complete s c ts hHc h := by
    have h : after (if C (s.push (c :: ts)).second then
        Parser.advance >>= fun _ => P (s.push (c :: ts)).second else p) (s.push (c :: ts)) = s := h
    rw [TokenStream.second_push_cons] at h
    by_cases hx : C (s.push ts).current.kind
    · rw [if_pos hx] at h
      have h : after (P (s.push ts).current.kind) (s.push ts) = s := h
      cases ts with
      | nil =>
        obtain ⟨us, a, hunended, hus⟩ := hs
        refine ⟨us, a, hunended, fun v hv => ⟨fun _ => ?_, ?_⟩⟩
        · exact .intro c (w := v.push us) fun _ => hH c hHc ▸ (hC _).mpr hx
        · obtain ⟨hkind, ha⟩ := hus v hv
          have hsecond : (v.push (c :: us)).second = l :=
            (TokenStream.second_push_cons c us v).trans hkind
          show (if C (v.push (c :: us)).second then Parser.advance >>= fun _ =>
            Q (v.push (c :: us)).second else q) (v.push (c :: us)) = .ok a v
          rw [hsecond, if_pos hl]
          exact ha
      | cons c' ts =>
        obtain ⟨us, a, hunended, hus⟩ := (hP c'.kind hx).complete rfl h
        refine ⟨us, a, hunended, fun v hv => ⟨fun _ => .push_cons_cons c c' ts (ts ++ us) s v, ?_⟩⟩
        exact (congrFun (if_pos (c := C c'.kind) hx) _).trans (hus v hv).2
    · rw [if_neg hx, hp] at h
      exact absurd h (s.push_cons_ne c ts)

/-- Two words that count only together: the first one alone is left where it is. -/
theorem pair {k l : TokenKind} (hpairs : ∀ x, Pairs k x ↔ x = l) {p q : Parser α} {a : α}
    (h : ViableAt E True (fun x => x.kind = l) F p q)
    (hpasses : ∀ ⦃s : TokenStream⦄ ⦃a s'⦄, s.current.kind = l → p s = .ok a s' →
      s'.rest.length < s.rest.length)
    (hs : Begins F (fun x => x.kind = l) q) :
    ViableAt E G H F
      (do if (← Parser.kind) = k && (← Parser.second) = l then do Parser.advance; p else return a)
      (do if (← Parser.kind) = k && (← Parser.second) = l then do Parser.advance; q else return a) := by
  have other {x : TokenKind} (hx : x ≠ k) (p : Parser α) :
      (do if x = k && (← Parser.second) = l then do Parser.advance; p else return a : Parser α) =
        Pure.pure a := by
    funext s
    show (if (decide (x = k) && _) = true then _ else Pure.pure a : Parser α) s = _
    rw [decide_eq_false hx, Bool.false_and]
    rfl
  have hk : ¬ IsEnd k := fun hk => hk.not_pairs ((hpairs l).mpr rfl)
  refine .kind (fun x => ?_) fun _ x x' hx hx' => ?_
  · by_cases hx : x = k
    · simp only [hx, decide_true, Bool.true_and, decide_eq_true_eq]
      exact .second hpairs (fun _ hx => hx.2) (fun _ hy => hy ▸ h) (fun _ _ _ hy => hpasses hy) rfl
        hs (fun _ => rfl) (.pure a)
    · rw [other hx, other hx]
      exact .pure a
  · rw [other (hx.ne hk), other (hx'.ne hk)]

/-- A token of a kind that has to be there. -/
theorem expectThen (k : TokenKind) (hk : k ≠ .endOfInput) {f g : Unit → Parser α}
    (hf : ViableAt E False (fun _ => True) F (f ()) (g ()))
    (hs : Begins F (fun x => G → ¬ Pairs k x.kind) (g ())) :
    ViableAt E G H F (Parser.expect k >>= f) (Parser.expect k >>= g) where
  forward := .bind (goesForward_congruence.expect k) fun _ => hf.forward
  stable t w ts a _ ha hw := by
    obtain ⟨⟨⟩, u, hu, ha'⟩ := bind_eq_ok.mp ha
    cases ts with
    | nil =>
      have hpasses := (passes_expect hk).bind (f := f) fun _ => hf.forward
      exact absurd (hpasses ha) (Nat.lt_irrefl _)
    | cons c ts =>
      by_cases hc : c.kind = k
      · cases (expect_of_kind (s := t.push (c :: ts)) hc).symm.trans hu
        have ha' : f () (t.push ts) = .ok a t := ha'
        exact (bind_of_ok (expect_of_kind (s := w.push (c :: ts)) hc) g).trans
          (hf.stable trivial ha' hw)
      · cases (expect_of_kind_ne (s := t.push (c :: ts)) hc).symm.trans hu
  complete s c ts hH hp := by
    by_cases hc : c.kind = k
    · have hadvance : ViableAt E G (fun x => x.kind = k) F (Parser.advance >>= f)
          (Parser.advance >>= g) := .advanceThen (fun _ _ hx => hx ▸ hk) hf fun x hx => hx ▸ hs
      rw [after_bind_of_ok (expect_of_kind (s := s.push (c :: ts)) hc)] at hp
      have hp : after (Parser.advance >>= f) (s.push (c :: ts)) = s := hp
      obtain ⟨us, a, hunended, hus⟩ := hadvance.complete hc hp
      refine ⟨us, a, hunended, fun v hv => ⟨(hus v hv).1, ?_⟩⟩
      exact (bind_of_ok (expect_of_kind (s := v.push (c :: ts ++ us)) hc) g).trans (hus v hv).2
    · rw [after_of_error (bind_of_error (expect_of_kind_ne (s := s.push (c :: ts)) hc) f)] at hp
      exact absurd hp (s.push_cons_ne c ts)

theorem expect (k : TokenKind) (hk : k ≠ .endOfInput) {f g : Unit → Parser α}
    (hf : ViableAt E True (fun _ => True) F (f ()) (g ()))
    (hs : Begins F (fun x => G → ¬ Pairs k x.kind) (g ())) :
    ViableAt E G H F (Parser.expect k >>= f) (Parser.expect k >>= g) :=
  expectThen k hk hf.anywhere hs

/-- A token of a kind that may be there. -/
theorem acceptOr (k : TokenKind) (hk : ¬ IsEnd k)
    {f g : Bool → Parser α} (ht : ViableAt E False (fun _ => True) F (f true) (g true))
    (hs : Begins F (fun x => G → ¬ Pairs k x.kind) (g true))
    (hf : ViableAt E G H F (f false) (g false)) :
    ViableAt E G H F (Parser.accept k >>= f) (Parser.accept k >>= g) := by
  have branches (f : Bool → Parser α) : Parser.accept k >>= f =
      Parser.kind >>= fun k' => if k' = k then Parser.advance >>= fun _ => f true else f false := by
    funext s
    rw [kind_bind]
    by_cases hc : s.current.kind = k
    · rw [bind_of_ok (accept_of_kind hc), if_pos hc]
      rfl
    · rw [bind_of_ok (accept_of_kind_ne hc), if_neg hc]
  rw [branches, branches]
  refine .kind (fun k' => ?_) fun _ k' k'' hk' hk'' => ?_
  · by_cases hc : k' = k
    · subst hc
      rw [if_pos rfl, if_pos rfl]
      exact .advanceThen (fun _ _ hx => hx.2 ▸ fun he => hk (.inr (.inr he))) ht
        fun x hx => hx.2 ▸ hs
    · rw [if_neg hc, if_neg hc]
      exact hf.mono id id (fun _ hx => hx.1) fun _ hx => hx
  · rw [if_neg (hk'.ne hk), if_neg (hk''.ne hk)]

theorem accept (k : TokenKind) (hk : ¬ IsEnd k)
    {f g : Bool → Parser α} (ht : ViableAt E True (fun _ => True) F (f true) (g true))
    (hs : Begins F (fun x => G → ¬ Pairs k x.kind) (g true))
    (hf : ViableAt E G H F (f false) (g false)) :
    ViableAt E G H F (Parser.accept k >>= f) (Parser.accept k >>= g) :=
  acceptOr k hk ht.anywhere hs hf

theorem acceptThen (k : TokenKind) (hk : ¬ IsEnd k)
    {p p' q q' : Parser α} (hp : ViableAt E True (fun _ => True) F p p')
    (hs : Begins F (fun x => G → ¬ Pairs k x.kind) p') (hq : ViableAt E G H F q q') :
    ViableAt E G H F (do if ← Parser.accept k then p else q)
      (do if ← Parser.accept k then p' else q') :=
  .accept k hk hp hs hq

/-- A construct that a dialect may not have. -/
theorem require (d : Dialect) (feature : Dialect.Feature) {f g : Unit → Parser α}
    (hf : ViableAt E G H F (f ()) (g ())) :
    ViableAt E G H F (Parser.require d feature >>= f) (Parser.require d feature >>= g) := by
  unfold Parser.require
  split
  · exact hf
  · exact .of_error fun _ => ⟨_, rfl⟩

/-! ## Names -/

section Names

variable {d : Dialect}

theorem identifier_bind (f : String → Parser α) :
    Parser.identifier d >>= f = Parser.current >>= fun t =>
      match t.identifier? d with
      | some name => Parser.advance >>= fun _ => f name
      | none => Parser.unexpected .identifier := by
  funext s
  rw [current_bind, bind_apply, Parser.identifier, current_bind]
  cases s.current.identifier? d <;> rfl

theorem name_bind (f : String → Parser α) :
    Parser.name d >>= f = Parser.current >>= fun t =>
      match t.name? d with
      | some name => Parser.advance >>= fun _ => f name
      | none => Parser.unexpected .identifier := by
  funext s
  rw [current_bind, bind_apply, Parser.name, current_bind]
  cases s.current.name? d <;> rfl

theorem identifier?_of_isEnd {t : Token} (h : IsEnd t.kind) : t.identifier? d = none := by
  unfold Token.identifier?
  obtain h | h | h := h <;> rw [h]

theorem name?_of_isEnd {t : Token} (h : IsEnd t.kind) : t.name? d = none := by
  unfold Token.name?
  split
  · obtain h | h | h := h <;> simp_all
  · exact identifier?_of_isEnd h

theorem identifier {f g : String → Parser α}
    (hf : ∀ name, ViableAt E True (fun _ => True) F (f name) (g name))
    (hs : ∀ name, Begins F (fun x => G → Plain x) (g name)) :
    ViableAt E G H F (Parser.identifier d >>= f) (Parser.identifier d >>= g) := by
  rw [identifier_bind, identifier_bind]
  refine .current (fun u => ?_) fun _ t u ht hu => ?_
  · cases hname : u.identifier? d with
    | none => exact .unexpected _ _
    | some name =>
      refine .advance (fun _ _ hx => hx.2 ▸ kind_ne_of_identifier? hname) (hf name) fun x _ => ?_
      exact (hs name).mono fun _ hplain hG => hplain hG _
  · rw [identifier?_of_isEnd ht, identifier?_of_isEnd hu]

theorem name {f g : String → Parser α}
    (hf : ∀ name, ViableAt E True (fun _ => True) F (f name) (g name))
    (hs : ∀ name, Begins F (fun x => G → Plain x) (g name)) :
    ViableAt E G H F (Parser.name d >>= f) (Parser.name d >>= g) := by
  rw [name_bind, name_bind]
  refine .current (fun u => ?_) fun _ t u ht hu => ?_
  · cases hname : u.name? d with
    | none => exact .unexpected _ _
    | some name =>
      refine .advance (fun _ _ hx => hx.2 ▸ kind_ne_of_name? hname) (hf name) fun x _ => ?_
      exact (hs name).mono fun _ hplain hG => hplain hG _
  · rw [name?_of_isEnd ht, name?_of_isEnd hu]

end Names

/-! ## Repetition -/

section Repetition

/-- A step that is repeated stops before the tokens that may follow. -/
theorem iterate {step step' : α → Parser (Option α)}
    (h : ∀ a, ViableAt E True (fun _ => True) F (step a) (step' a))
    (hp : ∀ a, Progresses (step a)) (hp' : ∀ a, Progresses (step' a))
    (hstop : ∀ a (v : TokenStream), F v.current → step' a v = .ok none v) (a : α) :
    ViableAt E True (fun _ => True) F (Parser.iterate step a) (Parser.iterate step' a) := by
  -- the repetitions beyond a number of them are never asked for, so they may fail
  refine of_bounded (r := fun n => iterateOver (fun _ => Parser.unexpected .expression) step n a)
    (fun n => ?_) fun _ _ hn => iterate_eq_iterateOver hp _ a hn
  induction n generalizing a with
  | zero => exact .unexpected _ _
  | succ n ih =>
    rw [iterateOver, iterate_eq hp']
    refine (h a).bind (fun o => ?_) fun o => ?_
    · cases o with
      | none => exact .pure a
      | some b => exact ih b
    · cases o with
      | none => exact .pure (fun _ h => h) a
      | some b => exact .iterate (fun _ h => h) hp' hstop b

theorem many {p q : Parser (Option α)} (h : ViableAt E True (fun _ => True) F p q)
    (hp : Progresses p) (hq : Progresses q)
    (hstop : ∀ v : TokenStream, F v.current → q v = .ok none v) :
    ViableAt E True (fun _ => True) F (Parser.many p) (Parser.many q) := by
  refine of_bounded (r := fun n => manyOver (Parser.unexpected .expression) p n)
    (fun n => ?_) fun _ _ hn => many_eq_manyOver hp _ hn
  induction n with
  | zero => exact .unexpected _ _
  | succ n ih =>
    rw [manyOver, many_eq hq]
    refine h.bind (fun o => ?_) fun o => ?_
    · cases o with
      | none => exact .pure []
      | some a => exact ih.map (a :: ·)
    · cases o with
      | none => exact .pure (fun _ h => h) []
      | some a =>
        exact .bind (.many (fun _ h => h) hq hstop) fun _ => .pure (fun _ h => h) _

variable {p q : Parser α} (h : ViableAt E True (fun _ => True) F p q) (hq : GoesForward q)
  (hF : ∀ x, F x → x.kind ≠ .symbol .comma)
include h hq hF

theorem commaList (hs : Begins F (fun _ => True) q) :
    ViableAt E True (fun _ => True) F (Parser.commaList p) (Parser.commaList q) := by
  have stop (v : TokenStream) (hv : F v.current) := Begins.commaItem_of_ne (p := q) (hF _ hv)
  refine h.bind (fun a => (many ?_ (progresses_commaItem h.forward) (progresses_commaItem hq)
    stop).map (a :: ·)) fun a => ?_
  · refine .acceptThen (.symbol .comma) (by decide) (h.map some) ?_ (.pure none)
    exact .bind (hs.mono fun _ _ _ => id) fun _ => .pure (fun _ h => h) _
  · exact .bind (.many (fun _ h => h) (progresses_commaItem hq) stop) fun _ =>
      .pure (fun _ h => h) _

end Repetition

/-- What stands between parentheses may be such that only the closing one ends it. -/
theorem parenthesized {p q : Parser α} (h : ViableAt False True (fun _ => True) Closes p q)
    (hs : Begins Closes (fun _ => True) q) :
    ViableAt E G H F (Parser.parenthesized p) (Parser.parenthesized q) := by
  have close (a : α) : Begins F Closes (do Parser.expect (.symbol .rightParen); return a) :=
    .expect (by decide) rfl (.pure (fun _ _ => trivial) a)
  refine .expect (.symbol .leftParen) nofun
    (h.bindPassing (fun a => ?_) (fun a => ?_) close) ?_
  · exact .expect (.symbol .rightParen) nofun (.pure a) (.pure (fun _ _ _ => id) a)
  · exact (passes_expect (k := .symbol .rightParen) nofun).bind fun _ => goesForward_congruence.pure a
  · exact .bind (hs.mono fun _ _ _ => id) close

end ViableAt

/-- A parser that is viable, and that can be completed from nothing. -/
structure Continues (F K : Token → Prop) {α : Type} (p q : Parser α) : Prop where
  viable : Viable F p q
  begins : Begins F K q

namespace Continues

variable {α β : Type} {F K L : Token → Prop}

theorem pure (hF : ∀ x, F x → K x) (a : α) : Continues F K (Pure.pure a) (Pure.pure a) :=
  ⟨.pure a, .pure hF a⟩

theorem bind {p q : Parser α} {f g : α → Parser β} (hp : Continues K L p q)
    (hf : ∀ a, Continues F K (f a) (g a)) : Continues F L (p >>= f) (q >>= g) :=
  ⟨hp.viable.bind (fun a => (hf a).viable) fun a => (hf a).begins,
    hp.begins.bind fun a => (hf a).begins⟩

theorem map {p q : Parser α} (hp : Continues F K p q) (f : α → β) :
    Continues F K (p >>= fun a => Pure.pure (f a)) (q >>= fun a => Pure.pure (f a)) :=
  hp.bind fun _ => .pure (fun _ h => h) _

theorem mono {p q : Parser α} (hp : Continues F K p q) (hF : ∀ x, K x → L x) :
    Continues F L p q :=
  ⟨hp.viable, hp.begins.mono hF⟩

theorem before {p q : Parser α} (hp : Continues F K p q) (hF : ∀ x, L x → F x) :
    Continues L K p q :=
  ⟨hp.viable.before hF, hp.begins.before hF⟩

theorem expect (k : TokenKind) (hk : k ≠ .endOfInput) {f g : Unit → Parser α}
    (hf : Continues F K (f ()) (g ())) (hF : ∀ x, K x → ¬ Pairs k x.kind) (hs : L (sample k)) :
    Continues F L (Parser.expect k >>= f) (Parser.expect k >>= g) :=
  ⟨.expect k hk hf.viable (hf.begins.mono fun x hx _ => hF x hx),
    .expect hk hs (hf.begins.mono fun _ _ => trivial)⟩

theorem commaList {p q : Parser α} (h : Continues F K p q) (hq : GoesForward q)
    (hF : ∀ x, F x → x.kind ≠ .symbol .comma) :
    Continues F K (Parser.commaList p) (Parser.commaList q) :=
  ⟨h.viable.commaList hq hF (h.begins.mono fun _ _ => trivial), h.begins.commaList hq hF⟩

end Continues

end Parser

end SqlDialects
