import SqlDialects.Proofs.Prefix.Statements

/-!
# Queries in parentheses

A query is read alike wherever it ends. Main statement: what is read as a statement is also read
before a semicolon, and as the query that it is wherever a query stands in parentheses.
-/

open SqlDialects.Parser

namespace SqlDialects

/-- A query of one column. -/
def Select.ofColumn (value : Expr) (source : Option Source) : Select :=
  ⟨false, [⟨value, none⟩], source, [], none, [], none, none, none⟩

/-- Where a query stands in parentheses. -/
inductive Enclosure where
  | value | existence | membership | relation

namespace Enclosure

/-- The tokens up to the parenthesis. -/
def opening : Enclosure → List TokenKind
  | value => [.keyword .SELECT, .symbol .leftParen]
  | existence => [.keyword .SELECT, .keyword .EXISTS, .symbol .leftParen]
  | membership => [.keyword .SELECT, .integer 1, .keyword .IN, .symbol .leftParen]
  | relation => [.keyword .SELECT, .integer 1, .keyword .FROM, .symbol .leftParen]

theorem ne_endOfInput_of_mem (enclosure : Enclosure) {k : TokenKind}
    (h : k ∈ enclosure.opening) : k ≠ .endOfInput := by
  rintro rfl
  cases enclosure <;> simp [opening] at h

/-- The query around the one in parentheses. -/
def enclose (query : Select) : Enclosure → Select
  | value => .ofColumn (.subquery query) none
  | existence => .ofColumn (.existsRow query) none
  | membership => .ofColumn (.inList (.literal (.integer 1)) [.subquery query] false) none
  | relation => .ofColumn (.literal (.integer 1)) (some ⟨.derived query none, []⟩)

end Enclosure

/-- A dialect reads a statement from tokens before an end of input. -/
def Accepts (d : Dialect) (ts : List Token) (a : Statement) : Prop :=
  ∀ stop : Token, stop.kind = .endOfInput →
    ((TokenStream.ofList (ts ++ [stop])).statement d).1 = .ok a

namespace Parser

section Evaluation

variable {d : Dialect} {s t u : TokenStream} {value : Expr}

/-- A list of one item. -/
theorem commaList_of_ne {α : Type} {p : Parser α} {a : α} (hp : GoesForward p)
    (ha : p s = .ok a t) (ht : t.current.kind ≠ .symbol .comma) : commaList p s = .ok [a] t := by
  have others := many_of_none (progresses_commaItem hp) (Begins.commaItem_of_ne ht)
  rw [commaList, bind_of_ok ha, bind_of_ok others]
  rfl

/-- A query of one column, given what its parts are. -/
theorem query_ofColumn {source : Option Source} (hselect : s.current.kind = .keyword .SELECT)
    (hdistinct : s.tail.current.kind ≠ .keyword .DISTINCT)
    (hall : s.tail.current.kind ≠ .keyword .ALL)
    (hvalue : expression d 0 s.tail = .ok value t)
    (hlabel : optionalAlias d t = .ok none t) (hcomma : t.current.kind ≠ .symbol .comma)
    (hsource : fromClause d (nested d) t = .ok (source, []) u) (hu : FollowsQuery u.current) :
    query d s = .ok (Select.ofColumn value source) u := by
  have distinct : distinctOrAll s.tail = .ok false s.tail :=
    (bind_of_ok (accept_of_kind_ne hdistinct) _).trans (bind_of_ok (accept_of_kind_ne hall) _)
  have column : selectItem d (nested d) s.tail = .ok ⟨value, none⟩ t :=
    (bind_of_ok hvalue _).trans (bind_of_ok hlabel _)
  have columns := commaList_of_ne
    (goesForward_congruence.selectItem (nested_passing d).forward d) column hcomma
  have missing (k : Keyword) : accept (.keyword k) u = .ok false u :=
    accept_of_kind_ne (hu.kind_ne_keyword k)
  have clause (k : Keyword) : clause (nested d) k u = .ok none u := bind_of_ok (missing k) _
  have groups : groupBy (nested d) u = .ok [] u := bind_of_ok (missing .GROUP) _
  rw [query_unfold, queryOf_eq, bind_of_ok (expect_of_kind hselect), queryBody,
    bind_of_ok distinct, bind_of_ok columns, bind_of_ok hsource]
  dsimp only
  rw [bind_of_ok (clause .WHERE), bind_of_ok groups, bind_of_ok (clause .HAVING),
    bind_of_ok (ordering_stop hu), bind_of_ok (clause .LIMIT)]
  rfl

theorem query_ofValue (hselect : s.current.kind = .keyword .SELECT)
    (hdistinct : s.tail.current.kind ≠ .keyword .DISTINCT)
    (hall : s.tail.current.kind ≠ .keyword .ALL) (hvalue : expression d 0 s.tail = .ok value t)
    (ht : FollowsQuery t.current) : query d s = .ok (Select.ofColumn value none) t :=
  query_ofColumn hselect hdistinct hall hvalue (optionalAlias_stop ht)
    ((ht.followsExpression 0).kind_ne_symbol nofun)
    (bind_of_ok (accept_of_kind_ne (ht.kind_ne_keyword .FROM)) _) ht

/-- An operand that no operator follows. -/
theorem expression_of_operand (hvalue : operand d (nested d) s = .ok value t)
    (ht : infixPower? t.current.kind = none) : expression d 0 s = .ok value t := by
  rw [expression_unfold, expressionOf, bind_of_ok hvalue]
  exact iterate_of_none (progresses_extend (nested_passing d) 0)
    (extend_stop fun _ _ h => by simp [ht] at h)

theorem operand_one {x : Token} (hx : x.kind = .integer 1) :
    operand d (nested d) (s.push [x]) = .ok (.literal (.integer 1)) s :=
  operand_of_literal? (by simp [hx, literal?])

theorem infixPower?_of_followsQuery (hs : FollowsQuery s.current) :
    infixPower? s.current.kind = none := by
  obtain h | h := hs <;> rw [h] <;> rfl

theorem current_of_query_eq_ok {q : Select} (h : query d s = .ok q t) :
    s.current.kind = .keyword .SELECT := by
  by_contra hs
  rw [query_unfold, queryOf_eq, bind_of_error (expect_of_kind_ne hs)] at h
  cases h

end Evaluation

section Parentheses

variable {d : Dialect} {ts : List Token} {q : Select} {l r : Token} {s : TokenStream}
variable (hl : l.kind = .symbol .leftParen) (hr : r.kind = .symbol .rightParen)
variable (hq : ∀ s : TokenStream, IsEnd s.current.kind → query d (s.push ts) = .ok q s)
include hl hr hq

omit hl in
theorem reads_query_before : Reads True (query d) ts q (s.push [r]) :=
  .of_ok (hq _ (.inl hr))

/-- A query where other things may stand too. -/
theorem reads_queryOr {α : Type} (f : Select → α) (p : Parser α) :
    Reads True
      (parenthesized do if (← kind) = .keyword .SELECT then return f (← query d) else p)
      (l :: (ts ++ [r])) (f q) s :=
  .parenthesized hl hr (.kind (.pos (current_of_query_eq_ok (hq _ (.inl hr)))
    (reads_query_before hr hq).last))

theorem reads_enclosed : Reads True (operand d (nested d)) (l :: (ts ++ [r])) (.subquery q) s := by
  refine .congr (q := group (nested d)) ?_ (reads_queryOr hl hr hq Expr.subquery _)
  rw [operand_primary (by simp [hl, unaryOp?]), primary, current_bind,
    TokenStream.current_push_cons, hl]
  rfl

theorem reads_exists {t : Token} (ht : t.kind = .keyword .EXISTS) :
    Reads True (operand d (nested d)) (t :: l :: (ts ++ [r])) (.existsRow q) s := by
  refine .congr (q := advance >>= fun _ => Expr.existsRow <$> parenthesized (query d)) ?_
    (.advance (Reads.parenthesized hl hr (reads_query_before hr hq)).last)
  rw [operand_primary (by simp [ht, unaryOp?]), primary, current_bind,
    TokenStream.current_push_cons, ht]
  rfl

theorem iterate_extend_in {t : Token} (ht : t.kind = .keyword .IN) (hs : FollowsQuery s.current)
    (left : Expr) :
    iterate (extend d (nested d) 0) left (s.push (t :: l :: (ts ++ [r]))) =
      .ok (.inList left [.subquery q] false) s := by
  have list : Reads True (inList (nested d) left false) (l :: (ts ++ [r]))
      (.inList left [.subquery q] false) s :=
    (reads_queryOr hl hr hq (fun query => [Expr.subquery query]) (expressionList (nested d))).last
  have step : Reads True (extend d (nested d) 0 left) (t :: l :: (ts ++ [r]))
      (some (.inList left [.subquery q] false)) s := by
    refine .congr (q := advance >>= fun _ => some <$> inList (nested d) left false) ?_
      (.advance list.last)
    rw [extend, kind_bind, TokenStream.current_push_cons, ht]
    rfl
  have progress := progresses_extend (d := d) (nested_passing d) 0
  rw [iterate_eq progress, bind_of_ok (step.ok trivial)]
  exact iterate_of_none progress
    (extend_stop fun _ _ => (hs.followsExpression 0).infixPower?_lt)

theorem reads_derived {t : Token} (ht : t.kind = .keyword .FROM) (hs : FollowsQuery s.current) :
    Reads True (fromClause d (nested d)) (t :: l :: (ts ++ [r]))
      (some ⟨.derived q none, []⟩, []) s := by
  have query := Reads.parenthesized hl hr (reads_query_before (s := s) hr hq)
  have relation : Reads True (relation d (nested d)) (l :: (ts ++ [r])) (.derived q none) s :=
    .kind (.pos hl (.of_append_nil (query.after (Reads.of_ok (optionalAlias_stop hs)).last)))
  have joins : Reads True (many (join d (nested d))) [] [] s :=
    .of_ok (many_of_none (progresses_join (nested_passing d)) (join_stop hs))
  have views : Reads True (many (lateralView d (nested d))) [] [] s :=
    .of_ok (many_of_none (progresses_lateralView (nested_passing d)) (lateralView_stop hs))
  have source : Reads True (source d (nested d)) (l :: (ts ++ [r])) ⟨.derived q none, []⟩ s :=
    .of_append_nil (relation.after joins.last)
  exact .accept ht (.pos rfl (.of_append_nil (source.after views.last)))

omit hl in
theorem query_enclose {us : List Token} (enclosure : Enclosure)
    (hus : us.map (·.kind) = enclosure.opening) (hs : FollowsQuery s.current) :
    query d (s.push (us ++ (ts ++ [r]))) = .ok (enclosure.enclose q) s := by
  cases enclosure with
  | value =>
    obtain ⟨select, us, rfl, hselect, hus⟩ := List.map_eq_cons_iff.mp hus
    obtain ⟨l, us, rfl, hl, hus⟩ := List.map_eq_cons_iff.mp hus
    obtain rfl := List.map_eq_nil_iff.mp hus
    exact query_ofValue hselect (by simp [hl]) (by simp [hl]) (expression_of_operand
      ((reads_enclosed hl hr hq).ok trivial) (infixPower?_of_followsQuery hs)) hs
  | existence =>
    obtain ⟨select, us, rfl, hselect, hus⟩ := List.map_eq_cons_iff.mp hus
    obtain ⟨t, us, rfl, ht, hus⟩ := List.map_eq_cons_iff.mp hus
    obtain ⟨l, us, rfl, hl, hus⟩ := List.map_eq_cons_iff.mp hus
    obtain rfl := List.map_eq_nil_iff.mp hus
    exact query_ofValue hselect (by simp [ht]) (by simp [ht]) (expression_of_operand
      ((reads_exists hl hr hq ht).ok trivial) (infixPower?_of_followsQuery hs)) hs
  | membership =>
    obtain ⟨select, us, rfl, hselect, hus⟩ := List.map_eq_cons_iff.mp hus
    obtain ⟨x, us, rfl, hx, hus⟩ := List.map_eq_cons_iff.mp hus
    obtain ⟨t, us, rfl, ht, hus⟩ := List.map_eq_cons_iff.mp hus
    obtain ⟨l, us, rfl, hl, hus⟩ := List.map_eq_cons_iff.mp hus
    obtain rfl := List.map_eq_nil_iff.mp hus
    refine query_ofValue hselect (by simp [hx]) (by simp [hx]) ?_ hs
    rw [expression_unfold]
    exact (bind_of_ok (operand_one (s := s.push (t :: l :: (ts ++ [r]))) hx) _).trans
      (iterate_extend_in hl hr hq ht hs _)
  | relation =>
    obtain ⟨select, us, rfl, hselect, hus⟩ := List.map_eq_cons_iff.mp hus
    obtain ⟨x, us, rfl, hx, hus⟩ := List.map_eq_cons_iff.mp hus
    obtain ⟨t, us, rfl, ht, hus⟩ := List.map_eq_cons_iff.mp hus
    obtain ⟨l, us, rfl, hl, hus⟩ := List.map_eq_cons_iff.mp hus
    obtain rfl := List.map_eq_nil_iff.mp hus
    have value := operand_one (d := d) (s := s.push (t :: l :: (ts ++ [r]))) hx
    have label : optionalAlias d (s.push (t :: l :: (ts ++ [r]))) =
        .ok none (s.push (t :: l :: (ts ++ [r]))) :=
      optionalAlias_of_not (by simp [ht]) (by simp [Token.isImplicitAlias, ht, Keyword.isReserved])
    exact query_ofColumn hselect (by simp [hx]) (by simp [hx])
      (expression_of_operand value (by rw [TokenStream.current_push_cons, ht]; rfl)) label
      (by simp [ht]) ((reads_derived hl hr hq ht hs).ok trivial) hs

end Parentheses

/-- A query that ends its stream is read before every other end, too. -/
theorem query_push_of_isEnd {d : Dialect} {ts : List Token} {q : Select} {s : TokenStream}
    (h : query d (s.push ts) = .ok q s) (hs : IsEnd s.current.kind) {w : TokenStream}
    (hw : IsEnd w.current.kind) : query d (w.push ts) = .ok q w :=
  (continues_query d).viable.stable trivial h (.inr ⟨trivial, hs, hw⟩)

/-- A statement that does not end with a semicolon is the query that its tokens are. -/
theorem query_of_statement_eq_ok {d : Dialect} {ts : List Token} {q : Select} {s s' : TokenStream}
    (hunended : Unended ts) (hlast : ∀ t ∈ ts.getLast?, t.kind ≠ .symbol .semicolon)
    (hs : s.rest = []) (h : statement d (s.push ts) = .ok (.select q) s') :
    query d (s.push ts) = .ok q s := by
  obtain ⟨q', u, hq, -⟩ := bind_eq_ok.mp h
  have hleft := isLeftOf_of_ok (goesForward_congruence.query d) hq
  obtain ⟨us, vs, rfl, rfl⟩ := hleft.exists_append ⟨hs ▸ List.nil_suffix, hleft.stop.symm⟩
  have hvs : Unended vs := fun t ht => hunended t (List.mem_append_right _ ht)
  have hend : (afterSemicolon (s.push vs)).current.kind = .endOfInput := by
    by_contra hend
    rw [statement_of_query hq, if_neg hend] at h
    cases h
  cases vs with
  | nil =>
    rw [statement_of_query hq, if_pos hend] at h
    cases h
    exact hq
  | cons c vs =>
    -- what the query has left would be a semicolon, and this the last token
    unfold afterSemicolon at hend
    split at hend
    · rename_i hc
      cases vs with
      | nil => exact absurd hc (hlast c (by simp))
      | cons c' vs => exact absurd hend (hvs c' (by simp))
    · exact absurd hend (hvs c (by simp))

end Parser

theorem accepts_of_statement {d : Dialect} {ts : List Token} {a : Statement} (hts : Unended ts)
    (h : ∀ s : TokenStream, s.current.kind = .endOfInput →
      Parser.statement d (s.push ts) = .ok a s) : Accepts d ts a := by
  intro stop hstop
  rw [TokenStream.ofList_append_singleton hts hstop, TokenStream.statement,
    h ⟨[], stop.span, stop.lexeme⟩ rfl]

/-- What a dialect reads as a statement, it also reads before a semicolon and as a query in
parentheses. -/
theorem accepts_enclosed {d : Dialect} {ts : List Token} {stop : Token} {q : Select}
    (hunended : Unended ts) (hlast : ∀ t ∈ ts.getLast?, t.kind ≠ .symbol .semicolon)
    (hstop : stop.kind = .endOfInput)
    (h : ((TokenStream.ofList (ts ++ [stop])).statement d).1 = .ok (.select q)) :
    (∀ t : Token, t.kind = .symbol .semicolon → Accepts d (ts ++ [t]) (.select q)) ∧
      ∀ (enclosure : Enclosure) (us : List Token) (t : Token), us.map (·.kind) = enclosure.opening →
        t.kind = .symbol .rightParen →
          Accepts d (us ++ (ts ++ [t])) (.select (enclosure.enclose q)) := by
  have hquery {w : TokenStream} (hw : IsEnd w.current.kind) : query d (w.push ts) = .ok q w := by
    rw [TokenStream.ofList_append_singleton hunended hstop, TokenStream.statement] at h
    cases hs : statement d (.push ts ⟨[], stop.span, stop.lexeme⟩) with
    | error e s => simp [hs] at h
    | ok a s =>
      obtain rfl : a = .select q := by simpa [hs] using h
      exact query_push_of_isEnd (query_of_statement_eq_ok hunended hlast rfl hs) (.inr (.inr rfl)) hw
  constructor
  · intro t ht
    refine accepts_of_statement (hunended.append (.cons (by simp [ht]) unended_nil)) fun s hs => ?_
    rw [TokenStream.push_append]
    have hread := hquery (w := s.push [t]) (.inr (.inl ht))
    exact statement_of_semicolon hread ht hs
  · intro enclosure us t hus ht
    have hopening : Unended us := fun u hu =>
      enclosure.ne_endOfInput_of_mem (hus ▸ List.mem_map_of_mem hu)
    have hclosing : Unended [t] := .cons (by simp [ht]) unended_nil
    refine accepts_of_statement (hopening.append (hunended.append hclosing)) fun s hs => ?_
    exact statement_of_end (query_enclose ht (fun _ => hquery) enclosure hus (.inr hs)) hs

/-- The tokens of `SELECT 1 FROM t u`. -/
def aliasedTable : List Token :=
  [⟨.keyword .SELECT, ⟨0, 6⟩, "SELECT"⟩, ⟨.integer 1, ⟨7, 8⟩, "1"⟩,
    ⟨.keyword .FROM, ⟨9, 13⟩, "FROM"⟩, ⟨.identifier "t", ⟨14, 15⟩, "t"⟩,
    ⟨.identifier "u", ⟨16, 17⟩, "u"⟩]

theorem accepts_aliasedTable :
    (∀ t : Token, t.kind = .symbol .semicolon → Accepts .spark (aliasedTable ++ [t])
        (.select (.ofColumn (.literal (.integer 1)) (some ⟨.table none "t" (some "u"), []⟩)))) ∧
      ∀ (enclosure : Enclosure) (us : List Token) (t : Token),
        us.map (·.kind) = enclosure.opening → t.kind = .symbol .rightParen →
          Accepts .spark (us ++ (aliasedTable ++ [t])) (.select (enclosure.enclose
            (.ofColumn (.literal (.integer 1)) (some ⟨.table none "t" (some "u"), []⟩)))) :=
  accepts_enclosed (by decide) (by decide) (rfl : (Token.mk .endOfInput (.at 17) "").kind = _)
    (by rfl)

end SqlDialects
