import SqlDialects.Proofs.RoundTrip.Calls

/-!
# Written operands are read back

Every expression that is no operator between others, where the nested parsers read back what is
nested in it.
-/

namespace SqlDialects.Parser

open Piece (tokens)

variable {d : Dialect} {quote : Char} {g : Nested} {n : Nat} {s : TokenStream}

/-! ## Columns and wildcards -/

/-- The parts of a path behind its first one, each with a dot before it. -/
def pathTokens (quote : Char) (parts : List String) : List Token :=
  parts.flatMap fun part => [.mark (.sign .dot), .name quote part]

theorem loops_pathPart (hq : d.Unquotes quote) {parts q q' : List String} {last name : String}
    {us : List Token} {b : Expr} (h : q ++ last :: parts = q' ++ [name])
    (hs : Loops True (pathPart d) (.column q' name) us b s) :
    Loops True (pathPart d) (.column q last) (pathTokens quote parts ++ us) b s := by
  induction parts generalizing q last with
  | nil =>
    obtain ⟨rfl, ⟨⟩⟩ := List.append_inj' h rfl
    exact hs
  | cons part rest ih =>
    have hstep : Reads True (pathPart d (.column q last)) [.mark (.sign .dot), .name quote part]
        (some (.column (q ++ [last]) part)) (s.push (pathTokens quote rest ++ us)) :=
      .accept rfl (.pos rfl (.decline (Token.kind_name_ne_symbol _) (.neg Bool.false_ne_true
        (.name (Token.name?_name hq) (.pure _)))))
    have hrest := ih (show (q ++ [last]) ++ part :: rest = q' ++ [name] by simpa using h)
    have := Loops.cons (by simp) hstep hrest
    simpa [pathTokens] using this

/-- The tokens of a path, its first part apart. -/
theorem tokens_qualifier (quote : Char) (first : String) (parts : List String) (ps : List Piece) :
    tokens (Piece.qualifier quote (first :: parts) ++ ps) =
      .name quote first :: (pathTokens quote parts ++ .mark (.sign .dot) :: tokens ps) := by
  induction parts generalizing first with
  | nil => simp [Piece.qualifier, pathTokens]
  | cons part rest ih =>
    have htail := ih part
    simp only [Piece.qualifier, pathTokens, List.flatMap_cons] at htail ⊢
    rw [List.append_assoc, Piece.tokens_append, htail]
    simp

theorem primary_of_identifier? {name : String} (h : s.current.identifier? d = some name) :
    primary d g s = namedOperand d g s := by
  obtain ⟨hliteral, -, hsymbol, -, hkeyword⟩ := Token.kind_of_identifier? h
  rw [primary, current_bind, hliteral]
  cases hk : s.current.kind with
  | symbol x => exact absurd hk (hsymbol x)
  | keyword k => cases k <;> first | rfl | exact absurd hk (hkeyword _ rfl)
  | _ => rfl

/-- An operand that begins with a name. -/
theorem reads_named {P : Prop} {t : Token} {name : String} {ts : List Token} {e : Expr}
    (ht : t.identifier? d = some name) (h : Reads P (named d g name) ts e s) :
    Reads P (operand d g) (t :: ts) e s := by
  have ht' : (s.push (t :: ts)).current.identifier? d = some name := ht
  refine .of_eq ?_ h
  rw [operand_primary (Token.kind_of_identifier? ht').2.1, primary_of_identifier? ht', namedOperand,
    current_bind, ht']
  rfl

/-- Behind a column nothing is taken for a part of its path. -/
theorem loops_pathPart_stop (q : List String) (name : String) (hs : EndsOperand s.current.kind) :
    Loops True (pathPart d) (.column q name) [] (.column q name) s := by
  have hdot : s.current.kind ≠ .symbol .dot := fun hk => by simp [EndsOperand, hk] at hs
  refine .stop ?_
  rw [pathPart, bind_apply, accept_apply, if_neg hdot]
  rfl

/-- A name is an operand of one token, where no path and no call goes on. -/
theorem reads_unqualified {t : Token} {name : String} (ht : t.identifier? d = some name)
    (hs : EndsOperand s.current.kind) : Reads True (operand d g) [t] (.column [] name) s := by
  refine reads_named ht (.kind (.neg ?_ (loops_pathPart_stop [] name hs).iterate))
  exact fun hk => by simp_all [EndsOperand]

theorem reads_column (hq : d.Unquotes quote) (q : List String) (name : String)
    (hs : EndsOperand s.current.kind) :
    Reads True (operand d g) (tokens (Expr.pieces quote (.column q name))) (.column q name) s := by
  rw [Expr.pieces]
  cases q with
  | nil =>
    show Reads True _ (tokens [.name name quote]) _ _
    rw [Piece.tokens_name_cons]
    exact reads_unqualified (Token.identifier?_name hq) hs
  | cons first parts =>
    have hparts := loops_pathPart hq
      (show [] ++ first :: (parts ++ [name]) = (first :: parts) ++ [name] from rfl)
      (loops_pathPart_stop _ name hs)
    rw [tokens_qualifier, Piece.tokens_name_cons, Piece.tokens_nil]
    refine reads_named (Token.identifier?_name hq) (.kind (.neg ?_ ?_))
    · cases parts <;> simp [pathTokens]
    · simpa [pathTokens] using hparts.iterate

theorem reads_star {t : Token} (ht : t.kind = .symbol .star) :
    Reads True (operand d g) [t] (.wildcard []) s := by
  refine .of_eq (q := pure (.wildcard [])) ?_ (.pure _)
  rw [operand_primary (by simp [ht, unaryOp?]), primary, current_bind,
    TokenStream.current_push_cons, ht]
  rfl

theorem reads_wildcard (hq : d.Unquotes quote) (q : List String) :
    Reads True (operand d g) (tokens (Expr.pieces quote (.wildcard q))) (.wildcard q) s := by
  rw [Expr.pieces]
  cases q with
  | nil => exact reads_star rfl
  | cons first parts =>
    have hstop : Loops True (pathPart d) (.wildcard (first :: parts)) []
        (.wildcard (first :: parts)) s := .stop rfl
    obtain ⟨init, last, hlast⟩ : ∃ init last, [] ++ first :: parts = init ++ [last] :=
      ⟨_, _, (List.dropLast_concat_getLast (List.cons_ne_nil first parts)).symm⟩
    have hstep : Reads True (pathPart d (.column init last))
        [.mark (.sign .dot), .mark (.sign .star)] (some (.wildcard (first :: parts))) s := by
      have h : Expr.wildcard (init ++ [last]) = .wildcard (first :: parts) := by rw [← hlast]; rfl
      rw [← h]
      exact .accept rfl (.pos rfl (.accept rfl (.pos rfl (.pure _))))
    have hstar : Loops True (pathPart d) (.column init last)
        [.mark (.sign .dot), .mark (.sign .star)] (.wildcard (first :: parts)) s := by
      simpa using Loops.cons (by simp) hstep hstop
    have hparts := loops_pathPart hq hlast hstar
    rw [tokens_qualifier, Piece.tokens_sign_cons, Piece.tokens_nil]
    refine reads_named (Token.identifier?_name hq) (.kind (.neg ?_ ?_))
    · cases parts <;> simp [pathTokens]
    · exact hparts.iterate

/-! ## Literals and calls -/

theorem reads_literal {value : Literal} (h : value.ReadsBack d) :
    Reads True (operand d g) (tokens (Expr.pieces quote (.literal value))) (.literal value) s := by
  obtain ⟨-, k, hk, hvalue⟩ := h
  rw [Expr.pieces, Piece.tokens_cons_of_kind? [] hk]
  exact .of_ok (operand_of_literal? hvalue)

variable (hg : g.ReadsBack d quote n)
include hg

theorem reads_callOperand (hq : d.Unquotes quote) {c : Call} (hn : ∀ x ∈ c.nodes, x.Readable d)
    (hlen : (tokens (c.pieces quote)).length ≤ n) (hs : EndsOperand s.current.kind) :
    Reads (∀ x ∈ c.nodes, x.ViewReadable) (operand d g) (tokens (c.pieces quote))
      (.call c.canonical) s := by
  obtain ⟨ts, hts, hcall⟩ := reads_call hg hn hlen hs
  rw [hts]
  by_cases hside : IsSideFunction c.name
  · obtain ⟨hkind, hlexeme⟩ := Token.function_of_side quote hside
    refine .of_eq ?_ (hcall.last (f := Expr.call))
    rw [← hlexeme]
    obtain hkind | hkind := hkind
    all_goals
      rw [operand_primary (by simp [hkind, unaryOp?]), primary, current_bind,
        TokenStream.current_push_cons, hkind]
      rfl
  · exact reads_named (Token.identifier?_function hq hside) (.kind (.pos rfl hcall.last))

/-! ## Parentheses -/

theorem reads_paren {inner : Expr} (hn : ∀ x ∈ inner.nodes, x.Readable d)
    (hlen : (tokens (Piece.parenthesized (inner.pieces quote))).length ≤ n) :
    Reads (∀ x ∈ inner.nodes, x.ViewReadable) (operand d g)
      (tokens (Piece.parenthesized (inner.pieces quote))) (.paren inner.canonical) s := by
  rw [Piece.tokens_parenthesized] at hlen ⊢
  simp only [List.length_cons, List.length_append] at hlen
  have hselect : ((s.push [.mark (.sign .rightParen)]).push
      (tokens (inner.pieces quote))).current.kind ≠ .keyword .SELECT := by
    obtain ⟨t, ts, hts, ht⟩ := starts_pieces quote inner
    rw [hts]
    exact fun hk => by simp_all [StartsExpression]
  refine .congr (q := group g) rfl (.parenthesized rfl rfl (.kind (.neg hselect ?_)))
  refine (reads_expression hg hn (by omega) ?_).last
  exact show EndsExpression (.symbol .rightParen) by decide

omit hg in
/-- A query begins with `SELECT`. -/
theorem tokens_select (quote : Char) (query : Select) :
    ∃ ts, tokens (query.pieces quote) = .mark (.word .SELECT) :: ts := by
  obtain ⟨distinct, columns, source, views, filter, groups, having, ordering, limit⟩ := query
  simp only [Select.pieces, List.append_assoc, List.cons_append, Piece.tokens_keyword_cons]
  exact ⟨_, rfl⟩

theorem reads_subquery {query : Select} (hn : ∀ x ∈ query.nodes, x.Readable d)
    (hlen : (tokens (Piece.parenthesized (query.pieces quote))).length ≤ n) :
    Reads (∀ x ∈ query.nodes, x.ViewReadable) (operand d g)
      (tokens (Piece.parenthesized (query.pieces quote))) (.subquery query.canonical) s := by
  rw [Piece.tokens_parenthesized] at hlen ⊢
  simp only [List.length_cons, List.length_append] at hlen
  have hselect : ((s.push [.mark (.sign .rightParen)]).push
      (tokens (query.pieces quote))).current.kind = .keyword .SELECT := by
    obtain ⟨ts, hts⟩ := tokens_select quote query
    rw [hts]
    rfl
  refine .congr (q := group g) rfl (.parenthesized rfl rfl (.kind (.pos hselect ?_)))
  exact (hg.query hn (by omega) (.inl rfl)).last

theorem reads_existsRow {query : Select} (hn : ∀ x ∈ query.nodes, x.Readable d)
    (hlen : (tokens (Expr.pieces quote (.existsRow query))).length ≤ n) :
    Reads (∀ x ∈ query.nodes, x.ViewReadable) (operand d g)
      (tokens (Expr.pieces quote (.existsRow query))) (.existsRow query.canonical) s := by
  rw [Expr.pieces, Piece.tokens_keyword_cons, Piece.tokens_space_cons, Piece.tokens_parenthesized]
    at hlen ⊢
  simp only [List.length_cons, List.length_append] at hlen
  have hquery := hg.query (s := s.push [.mark (.sign .rightParen)]) hn (by omega) (.inl rfl)
  exact .congr (q := advance >>= fun _ => Expr.existsRow <$> parenthesized g.query) rfl
    (.advance (Reads.parenthesized rfl rfl hquery).last)

theorem reads_cast (hq : d.Unquotes quote) {e : Expr} {t : DataType}
    (hn : ∀ x ∈ e.nodes, x.Readable d) (ht : ∀ x ∈ t.nodes, x.Readable d)
    (hlen : (tokens (Expr.pieces quote (.cast e t))).length ≤ n) :
    Reads (∀ x ∈ e.nodes, x.ViewReadable) (operand d g)
      (tokens (Expr.pieces quote (.cast e t))) (.cast e.canonical t) s := by
  rw [Expr.pieces, Piece.tokens_keyword_cons, Piece.tokens_parenthesized, List.append_assoc,
    Piece.tokens_append] at hlen ⊢
  simp only [List.cons_append, List.nil_append, Piece.tokens_space_cons, Piece.tokens_keyword_cons,
    List.length_cons, List.length_append] at hlen ⊢
  have htype : Reads True (dataType d) (tokens (t.pieces quote)) t
      (s.push [.mark (.sign .rightParen)]) := by
    have hends : (s.push [.mark (.sign .rightParen)]).current.EndsType := endsType_mark (by simp) []
    have hread := reads_dataType hq (fun x hx => (ht x hx).complete) hends
    rwa [t.upperNames_of_tidy fun x hx => (ht x hx).tidy] at hread
  refine .congr (q := Parser.cast d g) rfl (.expect rfl (.parenthesized rfl rfl ?_))
  refine Reads.iff ?_ (and_iff_left trivial).symm
  refine (reads_expression hg hn (by omega) ?_).bind (.expect rfl htype.last)
  exact show EndsExpression (.keyword .AS) by decide

/-! ## Case distinctions -/

theorem reads_whenClause {c : WhenClause} (hc : ∀ x ∈ c.condition.nodes, x.Readable d)
    (hr : ∀ x ∈ c.result.nodes, x.Readable d) (hlen : (tokens (c.pieces quote)).length ≤ n)
    (hs : EndsExpression s.current.kind) :
    Reads ((∀ x ∈ c.condition.nodes, x.ViewReadable) ∧ ∀ x ∈ c.result.nodes, x.ViewReadable)
      (whenClause g) (tokens (c.pieces quote)) (some c.canonical) s := by
  simp only [WhenClause.pieces, List.append_assoc, List.cons_append, List.nil_append,
    Piece.tokens_space_cons, Piece.tokens_keyword_cons, Piece.tokens_append, List.length_cons,
    List.length_append] at hlen ⊢
  refine .accept rfl (.pos rfl ?_)
  refine (reads_expression hg hc (by omega) ?_).bind
    (.expect rfl (reads_expression hg hr (by omega) hs).last)
  exact show EndsExpression (.keyword .THEN) by decide

/-- What follows the tested operand: the clauses, the alternative, and `END`. -/
theorem reads_clauses (tested : Option Expr) {clauses : List WhenClause} {otherwise : Option Expr}
    (hc : ∀ c ∈ clauses,
      (∀ x ∈ c.condition.nodes, x.Readable d) ∧ ∀ x ∈ c.result.nodes, x.Readable d)
    (hne : clauses ≠ []) (ho : ∀ e ∈ otherwise, ∀ x ∈ e.nodes, x.Readable d)
    (hclauses : (tokens (clausesPieces quote clauses)).length ≤ n)
    (hotherwise : (tokens (optionalPieces quote [.space, Piece.keyword .ELSE, .space]
      otherwise)).length ≤ n) :
    Reads ((∀ x ∈ clausesNodes clauses, x.ViewReadable) ∧
        ∀ x ∈ optionalNodes otherwise, x.ViewReadable)
      (do
        let clauses ← many (whenClause g)
        if clauses.isEmpty then unexpected (.token (.keyword .WHEN))
        let otherwise ← if ← accept (.keyword .ELSE) then some <$> g.expression 0 else pure none
        expect (.keyword .END)
        return Expr.caseOf tested clauses otherwise)
      (tokens (clausesPieces quote clauses) ++
        (tokens (optionalPieces quote [.space, Piece.keyword .ELSE, .space] otherwise) ++
          [.mark (.word .END)]))
      (Expr.caseOf tested (clausesCanonical clauses) (optionalCanonical otherwise)) s := by
  have hnext : (s.push (tokens (optionalPieces quote [.space, Piece.keyword .ELSE, .space]
      otherwise) ++ [.mark (.word .END)])).current.kind ∈
        [TokenKind.keyword .ELSE, .keyword .END] := by
    cases otherwise <;> simp [optionalPieces]
  rw [clausesPieces_eq_flatMap, Piece.tokens_flatMap] at hclauses ⊢
  rw [clausesCanonical_eq_map, forall_clausesNodes]
  have hempty : (clauses.map (·.canonical)).isEmpty = false := by simpa using hne
  refine .bind (a := clauses.map (·.canonical)) (.many (F := fun u => EndsExpression u.current.kind)
    (fun c hmem u hu => ?_) (fun c _ => ?_) (fun c _ u => ?_) ?_ ?_) ?_
  · exact reads_whenClause hg (hc c hmem).1 (hc c hmem).2
      ((Reads.length_le_flatMap hmem).trans hclauses) hu
  · simp [WhenClause.pieces]
  · simp only [WhenClause.pieces, List.cons_append, Piece.tokens_space_cons,
      Piece.tokens_keyword_cons]
    exact show EndsExpression (.keyword .WHEN) by decide
  · have : ∀ k ∈ [TokenKind.keyword .ELSE, .keyword .END], EndsExpression k := by decide
    exact this _ hnext
  · have : ∀ k ∈ [TokenKind.keyword .ELSE, .keyword .END], k ≠ .keyword .WHEN := by decide
    rw [whenClause, bind_apply, accept_apply, if_neg (this _ hnext)]
    rfl
  · rw [hempty]
    refine .neg Bool.false_ne_true ?_
    cases otherwise with
    | none =>
      refine .decline (by simp [optionalPieces]) (.neg Bool.false_ne_true ?_)
      refine Reads.iff (P := True) ?_ (by simp [optionalNodes])
      refine .after (Reads.pure none) ?_
      exact .expect rfl (.pure _)
    | some e =>
      simp only [optionalPieces, List.cons_append, List.nil_append, Piece.tokens_space_cons,
        Piece.tokens_keyword_cons, List.length_cons] at hotherwise ⊢
      refine .accept rfl (.pos rfl ?_)
      refine Reads.iff ?_ (and_iff_left trivial).symm
      refine (reads_expression hg (ho e rfl) (by omega) ?_).last.bind (.expect rfl (.pure _))
      exact show EndsExpression (.keyword .END) by decide

theorem reads_caseOf {tested : Option Expr} {clauses : List WhenClause} {otherwise : Option Expr}
    (ht : ∀ e ∈ tested, ∀ x ∈ e.nodes, x.Readable d)
    (hc : ∀ c ∈ clauses,
      (∀ x ∈ c.condition.nodes, x.Readable d) ∧ ∀ x ∈ c.result.nodes, x.Readable d)
    (hne : clauses ≠ []) (ho : ∀ e ∈ otherwise, ∀ x ∈ e.nodes, x.Readable d)
    (hlen : (tokens (Expr.pieces quote (.caseOf tested clauses otherwise))).length ≤ n) :
    Reads ((∀ x ∈ optionalNodes tested, x.ViewReadable) ∧
        (∀ x ∈ clausesNodes clauses, x.ViewReadable) ∧ ∀ x ∈ optionalNodes otherwise, x.ViewReadable)
      (operand d g) (tokens (Expr.pieces quote (.caseOf tested clauses otherwise)))
      (Expr.canonical (.caseOf tested clauses otherwise)) s := by
  have hpieces : tokens (Expr.pieces quote (.caseOf tested clauses otherwise)) =
      .mark (.word .CASE) :: (tokens (optionalPieces quote [.space] tested) ++
        (tokens (clausesPieces quote clauses) ++
          (tokens (optionalPieces quote [.space, Piece.keyword .ELSE, .space] otherwise) ++
            [.mark (.word .END)]))) := by
    simp [Expr.pieces]
  rw [hpieces] at hlen ⊢
  simp only [List.length_cons, List.length_append] at hlen
  have hclauses := reads_clauses (s := s) hg (optionalCanonical tested) hc hne ho (by omega)
    (by omega)
  refine .congr (q := Parser.caseOf g) rfl (.expect rfl (.kind ?_))
  rw [Expr.canonical]
  cases tested with
  | none =>
    refine .pos ?_ ?_
    · obtain ⟨c, rest, rfl⟩ := List.exists_cons_of_ne_nil hne
      simp [optionalPieces, WhenClause.pieces]
    · refine Reads.iff (P := _) ?_ (and_iff_right (by simp [optionalNodes]))
      exact .after (Reads.pure none) hclauses
  | some e =>
    refine .neg ?_ ?_
    · obtain ⟨t, ts, hts, hstart⟩ := starts_pieces quote e
      simp only [optionalPieces, List.cons_append, List.nil_append, Piece.tokens_space_cons, hts]
      exact fun hk => by simp_all [StartsExpression]
    · have hfollow (u : TokenStream) : EndsExpression
          (u.push (tokens (clausesPieces quote clauses))).current.kind := by
        obtain ⟨c, rest, rfl⟩ := List.exists_cons_of_ne_nil hne
        simp only [clausesPieces_eq_flatMap, List.flatMap_cons, WhenClause.pieces, List.cons_append,
          Piece.tokens_space_cons, Piece.tokens_keyword_cons]
        exact show EndsExpression (.keyword .WHEN) by decide
      simp only [optionalPieces, List.cons_append, List.nil_append, Piece.tokens_space_cons]
        at hlen ⊢
      refine Reads.bind ((reads_expression hg (ht e rfl) (by omega) ?_).last (f := some)) hclauses
      rw [TokenStream.push_append]
      exact hfollow _

/-! ## Prefix operators -/

theorem reads_unary {op : UnaryOp} {e : Expr} (hn : ∀ x ∈ e.nodes, x.Readable d)
    (hb : op.power ≤ e.leftBound) (hlen : (tokens (Expr.pieces quote (.unary op e))).length ≤ n)
    (hs : EndsOperand s.current.kind)
    (hr : ∀ l r, infixPower? s.current.kind = some (l, r) → l < (Expr.unary op e).rightBound) :
    Reads (∀ x ∈ e.nodes, x.ViewReadable) (operand d g)
      (tokens (Expr.pieces quote (.unary op e))) (.unary op e.canonical) s := by
  have hparen := Expr.looserThanUnary_of_bound hb
  obtain ⟨t, ht, hpieces⟩ : ∃ t : Token, unaryOp? t.kind = some (op, op.power) ∧
      tokens (Expr.pieces quote (.unary op e)) = t :: tokens (e.pieces quote) := by
    cases op with
    | neg => exact ⟨.mark (.sign .minus), rfl, by simp [Expr.pieces, hparen, Piece.parenthesizedIf]⟩
    | not => exact ⟨.mark (.word .NOT), rfl, by simp [Expr.pieces, hparen, Piece.parenthesizedIf]⟩
  rw [hpieces, List.length_cons] at hlen
  rw [hpieces]
  have hpower : Reads (∀ x ∈ e.nodes, x.ViewReadable) (g.expression op.power)
      (tokens (e.pieces quote)) e.canonical s :=
    hg.expression hn hb (by omega) ⟨hs, fun l r h => lt_min_iff.mp (hr l r h)⟩
  exact .of_eq (operand_unary (by exact ht)) hpower.last

/-- An expression that is no operator between others. -/
def IsOperand : Expr → Prop
  | .binary .. => False
  | .isNull .. => False
  | .inList .. => False
  | .between .. => False
  | _ => True

theorem reads_operand (hq : d.Unquotes quote) {e : Expr} (he : IsOperand e)
    (hn : ∀ x ∈ e.nodes, x.Readable d) (hlen : (tokens (e.pieces quote)).length ≤ n)
    (hs : EndsOperand s.current.kind)
    (hr : ∀ l r, infixPower? s.current.kind = some (l, r) → l < e.rightBound) :
    Reads (∀ x ∈ e.nodes, x.ViewReadable) (operand d g) (tokens (e.pieces quote)) e.canonical
      s := by
  cases e with
  | literal value =>
    have hvalue := (hn (.expr (.literal value)) (by simp [Expr.nodes])).literal
    exact (reads_literal hvalue).iff (by simp [Expr.nodes])
  | column q name => exact (reads_column hq q name hs).iff (by simp [Expr.nodes])
  | wildcard q => exact (reads_wildcard hq q).iff (by simp [Expr.nodes])
  | unary op operand =>
    rw [Expr.nodes, List.forall_mem_cons] at hn
    exact (reads_unary hg hn.2 hn.1.bound hlen hs hr).iff (by simp [Expr.nodes])
  | paren inner =>
    rw [Expr.nodes, List.forall_mem_cons] at hn
    exact (reads_paren hg hn.2 hlen).iff (by simp [Expr.nodes])
  | caseOf tested clauses otherwise =>
    rw [Expr.nodes, List.forall_mem_cons, List.forall_mem_append, List.forall_mem_append,
      forall_optionalNodes, forall_clausesNodes, forall_optionalNodes] at hn
    obtain ⟨hcase, ht, hc, ho⟩ := hn
    refine (reads_caseOf hg ht hc hcase.complete ho hlen).iff ?_
    rw [Expr.nodes, List.forall_mem_cons, List.forall_mem_append, List.forall_mem_append]
    exact and_iff_right trivial
  | cast operand t =>
    rw [Expr.nodes, List.forall_mem_cons, List.forall_mem_append] at hn
    refine (reads_cast hg hq hn.2.1 hn.2.2 hlen).iff ?_
    rw [Expr.nodes, List.forall_mem_cons, List.forall_mem_append]
    exact (and_iff_right trivial).trans (and_iff_left t.viewReadable)
  | call function =>
    rw [Expr.nodes, List.forall_mem_cons] at hn
    exact (reads_callOperand hg hq hn.2 hlen hs).iff (by simp [Expr.nodes])
  | subquery query =>
    rw [Expr.nodes, List.forall_mem_cons] at hn
    exact (reads_subquery hg hn.2 hlen).iff (by simp [Expr.nodes])
  | existsRow query =>
    rw [Expr.nodes, List.forall_mem_cons] at hn
    exact (reads_existsRow hg hn.2 hlen).iff (by simp [Expr.nodes])
  | _ => exact he.elim

end SqlDialects.Parser
