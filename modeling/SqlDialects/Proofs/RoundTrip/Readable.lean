import SqlDialects.Proofs.Lexer.Lexed
import SqlDialects.Proofs.Render.Parenthesized
import SqlDialects.Proofs.RoundTrip.DataTypes

/-!
# What is read back

The trees whose tokens are read as the trees again, the tokens that may stand at either end of an
expression, and the one construct whose tokens may be misread: the generator of a lateral view,
which is written like every function but read like a table.
-/

namespace SqlDialects

/-! ## Nodes -/

/-- A literal is written as a token that is the literal. -/
@[simp] def Node.LiteralReadsBack (d : Dialect) : Node → Prop
  | .expr (.literal value) => value.ReadsBack d
  | _ => True

structure Node.Readable (d : Dialect) (n : Node) : Prop where
  complete : n.Complete
  tidy : n.Tidy
  bound : n.Bound
  supported : n.SupportedBy d
  literal : n.LiteralReadsBack d

/-- Every node of a tree that was read is readable in the dialect. -/
theorem Node.Sound.readable {d : Dialect} {n : Node} (h : n.Sound Token.IsLexed d) :
    n.Readable d := by
  refine ⟨h.complete, h.tidy, h.bound, h.supported, ?_⟩
  unfold Node.LiteralReadsBack
  split
  · obtain ⟨t, ht, hvalue⟩ := h.literal
    exact Literal.readsBack_of_isLexed ht hvalue
  · trivial

/-- The name of the generator is taken neither for a reserved word nor for the `OUTER` that may
stand before it. -/
def LateralView.IsReadable (v : LateralView) : Prop :=
  ¬IsSideFunction v.generator.name ∧
    (Keyword.ofText? v.generator.name = some .OUTER → v.outer = true)

@[simp] def Node.ViewReadable : Node → Prop
  | .view v => v.IsReadable
  | _ => True

theorem DataType.viewReadable (t : DataType) : ∀ n ∈ t.nodes, n.ViewReadable :=
  t.forall_nodes (fun _ => trivial) fun _ => trivial

namespace Parser

open Piece (tokens)

/-! ## The ends of an expression -/

/-- A token that an expression may begin with. -/
def StartsExpression (k : TokenKind) : Prop :=
  k ∉ [.symbol .rightParen, .keyword .SELECT, .keyword .DISTINCT, .keyword .ALL, .keyword .WHEN]

instance : DecidablePred StartsExpression := fun k => inferInstanceAs (Decidable (k ∉ _))

/-- A token that does not continue an operand. -/
def EndsOperand (k : TokenKind) : Prop :=
  k ∉ [.symbol .dot, .symbol .leftParen, .keyword .IGNORE, .keyword .OVER]

instance : DecidablePred EndsOperand := fun k => inferInstanceAs (Decidable (k ∉ _))

/-- A token that does not continue an expression. -/
def EndsExpression (k : TokenKind) : Prop :=
  EndsOperand k ∧ infixPower? k = none

instance : DecidablePred EndsExpression := fun _ => inferInstanceAs (Decidable (_ ∧ _))

/-- A token that continues neither the last expression of a list nor the list. -/
def EndsList (k : TokenKind) : Prop :=
  EndsExpression k ∧ k ≠ .symbol .comma

instance : DecidablePred EndsList := fun _ => inferInstanceAs (Decidable (_ ∧ _))

/-- A token that ends an expression which is read with operators of the power. -/
structure EndsOperators (m : Nat) (e : Expr) (k : TokenKind) : Prop where
  operand : EndsOperand k
  operator : ∀ l r, infixPower? k = some (l, r) → l < m ∧ l < e.rightBound

theorem starts_literal (value : Literal) :
    ∃ k, value.piece.kind? = some k ∧ StartsExpression k := by
  cases value with
  | boolean b => cases b <;> exact ⟨_, rfl, by decide⟩
  | null => exact ⟨_, rfl, by decide⟩
  | _ => exact ⟨_, rfl, by simp [StartsExpression]⟩

theorem starts_name (quote : Char) (text : String) :
    StartsExpression (Token.name quote text).kind := by
  simp [StartsExpression, Token.kind_name_ne_keyword, Token.kind_name_ne_symbol]

theorem starts_function (quote : Char) (text : String) :
    StartsExpression (Token.function quote text).kind := by
  unfold Token.function
  split
  · rename_i hplain
    unfold Token.word Token.bare Lexer.wordKind
    rw [Keyword.ofText?_toUpper]
    cases hk : Keyword.ofText? text with
    | none => simp [StartsExpression]
    | some k =>
      have hk : (!k.isReserved || k == .LEFT || k == .RIGHT) = true := by
        simpa [isPlainFunction, hk] using (Bool.and_eq_true_iff.mp hplain).2
      show StartsExpression (.keyword k)
      revert hk
      cases k <;> decide
  · exact starts_name quote text

/-- The tokens begin with one that an expression may begin with. -/
def Starts (ts : List Token) : Prop :=
  ∃ t us, ts = t :: us ∧ StartsExpression t.kind

theorem Starts.append {ts : List Token} (h : Starts ts) (us : List Token) : Starts (ts ++ us) := by
  obtain ⟨t, ts, rfl, ht⟩ := h
  exact ⟨t, ts ++ us, rfl, ht⟩

theorem starts_qualifier (quote : Char) (q : List String) {ps : List Piece}
    (h : Starts (tokens ps)) : Starts (tokens (Piece.qualifier quote q ++ ps)) := by
  cases q with
  | nil => exact h
  | cons part rest =>
    exact ⟨_, _, Piece.tokens_name_cons _ quote part, starts_name quote part⟩

theorem starts_parenthesizedIf {needed : Bool} {ps : List Piece} (h : Starts (tokens ps)) :
    Starts (tokens (Piece.parenthesizedIf needed ps)) := by
  cases needed with
  | false => exact h
  | true => exact ⟨_, _, Piece.tokens_parenthesized ps, by decide⟩

theorem starts_pieces (quote : Char) : ∀ e : Expr, Starts (tokens (e.pieces quote))
  | .literal value => by
    obtain ⟨k, hk, hs⟩ := starts_literal value
    exact ⟨_, _, Piece.tokens_cons_of_kind? [] hk, hs⟩
  | .column q name =>
    starts_qualifier quote q ⟨_, _, Piece.tokens_name_cons [] quote name, starts_name quote name⟩
  | .wildcard q => starts_qualifier quote q ⟨_, _, Piece.tokens_sign_cons [] .star, by decide⟩
  | .binary left op right => by
    rw [Expr.pieces, List.append_assoc, Piece.tokens_append]
    exact (starts_parenthesizedIf (starts_pieces quote left)).append _
  | .unary .neg operand => ⟨_, _, Piece.tokens_negative _, by decide⟩
  | .unary .not operand => ⟨_, _, Piece.tokens_keyword_cons _ _, by decide⟩
  | .paren inner => ⟨_, _, Piece.tokens_parenthesized _, by decide⟩
  | .isNull operand negated => by
    rw [Expr.pieces, List.append_assoc, List.append_assoc, Piece.tokens_append]
    exact (starts_pieces quote operand).append _
  | .inList operand list negated => by
    rw [Expr.pieces, List.append_assoc, List.append_assoc, Piece.tokens_append]
    exact (starts_pieces quote operand).append _
  | .between operand low high negated => by
    simp only [Expr.pieces, List.append_assoc, Piece.tokens_append (operand.pieces quote)]
    exact (starts_pieces quote operand).append _
  | .caseOf operand clauses otherwise => ⟨_, _, Piece.tokens_keyword_cons _ _, by decide⟩
  | .cast operand dataType => ⟨_, _, Piece.tokens_keyword_cons _ _, by decide⟩
  | .call ⟨name, arguments, distinct, ignoreNulls, window⟩ =>
    ⟨_, _, Piece.tokens_functionName_cons _ quote name, starts_function quote name⟩
  | .subquery query => ⟨_, _, Piece.tokens_parenthesized _, by decide⟩
  | .existsRow query => ⟨_, _, Piece.tokens_keyword_cons _ _, by decide⟩

theorem starts_commaSeparated (quote : Char) {list : List Expr} (h : list ≠ []) :
    Starts (tokens (Piece.commaSeparated (exprsPieces quote list))) := by
  obtain ⟨e, rest, rfl⟩ := List.exists_cons_of_ne_nil h
  rw [exprsPieces_eq_map, Piece.tokens_commaSeparated, List.map_map, List.map_cons]
  cases rest with
  | nil => simpa using starts_pieces quote e
  | cons e' rest =>
    rw [List.map_cons, List.intercalate_cons_cons, List.append_assoc]
    exact (starts_pieces quote e).append _

/-! ## Nested parsers -/

/-- The parsers read back all expressions and queries of less than `n` tokens. -/
structure Nested.ReadsBack (d : Dialect) (quote : Char) (g : Nested) (n : Nat) : Prop where
  expression ⦃m : Nat⦄ ⦃e : Expr⦄ ⦃s : TokenStream⦄ (hn : ∀ x ∈ e.nodes, x.Readable d)
    (hm : m ≤ e.leftBound) (hlen : (tokens (e.pieces quote)).length < n)
    (hs : EndsOperators m e s.current.kind) :
    Reads (∀ x ∈ e.nodes, x.ViewReadable) (g.expression m) (tokens (e.pieces quote)) e.canonical s
  query ⦃q : Select⦄ ⦃s : TokenStream⦄ (hn : ∀ x ∈ q.nodes, x.Readable d)
    (hlen : (tokens (q.pieces quote)).length < n)
    (hs : s.current.kind = .symbol .rightParen ∨ s.current.kind = .endOfInput) :
    Reads (∀ x ∈ q.nodes, x.ViewReadable) g.query (tokens (q.pieces quote)) q.canonical s
  /-- A star, wherever it comes from. -/
  star ⦃t : Token⦄ ⦃s : TokenStream⦄ (h : 0 < n) (ht : t.kind = .symbol .star)
    (hs : EndsExpression s.current.kind) : Reads True (g.expression 0) [t] (.wildcard []) s

end Parser

end SqlDialects
