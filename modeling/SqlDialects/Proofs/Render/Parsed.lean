import Mathlib
import SqlDialects.Proofs.Parser.Text
import SqlDialects.Proofs.Render.Defects
import SqlDialects.Proofs.Render.Parenthesized
import SqlDialects.Proofs.Tree.Precedence

/-!
# Writing what has been read

The parser fills every place of a tree that the writer asks for, with one exception: a pair of
quotes with nothing between them is a name for the parser and none for the writer. It also leaves
nothing for the writer to put in parentheses. This holds of whatever tokens are read, also of those
that no text has.
-/

namespace SqlDialects.Statement

variable {d : Dialect} {text : String} {a : Statement}

/-- A statement that has been read, in whatever dialect, can be written exactly if none of its names
is empty. -/
theorem exists_render_iff (h : parse d text = .ok a) : (∃ t, a.render d = .ok t) ↔ "" ∉ a.names := by
  have hcomplete : ∀ n ∈ a.nodes, n.Complete := fun n hn =>
    (sound_of_parse (T := fun _ => True) (fun _ _ _ _ => trivial) h n hn).complete
  calc (∃ t, a.render d = .ok t)
    _ ↔ a.defect? = none := by simp [render_eq_ok]
    _ ↔ (∀ n ∈ a.nodes, n.Complete) ∧ "" ∉ a.names := a.defect?_eq_none
    _ ↔ "" ∉ a.names := and_iff_right hcomplete

/-- A column without a name. -/
def unnamedColumn : Statement :=
  .select ⟨false, [⟨.column [] "", none⟩], none, [], none, [], none, none, none⟩

/-- A pair of backticks with nothing between them is read as a column, and cannot be written. -/
theorem not_exists_render_unnamedColumn :
    parse .spark "SELECT \x60\x60" = .ok unnamedColumn ∧
      ¬ ∃ t, unnamedColumn.render .spark = .ok t := by
  have h : parse .spark "SELECT \x60\x60" = .ok unnamedColumn := by cbv
  have hnames : "" ∈ unnamedColumn.names := by decide +kernel
  exact ⟨h, fun hr => (exists_render_iff h).mp hr hnames⟩

end SqlDialects.Statement

namespace SqlDialects.TokenStream

variable {d : Dialect} {s s' : TokenStream} {a : Statement}

/-- Nothing is missing or out of place at any node of a statement that a stream holds, so that in
every dialect an empty name is all that can keep it from being written. -/
theorem complete_tidy_of_statement (h : s.statement d = (.ok a, s')) :
    (∀ n ∈ a.nodes, n.Complete ∧ n.Tidy) ∧
      ∀ d' : Dialect, (∃ defect, a.render d' = .error defect) ↔ "" ∈ a.names := by
  have hread : Parser.statement d s = .ok a s' := statement_eq_ok.mp h
  have hsound : ∀ n ∈ a.nodes, n.Sound (fun _ => True) d :=
    (Parser.yields_statement (fun _ _ => trivial) hread).1
  constructor
  · intro n hn
    exact ⟨(hsound n hn).complete, (hsound n hn).tidy⟩
  · intro d'
    have hcomplete : ∀ n ∈ a.nodes, n.Complete := fun n hn => (hsound n hn).complete
    calc (∃ defect, a.render d' = .error defect)
      _ ↔ a.defect? ≠ none := Statement.exists_render_eq_error
      _ ↔ ¬("" ∉ a.names) := by
        rw [ne_eq, Statement.defect?_eq_none, and_iff_right hcomplete]
      _ ↔ "" ∈ a.names := not_not

/-- The tokens of `SELECT a FROM t GROUP BY 1 DISTRIBUTE BY a`, in which the table has no name. -/
def groupedTokens : List Token :=
  [⟨.keyword .SELECT, ⟨0, 6⟩, "SELECT"⟩, ⟨.identifier "a", ⟨7, 8⟩, "a"⟩,
    ⟨.keyword .FROM, ⟨9, 13⟩, "FROM"⟩, ⟨.identifier "", ⟨14, 15⟩, "t"⟩,
    ⟨.keyword .GROUP, ⟨16, 21⟩, "GROUP"⟩, ⟨.keyword .BY, ⟨22, 24⟩, "BY"⟩,
    ⟨.integer 1, ⟨25, 26⟩, "1"⟩, ⟨.keyword .DISTRIBUTE, ⟨27, 37⟩, "DISTRIBUTE"⟩,
    ⟨.keyword .BY, ⟨38, 40⟩, "BY"⟩, ⟨.identifier "a", ⟨41, 42⟩, "a"⟩]

def groupedStatement : Statement :=
  .select ⟨false, [⟨.column [] "a", none⟩], some ⟨.table none "" none, []⟩, [], none, [.ordinal 1],
    none, some (.distributeBy [⟨.column [] "a", none, none⟩] none), none⟩

theorem complete_tidy_groupedStatement :
    (∀ n ∈ groupedStatement.nodes, n.Complete ∧ n.Tidy) ∧
      ∀ d : Dialect, ∃ defect, groupedStatement.render d = .error defect := by
  have hread : (ofList groupedTokens).statement .spark =
      (.ok groupedStatement, ⟨[], .at 42, ""⟩) := by cbv
  have hnames : "" ∈ groupedStatement.names := by decide +kernel
  obtain ⟨hnodes, herror⟩ := complete_tidy_of_statement hread
  exact ⟨hnodes, fun d => (herror d).mpr hnames⟩

/-- Every operator of a statement that a stream holds has operands of the right precedence, so that
the parentheses in its text are those of its nodes and none is put around an operand. -/
theorem respectsPrecedence_of_statement (h : s.statement d = (.ok a, s')) :
    (∀ n ∈ a.nodes, n.RespectsPrecedence ∧ n.operandParens = 0) ∧
      ∀ quote, Piece.openings (a.pieces quote) = (a.nodes.map Node.ownParens).sum := by
  have hread : Parser.statement d s = .ok a s' := statement_eq_ok.mp h
  have hsound : ∀ n ∈ a.nodes, n.Sound (fun _ => True) d :=
    (Parser.yields_statement (fun _ _ => trivial) hread).1
  have hparens : ∀ n ∈ a.nodes, n.operandParens = 0 := fun n hn =>
    (hsound n hn).bound.operandParens_eq
  constructor
  · intro n hn
    exact ⟨(hsound n hn).bound.respectsPrecedence, hparens n hn⟩
  · intro quote
    exact (a.openings_pieces quote).trans (parensOf_eq_sum hparens)

/-- The tokens of `SELECT a + NOT b = - c WHERE (a OR b) IN (1) AND c`. -/
def negatedSumTokens : List Token :=
  [⟨.keyword .SELECT, ⟨0, 6⟩, "SELECT"⟩, ⟨.identifier "a", ⟨7, 8⟩, "a"⟩,
    ⟨.symbol .plus, ⟨9, 10⟩, "+"⟩, ⟨.keyword .NOT, ⟨11, 14⟩, "NOT"⟩,
    ⟨.identifier "b", ⟨15, 16⟩, "b"⟩, ⟨.symbol .eq, ⟨17, 18⟩, "="⟩,
    ⟨.symbol .minus, ⟨19, 20⟩, "-"⟩, ⟨.identifier "c", ⟨21, 22⟩, "c"⟩,
    ⟨.keyword .WHERE, ⟨23, 28⟩, "WHERE"⟩, ⟨.symbol .leftParen, ⟨29, 30⟩, "("⟩,
    ⟨.identifier "a", ⟨30, 31⟩, "a"⟩, ⟨.keyword .OR, ⟨32, 34⟩, "OR"⟩,
    ⟨.identifier "b", ⟨35, 36⟩, "b"⟩, ⟨.symbol .rightParen, ⟨36, 37⟩, ")"⟩,
    ⟨.keyword .IN, ⟨38, 40⟩, "IN"⟩, ⟨.symbol .leftParen, ⟨41, 42⟩, "("⟩,
    ⟨.integer 1, ⟨42, 43⟩, "1"⟩, ⟨.symbol .rightParen, ⟨43, 44⟩, ")"⟩,
    ⟨.keyword .AND, ⟨45, 48⟩, "AND"⟩, ⟨.identifier "c", ⟨49, 50⟩, "c"⟩]

/-- The `NOT` to the right of the sign takes what follows up to the end of the comparison. -/
def negatedSum : Statement :=
  let a : Expr := .column [] "a"
  let b : Expr := .column [] "b"
  let c : Expr := .column [] "c"
  .select ⟨false, [⟨.binary a .add (.unary .not (.binary b .eq (.unary .neg c))), none⟩], none, [],
    some (.binary (.inList (.paren (.binary a .or b)) [.literal (.integer 1)] false) .and c), [],
    none, none, none⟩

theorem respectsPrecedence_negatedSum :
    (∀ n ∈ negatedSum.nodes, n.RespectsPrecedence ∧ n.operandParens = 0) ∧
      Piece.openings (negatedSum.pieces '\x60') = 2 := by
  have hread : (ofList negatedSumTokens).statement .spark =
      (.ok negatedSum, ⟨[], .at 50, ""⟩) := by cbv
  obtain ⟨hnodes, hparens⟩ := respectsPrecedence_of_statement hread
  exact ⟨hnodes, hparens '\x60'⟩

end SqlDialects.TokenStream
