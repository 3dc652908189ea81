import Mathlib
import SqlDialects.Proofs.Lexer.Lexed
import SqlDialects.Proofs.Render.Legible
import SqlDialects.Proofs.Render.Quotes
import SqlDialects.Render.Statement

/-!
# The tokens of a written statement

Main statement: the text of a statement is read as the tokens of its pieces, one for each keyword,
sign, name and literal, whatever stands next to each other in the tree. The literals have to be
ones that can be read at all, and a negative integer is a minus sign and the digits behind it.
-/

namespace SqlDialects

namespace Piece

/-- The digits of a natural number. Where it does not fit in 64 bits with a sign, they are read as a
number that keeps its text. -/
def digits (n : Nat) : Piece :=
  if n < 0x8000000000000000 then .integer n else .number (toString n)

/-- The piece as pieces of one token each. -/
def parts : Piece → List Piece
  | .integer (.ofNat n) => [digits n]
  | .integer (.negSucc n) => [sign .minus, digits (n + 1)]
  | p => [p]

/-- What is read of the piece is read as one token each. -/
def PartsLegible (p : Piece) : Prop :=
  ∀ q ∈ p.parts, q.Legible

theorem chars_digits (n : Nat) : (digits n).chars = Nat.toDigits 10 n := by
  unfold digits
  split <;> simp [chars, Int.repr_eq_if]

theorem legible_digits (n : Nat) : (digits n).Legible := by
  unfold digits
  split
  · exact ⟨by omega, by omega⟩
  · rename_i hn
    refine ⟨Nat.toDigits 10 n, [], [], ⟨Lexer.isDigits_toDigits n, .inl rfl, .inl rfl⟩, by simp, ?_⟩
    simp [Lexer.numberKind, Lexer.integerKind, Lexer.decimalValue_toDigits, hn, Nat.repr]

/-- Digits end where the integer ends. -/
theorem endsBefore_digits {n : Nat} {value : Int} {next : Option Char}
    (h : (integer value).EndsBefore next) : (digits n).EndsBefore next := by
  unfold digits
  split <;> exact h

theorem text_parts (p : Piece) : text p.parts = p.chars := by
  cases p with
  | integer value =>
    cases value with
    | ofNat n =>
      rw [parts, text_cons, chars_digits, text_nil, List.append_nil]
      simp [chars, Int.repr_eq_if]
    | negSucc n =>
      have hchars : (integer (.negSucc n)).chars = '-' :: Nat.toDigits 10 (n + 1) := by
        rw [chars, Int.toString_eq_repr]
        simp [Int.repr]
      rw [parts, text_cons, text_cons, chars_digits, text_nil, List.append_nil, hchars]
      rfl
  | _ => simp [parts]

@[simp] theorem text_flatMap_parts (ps : List Piece) : text (ps.flatMap parts) = text ps := by
  induction ps with
  | nil => rfl
  | cons p ps ih => simp [text_parts, ih]

@[simp] theorem first_flatMap_parts (ps : List Piece) : first (ps.flatMap parts) = first ps := by
  simp [first]

theorem quotable_parts {p : Piece} (h : p.Quotable) : ∀ q ∈ p.parts, q.Quotable := by
  have hdigits (n : Nat) : (digits n).Quotable := by
    unfold digits
    split <;> trivial
  cases p with
  | integer value =>
    cases value with
    | ofNat n => simpa [parts] using hdigits n
    | negSucc n => simpa [parts] using ⟨trivial, hdigits (n + 1)⟩
  | _ => simpa [parts] using h

/-- An integer has legible parts, whatever its sign and its size. -/
theorem partsLegible_integer (value : Int) : (integer value).PartsLegible := by
  cases value with
  | ofNat n => simpa [PartsLegible, parts] using legible_digits n
  | negSucc n => simpa [PartsLegible, parts] using ⟨trivial, legible_digits (n + 1)⟩

theorem partsLegible_of_legible {p : Piece} (h : p.Legible) : p.PartsLegible := by
  cases p with
  | integer value => exact partsLegible_integer value
  | _ => simpa [PartsLegible, parts] using h

instance : Loosens PartsLegible where
  of_legible _ := partsLegible_of_legible
  name_quote _ _ h := h _ (List.mem_singleton_self _)
  string_quote _ _ h := (h _ (List.mem_singleton_self _)).1

/-- The parts of a piece do not run into each other, and the last one not into what follows. -/
theorem separate_parts {p : Piece} {next : Option Char} (hp : p.PartsLegible)
    (hnext : p.EndsBefore next) : Separate Legible next p.parts := by
  cases p with
  | integer value =>
    cases value with
    | ofNat n => exact ⟨legible_digits n, endsBefore_digits hnext, trivial⟩
    | negSucc n =>
      obtain ⟨c, rest, hc⟩ := List.exists_cons_of_ne_nil (Lexer.isDigits_toDigits (n + 1)).ne_nil
      have hminus : c ≠ '-' := by
        rintro rfl
        have hdigit := (Lexer.isDigits_toDigits (n + 1)).isDigit '-' (by simp [hc])
        exact absurd hdigit (by decide)
      have hfirst : first [digits (n + 1)] = some c := by simp [first, chars_digits, hc]
      refine ⟨trivial, ?_, legible_digits (n + 1), endsBefore_digits hnext, trivial⟩
      simpa [hfirst, sign, EndsBefore, Symbol.EndsBefore] using hminus
  | _ => exact ⟨hp _ (List.mem_singleton_self _), hnext, trivial⟩

theorem separate_flatMap_parts {ps : List Piece} {next : Option Char}
    (h : Separate PartsLegible next ps) : Separate Legible next (ps.flatMap parts) := by
  induction ps with
  | nil => trivial
  | cons p ps ih =>
    obtain ⟨hp, hnext, hps⟩ := h
    rw [List.flatMap_cons, separate_append, first_flatMap_parts]
    exact ⟨separate_parts hp hnext, ih hps⟩

end Piece

open Piece (tokens)

/-! ## Literals that can be read -/

/-- The text is read as one token of the kind, and no character of it is left out. -/
def TokenKind.IsReadFrom (kind : TokenKind) (text : String) : Prop :=
  (tokenize text).map (List.map Token.content) = .ok [(kind, text), (.endOfInput, "")]

/-- The text of a number or string that the literal holds is one that the lexer reads as this number
or string, so that the quote is one of those that strings stand in. An integer or a constant may be
any. -/
def Literal.IsValid : Literal → Prop
  | .number text => (TokenKind.number text).IsReadFrom text
  | .string body quote =>
    (TokenKind.string body quote).IsReadFrom (.ofList (quote :: body.toList ++ [quote]))
  | _ => True

/-- A number or string at the node is one that can be read. -/
@[simp] def Node.LiteralIsValid : Node → Prop
  | .expr (.literal value) => value.IsValid
  | _ => True

theorem TokenKind.IsReadFrom.exists_isLexed {kind : TokenKind} {text : String}
    (h : kind.IsReadFrom text) : ∃ t : Token, t.kind = kind ∧ t.IsLexed := by
  unfold IsReadFrom at h
  cases htokens : tokenize text with
  | error e => rw [htokens] at h; cases h
  | ok ts =>
    rw [htokens] at h
    obtain ⟨t, rest, rfl, ht, hrest⟩ := List.map_eq_cons_iff.mp (Except.ok.inj h)
    obtain ⟨e, rfl, -⟩ := List.map_eq_singleton_iff.mp hrest
    obtain ⟨hlexed, e', -, hts⟩ :=
      TokenStream.within_ofList (fun _ _ _ hnext _ => Lexer.isLexed_of_next hnext) htokens
    have hstream : [t] = (TokenStream.ofList [t, e]).rest :=
      (List.append_inj' (show [t] ++ [e] = _ from hts) rfl).1
    exact ⟨t, congrArg Prod.fst ht, hlexed t (hstream ▸ List.mem_singleton_self t)⟩

namespace Literal

theorem IsValid.partsLegible {value : Literal} (h : value.IsValid) : value.piece.PartsLegible := by
  have legible {kind : TokenKind} {text : String} (hread : kind.IsReadFrom text)
      (hvalue : Parser.literal? .spark kind = some value) : value.piece.Legible := by
    obtain ⟨t, rfl, ht⟩ := hread.exists_isLexed
    exact (readsBack_of_isLexed ht hvalue).1
  cases value with
  | integer value => exact Piece.partsLegible_integer _
  | number text => exact Piece.partsLegible_of_legible (legible h rfl)
  | string body quote =>
    exact Piece.partsLegible_of_legible (legible h (by simp [Parser.literal?, Dialect.spark]))
  | boolean b => cases b <;> exact Piece.partsLegible_of_legible trivial
  | null => exact Piece.partsLegible_of_legible trivial

theorem isValid_of_legible {value : Literal} (h : value.piece.Legible) : value.IsValid := by
  have read {kind : TokenKind} (hkind : value.piece.kind? = some kind)
      (hquotable : value.piece.Quotable) : kind.IsReadFrom (.ofList value.piece.chars) := by
    have hseparate : Piece.Separate Piece.Legible none [value.piece] :=
      Piece.settled_singleton h (by cases value with | boolean b => cases b <;> rintro ⟨⟩ | _ => rintro ⟨⟩)
        Piece.isSoft_none
    obtain ⟨ts, htokens, hcontent⟩ := Piece.tokenize_text hseparate (by simpa using hquotable)
    have hone : Piece.text [value.piece] = value.piece.chars := List.append_nil _
    rw [hone] at htokens
    simp [TokenKind.IsReadFrom, htokens, Except.map, hcontent, tokens, Piece.token?, hkind,
      Token.content, Token.bare]
  cases value with
  | number text => simpa [IsValid, piece, Piece.chars] using read rfl trivial
  | string body quote => exact read rfl trivial
  | _ => trivial

end Literal

/-! ## The text of a statement -/

namespace Statement

variable {a : Statement} {t : String}

/-- The literals of whatever is read are valid. -/
theorem literalIsValid_of_parse {d : Dialect} {text : String} (h : parse d text = .ok a) :
    ∀ n ∈ a.nodes, n.LiteralIsValid := by
  intro n hn
  unfold Node.LiteralIsValid
  split
  · obtain ⟨t, ht, hvalue⟩ := (sound_of_parse (fun _ => TokenStream.within_ofText) h _ hn).literal
    exact Literal.isValid_of_legible (Literal.readsBack_of_isLexed ht hvalue).1
  · trivial

/-- Any tree with valid literals is written as a text that is read as the tokens of its pieces, and
of no others. -/
theorem tokenize_render_of_valid (hvalid : ∀ n ∈ a.nodes, n.LiteralIsValid)
    (h : a.render .spark = .ok t) :
    ∃ ts, tokenize t = .ok ts ∧
      ts.map Token.content =
        (tokens ((a.pieces '\x60').flatMap Piece.parts)).map Token.content ++
          [(.endOfInput, "")] := by
  obtain ⟨-, rfl⟩ := render_eq_ok.mp h
  have hnodes : ∀ n ∈ a.nodes, n.IsLegible Piece.PartsLegible '\x60' := by
    intro n hn
    have hliteral := hvalid n hn
    refine ⟨.inl rfl, ?_⟩
    split
    · exact Literal.IsValid.partsLegible hliteral
    · exact Piece.partsLegible_integer _
    · trivial
  have hquotable : ∀ p ∈ (a.pieces '\x60').flatMap Piece.parts, p.Quotable := by
    intro q hq
    obtain ⟨p, hp, hq⟩ := List.mem_flatMap.mp hq
    exact Piece.quotable_parts ((quotable_pieces_iff '\x60' a).mpr nofun p hp) q hq
  have htokens := Piece.tokenize_text (Piece.separate_flatMap_parts (separate_pieces hnodes))
    hquotable
  rwa [Piece.text_flatMap_parts] at htokens

/-- Minus signs before minus signs, the least integer, a star next to a slash, and quotes next to
quotes. -/
def crowded : Statement :=
  .select ⟨false,
    [⟨.unary .neg (.unary .neg (.literal (.integer (-5)))), none⟩,
      ⟨.binary (.wildcard ["a\x60"]) .div (.wildcard []), none⟩,
      ⟨.binary (.literal (.number "1.5")) .sub (.literal (.integer (-9223372036854775808))),
        some "b"⟩,
      ⟨.literal (.string "it\x27\x27s" '\x27'), none⟩],
    none, [], none, [], none, none, none⟩

def crowdedText : String :=
  "SELECT - - -5, \x60a\x60\x60\x60.* / *, " ++
    "1.5 - -9223372036854775808 AS \x60b\x60, \x27it\x27\x27s\x27"

theorem tokenize_render_crowded :
    crowded.render .spark = .ok crowdedText ∧
      ∃ ts, tokenize crowdedText = .ok ts ∧
        ts.map Token.content =
          [(.keyword .SELECT, "SELECT"), (.symbol .minus, "-"), (.symbol .minus, "-"),
            (.symbol .minus, "-"), (.integer 5, "5"), (.symbol .comma, ","),
            (.identifier "a\x60", "\x60a\x60\x60\x60"), (.symbol .dot, "."), (.symbol .star, "*"),
            (.symbol .slash, "/"), (.symbol .star, "*"), (.symbol .comma, ","),
            (.number "1.5", "1.5"), (.symbol .minus, "-"), (.symbol .minus, "-"),
            (.number "9223372036854775808", "9223372036854775808"), (.keyword .AS, "AS"),
            (.identifier "b", "\x60b\x60"), (.symbol .comma, ","),
            (.string "it\x27\x27s" '\x27', "\x27it\x27\x27s\x27"), (.endOfInput, "")] := by
  have hrender : crowded.render .spark = .ok crowdedText := by decide +kernel
  have hnumber : (TokenKind.number "1.5").IsReadFrom "1.5" := by
    unfold TokenKind.IsReadFrom
    cbv
  have hstring : (TokenKind.string "it\x27\x27s" '\x27').IsReadFrom "\x27it\x27\x27s\x27" := by
    unfold TokenKind.IsReadFrom
    cbv
  have hvalid : ∀ n ∈ crowded.nodes, n.LiteralIsValid := by
    simpa [crowded, nodes, Select.nodes, columnsNodes, Expr.nodes, sourceNodes, viewsNodes,
      optionalNodes, groupsNodes, orderingNodes, Literal.IsValid] using And.intro hnumber hstring
  obtain ⟨ts, htokens, hcontent⟩ := tokenize_render_of_valid hvalid hrender
  exact ⟨hrender, ts, htokens, hcontent.trans (by decide +kernel)⟩

end Statement

end SqlDialects
