import SqlDialects.Proofs.Lexer.Lexed
import SqlDialects.Proofs.RoundTrip.Parts

/-!
# The payload of tokens

Numbers, strings and names carry what a statement is about; marks only give it its form. A name that
is spelled like a keyword may be written as a bare word, so it does not count, and other names count
in upper case. Here are the payloads of what is written, and how a written token tells what it is.
-/

namespace SqlDialects

/-- A name in upper case, unless it is spelled like a keyword. -/
def namePayload? (name : String) : Option TokenKind :=
  if Keyword.ofText? name = none then some (.identifier name.toUpper) else none

/-- What a token carries. Text in double quotes is a name where it is no string. -/
def TokenKind.payload? (d : Dialect) : TokenKind → Option TokenKind
  | .integer value => some (.integer value)
  | .number text => some (.number text)
  | .string body quote =>
    if quote = '\x22' ∧ ¬ d.doubleQuotedStrings then
      namePayload? (.ofList (undouble '\x22' body.toList))
    else some (.string body quote)
  | .identifier name => namePayload? name
  | .keyword _ | .symbol _ | .endOfInput => none

/-- What tokens carry, in their order. -/
def payload (d : Dialect) (ts : List Token) : List TokenKind :=
  ts.filterMap (·.kind.payload? d)

@[simp] theorem payload_nil (d : Dialect) : payload d [] = [] := rfl

@[simp] theorem payload_append (d : Dialect) (ts us : List Token) :
    payload d (ts ++ us) = payload d ts ++ payload d us :=
  List.filterMap_append

theorem payload_cons (d : Dialect) (t : Token) (ts : List Token) :
    payload d (t :: ts) = (t.kind.payload? d).toList ++ payload d ts := by
  unfold payload
  cases h : t.kind.payload? d <;> simp [h]

/-- The payload of tokens is told by their content. -/
theorem payload_congr (d : Dialect) {ts us : List Token}
    (h : ts.map Token.content = us.map Token.content) : payload d ts = payload d us := by
  have (l : List Token) : payload d l = (l.map Token.content).filterMap (·.1.payload? d) := by
    rw [List.filterMap_map]
    rfl
  rw [this, this, h]

@[simp] theorem namePayload?_toUpper (name : String) :
    namePayload? name.toUpper = namePayload? name := by
  simp [namePayload?]

theorem namePayload?_of_ofText? {name : String} {k : Keyword} (h : Keyword.ofText? name = some k) :
    namePayload? name = none := by
  simp [namePayload?, h]

/-- Only bare words are spelled like keywords. -/
theorem namePayload?_of_not_isBareWord {name : String} (h : ¬ isBareWord name = true) :
    namePayload? name = some (.identifier name.toUpper) := by
  cases hk : Keyword.ofText? name with
  | none => simp [namePayload?, hk]
  | some k => exact absurd (Token.isBareWord_of_ofText? hk) h

/-! ## Written tokens -/

namespace Token

variable {d : Dialect} {quote : Char} (hq : d.Unquotes quote) (text : String)

@[simp] theorem payload?_mark (m : Mark) : (mark m).kind.payload? d = none := by
  cases m <;> rfl

@[simp] theorem payload?_word : (word text).kind.payload? d = namePayload? text := by
  unfold word bare Lexer.wordKind
  cases h : Keyword.ofText? text with
  | none => rfl
  | some k => exact (namePayload?_of_ofText? h).symm

include hq

theorem payload?_name : (name quote text).kind.payload? d = namePayload? text := by
  obtain rfl | ⟨rfl, hd⟩ := hq
  · rfl
  · simp [name, bare, TokenKind.payload?, hd, undouble_double]

theorem payload?_function : (function quote text).kind.payload? d = namePayload? text := by
  unfold function
  split
  · simp
  · exact payload?_name hq text

theorem payload?_typeName : (typeName quote text).kind.payload? d = namePayload? text := by
  unfold typeName
  split
  · simp
  · exact payload?_name hq text

theorem payload?_fieldName : (fieldName quote text).kind.payload? d = namePayload? text := by
  unfold fieldName
  split
  · simp
  · exact payload?_name hq text

end Token

namespace Piece

/-- What pieces carry. -/
def payload (d : Dialect) (ps : List Piece) : List TokenKind :=
  SqlDialects.payload d (tokens ps)

section Name

variable {d : Dialect} {quote : Char} (hq : d.Unquotes quote) (text : String) (ps : List Piece)
include hq

theorem payload_name_cons :
    payload d (.name text quote :: ps) = (namePayload? text).toList ++ payload d ps := by
  rw [payload, tokens_name_cons, payload_cons, Token.payload?_name hq, payload]

theorem payload_functionName_cons :
    payload d (functionName quote text :: ps) = (namePayload? text).toList ++ payload d ps := by
  rw [payload, tokens_functionName_cons, payload_cons, Token.payload?_function hq, payload]

theorem payload_typeName_cons :
    payload d (typeName quote text :: ps) = (namePayload? text).toList ++ payload d ps := by
  rw [payload, tokens_typeName_cons, payload_cons, Token.payload?_typeName hq, payload]

theorem payload_fieldName_cons :
    payload d (fieldName quote text :: ps) = (namePayload? text).toList ++ payload d ps := by
  rw [payload, tokens_fieldName_cons, payload_cons, Token.payload?_fieldName hq, payload]

end Name

variable (d : Dialect) (ps : List Piece)

@[simp] theorem payload_nil : payload d [] = [] := rfl

@[simp] theorem payload_append (qs : List Piece) :
    payload d (ps ++ qs) = payload d ps ++ payload d qs := by
  simp [payload]

@[simp] theorem payload_space_cons : payload d (.space :: ps) = payload d ps := rfl

@[simp] theorem payload_mark_cons (m : Mark) : payload d (.mark m :: ps) = payload d ps := by
  simp [payload, payload_cons]

@[simp] theorem payload_sign_cons (s : Symbol) : payload d (sign s :: ps) = payload d ps :=
  payload_mark_cons d ps _

@[simp] theorem payload_keyword_cons (k : Keyword) : payload d (keyword k :: ps) = payload d ps :=
  payload_mark_cons d ps _

@[simp] theorem payload_emptyAngles_cons : payload d (.emptyAngles :: ps) = payload d ps := rfl

@[simp] theorem payload_word_cons (text : String) :
    payload d (.word text :: ps) = (namePayload? text).toList ++ payload d ps := by
  simp [payload, payload_cons]

@[simp] theorem payload_integer_cons (value : Int) :
    payload d (.integer value :: ps) = .integer (.ofInt value) :: payload d ps := by
  rw [payload, tokens_integer_cons]
  rfl

theorem payload_flatMap {α : Type} (l : List α) (f : α → List Piece) :
    payload d (l.flatMap f) = l.flatMap fun x => payload d (f x) := by
  induction l with
  | nil => rfl
  | cons x rest ih => simp [ih]

@[simp] theorem payload_commaSeparated (items : List (List Piece)) :
    payload d (commaSeparated items) = items.flatMap (payload d) := by
  induction items with
  | nil => rfl
  | cons item rest ih =>
    cases rest with
    | nil => simp [commaSeparated]
    | cons item' rest =>
      unfold commaSeparated at ih ⊢
      rw [List.intercalate_cons_cons, payload_append, payload_append, ih]
      simp

@[simp] theorem payload_phrase (marks : List Mark) : payload d (phrase marks) = [] := by
  rw [payload, tokens_phrase]
  induction marks with
  | nil => rfl
  | cons m rest ih => simpa [payload_cons] using ih

@[simp] theorem payload_parenthesized : payload d (parenthesized ps) = payload d ps := by
  simp [parenthesized]

@[simp] theorem payload_parenthesizedIf (needed : Bool) :
    payload d (parenthesizedIf needed ps) = payload d ps := by
  cases needed <;> simp [parenthesizedIf]

@[simp] theorem payload_negative : payload d (negative ps) = payload d ps := by
  unfold negative
  split <;> simp

@[simp] theorem payload_negation (negated : Bool) : payload d (negation negated) = [] := by
  cases negated <;> simp [negation]

@[simp] theorem payload_listedPieces (marks : List Mark) (items : List (List Piece)) :
    payload d (listedPieces marks items) = items.flatMap (payload d) := by
  unfold listedPieces
  split
  · simp_all
  · simp

end Piece

/-- A literal is written as what it was read from. -/
theorem Literal.payload_piece {d : Dialect} {k : TokenKind} {value : Literal}
    (h : Parser.literal? d k = some value) :
    Piece.payload d [value.piece] = (k.payload? d).toList := by
  cases k with
  | integer n =>
    cases h
    simp [Literal.piece, TokenKind.payload?]
  | number text =>
    cases h
    rfl
  | string body quote =>
    simp only [Parser.literal?] at h
    split at h
    · cases h
    · cases h
      rfl
  | keyword w => cases w <;> cases h <;> rfl
  | _ => cases h

@[simp] theorem payload_optionalPieces (d : Dialect) (quote : Char) (lead : List Piece)
    (e : Option Expr) :
    Piece.payload d (optionalPieces quote lead e) =
      e.toList.flatMap fun e => Piece.payload d lead ++ Piece.payload d (e.pieces quote) := by
  cases e <;> simp [optionalPieces]

/-- Directions and the place of nulls carry nothing. -/
@[simp] theorem OrderItem.payload_pieces (d : Dialect) (quote : Char) (i : OrderItem) :
    Piece.payload d (i.pieces quote) = Piece.payload d (i.key.pieces quote) := by
  obtain ⟨key, direction, nulls⟩ := i
  cases nulls <;> simp [OrderItem.pieces, nullsPieces]

/-! ## Lexemes -/

/-- The lexeme tells which keyword a token is, and that the brackets of a type without parts are a
sign. The token is not the end of input. -/
structure Token.IsSpelled (t : Token) : Prop where
  keyword : ∀ k, t.kind = .keyword k → Keyword.ofText? t.lexeme = some k
  emptyAngles : t.lexeme = "<>" → ∃ s, t.kind = .symbol s
  inside : t.kind ≠ .endOfInput

namespace Lexer

theorem ofText?_of_found {text : List Char} {k : Keyword}
    (h : (scan text).found = .ok (.keyword k)) :
    Keyword.ofText? (.ofList (scan text).read) = some k := by
  cases text with
  | nil => cases h
  | cons c rest =>
    simp only [scan] at h ⊢
    split at h
    · cases h
    · split at h
      · unfold scanString at h
        split at h <;> cases h
      · split at h
        · unfold scanName at h
          split at h <;> cases h
        · split at h
          · obtain ⟨_, _, _, -, -, hk⟩ := numberText_of_scanNumber ‹_› h
            unfold numberKind integerKind at hk
            split at hk
            · split at hk <;> cases hk
            · cases hk
          · split at h
            · rename_i hs hquote hback hdigit hword
              simp only [hquote, hback, hdigit, hword, if_false, if_true]
              unfold scanWord at h ⊢
              simp only [Except.ok.injEq] at h
              unfold wordKind at h
              split at h
              · cases h
                assumption
              · cases h
            · cases h

theorem exists_symbol_of_read {text : List Char} {k : TokenKind} (h : (scan text).found = .ok k)
    (hr : (scan text).read = ['<', '>']) : ∃ s, k = .symbol s := by
  have htext : '<' :: '>' :: (scan text).rest = text := by
    have happ := scan_append text
    rwa [hr] at happ
  rw [← htext] at h
  cases h
  exact ⟨_, rfl⟩

theorem isSpelled_of_next {l l' : Lexer} {t : Token} (h : l.next = (.ok t, l'))
    (ht : t.kind ≠ .endOfInput) : t.IsSpelled := by
  unfold next at h
  split at h
  · rename_i start _
    unfold readToken at h
    cases hs : (scan start.rest).found with
    | ok kind =>
      simp only [hs, Prod.mk.injEq, Except.ok.injEq] at h
      obtain ⟨rfl, -⟩ := h
      refine ⟨fun k hk => ?_, fun hl => ?_, ht⟩
      · exact ofText?_of_found (hs.trans (congrArg Except.ok hk))
      · exact exists_symbol_of_read hs (by simpa using congrArg String.toList hl)
    | error cause => simp [hs] at h
  · simp at h

end Lexer

/-- What the stream of a text carries is what its tokens carry. -/
theorem TokenStream.payload_ofList {text : String} {ts : List Token}
    (h : tokenize text = .ok ts) (d : Dialect) :
    (TokenStream.ofList ts).Within Token.IsSpelled ∧
      payload d (TokenStream.ofList ts).rest = payload d ts := by
  obtain ⟨hspelled, t, ht, hts⟩ := within_ofList (fun _ _ _ => Lexer.isSpelled_of_next) h
  refine ⟨hspelled, ?_⟩
  have hend : payload d [t] = [] := by
    rw [payload_cons, ht]
    rfl
  conv_rhs => rw [hts, payload_append, hend, List.append_nil]

end SqlDialects
