import SqlDialects.Proofs.Parser.Reads
import SqlDialects.Proofs.RoundTrip.Parts

/-!
# Written types are read back

Main statement: before the tokens of a type, the parser returns the type with its names in upper
case, the names of fields apart.
-/

namespace SqlDialects

/-! ## Names in upper case -/

mutual

/-- The type with the names of its plain and sized parts in upper case. -/
def DataType.upperNames : DataType → DataType
  | .simple name => .simple name.toUpper
  | .sized name parameters => .sized name.toUpper parameters
  | .array element => .array element.upperNames
  | .map key value => .map key.upperNames value.upperNames
  | .struct fields => .struct (fieldsUpperNames fields)

def fieldsUpperNames : List StructField → List StructField
  | [] => []
  | ⟨name, dataType⟩ :: rest => ⟨name, dataType.upperNames⟩ :: fieldsUpperNames rest

end

def StructField.upperNames (f : StructField) : StructField :=
  ⟨f.name, f.dataType.upperNames⟩

theorem fieldsUpperNames_eq_map (fields : List StructField) :
    fieldsUpperNames fields = fields.map (·.upperNames) := by
  induction fields with
  | nil => rfl
  | cons f rest ih =>
    obtain ⟨name, t⟩ := f
    rw [fieldsUpperNames, ih, List.map_cons, StructField.upperNames]

mutual

theorem DataType.upperNames_of_tidy : ∀ t : DataType, (∀ n ∈ t.nodes, n.Tidy) → t.upperNames = t
  | .simple name, h => by
    rw [DataType.nodes, List.forall_mem_singleton] at h
    exact congrArg DataType.simple h
  | .sized name parameters, h => by
    rw [DataType.nodes, List.forall_mem_singleton] at h
    exact congrArg (DataType.sized · parameters) h
  | .array element, h => by
    rw [DataType.nodes, List.forall_mem_cons] at h
    rw [DataType.upperNames, element.upperNames_of_tidy h.2]
  | .map key value, h => by
    rw [DataType.nodes, List.forall_mem_cons, List.forall_mem_append] at h
    rw [DataType.upperNames, key.upperNames_of_tidy h.2.1, value.upperNames_of_tidy h.2.2]
  | .struct fields, h => by
    rw [DataType.nodes, List.forall_mem_cons] at h
    rw [DataType.upperNames, fieldsUpperNames_of_tidy fields h.2]

theorem fieldsUpperNames_of_tidy : ∀ fields : List StructField,
    (∀ n ∈ fieldsNodes fields, n.Tidy) → fieldsUpperNames fields = fields
  | [], _ => rfl
  | ⟨name, t⟩ :: rest, h => by
    rw [fieldsNodes, List.forall_mem_cons, List.forall_mem_append] at h
    rw [fieldsUpperNames, t.upperNames_of_tidy h.2.1, fieldsUpperNames_of_tidy rest h.2.2]

end

/-! ## Reading types -/

/-- The token behind a type takes no part in it. -/
def Token.EndsType (t : Token) : Prop :=
  t.lexeme ≠ "<>" ∧ t.kind ≠ .symbol .lt ∧ t.kind ≠ .symbol .leftParen

namespace Parser

open Piece (tokens)

variable {d : Dialect} {quote : Char} {s : TokenStream}

theorem reads_typeShape_plain (name : String) (hl : s.current.lexeme ≠ "<>")
    (hk : s.current.kind ≠ .symbol .lt) : Reads True (typeShape name) [] .plain s := by
  unfold typeShape
  split
  · exact .decline hk (.pure _)
  · split
    · exact .decline hk (.pure _)
    · split
      · exact .current (.neg hl (.decline hk (.pure _)))
      · exact .pure _

theorem reads_typeShape_angle {name : String} (shape : TypeShape)
    (h : (name, shape) ∈ [("ARRAY", .array), ("MAP", .map), ("STRUCT", .struct)]) :
    Reads True (typeShape name.toUpper) [.mark (.sign .lt)] shape s := by
  simp only [List.mem_cons, Prod.mk.injEq, List.not_mem_nil, or_false] at h
  obtain ⟨rfl, rfl⟩ | ⟨rfl, rfl⟩ | ⟨rfl, rfl⟩ := h
  · exact .pos (by decide +kernel) (.accept rfl (.pure _))
  · exact .neg (by decide +kernel) (.pos (by decide +kernel) (.accept rfl (.pure _)))
  · refine .neg (by decide +kernel) (.neg (by decide +kernel) (.pos (by decide +kernel) ?_))
    exact .current (.neg (by simp [Symbol.text]) (.accept rfl (.pure _)))

/-- A type whose name is read first. -/
theorem reads_dataTypeOf {part : Parser DataType} {t : Token} {name : String} (ts us : List Token)
    {shape : TypeShape} {a : DataType} (ht : t.name? d = some name)
    (hshape : Reads True (typeShape name.toUpper) ts shape (s.push us))
    (h : Reads True (do
      match shape with
      | .emptyStruct => return .struct []
      | .array =>
        let element ← part
        expect (.symbol .gt)
        return .array element
      | .map =>
        let key ← part
        expect (.symbol .comma)
        let value ← part
        expect (.symbol .gt)
        return .map key value
      | .struct =>
        let fields ← commaList (structField d part)
        expect (.symbol .gt)
        return .struct fields
      | .plain =>
        if ← accept (.symbol .leftParen) then
          let parameters ← commaList typeParameter
          expect (.symbol .rightParen)
          return .sized name.toUpper parameters
        else return .simple name.toUpper) us a s) :
    Reads True (dataTypeOf d part) (t :: (ts ++ us)) a s := by
  refine .current ?_
  simp only [TokenStream.current_push_cons, ht]
  exact .advance (hshape.after h)

theorem reads_typeParameter (n : UInt32) (s : TokenStream) :
    Reads True typeParameter [.integer n.toNat] n s := by
  have hlt : n.toNat < 2 ^ 32 := n.toNat_lt
  have hvalue : (Int64.ofInt n.toNat).toInt = n.toNat := by
    rw [Int64.ofInt_eq_ofNat, Int64.toInt_ofNat_of_lt (by omega)]
  refine .kind ?_
  show Reads True (if 0 ≤ (Int64.ofInt n.toNat).toInt ∧
    (Int64.ofInt n.toNat).toInt < 0x100000000 then _ else _) _ n s
  rw [hvalue]
  refine .pos ⟨by omega, by omega⟩ (.advance ?_)
  simpa using Reads.pure n

/-- A type begins with a word or a name. -/
theorem current_push_dataType (t : DataType) (s : TokenStream) :
    (s.push (tokens (t.pieces quote))).current.kind ≠ .symbol .colon := by
  have word (text : String) : (Token.word text).kind ≠ .symbol .colon := by
    unfold Token.word Token.bare Lexer.wordKind
    cases Keyword.ofText? text <;> nofun
  have typeName (text : String) : (Token.typeName quote text).kind ≠ .symbol .colon := by
    unfold Token.typeName
    split
    · exact word _
    · exact Token.kind_name_ne_symbol _
  cases t with
  | simple name => simpa [DataType.pieces] using typeName name
  | sized name parameters => simpa [DataType.pieces] using typeName name
  | array element => simpa [DataType.pieces] using word "ARRAY"
  | map key value => simpa [DataType.pieces] using word "MAP"
  | struct fields => cases fields <;> simpa [DataType.pieces] using word "STRUCT"

theorem reads_structField {part : Parser DataType} (hq : d.Unquotes quote) (f : StructField)
    (h : Reads True part (tokens (f.dataType.pieces quote)) f.dataType.upperNames s) :
    Reads True (structField d part) (tokens (f.pieces quote)) f.upperNames s := by
  obtain ⟨name, t⟩ := f
  rw [StructField.pieces, Piece.tokens_fieldName_cons, Piece.tokens_space_cons]
  exact .name (Token.name?_fieldName hq) (.decline (current_push_dataType t s) h.last)

/-- The signs that may stand behind a part of a type. -/
theorem endsType_mark {sign : Symbol} (h : sign ∈ [.gt, .comma, .rightParen]) (ts : List Token) :
    (s.push (.mark (.sign sign) :: ts)).current.EndsType := by
  have : ∀ sign ∈ [Symbol.gt, .comma, .rightParen], (Token.mark (.sign sign)).EndsType := by
    simp only [Token.EndsType]
    decide
  exact this sign h

theorem reads_dataTypeWithin (hq : d.Unquotes quote) (n : Nat) :
    ∀ (t : DataType) {s : TokenStream}, (∀ x ∈ t.nodes, x.Complete) →
      (tokens (t.pieces quote)).length < n → s.current.EndsType →
        Reads True (dataTypeWithin d n) (tokens (t.pieces quote)) t.upperNames s := by
  induction n with
  | zero => exact fun _ _ _ h => absurd h (Nat.not_lt_zero _)
  | succ n ih =>
    intro t s hn hlen hs
    cases t with
    | simple name =>
      obtain ⟨word, hword, hupper⟩ := Token.exists_name?_typeName hq name
      rw [DataType.pieces, Piece.tokens_typeName_cons]
      refine reads_dataTypeOf [] [] hword (reads_typeShape_plain _ hs.1 hs.2.1)
        (.decline hs.2.2 ?_)
      rw [DataType.upperNames, hupper]
      exact .pure _
    | sized name parameters =>
      obtain ⟨word, hword, hupper⟩ := Token.exists_name?_typeName hq name
      have hne : parameters ≠ [] :=
        hn (.dataType (.sized name parameters)) (by simp [DataType.nodes])
      simp only [DataType.pieces, Piece.tokens_typeName_cons, Piece.tokens_parenthesized,
        Piece.tokens_commaSeparated, List.map_map, Function.comp_def, Piece.tokens_integer_cons,
        Piece.tokens_nil]
      refine reads_dataTypeOf [] _ hword
        (reads_typeShape_plain _ (by simp [Symbol.text]) (by simp)) (.accept rfl (.pos rfl ?_))
      rw [DataType.upperNames, hupper]
      refine .after (a := parameters) ?_ (.expect rfl (.pure _))
      have h : Reads (∀ x ∈ parameters, True) (commaList typeParameter) _ (parameters.map id)
          (s.push [.mark (.sign .rightParen)]) :=
        .commaList (c := .mark (.sign .comma)) (F := fun _ => True) rfl
          (fun n _ u _ => reads_typeParameter n u) (fun _ _ => trivial) trivial (by simp) hne
      rw [List.map_id] at h
      exact h.iff (Q := True) (by simp)
    | array element =>
      simp only [DataType.nodes, List.forall_mem_cons] at hn
      simp only [DataType.pieces, List.cons_append, List.nil_append, Piece.tokens_word_cons,
        Piece.tokens_sign_cons, Piece.tokens_append, Piece.tokens_nil, List.length_cons,
        List.length_append] at hlen ⊢
      refine reads_dataTypeOf [_] _ (Token.name?_word d _)
        (reads_typeShape_angle .array (by simp)) ?_
      exact .after (ih element hn.2 (by omega) (endsType_mark (by simp) []))
        (.expect rfl (.pure _))
    | map key value =>
      simp only [DataType.nodes, List.forall_mem_cons, List.forall_mem_append] at hn
      simp only [DataType.pieces, List.cons_append, List.nil_append, Piece.tokens_word_cons,
        Piece.tokens_sign_cons, Piece.tokens_append, Piece.tokens_nil, List.length_cons,
        List.length_append, Piece.tokens_commaSeparated, List.map_cons, List.map_nil,
        List.intercalate_cons_cons, List.intercalate_singleton, List.append_assoc] at hlen ⊢
      refine reads_dataTypeOf [_] _ (Token.name?_word d _)
        (reads_typeShape_angle .map (by simp)) ?_
      exact .after (ih key hn.2.1 (by omega) (endsType_mark (by simp) _)) <| .expect rfl <|
        .after (ih value hn.2.2 (by omega) (endsType_mark (by simp) [])) (.expect rfl (.pure _))
    | struct fields =>
      cases fields with
      | nil =>
        have hshape : Reads True (typeShape "STRUCT".toUpper) [.emptyAngles] .emptyStruct s :=
          .neg (by decide +kernel) (.neg (by decide +kernel) (.pos (by decide +kernel)
            (.current (.pos rfl (.advance (.pure _))))))
        exact reads_dataTypeOf [_] [] (Token.name?_word d _) hshape (.pure _)
      | cons f rest =>
        rw [DataType.nodes, List.forall_mem_cons, forall_fieldsNodes] at hn
        simp only [DataType.pieces, List.cons_append, List.nil_append, Piece.tokens_word_cons,
          Piece.tokens_sign_cons, Piece.tokens_append, Piece.tokens_nil, List.length_cons,
          List.length_append, Piece.tokens_commaSeparated, fieldsPieces_eq_map,
          List.map_map, Function.comp_def] at hlen ⊢
        refine reads_dataTypeOf [_] _ (Token.name?_word d _)
          (reads_typeShape_angle .struct (by simp)) ?_
        rw [DataType.upperNames, fieldsUpperNames_eq_map]
        refine .after (a := (f :: rest).map (·.upperNames)) ?_ (.expect rfl (.pure _))
        have field (x : StructField) (hx : x ∈ f :: rest) (u : TokenStream)
            (hu : u.current.EndsType) :
            Reads True (structField d (dataTypeWithin d n)) (tokens (x.pieces quote)) x.upperNames
              u := by
          have hle := Reads.length_le_intercalate [Token.mark (.sign .comma)]
            (List.mem_map_of_mem (f := fun x => tokens (StructField.pieces quote x)) hx)
          refine reads_structField hq x (ih x.dataType (hn.2 x hx).2 ?_ hu)
          simp only [StructField.pieces, Piece.tokens_fieldName_cons, Piece.tokens_space_cons,
            List.length_cons] at hle hlen ⊢
          omega
        have h := Reads.commaList (s := s.push [.mark (.sign .gt)]) (C := fun _ => True)
          (c := .mark (.sign .comma)) (F := fun u => u.current.EndsType) rfl field
          (fun u hu => by rw [hu]; exact endsType_mark (s := u) (by simp) [])
          (endsType_mark (by simp) []) (by simp) (List.cons_ne_nil f rest)
        exact h.iff (Q := True) (by simp)

theorem reads_dataType (hq : d.Unquotes quote) {t : DataType} (hn : ∀ x ∈ t.nodes, x.Complete)
    (hs : s.current.EndsType) :
    Reads True (dataType d) (tokens (t.pieces quote)) t.upperNames s :=
  .of_eq (q := dataTypeWithin d ((s.push (tokens (t.pieces quote))).rest.length + 1)) rfl
    (reads_dataTypeWithin hq _ t hn
      (by simp only [TokenStream.rest_push, List.length_append]; omega) hs)

end Parser

end SqlDialects
