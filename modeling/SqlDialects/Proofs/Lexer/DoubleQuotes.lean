import SqlDialects.Proofs.Lexer.Rescan

/-!
# Names in double quotes

A name in double quotes is read as a string, in which backslashes are escapes. Main statement: which
names can be written like that.
-/

namespace SqlDialects.Lexer

/-- Reading from the left, no backslash that belongs with the character behind it is the last
character of the name or stands before a double quote. -/
def survives : List Char → Bool
  | '\\' :: c :: rest => c ≠ '\x22' && survives rest
  | ['\\'] => false
  | _ :: rest => survives rest
  | [] => true

/-- A name can be written in double quotes. -/
def Survives (name : String) : Prop :=
  survives name.toList = true

instance : DecidablePred Survives := fun _ => inferInstanceAs (Decidable (_ = _))

theorem survives_plain {c : Char} (hc : c ≠ '\\') (rest : List Char) :
    survives (c :: rest) = survives rest := by
  rw [survives] <;> simp_all

/-! ## Bodies of strings -/

section StringBody

variable {quote c d : Char} {body : List Char}

theorem stringBody_escape_iff (hq : quote ≠ '\\') :
    StringBody quote ('\\' :: c :: body) ↔ StringBody quote body := by
  refine ⟨fun h => ?_, .escape c⟩
  cases h with
  | escape _ h => exact h
  | doubled => exact absurd rfl hq
  | plain _ he => exact absurd rfl he

theorem stringBody_doubled_iff (hq : quote ≠ '\\') :
    StringBody quote (quote :: quote :: body) ↔ StringBody quote body := by
  refine ⟨fun h => ?_, .doubled⟩
  cases h with
  | escape => exact absurd rfl hq
  | doubled h => exact h
  | plain hc => exact absurd rfl hc

theorem stringBody_plain_iff (hc : c ≠ quote) (he : c ≠ '\\') :
    StringBody quote (c :: body) ↔ StringBody quote body := by
  refine ⟨fun h => ?_, .plain hc he⟩
  cases h with
  | escape => exact absurd rfl he
  | doubled => exact absurd rfl hc
  | plain _ _ h => exact h

/-- A quote that stands alone is in no body of a string. -/
theorem not_stringBody_lone (hq : quote ≠ '\\') (hd : body.head? ≠ some quote) :
    ¬ StringBody quote (quote :: body) := by
  intro h
  cases h with
  | escape => exact hq rfl
  | doubled => exact hd rfl
  | plain hc => exact hc rfl

theorem not_stringBody_backslash (hq : quote ≠ '\\') : ¬ StringBody quote ['\\'] := by
  intro h
  cases h with
  | plain _ he => exact he rfl

end StringBody

theorem not_stringBody_cons_double {quote : Char} (hq : quote ≠ '\\') (name : List Char) :
    ¬ StringBody quote (quote :: double quote name) := by
  induction name with
  | nil => exact not_stringBody_lone hq (by simp [double])
  | cons c rest ih =>
    by_cases hc : c = quote
    · rw [double, if_pos hc, stringBody_doubled_iff hq]
      exact ih
    · rw [double, if_neg hc]
      exact not_stringBody_lone hq (by simpa using hc)

/-- The doubled name is the body of a string exactly if the name survives. -/
theorem stringBody_double_iff (name : List Char) :
    StringBody '\x22' (double '\x22' name) ↔ survives name = true := by
  have hq : '\x22' ≠ '\\' := by decide
  fun_induction survives name with
  | case1 c rest ih =>
    rw [double, if_neg (Ne.symm hq)]
    by_cases hc : c = '\x22'
    · rw [double, if_pos hc, stringBody_escape_iff hq]
      simp [hc, not_stringBody_cons_double hq]
    · rw [double, if_neg hc, stringBody_escape_iff hq]
      exact ih.trans (by simp [hc])
  | case2 => simpa [double] using not_stringBody_backslash hq
  | case3 c rest hne hne' ih =>
    have he : c ≠ '\\' := by
      rintro rfl
      cases rest with
      | nil => exact hne' rfl rfl
      | cons d rest => exact hne d rest rfl rfl
    by_cases hc : c = '\x22'
    · rw [double, if_pos hc, stringBody_doubled_iff hq]
      exact ih
    · rw [double, if_neg hc, stringBody_plain_iff hc he]
      exact ih
  | case4 => simpa [double] using .nil

end SqlDialects.Lexer
