import SqlDialects.Keyword
import SqlDialects.Word

/-!
# Words in upper case

Writing a word in upper case changes neither whether it is a word nor which keyword it spells.
-/

namespace SqlDialects

theorem toUpper_of_not_lower {c : Char} (h : ¬ (97 ≤ c.toNat ∧ c.toNat ≤ 122)) :
    c.toUpper = c := by
  unfold Char.toUpper
  exact dif_neg h

/-- What holds of the characters below 128 holds of every ASCII character. -/
theorem forall_ascii {P : Char → Prop} (h : ∀ n : Fin 128, P (Char.ofNat n)) (c : Char)
    (hc : c.toNat < 128) : P c := by
  simpa using h ⟨c.toNat, hc⟩

/-- A property of characters that only depends on themselves beyond ASCII, and does not tell apart
the two cases of ASCII letters. -/
private theorem congr_toUpper {α : Type} (f : Char → α)
    (h : ∀ n : Fin 128, f (Char.ofNat n).toUpper = f (Char.ofNat n)) (c : Char) :
    f c.toUpper = f c := by
  by_cases hc : c.toNat < 128
  · exact forall_ascii (P := fun c => f c.toUpper = f c) h c hc
  · rw [toUpper_of_not_lower (by omega)]

private theorem toUpper_char (c : Char) : c.toUpper.toUpper = c.toUpper :=
  congr_toUpper Char.toUpper (by decide) c

theorem isWordStart_toUpper (c : Char) : isWordStart c.toUpper = isWordStart c :=
  congr_toUpper isWordStart (by decide) c

theorem isWordPart_toUpper (c : Char) : isWordPart c.toUpper = isWordPart c :=
  congr_toUpper isWordPart (by decide) c

@[simp] theorem toList_toUpper (w : String) :
    w.toUpper.toList = w.toList.map Char.toUpper :=
  String.toList_map

@[simp] theorem toUpper_toUpper (w : String) : w.toUpper.toUpper = w.toUpper := by
  apply String.toList_injective
  rw [toList_toUpper, toList_toUpper, List.map_map]
  exact List.map_congr_left fun c _ => toUpper_char c

@[simp] theorem isBareWord_toUpper (w : String) : isBareWord w.toUpper = isBareWord w := by
  unfold isBareWord
  rw [toList_toUpper]
  cases w.toList with
  | nil => rfl
  | cons c rest => simp [isWordStart_toUpper, isWordPart_toUpper, Function.comp_def]

@[simp] theorem Keyword.ofText?_toUpper (w : String) : ofText? w.toUpper = ofText? w := by
  simp [ofText?]

theorem Keyword.ofText?_text (k : Keyword) : ofText? k.text = some k := by
  cases k <;> decide +kernel

end SqlDialects
