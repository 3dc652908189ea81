import Mathlib.Data.List.Forall2
import SqlDialects.Tree.Decoding

/-!
# Looser forms of a JSON value

A structure may be written without those of its fields that are absent, and with members that it
has no field for. Main statements: a reader that takes every looser form of some values takes every
looser form of the list, the alternative and the structure made of them.
-/

namespace SqlDialects.Json

/-- The name of an alternative is capitalized, and that of a field is not. -/
def namesAlternative (name : String) : Bool :=
  name.toList.head?.any Char.isUpper

/-- Names that the fields of a structure may have. -/
def AreFields (names : List String) : Prop :=
  names.Nodup ∧ ∀ name ∈ names, namesAlternative name = false

instance (names : List String) : Decidable (AreFields names) :=
  inferInstanceAs (Decidable (_ ∧ _))

/-- Members that stand for those of a structure: related values, save that a member that is `null`
may be missing, and that members with the names `added` are put between them. -/
inductive MembersOf (R : Json → Json → Prop) :
    List String → List (String × Json) → List (String × Json) → Prop
  | nil : MembersOf R [] [] []
  | keep {added : List String} {name : String} {value value' : Json}
      {members members' : List (String × Json)} (hvalue : R value value')
      (h : MembersOf R added members members') :
      MembersOf R added ((name, value) :: members) ((name, value') :: members')
  | drop {added : List String} {name : String} {members members' : List (String × Json)}
      (h : MembersOf R added members members') :
      MembersOf R added ((name, .null) :: members) members'
  | add {added : List String} {name : String} {value : Json}
      {members members' : List (String × Json)} (h : MembersOf R added members members') :
      MembersOf R (name :: added) members ((name, value) :: members')

/-- The same value, save that in structures at any depth members that are `null` may be missing, and
members that are none of the fields may have been added. -/
inductive Loosened : Json → Json → Prop
  | refl (j : Json) : Loosened j j
  | array {items items' : List Json} (h : List.Forall₂ Loosened items items') :
      Loosened (.array items) (.array items')
  | alternative {name : String} {contents contents' : Json} (hname : namesAlternative name = true)
      (h : Loosened contents contents') :
      Loosened (.object [(name, contents)]) (.object [(name, contents')])
  | fields {added : List String} {members members' : List (String × Json)}
      (hnames : AreFields (members.map Prod.fst)) (h : MembersOf Loosened added members members')
      (hadded : ∀ name ∈ added, name ∉ members.map Prod.fst) :
      Loosened (.object members) (.object members')

theorem MembersOf.refl {R : Json → Json → Prop} (hR : ∀ j, R j j)
    (members : List (String × Json)) : MembersOf R [] members members := by
  induction members with
  | nil => exact .nil
  | cons m _ ih => exact .keep (hR m.2) ih

/-! ## What a looser form of a value looks like -/

namespace Loosened

variable {j : Json}

theorem eq_string {text : String} (h : Loosened (.string text) j) : j = .string text := by
  cases h
  rfl

theorem eq_boolean {value : Bool} (h : Loosened (.boolean value) j) : j = .boolean value := by
  cases h
  rfl

theorem eq_integer {value : Int} (h : Loosened (.integer value) j) : j = .integer value := by
  cases h
  rfl

theorem exists_items {items : List Json} (h : Loosened (.array items) j) :
    ∃ items', j = .array items' ∧ List.Forall₂ Loosened items items' := by
  cases h with
  | refl => exact ⟨items, rfl, List.forall₂_same.mpr fun _ _ => .refl _⟩
  | array h => exact ⟨_, rfl, h⟩

theorem exists_contents {name : String} {contents : Json} (hname : namesAlternative name = true)
    (h : Loosened (.tagged name contents) j) :
    ∃ contents', j = .tagged name contents' ∧ Loosened contents contents' := by
  cases h with
  | refl => exact ⟨contents, rfl, .refl _⟩
  | alternative _ h => exact ⟨_, rfl, h⟩
  | fields hnames => simp [hnames.2 name (by simp)] at hname

theorem exists_members {members : List (String × Json)} (hnames : AreFields (members.map Prod.fst))
    (h : Loosened (.object members) j) :
    ∃ members' added, j = .object members' ∧ MembersOf Loosened added members members' ∧
      ∀ name ∈ added, name ∉ members.map Prod.fst := by
  cases h with
  | refl => exact ⟨members, [], rfl, .refl .refl members, nofun⟩
  | alternative hname => simp [hnames.2 _ (List.mem_singleton_self _)] at hname
  | fields _ h hadded => exact ⟨_, _, rfl, h, hadded⟩

end Loosened

/-! ## Members by their names -/

theorem field?_eq_none {name : String} {members : List (String × Json)} :
    field? name members = none ↔ name ∉ members.map Prod.fst := by
  induction members with
  | nil => simp [field?]
  | cons m rest ih =>
    obtain ⟨key, value⟩ := m
    simp only [field?, Option.or_eq_none_iff, ih, List.map_cons, List.mem_cons, not_or]
    split <;> simp_all [eq_comm]

theorem depth_of_field? {name : String} {members : List (String × Json)} {value : Json}
    (h : field? name members = some value) : value.depth ≤ depthOfMembers members := by
  induction members with
  | nil => cases h
  | cons m rest ih =>
    obtain ⟨key, other⟩ := m
    rw [field?, Option.or_eq_some_iff] at h
    rw [depthOfMembers]
    rcases h with h | ⟨-, h⟩
    · have := ih h
      omega
    · split at h
      · cases h
        omega
      · cases h

theorem optional_of_ne_null {α : Type} {name : String} {members : List (String × Json)}
    {value : Json} {decode : Json → Option α} (hfield : field? name members = some value)
    (hvalue : value ≠ .null) : optional members name decode = (decode value).map some := by
  rw [optional, hfield]
  cases value with
  | null => exact absurd rfl hvalue
  | _ => rfl

namespace MembersOf

variable {R : Json → Json → Prop} {added : List String} {members members' : List (String × Json)}
  {name : String} {value : Json}

theorem field?_of_eq_none (h : MembersOf R added members members') (hname : name ∉ added)
    (hfield : field? name members = none) : field? name members' = none := by
  rw [field?_eq_none] at hfield ⊢
  induction h with
  | nil => exact hfield
  | keep _ _ ih =>
    simp only [List.map_cons, List.mem_cons, not_or] at hfield ⊢
    exact ⟨hfield.1, ih hname hfield.2⟩
  | drop _ ih => exact ih hname fun hmem => hfield (List.mem_cons_of_mem _ hmem)
  | add _ ih =>
    simp only [List.mem_cons, not_or] at hname
    simp only [List.map_cons, List.mem_cons, not_or]
    exact ⟨hname.1, ih hname.2 hfield⟩

/-- The value of a field is a related one, or is missing where it was `null`. -/
theorem field?_of_eq_some (h : MembersOf R added members members')
    (hnodup : (members.map Prod.fst).Nodup) (hname : name ∉ added)
    (hfield : field? name members = some value) :
    (∃ value', field? name members' = some value' ∧ R value value') ∨
      value = .null ∧ field? name members' = none := by
  induction h with
  | nil => cases hfield
  | @keep _ key v v' rest rest' hvalue h ih =>
    obtain ⟨hkey, hnodup⟩ := List.nodup_cons.mp hnodup
    rw [field?, Option.or_eq_some_iff] at hfield
    rcases hfield with hfield | ⟨hnone, hfield⟩
    · have hne : key ≠ name := by
        rintro rfl
        exact absurd (field?_eq_none.mpr hkey) (by simp [hfield])
      simpa [field?, hne] using ih hnodup hname hfield
    · split at hfield
      · subst key
        cases hfield
        exact .inl ⟨v', by simp [field?, h.field?_of_eq_none hname hnone], hvalue⟩
      · cases hfield
  | @drop _ key rest rest' h ih =>
    obtain ⟨hkey, hnodup⟩ := List.nodup_cons.mp hnodup
    rw [field?, Option.or_eq_some_iff] at hfield
    rcases hfield with hfield | ⟨hnone, hfield⟩
    · exact ih hnodup hname hfield
    · split at hfield
      · cases hfield
        exact .inr ⟨rfl, h.field?_of_eq_none hname hnone⟩
      · cases hfield
  | @add _ key v _ _ h ih =>
    simp only [List.mem_cons, not_or] at hname
    simpa [field?, Ne.symm hname.1] using ih hnodup hname.2 hfield

end MembersOf

/-! ## Readers -/

/-- A value that is there, all of whose looser forms a reader takes for `a` if its bound is above
their depth. -/
structure ReadAs {α : Type} (reader : Nat → Json → Option α) (j : Json) (a : α) : Prop where
  ne_null : j ≠ .null
  eq_some ⦃j' : Json⦄ ⦃n : Nat⦄ (h : Loosened j j') (hn : j'.depth < n) : reader n j' = some a

/-- A value that may be absent. -/
def ReadAsOption {α : Type} (reader : Nat → Json → Option α) (j : Json) : Option α → Prop
  | none => j = .null
  | some a => ReadAs reader j a

/-- Members that stand for the fields of a structure, with values that are less deep than `n`. -/
structure FieldsWithin (n : Nat) (members members' : List (String × Json)) : Prop where
  nodup : (members.map Prod.fst).Nodup
  membersOf : ∃ added, MembersOf Loosened added members members' ∧
    ∀ name ∈ added, name ∉ members.map Prod.fst
  depth_lt : depthOfMembers members' < n

section Readers

variable {α β : Type} {reader : Nat → Json → Option α} {reader' : Nat → Json → Option β}
  {n : Nat} {members members' : List (String × Json)} {name : String} {value contents : Json}
  {a : α} {b : β}

namespace FieldsWithin

/-- A looser form of a structure has members for its fields. -/
theorem exists_of_loosened {j : Json} (hnames : AreFields (members.map Prod.fst))
    (h : Loosened (.object members) j) (hn : j.depth < n + 1) :
    ∃ members', j = .object members' ∧ FieldsWithin n members members' := by
  obtain ⟨members', added, rfl, hloosened, hadded⟩ := h.exists_members hnames
  rw [depth] at hn
  exact ⟨members', rfl, hnames.1, ⟨added, hloosened, hadded⟩, Nat.lt_of_succ_lt_succ hn⟩

theorem field? (hm : FieldsWithin n members members')
    (hfield : Json.field? name members = some value) :
    (∃ value', Json.field? name members' = some value' ∧ Loosened value value' ∧ value'.depth < n) ∨
      value = .null ∧ Json.field? name members' = none := by
  obtain ⟨added, hmembers, hadded⟩ := hm.membersOf
  have hname : name ∉ added := fun hname =>
    hadded name hname (by by_contra h; simp [field?_eq_none.mpr h] at hfield)
  rcases hmembers.field?_of_eq_some hm.nodup hname hfield with ⟨value', hfield', hvalue⟩ | hnone
  · exact .inl ⟨value', hfield', hvalue, Nat.lt_of_le_of_lt (depth_of_field? hfield') hm.depth_lt⟩
  · exact .inr hnone

theorem required (hm : FieldsWithin n members members') (name : String)
    (hfield : Json.field? name members = some value) (h : ReadAs reader value a) :
    Json.required members' name (reader n) = some a := by
  rcases hm.field? hfield with ⟨value', hfield', hvalue, hdepth⟩ | ⟨hnull, -⟩
  · rw [Json.required, hfield', Option.bind_some, h.eq_some hvalue hdepth]
  · exact absurd hnull h.ne_null

theorem optional {o : Option α} (hm : FieldsWithin n members members') (name : String)
    (hfield : Json.field? name members = some value) (h : ReadAsOption reader value o) :
    Json.optional members' name (reader n) = some o := by
  rcases hm.field? hfield with ⟨value', hfield', hvalue, hdepth⟩ | ⟨hnull, hfield'⟩
  · cases o with
    | none =>
      obtain rfl : value = .null := h
      cases hvalue
      rw [Json.optional, hfield']
    | some a =>
      have h : ReadAs reader value a := h
      have hne : value' ≠ .null := by
        rintro rfl
        cases hvalue
        exact h.ne_null rfl
      rw [optional_of_ne_null hfield' hne, h.eq_some hvalue hdepth, Option.map_some]
  · cases o with
    | none => rw [Json.optional, hfield']
    | some a => exact absurd hnull (ReadAs.ne_null h)

end FieldsWithin

theorem mapM_eq_some {items items' : List Json} {list : List α}
    (h : List.Forall₂ (ReadAs reader) items list) (hitems : List.Forall₂ Loosened items items')
    (hn : depthOfItems items' < n) : items'.mapM (reader n) = some list := by
  induction h generalizing items' with
  | nil =>
    cases hitems
    rfl
  | cons hitem _ ih =>
    cases hitems with
    | cons hloosened hitems =>
      rw [depthOfItems] at hn
      have hfirst := hitem.eq_some hloosened (n := n) (by omega)
      have hrest := ih hitems (by omega)
      simp [List.mapM_cons, hfirst, hrest]

namespace ReadAs

theorem list {items : List Json} {list : List α} (h : List.Forall₂ (ReadAs reader) items list) :
    ReadAs (fun n => listOf? (reader n)) (.array items) list where
  ne_null := nofun
  eq_some j' n hj hn := by
    obtain ⟨items', rfl, hitems⟩ := hj.exists_items
    rw [depth] at hn
    exact mapM_eq_some h hitems (by omega)

/-- A pair whose parts are read below it. -/
theorem pair {γ : Type} {first second : Json} {reader'' : Nat → Json → Option γ} {c : γ}
    (hfirst : ReadAs reader' first b) (hsecond : ReadAs reader'' second c)
    (h : ∀ n first' second', reader' n first' = some b → reader'' n second' = some c →
      reader (n + 1) (.array [first', second']) = some a) :
    ReadAs reader (.array [first, second]) a where
  ne_null := nofun
  eq_some j' n hj hn := by
    obtain ⟨_, rfl, _ | ⟨hloosened, _ | ⟨hloosened', _ | _⟩⟩⟩ := hj.exists_items
    simp only [depth, depthOfItems] at hn
    obtain ⟨n, rfl⟩ := Nat.exists_eq_add_of_lt (Nat.zero_lt_of_lt hn)
    exact h _ _ _ (hfirst.eq_some hloosened (by omega)) (hsecond.eq_some hloosened' (by omega))

/-- An alternative whose contents are read below it. -/
theorem alternative (hname : namesAlternative name = true) (hcontents : ReadAs reader' contents b)
    (h : ∀ n contents', reader' n contents' = some b →
      reader (n + 1) (.tagged name contents') = some a) :
    ReadAs reader (.tagged name contents) a where
  ne_null := nofun
  eq_some j' n hj hn := by
    obtain ⟨contents', rfl, hloosened⟩ := hj.exists_contents hname
    simp only [tagged, depth, depthOfMembers] at hn
    obtain ⟨n, rfl⟩ := Nat.exists_eq_add_of_lt (Nat.zero_lt_of_lt hn)
    exact h _ _ (hcontents.eq_some hloosened (by omega))

/-- A structure whose fields are read below it. -/
theorem fields (names : List String) (hnames : AreFields names)
    (hmembers : members.map Prod.fst = names) (h : ∀ n members', FieldsWithin n members members' →
      reader (n + 1) (.object members') = some a) : ReadAs reader (.object members) a where
  ne_null := nofun
  eq_some j' n hj hn := by
    obtain ⟨n, rfl⟩ := Nat.exists_eq_add_of_lt (Nat.zero_lt_of_lt hn)
    obtain ⟨members', rfl, hm⟩ :=
      FieldsWithin.exists_of_loosened (n := 0 + n) (hmembers ▸ hnames) hj hn
    exact h _ _ hm

/-- An alternative with named fields. -/
theorem alternativeFields (hname : namesAlternative name = true) (names : List String)
    (hnames : AreFields names) (hmembers : members.map Prod.fst = names)
    (h : ∀ n members', FieldsWithin n members members' →
      reader (n + 1) (.tagged name (.object members')) = some a) :
    ReadAs reader (.tagged name (.object members)) a where
  ne_null := nofun
  eq_some j' n hj hn := by
    obtain ⟨contents', rfl, hcontents⟩ := hj.exists_contents hname
    simp only [tagged, depth, depthOfMembers, Nat.max_zero] at hn
    obtain ⟨n, rfl⟩ := Nat.exists_eq_add_of_lt (Nat.zero_lt_of_lt hn)
    obtain ⟨members', rfl, hm⟩ :=
      FieldsWithin.exists_of_loosened (n := 0 + n) (hmembers ▸ hnames) hcontents (by omega)
    exact h _ _ hm

end ReadAs

end Readers

end SqlDialects.Json
