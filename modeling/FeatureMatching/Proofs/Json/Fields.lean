import Mathlib
import FeatureMatching.Json.Value
import FeatureMatching.Proofs.Float.Widening

/-!
# The fields of a stored record

A reader looks a record's fields up by name, so of an object it sees which value stands under each
of these names, and neither the order of the members nor members of other names. `Presents` is the
relation between a list of fields and the trees that a reader takes for it: the objects with these
members among others, in any order, and the array of the values. All of them give a reader the same
fields (`Presents.fields?_eq`); a tree that lacks a field gives it none
(`Incomplete.fields?_eq`).

The second half is about the values of fields: which trees are read as the number or the list that
they were written for.
-/

set_option autoImplicit false

namespace FeatureMatching.Json

/-! ## Looking up a name -/

section Lookup

variable {name : String} {members present : List (String × Value)}

theorem mem_of_lookup_eq_some {v : Value} (h : members.lookup name = some v) :
    (name, v) ∈ members := by
  obtain ⟨before, after, rfl, -⟩ := List.lookup_eq_some_iff.mp h
  exact List.mem_append_right _ List.mem_cons_self

theorem lookup_eq_some_of_mem (hnodup : (members.map Prod.fst).Nodup) {v : Value}
    (h : (name, v) ∈ members) : members.lookup name = some v := by
  have hsome : (members.lookup name).isSome = true :=
    List.lookup_isSome_iff.mpr ⟨(name, v), h, beq_self_eq_true name⟩
  obtain ⟨w, hw⟩ := Option.isSome_iff_exists.mp hsome
  have hsame : w = v :=
    congrArg Prod.snd (List.inj_on_of_nodup_map hnodup (mem_of_lookup_eq_some hw) h rfl)
  rw [hw, hsame]

/-- A lookup depends on the members of that name only. -/
theorem lookup_eq_of_mem_iff (hnodup : (present.map Prod.fst).Nodup)
    (h : ∀ v, (name, v) ∈ members ↔ (name, v) ∈ present) :
    members.lookup name = present.lookup name := by
  cases hlookup : members.lookup name with
  | some v => rw [lookup_eq_some_of_mem hnodup ((h v).mp (mem_of_lookup_eq_some hlookup))]
  | none =>
    refine (List.lookup_eq_none_iff.mpr fun p hp => ?_).symm
    by_contra hne
    have hname : name = p.1 := by simpa using hne
    have hmem : (name, p.2) ∈ members := (h p.2).mpr (hname ▸ hp)
    have hno := List.lookup_eq_none_iff.mp hlookup _ hmem
    simp at hno

/-- Of a part of the members a lookup finds those that are in the part. -/
theorem lookup_of_sublist (hnodup : (members.map Prod.fst).Nodup)
    (h : present.Sublist members) :
    present.lookup name = if name ∈ present.map Prod.fst then members.lookup name else none := by
  split
  · rename_i hname
    obtain ⟨⟨_, v⟩, hp, rfl⟩ := List.mem_map.mp hname
    rw [lookup_eq_some_of_mem hnodup (h.subset hp),
      lookup_eq_some_of_mem ((h.map _).nodup hnodup) hp]
  · rename_i hname
    refine List.lookup_eq_none_iff.mpr fun p hp => ?_
    exact bne_iff_ne.mpr fun heq => hname (heq ▸ List.mem_map_of_mem hp)

end Lookup

/-! ## Trees that present a list of fields -/

/-- The members of an object. -/
def Value.members : Value → List (String × Value)
  | .object members => members
  | _ => []

/-- The trees in which a record with the given field names has the given fields: an object that has
them in any order, with members of other names, or the array of the values of the first fields. -/
inductive Presents (names : List String) (present : List (String × Value)) : Value → Prop where
  | object (members unknown : List (String × Value)) (order : members.Perm (present ++ unknown))
      (ignored : ∀ p ∈ unknown, p.1 ∉ names) : Presents names present (.object members)
  | array (values : List Value) (fits : values.length ≤ names.length)
      (inOrder : present = names.zip values) : Presents names present (.array values)

/-- **A reader cannot tell the trees apart.** -/
theorem Presents.fields?_eq {names : List String} {present : List (String × Value)} {v : Value}
    (h : Presents names present v) (hnodup : (present.map Prod.fst).Nodup) :
    ∃ fields, fields? names v = some fields ∧
      ∀ name ∈ names, fields name = present.lookup name := by
  cases h with
  | object members unknown order ignored =>
    refine ⟨_, rfl, fun name hname => lookup_eq_of_mem_iff hnodup fun w => ?_⟩
    rw [order.mem_iff, List.mem_append, or_iff_left]
    exact fun hunknown => ignored _ hunknown hname
  | array values fits inOrder =>
    exact ⟨_, if_pos fits, fun name _ => by rw [inOrder]⟩

/-- Of a record whose fields are partly given a reader finds that part. -/
theorem Presents.fields?_of_sublist {names : List String} {present all : List (String × Value)}
    {v : Value} (h : Presents names present v) (hpart : present.Sublist all)
    (hnames : all.map Prod.fst = names) (hnodup : names.Nodup) :
    ∃ fields, fields? names v = some fields ∧
      ∀ p ∈ all, fields p.1 = if p.1 ∈ present.map Prod.fst then some p.2 else none := by
  subst hnames
  obtain ⟨fields, hfields, hlookup⟩ := h.fields?_eq ((hpart.map _).nodup hnodup)
  refine ⟨fields, hfields, fun p hp => ?_⟩
  rw [hlookup _ (List.mem_map_of_mem hp), lookup_of_sublist hnodup hpart,
    lookup_eq_some_of_mem hnodup hp]

theorem Presents.fields?_of_all {names : List String} {all : List (String × Value)} {v : Value}
    (h : Presents names all v) (hnames : all.map Prod.fst = names) (hnodup : names.Nodup) :
    ∃ fields, fields? names v = some fields ∧ ∀ p ∈ all, fields p.1 = some p.2 := by
  obtain ⟨fields, hfields, hall⟩ := h.fields?_of_sublist (List.Sublist.refl all) hnames hnodup
  exact ⟨fields, hfields, fun p hp => (hall p hp).trans (if_pos (List.mem_map_of_mem hp))⟩

theorem Presents.self (names : List String) (all : List (String × Value)) :
    Presents names all (.object all) :=
  .object all [] (by rw [List.append_nil]) (by simp)

/-- An object without a member of one of the names, or an array with fewer values than names. -/
inductive Incomplete (names : List String) : Value → Prop where
  | object (members : List (String × Value)) (name : String) (isField : name ∈ names)
      (missing : ∀ p ∈ members, p.1 ≠ name) : Incomplete names (.object members)
  | array (values : List Value) (short : values.length < names.length) :
      Incomplete names (.array values)

theorem Incomplete.fields?_eq {names : List String} {v : Value} (h : Incomplete names v)
    (hnodup : names.Nodup) :
    ∃ fields, fields? names v = some fields ∧ ∃ name ∈ names, fields name = none := by
  cases h with
  | object members name isField missing =>
    refine ⟨_, rfl, name, isField, List.lookup_eq_none_iff.mpr fun p hp => ?_⟩
    exact bne_iff_ne.mpr (missing p hp).symm
  | array values short =>
    -- The first field that the array is too short for.
    refine ⟨_, if_pos short.le, names[values.length], List.getElem_mem short, ?_⟩
    refine List.lookup_eq_none_iff.mpr fun p hp => bne_iff_ne.mpr fun heq => ?_
    obtain ⟨i, hi, rfl⟩ := List.getElem_of_mem hp
    rw [List.getElem_zip, hnodup.getElem_inj_iff] at heq
    simp at hi
    omega

namespace Fields

variable {α : Type} {fields : Fields} {name : String} {v : Value} {read : Value → Option α}

theorem required_of_some (h : fields name = some v) : fields.required name read = read v := by
  rw [required, h, Option.bind_some]

theorem required_of_none (h : fields name = none) : fields.required name read = none := by
  rw [required, h, Option.bind_none]

theorem optional_of_some (h : fields name = some v) (otherwise : α) :
    fields.optional name read otherwise = read v := by
  rw [optional, h]

/-- A field that may be missing is read if it is there. -/
theorem optional_of_ite {p : Prop} [Decidable p] (h : fields name = if p then some v else none)
    {x : α} (hread : read v = some x) (otherwise : α) :
    fields.optional name read otherwise = some (if p then x else otherwise) := by
  rw [optional, h]
  split <;> simp_all

end Fields

/-! ## The values of fields -/

namespace Value

@[simp] theorem toBool?_bool (b : Bool) : (Value.bool b).toBool? = some b := rfl

@[simp] theorem toNat?_ofNat (n : Nat) : (ofNat n).toNat? = some n := by
  simp [ofNat, toNat?]

theorem toFloat?_ofFloat (x : Float) :
    (ofFloat x).toFloat? = if x.isFinite then some x else none := by
  unfold ofFloat
  split <;> rfl

/-- A binary32 value is written exactly, so reading it back rounds nothing. -/
theorem toFloat32?_ofFloat32 (x : Float32) :
    (ofFloat32 x).toFloat32? = if x.isFinite then some x else none := by
  unfold ofFloat32 ofFloat
  rw [Numeric.isFinite_widen]
  split
  · exact congrArg some (Numeric.narrow_widen x)
  · rfl

theorem isFinite_of_toFloat? {x y : Float} (h : (ofFloat x).toFloat? = some y) :
    x.isFinite = true :=
  (Option.ite_none_right_eq_some.mp ((toFloat?_ofFloat x).symm.trans h)).1

theorem isFinite_of_toFloat32? {x y : Float32} (h : (ofFloat32 x).toFloat32? = some y) :
    x.isFinite = true :=
  (Option.ite_none_right_eq_some.mp ((toFloat32?_ofFloat32 x).symm.trans h)).1

variable {α : Type} {read : Value → Option α}

/-- A list is read if every element is. -/
theorem toList?_of_forall₂ {xs : List α} {values : List Value}
    (h : List.Forall₂ (fun x v => read v = some x) xs values) :
    (Value.array values).toList? read = some xs := by
  show values.mapM read = some xs
  induction h with
  | nil => rfl
  | cons hx _ ih =>
    rw [List.mapM_cons, hx, ih]
    rfl

theorem toList?_eq_none {values : List Value} (h : ∃ v ∈ values, read v = none) :
    (Value.array values).toList? read = none := by
  show values.mapM read = none
  induction values with
  | nil => simp at h
  | cons v rest ih =>
    obtain ⟨w, hw, hnone⟩ := h
    rw [List.mapM_cons]
    rcases List.mem_cons.mp hw with rfl | hrest
    · rw [hnone]
      rfl
    · rw [ih ⟨w, hrest, hnone⟩]
      exact Option.bind_fun_none _

end Value

end FeatureMatching.Json
