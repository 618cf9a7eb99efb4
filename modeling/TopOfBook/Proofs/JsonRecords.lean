import Mathlib.Data.Finset.Insert
import Mathlib.Data.List.Nodup
import TopOfBook.Json.Record
import TopOfBook.Proofs.JsonText

/-!
What is written in JSON reads back, for records: numbers, lists and records by name. A record
can be read with some of its fields left out, and each of these then has its default.
-/

namespace TopOfBook.Json

/-! ### Simple values -/

theorem Literal.toInt?_ofNat (n : Nat) : (ofNat n).toInt? = some n := by
  simp only [toInt?, ofNat, Digit.value_ofNat]
  rfl

theorem Literal.toNatBelow?_ofNat {n bound : Nat} (h : n < bound) :
    (ofNat n).toNatBelow? bound = some n := by
  rw [toNatBelow?, toInt?_ofNat]
  exact if_pos h

theorem toUInt64?_nat (x : UInt64) : toUInt64? (.nat x.toNat) = some x := by
  have hnat : toNatBelow? UInt64.size (.nat x.toNat) = some x.toNat :=
    Literal.toNatBelow?_ofNat x.toNat_lt
  rw [toUInt64?, hnat]
  exact congrArg some UInt64.ofNat_toNat

/-- Where one part of a value has been read, the rest is still to be read. -/
theorem bind_eq_some {α β : Type} {x : Option α} {f : α → Option β} {a : α} {b : β}
    (hx : x = some a) (hf : f a = some b) : (x >>= f) = some b := by
  rw [hx]
  exact hf

theorem mapM_map_eq_some {α β : Type} {read : β → Option α} {write : α → β}
    (h : ∀ a, read (write a) = some a) (items : List α) :
    (items.map write).mapM read = some items := by
  induction items with
  | nil => rfl
  | cons a items ih =>
    rw [List.map_cons, List.mapM_cons, h, ih]
    rfl

theorem toList?_map {α : Type} {read : Json → Option α} {write : α → Json}
    (h : ∀ a, read (write a) = some a) (items : List α) :
    toList? read (.array (items.map write)) = some items :=
  mapM_map_eq_some h items

theorem Plain.nat (n : Nat) : Plain (.nat n) := .integer false n

theorem Plain.record {fields : List (String × Json)} (h : ∀ f ∈ fields, Plain f.2) :
    Plain (.record fields) := by
  refine .object ?_ ?_
  · rintro _ hf
    obtain ⟨f, -, rfl⟩ := List.mem_map.1 hf
    exact ⟨f.1, rfl⟩
  · rintro _ hf
    obtain ⟨f, hmem, rfl⟩ := List.mem_map.1 hf
    exact h f hmem

/-! ### Records -/

/-- Known fields in their order, perhaps not all of them. -/
theorem Record.read?_record {names : List String} {fields : List (String × Json)}
    (hnames : (fields.map Prod.fst).Sublist names) (hnodup : names.Nodup) :
    Record.read? names (.record fields) = some ⟨false, fields⟩ := by
  have hnamed : (fields.map fun f => (some f.1, f.2)).mapM
      (fun f => f.1.map fun name => (name, f.2)) = some fields := by
    refine mapM_map_eq_some (fun f => ?_) fields
    rfl
  have hknown : fields.filter (fun f => names.contains f.1) = fields :=
    List.filter_eq_self.2 fun f hf =>
      List.contains_iff_mem.2 (hnames.subset (List.mem_map_of_mem hf))
  simp only [record, Record.read?, hnamed, Option.bind_eq_bind, Option.bind_some, hknown,
    if_pos (hnodup.sublist hnames)]

theorem Record.required_eq_some {α : Type} {r : Record} {name : String} {v : Json}
    {read : Json → Option α} {a : α} (hv : r.fields.lookup name = some v)
    (hread : read v = some a) : r.required name read = some a := by
  rw [required, find?, hv]
  exact hread

/-! ### Alternatives -/

theorem sound_nat {n : Nat} (h : n < UInt64.size) (depth : Nat) : sound depth (.nat n) = true := by
  have hword : ((Literal.ofNat n).toNatBelow? UInt64.size).isSome = true := by
    rw [Literal.toNatBelow?_ofNat h]
    rfl
  rw [nat, sound, Literal.isReadable, hword]
  rfl

theorem soundItems_eq (depth : Nat) (items : List Json) :
    soundItems depth items = items.all (sound depth) := by
  induction items with
  | nil => rfl
  | cons v items ih => rw [soundItems, ih, List.all_cons]

theorem alternative?_record {tag name : String} {around : Nat} {fields : List (String × Json)}
    (hsound : sound (nestingLimit - around) (record ((tag, .text name) :: fields)) = true)
    (hfresh : ∀ f ∈ fields, f.1 ≠ tag) :
    alternative? tag around (record ((tag, .text name) :: fields)) =
      some (name, record fields) := by
  let written := fields.map fun f => (some f.1, f.2)
  have hfresh : ∀ f ∈ written, f.1 ≠ some tag := by
    rintro _ hf
    obtain ⟨f, hmem, rfl⟩ := List.mem_map.1 hf
    simpa using hfresh f hmem
  have htag : ((some tag, text name) :: written).filter (fun f => f.1 == some tag) =
      [(some tag, text name)] := by
    rw [List.filter_cons_of_pos (by simp), List.filter_eq_nil_iff.2]
    simpa using hfresh
  have hrest : ((some tag, text name) :: written).filter (fun f => f.1 != some tag) =
      written := by
    rw [List.filter_cons_of_neg (by simp), List.filter_eq_self]
    simpa using hfresh
  unfold alternative?
  rw [if_pos hsound]
  simp only [record, List.map_cons]
  rw [htag, hrest]
  rfl

/-! ### Omitted fields -/

/-- The fields that are not omitted. -/
def remaining (omitted : Finset String) (fields : List (String × Json)) : List (String × Json) :=
  fields.filter fun f => f.1 ∉ omitted

/-- An object without the omitted fields. -/
def without (omitted : Finset String) : Json → Json
  | .object fields => .object (fields.filter fun f => ∀ name ∈ f.1, name ∉ omitted)
  | v => v

theorem without_record (omitted : Finset String) (fields : List (String × Json)) :
    (record fields).without omitted = record (remaining omitted fields) := by
  simp [without, record, remaining, List.filter_map, Function.comp_def]

theorem Record.read?_without {names : List String} {fields : List (String × Json)}
    (hnodup : names.Nodup) (hnames : fields.map Prod.fst = names) (omitted : Finset String) :
    Record.read? names ((record fields).without omitted) =
      some ⟨false, remaining omitted fields⟩ := by
  rw [without_record]
  exact read?_record (hnames ▸ List.filter_sublist.map _) hnodup

theorem lookup_remaining (omitted : Finset String) (fields : List (String × Json))
    (name : String) : (remaining omitted fields).lookup name =
      if name ∈ omitted then none else fields.lookup name := by
  induction fields with
  | nil => exact (ite_self none).symm
  | cons f fields ih =>
    obtain ⟨n, v⟩ := f
    rw [remaining] at ih ⊢
    by_cases hn : n ∈ omitted
    · rw [List.filter_cons_of_neg (by simpa using hn), ih, List.lookup_cons]
      by_cases heq : name = n
      · rw [heq, if_pos hn, if_pos hn]
      · rw [beq_false_of_ne heq]
    · rw [List.filter_cons_of_pos (by simpa using hn), List.lookup_cons, List.lookup_cons, ih]
      by_cases heq : name = n
      · rw [heq, if_neg hn, if_neg hn]
      · rw [beq_false_of_ne heq]

/-- A field that is omitted has its default, any other its value. -/
theorem Record.defaulted_remaining {α : Type} {fields : List (String × Json)} {name : String}
    {read : Json → Option α} {default a : α} (omitted : Finset String)
    (h : (Record.mk false fields).defaulted name read default = some a) :
    (Record.mk false (remaining omitted fields)).defaulted name read default =
      some (if name ∈ omitted then default else a) := by
  rw [defaulted, find?] at h ⊢
  rw [lookup_remaining]
  split_ifs
  · rfl
  · exact h

/-- An object with one of its fields changed. -/
def mapField (name : String) (change : Json → Json) : Json → Json
  | .object fields =>
    .object (fields.map fun f => if f.1 = some name then (f.1, change f.2) else f)
  | v => v

theorem Plain.without {v : Json} (h : Plain v) (omitted : Finset String) :
    Plain (v.without omitted) := by
  cases h with
  | object hnames h =>
    exact .object (fun f hf => hnames f (List.mem_of_mem_filter hf))
      fun f hf => h f (List.mem_of_mem_filter hf)
  | array h => exact .array h
  | _ => constructor

theorem Plain.mapField {v : Json} {change : Json → Json} (h : Plain v)
    (hchange : ∀ w, Plain w → Plain (change w)) (name : String) :
    Plain (v.mapField name change) := by
  cases h with
  | object hnames h =>
    refine .object ?_ ?_
    · rintro _ hf
      obtain ⟨f, hmem, rfl⟩ := List.mem_map.1 hf
      split_ifs
      · exact hnames f hmem
      · exact hnames f hmem
    · rintro _ hf
      obtain ⟨f, hmem, rfl⟩ := List.mem_map.1 hf
      split_ifs
      · exact hchange f.2 (h f hmem)
      · exact h f hmem
  | array h => exact .array h
  | _ => constructor

end TopOfBook.Json
