import Interchange.Schema.ModelPart
import Interchange.Wire.Value
import Mathlib.Data.List.Nodup

/-!
# Fields of messages

The fields of a message are sorted by id, each id once, so a message is known by the values of its
fields. Setting fields keeps the order, and the last value of an id stays.

* `Fields.get?_set`, `Fields.get?_setAll`: looking up what was set.
* `Fields.ext`: messages with equal fields are equal.
* `ModelPart.find?_of_mem`: looking up a part by its number.
-/

namespace Interchange.Schema.ModelPart

variable {α : Type}

theorem find?_eq_some {parts : List (ModelPart α)} {number : UInt32} {part : ModelPart α}
    (hFind : find? parts number = some part) : part ∈ parts ∧ part.number = number := by
  have hNumber := List.find?_some hFind
  exact ⟨List.mem_of_find?_eq_some hFind, by simpa using hNumber⟩

theorem find?_eq_none {parts : List (ModelPart α)} {number : UInt32} :
    find? parts number = none ↔ ∀ part ∈ parts, part.number ≠ number := by
  simp [find?]

/-- Where numbers differ, a part is found under its own. -/
theorem find?_of_mem {parts : List (ModelPart α)} (hNumbers : (parts.map number).Nodup)
    {part : ModelPart α} (hPart : part ∈ parts) : find? parts part.number = some part := by
  cases hFind : find? parts part.number with
  | none => exact absurd rfl (find?_eq_none.1 hFind part hPart)
  | some other =>
    obtain ⟨hOther, hNumber⟩ := find?_eq_some hFind
    rw [List.inj_on_of_nodup_map hNumbers hOther hPart hNumber]

end Interchange.Schema.ModelPart

namespace Interchange.Wire.Fields

open Schema

/-- Fields sorted by id, each id once. -/
def Ascending (fields : List (UInt32 × Value)) : Prop :=
  (fields.map Prod.fst).Pairwise (· < ·)

instance (fields : List (UInt32 × Value)) : Decidable (Ascending fields) :=
  inferInstanceAs (Decidable (List.Pairwise _ _))

theorem Ascending.nodup {fields : List (UInt32 × Value)} (hFields : Ascending fields) :
    (fields.map Prod.fst).Nodup := by
  refine List.Pairwise.imp ?_ hFields
  rintro id _ hLess rfl
  exact UInt32.lt_irrefl id hLess

/-! ## Looking up -/

theorem mem_of_get? {fields : List (UInt32 × Value)} {id : UInt32} {value : Value}
    (hGet : get? fields id = some value) : (id, value) ∈ fields := by
  obtain ⟨⟨other, found⟩, hFind, rfl⟩ := Option.map_eq_some_iff.1 hGet
  have hId := List.find?_some hFind
  obtain rfl : other = id := by simpa using hId
  exact List.mem_of_find?_eq_some hFind

theorem get?_eq_some_iff {fields : List (UInt32 × Value)} (hIds : (fields.map Prod.fst).Nodup)
    {id : UInt32} {value : Value} : get? fields id = some value ↔ (id, value) ∈ fields := by
  constructor
  · exact mem_of_get?
  · intro hMem
    cases hGet : get? fields id with
    | none =>
      have hOther := List.find?_eq_none.1 (Option.map_eq_none_iff.1 hGet) _ hMem
      simp at hOther
    | some other =>
      have hSame := List.inj_on_of_nodup_map hIds (mem_of_get? hGet) hMem rfl
      rw [(Prod.mk.inj hSame).2]

theorem get?_eq_none {fields : List (UInt32 × Value)} {id : UInt32} :
    get? fields id = none ↔ ∀ field ∈ fields, field.1 ≠ id := by
  simp [get?]

theorem get?_cons (id other : UInt32) (value : Value) (fields : List (UInt32 × Value)) :
    get? ((id, value) :: fields) other = if id = other then some value else get? fields other := by
  by_cases hId : id = other
  · simp [get?, hId]
  · simp [get?, hId]

/-- The fields that parts stand for. -/
theorem get?_map_parts {α : Type} (parts : List (ModelPart α)) (f : ModelPart α → Value)
    (id : UInt32) :
    get? (parts.map fun part => (part.number, f part)) id = (ModelPart.find? parts id).map f := by
  induction parts with
  | nil => rfl
  | cons part rest ih =>
    rw [List.map_cons, get?_cons, ih, ModelPart.find?, ModelPart.find?, List.find?_cons]
    by_cases hId : part.number = id
    · simp [hId]
    · simp [hId, beq_false_of_ne hId]

/-- Messages with the same fields are the same. -/
theorem ext {fields others : List (UInt32 × Value)} (hFields : Ascending fields)
    (hOthers : Ascending others) (hGet : ∀ id, get? fields id = get? others id) :
    fields = others := by
  have hMem : ∀ field, field ∈ fields ↔ field ∈ others := by
    rintro ⟨id, value⟩
    rw [← get?_eq_some_iff hFields.nodup, ← get?_eq_some_iff hOthers.nodup, hGet]
  have hPerm := (List.perm_ext_iff_of_nodup hFields.nodup.of_map hOthers.nodup.of_map).2 hMem
  refine hPerm.eq_of_pairwise ?_ (List.pairwise_map.1 hFields) (List.pairwise_map.1 hOthers)
  intro a b _ _ hab hba
  exact absurd hba (UInt32.lt_asymm hab)

/-! ## Setting -/

theorem get?_set (fields : List (UInt32 × Value)) (id : UInt32) (value : Value) (other : UInt32) :
    get? (set fields id value) other = if id = other then some value else get? fields other := by
  induction fields with
  | nil => rw [set, get?_cons]
  | cons field rest ih =>
    obtain ⟨first, old⟩ := field
    rw [set]
    split
    · rw [get?_cons]
    next =>
      split
      next hEq =>
        subst hEq
        simp only [get?_cons]
        split <;> rfl
      next hNe =>
        rw [get?_cons, get?_cons, ih]
        by_cases hFirst : first = other
        · have hOther : id ≠ other := fun hEq => hNe (hEq.trans hFirst.symm)
          rw [if_pos hFirst, if_neg hOther, if_pos hFirst]
        · rw [if_neg hFirst, if_neg hFirst]

theorem mem_set {fields : List (UInt32 × Value)} {id : UInt32} {value : Value}
    {field : UInt32 × Value} (hMem : field ∈ set fields id value) :
    field = (id, value) ∨ field ∈ fields := by
  induction fields with
  | nil => simpa [set] using hMem
  | cons first rest ih =>
    obtain ⟨other, old⟩ := first
    rw [set] at hMem
    split at hMem
    · simpa using hMem
    · split at hMem
      · rcases List.mem_cons.1 hMem with hMem | hMem
        · exact Or.inl hMem
        · exact Or.inr (List.mem_cons_of_mem _ hMem)
      · rcases List.mem_cons.1 hMem with hMem | hMem
        · exact Or.inr (hMem ▸ List.mem_cons_self)
        · exact (ih hMem).imp_right (List.mem_cons_of_mem _)

theorem Ascending.set {fields : List (UInt32 × Value)} (hFields : Ascending fields) (id : UInt32)
    (value : Value) : Ascending (set fields id value) := by
  induction fields with
  | nil => simp [Fields.set, Ascending]
  | cons field rest ih =>
    obtain ⟨other, old⟩ := field
    obtain ⟨hFirst, hRest⟩ := List.pairwise_cons.1 (List.pairwise_map.1 hFields)
    have hTail : Ascending rest := List.pairwise_map.2 hRest
    rw [Fields.set]
    split
    next hLess =>
      refine List.pairwise_cons.2 ⟨?_, hFields⟩
      simp only [List.map_cons, List.forall_mem_cons, List.forall_mem_map]
      exact ⟨hLess, fun later hLater => UInt32.lt_trans hLess (hFirst later hLater)⟩
    next hNotLess =>
      split
      next hEq =>
        subst hEq
        exact List.pairwise_cons.2 ⟨by simpa using hFirst, hTail⟩
      next hNe =>
        have hGreater : other < id :=
          UInt32.lt_of_le_of_ne (UInt32.not_lt.1 hNotLess) (Ne.symm hNe)
        refine List.pairwise_cons.2 ⟨?_, ih hTail⟩
        simp only [List.forall_mem_map]
        intro later hLater
        rcases mem_set hLater with rfl | hLater
        · exact hGreater
        · exact hFirst later hLater

/-- The last value of an id stays. -/
theorem get?_setAll (fields entries : List (UInt32 × Value)) (id : UInt32) :
    get? (setAll fields entries) id = (get? entries.reverse id).or (get? fields id) := by
  induction entries generalizing fields with
  | nil => simp [setAll, get?]
  | cons entry rest ih =>
    obtain ⟨other, value⟩ := entry
    have hStep : setAll fields ((other, value) :: rest) =
        setAll (set fields other value) rest := rfl
    have hReverse : get? ((other, value) :: rest).reverse id =
        (get? rest.reverse id).or (if other = id then some value else none) := by
      rw [List.reverse_cons, get?, List.find?_append, Option.map_or]
      congr 1
      by_cases hId : other = id
      · simp [hId]
      · simp [hId]
    rw [hStep, ih, get?_set, hReverse, Option.or_assoc]
    congr 1
    by_cases hId : other = id
    · simp [hId]
    · simp [hId]

theorem Ascending.setAll {fields : List (UInt32 × Value)} (hFields : Ascending fields)
    (entries : List (UInt32 × Value)) : Ascending (setAll fields entries) := by
  induction entries generalizing fields with
  | nil => exact hFields
  | cons entry rest ih => exact ih (hFields.set entry.1 entry.2)

/-- Sorted entries are what setting them gives. -/
theorem setAll_nil {entries : List (UInt32 × Value)} (hEntries : Ascending entries) :
    setAll [] entries = entries := by
  refine ext (Ascending.setAll (by simp [Ascending]) entries) hEntries ?_
  intro id
  rw [get?_setAll]
  have hReverse : (entries.reverse.map Prod.fst).Nodup := by
    rw [List.map_reverse]
    exact List.nodup_reverse.2 hEntries.nodup
  have hNil : get? [] id = none := rfl
  rw [hNil, Option.or_none]
  apply Option.ext
  intro value
  rw [get?_eq_some_iff hReverse, get?_eq_some_iff hEntries.nodup, List.mem_reverse]

end Interchange.Wire.Fields
