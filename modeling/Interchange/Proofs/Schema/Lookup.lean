import Interchange.Proofs.Schema.Arena
import Interchange.Proofs.Wire.Fields

/-!
# Looking up sorted parts

Parts in ascending order can be looked up by halving: compare with a part in the middle and leave
out the half that cannot hold the number. The order makes this the same as going through all parts.
Retired ids are in ascending order as well, each of them once.

* `ModelPart.search?`: looking up by halving.
* `search?_eq_find?`: it finds what going through all parts finds.
* `sortRetired_ascending`, `mem_sortRetired`: retired ids.
-/

namespace Interchange.Schema

/-! ## Halving -/

namespace ModelPart

variable {α : Type}

/-- The only place among `size` places from `base` on where a part with the number can be. -/
def narrow (parts : List (ModelPart α)) (number : UInt32) (base size : Nat) : Nat :=
  if size ≤ 1 then base
  else
    match parts[base + size / 2]? with
    | some part =>
      if number < part.number then narrow parts number base (size - size / 2)
      else narrow parts number (base + size / 2) (size - size / 2)
    | none => base
termination_by size

/-- The part with a number, among parts in ascending order. -/
def search? (parts : List (ModelPart α)) (number : UInt32) : Option (ModelPart α) :=
  (parts[narrow parts number 0 parts.length]?).filter fun part => part.number == number

theorem number_lt_of_ascending {parts : List (ModelPart α)}
    (hAscending : (parts.map number).Pairwise (· < ·)) {i j : Nat} {first second : ModelPart α}
    (hFirst : parts[i]? = some first) (hSecond : parts[j]? = some second) (hLess : i < j) :
    first.number < second.number := by
  obtain ⟨hi, rfl⟩ := List.getElem?_eq_some_iff.1 hFirst
  obtain ⟨hj, rfl⟩ := List.getElem?_eq_some_iff.1 hSecond
  exact List.pairwise_iff_getElem.1 (List.pairwise_map.1 hAscending) i j hi hj hLess

/-- Halving ends at the place of the part. -/
theorem narrow_eq {parts : List (ModelPart α)} (hAscending : (parts.map number).Pairwise (· < ·))
    {position : Nat} {part : ModelPart α} (hPart : parts[position]? = some part) {base size : Nat}
    (hBase : base ≤ position) (hSize : position < base + size)
    (hBound : base + size ≤ parts.length) : narrow parts part.number base size = position := by
  fun_induction narrow parts part.number base size with
  | case1 base size hSmall => omega
  | case2 base size hLarge middle hMiddle hLess ih =>
    -- The part in the middle is behind the one that is looked for.
    have hBefore : position < base + size / 2 := by
      by_contra hBehind
      rcases Nat.lt_or_eq_of_le (Nat.le_of_not_lt hBehind) with hLater | hSame
      · exact UInt32.lt_asymm hLess (number_lt_of_ascending hAscending hMiddle hPart hLater)
      · rw [← hSame, hMiddle] at hPart
        cases hPart
        exact UInt32.lt_irrefl _ hLess
    exact ih hBase (by omega) (by omega)
  | case3 base size hLarge middle hMiddle hNotLess ih =>
    have hBehind : base + size / 2 ≤ position := by
      by_contra hBefore
      exact hNotLess
        (number_lt_of_ascending hAscending hPart hMiddle (Nat.lt_of_not_le hBefore))
    exact ih hBehind (by omega) (by omega)
  | case4 base size hLarge hMiddle =>
    rw [List.getElem?_eq_none_iff] at hMiddle
    omega

/-- Halving finds what going through all parts finds. -/
theorem search?_eq_find? {parts : List (ModelPart α)}
    (hAscending : (parts.map number).Pairwise (· < ·)) (number : UInt32) :
    search? parts number = find? parts number := by
  have hNodup : (parts.map ModelPart.number).Nodup := hAscending.imp UInt32.ne_of_lt
  cases hFind : find? parts number with
  | some part =>
    obtain ⟨hMem, rfl⟩ := find?_eq_some hFind
    obtain ⟨position, hPart⟩ := List.mem_iff_getElem?.1 hMem
    have hPosition := (List.getElem?_eq_some_iff.1 hPart).1
    rw [search?, narrow_eq hAscending hPart (Nat.zero_le _) (by omega) (by omega), hPart]
    simp
  | none =>
    rw [search?, Option.filter_eq_none_iff]
    intro part hPart
    simpa using find?_eq_none.1 hFind part (List.mem_of_getElem? hPart)

end ModelPart

/-! ## Retired ids -/

namespace Builder

theorem eraseRepsBy_loop_eq {α : Type} (r : α → α → Bool) (a : α) (rest front : List α) :
    List.eraseRepsBy.loop r a rest front =
      front.reverse ++ List.eraseRepsBy.loop r a rest [] := by
  induction rest generalizing a front with
  | nil => simp [List.eraseRepsBy.loop]
  | cons b rest ih =>
    rw [List.eraseRepsBy.loop, List.eraseRepsBy.loop]
    split
    · exact ih a front
    · rw [ih b (a :: front), ih b [a]]
      simp

theorem eraseReps_cons_cons (a b : UInt32) (rest : List UInt32) :
    (a :: b :: rest).eraseReps =
      if a = b then (a :: rest).eraseReps else a :: (b :: rest).eraseReps := by
  show List.eraseRepsBy.loop (· == ·) a (b :: rest) [] = _
  rw [List.eraseRepsBy.loop]
  by_cases hEq : a = b
  · rw [if_pos hEq, beq_iff_eq.2 hEq]
    rfl
  · rw [if_neg hEq, beq_eq_false_iff_ne.2 hEq]
    show List.eraseRepsBy.loop (· == ·) b rest [a] = _
    rw [eraseRepsBy_loop_eq]
    rfl

theorem mem_eraseReps {id : UInt32} {ids : List UInt32} : id ∈ ids.eraseReps ↔ id ∈ ids := by
  match ids with
  | [] => rfl
  | [a] => rfl
  | a :: b :: rest =>
    rw [eraseReps_cons_cons]
    split
    case isTrue hEq =>
      rw [mem_eraseReps, hEq]
      simp
    case isFalse => rw [List.mem_cons, mem_eraseReps, List.mem_cons (b := a)]
termination_by ids.length

theorem eraseReps_ascending {ids : List UInt32} (hAscending : ids.Pairwise (· ≤ ·)) :
    ids.eraseReps.Pairwise (· < ·) := by
  match ids with
  | [] => exact List.Pairwise.nil
  | [a] => exact List.pairwise_singleton _ _
  | a :: b :: rest =>
    obtain ⟨hFirst, hRest⟩ := List.pairwise_cons.1 hAscending
    rw [eraseReps_cons_cons]
    split
    case isTrue hEq =>
      exact eraseReps_ascending
        (hAscending.sublist ((List.sublist_cons_self b rest).cons_cons a))
    case isFalse hNe =>
      refine List.pairwise_cons.2 ⟨fun id hId => ?_, eraseReps_ascending hRest⟩
      -- The next id is another one, and the rest starts with it.
      have hLess : a < b := UInt32.lt_of_le_of_ne (hFirst b List.mem_cons_self) hNe
      rcases List.mem_cons.1 (mem_eraseReps.1 hId) with rfl | hLater
      · exact hLess
      · exact UInt32.lt_of_lt_of_le hLess ((List.pairwise_cons.1 hRest).1 id hLater)
termination_by ids.length

theorem mem_sortRetired {id : UInt32} {retired : List UInt32} :
    id ∈ sortRetired retired ↔ id ∈ retired := by
  rw [sortRetired, mem_eraseReps, (List.mergeSort_perm retired _).mem_iff]

theorem sortRetired_ascending (retired : List UInt32) :
    (sortRetired retired).Pairwise (· < ·) :=
  eraseReps_ascending (pairwise_mergeSort_le id retired)

end Builder

end Interchange.Schema
