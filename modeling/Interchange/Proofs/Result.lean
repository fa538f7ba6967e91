import Mathlib.Data.List.Forall2

/-!
# Results of steps that may fail

Reading successful runs backward: a sequence of steps succeeds exactly if each of them does. Where a
list is worked off entry by entry, the results stand beside the entries.

* `bind_eq_ok`, `mapM_eq_ok`: the steps of a successful run.
* `foldlM_invariant`: what every step keeps holds at the end.
* `foldlM_eq_error`: the step at which a run fails.
* `forM_cases`: a list of checks passes, or one of them fails.
* `exists_of_mem_left`, `exists_of_mem_right`: the partner of an entry of two lists side by side.
-/

namespace Interchange

variable {ε α β : Type}

@[simp] theorem pure_eq_ok {a b : α} : (pure a : Except ε α) = .ok b ↔ a = b := by
  show (Except.ok a : Except ε α) = .ok b ↔ a = b
  simp

theorem toOption_eq_some {x : Except ε α} {a : α} : x.toOption = some a ↔ x = .ok a := by
  cases x <;> simp [Except.toOption]

theorem bind_eq_ok {x : Except ε α} {f : α → Except ε β} {b : β} :
    (x >>= f) = .ok b ↔ ∃ a, x = .ok a ∧ f a = .ok b := by
  cases x with
  | error e =>
    constructor
    · intro hRun
      cases hRun
    · rintro ⟨a, hFirst, _⟩
      cases hFirst
  | ok a =>
    constructor
    · intro hRun
      exact ⟨a, rfl, hRun⟩
    · rintro ⟨_, hFirst, hRun⟩
      cases hFirst
      exact hRun

theorem bind_eq_error {x : Except ε α} {f : α → Except ε β} {error : ε} :
    (x >>= f) = .error error ↔ x = .error error ∨ ∃ a, x = .ok a ∧ f a = .error error := by
  cases x with
  | error other =>
    show Except.error other = _ ↔ _
    simp
  | ok a =>
    show f a = _ ↔ _
    simp

theorem mapM_eq_ok {f : α → Except ε β} {xs : List α} {ys : List β} :
    xs.mapM f = .ok ys ↔ List.Forall₂ (fun x y => f x = .ok y) xs ys := by
  induction xs generalizing ys with
  | nil =>
    rw [List.mapM_nil, pure_eq_ok, List.forall₂_nil_left_iff]
    exact eq_comm
  | cons x xs ih =>
    simp only [List.mapM_cons, bind_eq_ok, pure_eq_ok, ih, List.forall₂_cons_left_iff]
    constructor
    · rintro ⟨y, hFirst, ys, hRest, rfl⟩
      exact ⟨y, ys, hFirst, hRest, rfl⟩
    · rintro ⟨y, ys, hFirst, hRest, rfl⟩
      exact ⟨y, hFirst, ys, hRest, rfl⟩

/-- What every successful step keeps holds after all of them. -/
theorem foldlM_invariant {f : β → α → Except ε β} (P : β → Prop) {xs : List α} {start finish : β}
    (hStart : P start) (hStep : ∀ b, ∀ a ∈ xs, ∀ c, P b → f b a = .ok c → P c)
    (hRun : xs.foldlM f start = .ok finish) : P finish := by
  induction xs generalizing start with
  | nil =>
    rw [List.foldlM_nil, pure_eq_ok] at hRun
    exact hRun ▸ hStart
  | cons x xs ih =>
    rw [List.foldlM_cons, bind_eq_ok] at hRun
    obtain ⟨middle, hFirst, hRest⟩ := hRun
    have hMiddle := hStep start x List.mem_cons_self middle hStart hFirst
    exact ih hMiddle (fun b a ha => hStep b a (List.mem_cons_of_mem _ ha)) hRest

/-- A failing run fails at one of its steps, behind steps that succeed. -/
theorem foldlM_eq_error {f : β → α → Except ε β} {xs : List α} {start : β} {error : ε}
    (hRun : xs.foldlM f start = .error error) :
    ∃ done x later middle, xs = done ++ x :: later ∧ done.foldlM f start = .ok middle ∧
      f middle x = .error error := by
  induction xs generalizing start with
  | nil => cases hRun
  | cons x xs ih =>
    rw [List.foldlM_cons, bind_eq_error] at hRun
    rcases hRun with hFirst | ⟨next, hFirst, hRest⟩
    · exact ⟨[], x, xs, start, rfl, rfl, hFirst⟩
    · obtain ⟨done, y, later, middle, rfl, hDone, hError⟩ := ih hRest
      refine ⟨x :: done, y, later, middle, rfl, ?_, hError⟩
      rw [List.foldlM_cons, hFirst]
      exact hDone

/-- A list of checks passes if each of them does, and else fails as one of them does. -/
theorem forM_cases (f : α → Except ε PUnit) (xs : List α) :
    (xs.forM f = .ok () ∧ ∀ x ∈ xs, f x = .ok ()) ∨
      ∃ x ∈ xs, ∃ error, f x = .error error ∧ xs.forM f = .error error := by
  induction xs with
  | nil => exact Or.inl ⟨rfl, by simp⟩
  | cons x xs ih =>
    have hStep : (x :: xs).forM f = (f x >>= fun _ => xs.forM f) := rfl
    rw [hStep]
    cases hFirst : f x with
    | error error => exact Or.inr ⟨x, List.mem_cons_self, error, hFirst, rfl⟩
    | ok =>
      rcases ih with ⟨hRest, hAll⟩ | ⟨y, hy, error, hError, hRest⟩
      · exact Or.inl ⟨hRest, List.forall_mem_cons.2 ⟨hFirst, hAll⟩⟩
      · exact Or.inr ⟨y, List.mem_cons_of_mem _ hy, error, hError, hRest⟩

/-! ## Lists side by side -/

section

variable {R : α → β → Prop} {xs : List α} {ys : List β}

theorem exists_of_mem_left (hAll : List.Forall₂ R xs ys) {x : α} (hMem : x ∈ xs) :
    ∃ y ∈ ys, R x y := by
  induction hAll with
  | nil => simp at hMem
  | cons hFirst _ ih =>
    rcases List.mem_cons.1 hMem with rfl | hMem
    · exact ⟨_, List.mem_cons_self, hFirst⟩
    · obtain ⟨y, hy, hR⟩ := ih hMem
      exact ⟨y, List.mem_cons_of_mem _ hy, hR⟩

theorem exists_of_mem_right (hAll : List.Forall₂ R xs ys) {y : β} (hMem : y ∈ ys) :
    ∃ x ∈ xs, R x y :=
  exists_of_mem_left hAll.flip hMem

/-- Where every entry has a partner, the partners form a list. -/
theorem exists_forall₂ (hEach : ∀ x ∈ xs, ∃ y, R x y) :
    ∃ ys, List.Forall₂ R xs ys := by
  induction xs with
  | nil => exact ⟨[], .nil⟩
  | cons x xs ih =>
    obtain ⟨⟨y, hFirst⟩, hRest⟩ := List.forall_mem_cons.1 hEach
    obtain ⟨ys, hOthers⟩ := ih hRest
    exact ⟨y :: ys, .cons hFirst hOthers⟩

theorem forall₂_imp_of_mem {S : α → β → Prop} (hAll : List.Forall₂ R xs ys)
    (hImp : ∀ x ∈ xs, ∀ y ∈ ys, R x y → S x y) : List.Forall₂ S xs ys := by
  induction hAll with
  | nil => exact .nil
  | cons hFirst _ ih =>
    refine .cons (hImp _ List.mem_cons_self _ List.mem_cons_self hFirst) (ih ?_)
    intro x hx y hy
    exact hImp x (List.mem_cons_of_mem _ hx) y (List.mem_cons_of_mem _ hy)

theorem map_eq_map_of_forall₂ {γ : Type} {f : α → γ} {g : β → γ} (hAll : List.Forall₂ R xs ys)
    (hEq : ∀ x ∈ xs, ∀ y, R x y → g y = f x) : ys.map g = xs.map f := by
  induction hAll with
  | nil => rfl
  | cons hFirst _ ih =>
    obtain ⟨hOwn, hOthers⟩ := List.forall_mem_cons.1 hEq
    rw [List.map_cons, List.map_cons, hOwn _ hFirst, ih hOthers]

/-- Lists that are related to one list, one by one. -/
theorem forall₂_through {γ : Type} {S : α → γ → Prop} {T : β → γ → Prop} {zs : List γ}
    (hLeft : List.Forall₂ R xs ys) (hRight : List.Forall₂ S xs zs)
    (hPair : ∀ x ∈ xs, ∀ y z, R x y → S x z → T y z) : List.Forall₂ T ys zs := by
  induction hLeft generalizing zs with
  | nil =>
    cases hRight
    exact .nil
  | cons hFirst _ ih =>
    cases hRight with
    | cons hOther hRest =>
      obtain ⟨hHead, hTail⟩ := List.forall_mem_cons.1 hPair
      exact .cons (hHead _ _ hFirst hOther) (ih hRest hTail)

end

end Interchange
