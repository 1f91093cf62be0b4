import Mathlib.Logic.Function.Basic
import Mathlib.Order.BooleanAlgebra.Set

/-!
# Tenants and places

The bookkeeping behind any store that keeps each of its items in one of
several places. Items `ι` live in places `β`: `ψ i` is the place of item
`i`, if it has one. A place that is owned holds a value (`val x`), and
an owned place is either the home of exactly one item or `spare`, on its
way from one item to another.

The steps are the ones such a store is made of: an owned place is gained
or given back, its value is replaced, an item moves in, moves out, or
moves from one place to another. A store is faithful to a record `mem` of
what its items should contain when each item finds in its place what the
record says.
-/

namespace Os161Paging

variable {ι β κ : Type*}

/-- Every item that has a place is alone there, and every owned place that is
not spare has its item. -/
structure Tenancy (ψ : ι → Option β) (val : β → Option κ) (spare : Set β) : Prop where
  housed : ∀ i x, ψ i = some x → val x ≠ none
  alone : ∀ i j x, ψ i = some x → ψ j = some x → i = j
  tenanted : ∀ x, val x ≠ none → x ∉ spare → ∃ i, ψ i = some x
  owned : ∀ x ∈ spare, val x ≠ none
  vacant : ∀ x ∈ spare, ∀ i, ψ i ≠ some x

/-- The items in `W` find in their places what `mem` says. -/
def Remembers (mem : ι → Option κ) (ψ : ι → Option β) (val : β → Option κ) (W : Set ι) : Prop :=
  ∀ i ∈ W, mem i = (ψ i).bind val

namespace Tenancy

variable {ψ : ι → Option β} {val : β → Option κ} {spare : Set β}
  {i : ι} {x y : β} {c : κ}

theorem empty : Tenancy (fun _ : ι => none) (fun _ : β => (none : Option κ)) ∅ where
  housed _ _ h := nomatch h
  alone _ _ _ h := nomatch h
  tenanted _ h := absurd rfl h
  owned _ h := h.elim
  vacant _ h := h.elim

/-! ## Places come, change and go -/

section Places

variable [DecidableEq β]

theorem acquire (h : Tenancy ψ val spare) (hx : val x = none) :
    Tenancy ψ (Function.update val x (some c)) (insert x spare) where
  housed i y hy := by
    by_cases hyx : y = x
    · simp [hyx]
    · simpa [hyx] using h.housed i y hy
  alone := h.alone
  tenanted y hy hs := by
    simp only [Set.mem_insert_iff, not_or] at hs
    exact h.tenanted y (by simpa [hs.1] using hy) hs.2
  owned y hy := by
    by_cases hyx : y = x
    · simp [hyx]
    · simpa [hyx] using h.owned y (hy.resolve_left hyx)
  vacant y hy i hi := by
    rcases hy with rfl | hy
    · exact h.housed i y hi hx
    · exact h.vacant y hy i hi

theorem refill (h : Tenancy ψ val spare) (hx : val x ≠ none) :
    Tenancy ψ (Function.update val x (some c)) spare := by
  have hsup : ∀ y, Function.update val x (some c) y ≠ none ↔ val y ≠ none := by
    intro y
    by_cases hyx : y = x
    · simp [hyx, hx]
    · simp [hyx]
  exact ⟨fun i y hy => (hsup y).mpr (h.housed i y hy), h.alone,
    fun y hy => h.tenanted y ((hsup y).mp hy), fun y hy => (hsup y).mpr (h.owned y hy), h.vacant⟩

theorem release (h : Tenancy ψ val spare) (hx : x ∈ spare) :
    Tenancy ψ (Function.update val x none) (spare \ {x}) where
  housed i y hy := by
    have hyx : y ≠ x := by
      rintro rfl
      exact h.vacant y hx i hy
    simpa [hyx] using h.housed i y hy
  alone := h.alone
  tenanted y hy hs := by
    have hyx : y ≠ x := by
      rintro rfl
      simp at hy
    exact h.tenanted y (by simpa [hyx] using hy) fun hm => hs ⟨hm, hyx⟩
  owned y hy := by
    simpa [show y ≠ x from hy.2] using h.owned y hy.1
  vacant y hy := h.vacant y hy.1

end Places

/-! ## Items move -/

section Items

variable [DecidableEq ι]

/-- An item moves out; its place is spare. -/
theorem vacate (h : Tenancy ψ val spare) (hi : ψ i = some x) :
    Tenancy (Function.update ψ i none) val (insert x spare) where
  housed j y hy := by
    by_cases hj : j = i
    · simp [hj] at hy
    · exact h.housed j y (by simpa [hj] using hy)
  alone j k y hj hk := by
    by_cases hji : j = i
    · simp [hji] at hj
    · by_cases hki : k = i
      · simp [hki] at hk
      · exact h.alone j k y (by simpa [hji] using hj) (by simpa [hki] using hk)
  tenanted y hy hs := by
    simp only [Set.mem_insert_iff, not_or] at hs
    obtain ⟨j, hj⟩ := h.tenanted y hy hs.2
    have hji : j ≠ i := by
      rintro rfl
      exact hs.1 (Option.some.inj (hj.symm.trans hi))
    exact ⟨j, by simpa [hji] using hj⟩
  owned y hy := by
    rcases hy with rfl | hy
    · exact h.housed i y hi
    · exact h.owned y hy
  vacant y hy j hj := by
    by_cases hji : j = i
    · simp [hji] at hj
    · rw [Function.update_of_ne hji] at hj
      rcases hy with rfl | hy
      · exact hji (h.alone j i y hj hi)
      · exact h.vacant y hy j hj

/-- An item without a place moves into a spare one. -/
theorem occupy (h : Tenancy ψ val spare) (hi : ψ i = none) (hx : x ∈ spare) :
    Tenancy (Function.update ψ i (some x)) val (spare \ {x}) where
  housed j y hy := by
    by_cases hj : j = i
    · simp only [hj, Function.update_self, Option.some.injEq] at hy
      exact hy ▸ h.owned x hx
    · exact h.housed j y (by simpa [hj] using hy)
  alone j k y hj hk := by
    by_cases hji : j = i <;> by_cases hki : k = i
    · rw [hji, hki]
    · simp only [hji, Function.update_self, Option.some.injEq] at hj
      rw [Function.update_of_ne hki, ← hj] at hk
      exact absurd hk (h.vacant x hx k)
    · simp only [hki, Function.update_self, Option.some.injEq] at hk
      rw [Function.update_of_ne hji, ← hk] at hj
      exact absurd hj (h.vacant x hx j)
    · rw [Function.update_of_ne hji] at hj
      rw [Function.update_of_ne hki] at hk
      exact h.alone j k y hj hk
  tenanted y hy hs := by
    by_cases hyx : y = x
    · exact ⟨i, by simp [hyx]⟩
    · obtain ⟨j, hj⟩ := h.tenanted y hy fun hm => hs ⟨hm, hyx⟩
      have hji : j ≠ i := by
        rintro rfl
        rw [hi] at hj
        cases hj
      exact ⟨j, by simpa [hji] using hj⟩
  owned y hy := h.owned y hy.1
  vacant y hy j hj := by
    by_cases hji : j = i
    · simp only [hji, Function.update_self, Option.some.injEq] at hj
      exact hy.2 hj.symm
    · rw [Function.update_of_ne hji] at hj
      exact h.vacant y hy.1 j hj

/-- An item moves into a spare place and leaves its own behind. -/
theorem relocate (h : Tenancy ψ val spare) (hi : ψ i = some x) (hy : y ∈ spare) :
    Tenancy (Function.update ψ i (some y)) val (insert x (spare \ {y})) := by
  have hne : x ≠ y := by
    rintro rfl
    exact h.vacant x hy i hi
  have hv := (h.vacate hi).occupy (x := y) (Function.update_self ..) (.inr hy)
  rwa [Function.update_idem, Set.insert_sdiff_of_notMem _ (by simpa using hne)] at hv

end Items

end Tenancy

/-- The value in the place of an item changes, and the record with it. -/
theorem Remembers.modify [DecidableEq ι] [DecidableEq β] {mem : ι → Option κ} {ψ : ι → Option β}
    {val : β → Option κ} {spare : Set β} {W : Set ι} {i : ι} {x : β} {c : κ} (f : κ → κ)
    (h : Remembers mem ψ val W) (ht : Tenancy ψ val spare) (hi : ψ i = some x) (hx : val x = some c) :
    Remembers (Function.update mem i ((mem i).map f)) ψ (Function.update val x (some (f c))) W := by
  intro j hj
  have hold := h j hj
  by_cases hji : j = i
  · subst hji
    rw [hi, Option.bind_some, hx] at hold
    simp [hi, hold]
  · rw [Function.update_of_ne hji, hold]
    cases hy : ψ j with
    | none => rfl
    | some y =>
        have hyx : y ≠ x := by
          rintro rfl
          exact hji (ht.alone j i y hy hi)
        simp [hyx]

end Os161Paging
