import Mathlib.Data.List.Perm.Basic
import Mathlib.Logic.Function.Basic

/-!
# Things on shelves

Some places are shelves: a list of what lies there. Everything lies at one
place; what lies at a shelf is on its list once, and on no other list. The
rule is for taking things off one shelf, or from anywhere else, and putting
them on another.
-/

namespace Os161Paging

variable {α P : Type*} [DecidableEq α]

/-- The lists of the shelves agree with where things lie. -/
structure Shelved (IsShelf : P → Prop) (place : α → P) (shelf : P → List α) : Prop where
  mem : ∀ p, IsShelf p → ∀ x, x ∈ shelf p ↔ place x = p
  nodup : ∀ p, IsShelf p → (shelf p).Nodup

/-- Where things lie after those of `l` have been put to `q`. -/
def relocate (place : α → P) (l : List α) (q : P) : α → P := fun x => if x ∈ l then q else place x

theorem relocate_singleton (place : α → P) (x : α) (q : P) :
    relocate place [x] q = Function.update place x q := by
  funext y
  simp [relocate, Function.update_apply]

namespace Shelved

variable {IsShelf : P → Prop} {place : α → P} {shelf shelf' : P → List α}

/-- The things of `l`, all from `p`, go to `q`. -/
theorem moveAll (h : Shelved IsShelf place shelf) {l : List α} {p q : P} (hpq : p ≠ q)
    (hl : l.Nodup) (hplace : ∀ x ∈ l, place x = p)
    (hfrom : IsShelf p → (l ++ shelf' p).Perm (shelf p))
    (hto : IsShelf q → (shelf' q).Perm (l ++ shelf q))
    (hother : ∀ r, r ≠ p → r ≠ q → shelf' r = shelf r) :
    Shelved IsShelf (relocate place l q) shelf' := by
  constructor
  · intro r hr x
    by_cases hrq : r = q
    · subst hrq
      rw [(hto hr).mem_iff, List.mem_append, h.mem r hr, relocate]
      split <;> simp_all
    by_cases hrp : r = p
    · subst hrp
      have hnodup := (hfrom hr).nodup_iff.mpr (h.nodup r hr)
      have hmem := (hfrom hr).mem_iff (a := x)
      rw [List.mem_append, h.mem r hr] at hmem
      rw [relocate]
      by_cases hx : x ∈ l
      · have hnot : x ∉ shelf' r := fun hx' => (List.nodup_append.mp hnodup).2.2 x hx x hx' rfl
        simp [hx, hnot, Ne.symm hpq]
      · simp [hx, ← hmem]
    · rw [hother r hrp hrq, h.mem r hr, relocate]
      by_cases hx : x ∈ l
      · simp [hx, hplace x hx, Ne.symm hrp, Ne.symm hrq]
      · simp [hx]
  · intro r hr
    by_cases hrq : r = q
    · subst hrq
      refine (hto hr).nodup_iff.mpr (List.nodup_append.mpr ⟨hl, h.nodup r hr, ?_⟩)
      rintro x hx y hy rfl
      exact hpq ((hplace x hx).symm.trans ((h.mem r hr x).mp hy))
    by_cases hrp : r = p
    · subst hrp
      exact (List.nodup_append.mp ((hfrom hr).nodup_iff.mpr (h.nodup r hr))).2.1
    · rw [hother r hrp hrq]
      exact h.nodup r hr

omit [DecidableEq α] in
theorem perm (h : Shelved IsShelf place shelf)
    (hp : ∀ p, IsShelf p → (shelf' p).Perm (shelf p)) : Shelved IsShelf place shelf' := by
  constructor
  · intro p hshelf x
    rw [(hp p hshelf).mem_iff]
    exact h.mem p hshelf x
  · intro p hshelf
    exact (hp p hshelf).nodup_iff.mpr (h.nodup p hshelf)

theorem move (h : Shelved IsShelf place shelf) {x : α} {q : P} (hq : place x ≠ q)
    (hfrom : IsShelf (place x) → (x :: shelf' (place x)).Perm (shelf (place x)))
    (hto : IsShelf q → (shelf' q).Perm (x :: shelf q))
    (hother : ∀ r, r ≠ place x → r ≠ q → shelf' r = shelf r) :
    Shelved IsShelf (Function.update place x q) shelf' := by
  rw [← relocate_singleton]
  exact h.moveAll hq (by simp) (by simp) hfrom hto hother

end Shelved

end Os161Paging
