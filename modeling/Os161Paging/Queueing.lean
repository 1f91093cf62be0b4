import Mathlib.Data.List.TakeWhile
import Mathlib.Logic.Relation

/-!
# Queues

A queue that is joined at its end, served at its front, and quit only at its
end, or by all at once. Those ahead of somebody who stays in the queue are
served one after the other, and nobody comes in between.
-/

namespace Os161Paging

variable {α : Type*} {x : α} {l l' : List α}

inductive Advances : List α → List α → Prop where
  | same (l : List α) : Advances l l
  | join (l : List α) (x : α) : Advances l (l ++ [x])
  | serve (x : α) (l : List α) : Advances (x :: l) l
  | quit (l : List α) (x : α) : Advances (l ++ [x]) l
  | clear (l : List α) : Advances l []

namespace Advances

theorem tail (l : List α) : Advances l l.tail := by
  cases l with
  | nil => exact .same []
  | cons x l => exact .serve x l

theorem dropLast (l : List α) : Advances l l.dropLast := by
  rcases List.eq_nil_or_concat l with rfl | ⟨l', x, rfl⟩
  · exact .same []
  · simp only [List.concat_eq_append, List.dropLast_concat]
    exact .quit l' x

end Advances

variable [DecidableEq α]

def ahead (x : α) (l : List α) : List α := l.takeWhile fun y => y ≠ x

theorem ahead_append (hx : x ∈ l) (l' : List α) : ahead x (l ++ l') = ahead x l := by
  induction l with
  | nil => cases hx
  | cons y l ih =>
      by_cases hy : y = x
      · simp [ahead, hy]
      · have hx' : x ∈ l := (List.mem_cons.mp hx).resolve_left (Ne.symm hy)
        simpa [ahead, hy] using ih hx'

/-- Nobody gets ahead of `x`. -/
theorem Advances.ahead_suffix (h : Advances l l') (hl : l.Nodup) (hx : x ∈ l) (hx' : x ∈ l') :
    ahead x l' <:+ ahead x l := by
  cases h with
  | same => exact List.suffix_refl _
  | join _ y => exact ⟨[], by rw [List.nil_append, ahead_append hx]⟩
  | serve y l =>
      have hy : y ≠ x := by
        rintro rfl
        exact (List.nodup_cons.mp hl).1 hx'
      rw [show ahead x (y :: l') = y :: ahead x l' by simp [ahead, hy]]
      exact List.suffix_cons ..
  | quit _ y => exact ⟨[], by rw [List.nil_append, ahead_append hx']⟩
  | clear => cases hx'

end Os161Paging
