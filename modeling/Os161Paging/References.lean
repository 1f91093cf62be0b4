import Mathlib.Data.Finset.Card
import Mathlib.Logic.Function.Basic

/-!
# Counting references

The mathematics of a reference count. Each of a finite set of holders
holds a reference to at most one thing; `refs live f k` is the number of
references to `k`. A holder that takes a reference or drops one changes
this number by one for that thing and for no other. An operation that at
most loses references keeps the number exactly if it loses none.
-/

namespace Os161Paging

variable {H K : Type*} [DecidableEq K] {live live' : Finset H} {f f' : H → Option K} {h : H}
  {j k : K}

/-- How many of the holders in `live` hold `k`. -/
def refs (live : Finset H) (f : H → Option K) (k : K) : Nat := (live.filter (f · = some k)).card

theorem refs_pos (hl : h ∈ live) (hk : f h = some k) : 0 < refs live f k :=
  Finset.card_pos.mpr ⟨h, Finset.mem_filter.mpr ⟨hl, hk⟩⟩

/-- Where no new reference to `k` comes up, their number stays the same exactly if none
is lost. -/
theorem refs_eq_iff (hsub : ∀ h ∈ live', f' h = some k → h ∈ live ∧ f h = some k) :
    refs live' f' k = refs live f k ↔ ∀ h ∈ live, f h = some k → h ∈ live' ∧ f' h = some k := by
  have hle : live'.filter (f' · = some k) ⊆ live.filter (f · = some k) := by
    intro h hh
    rw [Finset.mem_filter] at hh ⊢
    exact hsub h hh.1 hh.2
  constructor
  · intro heq h hl hk
    have hset := Finset.eq_of_subset_of_card_le hle heq.ge
    exact Finset.mem_filter.mp (hset ▸ Finset.mem_filter.mpr ⟨hl, hk⟩)
  · intro hall
    refine congrArg Finset.card (hle.antisymm fun h hh => ?_)
    rw [Finset.mem_filter] at hh ⊢
    exact hall h hh.1 hh.2

theorem refs_congr (h : ∀ h, h ∈ live' ∧ f' h = some k ↔ h ∈ live ∧ f h = some k) :
    refs live' f' k = refs live f k :=
  (refs_eq_iff fun x hx hk => (h x).mp ⟨hx, hk⟩).mpr fun x hx hk => (h x).mpr ⟨hx, hk⟩

variable [DecidableEq H]

theorem refs_take (hl : h ∈ live) (hnone : f h = none) :
    refs live (Function.update f h (some k)) j = refs live f j + if j = k then 1 else 0 := by
  by_cases hjk : j = k
  · subst hjk
    have hins : live.filter (Function.update f h (some j) · = some j) =
        insert h (live.filter (f · = some j)) := by
      ext x
      by_cases hx : x = h
      · subst hx
        simp [hl]
      · simp [hx]
    have hnew : h ∉ live.filter (f · = some j) := by simp [hnone]
    rw [refs, hins, Finset.card_insert_of_notMem hnew, if_pos rfl, refs]
  · rw [if_neg hjk, Nat.add_zero]
    refine refs_congr fun x => ?_
    by_cases hx : x = h
    · subst hx
      simp [hnone, Ne.symm hjk]
    · simp [hx]

theorem refs_drop (hl : h ∈ live) (hk : f h = some k) :
    refs live (Function.update f h none) j + (if j = k then 1 else 0) = refs live f j := by
  have hback : Function.update (Function.update f h none) h (some k) = f := by
    rw [Function.update_idem, ← hk, Function.update_eq_self]
  rw [← refs_take hl (Function.update_self ..), hback]

end Os161Paging
