import Mathlib.Logic.Function.Iterate
import Os161Paging.Frames

/-!
# Tearing an address space down

`as_destroy` as one equation: which marks of the bitmap go, what is left in
`used`, and which entries of the coremap become free. Three mechanisms do
the work (a walk over the page table for the slots, the length of a block
for the frames of the page table, a scan for the owner for all others) and
the equation keeps them apart.
-/

namespace Os161Paging

open Prog

variable {t : Tid} {s s' : Sys} {a : AsId} {k : Nat} {pt : List PtEntry}

/-! ## The slots -/

def clearMarks (pt : List PtEntry) (m : List Bool) : List Bool :=
  pt.foldl (fun m e => if e.inSwap then m.set e.paddr false else m) m

/-- `used--`, once for every entry of `pt` in the swap file. -/
def clearUsed (pt : List PtEntry) (u : Nat) : Nat :=
  (fun u => (u + 65535) % 65536)^[pt.countP (·.inSwap)] u

def Sys.cleared (s : Sys) (pt : List PtEntry) : Sys :=
  { s with swapMap := clearMarks pt s.swapMap, used := clearUsed pt s.used }

theorem cleared_cons_of_inSwap {e : PtEntry} (h : e.inSwap = true) :
    s.cleared (e :: pt) = (s.setSlot e.paddr false).decUsed.cleared pt := by
  have hm : clearMarks (e :: pt) s.swapMap = clearMarks pt (s.swapMap.set e.paddr false) := by
    rw [clearMarks, List.foldl_cons, if_pos h, clearMarks]
  have hu : clearUsed (e :: pt) s.used = clearUsed pt ((s.used + 65535) % 65536) := by
    rw [clearUsed, List.countP_cons_of_pos h, Function.iterate_succ_apply, clearUsed]
  simp only [Sys.cleared, hm, hu, Sys.setSlot, Sys.decUsed]

theorem cleared_cons_of_not_inSwap {e : PtEntry} (h : e.inSwap = false) :
    s.cleared (e :: pt) = s.cleared pt := by
  simp only [Sys.cleared, clearMarks, clearUsed, List.foldl_cons, List.countP_cons, h,
    Bool.false_eq_true, if_false, Nat.add_zero]

/-- The loop clears the slots the entries of the list name, and no others. -/
theorem clearMarks_getElem {m : List Bool} :
    (clearMarks pt m)[k]? =
      if ∃ e ∈ pt, e.inSwap = true ∧ e.paddr = k then m[k]?.map fun _ => false else m[k]? := by
  induction pt generalizing m with
  | nil => simp [clearMarks]
  | cons e pt ih =>
      rw [clearMarks, List.foldl_cons]
      refine ih.trans ?_
      cases hin : e.inSwap with
      | false => simp [hin]
      | true =>
          by_cases hk : e.paddr = k
          · subst hk
            have hset : (m.set e.paddr false)[e.paddr]? = m[e.paddr]?.map fun _ => false := by
              rw [List.getElem?_set', if_pos rfl]
              rfl
            simp [hin, hset, Function.comp_def]
          · have hset : (m.set e.paddr false)[k]? = m[k]? := List.getElem?_set_ne hk
            simp [hin, hk, hset]

/-- Modulo `2 ^ 16`, the counter has gone down by the number of slots. -/
theorem clearUsed_add (pt : List PtEntry) (u : Nat) :
    (clearUsed pt u + pt.countP (·.inSwap)) % 65536 = u % 65536 := by
  rw [clearUsed]
  induction pt.countP (·.inSwap) generalizing u with
  | zero => rfl
  | succ n ih =>
      have := ih ((u + 65535) % 65536)
      rw [Function.iterate_succ_apply]
      omega

theorem clearSwap_eq_ok {u : Unit} :
    (clearSwap k).run t s = .ok (u, s') ↔
      s.owner .swap = none ∧ s.swapMap[k]? = some true ∧ s' = (s.setSlot k false).decUsed := by
  have hdrop : s.owner .swap = none →
      ((s.take t .swap).setSlot k false).decUsed.drop .swap = (s.setSlot k false).decUsed := by
    intro h
    simp [Sys.take, Sys.drop, Sys.setSlot, Sys.decUsed, ← h]
  simp only [clearSwap, run_bind_eq_ok, lockAcquire_eq_ok, bitmapUnmark_eq_ok, modify_eq_ok,
    lockRelease_eq_ok]
  constructor
  · rintro ⟨-, _, ⟨h, rfl⟩, -, _, ⟨hk, rfl⟩, -, _, rfl, -, rfl⟩
    exact ⟨h, hk, hdrop h⟩
  · rintro ⟨h, hk, rfl⟩
    exact ⟨(), _, ⟨h, rfl⟩, (), _, ⟨hk, rfl⟩, (), _, rfl, by simp [Sys.decUsed, Sys.setSlot],
      (hdrop h).symm⟩

theorem clearSlots_eq_ok {u : Unit} (h : (clearSlots pt).run t s = .ok (u, s')) :
    s' = s.cleared pt := by
  induction pt generalizing s with
  | nil =>
      obtain ⟨-, rfl⟩ := pure_eq_ok.mp h
      rfl
  | cons e pt ih =>
      obtain ⟨_, s1, h1, h⟩ := run_bind_eq_ok.mp h
      rw [ih h]
      cases hin : e.inSwap with
      | false =>
          rw [clearSlot, hin, if_neg (by simp)] at h1
          obtain ⟨-, rfl⟩ := pure_eq_ok.mp h1
          exact (cleared_cons_of_not_inSwap hin).symm
      | true =>
          rw [clearSlot, hin, if_pos rfl] at h1
          obtain ⟨-, -, rfl⟩ := clearSwap_eq_ok.mp h1
          exact (cleared_cons_of_inSwap hin).symm

/-! ## The frames -/

theorem freepages_eq_ok {p : Nat} {u : Unit} (h : (freepages p).run t s = .ok (u, s')) :
    p < s.firstpaddr ∧ s' = s ∨
      s.firstpaddr ≤ p ∧ ∃ e, s.coremap[(p - s.firstpaddr) / pageSize]? = some e ∧
        s' = s.emptyRun ((p - s.firstpaddr) / pageSize) e.allocpages := by
  obtain ⟨first, _, h1, h⟩ := run_bind_eq_ok.mp h
  obtain ⟨rfl, hs⟩ := gets_eq_ok.mp h1
  rw [hs] at h
  split at h
  · next hlt => exact .inl ⟨hlt, (pure_eq_ok.mp h).2⟩
  · next hle =>
      obtain ⟨_, _, h2, h⟩ := run_bind_eq_ok.mp h
      obtain ⟨hl, rfl⟩ := spinlockAcquire_eq_ok.mp h2
      obtain ⟨_, _, h3, h⟩ := run_bind_eq_ok.mp h
      obtain ⟨e, he, -, rfl⟩ := emptyBlock_eq_ok.mp h3
      obtain ⟨-, rfl⟩ := spinlockRelease_eq_ok.mp h
      exact .inr ⟨Nat.le_of_not_lt hle, e, he,
        Sys.take_drop (s := s.emptyRun ((p - s.firstpaddr) / pageSize) e.allocpages) hl⟩

def CEntry.without (a : AsId) (e : CEntry) : CEntry := if e.as = some a then e.setEmpty else e

def Sys.withoutAs (s : Sys) (a : AsId) : Sys :=
  { s with coremap := s.coremap.map (CEntry.without a), as := Function.update s.as a none }

/-- **`as_destroy` as an equation.** -/
theorem asDestroy_eq_ok {u : Unit} (h : (asDestroy a).run t s = .ok (u, s')) :
    ∃ x n s1, s.as a = some x ∧ x.npages = some n ∧
      (freepages x.ptPaddr).run t (s.cleared (x.pt.take n)) = .ok ((), s1) ∧
      s' = s1.withoutAs a := by
  obtain ⟨_, _, h1, h⟩ := run_bind_eq_ok.mp h
  rw [(canSleep_eq_ok.mp h1).2] at h
  obtain ⟨_, _, h2, h⟩ := run_bind_eq_ok.mp h
  obtain ⟨hpt, rfl⟩ := lockAcquire_eq_ok.mp h2
  obtain ⟨x, _, h3, h⟩ := run_bind_eq_ok.mp h
  obtain ⟨hx, rfl⟩ := getAs_eq_ok.mp h3
  cases hn : x.npages with
  | none =>
      rw [hn] at h
      cases h
  | some n =>
      rw [hn] at h
      obtain ⟨_, s2, h4, h⟩ := run_bind_eq_ok.mp h
      obtain ⟨_, s3, h5, h⟩ := run_bind_eq_ok.mp h
      have h3 : s3 = s.cleared (x.pt.take n) := by
        rw [(lockRelease_eq_ok.mp h5).2, clearSlots_eq_ok h4]
        simp [Sys.take, Sys.drop, Sys.cleared, ← hpt]
      obtain ⟨_, s4, h6, h⟩ := run_bind_eq_ok.mp h
      obtain ⟨_, s5, h7, h⟩ := run_bind_eq_ok.mp h
      obtain ⟨-, rfl⟩ := freeAs_eq_ok.mp h7
      refine ⟨x, n, s4, hx, hn, h3 ▸ h6, ?_⟩
      exact modify_eq_ok.mp h

end Os161Paging
