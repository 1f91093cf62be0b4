import Os161Paging.Frames
import Os161Paging.Transitions

/-!
# Which slot of the TLB is written

`tlb_loadentry` looks for a slot that is not valid until it fails to find
one; from then on the static flag `tlb_full` sends every load to the
round-robin victim. The two functions that invalidate slots do not touch the
flag. Whether a load chooses its slot as it should is settled here for every
history of calls.
-/

namespace Os161Paging

open Prog

namespace Tlb

variable {t : Tid} {s s' : Sys} {e : TlbEntry}

/-! ## Histories -/

inductive Call where
  | loadentry (faultaddress paddr : Nat) (readOnly : Bool)
  | invalidate
  | invalidateVaddr (vaddr : Nat)

def Call.code : Call → VM Unit
  | .loadentry faultaddress paddr readOnly => do
      let _ ← tlbLoadentry faultaddress paddr readOnly
  | .invalidate => tlbInvalidate
  | .invalidateVaddr vaddr => tlbInvalidateVaddr vaddr

/-- What the rest of the kernel does between two calls: it neither touches the
TLB nor the static variables of `vm_tlb.c`, and gives `stats_lock` back. -/
structure Elsewhere (s s' : Sys) : Prop where
  tlb : s'.tlb = s.tlb
  full : s'.tlbFull = s.tlbFull
  victim : s'.nextVictim = s.nextVictim
  stats : s'.owner .stats = none

/-- All histories of the TLB from boot on: calls by any thread, and anything
between them. -/
def system : Transitions Sys where
  start s := ∃ w ram disk lastpaddr firstfree swapFileSize,
    s = boot w ram disk lastpaddr firstfree swapFileSize
  step s s' := (∃ t c, (Call.code c).run t s = .ok ((), s')) ∨ Elsewhere s s'

/-! ## One call -/

/-- `tlb_loadentry` returns wherever `stats_lock` is free. -/
theorem tlbLoadentry_run {fa paddr : Nat} {ro : Bool} (hstats : s.owner .stats = none) :
    (tlbLoadentry fa paddr ro).run t s =
      .ok (none, (tlbLoad s ⟨fa, tlbLo paddr ro⟩).2.bump (tlbLoad s ⟨fa, tlbLo paddr ro⟩).1) := by
  obtain ⟨i, s1, hload⟩ : ∃ i s1, tlbLoad s ⟨fa, tlbLo paddr ro⟩ = (i, s1) := ⟨_, _, rfl⟩
  have hown : s1.owner .stats = none := by
    have := congrFun (@tlbLoad_owner s ⟨fa, tlbLo paddr ro⟩) .stats
    rw [hload] at this
    exact this.trans hstats
  have h2 : (vmStatsInc i).run t s1 = .ok ((), s1.bump i) :=
    vmStatsInc_eq_ok.mpr ⟨.inr hown, rfl⟩
  rw [tlbLoadentry, run_bind, run_exec, hload, Outcome.bind_ok, run_bind, h2]
  rfl

/-- What every history keeps: the TLB has its slots, the victim is one of them,
and no call is left with `stats_lock`. -/
structure Kept (s : Sys) : Prop where
  slots : s.tlb.length = numTlb
  victim : s.nextVictim < numTlb
  stats : s.owner .stats = none

theorem Kept.tlbLoad (h : Kept s) : Kept (tlbLoad s e).2 := by
  refine ⟨?_, ?_, (congrFun tlbLoad_owner _).trans h.stats⟩
  · rw [Os161Paging.tlbLoad]
    split <;> simpa [Sys.tlbWrite] using h.slots
  · rw [Os161Paging.tlbLoad]
    split
    · exact h.victim
    · exact Nat.mod_lt _ (by decide)

theorem Kept.tlbDrop {vaddr : Nat} (h : Kept s) : Kept (s.tlbDrop vaddr) := by
  rw [Sys.tlbDrop]
  split
  · exact ⟨(List.length_set ..).trans h.slots, h.victim, h.stats⟩
  · exact h

theorem Kept.bump {i : Stat} (h : Kept s) : Kept (s.bump i) := ⟨h.slots, h.victim, h.stats⟩

theorem emptyTlb_length : emptyTlb.length = numTlb := by decide

theorem Kept.step (h : Kept s) (hs : system.step s s') : Kept s' := by
  rcases hs with ⟨t, c, hrun⟩ | he
  · cases c with
    | loadentry fa paddr ro =>
        obtain ⟨_, _, h1, h2⟩ := run_bind_eq_ok.mp hrun
        rw [tlbLoadentry_run h.stats] at h1
        cases h1
        obtain ⟨-, rfl⟩ := pure_eq_ok.mp h2
        exact h.tlbLoad.bump
    | invalidate =>
        obtain ⟨_, _, h1, h2⟩ := run_bind_eq_ok.mp hrun
        obtain rfl := modify_eq_ok.mp h1
        obtain ⟨-, rfl⟩ := vmStatsInc_eq_ok.mp h2
        exact Kept.bump ⟨emptyTlb_length, h.victim, h.stats⟩
    | invalidateVaddr vaddr =>
        obtain rfl := modify_eq_ok.mp hrun
        exact h.tlbDrop
  · exact ⟨he.tlb ▸ h.slots, he.victim ▸ h.victim, he.stats⟩

theorem Kept.reachable (h : system.Reachable s) : Kept s := by
  refine h.invariant ?_ fun _ _ hk hs => hk.step hs
  rintro _ ⟨w, ram, disk, lastpaddr, firstfree, swapFileSize, rfl⟩
  exact ⟨emptyTlb_length, Nat.mod_lt 0 (by decide), rfl⟩

/-! ## The slot that is written -/

/-- `k` is the lowest-numbered slot that is not valid. -/
def Lowest (tlb : List TlbEntry) (k : Nat) : Prop :=
  (∃ e, tlb[k]? = some e ∧ e.valid = false) ∧
    ∀ j < k, ∀ e, tlb[j]? = some e → e.valid = true

theorem tlbFree_eq_some {tlb : List TlbEntry} {k : Nat} :
    tlbFree tlb = some k ↔ Lowest tlb k := by
  rw [tlbFree, List.findIdx?_eq_some_iff_getElem]
  constructor
  · rintro ⟨hk, hinv, hbelow⟩
    refine ⟨⟨tlb[k], List.getElem?_eq_getElem hk, by simpa using hinv⟩, fun j hj e he => ?_⟩
    obtain ⟨hlt, rfl⟩ := List.getElem?_eq_some_iff.mp he
    simpa using hbelow j hj
  · rintro ⟨⟨e, he, hinv⟩, hbelow⟩
    obtain ⟨hk, rfl⟩ := List.getElem?_eq_some_iff.mp he
    exact ⟨hk, by simpa using hinv, fun j hj => by
      simpa using hbelow j hj tlb[j] (List.getElem?_eq_getElem (by omega))⟩

theorem tlbFree_eq_none {tlb : List TlbEntry} :
    tlbFree tlb = none ↔ ∀ e ∈ tlb, e.valid = true := by
  simp [tlbFree, List.findIdx?_eq_none_iff]

/-- A load of the entry `e` that led from `s` to `s'` chose its slot as
documented: the lowest-numbered one that is not valid, and a valid one only if
all are; and it counted what it did. -/
structure Proper (s s' : Sys) (e : TlbEntry) : Prop where
  free : ∀ k, Lowest s.tlb k →
    s'.tlb = s.tlb.set k e ∧ s'.counters = (s.bump .tlbFaultWithFree).counters
  replace : (∀ e ∈ s.tlb, e.valid = true) →
    ∃ k < numTlb, s'.tlb = s.tlb.set k e ∧ s'.counters = (s.bump .tlbFaultWithReplace).counters

theorem proper_of_free {k : Nat} (hfull : s.tlbFull = false) (hk : tlbFree s.tlb = some k) :
    Proper s ((tlbLoad s e).2.bump (tlbLoad s e).1) e := by
  have hload : tlbLoad s e = (.tlbFaultWithFree, s.tlbWrite k e) := by
    simp [tlbLoad, hfull, hk]
  rw [hload]
  constructor
  · intro j hj
    obtain rfl := Option.some.inj (hk.symm.trans (tlbFree_eq_some.mpr hj))
    exact ⟨rfl, rfl⟩
  · intro hall
    rw [tlbFree_eq_none.mpr hall] at hk
    cases hk

theorem tlbLoad_replace (h : s.tlbFull = true ∨ tlbFree s.tlb = none) :
    tlbLoad s e = (.tlbFaultWithReplace, { s.tlbWrite s.nextVictim e with
      tlbFull := true
      nextVictim := (s.nextVictim + 1) % numTlb }) := by
  have hnone : (if s.tlbFull then none else tlbFree s.tlb) = none := by
    rcases h with h | h <;> simp [h]
  rw [tlbLoad, hnone]

theorem proper_of_all_valid (hk : Kept s) (hall : ∀ e ∈ s.tlb, e.valid = true) :
    Proper s ((tlbLoad s e).2.bump (tlbLoad s e).1) e := by
  have hnone := tlbFree_eq_none.mpr hall
  rw [tlbLoad_replace (.inr hnone)]
  constructor
  · intro j hj
    rw [tlbFree_eq_some.mpr hj] at hnone
    cases hnone
  · exact fun _ => ⟨s.nextVictim, hk.victim, rfl, rfl⟩

/-- With the flag set a load is counted as a replacement, whatever the slots hold. -/
theorem not_proper_of_full {k : Nat} (hfull : s.tlbFull = true) (hk : tlbFree s.tlb = some k) :
    ¬ Proper s ((tlbLoad s e).2.bump (tlbLoad s e).1) e := by
  intro h
  have hc := (h.free k (tlbFree_eq_some.mp hk)).2
  rw [tlbLoad_replace (.inl hfull)] at hc
  -- the counter of free loads has stayed where it was
  have hc := congrFun hc .tlbFaultWithFree
  simp only [Sys.bump, Sys.tlbWrite, Function.update_self, ne_eq, reduceCtorEq, not_false_eq_true,
    Function.update_of_ne, wrap] at hc
  omega

/-- **A load chooses its slot as documented exactly if `tlb_full` tells the
truth**: in every state of every history, `tlb_loadentry` returns 0, and it
writes the lowest invalid slot, or a valid one only when all are valid, if and
only if the flag is clear or all slots are valid. -/
theorem tlbLoadentry_proper_iff (h : system.Reachable s) (t : Tid) (fa paddr : Nat) (ro : Bool) :
    ∃ s', (tlbLoadentry fa paddr ro).run t s = .ok (none, s') ∧
      (Proper s s' ⟨fa, tlbLo paddr ro⟩ ↔ (s.tlbFull = true → ∀ e ∈ s.tlb, e.valid = true)) := by
  have hkept := Kept.reachable h
  refine ⟨_, tlbLoadentry_run hkept.stats, ?_⟩
  cases hk : tlbFree s.tlb with
  | none =>
      have hall := tlbFree_eq_none.mp hk
      exact iff_of_true (proper_of_all_valid hkept hall) fun _ => hall
  | some k =>
      cases hfull : s.tlbFull with
      | false => exact iff_of_true (proper_of_free hfull hk) nofun
      | true =>
          refine iff_of_false (not_proper_of_full hfull hk) fun hall => ?_
          rw [tlbFree_eq_none.mpr (hall rfl)] at hk
          cases hk

def perform (c : Call) (s : Sys) : Option Sys :=
  match c.code.run .kernel s with
  | .ok (_, s') => some s'
  | _ => none

theorem perform_eq_some {c : Call} (h : perform c s = some s') : system.step s s' := by
  rw [perform] at h
  split at h
  · rename_i u s1 hrun
    obtain rfl := Option.some.inj h
    exact .inl ⟨.kernel, c, hrun⟩
  · cases h

/-- One load more than there are slots, and a flush as on a context switch. -/
def fillAndFlush : List Call :=
  (List.range (numTlb + 1)).map (fun k => .loadentry (k * pageSize) (k * pageSize) true) ++
    [.invalidate]

/-- After the TLB has been full once, a load into an empty TLB is counted as a
replacement and goes past slot 0. -/
theorem empty_tlb_replaced :
    ∃ s s', system.Reachable s ∧ (∀ e ∈ s.tlb, e.valid = false) ∧
      (tlbLoadentry 0x400000 0x2000 false).run .kernel s = .ok (none, s') ∧
      ¬ Proper s s' ⟨0x400000, tlbLo 0x2000 false⟩ := by
  have hrun : (fillAndFlush.foldlM (fun s c => perform c s)
      (boot .calm (fun _ => 0) (fun _ => 0) (3 * pageSize) pageSize 0)).any
        (fun s => s.tlbFull && s.tlb == emptyTlb) = true := by decide +kernel
  obtain ⟨s, hs, hcheck⟩ := (Option.any_eq_true _ _).mp hrun
  obtain ⟨hfull, htlb⟩ := Bool.and_eq_true_iff.mp hcheck
  have htlb : s.tlb = emptyTlb := eq_of_beq htlb
  have hr : system.Reachable s :=
    .moves (fun _ _ _ => perform_eq_some) fillAndFlush (.init ⟨_, _, _, _, _, _, rfl⟩) hs
  have hfree : tlbFree s.tlb = some 0 := htlb ▸ by decide
  exact ⟨s, _, hr, htlb ▸ by decide, tlbLoadentry_run (Kept.reachable hr).stats,
    not_proper_of_full hfull hfree⟩

/-- Three loads, and the second translation is given up. -/
def loadAndInvalidate : List Call :=
  (List.range 3).map (fun k => .loadentry (k * pageSize) (k * pageSize) true) ++
    [.invalidateVaddr pageSize]

theorem tlbLoadentry_proper_after_invalidation :
    ∃ s s', system.Reachable s ∧ tlbFree s.tlb = some 1 ∧
      (tlbLoadentry 0x400000 0x2000 false).run .kernel s = .ok (none, s') ∧
      Proper s s' ⟨0x400000, tlbLo 0x2000 false⟩ := by
  have hrun : (loadAndInvalidate.foldlM (fun s c => perform c s)
      (boot .calm (fun _ => 0) (fun _ => 0) (3 * pageSize) pageSize 0)).any
        (fun s => !s.tlbFull && tlbFree s.tlb == some 1) = true := by decide +kernel
  obtain ⟨s, hs, hcheck⟩ := (Option.any_eq_true _ _).mp hrun
  simp only [Bool.and_eq_true, Bool.not_eq_true', beq_iff_eq] at hcheck
  obtain ⟨hnot, hfree⟩ := hcheck
  have hr : system.Reachable s :=
    .moves (fun _ _ _ => perform_eq_some) loadAndInvalidate (.init ⟨_, _, _, _, _, _, rfl⟩) hs
  obtain ⟨s', hload, hiff⟩ := tlbLoadentry_proper_iff hr .kernel 0x400000 0x2000 false
  refine ⟨s, s', hr, hfree, hload, hiff.mpr fun hfull => ?_⟩
  rw [hnot] at hfull
  cases hfull

end Tlb

end Os161Paging
