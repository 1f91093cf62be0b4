import Mathlib.Algebra.Group.Basic
import Mathlib.Data.ZMod.Basic
import Mathlib.Tactic.Abel
import Os161Paging.Faults
import Os161Paging.Teardown

/-!
# Meters

Sums over the counters of `vmstats.c` and the books of the swap file that a
page fault leaves as they are, whichever way it is served. A `Meter` is such
a sum, given by what each event is worth; that a fault adds up to nothing is
then a matter of a few equations between the worths.
-/

namespace Os161Paging

open Prog

def Sys.marked (s : Sys) : Nat := s.swapMap.count true

/-- What a meter can read: the counters, the bitmap, `used`, and how the reads of the
swap device have gone. -/
def ledger (s : Sys) : (Stat → Nat) × List Bool × Nat × (Nat → Option Errno) × Nat :=
  (s.counters, s.swapMap, s.used, s.world.swapRead, s.swapReads)

/-- A sum over the ledger. An event of a kind is worth `weight`, a slot in use `slot`;
bringing a page in is worth `served` however it is done, loading the TLB `loaded`,
and a whole fault nothing. A failed read of the swap device is worth as much as the
slot it should have freed. -/
structure Meter (M : Type) [AddCommGroup M] where
  val : Sys → M
  weight : Stat → M
  slot : M
  served : M
  loaded : M
  congr : ∀ s s', ledger s' = ledger s → val s' = val s
  bump : ∀ s i, val (s.bump i) = val s + weight i
  take : ∀ s k, s.swapMap[k]? = some false → val (s.setSlot k true).incUsed = val s + slot
  give : ∀ s k, s.swapMap[k]? = some true → val (s.setSlot k false).decUsed = val s + -slot
  read : ∀ s offset p n, val (s.readSwap offset p n) =
    val s + if s.world.swapRead s.swapReads = none then 0 else -slot
  written : slot + weight .swapWrite = 0
  fromSwap : -slot + (weight .swapRead + weight .pageFaultDisk) = served
  fromElf : weight .elfRead + weight .pageFaultDisk = served
  zeroed : weight .pageFaultZeroed = served
  reloaded : weight .tlbReload = served
  free : weight .tlbFaultWithFree = loaded
  replaced : weight .tlbFaultWithReplace = loaded
  fault : weight .tlbFault + (served + loaded) = 0
  invalidation : weight .tlbInvalidation = 0

section

variable {s : Sys} {k : Nat}

theorem marked_setSlot_true (h : s.swapMap[k]? = some false) :
    (s.setSlot k true).marked = s.marked + 1 := by
  obtain ⟨hk, hget⟩ := List.getElem?_eq_some_iff.mp h
  simp [Sys.marked, Sys.setSlot, List.count_set, hk, hget]

theorem marked_setSlot_false (h : s.swapMap[k]? = some true) :
    (s.setSlot k false).marked + 1 = s.marked := by
  obtain ⟨hk, hget⟩ := List.getElem?_eq_some_iff.mp h
  have hpos : 0 < s.swapMap.count true := List.count_pos_iff.mpr (hget ▸ List.getElem_mem hk)
  simp only [Sys.marked, Sys.setSlot, List.count_set, hk, hget]
  simp
  omega

end

namespace Meter

variable {M : Type} [AddCommGroup M] (m : Meter M) {t : Tid} {s s' : Sys} {a : AsId} {i j : Nat}

/-! ## The swap file -/

theorem leaves {α : Type} {p : VM α} (h : p.Leaves ledger t) : p.Leaves m.val t :=
  fun s x s' hrun => m.congr s s' (h s x s' hrun)

theorem vmStatsInc (i : Stat) : (vmStatsInc i).Adds m.val t (m.weight i) := by
  intro s u s' h
  rw [(vmStatsInc_eq_ok.mp h).2, m.bump]

theorem lockAcquire_leaves {l : Lock} : (lockAcquire l).Leaves ledger t := by
  intro s u s' h
  rw [(lockAcquire_eq_ok.mp h).2]
  rfl

theorem lockRelease_leaves {l : Lock} : (lockRelease l).Leaves ledger t := by
  intro s u s' h
  rw [(lockRelease_eq_ok.mp h).2]
  rfl

theorem spinlockAcquire_leaves {l : Lock} : (spinlockAcquire l).Leaves ledger t := by
  intro s u s' h
  rw [(spinlockAcquire_eq_ok.mp h).2]
  rfl

theorem spinlockRelease_leaves {l : Lock} : (spinlockRelease l).Leaves ledger t := by
  intro s u s' h
  rw [(spinlockRelease_eq_ok.mp h).2]
  rfl

theorem updPte_ledger {f : PtEntry → PtEntry} : (updPte a j f).Leaves ledger t :=
  updPte_leaves fun _ => rfl

theorem swapOut (h : (swapOut a j).run t s = .ok (none, s')) : m.val s' = m.val s + m.slot := by
  obtain ⟨_, _, h1, h⟩ := run_bind_eq_ok.mp h
  obtain ⟨-, rfl⟩ := lockAcquire_eq_ok.mp h1
  obtain ⟨full, _, h2, h⟩ := run_bind_eq_ok.mp h
  obtain ⟨-, rfl⟩ := gets_eq_ok.mp h2
  split at h
  · exact absurd (pure_eq_ok.mp h).1 nofun
  · obtain ⟨slot, s3, h3, h⟩ := run_bind_eq_ok.mp h
    obtain ⟨hslot, rfl⟩ := bitmapAlloc_eq_ok.mp h3
    cases slot with
    | none =>
        obtain ⟨_, _, -, h⟩ := run_bind_eq_ok.mp h
        exact absurd (pure_eq_ok.mp h).1 nofun
    | some k =>
        obtain ⟨e, s4, h4, h⟩ := run_bind_eq_ok.mp h
        obtain ⟨-, rfl⟩ := getPte_eq_ok.mp h4
        obtain ⟨_, s5, h5, h⟩ := run_bind_eq_ok.mp h
        obtain ⟨-, rfl⟩ := vopWrite_eq_ok.mp h5
        obtain ⟨_, s6, h6, h⟩ := run_bind_eq_ok.mp h
        obtain ⟨-, rfl⟩ := updPte_eq_ok.mp h6
        obtain ⟨_, s7, h7, h⟩ := run_bind_eq_ok.mp h
        rw [modify_eq_ok.mp h7] at h
        obtain ⟨_, s8, h8, h⟩ := run_bind_eq_ok.mp h
        obtain ⟨-, rfl⟩ := lockRelease_eq_ok.mp h8
        obtain ⟨-, rfl⟩ := pure_eq_ok.mp h
        rw [← m.take s k (s.world.alloc_clear _ _ hslot.symm)]
        refine m.congr _ _ ?_
        simp only [ledger, Sys.drop, Sys.incUsed, Sys.modPte, Sys.writeSwap, Option.elim,
          Sys.setSlot, Sys.take]

/-- `swap_in` gives a slot back, or has failed. -/
theorem swapIn {p : Nat} : (swapIn a j p true).Adds m.val t (-m.slot) := by
  intro s r s' h
  obtain ⟨_, _, h1, h⟩ := run_bind_eq_ok.mp h
  obtain ⟨-, rfl⟩ := lockAcquire_eq_ok.mp h1
  obtain ⟨e, _, h2, h⟩ := run_bind_eq_ok.mp h
  obtain ⟨-, rfl⟩ := getPte_eq_ok.mp h2
  obtain ⟨err, _, h3, h⟩ := run_bind_eq_ok.mp h
  obtain ⟨herr, rfl⟩ := loadSegment_swap_eq_ok.mp h3
  have hread := m.read (s.take t .swap) (wrap (e.paddr * pageSize)) p pageSize
  have htake : m.val (s.take t .swap) = m.val s := m.congr _ _ rfl
  rw [← herr, htake] at hread
  cases err with
  | some err =>
      obtain ⟨-, rfl⟩ := pure_eq_ok.mp h
      rw [hread, if_neg nofun]
  | none =>
      obtain ⟨_, _, h4, h⟩ := run_bind_eq_ok.mp h
      obtain ⟨hset, rfl⟩ := leaveSlot_eq_ok.mp h4
      have hrest : (do
          updPte a j fun e => { e with paddr := p }
          lockRelease .swap
          return none : VM (Option Errno)).Leaves ledger t :=
        .bind updPte_ledger fun _ => .bind lockRelease_leaves fun _ => .pure _
      rw [m.leaves hrest _ _ _ h, if_pos rfl, m.give _ _ hset, hread, if_pos rfl, add_zero]

theorem clearSwap {k : Nat} : (clearSwap k).Adds m.val t (-m.slot) := by
  intro s u s' h
  obtain ⟨-, hset, rfl⟩ := clearSwap_eq_ok.mp h
  exact m.give s k hset

/-! ## The fault path -/

theorem saveVictim {w : Bool} : (saveVictim a j w).Leaves m.val t := by
  refine .ite (fun s u s' h => ?_) (m.leaves updPte_ledger)
  obtain ⟨err, s1, h1, h⟩ := run_bind_eq_ok.mp h
  obtain ⟨_, s2, h2, h⟩ := run_bind_eq_ok.mp h
  cases err with
  | some err => exact (fail_eq_ok.mp h2).elim
  | none =>
      obtain ⟨-, rfl⟩ := pure_eq_ok.mp h2
      have hrest : (do
          Os161Paging.vmStatsInc .swapWrite
          updPte a j fun e => { e with inSwap := true } : VM Unit).Adds m.val t
            (m.weight .swapWrite) :=
        .before (m.vmStatsInc .swapWrite) fun _ => m.leaves updPte_ledger
      rw [hrest _ _ _ h, m.swapOut h1, add_assoc, m.written, add_zero]

theorem getPage {v : Nat} : (getPage false v (some a)).Leaves m.val t := by
  have hevict : ∀ j, (evict a j).Leaves m.val t := fun j =>
    .bind getPte_leaves fun e => .bind m.saveVictim fun _ =>
      m.leaves (.bind updPte_ledger fun _ => tlbInvalidateVaddr_leaves fun _ _ => rfl)
  refine .bind (m.leaves spinlockAcquire_leaves) fun _ => .bind (.gets _) fun active => .ite ?_ ?_
  · refine .bind (m.leaves fun s r s' h => ?_) fun free => ?_
    · obtain ⟨-, rfl⟩ := claimFree_eq_ok.mp h
      cases r <;> rfl
    · cases free with
      | some i => exact .bind (m.leaves spinlockRelease_leaves) fun _ => .gets _
      | none =>
          refine .bind getAvailableSwap_leaves fun avail => .ite ?_ (.fail _)
          refine .bind (m.leaves fun s r s' h => ?_) fun i =>
            .bind (m.leaves spinlockRelease_leaves) fun _ =>
            .bind (m.leaves lockAcquire_leaves) fun _ => .bind (.bind (.gets _) fun p =>
              .bind findPaddr_leaves fun r => ?_) fun addr =>
                .bind (m.leaves lockRelease_leaves) fun _ => .gets _
          · obtain ⟨next, -, rfl⟩ := findVictim_eq_ok.mp h
            rfl
          · cases r with
            | none => exact .pure _
            | some j => exact .bind (hevict j) fun _ => .pure _
  · exact .bind (m.leaves spinlockRelease_leaves) fun _ => .pure _

theorem pageInSwap {fa : Nat} : (pageInSwap a i fa).Adds m.val t m.served :=
  .after (m.leaves lockRelease_leaves) fun _ => .after m.getPage fun _ =>
    .after (m.leaves lockAcquire_leaves) fun _ => m.fromSwap ▸ .bind m.swapIn fun _ =>
      .after (m.leaves updPte_ledger) fun _ => .bind (m.vmStatsInc _) fun _ => m.vmStatsInc _

theorem pageInFresh {fa : Nat} {seg : Segment} {last : Bool} :
    (pageInFresh a i seg last fa).Adds m.val t m.served := by
  have hframe : (ensureFrame a i fa).Leaves m.val t :=
    .bind getPte_leaves fun e => .ite (.bind (m.leaves lockRelease_leaves) fun _ =>
      .bind m.getPage fun _ => m.leaves (.bind updPte_ledger fun _ => lockAcquire_leaves)) (.pure _)
  refine .after hframe fun _ => .after getPte_leaves fun e => .ite ?_ ?_
  · exact .after (m.leaves (.modify fun _ => rfl)) fun _ => m.zeroed ▸ m.vmStatsInc _
  · exact .after (m.leaves (loadElfOndemand_leaves fun _ _ _ _ _ => rfl)) fun _ =>
      m.fromElf ▸ .bind (m.vmStatsInc _) fun _ => m.vmStatsInc _

/-- However a fault is served, it is counted once. -/
theorem pageIn {fa : Nat} {seg : Segment} {last : Bool} :
    (pageIn a i seg last fa).Adds m.val t m.served := by
  refine .after getPte_leaves fun e => .ite (m.reloaded ▸ m.vmStatsInc _) ?_
  exact .before (.ite m.pageInSwap m.pageInFresh) fun _ => m.leaves updPte_ledger

/-- However the TLB is loaded, it is counted once. -/
theorem tlbLoadentry {fa p : Nat} {ro : Bool} : (tlbLoadentry fa p ro).Adds m.val t m.loaded := by
  intro s r s' h
  obtain ⟨k, s1, h1, h⟩ := run_bind_eq_ok.mp h
  obtain ⟨hk, rfl⟩ := tlbLoad_eq_ok.mp h1
  have hload : m.weight k = m.loaded ∧ ledger (tlbLoad s ⟨fa, tlbLo p ro⟩).2 = ledger s := by
    rw [hk, tlbLoad]
    split
    · exact ⟨m.free, rfl⟩
    · exact ⟨m.replaced, rfl⟩
  have hrest : (do Os161Paging.vmStatsInc k; return none : VM (Option Errno)).Adds m.val t
      (m.weight k) := .before (m.vmStatsInc k) fun _ => .pure _
  rw [hrest _ _ _ h, hload.1, m.congr _ _ hload.2]

/-- **A fault that returns 0 leaves every meter as it was**, any other one counts as a
fault that was not served. -/
theorem vmFault {ty : FaultType} {fa : Nat} {r : Option Errno}
    (h : (vmFault ty fa).run t s = .ok (r, s')) :
    r = none ∧ m.val s' = m.val s ∨ r ≠ none ∧ m.val s' = m.val s + m.weight .tlbFault := by
  obtain ⟨-, rfl, rfl⟩ | ⟨a, x, i, seg, last, -, -, -, -, ⟨-, rfl, rfl⟩ | ⟨-, h⟩⟩ := vmFault_cases h
  · exact .inr ⟨nofun, m.bump s _⟩
  · exact .inr ⟨nofun, m.bump s _⟩
  · have hr : r = none := by
      obtain ⟨_, _, -, h⟩ := run_bind_eq_ok.mp h
      obtain ⟨_, _, -, h⟩ := run_bind_eq_ok.mp h
      obtain ⟨r', _, h1, h⟩ := run_bind_eq_ok.mp h
      obtain ⟨_, _, -, h⟩ := run_bind_eq_ok.mp h
      obtain ⟨_, _, -, h1⟩ := run_bind_eq_ok.mp h1
      obtain ⟨_, _, -, h1⟩ := run_bind_eq_ok.mp h1
      rw [(pure_eq_ok.mp h).1, (pure_eq_ok.mp h1).1]
    have hserve : (faultAt a i seg last (pageFrame fa)).Adds m.val t (m.served + m.loaded) :=
      .bind m.pageIn fun _ => .after getPte_leaves fun e =>
        .before m.tlbLoadentry fun _ => .bind (m.leaves lockRelease_leaves) fun _ => .pure _
    have hstart : m.val ((s.bump .tlbFault).take t (.pt a)) = m.val s + m.weight .tlbFault :=
      (m.congr (s.bump .tlbFault) ((s.bump .tlbFault).take t (.pt a)) rfl).trans (m.bump s _)
    rw [hserve _ _ _ h, hstart, add_assoc, m.fault, add_zero]
    exact .inl ⟨hr, rfl⟩

/-! ## The other calls -/

theorem asActivate : asActivate.Leaves m.val t := by
  refine .bind (.gets _) fun cur => ?_
  cases cur with
  | none => exact .pure _
  | some a =>
      refine .bind (m.leaves (.modify fun _ => rfl)) fun _ s u s' h => ?_
      rw [m.vmStatsInc .tlbInvalidation _ _ _ h, m.invalidation, add_zero]

theorem clearSlots (pt : List PtEntry) :
    (clearSlots pt).Adds m.val t (pt.countP (·.inSwap) • -m.slot) := by
  induction pt with
  | nil =>
      rw [List.countP_nil, zero_smul]
      exact .of_leaves (.pure _)
  | cons e pt ih =>
      cases hin : e.inSwap with
      | true =>
          have hsum : -m.slot + pt.countP (·.inSwap) • -m.slot =
              (e :: pt).countP (·.inSwap) • -m.slot := by
            rw [List.countP_cons_of_pos hin, add_comm, ← succ_nsmul]
          refine hsum ▸ .bind ?_ fun _ => ih
          rw [clearSlot, hin, if_pos rfl]
          exact m.clearSwap
      | false =>
          rw [List.countP_cons_of_neg (by simp [hin])]
          refine .after ?_ fun _ => ih
          rw [clearSlot, hin, if_neg (by simp)]
          exact .pure _

/-- `as_destroy` gives a slot back for every page in the swap file. -/
theorem asDestroy {x : Addrspace} (hx : s.as a = some x)
    (h : (asDestroy a).run t s = .ok ((), s')) :
    m.val s' = m.val s + (x.pt.take (x.npages.getD 0)).countP (·.inSwap) • -m.slot := by
  obtain ⟨_, _, h1, h⟩ := run_bind_eq_ok.mp h
  rw [(canSleep_eq_ok.mp h1).2] at h
  obtain ⟨_, _, h2, h⟩ := run_bind_eq_ok.mp h
  obtain ⟨-, rfl⟩ := lockAcquire_eq_ok.mp h2
  obtain ⟨y, _, h3, h⟩ := run_bind_eq_ok.mp h
  obtain ⟨hy, rfl⟩ := getAs_eq_ok.mp h3
  obtain rfl := Option.some.inj (hx.symm.trans hy)
  cases hn : x.npages with
  | none =>
      rw [hn] at h
      cases h
  | some n =>
      rw [hn] at h
      have hfree : (freepages x.ptPaddr).Leaves ledger t := by
        intro s u s' h
        obtain ⟨-, rfl⟩ | ⟨-, e, -, rfl⟩ := freepages_eq_ok h
        · rfl
        · rfl
      have hrest : (do
          Os161Paging.clearSlots (x.pt.take n)
          lockRelease (.pt a)
          freepages x.ptPaddr
          freeAs a
          Prog.modify fun s => { s with as := Function.update s.as a none } : VM Unit).Adds m.val t
            ((x.pt.take n).countP (·.inSwap) • -m.slot) := by
        refine .before (m.clearSlots _) fun _ => m.leaves (.bind lockRelease_leaves fun _ =>
          .bind hfree fun _ => .bind (fun s u s' h => ?_) fun _ => .modify fun _ => rfl)
        obtain ⟨-, rfl⟩ := freeAs_eq_ok.mp h
        rfl
      rw [hrest _ _ _ h, Option.getD_some]
      congr 1
      exact m.congr _ _ rfl

/-! ## The counter `used` -/

/-- `used` against the marked slots, modulo `2 ^ 16`. -/
def usage : Meter (ZMod 65536) where
  val s := (s.used : ZMod 65536) - s.marked
  weight _ := 0
  slot := 0
  served := 0
  loaded := 0
  congr s s' h := by
    simp only [ledger, Prod.mk.injEq] at h
    obtain ⟨-, hmap, hused, -⟩ := h
    rw [Sys.marked, hmap, hused, Sys.marked]
  bump s i := (add_zero _).symm
  take s k hk := by
    have hm : (s.setSlot k true).incUsed.marked = s.marked + 1 := by
      rw [← marked_setSlot_true hk]
      simp only [Sys.marked, Sys.incUsed]
    have hu : ((s.setSlot k true).incUsed.used : ZMod 65536) = s.used + 1 := by
      simp only [Sys.incUsed, Sys.setSlot, ZMod.natCast_mod]
      push_cast
      rfl
    rw [hm, hu]
    push_cast
    abel
  give s k hk := by
    have hm : (s.setSlot k false).decUsed.marked + 1 = s.marked := by
      rw [← marked_setSlot_false hk]
      simp only [Sys.marked, Sys.decUsed]
    have hu : ((s.setSlot k false).decUsed.used : ZMod 65536) = s.used - 1 := by
      simp only [Sys.decUsed, Sys.setSlot, ZMod.natCast_mod]
      push_cast
      rw [sub_eq_add_neg]
      congr 1
    rw [← hm, hu]
    push_cast
    abel
  read s offset p n := by
    simp only [Sys.readSwap, Sys.marked, neg_zero, ite_self, add_zero]
  written := add_zero 0
  fromSwap := by simp
  fromElf := add_zero 0
  zeroed := rfl
  reloaded := rfl
  free := rfl
  replaced := rfl
  fault := by simp
  invalidation := rfl

end Meter

end Os161Paging
