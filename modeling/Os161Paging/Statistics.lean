import Mathlib.Algebra.Group.Prod
import Os161Paging.LoadElf
import Os161Paging.Meters
import Os161Paging.Transitions

/-!
# The statistics

The counters of `vmstats.c` against each other and against the bitmap of
the swap file. Each identity between them is a sum that stays zero; the
four sums together are a meter. All of it is modulo `2 ^ 32`, as the
counters are.
-/

namespace Os161Paging

open Prog

/-! ## The sums -/

/-- Number of reads of the swap device that have failed. -/
def Sys.failedReads (s : Sys) : Nat :=
  (List.range s.swapReads).countP fun n => (s.world.swapRead n).isSome

namespace Statistics

/-- The residues the counters count in. -/
abbrev Residue := ZMod (2 ^ 32)

/-- Four sums, one for each identity. -/
abbrev Sums := Residue × Residue × Residue × Residue

/-- The sums in a state: faults against the two ways to load the TLB, faults against
the three ways to serve them, disk faults against the two sources, and writes to the
swap file against reads from it, slots and failed reads. -/
def sums (s : Sys) : Sums :=
  (s.counters .tlbFault - s.counters .tlbFaultWithFree - s.counters .tlbFaultWithReplace,
    s.counters .tlbFault - s.counters .pageFaultDisk - s.counters .pageFaultZeroed -
      s.counters .tlbReload,
    s.counters .pageFaultDisk - s.counters .elfRead - s.counters .swapRead,
    s.counters .swapWrite - s.counters .swapRead - s.marked + s.failedReads)

def weight : Stat → Sums
  | .tlbFault => (1, 1, 0, 0)
  | .tlbFaultWithFree | .tlbFaultWithReplace => (-1, 0, 0, 0)
  | .tlbInvalidation => 0
  | .tlbReload | .pageFaultZeroed => (0, -1, 0, 0)
  | .pageFaultDisk => (0, -1, 1, 0)
  | .elfRead => (0, 0, -1, 0)
  | .swapRead => (0, 0, -1, -1)
  | .swapWrite => (0, 0, 0, 1)

variable {s : Sys}

theorem cast_wrap (n : Nat) : ((wrap n : Nat) : Residue) = n := ZMod.natCast_mod n (2 ^ 32)

theorem sums_bump (s : Sys) (i : Stat) : sums (s.bump i) = sums s + weight i := by
  have hm : (s.bump i).marked = s.marked := rfl
  have hf : (s.bump i).failedReads = s.failedReads := rfl
  have hc : ∀ k, ((s.bump i).counters k : Residue) = s.counters k + if k = i then 1 else 0 := by
    intro k
    by_cases hk : k = i
    · subst hk
      simp [Sys.bump, cast_wrap]
    · simp [Sys.bump, hk]
  simp only [sums, hc, hm, hf]
  cases i <;> simp [weight] <;> abel_nf <;> simp

theorem sums_take {k : Nat} (h : s.swapMap[k]? = some false) :
    sums (s.setSlot k true).incUsed = sums s + (0, 0, 0, -1) := by
  have hm := marked_setSlot_true h
  have hf : (s.setSlot k true).failedReads = s.failedReads := rfl
  have hsame : sums (s.setSlot k true).incUsed = sums (s.setSlot k true) := by
    simp only [sums, Sys.incUsed, Sys.marked, Sys.failedReads]
  have hc : (s.setSlot k true).counters = s.counters := rfl
  rw [hsame]
  simp only [sums, hm, hf, hc]
  ext <;> simp
  abel

theorem sums_give {k : Nat} (h : s.swapMap[k]? = some true) :
    sums (s.setSlot k false).decUsed = sums s + (0, 0, 0, 1) := by
  have hm := marked_setSlot_false h
  have hf : (s.setSlot k false).failedReads = s.failedReads := rfl
  have hsame : sums (s.setSlot k false).decUsed = sums (s.setSlot k false) := by
    simp only [sums, Sys.decUsed, Sys.marked, Sys.failedReads]
  have hc : (s.setSlot k false).counters = s.counters := rfl
  rw [hsame]
  simp only [sums, ← hm, hf, hc]
  ext <;> simp
  abel

theorem sums_readSwap (s : Sys) (offset p n : Nat) :
    sums (s.readSwap offset p n) =
      sums s + if s.world.swapRead s.swapReads = none then 0 else (0, 0, 0, 1) := by
  have hf : ((s.readSwap offset p n).failedReads : Residue) =
      s.failedReads + if s.world.swapRead s.swapReads = none then 0 else 1 := by
    simp only [Sys.failedReads, Sys.readSwap, List.range_succ, List.countP_append,
      List.countP_singleton]
    cases s.world.swapRead s.swapReads <;> simp
  have hm : (s.readSwap offset p n).marked = s.marked := rfl
  have hc : (s.readSwap offset p n).counters = s.counters := rfl
  simp only [sums, hf, hm, hc]
  split
  · simp
  · ext <;> simp
    abel

def identities : Meter Sums where
  val := sums
  weight := weight
  slot := (0, 0, 0, -1)
  served := (0, -1, 0, 0)
  loaded := (-1, 0, 0, 0)
  congr s s' h := by
    simp only [ledger, Prod.mk.injEq] at h
    obtain ⟨h1, h2, -, h3, h4⟩ := h
    simp only [sums, Sys.marked, Sys.failedReads, h1, h2, h3, h4]
  bump := sums_bump
  take _ _ := sums_take
  give s k h := (sums_give h).trans (by simp)
  read s offset p n := (sums_readSwap s offset p n).trans (by simp)
  written := by simp [weight]
  fromSwap := by simp [weight]
  fromElf := by simp [weight]
  zeroed := rfl
  reloaded := rfl
  free := rfl
  replaced := rfl
  fault := by simp [weight]
  invalidation := rfl

/-- Slots that `as_destroy` of the address space gives back. -/
def swappedPages (x : Addrspace) : Nat := (x.pt.take (x.npages.getD 0)).countP (·.inSwap)

/-! ## Runs -/

/-- The state and the number of slots that `clear_swap` has given back. -/
structure Tally where
  sys : Sys
  released : Nat

/-- The parts of the state that the identities are about. -/
def books (s : Sys) : (Stat → Nat) × List Bool × (Nat → Option Errno) × Nat :=
  (s.counters, s.swapMap, s.world.swapRead, s.swapReads)

/-- Runs of page faults that return 0, context switches and `as_destroy` calls, with
anything in between that touches neither counters nor swap file. -/
def system : Transitions Tally where
  start c := (∀ i, c.sys.counters i = 0) ∧ c.sys.marked = 0 ∧ c.sys.swapReads = 0 ∧ c.released = 0
  step c c' :=
    (∃ t ty fa s', (vmFault ty fa).run t c.sys = .ok (none, s') ∧ c' = { c with sys := s' }) ∨
    (∃ t cur s', asActivate.run t { c.sys with cur := cur } = .ok ((), s') ∧
      c' = { c with sys := s' }) ∨
    (∃ t a x s', c.sys.as a = some x ∧ (asDestroy a).run t c.sys = .ok ((), s') ∧
      c' = ⟨s', c.released + swappedPages x⟩) ∨
    ∃ s', books s' = books c.sys ∧ c' = { c with sys := s' }

/-- The comparisons of `vm_stats_print`, none of which reports an inconsistency. -/
structure Consistent (s : Sys) : Prop where
  tlb : wrap (s.counters .tlbFault) =
    wrap (s.counters .tlbFaultWithFree + s.counters .tlbFaultWithReplace)
  page : wrap (s.counters .tlbFault) =
    wrap (s.counters .pageFaultDisk + s.counters .pageFaultZeroed + s.counters .tlbReload)
  disk : wrap (s.counters .pageFaultDisk) = wrap (s.counters .elfRead + s.counters .swapRead)

/-- Every page written to the swap file has been read back, is still there, or has
been given up. -/
def Accounted (c : Tally) : Prop :=
  wrap (c.sys.counters .swapWrite) =
    wrap (c.sys.counters .swapRead + c.sys.marked + c.released)

theorem sums_of_reachable {c : Tally} (h : system.Reachable c) :
    sums c.sys = (0, 0, 0, (c.released : Residue)) := by
  refine h.invariant (I := fun c => sums c.sys = (0, 0, 0, (c.released : Residue)))
    (fun c hc => ?_) fun c c' hc hs => ?_
  · obtain ⟨hcount, hm, hr, hrel⟩ := hc
    simp [sums, hcount, hm, hrel, Sys.failedReads, hr]
  · rcases hs with ⟨t, ty, fa, s', h, rfl⟩ | ⟨t, cur, s', h, rfl⟩ | ⟨t, a, x, s', hx, h, rfl⟩ |
      ⟨s', hb, rfl⟩
    · obtain ⟨-, hsame⟩ | ⟨hne, -⟩ := identities.vmFault h
      · exact hsame.trans hc
      · exact absurd rfl hne
    · exact (identities.asActivate _ _ _ h).trans hc
    · refine (identities.asDestroy hx h).trans ?_
      change sums c.sys + swappedPages x • -((0, 0, 0, -1) : Sums) = _
      rw [hc]
      simp
    · simp only [books, Prod.mk.injEq] at hb
      obtain ⟨h1, h2, h3, h4⟩ := hb
      rw [← hc]
      simp only [sums, Sys.marked, Sys.failedReads, h1, h2, h3, h4]

theorem wrap_eq_iff {m n : Nat} : wrap m = wrap n ↔ (m : Residue) = n :=
  (ZMod.natCast_eq_natCast_iff m n (2 ^ 32)).symm

/-- **The statistics identities.** In every run the comparisons of `vm_stats_print` come
out equal, and the slots are accounted for exactly if no read of the swap device has
failed (up to multiples of `2 ^ 32`). -/
theorem statistics_identities_iff {c : Tally} (h : system.Reachable c) :
    Consistent c.sys ∧ (Accounted c ↔ wrap c.sys.failedReads = 0) := by
  have hsums := sums_of_reachable h
  simp only [sums, Prod.mk.injEq] at hsums
  obtain ⟨h1, h2, h3, h4⟩ := hsums
  refine ⟨⟨?_, ?_, ?_⟩, ?_⟩
  · rw [wrap_eq_iff, ← sub_eq_zero, ← h1]
    push_cast
    abel
  · rw [wrap_eq_iff, ← sub_eq_zero, ← h2]
    push_cast
    abel
  · rw [wrap_eq_iff, ← sub_eq_zero, ← h3]
    push_cast
    abel
  · have hwrites : (c.sys.counters .swapWrite : Residue) =
        c.sys.counters .swapRead + c.sys.marked + c.released - c.sys.failedReads := by
      rw [← h4]
      abel
    have hzero : wrap c.sys.failedReads = 0 ↔ (c.sys.failedReads : Residue) = 0 :=
      (wrap_eq_iff (n := 0)).trans (by rw [Nat.cast_zero])
    rw [Accounted, wrap_eq_iff, hzero, hwrites]
    push_cast
    exact sub_eq_self

/-! ## A process with a single frame -/

/-- A world in which no read of the swap device succeeds. -/
def deadDisk : World := { World.calm with swapRead := fun _ => some (.dev 5) }

/-- A process with a page table and one more frame, about to run. -/
def tight (w : World) : Option Sys :=
  let s := (boot w (fun _ => 0) (fun _ => 0) (4 * pageSize) pageSize (4 * pageSize)).createAs 0
    ⟨0x3000, fun _ => 0⟩
  match (loadElf 0 linked).run (.proc 0) { s with cur := some 0 } with
  | .ok (_, s) => some s
  | _ => none

def readFault (fa : Nat) (c : Tally) : Option Tally :=
  match (vmFault .read fa).run (.proc 0) c.sys with
  | .ok (none, s) => some { c with sys := s }
  | _ => none

/-- The process touches two of its pages in turn: the second touch of the first one
brings it back from the swap file. -/
def pingPong (w : World) : Option Tally :=
  (tight w).bind fun s =>
    [0x10000000, 0x10001000, 0x10000000].foldlM (fun c fa => readFault fa c) ⟨s, 0⟩

def counts (s : Sys) : List Nat :=
  [s.counters .tlbFault, s.counters .tlbFaultWithFree, s.counters .tlbFaultWithReplace,
    s.counters .tlbInvalidation, s.counters .tlbReload, s.counters .pageFaultZeroed,
    s.counters .pageFaultDisk, s.counters .elfRead, s.counters .swapRead, s.counters .swapWrite]

theorem pingPong_reachable {w : World} {c : Tally}
    (hw : (tight w).all (fun s => counts s == List.replicate 10 0 && s.marked == 0 &&
      s.swapReads == 0) = true)
    (h : pingPong w = some c) : system.Reachable c := by
  obtain ⟨s, hs, h⟩ := Option.bind_eq_some_iff.mp h
  refine Transitions.Reachable.moves (fun fa c c' h => .inl ?_) _ (.init ?_) h
  · simp only [readFault] at h
    split at h
    · next s hrun =>
        cases h
        exact ⟨_, _, _, _, hrun, rfl⟩
    · cases h
  · simp only [hs, Option.all_some, Bool.and_eq_true, beq_iff_eq, counts, List.replicate_succ,
      List.replicate_zero, List.cons.injEq] at hw
    refine ⟨fun i => ?_, hw.1.2, hw.2, rfl⟩
    cases i <;> simp [hw]

theorem pingPong_accounted :
    ∃ c, pingPong .calm = some c ∧ Consistent c.sys ∧ Accounted c := by
  obtain ⟨c, hc⟩ := Option.isSome_iff_exists.mp (show (pingPong .calm).isSome by decide +kernel)
  have hread : (pingPong .calm).all fun c => wrap c.sys.failedReads == 0 := by decide +kernel
  obtain ⟨hcons, hacc⟩ :=
    statistics_identities_iff (pingPong_reachable (by decide +kernel) hc)
  rw [hc] at hread
  exact ⟨c, hc, hcons, hacc.mpr (by simpa using hread)⟩

/-- With a disk that cannot be read the fault still returns 0 and counts a read, and the
slot stays marked. -/
theorem pingPong_deadDisk_not_accounted :
    ∃ c, system.Reachable c ∧ pingPong deadDisk = some c ∧ ¬ Accounted c := by
  have hany : (pingPong deadDisk).any fun c => c.sys.counters .swapWrite == 2 &&
      c.sys.counters .swapRead == 1 && c.sys.marked == 2 && c.released == 0 := by decide +kernel
  cases hc : pingPong deadDisk with
  | none =>
      rw [hc] at hany
      cases hany
  | some c =>
      simp only [hc, Option.any_some, Bool.and_eq_true, beq_iff_eq] at hany
      refine ⟨c, pingPong_reachable (by decide +kernel) hc, rfl, ?_⟩
      rw [Accounted, hany.1.1.1, hany.1.1.2, hany.1.2, hany.2]
      decide

end Statistics

end Os161Paging
