import Os161Paging.LoadElf
import Os161Paging.Transitions

/-!
# When the swap file is full

`swapfile.c` keeps the size of the file in bytes and the number of slots in
use as an `unsigned short`, and subtracts one from the other. The functions
that ask for free space are compared here with the bitmap, over every
sequence of calls from `swapmap_init` on.
-/

namespace Os161Paging

open Prog

def Sys.freeSlots (s : Sys) : Nat := s.swapMap.count false

namespace SwapSpace

variable {t : Tid} {s s0 s' : Sys}

/-! ## Histories -/

/-- The state after `swapmap_init` on a swap file that `open_swapfile` accepts;
`bitmap_create` takes an `unsigned`. -/
structure Started (s : Sys) : Prop where
  pages : s.swapFileSize % pageSize = 0
  swapMap : s.swapMap = List.replicate (wrap (s.swapFileSize / pageSize)) false
  used : s.used = 0
  lock : s.owner .swap = none

/-- The calls that change what is in the swap file; the slot of a page is where
its page-table entry says. -/
inductive Call where
  | swapOut (a : AsId) (j : Nat)
  | swapIn (a : AsId) (j ramPaddr : Nat) (toRemove : Bool)
  | clearSwap (slot : Nat)

def Call.Returns (c : Call) (t : Tid) (s s' : Sys) : Prop :=
  match c with
  | .swapOut a j => ∃ r, (Os161Paging.swapOut a j).run t s = .ok (r, s')
  | .swapIn a j ramPaddr toRemove =>
      ∃ r, (Os161Paging.swapIn a j ramPaddr toRemove).run t s = .ok (r, s')
  | .clearSwap slot => (Os161Paging.clearSwap slot).run t s = .ok ((), s')

/-- What the rest of the kernel does between two calls: it does not touch the
variables of `swapfile.c`. -/
structure Elsewhere (s s' : Sys) : Prop where
  swapMap : s'.swapMap = s.swapMap
  used : s'.used = s.used
  size : s'.swapFileSize = s.swapFileSize
  lock : s'.owner .swap = s.owner .swap

/-- Calls by any thread, and anything between them. -/
def Step (s s' : Sys) : Prop := (∃ t c, Call.Returns c t s s') ∨ Elsewhere s s'

/-! ## What exactness means -/

/-- The three places that ask for free space find out the truth. -/
structure Exact (s : Sys) : Prop where
  /-- `getAvailableSwap` returns the number of free slots -/
  available : ∀ t, s.owner .swap = none → getAvailableSwap.run t s = .ok (s.freeSlots, s)
  /-- `swap_out` fails with `ENOMEM` exactly if there is none -/
  out : ∀ t a j, s.owner .swap = none →
    ((∃ s', (swapOut a j).run t s = .ok (some .ENOMEM, s')) ↔ s.freeSlots = 0)
  /-- `getPage` gives up before it chooses a victim -/
  page : ∀ t r v a, s.owner .coremap = none → s.owner .swap = none → s.coremapActive = true →
    firstFree s.coremap = none → s.freeSlots = 0 →
    (getPage r v (some a)).run t s = .panic "Not enough memory in Swap File"

theorem getAvailableSwap_run (h : s.owner .swap = none) :
    getAvailableSwap.run t s = .ok (s.availableSwap, s) :=
  getAvailableSwap_eq_ok.mpr ⟨h, rfl, rfl⟩

theorem wrap_pages_eq {k : Nat} (h : wrap (k * pageSize + 2 ^ 32 - 0) = wrap k) : wrap k = 0 := by
  unfold wrap pageSize at *
  omega

/-- In a fresh swap file the difference of bytes and pages is the number of free
slots only if there are none. -/
theorem freeSlots_eq_zero (h : Started s) (he : s.availableSwap = s.freeSlots) :
    s.freeSlots = 0 := by
  have hslots : s.freeSlots = wrap (s.swapFileSize / pageSize) := by
    rw [Sys.freeSlots, h.swapMap, List.count_replicate_self]
  have hsize : s.swapFileSize / pageSize * pageSize = s.swapFileSize :=
    Nat.div_mul_cancel (Nat.dvd_of_mod_eq_zero h.pages)
  rw [hslots]
  rw [Sys.availableSwap, hslots, h.used, ← hsize, Nat.mul_div_cancel _ (by decide)] at he
  exact wrap_pages_eq he

theorem bitmapAlloc_of_full (h : s.freeSlots = 0) : s.world.bitmapAlloc s.swapMap = none := by
  cases ha : s.world.bitmapAlloc s.swapMap with
  | none => rfl
  | some k =>
      have hmem := List.mem_of_getElem? (s.world.alloc_clear _ k ha)
      exact absurd hmem (List.count_eq_zero.mp h)

/-- With no slot free and a size other than the number of slots in use, `swap_out`
fails with another error. -/
theorem swapOut_run_full {a : AsId} {j : Nat} (hl : s.owner .swap = none) (h : s.freeSlots = 0)
    (hne : s.used ≠ s.swapFileSize) :
    ∃ s', (swapOut a j).run t s = .ok (some .ENOSPC, s') := by
  have h1 : (lockAcquire .swap).run t s = .ok ((), s.take t .swap) :=
    lockAcquire_eq_ok.mpr ⟨hl, rfl⟩
  have h2 : bitmapAlloc.run t (s.take t .swap) = .ok (none, s.take t .swap) :=
    bitmapAlloc_eq_ok.mpr ⟨(bitmapAlloc_of_full h).symm, rfl⟩
  have h3 : (lockRelease .swap).run t (s.take t .swap) = .ok ((), (s.take t .swap).drop .swap) :=
    lockRelease_eq_ok.mpr ⟨Sys.take_owner_self, rfl⟩
  have hne' : ¬ ((s.take t .swap).used = (s.take t .swap).swapFileSize) := hne
  refine ⟨(s.take t .swap).drop .swap, ?_⟩
  simp only [swapOut, run_bind, h1, Outcome.bind_ok, run_gets, decide_eq_true_eq, if_neg hne', h2,
    h3, run_pure]

theorem size_eq_zero_of_exact (h : Started s) (he : Exact s) : s.swapFileSize = 0 := by
  have hav := (getAvailableSwap_run (t := .kernel) h.lock).symm.trans (he.available .kernel h.lock)
  have hfull := freeSlots_eq_zero h (congrArg Prod.fst (Outcome.ok.inj hav))
  by_contra hne
  obtain ⟨s1, hrun⟩ := (he.out .kernel 0 0 h.lock).mpr hfull
  obtain ⟨s2, hrun'⟩ := swapOut_run_full (t := .kernel) (a := 0) (j := 0) h.lock hfull
    (h.used ▸ Ne.symm hne)
  cases hrun.symm.trans hrun'

/-! ## An empty swap file -/

/-- The swap file has no pages, and nobody has counted one. -/
structure Empty (s : Sys) : Prop where
  swapMap : s.swapMap = []
  used : s.used = 0
  size : s.swapFileSize = 0

theorem Empty.step (h : Empty s) (hs : Step s s') : Empty s' := by
  rcases hs with ⟨t, c, hc⟩ | he
  · cases c with
    | swapOut a j =>
        obtain ⟨r, hrun⟩ := hc
        obtain ⟨_, _, h1, hrun⟩ := run_bind_eq_ok.mp hrun
        obtain ⟨-, rfl⟩ := lockAcquire_eq_ok.mp h1
        obtain ⟨full, _, h2, hrun⟩ := run_bind_eq_ok.mp hrun
        obtain ⟨hfull, hs2⟩ := gets_eq_ok.mp h2
        obtain rfl : full = true := by
          rw [hfull]
          exact decide_eq_true (h.used.trans h.size.symm)
        rw [hs2, if_pos rfl] at hrun
        obtain ⟨-, rfl⟩ := pure_eq_ok.mp hrun
        exact ⟨h.swapMap, h.used, h.size⟩
    | swapIn a j p toRemove =>
        obtain ⟨r, hrun⟩ := hc
        obtain ⟨_, _, h1, hrun⟩ := run_bind_eq_ok.mp hrun
        obtain ⟨-, rfl⟩ := lockAcquire_eq_ok.mp h1
        obtain ⟨e, _, h2, hrun⟩ := run_bind_eq_ok.mp hrun
        obtain ⟨-, rfl⟩ := getPte_eq_ok.mp h2
        obtain ⟨err, _, h3, hrun⟩ := run_bind_eq_ok.mp hrun
        obtain ⟨-, rfl⟩ := loadSegment_swap_eq_ok.mp h3
        cases err with
        | some err =>
            obtain ⟨-, rfl⟩ := pure_eq_ok.mp hrun
            exact ⟨h.swapMap, h.used, h.size⟩
        | none =>
            obtain ⟨_, _, h4, -⟩ := run_bind_eq_ok.mp hrun
            have hset : s.swapMap[e.paddr]? = some true := (leaveSlot_eq_ok.mp h4).1
            rw [h.swapMap] at hset
            cases hset
    | clearSwap slot =>
        obtain ⟨_, _, h1, hrun⟩ := run_bind_eq_ok.mp hc
        obtain ⟨-, rfl⟩ := lockAcquire_eq_ok.mp h1
        obtain ⟨_, _, h2, -⟩ := run_bind_eq_ok.mp hrun
        have hset : s.swapMap[slot]? = some true := (bitmapUnmark_eq_ok.mp h2).1
        rw [h.swapMap] at hset
        cases hset
  · exact ⟨he.swapMap.trans h.swapMap, he.used.trans h.used, he.size.trans h.size⟩

theorem Empty.availableSwap (h : Empty s) : s.availableSwap = 0 := by
  simp [Sys.availableSwap, h.used, h.size, wrap]

theorem Empty.freeSlots (h : Empty s) : s.freeSlots = 0 := by
  simp [Sys.freeSlots, h.swapMap]

theorem Empty.exact (h : Empty s) : Exact s where
  available t hl := by rw [getAvailableSwap_run hl, h.availableSwap, h.freeSlots]
  out t a j hl := by
    refine iff_of_true ⟨s.take t .swap, ?_⟩ h.freeSlots
    have h1 : (lockAcquire .swap).run t s = .ok ((), s.take t .swap) :=
      lockAcquire_eq_ok.mpr ⟨hl, rfl⟩
    have hfull : (s.take t .swap).used = (s.take t .swap).swapFileSize :=
      h.used.trans h.size.symm
    simp only [swapOut, run_bind, h1, Outcome.bind_ok, run_gets, decide_eq_true_eq, if_pos hfull,
      run_pure]
  page t r v a hcore hswap hact hfree _ := by
    have h1 : (claimFree r v (some a)).run t (s.take t .coremap) = .ok (none, s.take t .coremap) :=
      claimFree_eq_ok.mpr ⟨hfree.symm, rfl⟩
    have h2 : getAvailableSwap.run t (s.take t .coremap) = .ok (0, s.take t .coremap) :=
      getAvailableSwap_eq_ok.mpr ⟨by simpa using hswap, h.availableSwap.symm, rfl⟩
    rw [getPage, locked_active_run hact hcore, run_bind, h1, Outcome.bind_ok]
    simp only [evictFrame, run_bind, h2, Outcome.bind_ok, ne_eq, not_true_eq_false, if_false]
    rfl

/-- **A full swap file is recognised only if it is empty**: whatever
`swap_out`, `swap_in` and `clear_swap` calls follow `swapmap_init`,
`getAvailableSwap`, `swap_out` and `getPage` all know the number of free slots,
if and only if the swap file has no pages at all. -/
theorem swap_full_exact_iff (h : Started s0) :
    (∀ s, Relation.ReflTransGen Step s0 s → Exact s) ↔ s0.swapFileSize = 0 := by
  constructor
  · intro hall
    exact size_eq_zero_of_exact h (hall s0 .refl)
  · intro hz s hrun
    have hempty : Empty s0 := ⟨by rw [h.swapMap, hz]; rfl, h.used, hz⟩
    refine Empty.exact ?_
    induction hrun with
    | refl => exact hempty
    | tail _ hs ih => exact ih.step hs

def pagesOfSwap (n : Nat) : Sys :=
  boot .calm (fun _ => 0) (fun _ => 0) (4 * pageSize) pageSize (n * pageSize)

theorem empty_swap_exact : Exact (pagesOfSwap 0) :=
  (swap_full_exact_iff ⟨rfl, rfl, rfl, rfl⟩).mpr rfl (pagesOfSwap 0) .refl

/-- The process that has its page table in one of the two frames, with a swap file of
one page, after it has touched two of its pages. -/
def crowded : Option Sys :=
  let s := (pagesOfSwap 1).createAs 0 ⟨0x3000, fun _ => 0⟩
  match (do
      let _ ← loadElf 0 linked
      let _ ← vmFault .read 0x10000000
      vmFault .read 0x10001000 : VM (Option Errno)).run (.proc 0) { s with cur := some 0 } with
  | .ok (none, s) => some s
  | _ => none

/-- With a swap file of one page, 4096 slots are reported free; when the slot is taken
4095 are, and the next eviction fails the assertion on `swap_out`. -/
theorem full_swap_unnoticed :
    Started (pagesOfSwap 1) ∧ (pagesOfSwap 1).freeSlots = 1 ∧
      getAvailableSwap.run .kernel (pagesOfSwap 1) = .ok (4096, pagesOfSwap 1) ∧
      ¬ Exact (pagesOfSwap 1) ∧
      ∃ s, crowded = some s ∧ s.freeSlots = 0 ∧ s.availableSwap = 4095 ∧
        (vmFault .read 0x10002000).run (.proc 0) s =
          .panic "KASSERT: swap_out(&pt[j].paddr) == 0" := by
  have hstart : Started (pagesOfSwap 1) := ⟨rfl, rfl, rfl, rfl⟩
  have hrun : crowded.any (fun s => s.freeSlots == 0 && s.availableSwap == 4095 &&
      match (vmFault .read 0x10002000).run (.proc 0) s with
      | .panic m => m == "KASSERT: swap_out(&pt[j].paddr) == 0"
      | _ => false) = true := by decide +kernel
  refine ⟨hstart, rfl, getAvailableSwap_run rfl, fun h => ?_, ?_⟩
  · cases size_eq_zero_of_exact hstart h
  · obtain ⟨s, hs, h⟩ := (Option.any_eq_true _ _).mp hrun
    simp only [Bool.and_eq_true, beq_iff_eq] at h
    refine ⟨s, hs, h.1.1, h.1.2, ?_⟩
    have hpanic := h.2
    split at hpanic
    · next m hm => rw [hm, eq_of_beq hpanic]
    · cases hpanic

end SwapSpace

end Os161Paging
