import Mathlib.Data.Nat.Bitwise
import Os161Paging.Runs

/-!
# Frames and the two allocators

What the bits of a coremap entry say, where the frames lie, and what the
two searches of the coremap find: `getPage` the first free entry,
`getMultiplePages` the first run of free entries that is long enough. An
allocation on behalf of the kernel is then followed through `getPages` and
`ptAlloc` to the block it hands out.
-/

namespace Os161Paging

open Prog

/-! ## The flags of an entry -/

theorem and_two_pow_bne_zero (n i : Nat) : (n &&& 2 ^ i != 0) = n.testBit i := by
  rw [Nat.and_two_pow]
  cases n.testBit i <;> simp

namespace CEntry

variable (e : CEntry)

theorem cused_eq : e.cused = e.vaddr.testBit 1 := and_two_pow_bne_zero e.vaddr 1

theorem reserved_eq : e.reserved = e.vaddr.testBit 0 := and_two_pow_bne_zero e.vaddr 0

theorem isFree_iff : e.isFree = true ↔ e.vaddr % 4 = 0 := by
  have hres : e.vaddr &&& 3 = e.vaddr % 4 := Nat.and_two_pow_sub_one_eq_mod e.vaddr 2
  simp only [isFree, cused_eq, cres, hres, Nat.testBit_eq_decide_div_mod_eq, Nat.pow_one,
    Bool.and_eq_true, Bool.not_eq_true', decide_eq_false_iff_not, bne_eq_false_iff_eq]
  omega

variable {e} in
theorem not_isFree (h : e.cused = true) : e.isFree = false := by
  simp [isFree, h]

@[simp] theorem set_cused (v : Nat) (r : Bool) (as : Option AsId) : (e.set v r as).cused = true := by
  cases r <;> simp [cused_eq, set, Nat.testBit_or, show Nat.testBit 2 1 = true from rfl,
    show Nat.testBit 3 1 = true from rfl]

@[simp] theorem set_as (v : Nat) (r : Bool) (as : Option AsId) :
    (e.set v r as).as = if r then none else as := rfl

@[simp] theorem set_allocpages (v : Nat) (r : Bool) (as : Option AsId) :
    (e.set v r as).allocpages = e.allocpages := rfl

@[simp] theorem set_reserved (v : Nat) (r : Bool) (as : Option AsId) :
    (e.set v r as).reserved = (r || v.testBit 0) := by
  cases r <;> simp [reserved_eq, set]

@[simp] theorem setOne_cused (v : Nat) (r : Bool) (as : Option AsId) :
    (e.setOne v r as).cused = true := e.set_cused v r as

@[simp] theorem setOne_as (v : Nat) (r : Bool) (as : Option AsId) :
    (e.setOne v r as).as = if r then none else as := rfl

@[simp] theorem setOne_reserved (v : Nat) (r : Bool) (as : Option AsId) :
    (e.setOne v r as).reserved = (r || v.testBit 0) := e.set_reserved v r as

@[simp] theorem setEmpty_as : e.setEmpty.as = none := rfl

@[simp] theorem setEmpty_isFree : e.setEmpty.isFree = true := (isFree_iff _).mpr rfl

end CEntry

/-! ## Geometry -/

/-- What `coremap_init` establishes about the place of the frames: page-aligned,
above the kernel image at the bottom of memory, below the end of the address
range. -/
structure Sys.Geometry (s : Sys) : Prop where
  active : s.coremapActive = true
  pos : 0 < s.firstpaddr
  aligned : s.firstpaddr % pageSize = 0
  fits : s.firstpaddr + s.coremapSize * pageSize < 2 ^ 32

namespace Sys.Geometry

variable {s : Sys} (hs : s.Geometry) {i j : Nat}
include hs

theorem frameAddr_eq (hi : i ≤ s.coremapSize) : s.frameAddr i = s.firstpaddr + i * pageSize := by
  have hmul : i * pageSize ≤ s.coremapSize * pageSize := Nat.mul_le_mul_right _ hi
  have := hs.fits
  rw [Sys.frameAddr, wrap, Nat.mod_eq_of_lt (by omega), Nat.add_comm]

theorem frameAddr_ne_zero (hi : i ≤ s.coremapSize) : s.frameAddr i ≠ 0 := by
  have := hs.pos
  rw [hs.frameAddr_eq hi]
  omega

theorem frameAddr_inj (hi : i ≤ s.coremapSize) (hj : j ≤ s.coremapSize)
    (h : s.frameAddr i = s.frameAddr j) : i = j := by
  rw [hs.frameAddr_eq hi, hs.frameAddr_eq hj, pageSize_eq] at h
  omega

end Sys.Geometry

/-- Nothing after `vm_bootstrap` changes what the geometry depends on. -/
theorem Sys.Geometry.congr {s s' : Sys} (hs : s.Geometry)
    (hact : s'.coremapActive = s.coremapActive) (hfirst : s'.firstpaddr = s.firstpaddr)
    (hsize : s'.coremapSize = s.coremapSize) : s'.Geometry :=
  ⟨hact.trans hs.active, hfirst ▸ hs.pos, hfirst ▸ hs.aligned, by rw [hfirst, hsize]; exact hs.fits⟩

/-- The first page boundary from `x` on. -/
def alignUp (x : Nat) : Nat := (x + (pageSize - 1)) / pageSize * pageSize

theorem le_alignUp (x : Nat) : x ≤ alignUp x := by
  rw [alignUp, pageSize_eq]
  omega

theorem alignUp_mod (x : Nat) : alignUp x % pageSize = 0 := Nat.mul_mod_left ..

theorem allignNextAddr_eq {x : Nat} (h : alignUp x < 2 ^ 32) : allignNextAddr x = alignUp x := by
  rw [alignUp, pageSize_eq] at h ⊢
  rw [allignNextAddr, wrap, pageSize_eq]
  by_cases hx : x % 4096 = 0
  · rw [if_pos hx]
    omega
  · rw [if_neg hx]
    omega

/-- Pages from the first boundary to the end of the RAM, and how many of them their coremap
takes. -/
def ramPages (lastpaddr firstfree : Nat) : Nat := (lastpaddr - alignUp firstfree) / pageSize
def coremapPages (lastpaddr firstfree : Nat) : Nat :=
  (ramPages lastpaddr firstfree * sizeofCEntry + (pageSize - 1)) / pageSize

section

variable {lastpaddr firstfree : Nat} (hfirst : alignUp firstfree ≤ lastpaddr)

theorem le_coremapPages :
    ramPages lastpaddr firstfree * sizeofCEntry ≤ coremapPages lastpaddr firstfree * pageSize := by
  rw [coremapPages, pageSize_eq]
  omega

theorem coremapPages_le : coremapPages lastpaddr firstfree ≤ ramPages lastpaddr firstfree := by
  rw [coremapPages, sizeofCEntry, pageSize_eq]
  omega

include hfirst in
theorem ramPages_le : alignUp firstfree + ramPages lastpaddr firstfree * pageSize ≤ lastpaddr := by
  rw [ramPages]
  have := Nat.div_mul_le_self (lastpaddr - alignUp firstfree) pageSize
  omega

include hfirst in
theorem ramPages_word (hlast : lastpaddr < 2 ^ 32) :
    wrap (lastpaddr + 2 ^ 32 - alignUp firstfree) / pageSize = ramPages lastpaddr firstfree := by
  rw [ramPages, wrap, pageSize_eq]
  omega

include hfirst in
theorem coremapPages_word (hlast : lastpaddr < 2 ^ 32) :
    divRoundUp (wrap (ramPages lastpaddr firstfree * sizeofCEntry)) pageSize =
      coremapPages lastpaddr firstfree := by
  have hsmall : ramPages lastpaddr firstfree < 2 ^ 20 := by
    have := ramPages_le hfirst
    rw [pageSize_eq] at this
    omega
  rw [coremapPages]
  generalize ramPages lastpaddr firstfree = n at hsmall
  simp only [divRoundUp, wrap, sizeofCEntry, pageSize_eq]
  omega

include hfirst in
/-- What `coremap_init` computes: none of its operations on words overflows. -/
theorem coremapGeometry_eq (hlast : lastpaddr < 2 ^ 32) :
    coremapGeometry lastpaddr firstfree =
      (ramPages lastpaddr firstfree - coremapPages lastpaddr firstfree,
        alignUp firstfree + coremapPages lastpaddr firstfree * pageSize) := by
  have hle := ramPages_le hfirst
  have hc := @coremapPages_le lastpaddr firstfree
  simp only [coremapGeometry, allignNextAddr_eq (Nat.lt_of_le_of_lt hfirst hlast),
    ramPages_word hfirst hlast, coremapPages_word hfirst hlast]
  simp only [wrap, pageSize_eq, Prod.mk.injEq] at *
  omega

end

/-- `vm_bootstrap` sets the geometry up, on a machine whose RAM reaches beyond
the kernel image. -/
theorem boot_geometry {w : World} {ram disk : Mem} {lastpaddr firstfree swapFileSize : Nat}
    (hlast : lastpaddr < 2 ^ 32) (hpos : 0 < firstfree) (hfirst : firstfree + pageSize ≤ lastpaddr) :
    (boot w ram disk lastpaddr firstfree swapFileSize).Geometry := by
  have hal : alignUp firstfree ≤ lastpaddr := by
    rw [alignUp, pageSize_eq] at *
    omega
  have hge := le_alignUp firstfree
  have hmod := alignUp_mod firstfree
  have hle := ramPages_le hal
  have hc := @coremapPages_le lastpaddr firstfree
  have hg := coremapGeometry_eq hal hlast
  rw [pageSize_eq] at hmod hle
  constructor
  · rfl
  · simp only [boot, hg]
    omega
  · simp only [boot, hg, pageSize_eq]
    omega
  · simp only [boot, hg, Sys.coremapSize, List.length_replicate, pageSize_eq]
    omega

/-! ## The two searches -/

theorem firstFree_eq_some {cm : List CEntry} {i : Nat} (h : firstFree cm = some i) :
    freeAt cm i = true := by
  obtain ⟨hi, he, -⟩ := List.findIdx?_eq_some_iff_getElem.mp h
  simp [freeAt, List.getElem?_eq_getElem hi, he]

theorem firstFree_eq_none {cm : List CEntry} :
    firstFree cm = none ↔ ∀ e ∈ cm, e.isFree = false := List.findIdx?_eq_none_iff

theorem freeAt_eq_true {cm : List CEntry} {i : Nat} :
    freeAt cm i = true ↔ ∃ e, cm[i]? = some e ∧ e.isFree = true := by
  cases h : cm[i]? <;> simp [freeAt, h]

theorem freeAt_lt {cm : List CEntry} {i : Nat} (h : freeAt cm i = true) : i < cm.length := by
  by_contra hi
  simp [freeAt, List.getElem?_eq_none (Nat.le_of_not_lt hi)] at h

/-- The loop of `getMultiplePages` keeps the start of the current run of free
entries, so what it returns starts a run that is long enough. -/
theorem multiScan_free {cm : List CEntry} {npages n i first r : Nat}
    (h : multiScan cm npages n i first = some r) (hle : first ≤ i)
    (hrun : freeAt cm (i - 1) = true → ∀ j, first ≤ j → j < i → freeAt cm j = true) :
    ∀ j, r ≤ j → j < r + npages → freeAt cm j = true := by
  induction n generalizing i first with
  | zero => simp [multiScan] at h
  | succ n ih =>
      rw [multiScan] at h
      by_cases hi : freeAt cm i = true
      · rw [if_pos hi] at h
        -- the run that ends at `i` starts at the updated `first`
        set first' := if i = 0 ∨ ¬ freeAt cm (i - 1) then i else first with hfirst
        have hle' : first' ≤ i := by
          rw [hfirst]
          split <;> omega
        have hrun' : ∀ j, first' ≤ j → j < i + 1 → freeAt cm j = true := by
          intro j hj hji
          rcases Nat.lt_or_ge j i with hlt | hge
          · rw [hfirst] at hj
            split at hj
            · omega
            · rename_i hne
              rw [not_or, not_not] at hne
              exact hrun hne.2 j hj hlt
          · obtain rfl : j = i := by omega
            exact hi
        simp only at h
        split at h
        · obtain rfl := Option.some.inj h
          exact fun j hj hjn => hrun' j hj (by omega)
        · exact ih h (by omega) fun _ => hrun'
      · rw [if_neg hi] at h
        exact ih h (by omega) fun hfree => absurd hfree hi

theorem modifyRange_getElem {f : Nat → CEntry → CEntry} {i n j : Nat} {cm : List CEntry} :
    (modifyRange f i n cm)[j]? =
      if i ≤ j ∧ j < i + n then cm[j]?.map (f j) else cm[j]? := by
  rw [modifyRange, List.getElem?_mapIdx]
  split <;> simp

theorem emptyRun_getElem {s : Sys} {i n k : Nat} (hk : ¬ (i ≤ k ∧ k < i + n)) (hn : 0 < n) :
    (s.emptyRun i n).coremap[k]? = s.coremap[k]? := by
  have hne : i ≠ k := by omega
  simp [Sys.emptyRun, modifyRange_getElem, hk, hne]

theorem emptyRun_isFree {s : Sys} {i n k : Nat} {e : CEntry} (hk : i ≤ k ∧ k < i + n)
    (he : s.coremap[k]? = some e) :
    ∃ e', (s.emptyRun i n).coremap[k]? = some e' ∧ e'.isFree = true ∧ e'.as = none := by
  simp only [Sys.emptyRun, modifyRange_getElem, if_pos hk, List.getElem?_modify, he]
  exact ⟨_, rfl, CEntry.setEmpty_isFree _, rfl⟩

theorem emptyRun_size {s : Sys} {i n : Nat} : (s.emptyRun i n).coremapSize = s.coremapSize := by
  simp [Sys.emptyRun, Sys.coremapSize, modifyRange]

/-! ## The allocators with the lock free -/

section Alloc

variable {t : Tid} {s : Sys} (hact : s.coremapActive = true) (hl : s.owner .coremap = none)
include hact hl

/-- Taking `coremap_lock` and looking at `coremapActive`, as both allocators begin. -/
theorem locked_active_run {α : Type} (p q : VM α) :
    (do spinlockAcquire .coremap
        if ← Prog.gets (·.coremapActive) then p else q : VM α).run t s =
      p.run t (s.take t .coremap) := by
  have h1 : (spinlockAcquire .coremap).run t s = .ok ((), s.take t .coremap) :=
    spinlockAcquire_eq_ok.mpr ⟨hl, rfl⟩
  have h2 : (s.take t .coremap).coremapActive = true := hact
  rw [run_bind, h1, Outcome.bind_ok, run_bind, run_gets, Outcome.bind_ok]
  simp only [h2, if_true]

/-- `getPage` takes the first free entry if there is one. -/
theorem getPage_run_some {isReserved : Bool} {vaddr i : Nat} {as : Option AsId}
    (hi : firstFree s.coremap = some i) :
    (getPage isReserved vaddr as).run t s =
      .ok (s.frameAddr i, s.claim i isReserved vaddr as) := by
  have h1 : (claimFree isReserved vaddr as).run t (s.take t .coremap) =
      .ok (some i, (s.take t .coremap).claim i isReserved vaddr as) :=
    claimFree_eq_ok.mpr ⟨hi.symm, rfl⟩
  have h2 : (spinlockRelease .coremap).run t ((s.take t .coremap).claim i isReserved vaddr as) =
      .ok ((), s.claim i isReserved vaddr as) :=
    spinlockRelease_eq_ok.mpr ⟨by simp [Sys.claim, Sys.take],
      (Sys.take_drop (s := s.claim i isReserved vaddr as) hl).symm⟩
  unfold getPage
  rw [locked_active_run hact hl, run_bind, h1, Outcome.bind_ok]
  simp only [run_bind, h2, Outcome.bind_ok]
  rfl

/-- Without one, and without an address space to take a frame from, it returns
the address of frame 0 with the lock still held. -/
theorem getPage_run_none {isReserved : Bool} {vaddr : Nat} (hi : firstFree s.coremap = none) :
    (getPage isReserved vaddr none).run t s = .ok (s.frameAddr 0, s.take t .coremap) := by
  have h1 : (claimFree isReserved vaddr none).run t (s.take t .coremap) =
      .ok (none, s.take t .coremap) := claimFree_eq_ok.mpr ⟨hi.symm, rfl⟩
  unfold getPage
  rw [locked_active_run hact hl, run_bind, h1]
  rfl

theorem getMultiplePages_run_some {npages first : Nat} {isReserved : Bool} {as : Option AsId}
    (hf : multiScan s.coremap npages s.coremapSize 0 0 = some first) :
    (getMultiplePages npages isReserved as).run t s =
      .ok (s.frameAddr first, s.takeRun first npages isReserved as) := by
  have h1 : (claimRun npages isReserved as).run t (s.take t .coremap) =
      .ok (first, (s.take t .coremap).takeRun first npages isReserved as) :=
    claimRun_eq_ok.mpr ⟨hf, rfl⟩
  have h2 : (spinlockRelease .coremap).run t
      ((s.take t .coremap).takeRun first npages isReserved as) =
      .ok ((), s.takeRun first npages isReserved as) :=
    spinlockRelease_eq_ok.mpr ⟨by simp [Sys.takeRun, Sys.take],
      (Sys.take_drop (s := s.takeRun first npages isReserved as) hl).symm⟩
  rw [getMultiplePages, locked_active_run hact hl, run_bind, h1, Outcome.bind_ok]
  simp only [run_bind, h2, Outcome.bind_ok]
  rfl

theorem getMultiplePages_run_none {npages : Nat} {isReserved : Bool} {as : Option AsId}
    (hf : multiScan s.coremap npages s.coremapSize 0 0 = none) :
    (getMultiplePages npages isReserved as).run t s =
      .panic "Multiple page swapping is not required for on demand page loading" := by
  have h1 : multiScan (s.take t .coremap).coremap npages (s.take t .coremap).coremapSize 0 0 =
      none := hf
  rw [getMultiplePages, locked_active_run hact hl, run_bind, claimRun, run_exec, h1]
  rfl

end Alloc

/-- Before `coremap_init`, both allocators return 0. -/
theorem locked_inactive_run {t : Tid} {s : Sys} (hact : s.coremapActive = false)
    (hl : s.owner .coremap = none) (p : VM Nat) :
    (do spinlockAcquire .coremap
        if ← Prog.gets (·.coremapActive) then p
        else do
          spinlockRelease .coremap
          return 0 : VM Nat).run t s = .ok (0, s) := by
  have h1 : (spinlockAcquire .coremap).run t s = .ok ((), s.take t .coremap) :=
    spinlockAcquire_eq_ok.mpr ⟨hl, rfl⟩
  have h2 : (s.take t .coremap).coremapActive = false := hact
  have h3 : (spinlockRelease .coremap).run t (s.take t .coremap) = .ok ((), s) :=
    spinlockRelease_eq_ok.mpr ⟨by simp [Sys.take], (Sys.take_drop hl).symm⟩
  rw [run_bind, h1, Outcome.bind_ok, run_bind, run_gets, Outcome.bind_ok]
  simp only [h2, Bool.false_eq_true, if_false, run_bind, h3, Outcome.bind_ok, run_pure]

/-- `ptAlloc` compares the size of the table with the RAM that is not in use; the
counter of used frames is never updated. -/
theorem ptAlloc_run {t : Tid} {s : Sys} {n : Nat} (hl : s.owner .coremap = none) :
    (ptAlloc n).run t s =
      if s.availableRam > ptFrames n then
        if ptFrames n > 1 then (getMultiplePages (ptFrames n) true none).run t s
        else (getPage true 0 none).run t s
      else .panic "No available space for pageTable in RAM\n" := by
  have hram : getAvailableRam.run t s = .ok (s.availableRam, s) :=
    getAvailableRam_eq_ok.mpr ⟨hl, rfl, rfl⟩
  rw [ptAlloc, run_bind, hram, Outcome.bind_ok]
  by_cases h : s.availableRam > ptFrames n
  · rw [if_pos h, if_pos h]
    by_cases h1 : ptFrames n > 1
    · rw [if_pos h1, if_pos h1]
    · rw [if_neg h1, if_neg h1]
  · rw [if_neg h, if_neg h, run_fail]

/-- The ways `ptAlloc` can return: 0 before `coremap_init`, the block it took, or
frame 0 with `coremap_lock` held. -/
theorem ptAlloc_cases {t : Tid} {s s' : Sys} {n p : Nat} (h : (ptAlloc n).run t s = .ok (p, s')) :
    s.owner .coremap = none ∧
      (s.coremapActive = false ∧ p = 0 ∧ s' = s ∨
      s.coremapActive = true ∧ 1 < ptFrames n ∧
        (∃ first, multiScan s.coremap (ptFrames n) s.coremapSize 0 0 = some first ∧
          p = s.frameAddr first ∧ s' = s.takeRun first (ptFrames n) true none) ∨
      s.coremapActive = true ∧ ¬ 1 < ptFrames n ∧
        (∃ i, firstFree s.coremap = some i ∧ p = s.frameAddr i ∧ s' = s.claim i true 0 none) ∨
      s.coremapActive = true ∧ ¬ 1 < ptFrames n ∧ firstFree s.coremap = none ∧
        p = s.frameAddr 0 ∧ s' = s.take t .coremap) := by
  obtain ⟨_, _, h1, -⟩ := run_bind_eq_ok.mp h
  have hl := (getAvailableRam_eq_ok.mp h1).1
  refine ⟨hl, ?_⟩
  rw [ptAlloc_run hl] at h
  by_cases hram : s.availableRam > ptFrames n
  · rw [if_pos hram] at h
    cases hact : s.coremapActive with
    | false =>
        have hboth : (if ptFrames n > 1 then (getMultiplePages (ptFrames n) true none).run t s
            else (getPage true 0 none).run t s) = .ok (0, s) := by
          split
          · exact locked_inactive_run hact hl _
          · exact locked_inactive_run hact hl _
        rw [hboth] at h
        cases h
        exact .inl ⟨rfl, rfl, rfl⟩
    | true =>
        by_cases hn : ptFrames n > 1
        · rw [if_pos hn] at h
          cases hf : multiScan s.coremap (ptFrames n) s.coremapSize 0 0 with
          | none =>
              rw [getMultiplePages_run_none hact hl hf] at h
              cases h
          | some first =>
              rw [getMultiplePages_run_some hact hl hf] at h
              cases h
              exact .inr (.inl ⟨rfl, hn, first, rfl, rfl, rfl⟩)
        · rw [if_neg hn] at h
          cases hf : firstFree s.coremap with
          | none =>
              rw [getPage_run_none hact hl hf] at h
              cases h
              exact .inr (.inr (.inr ⟨rfl, hn, rfl, rfl, rfl⟩))
          | some i =>
              rw [getPage_run_some hact hl hf] at h
              cases h
              exact .inr (.inr (.inl ⟨rfl, hn, i, rfl, rfl, rfl⟩))
  · rw [if_neg hram] at h
    cases h

/-! ## Requests of the kernel -/

/-- A request for memory on behalf of the kernel: `getPages(n, 0, NULL)`, as
`getppages` makes it, or `ptAlloc(n)`. -/
inductive KernelRequest where
  | pages (n : Int)
  | table (n : Nat)

namespace KernelRequest

def call : KernelRequest → VM Nat
  | .pages n => getPages n 0 none
  | .table n => ptAlloc n

def frames : KernelRequest → Nat
  | .pages n => max 1 n.toNat
  | .table n => max 1 (ptFrames n)

/-- The call panics, returns 0, or returns the address of a block of frames that
were free and are used now. -/
def Safe (q : KernelRequest) (t : Tid) (s : Sys) : Prop :=
  (∃ m, q.call.run t s = .panic m) ∨ (∃ s', q.call.run t s = .ok (0, s')) ∨
    ∃ first s', q.call.run t s = .ok (s.frameAddr first, s') ∧
      ∀ j, first ≤ j → j < first + q.frames →
        (∃ e, s.coremap[j]? = some e ∧ e.isFree = true) ∧
          ∃ e, s'.coremap[j]? = some e ∧ e.cused = true

/-- `ptAlloc` gives up before it searches. -/
def Refused (s : Sys) : KernelRequest → Prop
  | .pages _ => False
  | .table n => s.availableRam ≤ ptFrames n

def isReserved : KernelRequest → Bool
  | .pages _ => false
  | .table _ => true

variable {q : KernelRequest} {t : Tid} {s : Sys}

/-- Both requests come down to one of the two allocators. -/
theorem call_run (hl : s.owner .coremap = none) (hq : ¬ q.Refused s) :
    q.call.run t s =
      if 1 < q.frames then (getMultiplePages q.frames q.isReserved none).run t s
      else (getPage q.isReserved 0 none).run t s := by
  cases q with
  | pages n =>
      rw [call, getPages, frames, isReserved]
      by_cases hn : n > 1
      · rw [if_pos hn, if_pos (by omega), show max 1 n.toNat = n.toNat by omega]
      · rw [if_neg hn, if_neg (by omega)]
  | table n =>
      have hgt : s.availableRam > ptFrames n := Nat.lt_of_not_le hq
      rw [call, ptAlloc_run hl, if_pos hgt, frames, isReserved]
      by_cases hn : ptFrames n > 1
      · rw [if_pos hn, if_pos (by omega), show max 1 (ptFrames n) = ptFrames n by omega]
      · rw [if_neg hn, if_neg (by omega)]

theorem safe_of_refused (hl : s.owner .coremap = none) (hq : q.Refused s) : q.Safe t s := by
  cases q with
  | pages n => exact hq.elim
  | table n =>
      have hle : ¬ s.availableRam > ptFrames n := Nat.not_lt.mpr hq
      exact .inl ⟨_, (ptAlloc_run hl).trans (if_neg hle)⟩

theorem safe_of_frames (hs : s.Geometry) (hl : s.owner .coremap = none) (hq : ¬ q.Refused s)
    (hn : 1 < q.frames) : q.Safe t s := by
  have hcall := call_run (t := t) hl hq
  rw [if_pos hn] at hcall
  cases hf : multiScan s.coremap q.frames s.coremapSize 0 0 with
  | none =>
      rw [getMultiplePages_run_none hs.active hl hf] at hcall
      exact .inl ⟨_, hcall⟩
  | some first =>
      rw [getMultiplePages_run_some hs.active hl hf] at hcall
      refine .inr (.inr ⟨first, _, hcall, fun j hj hjn => ?_⟩)
      have hfree := multiScan_free hf (Nat.le_refl 0) (by omega) j hj hjn
      obtain ⟨e, he, hef⟩ := freeAt_eq_true.mp hfree
      refine ⟨⟨e, he, hef⟩, ?_⟩
      simp [Sys.takeRun, modifyRange_getElem, hj, hjn, List.getElem?_modify, he]

/-- A single frame is found as long as an entry is free. -/
theorem safe_of_free (hs : s.Geometry) (hl : s.owner .coremap = none) (hq : ¬ q.Refused s)
    (hn : ¬ 1 < q.frames) {i : Nat} (hi : firstFree s.coremap = some i) : q.Safe t s := by
  have hcall := call_run (t := t) hl hq
  rw [if_neg hn, getPage_run_some hs.active hl hi] at hcall
  refine .inr (.inr ⟨i, _, hcall, fun j hj hjn => ?_⟩)
  obtain rfl : j = i := by omega
  obtain ⟨e, he, hef⟩ := freeAt_eq_true.mp (firstFree_eq_some hi)
  exact ⟨⟨e, he, hef⟩, by simp [Sys.claim, he]⟩

/-- With no free entry, the address returned for a single frame is that of frame
0, whatever it holds. -/
theorem not_safe_of_full (hs : s.Geometry) (hl : s.owner .coremap = none) (hq : ¬ q.Refused s)
    (hn : ¬ 1 < q.frames) (hfull : firstFree s.coremap = none) : ¬ q.Safe t s := by
  have hcall := call_run (t := t) hl hq
  rw [if_neg hn, getPage_run_none hs.active hl hfull] at hcall
  rintro (⟨m, hm⟩ | ⟨s', h0⟩ | ⟨first, s', -, hfree⟩)
  · rw [hcall] at hm
    cases hm
  · rw [hcall] at h0
    exact hs.frameAddr_ne_zero (Nat.zero_le _) (congrArg Prod.fst (Outcome.ok.inj h0))
  · have hpos : 0 < q.frames := by
      cases q <;> simp only [frames] <;> omega
    obtain ⟨⟨e, he, hef⟩, -⟩ := hfree first (Nat.le_refl _) (by omega)
    rw [firstFree_eq_none.mp hfull e (List.mem_of_getElem? he)] at hef
    cases hef

end KernelRequest

/-- **An allocation for the kernel hands out free memory exactly when it can be
served**: `ptAlloc` refuses it, several frames are asked for, or some entry is
free. The request for one frame that finds the coremap full gets a frame in use. -/
theorem kernelRequest_safe_iff {q : KernelRequest} {t : Tid} {s : Sys} (hs : s.Geometry)
    (hl : s.owner .coremap = none) :
    q.Safe t s ↔ q.Refused s ∨ 1 < q.frames ∨ ∃ e ∈ s.coremap, e.isFree = true := by
  by_cases hq : q.Refused s
  · exact iff_of_true (KernelRequest.safe_of_refused hl hq) (.inl hq)
  by_cases hn : 1 < q.frames
  · exact iff_of_true (KernelRequest.safe_of_frames hs hl hq hn) (.inr (.inl hn))
  cases hi : firstFree s.coremap with
  | some i =>
      obtain ⟨e, he, hef⟩ := freeAt_eq_true.mp (firstFree_eq_some hi)
      exact iff_of_true (KernelRequest.safe_of_free hs hl hq hn hi)
        (.inr (.inr ⟨e, List.mem_of_getElem? he, hef⟩))
  | none =>
      refine iff_of_false (KernelRequest.not_safe_of_full hs hl hq hn hi) ?_
      rintro (h | h | ⟨e, he, hef⟩)
      · exact hq h
      · exact hn h
      · rw [firstFree_eq_none.mp hi e he] at hef
        cases hef

def oneFrame : Sys := boot .calm (fun _ => 0) (fun _ => 0) (3 * pageSize) pageSize (4 * pageSize)

theorem oneFrame_geometry : oneFrame.Geometry :=
  boot_geometry (by decide) (by decide) (by decide)

theorem oneFrame_request_safe : (KernelRequest.pages 1).Safe .kernel oneFrame :=
  (kernelRequest_safe_iff oneFrame_geometry rfl).mpr (.inr (.inr ⟨.zero, by decide, by decide⟩))

/-- Asked twice for a page, the machine with a single frame answers twice with
that frame. -/
theorem oneFrame_handed_out_twice :
    ∃ addr s1 s2, (KernelRequest.pages 1).call.run .kernel oneFrame = .ok (addr, s1) ∧
      (KernelRequest.pages 1).call.run .kernel s1 = .ok (addr, s2) ∧
      ¬ (KernelRequest.pages 1).Safe .kernel s1 := by
  have hs : (oneFrame.claim 0 false 0 none).Geometry :=
    ⟨rfl, oneFrame_geometry.pos, oneFrame_geometry.aligned, by decide⟩
  have hfull : firstFree (oneFrame.claim 0 false 0 none).coremap = none := by decide
  refine ⟨oneFrame.frameAddr 0, oneFrame.claim 0 false 0 none, _,
    getPage_run_some rfl rfl (by decide), getPage_run_none rfl rfl hfull, ?_⟩
  exact KernelRequest.not_safe_of_full hs rfl id (by decide) hfull

end Os161Paging
