import Mathlib.Data.List.Pairwise
import Os161Paging.Footprint
import Os161Paging.Transitions

/-!
# Blocks of the coremap

The length of a block of kernel memory is stored in one place, the field
`allocpages` of its first entry, and nothing keeps that field up to date
in the other entries: `freeAs` empties entries without touching it, and
`getMultiplePages` writes it in the first entry only. So stale lengths
pile up. An observer of the calls keeps books here of what has been handed
out, and the coremap is compared with the books: only the first entry of a
live block is ever asked for a length, and there it is right.
-/

namespace Os161Paging

open Prog

namespace Blocks

/-! ## The books -/

/-- A block handed out to the kernel: its address, and how many frames it has. -/
structure Block where
  paddr : Nat
  npages : Nat
deriving DecidableEq, Repr

structure UserFrame where
  paddr : Nat
  as : AsId
deriving DecidableEq, Repr

/-- The state, the blocks and frames that were handed out and not given back, and
the addresses that were given to `freepages` since the last allocation. -/
structure Config where
  sys : Sys
  blocks : List Block
  frames : List UserFrame
  freed : List Nat

def entryOf (s : Sys) (p : Nat) : Nat := (p - s.firstpaddr) / pageSize

def Block.entries (s : Sys) (b : Block) : List Nat := List.range' (entryOf s b.paddr) b.npages

/-- The entries of each block and of each user frame. -/
def Config.held (c : Config) : List (List Nat) :=
  c.blocks.map (·.entries c.sys) ++ c.frames.map fun f => [entryOf c.sys f.paddr]

/-! ## Runs -/

/-- The calls of `coremap.c` that its callers make: `getPages(n, 0, NULL)`,
`getPages(1, vaddr, as)` of the address of a page, `ptAlloc(n)`, `freeAs(as)`, and
`freepages` of the address of a block. -/
inductive Call where
  | pages (n : Int)
  | user (vaddr : Nat) (a : AsId)
  | table (n : Nat)
  | freeAs (a : AsId)
  | freepages (b : Block)
deriving DecidableEq, Repr

namespace Config

variable (c : Config)

def addBlock (b : Block) (s : Sys) : Config := ⟨s, b :: c.blocks, c.frames, []⟩

def addFrame (f : UserFrame) (s : Sys) : Config := ⟨s, c.blocks, f :: c.frames, []⟩

def dropFrames (a : AsId) (s : Sys) : Config :=
  { c with sys := s, frames := c.frames.filter (·.as ≠ a) }

def dropBlock (b : Block) (s : Sys) : Config :=
  ⟨s, c.blocks.erase b, c.frames, b.paddr :: c.freed⟩

end Config

/-- One call that returns, and the entry made for it. The requests of the kernel are
made while there is a free frame; a request for an address space that finds none
is an eviction, for which no entry is made. -/
def perform (t : Tid) (c : Config) : Call → Option Config
  | .pages n =>
      match firstFree c.sys.coremap, (getPages n 0 none).run t c.sys with
      | some _, .ok (p, s) => if 1 ≤ n then some (c.addBlock ⟨p, n.toNat⟩ s) else none
      | _, _ => none
  | .user vaddr a =>
      match firstFree c.sys.coremap, (getPages 1 vaddr (some a)).run t c.sys with
      | some _, .ok (p, s) => if pageOffset vaddr = 0 then some (c.addFrame ⟨p, a⟩ s) else none
      | none, .ok (_, s) => some { c with sys := s }
      | _, _ => none
  | .table n =>
      match firstFree c.sys.coremap, (ptAlloc n).run t c.sys with
      | some _, .ok (p, s) => some (c.addBlock ⟨p, max 1 (ptFrames n)⟩ s)
      | _, _ => none
  | .freeAs a =>
      match (Os161Paging.freeAs a).run t c.sys with
      | .ok (_, s) => some (c.dropFrames a s)
      | _ => none
  | .freepages b =>
      if b ∈ c.blocks then
        match (Os161Paging.freepages b.paddr).run t c.sys with
        | .ok (_, s) => some (c.dropBlock b s)
        | _ => none
      else none

structure SameCoremap (s s' : Sys) : Prop where
  coremap : s'.coremap = s.coremap
  firstpaddr : s'.firstpaddr = s.firstpaddr
  active : s'.coremapActive = s.coremapActive

/-- Calls one after the other, and between them anything else the kernel does: all
other code leaves the coremap alone. -/
def system : Transitions Config where
  start c := c.sys.Geometry ∧ c.sys.coremap = List.replicate c.sys.coremapSize .zero ∧
    c.sys.nextSvic = 0 ∧ c.blocks = [] ∧ c.frames = [] ∧ c.freed = []
  step c c' := (∃ t call, perform t c call = some c') ∨
    ∃ s, SameCoremap c.sys s ∧ s.nextSvic = c.sys.nextSvic ∧ c' = { c with sys := s }

/-! ## What a call does to the coremap -/

variable {t : Tid} {s s' : Sys} {c c' : Config} {i n p : Nat} {x : Option AsId}

/-- The `n` free entries from `i` on are taken, for `x`. -/
structure Takes (s s' : Sys) (i n : Nat) (x : Option AsId) : Prop where
  pos : 0 < n
  firstpaddr : s'.firstpaddr = s.firstpaddr
  active : s'.coremapActive = s.coremapActive
  size : s'.coremapSize = s.coremapSize
  cursor : s'.nextSvic = s.nextSvic
  free : ∀ k, i ≤ k → k < i + n → freeAt s.coremap k = true
  taken : ∀ k : Nat, i ≤ k → k < i + n → ∃ e, s'.coremap[k]? = some e ∧ e.cused = true ∧ e.as = x ∧
    (x ≠ none → e.reserved = false)
  head : ∃ e, s'.coremap[i]? = some e ∧ e.allocpages = n
  rest : ∀ k : Nat, ¬ (i ≤ k ∧ k < i + n) → s'.coremap[k]? = s.coremap[k]?

theorem Takes.lt (h : Takes s s' i n x) : i < s.coremapSize :=
  freeAt_lt (h.free i (Nat.le_refl i) (Nat.lt_add_of_pos_right h.pos))

theorem takes_claim {r : Bool} {v : Nat} (hv : v.testBit 0 = false)
    (h : firstFree s.coremap = some i) :
    Takes s (s.claim i r v x) i 1 (if r then none else x) := by
  have hfree := firstFree_eq_some h
  obtain ⟨e, he, -⟩ := freeAt_eq_true.mp hfree
  have hget : (s.claim i r v x).coremap[i]? = some (e.setOne v r x) := by
    simp [Sys.claim, he]
  refine ⟨Nat.one_pos, rfl, rfl, List.length_modify .., rfl, fun k hk hlt => ?_,
    fun k hk hlt => ?_, ⟨_, hget, rfl⟩, fun k hk => ?_⟩
  · obtain rfl : k = i := by omega
    exact hfree
  · obtain rfl : k = i := by omega
    refine ⟨_, hget, CEntry.setOne_cused .., CEntry.setOne_as .., fun hx => ?_⟩
    cases r with
    | true => exact absurd rfl hx
    | false => rw [CEntry.setOne_reserved, hv, Bool.or_false]
  · simp [Sys.claim, show i ≠ k by omega]

theorem takes_takeRun {r : Bool} (hn : 0 < n)
    (h : multiScan s.coremap n s.coremapSize 0 0 = some i) :
    Takes s (s.takeRun i n r none) i n none := by
  have hfree := multiScan_free h (Nat.le_refl 0) fun _ j _ hj => absurd hj (Nat.not_lt_zero j)
  refine ⟨hn, rfl, rfl, by simp [Sys.takeRun, Sys.coremapSize, modifyRange], rfl, hfree,
    fun k hk hlt => ?_, ?_, fun k hk => ?_⟩
  · obtain ⟨e, he, -⟩ := freeAt_eq_true.mp (hfree k hk hlt)
    simp only [Sys.takeRun, modifyRange_getElem, hk, hlt, and_self, if_true, List.getElem?_modify,
      he]
    exact ⟨_, rfl, CEntry.set_cused .., by simp, fun h => absurd rfl h⟩
  · obtain ⟨e, he, -⟩ := freeAt_eq_true.mp (hfree i (Nat.le_refl i) (by omega))
    simp only [Sys.takeRun, modifyRange_getElem, Nat.le_refl, true_and, if_pos (show i < i + n by
      omega), List.getElem?_modify_eq, he]
    exact ⟨_, rfl, rfl⟩
  · have hne : i ≠ k := by omega
    simp [Sys.takeRun, modifyRange_getElem, hk, hne]

theorem getPage_takes {r : Bool} {v j : Nat} (hv : v.testBit 0 = false)
    (hact : s.coremapActive = true) (hj : firstFree s.coremap = some j)
    (h : (getPage r v x).run t s = .ok (p, s')) :
    ∃ i, p = s.frameAddr i ∧ Takes s s' i 1 (if r then none else x) := by
  obtain ⟨_, _, h1, -⟩ := run_bind_eq_ok.mp h
  have hl := (spinlockAcquire_eq_ok.mp h1).1
  rw [getPage_run_some hact hl hj] at h
  cases h
  exact ⟨j, rfl, takes_claim hv hj⟩

theorem getMultiplePages_takes {r : Bool} (hn : 0 < n) (hact : s.coremapActive = true)
    (h : (getMultiplePages n r none).run t s = .ok (p, s')) :
    ∃ i, p = s.frameAddr i ∧ Takes s s' i n none := by
  obtain ⟨_, _, h1, -⟩ := run_bind_eq_ok.mp h
  have hl := (spinlockAcquire_eq_ok.mp h1).1
  cases hf : multiScan s.coremap n s.coremapSize 0 0 with
  | none =>
      rw [getMultiplePages_run_none hact hl hf] at h
      cases h
  | some first =>
      rw [getMultiplePages_run_some hact hl hf] at h
      cases h
      exact ⟨first, rfl, takes_takeRun hn hf⟩

theorem getPages_takes {n : Int} {j : Nat} (hn : 1 ≤ n) (hact : s.coremapActive = true)
    (hj : firstFree s.coremap = some j) (h : (getPages n 0 none).run t s = .ok (p, s')) :
    ∃ i, p = s.frameAddr i ∧ Takes s s' i n.toNat none := by
  rw [getPages] at h
  split at h
  · exact getMultiplePages_takes (by omega) hact h
  · obtain rfl : n = 1 := by omega
    exact getPage_takes (by decide) hact hj h

theorem ptAlloc_takes {j : Nat} (hact : s.coremapActive = true)
    (hj : firstFree s.coremap = some j) (h : (ptAlloc n).run t s = .ok (p, s')) :
    ∃ i, p = s.frameAddr i ∧ Takes s s' i (max 1 (ptFrames n)) none := by
  obtain ⟨-, ⟨hin, -⟩ | ⟨-, hn, first, hf, rfl, rfl⟩ | ⟨-, hn, i, hi, rfl, rfl⟩ |
    ⟨-, -, hnone, -⟩⟩ := ptAlloc_cases h
  · rw [hact] at hin
    cases hin
  · rw [Nat.max_eq_right hn.le]
    exact ⟨first, rfl, takes_takeRun (by omega) hf⟩
  · rw [Nat.max_eq_left (Nat.le_of_not_lt hn)]
    exact ⟨i, rfl, takes_claim (by decide) hi⟩
  · rw [hj] at hnone
    cases hnone

/-- With a frame to be had, `ptAlloc` changes nothing but the coremap. -/
theorem ptAlloc_coremap {j : Nat} (hact : s.coremapActive = true)
    (hj : firstFree s.coremap = some j) (h : (ptAlloc n).run t s = .ok (p, s')) :
    s' = { s with coremap := s'.coremap } := by
  obtain ⟨-, ⟨hin, -⟩ | ⟨-, -, first, -, -, rfl⟩ | ⟨-, -, i, -, -, rfl⟩ | ⟨-, -, hnone, -⟩⟩ :=
    ptAlloc_cases h
  · rw [hact] at hin
    cases hin
  · rfl
  · rfl
  · rw [hj] at hnone
    cases hnone

theorem victimLoop_next {cm : List CEntry} {a : AsId} {fuel next j next' : Nat}
    (h : victimLoop cm a fuel next = some (j, next')) : next' < cm.length := by
  induction fuel generalizing next with
  | zero => cases h
  | succ fuel ih =>
      rw [victimLoop] at h
      cases hc : cm[next]? with
      | none =>
          rw [hc] at h
          exact ih h
      | some e =>
          rw [hc] at h
          simp only at h
          split at h
          · cases h
            have := (List.getElem?_eq_some_iff.mp hc).1
            exact Nat.mod_lt _ (by omega)
          · exact ih h

/-- The page table of `a` has a page in the frame at `p`. -/
def Names (s : Sys) (a : AsId) (p : Nat) : Prop :=
  ∀ x n, s.as a = some x → x.npages = some n → ∃ e ∈ x.pt.take n, e.paddr = p

/-- The frame is given up unless no page is found in it. -/
theorem evictFrom_eq_ok {a : AsId} {addr : Nat} (hnames : Names s a (s.frameAddr i))
    (h : (evictFrom a i).run t s = .ok (addr, s')) : addr = i := by
  obtain ⟨paddr, s1, h1, h⟩ := run_bind_eq_ok.mp h
  obtain ⟨rfl, rfl⟩ := gets_eq_ok.mp h1
  obtain ⟨found, s2, h2, h⟩ := run_bind_eq_ok.mp h
  obtain ⟨⟨x, n, hx, hn, hfound⟩, -⟩ := findPaddr_eq_ok.mp h2
  cases found with
  | some j =>
      obtain ⟨_, _, -, h⟩ := run_bind_eq_ok.mp h
      exact (pure_eq_ok.mp h).1
  | none =>
      obtain ⟨e, he, hpaddr⟩ := hnames x n hx hn
      have hno := List.findIdx?_eq_none_iff.mp hfound.symm e he
      rw [hpaddr, beq_self_eq_true] at hno
      cases hno

/-- An eviction changes no entry of the coremap, and moves the cursor to where the victim
loop leaves it. The frame it hands out is the victim if a page is found in that. -/
theorem getPages_evicts {v : Nat} {a : AsId} (hnone : firstFree s.coremap = none)
    (hact : s.coremapActive = true) (h : (getPages 1 v (some a)).run t s = .ok (p, s')) :
    SameCoremap s s' ∧
      ∃ i, victimLoop s.coremap a s.coremapSize s.nextSvic = some (i, s'.nextSvic) ∧
        (Names s a (s.frameAddr i) → p = s.frameAddr i) := by
  have hsp : Spared a fun s : Sys => (s.coremap, s.firstpaddr, s.coremapActive, s.nextSvic) := by
    constructor <;> intros <;> rfl
  obtain ⟨_, _, h1, h⟩ := run_bind_eq_ok.mp h
  obtain ⟨-, rfl⟩ := spinlockAcquire_eq_ok.mp h1
  obtain ⟨active, _, h2, h⟩ := run_bind_eq_ok.mp h
  obtain ⟨ha, rfl⟩ := gets_eq_ok.mp h2
  obtain rfl : active = true := ha.trans hact
  obtain ⟨free, s2, h3, h⟩ := run_bind_eq_ok.mp h
  obtain ⟨hf, rfl⟩ := claimFree_eq_ok.mp h3
  obtain rfl : free = none := hf.trans hnone
  obtain ⟨avail, _, h4, h⟩ := run_bind_eq_ok.mp h
  rw [(getAvailableSwap_eq_ok.mp h4).2.2] at h
  split at h
  · obtain ⟨j, _, h5, h⟩ := run_bind_eq_ok.mp h
    obtain ⟨next, hv, rfl⟩ := findVictim_eq_ok.mp h5
    -- from here on the coremap and its cursor are left alone
    have hkeep := (Leaves.bind hsp.letGo fun _ => .bind hsp.grab fun _ =>
      .bind hsp.evictFrom fun _ => .bind hsp.letGo fun _ => .gets _) _ _ _ h
    simp only [Prod.mk.injEq] at hkeep
    obtain ⟨hcm, hfirst, hactive, hnext⟩ := hkeep
    refine ⟨⟨hcm, hfirst, hactive⟩, j, hnext ▸ hv, fun hnames => ?_⟩
    obtain ⟨_, _, h6, h⟩ := run_bind_eq_ok.mp h
    obtain ⟨-, rfl⟩ := spinlockRelease_eq_ok.mp h6
    obtain ⟨_, _, h7, h⟩ := run_bind_eq_ok.mp h
    obtain ⟨-, rfl⟩ := lockAcquire_eq_ok.mp h7
    obtain ⟨addr, _, h8, h⟩ := run_bind_eq_ok.mp h
    have haddr : addr = j := by
      refine evictFrom_eq_ok ?_ h8
      exact hnames
    obtain ⟨_, s9, -, h⟩ := run_bind_eq_ok.mp h
    obtain ⟨hp, hs'⟩ := gets_eq_ok.mp h
    rw [hp, ← hs', haddr, Sys.frameAddr, hfirst]
    rfl
  · exact (fail_eq_ok.mp h).elim

/-- What a step does to the coremap and the books. -/
inductive Change (c : Config) : Config → Prop where
  | block {s' : Sys} {i n : Nat} (h : Takes c.sys s' i n none) :
      Change c (c.addBlock ⟨c.sys.frameAddr i, n⟩ s')
  | frame {s' : Sys} {i : Nat} {a : AsId} (h : Takes c.sys s' i 1 (some a)) :
      Change c (c.addFrame ⟨c.sys.frameAddr i, a⟩ s')
  | freeAs {t : Tid} {s' : Sys} {a : AsId} (h : (freeAs a).run t c.sys = .ok ((), s')) :
      Change c (c.dropFrames a s')
  | freepages {t : Tid} {s' : Sys} {b : Block} (hb : b ∈ c.blocks)
      (h : (freepages b.paddr).run t c.sys = .ok ((), s')) : Change c (c.dropBlock b s')
  | elsewhere {s' : Sys} (h : SameCoremap c.sys s')
      (hv : s'.nextSvic = c.sys.nextSvic ∨ s'.nextSvic < c.sys.coremapSize) :
      Change c { c with sys := s' }

theorem testBit_of_page {v : Nat} (h : pageOffset v = 0) : v.testBit 0 = false := by
  rw [pageOffset, pageSize_eq] at h
  rw [Nat.testBit_zero, decide_eq_false_iff_not]
  omega

theorem step_change (hact : c.sys.coremapActive = true) (h : system.step c c') : Change c c' := by
  rcases h with ⟨t, call, h⟩ | ⟨s, hsame, hv, rfl⟩
  · cases call with
    | pages n =>
        simp only [perform] at h
        split at h
        · next j p s hj hrun =>
            split at h
            · next hn =>
                cases h
                obtain ⟨i, rfl, ht⟩ := getPages_takes hn hact hj hrun
                exact .block ht
            · cases h
        · cases h
    | user vaddr a =>
        simp only [perform] at h
        split at h
        · next j p s hj hrun =>
            split at h
            · next hv =>
                cases h
                obtain ⟨i, rfl, ht⟩ := getPage_takes (testBit_of_page hv) hact hj hrun
                exact .frame ht
            · cases h
        · next p s hnone hrun =>
            cases h
            obtain ⟨hsame, i, hv, -⟩ := getPages_evicts hnone hact hrun
            exact .elsewhere hsame (.inr (victimLoop_next hv))
        · cases h
    | table n =>
        simp only [perform] at h
        split at h
        · next j p s hj hrun =>
            cases h
            obtain ⟨i, rfl, ht⟩ := ptAlloc_takes hact hj hrun
            exact .block ht
        · cases h
    | freeAs a =>
        simp only [perform] at h
        split at h
        · next s hrun =>
            cases h
            exact .freeAs hrun
        · cases h
    | freepages b =>
        simp only [perform] at h
        split at h
        · next hb =>
            split at h
            · next s hrun =>
                cases h
                exact .freepages hb hrun
            · cases h
        · cases h
  · exact .elsewhere hsame (.inl hv)

theorem freepages_run {e : CEntry} (hgeo : s.Geometry) (hl : s.owner .coremap = none)
    (he : s.coremap[i]? = some e) (hle : i + e.allocpages ≤ s.coremapSize) :
    (freepages (s.frameAddr i)).run t s = .ok ((), s.emptyRun i e.allocpages) := by
  have hlt : i < s.coremapSize := (List.getElem?_eq_some_iff.mp he).1
  have haddr := hgeo.frameAddr_eq hlt.le
  have hix : (s.frameAddr i - s.firstpaddr) / pageSize = i := by
    rw [haddr, Nat.add_sub_cancel_left, Nat.mul_div_cancel _ (by decide)]
  have h1 : (spinlockAcquire .coremap).run t s = .ok ((), s.take t .coremap) :=
    spinlockAcquire_eq_ok.mpr ⟨hl, rfl⟩
  have h2 : (emptyBlock i).run t (s.take t .coremap) =
      .ok ((), (s.take t .coremap).emptyRun i e.allocpages) :=
    emptyBlock_eq_ok.mpr ⟨e, he, hle, rfl⟩
  have h3 : (spinlockRelease .coremap).run t ((s.take t .coremap).emptyRun i e.allocpages) =
      .ok ((), s.emptyRun i e.allocpages) :=
    spinlockRelease_eq_ok.mpr ⟨by simp [Sys.emptyRun, Sys.take],
      (Sys.take_drop (s := s.emptyRun i e.allocpages) hl).symm⟩
  rw [freepages, run_bind, run_gets, Outcome.bind_ok]
  simp only [hix]
  rw [if_neg (by omega), run_bind, h1, Outcome.bind_ok]
  simp only [run_bind, h2, Outcome.bind_ok, h3]

/-- `freepages` leaves lengths of 0 and makes the one of the block it empties 0. -/
theorem emptyRun_allocpages {k : Nat} {e : CEntry} (he : s.coremap[k]? = some e)
    (hz : k = i ∨ e.allocpages = 0) :
    ∃ e', (s.emptyRun i n).coremap[k]? = some e' ∧ e'.allocpages = 0 := by
  simp only [Sys.emptyRun, modifyRange_getElem, List.getElem?_modify, he]
  grind [CEntry.setEmpty]

/-! ## The books agree with the coremap -/

theorem entryOf_frameAddr (hgeo : s.Geometry) (hi : i < s.coremapSize) :
    entryOf s (s.frameAddr i) = i := by
  rw [entryOf, hgeo.frameAddr_eq hi.le, Nat.add_sub_cancel_left,
    Nat.mul_div_cancel _ (by decide)]

theorem entryOf_congr (h : s'.firstpaddr = s.firstpaddr) : entryOf s' = entryOf s := by
  funext p
  rw [entryOf, entryOf, h]

theorem frameAddr_congr (h : s'.firstpaddr = s.firstpaddr) : s'.frameAddr = s.frameAddr := by
  funext k
  rw [Sys.frameAddr, Sys.frameAddr, h]

theorem Block.entries_congr (h : s'.firstpaddr = s.firstpaddr) (b : Block) :
    b.entries s' = b.entries s := by
  rw [entries, entries, entryOf_congr h]

theorem Block.mem_entries {b : Block} {k : Nat} :
    k ∈ b.entries s ↔ entryOf s b.paddr ≤ k ∧ k < entryOf s b.paddr + b.npages :=
  List.mem_range'_1

structure Block.Live (s : Sys) (b : Block) : Prop where
  addr : b.paddr = s.frameAddr (entryOf s b.paddr)
  pos : 0 < b.npages
  head : ∃ e, s.coremap[entryOf s b.paddr]? = some e ∧ e.allocpages = b.npages
  used : ∀ k ∈ b.entries s, ∃ e, s.coremap[k]? = some e ∧ e.cused = true ∧ e.as = none

def UserFrame.Live (s : Sys) (f : UserFrame) : Prop :=
  ∃ e, s.coremap[entryOf s f.paddr]? = some e ∧ e.cused = true ∧ e.as = some f.as

/-- A block at `p` has been given back: its length is 0. -/
structure Freed (s : Sys) (p : Nat) : Prop where
  addr : p = s.frameAddr (entryOf s p)
  head : ∃ e, s.coremap[entryOf s p]? = some e ∧ e.allocpages = 0

theorem Block.Live.head_mem {b : Block} (hb : b.Live s) : entryOf s b.paddr ∈ b.entries s :=
  mem_entries.mpr ⟨Nat.le_refl _, Nat.lt_add_of_pos_right hb.pos⟩

theorem Block.Live.keep {b : Block} (hb : b.Live s) (hf : s'.firstpaddr = s.firstpaddr)
    (hk : ∀ k ∈ b.entries s, s'.coremap[k]? = s.coremap[k]?) : b.Live s' where
  addr := by
    rw [frameAddr_congr hf, entryOf_congr hf]
    exact hb.addr
  pos := hb.pos
  head := by
    rw [entryOf_congr hf, hk _ hb.head_mem]
    exact hb.head
  used k hkb := by
    rw [entries_congr hf] at hkb
    rw [hk k hkb]
    exact hb.used k hkb

theorem UserFrame.Live.keep {f : UserFrame} (h : f.Live s) (hf : s'.firstpaddr = s.firstpaddr)
    (hk : s'.coremap[entryOf s f.paddr]? = s.coremap[entryOf s f.paddr]?) : f.Live s' := by
  rw [UserFrame.Live, entryOf_congr hf, hk]
  exact h

/-- **The books are right.** -/
structure Inv (c : Config) : Prop where
  geometry : c.sys.Geometry
  block : ∀ b ∈ c.blocks, b.Live c.sys
  blocks : c.blocks.Pairwise fun b b' => (b.entries c.sys).Disjoint (b'.entries c.sys)
  frame : ∀ f ∈ c.frames, f.Live c.sys
  frames : c.frames.Pairwise fun f f' => entryOf c.sys f.paddr ≠ entryOf c.sys f'.paddr
  freed : ∀ p ∈ c.freed, Freed c.sys p

theorem Takes.keeps {k : Nat} {e : CEntry} (h : Takes s s' i n x) (he : s.coremap[k]? = some e)
    (hu : e.cused = true) : ¬ (i ≤ k ∧ k < i + n) := by
  rintro ⟨hk, hlt⟩
  obtain ⟨e', he', hfree⟩ := freeAt_eq_true.mp (h.free k hk hlt)
  obtain rfl := Option.some.inj (he.symm.trans he')
  rw [CEntry.not_isFree hu] at hfree
  cases hfree

section Steps

variable (hi : Inv c)
include hi

theorem Inv.keep_block (h : Takes c.sys s' i n x) : ∀ b ∈ c.blocks, b.Live s' := by
  intro b hb
  refine (hi.block b hb).keep h.firstpaddr fun k hk => h.rest k ?_
  obtain ⟨e, he, hu, -⟩ := (hi.block b hb).used k hk
  exact h.keeps he hu

theorem Inv.keep_frame (h : Takes c.sys s' i n x) : ∀ f ∈ c.frames, f.Live s' := by
  intro f hf
  obtain ⟨e, he, hu, -⟩ := hi.frame f hf
  exact (hi.frame f hf).keep h.firstpaddr (h.rest _ (h.keeps he hu))

theorem Inv.keep_blocks (h : s'.firstpaddr = c.sys.firstpaddr) :
    c.blocks.Pairwise fun b b' => (b.entries s').Disjoint (b'.entries s') := by
  simpa only [Block.entries_congr h] using hi.blocks

theorem Inv.keep_frames (h : s'.firstpaddr = c.sys.firstpaddr) :
    c.frames.Pairwise fun f f' => entryOf s' f.paddr ≠ entryOf s' f'.paddr := by
  simpa only [entryOf_congr h] using hi.frames

theorem Inv.addBlock (h : Takes c.sys s' i n none) :
    Inv (c.addBlock ⟨c.sys.frameAddr i, n⟩ s') := by
  have hent : entryOf s' (c.sys.frameAddr i) = i := by
    rw [entryOf_congr h.firstpaddr]
    exact entryOf_frameAddr hi.geometry h.lt
  have hnew : Block.Live s' ⟨c.sys.frameAddr i, n⟩ :=
    { addr := by rw [hent, frameAddr_congr h.firstpaddr]
      pos := h.pos
      head := by rw [hent]; exact h.head
      used := fun k hk => by
        rw [Block.mem_entries, hent] at hk
        obtain ⟨e, he, hu, has, -⟩ := h.taken k hk.1 hk.2
        exact ⟨e, he, hu, has⟩ }
  refine ⟨hi.geometry.congr h.active h.firstpaddr h.size, ?_, ?_, hi.keep_frame h,
    hi.keep_frames h.firstpaddr, nofun⟩
  · rintro b (_ | ⟨_, hb⟩)
    · exact hnew
    · exact hi.keep_block h b hb
  · refine List.pairwise_cons.mpr ⟨fun b hb k hk hkb => ?_, hi.keep_blocks h.firstpaddr⟩
    obtain ⟨e, he, hu, -⟩ := (hi.block b hb).used k (Block.entries_congr h.firstpaddr b ▸ hkb)
    have hk' := Block.mem_entries (s := s').mp hk
    rw [hent] at hk'
    exact h.keeps he hu hk'

theorem Inv.addFrame {a : AsId} (h : Takes c.sys s' i 1 (some a)) :
    Inv (c.addFrame ⟨c.sys.frameAddr i, a⟩ s') := by
  have hent : entryOf s' (c.sys.frameAddr i) = i := by
    rw [entryOf_congr h.firstpaddr]
    exact entryOf_frameAddr hi.geometry h.lt
  refine ⟨hi.geometry.congr h.active h.firstpaddr h.size, hi.keep_block h,
    hi.keep_blocks h.firstpaddr, ?_, ?_, nofun⟩
  · rintro f (_ | ⟨_, hf⟩)
    · change ∃ e, s'.coremap[entryOf s' (c.sys.frameAddr i)]? = some e ∧ _
      rw [hent]
      obtain ⟨e, he, hu, has, -⟩ := h.taken i (Nat.le_refl i) (Nat.lt_succ_self i)
      exact ⟨e, he, hu, has⟩
    · exact hi.keep_frame h f hf
  · refine List.pairwise_cons.mpr ⟨fun f hf heq => ?_, hi.keep_frames h.firstpaddr⟩
    obtain ⟨e, he, hu, -⟩ := hi.frame f hf
    have heq' : i = entryOf c.sys f.paddr := hent.symm.trans (entryOf_congr h.firstpaddr ▸ heq)
    exact h.keeps he hu (by omega)

theorem Inv.of_sameCoremap (h : SameCoremap c.sys s') : Inv { c with sys := s' } := by
  have hsize : s'.coremapSize = c.sys.coremapSize := by
    rw [Sys.coremapSize, h.coremap, Sys.coremapSize]
  refine ⟨hi.geometry.congr h.active h.firstpaddr hsize, fun b hb => ?_,
    hi.keep_blocks h.firstpaddr, fun f hf => ?_, hi.keep_frames h.firstpaddr, fun p hp => ?_⟩
  · exact (hi.block b hb).keep h.firstpaddr fun k _ => by rw [h.coremap]
  · exact (hi.frame f hf).keep h.firstpaddr (by rw [h.coremap])
  · obtain ⟨haddr, hhead⟩ := hi.freed p hp
    refine ⟨?_, ?_⟩
    · rwa [frameAddr_congr h.firstpaddr, entryOf_congr h.firstpaddr]
    · rwa [entryOf_congr h.firstpaddr, h.coremap]

theorem Inv.dropFrames {a : AsId} (h : (freeAs a).run t c.sys = .ok ((), s')) :
    Inv (c.dropFrames a s') := by
  obtain ⟨-, rfl⟩ := freeAs_eq_ok.mp h
  set s' : Sys := { c.sys with
    coremap := c.sys.coremap.map fun e => if e.as = some a then e.setEmpty else e }
  have hget : ∀ k : Nat, s'.coremap[k]? =
      c.sys.coremap[k]?.map fun e => if e.as = some a then e.setEmpty else e :=
    fun k => List.getElem?_map ..
  have hsame : ∀ {k : Nat} {e : CEntry}, c.sys.coremap[k]? = some e → e.as ≠ some a →
      s'.coremap[k]? = c.sys.coremap[k]? := by
    intro k e he hne
    rw [hget, he, Option.map_some, if_neg hne]
  have hfirst : s'.firstpaddr = c.sys.firstpaddr := rfl
  refine ⟨hi.geometry.congr rfl rfl (List.length_map ..), fun b hb => ?_,
    hi.keep_blocks rfl, fun f hf => ?_, (hi.keep_frames hfirst).filter _, fun p hp => ?_⟩
  · refine (hi.block b hb).keep rfl fun k hk => ?_
    obtain ⟨e, he, -, hnone⟩ := (hi.block b hb).used k hk
    exact hsame he (by simp [hnone])
  · obtain ⟨hf, hne⟩ := List.mem_filter.mp hf
    obtain ⟨e, he, -, has⟩ := hi.frame f hf
    refine (hi.frame f hf).keep rfl (hsame he ?_)
    rw [has]
    simpa using hne
  · obtain ⟨haddr, e, he, hz⟩ := hi.freed p hp
    refine ⟨haddr, _, (hget _).trans (congrArg (Option.map _) he), ?_⟩
    dsimp only
    split
    · exact hz
    · exact hz

/-- A block is given back: exactly its entries are emptied. -/
theorem Inv.freepages_block {b : Block} (hb : b ∈ c.blocks)
    (hl : c.sys.owner .coremap = none) :
    (freepages b.paddr).run t c.sys =
      .ok ((), c.sys.emptyRun (entryOf c.sys b.paddr) b.npages) := by
  obtain ⟨haddr, hpos, ⟨e, he, hn⟩, hused⟩ := hi.block b hb
  obtain ⟨e', he', -⟩ := hused (entryOf c.sys b.paddr + b.npages - 1)
    (Block.mem_entries.mpr ⟨by omega, by omega⟩)
  have hlast := (List.getElem?_eq_some_iff.mp he').1
  have hrun := freepages_run (t := t) hi.geometry hl he (by rw [hn, Sys.coremapSize]; omega)
  rwa [← haddr, hn] at hrun

/-- A second `freepages` does nothing. -/
theorem Inv.freepages_again (hp : p ∈ c.freed) (hl : c.sys.owner .coremap = none) :
    (freepages p).run t c.sys = .ok ((), c.sys) := by
  obtain ⟨haddr, e, he, hz⟩ := hi.freed p hp
  have hlt := (List.getElem?_eq_some_iff.mp he).1
  have hrun := freepages_run (t := t) hi.geometry hl he (by rw [hz]; exact hlt.le)
  have hsame : c.sys.emptyRun (entryOf c.sys p) 0 = c.sys := by
    have hcm : (c.sys.emptyRun (entryOf c.sys p) 0).coremap = c.sys.coremap := by
      refine List.ext_getElem? fun k => ?_
      by_cases hk : entryOf c.sys p = k
      · subst hk
        simp only [Sys.emptyRun, modifyRange_getElem, List.getElem?_modify_eq, he]
        simp [← hz]
      · simp [Sys.emptyRun, modifyRange_getElem, hk]
    exact congrArg (fun cm => { c.sys with coremap := cm }) hcm
  rwa [← haddr, hz, hsame] at hrun

theorem Inv.freepages_eq_ok {b : Block} (hb : b ∈ c.blocks)
    (h : (freepages b.paddr).run t c.sys = .ok ((), s')) :
    s' = c.sys.emptyRun (entryOf c.sys b.paddr) b.npages := by
  have hl : c.sys.owner .coremap = none := by
    obtain ⟨_, _, h1, h⟩ := run_bind_eq_ok.mp h
    obtain ⟨rfl, rfl⟩ := gets_eq_ok.mp h1
    have hge : ¬ b.paddr < c.sys.firstpaddr := by
      have hlive := hi.block b hb
      obtain ⟨e, he, -⟩ := hlive.head
      rw [hlive.addr, hi.geometry.frameAddr_eq (List.getElem?_eq_some_iff.mp he).1.le]
      omega
    rw [if_neg hge] at h
    obtain ⟨_, _, h2, -⟩ := run_bind_eq_ok.mp h
    exact (spinlockAcquire_eq_ok.mp h2).1
  rw [hi.freepages_block hb hl] at h
  cases h
  rfl

theorem Inv.dropBlock {b : Block} (hb : b ∈ c.blocks)
    (h : (freepages b.paddr).run t c.sys = .ok ((), s')) : Inv (c.dropBlock b s') := by
  obtain rfl := hi.freepages_eq_ok hb h
  set s' := c.sys.emptyRun (entryOf c.sys b.paddr) b.npages
  have hlive := hi.block b hb
  have hout : ∀ k, k ∉ b.entries c.sys → s'.coremap[k]? = c.sys.coremap[k]? :=
    fun k hk => emptyRun_getElem (fun hr => hk (Block.mem_entries.mpr hr)) hlive.pos
  -- the block is disjoint from those that remain
  have hperm := List.perm_cons_erase hb
  have hpair : (b :: c.blocks.erase b).Pairwise fun b b' =>
      (b.entries c.sys).Disjoint (b'.entries c.sys) :=
    (hperm.pairwise_iff List.disjoint_symm).mp hi.blocks
  refine ⟨hi.geometry.congr rfl rfl emptyRun_size, fun b' hb' => ?_,
    (List.pairwise_cons.mp hpair).2, fun f hf => ?_, hi.keep_frames rfl, ?_⟩
  · have hdis := (List.pairwise_cons.mp hpair).1 b' hb'
    exact (hi.block b' (List.mem_of_mem_erase hb')).keep rfl fun k hk =>
      hout k fun hkb => hdis hkb hk
  · obtain ⟨e, he, -, has⟩ := hi.frame f hf
    refine (hi.frame f hf).keep rfl (hout _ fun hk => ?_)
    obtain ⟨e', he', -, hnone⟩ := hlive.used _ hk
    obtain rfl := Option.some.inj (he.symm.trans he')
    rw [has] at hnone
    cases hnone
  · have hzero : ∀ p, p = b.paddr ∨ p ∈ c.freed → Freed s' p := by
      intro p hp
      have haddr : p = c.sys.frameAddr (entryOf c.sys p) := by
        rcases hp with rfl | hp
        · exact hlive.addr
        · exact (hi.freed p hp).addr
      refine ⟨haddr, ?_⟩
      rcases hp with rfl | hp
      · obtain ⟨e, he, -⟩ := hlive.head
        exact emptyRun_allocpages he (.inl rfl)
      · obtain ⟨e, he, hz⟩ := (hi.freed p hp).head
        exact emptyRun_allocpages he (.inr hz)
    exact fun p hp => hzero p (List.mem_cons.mp hp)

/-- **One step keeps the books right.** -/
theorem Inv.step (h : Change c c') : Inv c' := by
  cases h with
  | block h => exact hi.addBlock h
  | frame h => exact hi.addFrame h
  | freeAs h => exact hi.dropFrames h
  | freepages hb h => exact hi.dropBlock hb h
  | elsewhere h _ => exact hi.of_sameCoremap h

end Steps

theorem inv_of_start (h : system.start c) : Inv c := by
  obtain ⟨hgeo, -, -, hb, hf, hfr⟩ := h
  refine ⟨hgeo, ?_, ?_, ?_, ?_, ?_⟩ <;> simp [hb, hf, hfr]

theorem inv_of_reachable (h : system.Reachable c) : Inv c :=
  h.invariant (fun _ => inv_of_start) fun _ _ hi hs => hi.step (step_change hi.geometry.active hs)

/-! ## Evictions -/

/-- Every entry for an address space is in the books. -/
def Booked (c : Config) : Prop :=
  ∀ (k : Nat) e a, c.sys.coremap[k]? = some e → e.as = some a → ⟨c.sys.frameAddr k, a⟩ ∈ c.frames

theorem Takes.entry_before {k : Nat} {e : CEntry} (h : Takes s s' i n x)
    (he : s'.coremap[k]? = some e) (hne : e.as ≠ x) : s.coremap[k]? = some e := by
  rw [← h.rest k, he]
  rintro ⟨hk, hlt⟩
  obtain ⟨e', he', -, has, -⟩ := h.taken k hk hlt
  obtain rfl := Option.some.inj (he.symm.trans he')
  exact hne has

theorem Booked.step (hi : Inv c) (hb : Booked c) (h : Change c c') : Booked c' := by
  intro k e a he has
  cases h with
  | @block s' i n h =>
      have hold := h.entry_before he (by rw [has]; simp)
      show ⟨s'.frameAddr k, a⟩ ∈ c.frames
      rw [frameAddr_congr h.firstpaddr]
      exact hb k e a hold has
  | @frame s' i a' h =>
      show ⟨s'.frameAddr k, a⟩ ∈ _ :: c.frames
      rw [frameAddr_congr h.firstpaddr]
      by_cases hk : i ≤ k ∧ k < i + 1
      · obtain rfl : k = i := by omega
        obtain ⟨e', he', -, has', -⟩ := h.taken k hk.1 hk.2
        obtain rfl := Option.some.inj (he.symm.trans he')
        obtain rfl := Option.some.inj (has.symm.trans has')
        exact List.mem_cons_self
      · exact List.mem_cons_of_mem _ (hb k e a (h.rest k hk ▸ he) has)
  | @freeAs t s' a' h =>
      obtain ⟨-, rfl⟩ := freeAs_eq_ok.mp h
      replace he : (c.sys.coremap.map fun e => if e.as = some a' then e.setEmpty else e)[k]? =
        some e := he
      rw [List.getElem?_map] at he
      obtain ⟨e', he', rfl⟩ := Option.map_eq_some_iff.mp he
      split at has
      · cases has
      · next hne =>
          refine List.mem_filter.mpr ⟨hb k e' a he' has, ?_⟩
          rw [has] at hne
          simpa using hne
  | @freepages t s' b hmem h =>
      obtain rfl := hi.freepages_eq_ok hmem h
      by_cases hk : k ∈ b.entries c.sys
      · obtain ⟨e', he', -⟩ := (hi.block b hmem).used k hk
        obtain ⟨e2, he2, -, hnone⟩ := emptyRun_isFree (Block.mem_entries.mp hk) he'
        obtain rfl := Option.some.inj (he.symm.trans he2)
        rw [hnone] at has
        cases has
      · have hold := emptyRun_getElem (s := c.sys) (fun hr => hk (Block.mem_entries.mpr hr))
          (hi.block b hmem).pos
        exact hb k e a (hold ▸ he) has
  | @elsewhere s' h _ =>
      show ⟨s'.frameAddr k, a⟩ ∈ c.frames
      rw [frameAddr_congr h.firstpaddr]
      exact hb k e a (h.coremap ▸ he) has

theorem booked_of_reachable (h : system.Reachable c) : Booked c := by
  suffices hall : Inv c ∧ Booked c from hall.2
  refine h.invariant (I := fun c => Inv c ∧ Booked c) (fun c hc => ⟨inv_of_start hc, ?_⟩) ?_
  · intro k e a he has
    rw [hc.2.1] at he
    obtain rfl := List.eq_of_mem_replicate (List.mem_of_getElem? he)
    cases has
  · intro c c' hall hs
    have hchange := step_change hall.1.geometry.active hs
    exact ⟨hall.1.step hchange, hall.2.step hall.1 hchange⟩

/-- Where the page table of `a` names the frames of `a`, an eviction hands out one of them. -/
theorem Inv.evicted_mem {a : AsId} {v : Nat} (hi : Inv c) (hb : Booked c)
    (hfull : firstFree c.sys.coremap = none)
    (hnames : ∀ f ∈ c.frames, f.as = a → Names c.sys a f.paddr)
    (h : (getPages 1 v (some a)).run t c.sys = .ok (p, s')) : ⟨p, a⟩ ∈ c.frames := by
  obtain ⟨-, i, hv, hp⟩ := getPages_evicts hfull hi.geometry.active h
  obtain ⟨e, he, hev⟩ := victimLoop_evictable hv
  simp only [CEntry.evictable, Bool.and_eq_true, beq_iff_eq] at hev
  have hmem := hb i e a he hev.2
  rw [hp (hnames _ hmem rfl)]
  exact hmem

/-! ## The discipline -/

/-- From `s` to `s'`, exactly the entries `is` are emptied. -/
def Empties (s s' : Sys) (is : List Nat) : Prop :=
  (∀ i ∈ is, ∃ e, s'.coremap[i]? = some e ∧ e.isFree = true ∧ e.as = none) ∧
    ∀ i ∉ is, s'.coremap[i]? = s.coremap[i]?

theorem Inv.held_pairwise (hi : Inv c) : c.held.Pairwise List.Disjoint := by
  refine List.pairwise_append.mpr ⟨List.pairwise_map.mpr hi.blocks,
    List.pairwise_map.mpr (hi.frames.imp fun h => List.disjoint_singleton.mpr
      (fun hm => h (List.mem_singleton.mp hm).symm)), ?_⟩
  intro is his js hjs k hk hk'
  obtain ⟨b, hb, rfl⟩ := List.mem_map.mp his
  obtain ⟨f, hf, rfl⟩ := List.mem_map.mp hjs
  obtain rfl := List.mem_singleton.mp hk'
  obtain ⟨e, he, -, hnone⟩ := (hi.block b hb).used _ hk
  obtain ⟨e', he', -, has⟩ := hi.frame f hf
  obtain rfl := Option.some.inj (he.symm.trans he')
  rw [has] at hnone
  cases hnone

theorem Inv.held_used (hi : Inv c) :
    ∀ is ∈ c.held, ∀ i ∈ is, ∃ e, c.sys.coremap[i]? = some e ∧ e.cused = true := by
  intro is his i hi'
  rcases List.mem_append.mp his with h | h
  · obtain ⟨b, hb, rfl⟩ := List.mem_map.mp h
    obtain ⟨e, he, hu, -⟩ := (hi.block b hb).used i hi'
    exact ⟨e, he, hu⟩
  · obtain ⟨f, hf, rfl⟩ := List.mem_map.mp h
    obtain rfl := List.mem_singleton.mp hi'
    obtain ⟨e, he, hu, -⟩ := hi.frame f hf
    exact ⟨e, he, hu⟩

theorem Inv.empties (hi : Inv c) {b : Block} (hb : b ∈ c.blocks) :
    Empties c.sys (c.sys.emptyRun (entryOf c.sys b.paddr) b.npages) (b.entries c.sys) := by
  have hlive := hi.block b hb
  refine ⟨fun k hk => ?_, fun k hk => ?_⟩
  · obtain ⟨e, he, -⟩ := hlive.used k hk
    exact emptyRun_isFree (Block.mem_entries.mp hk) he
  · exact emptyRun_getElem (fun hr => hk (Block.mem_entries.mpr hr)) hlive.pos

/-- **Block discipline.** In every state of every run the blocks of the kernel and the
frames of address spaces are pairwise disjoint sets of used entries; `freepages` of a
block empties its entries and no others; a second `freepages` with no allocation in
between changes nothing; an eviction hands out a frame of the address space it is made for,
if that has a page in each of its frames. -/
theorem block_discipline (h : system.Reachable c) :
    c.held.Pairwise List.Disjoint ∧
      (∀ is ∈ c.held, ∀ i ∈ is, ∃ e, c.sys.coremap[i]? = some e ∧ e.cused = true) ∧
      (∀ t, c.sys.owner .coremap = none →
        (∀ b ∈ c.blocks, ∃ s', (freepages b.paddr).run t c.sys = .ok ((), s') ∧
          Empties c.sys s' (b.entries c.sys)) ∧
        ∀ p ∈ c.freed, (freepages p).run t c.sys = .ok ((), c.sys)) ∧
      ∀ t a v p s', firstFree c.sys.coremap = none →
        (∀ f ∈ c.frames, f.as = a → Names c.sys a f.paddr) →
        (getPages 1 v (some a)).run t c.sys = .ok (p, s') → ⟨p, a⟩ ∈ c.frames := by
  have hi := inv_of_reachable h
  refine ⟨hi.held_pairwise, hi.held_used, fun t hl => ⟨fun b hb => ?_, fun p hp => ?_⟩,
    fun t a v p s' hfull hnames => hi.evicted_mem (booked_of_reachable h) hfull hnames⟩
  · exact ⟨_, hi.freepages_block hb hl, hi.empties hb⟩
  · exact hi.freepages_again hp hl

def sixFrames : Config :=
  ⟨boot .calm (fun _ => 0) (fun _ => 0) (8 * pageSize) pageSize (4 * pageSize), [], [], []⟩

/-- A block of two frames, a page table, and three user pages fill the memory. -/
def fill : List Call :=
  [.pages 2, .user 0x400000 0, .table 40, .user 0x401000 0, .user 0x402000 0]

/-- An address space with a page in each of its frames. -/
def resident (fs : List UserFrame) : Addrspace :=
  ⟨some 0x80005000, fs.map fun f => ⟨f.paddr, 0x400000, true, false, 6⟩, [], ⟨0, fun _ => 0⟩,
    some fs.length⟩

def filled : Config := (fill.foldlM (perform .kernel) sixFrames).get (by decide +kernel)

def crowded : Config := { filled with sys := filled.sys.setAs 0 (resident filled.frames) }

theorem crowded_reachable : system.Reachable crowded := by
  have hfill : system.Reachable filled := by
    refine Transitions.Reachable.moves (f := fun m c => perform .kernel c m)
      (fun m _ _ h => .inl ⟨.kernel, m, h⟩) fill (.init ?_) (Option.some_get _).symm
    exact ⟨boot_geometry (by decide) (by decide) (by decide), rfl, rfl, rfl, rfl, rfl⟩
  exact hfill.next (.inr ⟨crowded.sys, ⟨rfl, rfl, rfl⟩, rfl, rfl⟩)

/-- A page is evicted for a fourth one, and the block is given back. -/
def afterCalls : Config :=
  ([.user 0x403000 0, .freepages ⟨0x2000, 2⟩].foldlM (perform .kernel) crowded).get
    (by decide +kernel)

theorem afterCalls_reachable : system.Reachable afterCalls :=
  Transitions.Reachable.moves (f := fun m c => perform .kernel c m)
    (fun m _ _ h => .inl ⟨.kernel, m, h⟩) [.user 0x403000 0, .freepages ⟨0x2000, 2⟩]
    crowded_reachable (Option.some_get _).symm

theorem crowded_names : ∀ f ∈ crowded.frames, f.as = 0 → Names crowded.sys 0 f.paddr := by
  intro f hf _ x n hx hn
  obtain rfl : resident crowded.frames = x := Option.some.inj hx
  obtain rfl : crowded.frames.length = n := Option.some.inj hn
  refine ⟨⟨f.paddr, 0x400000, true, false, 6⟩, ?_, rfl⟩
  rw [List.take_of_length_le (by simp [resident])]
  exact List.mem_map.mpr ⟨f, hf, rfl⟩

theorem afterCalls_discipline :
    (∃ p s', (getPages 1 0x403000 (some 0)).run .kernel crowded.sys = .ok (p, s') ∧
      ⟨p, 0⟩ ∈ crowded.frames) ∧
    afterCalls.held.Pairwise List.Disjoint ∧ afterCalls.held = [[3], [5], [4], [2]] ∧
      (freepages 0x2000).run .kernel afterCalls.sys = .ok ((), afterCalls.sys) := by
  have hsat : ((getPages 1 0x403000 (some 0)).run .kernel crowded.sys).Sat fun _ => True := by
    decide +kernel
  obtain ⟨⟨p, s'⟩, hrun, -⟩ := hsat
  obtain ⟨-, -, -, hevict⟩ := block_discipline crowded_reachable
  obtain ⟨hpair, -, hfree, -⟩ := block_discipline afterCalls_reachable
  exact ⟨⟨p, s', hrun, hevict _ _ _ p s' (by decide +kernel) crowded_names hrun⟩, hpair,
    by decide +kernel, (hfree .kernel (by decide +kernel)).2 _ (by decide +kernel)⟩

end Blocks

end Os161Paging
