import Os161Paging.Blocks
import Os161Paging.FirstFit

/-!
# Pages of the kernel

`alloc_kpages` and `free_kpages`. The address `alloc_kpages` returns leads
`free_kpages` back to the block; but before it goes there it looks the
address up in the page table of the running process, with `getPageVtoP`, and
that search has only one answer when there is a process.
-/

namespace Os161Paging

open Prog

variable {t : Tid} {s s' : Sys} {n i : Nat}

/-! ## alloc_kpages -/

theorem getPages_run (hact : s.coremapActive = true) (hl : s.owner .coremap = none) (hn : 1 ≤ n)
    (hrun : ∃ k, FreeRun s.coremap n k) :
    ∃ i s', (getPages n 0 none).run t s = .ok (s.frameAddr i, s') ∧ Blocks.Takes s s' i n none ∧
      s' = { s with coremap := s'.coremap } := by
  obtain ⟨k, hk⟩ := hrun
  rw [getPages]
  by_cases hone : (n : Int) > 1
  · rw [if_pos hone, Int.toNat_natCast]
    obtain ⟨i, -, hi⟩ := multiScan_le (n := s.coremapSize) hn hk (Nat.le_add_left ..) (Nat.le_refl 0)
      (by omega) (by omega)
    exact ⟨i, _, getMultiplePages_run_some hact hl hi, Blocks.takes_takeRun hn hi, rfl⟩
  · obtain rfl : n = 1 := by omega
    rw [if_neg hone]
    have hfree := hk k (Nat.le_refl k) (by omega)
    cases hi : firstFree s.coremap with
    | none =>
        obtain ⟨e, he, hef⟩ := freeAt_eq_true.mp hfree
        rw [firstFree_eq_none.mp hi e (List.mem_of_getElem? he)] at hef
        cases hef
    | some i => exact ⟨i, _, getPage_run_some hact hl hi, Blocks.takes_claim (by decide) hi, rfl⟩

theorem FreeRun.le_size {k : Nat} (h : FreeRun s.coremap n k) : k + n ≤ s.coremapSize ∨ n = 0 := by
  by_cases hn : n = 0
  · exact .inr hn
  · have := freeAt_lt (h (k + n - 1) (by omega) (by omega))
    rw [Sys.coremapSize]
    omega

theorem allocKpages_run (hs : s.Geometry) (hl : s.owner .coremap = none)
    (hsleep : s.spinning t = false) (hn : 1 ≤ n) (hrun : ∃ k, FreeRun s.coremap n k) :
    ∃ i s', (allocKpages n).run t s = .ok (paddrToKvaddr (s.frameAddr i), s') ∧
      Blocks.Takes s s' i n none ∧ s' = { s with coremap := s'.coremap } := by
  obtain ⟨i, s', hget, htakes, hs'⟩ := getPages_run (t := t) hs.active hl hn hrun
  -- a request that can be served is small, and read as a positive `int`
  have hsmall : (if wrap n < 2 ^ 31 then (wrap n : Int) else wrap n - 2 ^ 32) = n := by
    obtain ⟨k, hk⟩ := hrun
    have hle := hk.le_size
    have hfits := hs.fits
    rw [pageSize_eq] at hfits
    have hwrap : wrap n = n := Nat.mod_eq_of_lt (by omega)
    rw [hwrap, if_pos (by omega)]
  have hne : s.frameAddr i ≠ 0 := hs.frameAddr_ne_zero htakes.lt.le
  have hpages : (getppages n).run t s = .ok (s.frameAddr i, s') := by
    simp only [getppages, hsmall, run_bind, hget, Outcome.bind_ok, if_neg hne, run_pure]
  have hcan : canSleep.run t s = .ok ((), s) := canSleep_eq_ok.mpr ⟨hsleep, rfl⟩
  refine ⟨i, s', ?_, htakes, hs'⟩
  simp only [allocKpages, run_bind, hcan, Outcome.bind_ok, hpages, if_neg hne, run_pure]

/-! ## free_kpages -/

/-- The answer of `getPageVtoP` says only whether there is an address space. -/
theorem getPageVtoP_eq_ok {vaddr : Nat} {r : Int × Option Nat}
    (h : (getPageVtoP vaddr).run t s = .ok (r, s')) :
    s' = s ∧ (s.cur = none ∧ r = (0, none) ∨ s.cur ≠ none ∧ r.1 = -1) := by
  obtain ⟨cur, s1, h1, h⟩ := run_bind_eq_ok.mp h
  obtain ⟨hcur, hs1⟩ := gets_eq_ok.mp h1
  rw [hs1] at h
  cases cur with
  | none =>
      obtain ⟨rfl, rfl⟩ := pure_eq_ok.mp h
      exact ⟨rfl, .inl ⟨hcur.symm, rfl⟩⟩
  | some a =>
      have hne : s.cur ≠ none := by
        rw [← hcur]
        simp
      obtain ⟨can, s2, h2, h⟩ := run_bind_eq_ok.mp h
      have hs2 := (canLock_eq_ok.mp h2).2
      rw [hs2] at h
      split at h
      · obtain ⟨_, _, h3, h⟩ := run_bind_eq_ok.mp h
        obtain ⟨hfree, rfl⟩ := lockAcquire_eq_ok.mp h3
        obtain ⟨p, _, h4, h⟩ := run_bind_eq_ok.mp h
        obtain ⟨-, rfl⟩ := findVaddr_eq_ok.mp h4
        obtain ⟨_, _, h5, h⟩ := run_bind_eq_ok.mp h
        obtain ⟨-, rfl⟩ := lockRelease_eq_ok.mp h5
        obtain ⟨rfl, rfl⟩ := pure_eq_ok.mp h
        exact ⟨Sys.take_drop hfree, .inr ⟨hne, rfl⟩⟩
      · obtain ⟨p, s3, h3, h⟩ := run_bind_eq_ok.mp h
        obtain ⟨rfl, hs'⟩ := pure_eq_ok.mp h
        exact ⟨hs'.trans (findVaddr_eq_ok.mp h3).2, .inr ⟨hne, rfl⟩⟩

/-- `free_kpages` goes through only without an address space, and is `freepages` then. -/
theorem freeKpages_eq_ok {addr : Nat} {u : Unit} (h : (freeKpages addr).run t s = .ok (u, s')) :
    s.owner .coremap = none ∧ (s.coremapActive = false ∧ s' = s ∨ s.coremapActive = true ∧
      s.cur = none ∧ (freepages (wrap (addr + 2 ^ 32 - kseg0))).run t s = .ok ((), s')) := by
  obtain ⟨_, _, h1, h⟩ := run_bind_eq_ok.mp h
  obtain ⟨hl, rfl⟩ := spinlockAcquire_eq_ok.mp h1
  obtain ⟨active, _, h2, h⟩ := run_bind_eq_ok.mp h
  obtain ⟨hact, rfl⟩ := gets_eq_ok.mp h2
  replace hact : active = s.coremapActive := hact
  obtain ⟨_, s3, h3, h⟩ := run_bind_eq_ok.mp h
  have hs3 : s3 = s := (spinlockRelease_eq_ok.mp h3).2.trans (Sys.take_drop hl)
  rw [hs3] at h
  refine ⟨hl, ?_⟩
  split at h
  · next hon =>
      obtain ⟨r, s4, h4, h⟩ := run_bind_eq_ok.mp h
      obtain ⟨hs4, ⟨hcur, rfl⟩ | ⟨-, hr⟩⟩ := getPageVtoP_eq_ok h4
      · rw [hs4, if_neg (by simp), if_pos rfl] at h
        exact .inr ⟨hact.symm.trans hon, hcur, h⟩
      · rw [hr, if_neg (by simp), if_neg (by simp)] at h
        exact (fail_eq_ok.mp h).elim
  · next hoff =>
      exact .inl ⟨hact.symm.trans (Bool.eq_false_iff.mpr hoff), (pure_eq_ok.mp h).2⟩

theorem freeKpages_of_active {addr : Nat} {u : Unit} (hact : s.coremapActive = true)
    (h : (freeKpages addr).run t s = .ok (u, s')) :
    s.cur = none ∧ (freepages (wrap (addr + 2 ^ 32 - kseg0))).run t s = .ok ((), s') := by
  obtain ⟨-, ⟨hoff, -⟩ | ⟨-, hall⟩⟩ := freeKpages_eq_ok h
  · rw [hact] at hoff
    cases hoff
  · exact hall

/-- In a thread without an address space, `free_kpages` empties the block. -/
theorem freeKpages_run {e : CEntry} (hs : s.Geometry) (hl : s.owner .coremap = none)
    (hcur : s.cur = none) (he : s.coremap[i]? = some e) (hle : i + e.allocpages ≤ s.coremapSize) :
    (freeKpages (paddrToKvaddr (s.frameAddr i))).run t s =
      .ok ((), s.emptyRun i e.allocpages) := by
  have haddr : wrap (paddrToKvaddr (s.frameAddr i) + 2 ^ 32 - kseg0) = s.frameAddr i := by
    simp only [paddrToKvaddr, Sys.frameAddr, wrap, kseg0]
    omega
  have h1 : (spinlockAcquire .coremap).run t s = .ok ((), s.take t .coremap) :=
    spinlockAcquire_eq_ok.mpr ⟨hl, rfl⟩
  have h2 : (s.take t .coremap).coremapActive = true := hs.active
  have h3 : (spinlockRelease .coremap).run t (s.take t .coremap) = .ok ((), s) :=
    spinlockRelease_eq_ok.mpr ⟨by simp [Sys.take], (Sys.take_drop hl).symm⟩
  have h4 : (getPageVtoP (paddrToKvaddr (s.frameAddr i))).run t s = .ok ((0, none), s) := by
    simp only [getPageVtoP, run_bind, run_gets, Outcome.bind_ok, hcur, run_pure]
  simp only [freeKpages, run_bind, h1, run_gets, Outcome.bind_ok, h2, h3, if_true, h4, haddr]
  exact Blocks.freepages_run hs hl he hle

/-! ## There and back -/

/-- `alloc_kpages(n)` and `free_kpages` of what it returned go through, take `n`
free frames and give exactly these back. -/
def RoundTrip (t : Tid) (s : Sys) (n : Nat) : Prop :=
  ∃ i s1 s2, (allocKpages n).run t s = .ok (paddrToKvaddr (s.frameAddr i), s1) ∧
    (freeKpages (paddrToKvaddr (s.frameAddr i))).run t s1 = .ok ((), s2) ∧
    (∀ j, i ≤ j → j < i + n → freeAt s.coremap j = true ∧ freeAt s1.coremap j = false ∧
      freeAt s2.coremap j = true) ∧
    ∀ j, ¬ (i ≤ j ∧ j < i + n) → s2.coremap[j]? = s.coremap[j]?

theorem roundTrip_of_cur_none (hs : s.Geometry) (hl : s.owner .coremap = none)
    (hsleep : s.spinning t = false) (hn : 1 ≤ n) (hrun : ∃ k, FreeRun s.coremap n k)
    (hcur : s.cur = none) : RoundTrip t s n := by
  obtain ⟨i, s1, halloc, htakes, hs1⟩ := allocKpages_run hs hl hsleep hn hrun
  obtain ⟨e, he, hlen⟩ := htakes.head
  have hgeo : s1.Geometry := hs.congr htakes.active htakes.firstpaddr htakes.size
  have hl1 : s1.owner .coremap = none := by rw [hs1]; exact hl
  have hcur1 : s1.cur = none := by rw [hs1]; exact hcur
  have hend := freeAt_lt (htakes.free (i + n - 1) (by omega) (by omega))
  have hle : i + e.allocpages ≤ s1.coremapSize := by
    rw [hlen, htakes.size, Sys.coremapSize]
    omega
  have hfree := freeKpages_run (t := t) hgeo hl1 hcur1 he hle
  rw [Blocks.frameAddr_congr htakes.firstpaddr, hlen] at hfree
  refine ⟨i, s1, _, halloc, hfree, fun j hj hlt => ⟨htakes.free j hj hlt, ?_, ?_⟩, fun j hj => ?_⟩
  · obtain ⟨e', he', hused, -⟩ := htakes.taken j hj hlt
    simp [freeAt, he', e'.not_isFree hused]
  · obtain ⟨e', he', -⟩ := htakes.taken j hj hlt
    obtain ⟨e2, he2, hfree2, -⟩ := emptyRun_isFree ⟨hj, hlt⟩ he'
    exact freeAt_eq_true.mpr ⟨e2, he2, hfree2⟩
  · rw [emptyRun_getElem hj (by omega), htakes.rest j hj]

/-- **`free_kpages` undoes `alloc_kpages` exactly in threads without an address
space**: with a free run of `n` frames the two calls take and give back the same
`n` frames if and only if the running process has no address space; with one,
`free_kpages` does not return. -/
theorem kpages_roundTrip_iff (hs : s.Geometry) (hl : s.owner .coremap = none)
    (hsleep : s.spinning t = false) (hn : 1 ≤ n) (hrun : ∃ k, FreeRun s.coremap n k) :
    RoundTrip t s n ↔ s.cur = none := by
  refine ⟨?_, roundTrip_of_cur_none hs hl hsleep hn hrun⟩
  rintro ⟨i, s1, s2, halloc, hfree, -⟩
  obtain ⟨i', s1', halloc', -, hs1⟩ := allocKpages_run hs hl hsleep hn hrun
  obtain rfl : s1 = s1' := congrArg Prod.snd (Outcome.ok.inj (halloc.symm.trans halloc'))
  have hact : s1.coremapActive = true := by rw [hs1]; exact hs.active
  have hcur := (freeKpages_of_active hact hfree).1
  rw [hs1] at hcur
  exact hcur

theorem oneFrame_roundTrip : RoundTrip .kernel oneFrame 1 := by
  refine (kpages_roundTrip_iff oneFrame_geometry rfl rfl (Nat.le_refl 1) ⟨0, fun j _ hj => ?_⟩).mpr
    rfl
  obtain rfl : j = 0 := by omega
  decide

def oneProcess : VM Unit := do
  let _ ← asCreate (some 7) (some ⟨0, fun _ => 0⟩)
  let _ ← asPrepareLoad 7
  Prog.modify fun s => { s with cur := some 7 }

/-- A process with a page table that gives back the kernel page it has just got brings the
system down. -/
theorem oneProcess_freeKpages_panics :
    ∃ s x addr s1, oneProcess.run .kernel (boot .calm (fun _ => 0) (fun _ => 0) (4 * pageSize)
        pageSize 0) = .ok ((), s) ∧
      s.as 7 = some x ∧ x.npages = some stackPages ∧ x.asPt ≠ none ∧
      (allocKpages 1).run (.proc 7) s = .ok (addr, s1) ∧
      (freeKpages addr).run (.proc 7) s1 = .panic "vaddr not found in the page table\n" :=
  ⟨_, _, _, _, rfl, rfl, rfl, by decide, rfl, rfl⟩

end Os161Paging
