import Os161Paging.Balance
import Os161Paging.Blocks

/-!
# Copies that fail

`as_copy` has four ways to fail: `as_create`, the memory for a segment, the
page table and a read of the swap device. All but the first keep the lock of
the source. The fourth returns from the middle of the page loop, with the
block of the page table and the frames of the pages copied so far still
marked as used; `sys_fork`, which does not get a pointer to the copy, cannot
give them back either.

- `copyPages_noneFreed`: the page loop frees no frame;
- `copyTable_fails`: where the table is allocated, its block is lost;
- `copy_undone_iff`: the failed call has undone everything exactly if
  `as_create` failed, and has given back what it took exactly if it did not
  get to the page table.
-/

namespace Os161Paging

open Prog

variable {t : Tid} {s s' s1 s2 : Sys} {old new : AsId} {n i : Nat}

/-! ## Frames that stay taken -/

/-- No frame is free in `s'` that was not free in `s`. -/
def NoneFreed (s s' : Sys) : Prop := ∀ k, freeAt s'.coremap k = true → freeAt s.coremap k = true

theorem NoneFreed.trans (s s1 s' : Sys) (h : NoneFreed s s1) (h1 : NoneFreed s1 s') :
    NoneFreed s s' :=
  fun k hk => h k (h1 k hk)

theorem NoneFreed.of_coremap (s s' : Sys) (h : s'.coremap = s.coremap) : NoneFreed s s' := by
  intro k hk
  rwa [h] at hk

theorem NoneFreed.claim {isReserved : Bool} {vaddr : Nat} {x : Option AsId} :
    NoneFreed s (s.claim i isReserved vaddr x) := by
  intro k hk
  obtain ⟨e, he, hfree⟩ := freeAt_eq_true.mp hk
  obtain ⟨e', he', rfl⟩ := Option.map_eq_some_iff.mp ((List.getElem?_modify ..).symm.trans he)
  by_cases hik : i = k
  · rw [if_pos hik, CEntry.not_isFree (CEntry.setOne_cused ..)] at hfree
    cases hfree
  · rw [if_neg hik] at hfree
    exact freeAt_eq_true.mpr ⟨e', he', hfree⟩

/-- A page of the copy gets a free frame or one of the copy's own. -/
theorem copyPage_noneFreed : (copyPage old new i).Within NoneFreed t := by
  have hsp : Spared new Sys.coremap := by constructor <;> intros <;> rfl
  have hL : ∀ {α : Type} {p : VM α}, p.Leaves Sys.coremap t → p.Within NoneFreed t :=
    fun h => .of_leaves NoneFreed.of_coremap h
  have hpage : ∀ v, (getPages 1 v (some new)).Within NoneFreed t := fun v =>
    hsp.getPage (fun _ _ => rfl) NoneFreed.trans NoneFreed.of_coremap fun _ _ _ => .claim
  have hupd : ∀ g, (updPte new i g).Leaves Sys.coremap t := fun g => updPte_leaves (hsp.modPte · i g)
  refine .bind NoneFreed.trans (hL getPte_leaves) fun o => .bind NoneFreed.trans (hL (hupd _))
    fun _ => .ite ?_ (.ite ?_ ?_)
  · refine .bind NoneFreed.trans (hpage _) fun p => hL (.bind ?_ fun err => .ite (.pure _) ?_)
    · exact swapIn_leaves (fun _ _ => rfl) (fun _ _ _ _ => rfl) (fun _ _ => rfl) (hsp.modPte · i)
    · exact .bind (hupd _) fun _ => .pure _
  · exact .bind NoneFreed.trans (hpage _) fun p =>
      hL (.bind (.modify fun _ => rfl) fun _ => .bind (hupd _) fun _ => .pure _)
  · exact hL (.bind (hupd _) fun _ => .pure _)

theorem copyPages_noneFreed : (copyPages old new n i).Within NoneFreed t := by
  induction n generalizing i with
  | zero => exact .of_leaves NoneFreed.of_coremap (.pure _)
  | succ n ih =>
      refine .bind NoneFreed.trans copyPage_noneFreed fun r => ?_
      cases r with
      | some e => exact .of_leaves NoneFreed.of_coremap (.pure _)
      | none => exact ih

/-! ## The read that fails -/

/-- A page of the copy fails after `getPages` has had `coremap_lock`. -/
theorem copyPage_fails (hne : old ≠ new) {e : Errno}
    (h : (copyPage old new i).run t s = .ok (some e, s')) : s.owner .coremap = none := by
  obtain ⟨o, ho, -, -, ⟨hsw, -⟩ | ⟨-, -, hr, -⟩⟩ := copyPage_owner hne h
  · obtain ⟨_, _, h1, h⟩ := run_bind_eq_ok.mp h
    obtain ⟨ho', hs⟩ := getPte_eq_ok.mp h1
    obtain rfl := Option.some.inj (ho.symm.trans ho')
    rw [hs] at h
    obtain ⟨_, _, h2, h⟩ := run_bind_eq_ok.mp h
    obtain ⟨-, rfl⟩ := updPte_eq_ok.mp h2
    rw [if_pos hsw] at h
    obtain ⟨_, _, h3, -⟩ := run_bind_eq_ok.mp h
    obtain ⟨_, _, h4, -⟩ := run_bind_eq_ok.mp h3
    exact (spinlockAcquire_eq_ok.mp h4).1
  · cases hr

/-- The page loop does not fail in a thread that holds `coremap_lock`. -/
theorem copyPages_fails (hne : old ≠ new) {e : Errno}
    (h : (copyPages old new n i).run t s = .ok (some e, s')) : s.owner .coremap = none := by
  induction n generalizing s i with
  | zero => cases (pure_eq_ok.mp h).1
  | succ n ih =>
      obtain ⟨r, s1, h1, h⟩ := run_bind_eq_ok.mp h
      cases r with
      | some e1 => exact copyPage_fails hne h1
      | none =>
          have hl := ih h
          obtain ⟨_, -, -, -, ⟨-, -, -, how⟩ | ⟨-, -, -, how⟩⟩ := copyPage_owner hne h1
          · rwa [how] at hl
          · rwa [how] at hl

/-! ## What is left of a failed copy -/

/-- Every frame and every slot taken for a copy has been given back. -/
structure Released (s s' : Sys) : Prop where
  frames : ∀ k, freeAt s'.coremap k = freeAt s.coremap k
  slots : s'.swapMap = s.swapMap

/-- After a copy of `old` that failed, everything taken for it has been given back and
`old` is as it was, with its lock and the contents of its pages. -/
structure Undone (old : AsId) (s s' : Sys) : Prop extends Released s s' where
  source : s'.as old = s.as old
  lock : s'.owner (.pt old) = s.owner (.pt old)
  ram : s'.ram = s.ram
  disk : s'.disk = s.disk

/-- A frame is taken when `ptAlloc` returns an address and has given up the lock. -/
theorem ptAlloc_taken {p : Nat} (h : (ptAlloc n).run t s = .ok (p, s')) (hp : p ≠ 0)
    (hl : s'.owner .coremap = none) :
    s' = { s with coremap := s'.coremap } ∧
      ∃ k, freeAt s.coremap k = true ∧ freeAt s'.coremap k = false := by
  have htaken : ∀ {i n x}, Blocks.Takes s s' i n x →
      ∃ k, freeAt s.coremap k = true ∧ freeAt s'.coremap k = false := by
    intro i n x htakes
    have hlt := Nat.lt_add_of_pos_right (n := i) htakes.pos
    obtain ⟨e, he, hused, -⟩ := htakes.taken i (Nat.le_refl i) hlt
    refine ⟨i, htakes.free i (Nat.le_refl i) hlt, ?_⟩
    rw [freeAt, he, Option.any_some, CEntry.not_isFree hused]
  obtain ⟨-, ⟨-, hzero, -⟩ | ⟨-, hn, first, hf, -, rfl⟩ | ⟨-, -, j, hj, -, rfl⟩ |
    ⟨-, -, -, -, rfl⟩⟩ := ptAlloc_cases h
  · exact absurd hzero hp
  · exact ⟨rfl, htaken (Blocks.takes_takeRun (Nat.zero_lt_of_lt hn) hf)⟩
  · exact ⟨rfl, htaken (Blocks.takes_claim (by decide) hj)⟩
  · rw [Sys.take_owner_self] at hl
    cases hl

/-- Before `coremap_init` the table cannot be allocated; after it a read fails, and the block of
the table is lost. The lock of `old` is kept. -/
theorem copyTable_fails (hne : old ≠ new) (hgeo : s.coremapActive = true → s.Geometry)
    {o : Addrspace} (hold : s.as old = some o) {junk : Nat → PtEntry} {e : Errno}
    (h : (copyTable old new n junk).run t s = .ok (.error e, s')) :
    s'.owner (.pt old) = s.owner (.pt old) ∧
      (s.coremapActive = false ∧ (∃ x, s' = s.setAs new x) ∨
        s.coremapActive = true ∧ ∃ k, freeAt s.coremap k = true ∧ freeAt s'.coremap k = false) := by
  obtain ⟨_, _, h1, h⟩ := run_bind_eq_ok.mp h
  obtain ⟨asn, -, hs1⟩ := copyNpages_eq_ok.mp h1
  obtain ⟨ptloc, s2, h2, h⟩ := run_bind_eq_ok.mp h
  rw [hs1] at h2
  have hgeo1 : (s.setAs new { asn with npages := some n }).coremapActive = true →
      (s.setAs new { asn with npages := some n }).Geometry :=
    fun hact => (hgeo hact).congr rfl rfl rfl
  have hzero : ptloc = 0 ↔ s.coremapActive = false := (ptAlloc_owner hgeo1 h2).2.2.1
  by_cases hp : ptloc = 0
  · rw [if_pos hp] at h
    obtain ⟨-, rfl⟩ := pure_eq_ok.mp h
    obtain ⟨-, ⟨-, -, hs2⟩ | ⟨hact, -⟩ | ⟨hact, -⟩ | ⟨hact, -⟩⟩ := ptAlloc_cases h2
    · rw [hs2]
      exact ⟨rfl, .inl ⟨hzero.mp hp, _, rfl⟩⟩
    all_goals
      change s.coremapActive = true at hact
      rw [hzero.mp hp] at hact
      cases hact
  · rw [if_neg hp] at h
    obtain ⟨_, s3, h3, h⟩ := run_bind_eq_ok.mp h
    obtain ⟨asn', -, -, hs3⟩ := installPt_eq_ok.mp h3
    obtain ⟨r, s4, h4, h⟩ := run_bind_eq_ok.mp h
    cases r with
    | none =>
        obtain ⟨_, _, h5, h⟩ := run_bind_eq_ok.mp h
        cases (pure_eq_ok.mp h).1
    | some e1 =>
        obtain ⟨-, rfl⟩ := pure_eq_ok.mp h
        have hl := copyPages_fails hne h4
        -- the page that failed had `coremap_lock`, so `ptAlloc` did not keep it
        obtain ⟨hs2, k, hfree, hused⟩ := ptAlloc_taken h2 hp (by rw [hs3] at hl; exact hl)
        have hold3 : s3.as old = some o := by
          rw [hs3, hs2]
          simp only [Sys.setAs, Function.update_of_ne hne, hold]
        have how3 : s3.owner = s.owner := by
          rw [hs3, hs2]
          rfl
        obtain ⟨hr, -⟩ | ⟨-, -, how⟩ := copyPages_owner hne hold3 h4
        · cases hr
        refine ⟨?_, .inr ⟨Bool.eq_true_of_not_eq_false (mt hzero.mpr hp), k, hfree, ?_⟩⟩
        · rw [how, Sys.take_owner_of_ne (by simp), how3]
        · refine Bool.eq_false_of_not_eq_true fun hk => ?_
          have hk3 : freeAt s2.coremap k = true := by
            have := copyPages_noneFreed _ _ _ h4 k hk
            rwa [hs3] at this
          rw [hused] at hk3
          cases hk3

/-- `as_create` fails: there is no memory for the structure, no such program, or no memory for
the lock. -/
def Sys.CreateFails (s : Sys) (p : Option AsId) (f : Option File) : Prop :=
  p = none ∨ f = none ∨ s.world.kmalloc s.kmallocs = false

/-- Once there is an address space for the copy of `old`, there is memory for its segments, and
the coremap gives out frames. -/
def Sys.ReachesTable (s : Sys) (old : AsId) : Prop :=
  s.coremapActive = true ∧ ∃ o, s.as old = some o ∧
    { s with kmallocs := s.kmallocs + 1 }.KmallocsSucceed o.asSegment.length

/-- **A failed copy has undone what it did exactly if `as_create` failed.** The frames and
the slots alone it has given back exactly if it did not get to the page table. -/
theorem copy_undone_iff (hgeo : s.coremapActive = true → s.Geometry) {p : Option AsId}
    {f : Option File} {junk : Nat → PtEntry} {e : Errno}
    (h : (asCopy old p f junk).run t s = .ok (.error e, s')) :
    (Undone old s s' ↔ s.CreateFails p f) ∧
      (Released s s' ↔ s.CreateFails p f ∨ ¬ s.ReachesTable old) := by
  obtain ⟨hfail, -, n, rfl⟩ | ⟨new, o, s1, rfl, hf, hk, hne, hold, hfree, hs1, hold1, hrest⟩ :=
    asCopy_cases h
  · exact ⟨iff_of_true ⟨⟨fun _ => rfl, rfl⟩, rfl, rfl, rfl, rfl⟩ hfail,
      iff_of_true ⟨fun _ => rfl, rfl⟩ (.inl hfail)⟩
  have hcreated : ¬ s.CreateFails (some new) f := by simp [Sys.CreateFails, hk, hf]
  have htaken : s1.owner (.pt old) = some t := by
    rw [hs1]
    exact Sys.take_owner_self
  -- once it is taken, the lock is kept
  have hkept : s'.owner (.pt old) = some t → (Undone old s s' ↔ s.CreateFails (some new) f) := by
    intro hlock
    refine iff_of_false (fun hu => ?_) hcreated
    cases hlock.symm.trans (hu.lock.trans hfree)
  have hearly : ∀ {k l as}, Released s { s with owner := l, kmallocs := k, as := as } :=
    ⟨fun _ => rfl, rfl⟩
  obtain ⟨hno, -, rfl⟩ | ⟨n, -, hall, htab, -⟩ := hrest
  · refine ⟨hkept htaken, iff_of_true (hs1 ▸ hearly) (.inr ?_)⟩
    rintro ⟨-, o', ho', hall⟩
    obtain rfl := Option.some.inj (hold.symm.trans ho')
    exact hno hall
  have hgeo1 : s1.coremapActive = true → s1.Geometry := by
    rw [hs1]
    exact fun hact => (hgeo hact).congr rfl rfl rfl
  have hactive : s1.coremapActive = s.coremapActive := by rw [hs1]; rfl
  obtain ⟨hlock, hcase⟩ := copyTable_fails hne hgeo1 hold1 htab
  refine ⟨hkept (hlock.trans htaken), ?_⟩
  obtain ⟨hoff, x, rfl⟩ | ⟨hon, k, hfreek, hused⟩ := hcase
  · have hs2 : s1.setAs new x = { s with
        owner := s1.owner, kmallocs := s1.kmallocs, as := (s1.setAs new x).as } := by
      rw [hs1]
      rfl
    refine iff_of_true (hs2 ▸ hearly) (.inr fun hreach => ?_)
    cases hoff.symm.trans (hactive.trans hreach.1)
  · refine iff_of_false (fun hrel => ?_) (not_or.mpr ⟨hcreated, not_not.mpr ?_⟩)
    · have hsame := hrel.frames k
      rw [hs1] at hfreek
      rw [hused] at hsame
      cases hsame.trans hfreek
    · exact ⟨hactive ▸ hon, o, hold, hall⟩

/-! ## A copy that leaks -/

/-- Four frames, two of them taken by the kernel while a program touches two pages of its
stack: its page table is in the third frame and the first of the two pages in swap. -/
def swappedSource (w : World) : Option Sys :=
  match (do
      let pages ← allocKpages 2
      let _ ← asCreate (some 0) (some ⟨0, fun _ => 0⟩)
      let _ ← asPrepareLoad 0
      modify fun s => { s with cur := some 0 }
      let _ ← vmFault .write (userStack - pageSize)
      let _ ← vmFault .write (userStack - 2 * pageSize)
      modify fun s => { s with cur := none }
      freeKpages pages : VM Unit).run .kernel
        (boot w (fun _ => 0) (fun _ => 0) (6 * pageSize) pageSize (4 * pageSize)) with
  | .ok (_, s) => some s
  | _ => none

def copyOfSource (s : Sys) : Outcome Lock (Except Errno AsId × Sys) :=
  (asCopy 0 (some 1) (some ⟨0, fun _ => 0⟩) fun _ => ⟨0, 0, false, false, 0⟩).run .kernel s

/-- The copy of the swapped page fails with the error of the disk; two frames are free
before, and none after it. -/
theorem failed_copy_leaks :
    ∃ s s', swappedSource { World.calm with swapRead := fun _ => some (.dev 5) } = some s ∧
      copyOfSource s = .ok (.error (.dev 5), s') ∧
      s.coremap.countP CEntry.isFree = 2 ∧ s'.coremap.countP CEntry.isFree = 0 ∧
      ¬ Undone 0 s s' := by
  have hrun : (swappedSource { World.calm with swapRead := fun _ => some (.dev 5) }).any
      (fun s => s.coremap.countP CEntry.isFree == 2 && freeAt s.coremap 0 && decide
        ((copyOfSource s).Sat fun x => x.1 = .error (.dev 5) ∧
          x.2.coremap.countP CEntry.isFree = 0 ∧ freeAt x.2.coremap 0 = false)) = true := by
    decide +kernel
  obtain ⟨s, hs, h⟩ := (Option.any_eq_true _ _).mp hrun
  simp only [Bool.and_eq_true, beq_iff_eq, decide_eq_true_iff] at h
  obtain ⟨⟨hfree, h0⟩, ⟨r, s'⟩, hcopy, rfl, hfree', h0'⟩ := h
  refine ⟨s, s', hs, hcopy, hfree, hfree', fun hu => ?_⟩
  cases (h0'.symm.trans (hu.frames 0)).trans h0

/-- Without memory for its lock the copy is undone; without memory for its segment nothing has
been taken, but the lock of the source is kept. -/
theorem failed_copy_without_memory :
    (∃ s s', swappedSource { World.calm with kmalloc := fun n => decide (n < 2) } = some s ∧
        copyOfSource s = .ok (.error .ENOMEM, s') ∧ Undone 0 s s') ∧
      ∃ s s', swappedSource { World.calm with kmalloc := fun n => decide (n < 3) } = some s ∧
        copyOfSource s = .ok (.error .ENOMEM, s') ∧ Released s s' ∧ ¬ Undone 0 s s' := by
  have hrun : ∀ m ∈ [2, 3], (swappedSource { World.calm with
      kmalloc := fun n => decide (n < m) }).any (fun s => decide (s.coremapActive = true ∧
        s.firstpaddr = 0x2000 ∧ s.coremapSize = 4 ∧ s.kmallocs = 2 ∧
        s.world.kmalloc 2 = decide (2 < m) ∧ s.world.kmalloc 3 = false ∧
        (s.as 0).map (·.asSegment.length) = some 1 ∧
        (copyOfSource s).Sat fun x => x.1 = .error .ENOMEM)) = true := by
    decide +kernel
  have hcopy : ∀ m ∈ [2, 3], ∃ s s', swappedSource { World.calm with
      kmalloc := fun n => decide (n < m) } = some s ∧ copyOfSource s = .ok (.error .ENOMEM, s') ∧
        s.kmallocs = 2 ∧ s.world.kmalloc 2 = decide (2 < m) ∧ s.world.kmalloc 3 = false ∧
        (s.as 0).map (·.asSegment.length) = some 1 ∧ s.Geometry := by
    intro m hm
    obtain ⟨s, hs, h⟩ := (Option.any_eq_true _ _).mp (hrun m hm)
    obtain ⟨hact, hfirst, hsize, hk, h2, h3, hseg, ⟨r, s'⟩, hcopy, rfl⟩ := of_decide_eq_true h
    exact ⟨s, s', hs, hcopy, hk, h2, h3, hseg, hact, by omega, by rw [hfirst]; decide,
      by rw [hfirst, hsize]; decide⟩
  constructor
  · obtain ⟨s, s', hs, hcopy, hk, h2, -, -, hgeo⟩ := hcopy 2 (by simp)
    refine ⟨s, s', hs, hcopy, (copy_undone_iff (fun _ => hgeo) hcopy).1.mpr (.inr (.inr ?_))⟩
    rw [hk, h2]
    rfl
  · obtain ⟨s, s', hs, hcopy, hk, h2, h3, hseg, hgeo⟩ := hcopy 3 (by simp)
    have hundone := copy_undone_iff (fun _ => hgeo) hcopy
    refine ⟨s, s', hs, hcopy, hundone.2.mpr (.inr ?_), fun hu => ?_⟩
    · rintro ⟨-, o, ho, hall⟩
      rw [ho, Option.map_some, Option.some_inj] at hseg
      have h0 := hall 0 (by omega)
      rw [hk, h3] at h0
      cases h0
    · rcases hundone.1.mp hu with hc | hc | hc
      · cases hc
      · cases hc
      · rw [hk, h2] at hc
        cases hc

end Os161Paging
