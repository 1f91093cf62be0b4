import Os161Paging.Faults

/-!
# Which locks a call leaves behind

For each function that takes locks: the locks its caller holds when it
returns, as a function of the state it was called in. A call is *balanced*
when they are the locks held on entry. Calls run with no other thread in
between, so it is enough to say what becomes of the table of owners.
-/

namespace Os161Paging

open Prog

variable {t : Tid} {s s' : Sys} {a : AsId} {j : Nat}

/-- The locks `t` holds are the same in both states. -/
def Balanced (t : Tid) (s s' : Sys) : Prop :=
  ∀ l, s'.owner l = some t ↔ s.owner l = some t

/-- A free lock taken and kept is the one difference. -/
theorem not_balanced_of_update {l : Lock} (hfree : s.owner l = none)
    (h : s'.owner l = some t) : ¬ Balanced t s s' := by
  intro hb
  rw [(hb l).mp h] at hfree
  cases hfree

theorem balanced_of_owner (h : s'.owner = s.owner) : Balanced t s s' := fun l => by rw [h]

/-! ## Code that leaves the locks alone -/

theorem owner_drop {l : Lock} (hfree : s.owner l = none)
    (h : s'.owner = (s.take t l).owner) : (s'.drop l).owner = s.owner := by
  have hd : (s'.drop l).owner = ((s.take t l).drop l).owner := by simp only [Sys.drop, h]
  rw [hd, Sys.take_drop hfree]

/-- A lock given up for a while and taken back. -/
theorem owner_take {l : Lock} (hheld : s.owner l = some t)
    (h : s'.owner = (s.drop l).owner) : (s'.take t l).owner = s.owner := by
  have hd : (s'.take t l).owner = ((s.drop l).take t l).owner := by simp only [Sys.take, h]
  rw [hd, Sys.take, Sys.drop]
  simp only [Function.update_idem, ← hheld, Function.update_eq_self]

/-- A lock taken, and given up after code that keeps the owners. -/
theorem locked_leaves_owner {α : Type} {l : Lock} {m m' : String} {p : VM α}
    (hp : p.Leaves Sys.owner t) :
    (do grab l m; let x ← p; letGo l m'; return x : VM α).Leaves Sys.owner t := by
  intro s r s' h
  obtain ⟨_, _, h1, h⟩ := run_bind_eq_ok.mp h
  obtain ⟨hfree, rfl⟩ := grab_eq_ok.mp h1
  obtain ⟨x, s2, h2, h⟩ := run_bind_eq_ok.mp h
  obtain ⟨_, _, h3, h⟩ := run_bind_eq_ok.mp h
  obtain ⟨-, rfl⟩ := letGo_eq_ok.mp h3
  obtain ⟨-, rfl⟩ := pure_eq_ok.mp h
  exact owner_drop hfree (hp _ _ _ h2)

/-! ## The swap file -/

/-- `swap_out` keeps `swap_lock` on its first error return, the comparison of
`used` with the size of the file in bytes. -/
theorem swapOut_owner {r : Option Errno} (h : (swapOut a j).run t s = .ok (r, s')) :
    s.owner .swap = none ∧
      (s.used = s.swapFileSize ∧ r = some .ENOMEM ∧ s' = s.take t .swap ∨
        s.used ≠ s.swapFileSize ∧ s'.owner = s.owner) := by
  obtain ⟨_, _, h1, h⟩ := run_bind_eq_ok.mp h
  obtain ⟨hfree, rfl⟩ := lockAcquire_eq_ok.mp h1
  refine ⟨hfree, ?_⟩
  obtain ⟨full, _, h2, h⟩ := run_bind_eq_ok.mp h
  obtain ⟨hfull, rfl⟩ := gets_eq_ok.mp h2
  cases full with
  | true =>
    obtain ⟨rfl, rfl⟩ := pure_eq_ok.mp h
    exact .inl ⟨of_decide_eq_true hfull.symm, rfl, rfl⟩
  | false =>
    refine .inr ⟨of_decide_eq_false hfull.symm, ?_⟩
    obtain ⟨slot, s1, h3, h⟩ := run_bind_eq_ok.mp h
    obtain ⟨-, rfl⟩ := bitmapAlloc_eq_ok.mp h3
    -- from here on `swap_lock` is given up on both paths
    cases slot with
    | none =>
        obtain ⟨_, _, h4, h⟩ := run_bind_eq_ok.mp h
        obtain ⟨-, rfl⟩ := lockRelease_eq_ok.mp h4
        obtain ⟨-, rfl⟩ := pure_eq_ok.mp h
        exact owner_drop hfree rfl
    | some i =>
        obtain ⟨e, _, h4, h⟩ := run_bind_eq_ok.mp h
        obtain ⟨-, rfl⟩ := getPte_eq_ok.mp h4
        obtain ⟨_, _, h5, h⟩ := run_bind_eq_ok.mp h
        obtain ⟨-, rfl⟩ := vopWrite_eq_ok.mp h5
        obtain ⟨_, _, h6, h⟩ := run_bind_eq_ok.mp h
        obtain ⟨-, rfl⟩ := updPte_eq_ok.mp h6
        obtain ⟨_, _, h7, h⟩ := run_bind_eq_ok.mp h
        obtain rfl := modify_eq_ok.mp h7
        obtain ⟨_, _, h8, h⟩ := run_bind_eq_ok.mp h
        obtain ⟨-, rfl⟩ := lockRelease_eq_ok.mp h8
        obtain ⟨-, rfl⟩ := pure_eq_ok.mp h
        exact owner_drop hfree rfl

/-- `swap_in` keeps `swap_lock` when the read fails. -/
theorem swapIn_owner {p : Nat} {toRemove : Bool} {r : Option Errno}
    (h : (swapIn a j p toRemove).run t s = .ok (r, s')) :
    s.owner .swap = none ∧ r = s.world.swapRead s.swapReads ∧
      s'.swapReads = s.swapReads + 1 ∧
      s'.owner = if r = none then s.owner else Function.update s.owner .swap (some t) := by
  obtain ⟨_, _, h1, h⟩ := run_bind_eq_ok.mp h
  obtain ⟨hfree, rfl⟩ := lockAcquire_eq_ok.mp h1
  refine ⟨hfree, ?_⟩
  obtain ⟨e, _, h2, h⟩ := run_bind_eq_ok.mp h
  obtain ⟨-, rfl⟩ := getPte_eq_ok.mp h2
  obtain ⟨err, _, h3, h⟩ := run_bind_eq_ok.mp h
  obtain ⟨herr, rfl⟩ := loadSegment_swap_eq_ok.mp h3
  cases err with
  | some err =>
      obtain ⟨rfl, rfl⟩ := pure_eq_ok.mp h
      exact ⟨herr, rfl, rfl⟩
  | none =>
      obtain ⟨_, _, h4, h⟩ := run_bind_eq_ok.mp h
      obtain ⟨-, rfl⟩ := leaveSlot_eq_ok.mp h4
      obtain ⟨_, _, h5, h⟩ := run_bind_eq_ok.mp h
      obtain ⟨-, rfl⟩ := updPte_eq_ok.mp h5
      obtain ⟨_, _, h6, h⟩ := run_bind_eq_ok.mp h
      obtain ⟨-, rfl⟩ := lockRelease_eq_ok.mp h6
      obtain ⟨rfl, rfl⟩ := pure_eq_ok.mp h
      refine ⟨herr, ?_, ?_⟩
      · cases toRemove <;> rfl
      · cases toRemove <;> exact owner_drop hfree rfl

/-! ## Allocation of frames -/

theorem saveVictim_leaves_owner {w : Bool} : (saveVictim a j w).Leaves Sys.owner t := by
  refine .ite ?_ (updPte_leaves fun _ => rfl)
  intro s r s' h
  obtain ⟨err, s1, h1, h⟩ := run_bind_eq_ok.mp h
  obtain ⟨_, s2, h2, h⟩ := run_bind_eq_ok.mp h
  -- the assertion lets only a successful `swap_out` through
  cases err with
  | some err => exact (fail_eq_ok.mp h2).elim
  | none =>
      obtain ⟨-, rfl⟩ := pure_eq_ok.mp h2
      obtain ⟨-, ⟨-, hr, -⟩ | ⟨-, ho⟩⟩ := swapOut_owner h1
      · cases hr
      · have hrest : (do vmStatsInc .swapWrite; updPte a j fun e => { e with inSwap := true } :
            VM Unit).Leaves Sys.owner t :=
          .bind (vmStatsInc_leaves fun _ => rfl) fun _ => updPte_leaves fun _ => rfl
        rw [hrest _ _ _ h, ho]

theorem evictFrom_leaves_owner {i : Nat} : (evictFrom a i).Leaves Sys.owner t := by
  refine .bind (.gets _) fun p => .bind findPaddr_leaves fun r => ?_
  cases r with
  | none => exact .pure _
  | some j =>
      refine .bind (.bind getPte_leaves fun e => .bind saveVictim_leaves_owner fun _ => ?_)
        fun _ => .pure _
      exact .bind (updPte_leaves fun _ => rfl) fun _ => tlbInvalidateVaddr_leaves fun _ _ => rfl

theorem evictFrame_owner {p : Nat} (h : (evictFrame a).run t s = .ok (p, s')) :
    s'.owner = (s.drop .coremap).owner := by
  obtain ⟨avail, s1, h1, h⟩ := run_bind_eq_ok.mp h
  rw [(getAvailableSwap_eq_ok.mp h1).2.2] at h
  by_cases hz : avail ≠ 0
  · rw [if_pos hz] at h
    obtain ⟨i, _, h2, h⟩ := run_bind_eq_ok.mp h
    obtain ⟨next, -, rfl⟩ := findVictim_eq_ok.mp h2
    obtain ⟨_, _, h3, h⟩ := run_bind_eq_ok.mp h
    obtain ⟨-, rfl⟩ := spinlockRelease_eq_ok.mp h3
    obtain ⟨_, _, h4, h⟩ := run_bind_eq_ok.mp h
    obtain ⟨hfree, rfl⟩ := lockAcquire_eq_ok.mp h4
    obtain ⟨addr, s1, h5, h⟩ := run_bind_eq_ok.mp h
    obtain ⟨_, _, h6, h⟩ := run_bind_eq_ok.mp h
    obtain ⟨-, rfl⟩ := lockRelease_eq_ok.mp h6
    obtain ⟨-, rfl⟩ := gets_eq_ok.mp h
    have ho := evictFrom_leaves_owner _ _ _ h5
    exact owner_drop (s := s.drop .coremap) hfree ho
  · rw [if_neg hz] at h
    exact (fail_eq_ok.mp h).elim

/-- `getPage` keeps `coremap_lock` exactly when it finds neither a free entry nor
an address space to take one from. -/
theorem getPage_owner {isReserved : Bool} {v p : Nat} {as : Option AsId}
    (h : (getPage isReserved v as).run t s = .ok (p, s')) :
    s.owner .coremap = none ∧
      s'.owner = if s.coremapActive = true ∧ firstFree s.coremap = none ∧ as = none then
        Function.update s.owner .coremap (some t) else s.owner := by
  obtain ⟨_, _, h1, h⟩ := run_bind_eq_ok.mp h
  obtain ⟨hfree, rfl⟩ := spinlockAcquire_eq_ok.mp h1
  refine ⟨hfree, ?_⟩
  obtain ⟨active, _, h2, h⟩ := run_bind_eq_ok.mp h
  obtain ⟨ha, rfl⟩ := gets_eq_ok.mp h2
  cases active with
  | false =>
      obtain ⟨_, _, h3, h⟩ := run_bind_eq_ok.mp h
      obtain ⟨-, rfl⟩ := spinlockRelease_eq_ok.mp h3
      obtain ⟨-, rfl⟩ := pure_eq_ok.mp h
      rw [if_neg fun hc => ?_]
      · exact owner_drop hfree rfl
      · exact Bool.false_ne_true (ha.trans hc.1)
  | true =>
      obtain ⟨free, _, h3, h⟩ := run_bind_eq_ok.mp h
      obtain ⟨hf, rfl⟩ := claimFree_eq_ok.mp h3
      cases free with
      | some i =>
          obtain ⟨_, _, h4, h⟩ := run_bind_eq_ok.mp h
          obtain ⟨-, rfl⟩ := spinlockRelease_eq_ok.mp h4
          obtain ⟨-, rfl⟩ := gets_eq_ok.mp h
          rw [if_neg fun hc => ?_]
          · exact owner_drop hfree rfl
          · exact Option.some_ne_none _ (hf.trans hc.2.1)
      | none =>
          cases as with
          | none =>
              obtain ⟨-, rfl⟩ := gets_eq_ok.mp h
              rw [if_pos ⟨ha.symm, hf.symm, rfl⟩]
              rfl
          | some a =>
              rw [if_neg fun hc => Option.some_ne_none _ hc.2.2, evictFrame_owner h]
              exact owner_drop hfree rfl

theorem getPages_one_leaves_owner {v : Nat} : (getPages 1 v (some a)).Leaves Sys.owner t := by
  intro s p s' h
  have hc : ¬ (s.coremapActive = true ∧ firstFree s.coremap = none ∧ some a = none) :=
    fun hc => Option.some_ne_none _ hc.2.2
  rw [(getPage_owner h).2, if_neg hc]

theorem getMultiplePages_leaves_owner {n : Nat} {isReserved : Bool} {as : Option AsId} :
    (getMultiplePages n isReserved as).Leaves Sys.owner t := by
  intro s p s' h
  obtain ⟨_, _, h1, h⟩ := run_bind_eq_ok.mp h
  obtain ⟨hfree, rfl⟩ := spinlockAcquire_eq_ok.mp h1
  obtain ⟨active, _, h2, h⟩ := run_bind_eq_ok.mp h
  obtain ⟨-, rfl⟩ := gets_eq_ok.mp h2
  cases active with
  | false =>
      obtain ⟨_, _, h3, h⟩ := run_bind_eq_ok.mp h
      obtain ⟨-, rfl⟩ := spinlockRelease_eq_ok.mp h3
      obtain ⟨-, rfl⟩ := pure_eq_ok.mp h
      exact owner_drop hfree rfl
  | true =>
      obtain ⟨first, _, h3, h⟩ := run_bind_eq_ok.mp h
      obtain ⟨-, rfl⟩ := claimRun_eq_ok.mp h3
      obtain ⟨_, _, h4, h⟩ := run_bind_eq_ok.mp h
      obtain ⟨-, rfl⟩ := spinlockRelease_eq_ok.mp h4
      obtain ⟨-, rfl⟩ := gets_eq_ok.mp h
      exact owner_drop hfree rfl

theorem freepages_leaves_owner {p : Nat} : (freepages p).Leaves Sys.owner t := by
  refine .bind (.gets _) fun first => .ite (.pure _) ?_
  intro s r s' h
  obtain ⟨_, _, h1, h⟩ := run_bind_eq_ok.mp h
  obtain ⟨hfree, rfl⟩ := spinlockAcquire_eq_ok.mp h1
  obtain ⟨_, _, h2, h⟩ := run_bind_eq_ok.mp h
  obtain ⟨e, -, -, rfl⟩ := emptyBlock_eq_ok.mp h2
  obtain ⟨-, rfl⟩ := spinlockRelease_eq_ok.mp h
  exact owner_drop hfree rfl

/-! ## Page tables -/

/-- The table of `n` entries takes several frames, or there is a free one. -/
def Sys.TableFits (s : Sys) (n : Nat) : Prop := 1 < ptFrames n ∨ firstFree s.coremap ≠ none

/-- `ptAlloc` touches the coremap and its lock, which it keeps where `getPage`
does; 0 is returned only before `coremap_init`. -/
theorem ptAlloc_owner (hgeo : s.coremapActive = true → s.Geometry) {n p : Nat}
    (h : (ptAlloc n).run t s = .ok (p, s')) :
    s.owner .coremap = none ∧ s' = { s with coremap := s'.coremap, owner := s'.owner } ∧
      (p = 0 ↔ s.coremapActive = false) ∧
      (s.coremapActive = true → s.TableFits n → s'.owner = s.owner) ∧
      (s.coremapActive = true → ¬ s.TableFits n → s'.owner .coremap = some t) ∧
      (s.coremapActive = false → s'.owner = s.owner) := by
  obtain ⟨hl, ⟨hact, rfl, rfl⟩ | ⟨hact, hn, first, hf, rfl, rfl⟩ | ⟨hact, hn, i, hf, rfl, rfl⟩ |
    ⟨hact, hn, hf, rfl, rfl⟩⟩ := ptAlloc_cases h
  · exact ⟨hl, rfl, by simp [hact], fun h1 => absurd h1 (by simp [hact]),
      fun h1 => absurd h1 (by simp [hact]), fun _ => rfl⟩
  · have hlt := freeAt_lt (multiScan_free hf (Nat.le_refl 0) (by omega) first (Nat.le_refl _)
      (by omega))
    have hp := (hgeo hact).frameAddr_ne_zero (Nat.le_of_lt hlt)
    exact ⟨hl, rfl, by simp [hp, hact], fun _ _ => rfl, fun _ hno => absurd (.inl hn) hno,
      fun hno => absurd hno (by simp [hact])⟩
  · have hp := (hgeo hact).frameAddr_ne_zero (Nat.le_of_lt (freeAt_lt (firstFree_eq_some hf)))
    exact ⟨hl, rfl, by simp [hp, hact], fun _ _ => rfl,
      fun _ hno => absurd (.inr (by simp [hf])) hno, fun hno => absurd hno (by simp [hact])⟩
  · have hp := (hgeo hact).frameAddr_ne_zero (Nat.zero_le _)
    have hno : ¬ s.TableFits n := by
      rintro (h1 | h1)
      · exact hn h1
      · exact h1 hf
    exact ⟨hl, rfl, by simp [hp, hact], fun _ hfit => absurd hfit hno,
      fun _ _ => by simp [Sys.take], fun hno => absurd hno (by simp [hact])⟩

def Sys.pagesToPrepare (s : Sys) (a : AsId) : Nat :=
  totalPages (((s.as a).elim [] Addrspace.asSegment) ++ [stackSegment])

theorem prepareTable_balanced (hgeo : s.coremapActive = true → s.Geometry) {n : Nat}
    {r : Option Errno} (h : (prepareTable a n).run t s = .ok (r, s')) :
    Balanced t s s' ↔ s.coremapActive = true ∧ s.TableFits n := by
  obtain ⟨_, _, h1, h⟩ := run_bind_eq_ok.mp h
  obtain ⟨hpt, rfl⟩ := lockAcquire_eq_ok.mp h1
  obtain ⟨ptloc, s2, h2, h⟩ := run_bind_eq_ok.mp h
  have hgeo' : (s.take t (.pt a)).coremapActive = true → (s.take t (.pt a)).Geometry :=
    fun hact => (hgeo hact).congr rfl rfl rfl
  obtain ⟨hl, -, hz, hfit, hkept, hinact⟩ := ptAlloc_owner hgeo' h2
  have hl' : s.owner .coremap = none := by simpa [Sys.take] using hl
  by_cases hp : ptloc = 0
  · rw [if_pos hp] at h
    obtain ⟨-, rfl⟩ := pure_eq_ok.mp h
    have hact : s.coremapActive = false := hz.mp hp
    refine iff_of_false (not_balanced_of_update hpt ?_) fun hc => ?_
    · rw [hinact hact, Sys.take_owner_self]
    · rw [hact] at hc
      cases hc.1
  · rw [if_neg hp] at h
    have hact : s.coremapActive = true := Bool.eq_true_of_not_eq_false (mt hz.mpr hp)
    obtain ⟨_, _, h3, h⟩ := run_bind_eq_ok.mp h
    obtain ⟨as, -, -, rfl⟩ := installPt_eq_ok.mp h3
    obtain ⟨_, _, h4, h⟩ := run_bind_eq_ok.mp h
    obtain ⟨-, rfl⟩ := lockRelease_eq_ok.mp h4
    obtain ⟨-, rfl⟩ := pure_eq_ok.mp h
    by_cases hfits : s.TableFits n
    · exact iff_of_true (balanced_of_owner (owner_drop hpt (hfit hact hfits))) ⟨hact, hfits⟩
    · refine iff_of_false (not_balanced_of_update hl' ?_) fun hc => hfits hc.2
      have hne : Lock.coremap ≠ .pt a := by simp
      rw [Sys.drop_owner_of_ne hne]
      exact hkept hact hfits

theorem asDefineRegion_cases {vaddr memsize filesize rd wr ex offset : Nat} {r : Option Errno}
    (h : (asDefineRegion a vaddr memsize filesize rd wr ex offset).run t s = .ok (r, s')) :
    (s.world.kmalloc s.kmallocs = false ∧ r = some .ENOMEM ∧
        s' = { s with kmallocs := s.kmallocs + 1 }) ∨
      s.world.kmalloc s.kmallocs = true ∧ r = none ∧ ∃ as, s.as a = some as ∧
        s' = { s with
          kmallocs := s.kmallocs + 1
          as := Function.update s.as a (some { as with asSegment :=
            as.asSegment ++ [.define vaddr memsize filesize rd wr ex offset] }) } := by
  obtain ⟨ok, _, h2, h⟩ := run_bind_eq_ok.mp h
  obtain ⟨hok, rfl⟩ := kmalloc_eq_ok.mp h2
  cases ok with
  | false =>
      obtain ⟨rfl, rfl⟩ := pure_eq_ok.mp h
      exact .inl ⟨hok.symm, rfl, rfl⟩
  | true =>
      obtain ⟨_, _, h3, h⟩ := run_bind_eq_ok.mp h
      obtain ⟨as, has, rfl⟩ := addSegment_eq_ok.mp h3
      obtain ⟨rfl, rfl⟩ := pure_eq_ok.mp h
      exact .inr ⟨hok.symm, rfl, as, has, rfl⟩

/-- `as_prepare_load` returns with the locks it was called with, unless the
table cannot be allocated (`pt_lock` is kept) or `coremap_lock` is kept by
`ptAlloc`. -/
theorem asPrepareLoad_balanced (hgeo : s.coremapActive = true → s.Geometry) {r : Option Errno}
    (h : (asPrepareLoad a).run t s = .ok (r, s')) :
    Balanced t s s' ↔ s.world.kmalloc s.kmallocs = false ∨
      s.coremapActive = true ∧ s.TableFits (s.pagesToPrepare a) := by
  obtain ⟨err, s1, h1, h⟩ := run_bind_eq_ok.mp h
  obtain ⟨hk, rfl, rfl⟩ | ⟨hk, rfl, as, has, hs1⟩ := asDefineRegion_cases h1
  · obtain ⟨-, rfl⟩ := pure_eq_ok.mp h
    exact iff_of_true (balanced_of_owner rfl) (.inl hk)
  · obtain ⟨n, s2, h2, h⟩ := run_bind_eq_ok.mp h
    obtain ⟨as1, has1, hn, hs2⟩ := setNpages_eq_ok.mp h2
    have hnp : n = s.pagesToPrepare a := by
      have hseg : as1.asSegment = as.asSegment ++ [stackSegment] := by
        simp only [hs1, Function.update_self, Option.some.injEq] at has1
        rw [← has1]
        rfl
      rw [hn, hseg, Sys.pagesToPrepare, has]
      rfl
    have hkeep : s2.owner = s.owner ∧ s2.coremapActive = s.coremapActive ∧
        s2.firstpaddr = s.firstpaddr ∧ s2.coremap = s.coremap := by
      rw [hs2, hs1]
      exact ⟨rfl, rfl, rfl, rfl⟩
    obtain ⟨ho, hact, hfirst, hcm⟩ := hkeep
    have hgeo2 : s2.coremapActive = true → s2.Geometry := by
      rw [hact]
      exact fun h1 => (hgeo h1).congr hact hfirst (congrArg List.length hcm)
    have hb := prepareTable_balanced hgeo2 h
    rw [Balanced, ho, hact, Sys.TableFits, hcm] at hb
    rw [hk, ← hnp]
    exact hb.trans (by simp [Sys.TableFits])

/-! ## Page faults -/

def Sys.NextReadFails (s : Sys) : Prop := s.world.swapRead s.swapReads ≠ none

theorem pageInSwap_owner {i fa : Nat} {u : Unit} (hpt : s.owner (.pt a) = some t)
    (h : (pageInSwap a i fa).run t s = .ok (u, s')) :
    s.owner .swap = none ∧ (s.NextReadFails → s'.owner = (s.take t .swap).owner) ∧
      (¬ s.NextReadFails → s'.owner = s.owner) := by
  obtain ⟨_, _, h1, h⟩ := run_bind_eq_ok.mp h
  obtain ⟨-, rfl⟩ := lockRelease_eq_ok.mp h1
  obtain ⟨p, s1, h2, h⟩ := run_bind_eq_ok.mp h
  obtain ⟨_, _, h3, h⟩ := run_bind_eq_ok.mp h
  obtain ⟨-, rfl⟩ := lockAcquire_eq_ok.mp h3
  obtain ⟨r, s2, h4, h⟩ := run_bind_eq_ok.mp h
  -- the frame is allocated with `pt_lock` given up; neither locks nor reads change
  have ho1 : (s1.take t (.pt a)).owner = s.owner :=
    owner_take hpt (getPages_one_leaves_owner _ _ _ h2)
  have hreads : (s1.world, s1.swapReads) = (s.world, s.swapReads) :=
    unaffected_swapReads.getPage (s.drop (.pt a)) _ _ h2
  have hnext : (s1.take t (.pt a)).world.swapRead (s1.take t (.pt a)).swapReads =
      s.world.swapRead s.swapReads := by
    rw [show (s1.take t (.pt a)).world = s.world from congrArg Prod.fst hreads,
      show (s1.take t (.pt a)).swapReads = s.swapReads from congrArg Prod.snd hreads]
  obtain ⟨hswap, hr, -, ho2⟩ := swapIn_owner h4
  rw [ho1] at hswap ho2
  rw [hnext] at hr
  have hrest : (do
      updPte a i fun e => { e with inSwap := false }
      vmStatsInc .swapRead
      vmStatsInc .pageFaultDisk : VM Unit).Leaves Sys.owner t :=
    .bind (updPte_leaves fun _ => rfl) fun _ => .bind (vmStatsInc_leaves fun _ => rfl) fun _ =>
      vmStatsInc_leaves fun _ => rfl
  have ho3 : s'.owner = s2.owner := hrest _ _ _ h
  refine ⟨hswap, fun hfail => ?_, fun hok => ?_⟩
  · rw [ho3, ho2, if_neg (by rw [hr]; exact hfail)]
    rfl
  · rw [ho3, ho2, if_pos (by rw [hr]; exact not_not.mp hok)]

theorem pageInFresh_owner {i fa : Nat} {seg : Segment} {last : Bool} {u : Unit}
    (hpt : s.owner (.pt a) = some t) (h : (pageInFresh a i seg last fa).run t s = .ok (u, s')) :
    s'.owner = s.owner := by
  obtain ⟨_, s1, h1, h⟩ := run_bind_eq_ok.mp h
  have hrest : ∀ e : PtEntry, (if last then do
        Prog.modify fun s => { s with ram := s.ram.bzero e.paddr pageSize }
        vmStatsInc .pageFaultZeroed
      else do
        let _ ← loadElfOndemand a seg e.paddr fa
        vmStatsInc .elfRead
        vmStatsInc .pageFaultDisk : VM Unit).Leaves Sys.owner t := by
    intro e
    refine .ite (.bind (.modify fun _ => rfl) fun _ => vmStatsInc_leaves fun _ => rfl) ?_
    exact .bind (loadElfOndemand_leaves fun _ _ _ _ _ => rfl) fun _ =>
      .bind (vmStatsInc_leaves fun _ => rfl) fun _ => vmStatsInc_leaves fun _ => rfl
  rw [Leaves.bind getPte_leaves hrest _ _ _ h]
  obtain ⟨e, _, h2, h1⟩ := run_bind_eq_ok.mp h1
  obtain ⟨-, hs2⟩ := getPte_eq_ok.mp h2
  rw [hs2] at h1
  split at h1
  · obtain ⟨_, _, h3, h1⟩ := run_bind_eq_ok.mp h1
    obtain ⟨-, rfl⟩ := lockRelease_eq_ok.mp h3
    obtain ⟨p, s3, h4, h1⟩ := run_bind_eq_ok.mp h1
    obtain ⟨_, _, h5, h1⟩ := run_bind_eq_ok.mp h1
    obtain ⟨-, rfl⟩ := updPte_eq_ok.mp h5
    obtain ⟨-, rfl⟩ := lockAcquire_eq_ok.mp h1
    have ho := getPages_one_leaves_owner _ _ _ h4
    exact owner_take hpt ho
  · rw [(pure_eq_ok.mp h1).2]

theorem pageIn_owner {i fa : Nat} {seg : Segment} {last : Bool} {u : Unit}
    (hpt : s.owner (.pt a) = some t) (h : (pageIn a i seg last fa).run t s = .ok (u, s')) :
    ∃ e, s.pte a i = some e ∧
      (e.inMem = false ∧ e.inSwap = true ∧ s.NextReadFails →
        s.owner .swap = none ∧ s'.owner = (s.take t .swap).owner) ∧
      (¬ (e.inMem = false ∧ e.inSwap = true ∧ s.NextReadFails) → s'.owner = s.owner) := by
  obtain ⟨e, s1, h1, h⟩ := run_bind_eq_ok.mp h
  obtain ⟨he, hs1⟩ := getPte_eq_ok.mp h1
  rw [hs1] at h
  refine ⟨e, he, ?_⟩
  cases hm : e.inMem with
  | true =>
      simp only [hm, if_true] at h
      have ho : s'.owner = s.owner := vmStatsInc_leaves (f := Sys.owner) (fun _ => rfl) _ _ _ h
      exact ⟨fun hc => absurd hc.1 (by simp), fun _ => ho⟩
  | false =>
      simp only [hm, Bool.false_eq_true, if_false] at h
      obtain ⟨_, s2, h2, h⟩ := run_bind_eq_ok.mp h
      have ho : s'.owner = s2.owner := updPte_leaves (f := Sys.owner) (fun _ => rfl) _ _ _ h
      rw [ho]
      cases hsw : e.inSwap with
      | true =>
          simp only [fetch, hsw, if_true] at h2
          obtain ⟨hfree, hfail, hok⟩ := pageInSwap_owner hpt h2
          exact ⟨fun hc => ⟨hfree, hfail hc.2.2⟩, fun hc => hok fun hf => hc ⟨rfl, rfl, hf⟩⟩
      | false =>
          simp only [fetch, hsw, Bool.false_eq_true, if_false] at h2
          exact ⟨fun hc => absurd hc.2.1 (by simp), fun _ => pageInFresh_owner hpt h2⟩

def Sys.faultEntry (s : Sys) (fa : Nat) : Option PtEntry :=
  match s.cur with
  | none => none
  | some a =>
      match s.as a with
      | none => none
      | some as =>
          match as.lookup (pageFrame fa) with
          | none => none
          | some (i, _, _) => as.pt[i]?

/-- `vm_fault` returns with the locks it was called with, unless it has to bring a
page back from the swap file and the read fails. -/
theorem vmFault_balanced {ty : FaultType} {fa : Nat} {r : Option Errno}
    (h : (vmFault ty fa).run t s = .ok (r, s')) :
    Balanced t s s' ↔ ¬ ((ty = .read ∨ ty = .write) ∧ s.NextReadFails ∧
      ∃ e, s.faultEntry fa = some e ∧ e.inMem = false ∧ e.inSwap = true) := by
  obtain ⟨hcur, -, rfl⟩ | ⟨a, as, i, seg, last, hcur, has, hlook, hpt, hrest⟩ := vmFault_cases h
  · refine iff_of_true (balanced_of_owner rfl) ?_
    rintro ⟨-, -, e, he, -⟩
    simp [Sys.faultEntry, hcur] at he
  · have hentry : s.faultEntry fa = as.pt[i]? := by
      simp only [Sys.faultEntry, hcur, has, hlook]
    rcases hrest with ⟨⟨c, rfl⟩, -, rfl⟩ | ⟨hty, h⟩
    · exact iff_of_true (balanced_of_owner rfl) (by simp)
    · obtain ⟨_, s1, h1, h⟩ := run_bind_eq_ok.mp h
      obtain ⟨e, he, hfail, hok⟩ := pageIn_owner Sys.take_owner_self h1
      have he' : as.pt[i]? = some e := by
        have hp : s.pte a i = some e := he
        rwa [Sys.pte, has] at hp
      -- after the page is in, the TLB is loaded and `pt_lock` given up
      obtain ⟨e1, _, h2, h⟩ := run_bind_eq_ok.mp h
      rw [(getPte_eq_ok.mp h2).2] at h
      obtain ⟨_, s3, h3, h⟩ := run_bind_eq_ok.mp h
      have ho3 : s3.owner = s1.owner :=
        tlbLoadentry_leaves (f := Sys.owner) (fun _ _ => rfl) (fun _ _ _ _ => rfl) _ _ _ h3
      obtain ⟨_, _, h4, h⟩ := run_bind_eq_ok.mp h
      obtain ⟨-, rfl⟩ := lockRelease_eq_ok.mp h4
      obtain ⟨-, rfl⟩ := pure_eq_ok.mp h
      simp only [hentry, he', Option.some.injEq, exists_eq_left', hty, true_and]
      by_cases hc : e.inMem = false ∧ e.inSwap = true ∧ s.NextReadFails
      · obtain ⟨hfree, ho⟩ := hfail hc
        refine iff_of_false (not_balanced_of_update (l := .swap) ?_ ?_)
          fun hno => hno ⟨hc.2.2, hc.1, hc.2.1⟩
        · have hne : Lock.swap ≠ .pt a := by simp
          simpa [Sys.bump, hne] using hfree
        · have hne : Lock.swap ≠ .pt a := by simp
          rw [Sys.drop_owner_of_ne hne, ho3, ho, Sys.take_owner_self]
      · refine iff_of_true (balanced_of_owner (owner_drop hpt (ho3.trans (hok hc)))) ?_
        exact fun hno => hc ⟨hno.2.1, hno.2.2, hno.1⟩

/-! ## as_copy -/

def Sys.ReadsSucceed (s : Sys) (n : Nat) : Prop :=
  ∀ k < n, s.world.swapRead (s.swapReads + k) = none

def swappedPages (pt : List PtEntry) (i n : Nat) : Nat := ((pt.drop i).take n).countP (·.inSwap)

section Copy

variable {old new : AsId} (hne : old ≠ new)
include hne

theorem unaffected_as : Unaffected new fun s => (s.as old, s.world, s.swapReads) := by
  refine ⟨?_, fun _ _ => rfl, fun _ _ _ _ _ => rfl⟩
  constructor <;> intros <;> simp [Sys.modPte, Sys.setSlot, Sys.incUsed, Sys.writeSwap, Sys.bump,
    Function.update_of_ne hne]

theorem updPte_new_leaves {i : Nat} {g : PtEntry → PtEntry} :
    (updPte new i g).Leaves (fun s => (s.as old, s.world, s.swapReads, s.owner)) t :=
  updPte_leaves fun s => by simp [Sys.modPte, Function.update_of_ne hne]

/-- One page of `as_copy`: a page in the swap file costs one read, on whose
failure `swap_lock` is kept. -/
theorem copyPage_owner {i : Nat} {r : Option Errno}
    (h : (copyPage old new i).run t s = .ok (r, s')) :
    ∃ o, s.pte old i = some o ∧ s'.as old = s.as old ∧ s'.world = s.world ∧
      (o.inSwap = true ∧ s'.swapReads = s.swapReads + 1 ∧ r = s.world.swapRead s.swapReads ∧
          s'.owner = (if r = none then s.owner else (s.take t .swap).owner) ∨
        o.inSwap = false ∧ s'.swapReads = s.swapReads ∧ r = none ∧ s'.owner = s.owner) := by
  obtain ⟨o, _, h1, h⟩ := run_bind_eq_ok.mp h
  obtain ⟨ho, hs1⟩ := getPte_eq_ok.mp h1
  rw [hs1] at h
  refine ⟨o, ho, ?_⟩
  obtain ⟨_, s2, h2, h⟩ := run_bind_eq_ok.mp h
  have hk2 := updPte_new_leaves hne _ _ _ h2
  simp only [Prod.mk.injEq] at hk2
  obtain ⟨has2, hw2, hrd2, how2⟩ := hk2
  -- what a frame for the copy leaves alone
  have hget : ∀ {s3 p}, (getPages 1 o.vaddr (some new)).run t s2 = .ok (p, s3) →
      s3.as old = s.as old ∧ s3.world = s.world ∧ s3.swapReads = s.swapReads ∧
        s3.owner = s.owner := by
    intro s3 p h3
    have hk3 := (unaffected_as hne).getPage s2 _ _ h3
    simp only [Prod.mk.injEq] at hk3
    exact ⟨hk3.1.trans has2, hk3.2.1.trans hw2, hk3.2.2.trans hrd2,
      (getPages_one_leaves_owner _ _ _ h3).trans how2⟩
  cases hsw : o.inSwap with
  | true =>
      simp only [hsw, if_true] at h
      obtain ⟨p, s3, h3, h⟩ := run_bind_eq_ok.mp h
      obtain ⟨has3, hw3, hrd3, how3⟩ := hget h3
      obtain ⟨err, s4, h4, h⟩ := run_bind_eq_ok.mp h
      obtain ⟨-, herr, hrd4, how4⟩ := swapIn_owner h4
      have hk4 : (s4.as old, s4.world) = (s3.as old, s3.world) :=
        swapIn_leaves (f := fun s => (s.as old, s.world)) (fun _ _ => rfl) (fun _ _ _ _ => rfl)
          (fun _ _ => rfl) (fun s g => by simp [Sys.modPte, Function.update_of_ne hne]) _ _ _ h4
      simp only [Prod.mk.injEq] at hk4
      rw [hw3, hrd3] at herr
      rw [how3] at how4
      by_cases hz : err ≠ none
      · rw [if_pos hz] at h
        obtain ⟨rfl, rfl⟩ := pure_eq_ok.mp h
        exact ⟨hk4.1.trans has3, hk4.2.trans hw3, .inl ⟨rfl, by rw [hrd4, hrd3], herr, how4⟩⟩
      · rw [if_neg hz] at h
        obtain ⟨_, s5, h5, h⟩ := run_bind_eq_ok.mp h
        obtain ⟨rfl, rfl⟩ := pure_eq_ok.mp h
        have hk5 := updPte_new_leaves hne _ _ _ h5
        simp only [Prod.mk.injEq] at hk5
        rw [not_not] at hz
        subst hz
        exact ⟨hk5.1.trans (hk4.1.trans has3), hk5.2.1.trans (hk4.2.trans hw3),
          .inl ⟨rfl, by rw [hk5.2.2.1, hrd4, hrd3], herr, hk5.2.2.2.trans how4⟩⟩
  | false =>
      simp only [hsw, Bool.false_eq_true, if_false] at h
      by_cases hm : o.inMem = true
      · rw [if_pos hm] at h
        obtain ⟨p, s3, h3, h⟩ := run_bind_eq_ok.mp h
        obtain ⟨has3, hw3, hrd3, how3⟩ := hget h3
        obtain ⟨_, _, h4, h⟩ := run_bind_eq_ok.mp h
        obtain rfl := modify_eq_ok.mp h4
        obtain ⟨_, s5, h5, h⟩ := run_bind_eq_ok.mp h
        obtain ⟨rfl, rfl⟩ := pure_eq_ok.mp h
        have hk5 := updPte_new_leaves hne _ _ _ h5
        simp only [Prod.mk.injEq] at hk5
        exact ⟨hk5.1.trans has3, hk5.2.1.trans hw3,
          .inr ⟨rfl, hk5.2.2.1.trans hrd3, rfl, hk5.2.2.2.trans how3⟩⟩
      · rw [if_neg hm] at h
        obtain ⟨_, s5, h5, h⟩ := run_bind_eq_ok.mp h
        obtain ⟨rfl, rfl⟩ := pure_eq_ok.mp h
        have hk5 := updPte_new_leaves hne _ _ _ h5
        simp only [Prod.mk.injEq] at hk5
        exact ⟨hk5.1.trans has2, hk5.2.1.trans hw2,
          .inr ⟨rfl, hk5.2.2.1.trans hrd2, rfl, hk5.2.2.2.trans how2⟩⟩

/-- The page loop of `as_copy` makes one read for each page in the swap file, up to
the first that fails. -/
theorem copyPages_owner {n i : Nat} {o : Addrspace} {r : Option Errno} (hold : s.as old = some o)
    (h : (copyPages old new n i).run t s = .ok (r, s')) :
    (r = none ∧ s.ReadsSucceed (swappedPages o.pt i n) ∧ s'.owner = s.owner) ∨
      r ≠ none ∧ ¬ s.ReadsSucceed (swappedPages o.pt i n) ∧
        s'.owner = (s.take t .swap).owner := by
  induction n generalizing s i with
  | zero =>
      obtain ⟨rfl, rfl⟩ := pure_eq_ok.mp h
      exact .inl ⟨rfl, by simp [Sys.ReadsSucceed, swappedPages], rfl⟩
  | succ n ih =>
      obtain ⟨r1, s1, h1, h⟩ := run_bind_eq_ok.mp h
      obtain ⟨e, he, has, hw, hcase⟩ := copyPage_owner hne h1
      have hlt : o.pt[i]? = some e := by
        rw [Sys.pte, hold] at he
        exact he
      have hsplit : swappedPages o.pt i (n + 1) =
          swappedPages o.pt (i + 1) n + if e.inSwap = true then 1 else 0 := by
        obtain ⟨hi, hget⟩ := List.getElem?_eq_some_iff.mp hlt
        rw [swappedPages, List.drop_eq_getElem_cons hi, hget, List.take_succ_cons,
          List.countP_cons, swappedPages]
      rw [hsplit]
      rcases hcase with ⟨hsw, hrd, hr1, how⟩ | ⟨hsw, hrd, rfl, how⟩
      · simp only [hsw, if_true]
        cases r1 with
        | some err =>
            obtain ⟨rfl, rfl⟩ := pure_eq_ok.mp h
            refine .inr ⟨by simp, fun hall => ?_, how⟩
            have h0 := hall 0 (by omega)
            rw [Nat.add_zero, ← hr1] at h0
            cases h0
        | none =>
            have hshift : ∀ c, s1.ReadsSucceed c ↔ s.ReadsSucceed (c + 1) := by
              intro c
              simp only [Sys.ReadsSucceed, hw, hrd]
              constructor
              · rintro hall (_ | k) hk
                · exact hr1.symm
                · have := hall k (by omega)
                  rwa [Nat.add_assoc, Nat.add_comm 1 k] at this
              · intro hall k hk
                have := hall (k + 1) (by omega)
                rwa [Nat.add_assoc, Nat.add_comm 1 k]
            have ih' := ih (has.trans hold) h
            have how' : s1.owner = s.owner := how
            rwa [hshift, how', show (s1.take t .swap).owner = (s.take t .swap).owner by
              simp only [Sys.take, how']] at ih'
      · simp only [hsw, Bool.false_eq_true, if_false, Nat.add_zero]
        have ih' := ih (has.trans hold) h
        have hsame : ∀ c, s1.ReadsSucceed c ↔ s.ReadsSucceed c := by
          intro c
          simp only [Sys.ReadsSucceed, hw, hrd]
        rwa [hsame, how, show (s1.take t .swap).owner = (s.take t .swap).owner by
          simp only [Sys.take, how]] at ih'

end Copy

def Sys.KmallocsSucceed (s : Sys) (n : Nat) : Prop :=
  ∀ k < n, s.world.kmalloc (s.kmallocs + k) = true

/-- The segment loop of `as_copy` needs one `kmalloc` per segment and changes
nothing but the new address space. -/
theorem copySegments_spec {new : AsId} {segs : List Segment} {b : Bool}
    (h : (copySegments new segs).run t s = .ok (b, s')) :
    (b = true ↔ s.KmallocsSucceed segs.length) ∧
      (∀ old, old ≠ new → s'.as old = s.as old) ∧
      (b = true → s'.as new = (s.as new).map fun x => { x with asSegment := x.asSegment ++ segs }) ∧
      s' = { s with kmallocs := s'.kmallocs, as := s'.as } := by
  induction segs generalizing s with
  | nil =>
      obtain ⟨rfl, rfl⟩ := pure_eq_ok.mp h
      refine ⟨by simp [Sys.KmallocsSucceed], fun _ _ => rfl, fun _ => ?_, rfl⟩
      simp only [List.append_nil, Option.map_id']
  | cons seg segs ih =>
      obtain ⟨ok, _, h1, h⟩ := run_bind_eq_ok.mp h
      obtain ⟨hok, rfl⟩ := kmalloc_eq_ok.mp h1
      cases ok with
      | false =>
          obtain ⟨rfl, rfl⟩ := pure_eq_ok.mp h
          refine ⟨iff_of_false (by simp) fun hall => ?_, fun _ _ => rfl, by simp, rfl⟩
          have h0 := hall 0 (by simp)
          rw [Nat.add_zero, ← hok] at h0
          cases h0
      | true =>
          obtain ⟨_, s1, h2, h⟩ := run_bind_eq_ok.mp h
          obtain ⟨as, has, rfl⟩ := addSegment_eq_ok.mp h2
          obtain ⟨hb, hold, hnew, hrest⟩ := ih h
          refine ⟨hb.trans ⟨?_, ?_⟩, fun old hne => ?_, fun htrue => ?_, ?_⟩
          · rintro hall (_ | k) hk
            · exact hok.symm
            · have := hall k (by simpa using hk)
              simpa [Sys.setAs, Nat.add_assoc, Nat.add_comm 1 k] using this
          · intro hall k hk
            have := hall (k + 1) (by simpa using hk)
            simpa [Sys.setAs, Nat.add_assoc, Nat.add_comm 1 k] using this
          · rw [hold old hne]
            exact Function.update_of_ne hne ..
          · have has' : s.as new = some as := has
            refine (hnew htrue).trans ((congrArg _ (Function.update_self ..)).trans ?_)
            rw [has', Option.map_some, Option.map_some, List.append_assoc, List.singleton_append]
          · rw [hrest]
            rfl

/-- What `as_copy` needs, once the segments are copied, to get to its last lines. -/
def Sys.CopyGoesThrough (s : Sys) (o : Addrspace) (n : Nat) : Prop :=
  s.coremapActive = true ∧ s.TableFits n ∧ s.ReadsSucceed (swappedPages o.pt 0 n)

theorem copyTable_owner {old new : AsId} (hne : old ≠ new)
    (hgeo : s.coremapActive = true → s.Geometry) {o : Addrspace} {n : Nat}
    {junk : Nat → PtEntry} {r : Except Errno AsId} (hold : s.as old = some o)
    (hpt : s.owner (.pt old) = some t)
    (h : (copyTable old new n junk).run t s = .ok (r, s')) :
    (s.CopyGoesThrough o n → s'.owner = (s.drop (.pt old)).owner) ∧
      (¬ s.CopyGoesThrough o n → s'.owner (.pt old) = some t ∨
        s.owner .coremap = none ∧ s'.owner .coremap = some t) := by
  obtain ⟨_, _, h1, h⟩ := run_bind_eq_ok.mp h
  obtain ⟨asn, -, rfl⟩ := copyNpages_eq_ok.mp h1
  obtain ⟨ptloc, s2, h2, h⟩ := run_bind_eq_ok.mp h
  have hgeo' : (s.setAs new { asn with npages := some n }).coremapActive = true →
      (s.setAs new { asn with npages := some n }).Geometry :=
    fun hact => (hgeo hact).congr rfl rfl rfl
  obtain ⟨hl, hs2, hz, hfit, hkept, hinact⟩ := ptAlloc_owner hgeo' h2
  by_cases hp : ptloc = 0
  · rw [if_pos hp] at h
    obtain ⟨-, rfl⟩ := pure_eq_ok.mp h
    have hact : s.coremapActive = false := hz.mp hp
    refine ⟨fun hg => ?_, fun _ => .inl ?_⟩
    · rw [hg.1] at hact
      cases hact
    · rw [hinact hact]
      exact hpt
  rw [if_neg hp] at h
  have hact : s.coremapActive = true := Bool.eq_true_of_not_eq_false (mt hz.mpr hp)
  obtain ⟨_, s3, h3, h⟩ := run_bind_eq_ok.mp h
  obtain ⟨asn', -, -, hs3⟩ := installPt_eq_ok.mp h3
  have ho3 : s3.owner = s2.owner := by rw [hs3]; rfl
  have hold3 : s3.as old = some o := by
    rw [hs3, Sys.setAs, hs2]
    simp only [Sys.setAs, Function.update_of_ne hne, hold]
  have hreads : ∀ c, s3.ReadsSucceed c ↔ s.ReadsSucceed c := by
    intro c
    rw [hs3, Sys.setAs, hs2]
    rfl
  obtain ⟨r1, s4, h4, h⟩ := run_bind_eq_ok.mp h
  have hpages := copyPages_owner hne hold3 h4
  rw [hreads] at hpages
  by_cases hfits : s.TableFits n
  · have how : s3.owner = s.owner := ho3.trans (hfit hact hfits)
    rcases hpages with ⟨rfl, hok, how4⟩ | ⟨hr1, hno, how4⟩
    · obtain ⟨_, _, h5, h⟩ := run_bind_eq_ok.mp h
      obtain ⟨-, rfl⟩ := lockRelease_eq_ok.mp h5
      obtain ⟨-, rfl⟩ := pure_eq_ok.mp h
      refine ⟨fun _ => ?_, fun hno => absurd ⟨hact, hfits, hok⟩ hno⟩
      simp only [Sys.drop, how4, how]
    · cases r1 with
      | none => exact absurd rfl hr1
      | some err =>
          obtain ⟨-, rfl⟩ := pure_eq_ok.mp h
          refine ⟨fun hg => absurd hg.2.2 hno, fun _ => .inl ?_⟩
          have hne' : Lock.pt old ≠ .swap := by simp
          rw [how4, Sys.take_owner_of_ne hne', how, hpt]
  · -- `coremap_lock` was kept by `ptAlloc` and nothing after it gives it up
    refine ⟨fun hg => absurd hg.2.1 hfits, fun _ => .inr ⟨hl, ?_⟩⟩
    have hcm : s3.owner .coremap = some t := by rw [ho3]; exact hkept hact hfits
    rcases hpages with ⟨rfl, -, how4⟩ | ⟨hr1, -, how4⟩
    · obtain ⟨_, _, h5, h⟩ := run_bind_eq_ok.mp h
      obtain ⟨-, rfl⟩ := lockRelease_eq_ok.mp h5
      obtain ⟨-, rfl⟩ := pure_eq_ok.mp h
      have hne' : Lock.coremap ≠ .pt old := by simp
      rw [Sys.drop_owner_of_ne hne', how4, hcm]
    · cases r1 with
      | none => exact absurd rfl hr1
      | some err =>
          obtain ⟨-, rfl⟩ := pure_eq_ok.mp h
          have hne' : Lock.coremap ≠ .swap := by simp
          rw [how4, Sys.take_owner_of_ne hne', hcm]

/-- `as_create` fails without taking a lock, or makes a fresh address space. -/
theorem asCreate_cases {p : Option AsId} {f : Option File} {r : Except Errno AsId}
    (h : (asCreate p f).run t s = .ok (r, s')) :
    ((p = none ∨ f = none ∨ s.world.kmalloc s.kmallocs = false) ∧ (∃ e, r = .error e) ∧
        ∃ n, s' = { s with kmallocs := n }) ∨
      ∃ a v, p = some a ∧ f = some v ∧ s.world.kmalloc s.kmallocs = true ∧ r = .ok a ∧
        s.as a = none ∧ s' = { s with kmallocs := s.kmallocs + 1 }.createAs a v := by
  obtain ⟨_, s1, h1, h⟩ := run_bind_eq_ok.mp h
  rw [(canSleep_eq_ok.mp h1).2] at h
  cases p with
  | none =>
      obtain ⟨rfl, rfl⟩ := pure_eq_ok.mp h
      exact .inl ⟨.inl rfl, ⟨_, rfl⟩, _, rfl⟩
  | some a =>
      cases f with
      | none =>
          obtain ⟨rfl, rfl⟩ := pure_eq_ok.mp h
          exact .inl ⟨.inr (.inl rfl), ⟨_, rfl⟩, _, rfl⟩
      | some v =>
          obtain ⟨ok, _, h2, h⟩ := run_bind_eq_ok.mp h
          obtain ⟨hok, rfl⟩ := kmalloc_eq_ok.mp h2
          cases ok with
          | false =>
              obtain ⟨rfl, rfl⟩ := pure_eq_ok.mp h
              exact .inl ⟨.inr (.inr hok.symm), ⟨_, rfl⟩, _, rfl⟩
          | true =>
              obtain ⟨_, _, h3, h⟩ := run_bind_eq_ok.mp h
              obtain ⟨⟨hnone, -⟩, rfl⟩ := initAs_eq_ok.mp h3
              obtain ⟨rfl, rfl⟩ := pure_eq_ok.mp h
              exact .inr ⟨a, v, rfl, rfl, hok.symm, rfl, hnone, rfl⟩

/-- The ways `as_copy` can return: with the error of `as_create`, without memory for a
segment, or from the part that fills the page table, which starts in a state that
differs from the first one in the new address space and in `pt_lock`. -/
theorem asCopy_cases {old : AsId} {p : Option AsId} {f : Option File} {junk : Nat → PtEntry}
    {r : Except Errno AsId} (h : (asCopy old p f junk).run t s = .ok (r, s')) :
    ((p = none ∨ f = none ∨ s.world.kmalloc s.kmallocs = false) ∧ (∃ e, r = .error e) ∧
        ∃ n, s' = { s with kmallocs := n }) ∨
      ∃ new o s1, p = some new ∧ f ≠ none ∧ s.world.kmalloc s.kmallocs = true ∧ old ≠ new ∧
        s.as old = some o ∧ s.owner (.pt old) = none ∧
        s1 = { s.take t (.pt old) with kmallocs := s1.kmallocs, as := s1.as } ∧
        s1.as old = some o ∧
        (¬ { s with kmallocs := s.kmallocs + 1 }.KmallocsSucceed o.asSegment.length ∧
            (∃ e, r = .error e) ∧ s' = s1 ∨
          ∃ n, o.npages = some n ∧
            { s with kmallocs := s.kmallocs + 1 }.KmallocsSucceed o.asSegment.length ∧
            (copyTable old new n junk).run t s1 = .ok (r, s') ∧ s.as new = none ∧
            ∃ v, f = some v ∧ s1.as = (s.setAs new ⟨none, [], o.asSegment, v, none⟩).as) := by
  obtain ⟨r1, s1, h1, h⟩ := run_bind_eq_ok.mp h
  obtain ⟨hfail, ⟨e, rfl⟩, n, rfl⟩ | ⟨new, v, rfl, rfl, hk, rfl, hnone, hs1⟩ := asCreate_cases h1
  · obtain ⟨rfl, rfl⟩ := pure_eq_ok.mp h
    exact .inl ⟨hfail, ⟨_, rfl⟩, _, rfl⟩
  right
  have ho1 : s1.owner = s.owner := by rw [hs1]; rfl
  obtain ⟨_, s2, h2, h⟩ := run_bind_eq_ok.mp h
  obtain ⟨hfree, hs2⟩ := lockAcquire_eq_ok.mp h2
  rw [ho1] at hfree
  obtain ⟨o, _, h3, h⟩ := run_bind_eq_ok.mp h
  obtain ⟨hold, hs⟩ := getAs_eq_ok.mp h3
  rw [hs] at h
  obtain ⟨b, s3, h4, h⟩ := run_bind_eq_ok.mp h
  obtain ⟨hb, hkeep, hnew, hs3⟩ := copySegments_spec h4
  by_cases hne : old = new
  · -- the structure at `old` was not in use, so it is the one just made
    subst hne
    have ho : o = ⟨none, [], [], v, none⟩ := by
      rw [hs2, hs1] at hold
      simpa [Sys.take, Sys.createAs, Sys.setAs, eq_comm] using hold
    subst ho
    have htrue : b = true := hb.mpr (by simp [Sys.KmallocsSucceed])
    subst htrue
    cases h
  have hold' : s.as old = some o := by
    rw [hs2, hs1] at hold
    simpa [Sys.take, Sys.createAs, Sys.setAs, hne] using hold
  have hkm : s2.KmallocsSucceed o.asSegment.length ↔
      { s with kmallocs := s.kmallocs + 1 }.KmallocsSucceed o.asSegment.length := by
    rw [hs2, hs1]
    rfl
  have hs3' : s3 = { s.take t (.pt old) with kmallocs := s3.kmallocs, as := s3.as } := by
    rw [hs3, hs2, hs1]
    rfl
  refine ⟨new, o, s3, rfl, by simp, hk, hne, hold', hfree, hs3', (hkeep old hne).trans hold, ?_⟩
  cases b with
  | false =>
      obtain ⟨rfl, rfl⟩ := pure_eq_ok.mp h
      exact .inl ⟨fun hall => Bool.false_ne_true (hb.mpr (hkm.mpr hall)), ⟨_, rfl⟩, rfl⟩
  | true =>
      cases hn : o.npages with
      | none =>
          simp only [hn, if_true] at h
          cases h
      | some n =>
          simp only [hn, if_true] at h
          refine .inr ⟨n, rfl, hkm.mp (hb.mp rfl), h, hnone, v, rfl, funext fun b => ?_⟩
          by_cases hbn : b = new
          · subst hbn
            rw [hnew rfl, hs2, hs1]
            simp [Sys.take, Sys.createAs, Sys.setAs]
          · rw [hkeep b hbn, hs2, hs1]
            simp [Sys.take, Sys.createAs, Sys.setAs, hbn]

/-- `as_copy` returns with the locks it was called with if `as_create` fails, and
otherwise only if everything it tries afterwards succeeds. -/
theorem asCopy_balanced (hgeo : s.coremapActive = true → s.Geometry) {old : AsId}
    {p : Option AsId} {f : Option File} {junk : Nat → PtEntry} {r : Except Errno AsId}
    (h : (asCopy old p f junk).run t s = .ok (r, s')) :
    Balanced t s s' ↔ (p = none ∨ f = none ∨ s.world.kmalloc s.kmallocs = false) ∨
      ∃ o n, s.as old = some o ∧ o.npages = some n ∧
        { s with kmallocs := s.kmallocs + 1 }.KmallocsSucceed o.asSegment.length ∧
        s.CopyGoesThrough o n := by
  obtain ⟨hfail, -, n, rfl⟩ | ⟨new, o, s1, rfl, hf, hk, hne, hold, hfree, hs1, hold1, hrest⟩ :=
    asCopy_cases h
  · exact iff_of_true (balanced_of_owner rfl) (.inl hfail)
  have hnofail : ¬ (some new = none ∨ f = none ∨ s.world.kmalloc s.kmallocs = false) := by
    simp [hk, hf]
  have ho1 : s1.owner = (s.take t (.pt old)).owner := by rw [hs1]
  have hheld : s1.owner (.pt old) = some t := by rw [ho1]; exact Sys.take_owner_self
  obtain ⟨hno, -, rfl⟩ | ⟨n, hn, hall, htab, -⟩ := hrest
  · refine iff_of_false (not_balanced_of_update hfree hheld) ?_
    rintro (hc | ⟨o', n, ho', -, hall, -⟩)
    · exact hnofail hc
    · obtain rfl := Option.some.inj (hold.symm.trans ho')
      exact hno hall
  have hgeo1 : s1.coremapActive = true → s1.Geometry := by
    rw [hs1]
    exact fun hact => (hgeo hact).congr rfl rfl rfl
  obtain ⟨hgood, hbad⟩ := copyTable_owner hne hgeo1 hold1 hheld htab
  have hgo : s1.CopyGoesThrough o n ↔ s.CopyGoesThrough o n := by
    rw [hs1]
    rfl
  by_cases hg : s.CopyGoesThrough o n
  · refine iff_of_true (balanced_of_owner ?_) (.inr ⟨o, n, hold, hn, hall, hg⟩)
    rw [hgood (hgo.mpr hg)]
    exact owner_drop hfree ho1
  · refine iff_of_false ?_ ?_
    · rcases hbad (mt hgo.mp hg) with hpt | ⟨hcm, hcm'⟩
      · exact not_balanced_of_update hfree hpt
      · have hne' : Lock.coremap ≠ .pt old := by simp
        rw [ho1, Sys.take_owner_of_ne hne'] at hcm
        exact not_balanced_of_update hcm hcm'
    · rintro (hc | ⟨o', n', ho', hn', -, hg'⟩)
      · exact hnofail hc
      · obtain rfl := Option.some.inj (hold.symm.trans ho')
        obtain rfl := Option.some.inj (hn.symm.trans hn')
        exact hg hg'

/-! ## All of them -/

inductive LockingCall where
  | getPage (isReserved : Bool) (vaddr : Nat) (as : Option AsId)
  | getMultiplePages (npages : Nat) (isReserved : Bool) (as : Option AsId)
  | freepages (paddr : Nat)
  | swapIn (a : AsId) (j ramPaddr : Nat) (toRemove : Bool)
  | swapOut (a : AsId) (j : Nat)
  | asPrepareLoad (a : AsId)
  | asCopy (old : AsId) (p : Option AsId) (f : Option File) (junk : Nat → PtEntry)
  | vmFault (faulttype : FaultType) (faultaddress : Nat)

namespace LockingCall

/-- The call, made by `t` in `s`, returns to its caller in `s'`. -/
def Returns (t : Tid) (s s' : Sys) : LockingCall → Prop
  | .getPage isReserved vaddr as =>
      ∃ r, (Os161Paging.getPage isReserved vaddr as).run t s = .ok (r, s')
  | .getMultiplePages npages isReserved as =>
      ∃ r, (Os161Paging.getMultiplePages npages isReserved as).run t s = .ok (r, s')
  | .freepages paddr => ∃ r, (Os161Paging.freepages paddr).run t s = .ok (r, s')
  | .swapIn a j ramPaddr toRemove =>
      ∃ r, (Os161Paging.swapIn a j ramPaddr toRemove).run t s = .ok (r, s')
  | .swapOut a j => ∃ r, (Os161Paging.swapOut a j).run t s = .ok (r, s')
  | .asPrepareLoad a => ∃ r, (Os161Paging.asPrepareLoad a).run t s = .ok (r, s')
  | .asCopy old p f junk => ∃ r, (Os161Paging.asCopy old p f junk).run t s = .ok (r, s')
  | .vmFault ty fa => ∃ r, (Os161Paging.vmFault ty fa).run t s = .ok (r, s')

/-- The states in which the call keeps no lock. -/
def Clean (s : Sys) : LockingCall → Prop
  | .getPage _ _ as =>
      ¬ (s.coremapActive = true ∧ firstFree s.coremap = none ∧ as = none)
  | .getMultiplePages .. => True
  | .freepages _ => True
  | .swapIn .. => ¬ s.NextReadFails
  | .swapOut .. => s.used ≠ s.swapFileSize
  | .asPrepareLoad a =>
      s.world.kmalloc s.kmallocs = false ∨
        s.coremapActive = true ∧ s.TableFits (s.pagesToPrepare a)
  | .asCopy old p f _ =>
      (p = none ∨ f = none ∨ s.world.kmalloc s.kmallocs = false) ∨
        ∃ o n, s.as old = some o ∧ o.npages = some n ∧
          { s with kmallocs := s.kmallocs + 1 }.KmallocsSucceed o.asSegment.length ∧
          s.CopyGoesThrough o n
  | .vmFault ty fa =>
      ¬ ((ty = .read ∨ ty = .write) ∧ s.NextReadFails ∧
        ∃ e, s.faultEntry fa = some e ∧ e.inMem = false ∧ e.inSwap = true)

end LockingCall

theorem getPage_balanced {isReserved : Bool} {v p : Nat} {as : Option AsId}
    (h : (getPage isReserved v as).run t s = .ok (p, s')) :
    Balanced t s s' ↔ ¬ (s.coremapActive = true ∧ firstFree s.coremap = none ∧ as = none) := by
  obtain ⟨hfree, ho⟩ := getPage_owner h
  by_cases hc : s.coremapActive = true ∧ firstFree s.coremap = none ∧ as = none
  · rw [if_pos hc] at ho
    refine iff_of_false (not_balanced_of_update hfree ?_) (not_not.mpr hc)
    rw [ho, Function.update_self]
  · rw [if_neg hc] at ho
    exact iff_of_true (balanced_of_owner ho) hc

theorem swapIn_balanced {p : Nat} {toRemove : Bool} {r : Option Errno}
    (h : (swapIn a j p toRemove).run t s = .ok (r, s')) :
    Balanced t s s' ↔ ¬ s.NextReadFails := by
  obtain ⟨hfree, rfl, -, ho⟩ := swapIn_owner h
  by_cases hc : s.world.swapRead s.swapReads = none
  · rw [if_pos hc] at ho
    exact iff_of_true (balanced_of_owner ho) (not_not.mpr hc)
  · rw [if_neg hc] at ho
    refine iff_of_false (not_balanced_of_update hfree ?_) (not_not.mpr hc)
    rw [ho, Function.update_self]

theorem swapOut_balanced {r : Option Errno} (h : (swapOut a j).run t s = .ok (r, s')) :
    Balanced t s s' ↔ s.used ≠ s.swapFileSize := by
  obtain ⟨hfree, ⟨hu, -, rfl⟩ | ⟨hu, ho⟩⟩ := swapOut_owner h
  · exact iff_of_false (not_balanced_of_update hfree Sys.take_owner_self) (not_not.mpr hu)
  · exact iff_of_true (balanced_of_owner ho) hu

/-- **Lock balance.** A call that returns leaves its caller with the locks held on
entry exactly in the states that `Clean` describes. -/
theorem lockingCall_balanced_iff {c : LockingCall} (hgeo : s.coremapActive = true → s.Geometry)
    (h : c.Returns t s s') : Balanced t s s' ↔ c.Clean s := by
  cases c with
  | getPage isReserved vaddr as =>
      obtain ⟨r, h⟩ := h
      exact getPage_balanced h
  | getMultiplePages npages isReserved as =>
      obtain ⟨r, h⟩ := h
      exact iff_of_true (balanced_of_owner (getMultiplePages_leaves_owner _ _ _ h)) trivial
  | freepages paddr =>
      obtain ⟨r, h⟩ := h
      exact iff_of_true (balanced_of_owner (freepages_leaves_owner _ _ _ h)) trivial
  | swapIn a j ramPaddr toRemove =>
      obtain ⟨r, h⟩ := h
      exact swapIn_balanced h
  | swapOut a j =>
      obtain ⟨r, h⟩ := h
      exact swapOut_balanced h
  | asPrepareLoad a =>
      obtain ⟨r, h⟩ := h
      exact asPrepareLoad_balanced hgeo h
  | asCopy old p f junk =>
      obtain ⟨r, h⟩ := h
      exact asCopy_balanced hgeo h
  | vmFault ty fa =>
      obtain ⟨r, h⟩ := h
      exact vmFault_balanced h

theorem oneFrame_getPage_balanced_iff :
    Balanced .kernel oneFrame (oneFrame.claim 0 false 0 none) ↔
      (LockingCall.getPage false 0 none).Clean oneFrame :=
  lockingCall_balanced_iff (c := .getPage false 0 none) (fun _ => oneFrame_geometry)
    ⟨_, getPage_run_some rfl rfl (by decide)⟩

/-- The machine with a single frame, one page of whose only program is in slot 0
of a swap file that can no longer be read. -/
def brokenSwap : Sys :=
  { oneFrame with
    world := { World.calm with swapRead := fun _ => some (.dev 5) }
    swapMap := [true, false, false, false]
    as := fun _ => some ⟨some 4096, [⟨0, 0x400000, false, true, 6⟩], [], ⟨0, fun _ => 0⟩, some 1⟩ }

/-- `swap_in` returns the error of the device and `swap_lock` stays locked. -/
theorem brokenSwap_swapIn_keeps_lock :
    ∃ s', (LockingCall.swapIn 0 0 8192 true).Returns (.proc 0) brokenSwap s' ∧
      ¬ Balanced (.proc 0) brokenSwap s' :=
  ⟨(brokenSwap.take (.proc 0) .swap).readSwap 0 8192 pageSize, ⟨some (.dev 5), rfl⟩,
    not_balanced_of_update (l := .swap) rfl rfl⟩

end Os161Paging
