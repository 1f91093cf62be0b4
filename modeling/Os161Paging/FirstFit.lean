import Os161Paging.Frames

/-!
# The search for a run of frames

`getMultiplePages` looks for `npages` consecutive free entries with a single
index `first` that it moves when a free entry follows one in use. That what it
returns is such a run is shown with the two searches; here, that it misses
none and returns the lowest one, and what it does to the entries.
-/

namespace Os161Paging

open Prog

variable {cm : List CEntry} {npages first : Nat} {s s' : Sys} {t : Tid}

/-- The entries `first`, …, `first + npages - 1` exist and are free. -/
def FreeRun (cm : List CEntry) (npages first : Nat) : Prop :=
  ∀ j, first ≤ j → j < first + npages → freeAt cm j = true

/-- No run of `npages` free entries starts below this one. -/
structure FirstRun (cm : List CEntry) (npages first : Nat) : Prop where
  free : FreeRun cm npages first
  lowest : ∀ k, FreeRun cm npages k → first ≤ k

/-- The loop does not pass a run: as long as it has not come to the end of the
run at `k`, it either is before it or has `first` at its start or below. -/
theorem multiScan_le {n i k : Nat} (hn : 0 < npages) (hk : FreeRun cm npages k)
    (hlen : cm.length ≤ i + n) (hle : first ≤ i) (hi : i < k + npages) (hfirst : k < i → first ≤ k) :
    ∃ r ≤ k, multiScan cm npages n i first = some r := by
  induction n generalizing i first with
  | zero =>
      have hlast := freeAt_lt (hk (k + npages - 1) (by omega) (by omega))
      omega
  | succ n ih =>
      rw [multiScan]
      by_cases hfree : freeAt cm i = true
      · rw [if_pos hfree]
        simp only
        set first' := if i = 0 ∨ ¬ freeAt cm (i - 1) then i else first with hdef
        have hle' : first' ≤ i := by
          rw [hdef]
          split <;> omega
        have hstart : k ≤ i → first' ≤ k := by
          intro hki
          rcases Nat.eq_or_lt_of_le hki with rfl | hlt
          · exact hle'
          · -- inside of the run the entry before is free, and `first` stays
            have hprev : freeAt cm (i - 1) = true := hk (i - 1) (by omega) (by omega)
            have hkeep : first' = first := by
              rw [hdef, if_neg]
              rw [not_or, not_not]
              exact ⟨by omega, hprev⟩
            exact hkeep ▸ hfirst hlt
        by_cases hfound : i - first' + 1 ≥ npages
        · rw [if_pos hfound]
          exact ⟨first', by omega, rfl⟩
        · rw [if_neg hfound]
          exact ih (by omega) (by omega) (by omega) fun h => hstart (by omega)
      · rw [if_neg hfree]
        have hbefore : i < k := by
          by_contra hge
          exact hfree (hk i (by omega) hi)
        exact ih (by omega) (by omega) (by omega) (by omega)

/-- The search of `getMultiplePages` is complete and finds the lowest run. -/
theorem multiScan_eq_some_iff (hn : 0 < npages) :
    multiScan cm npages cm.length 0 0 = some first ↔ FirstRun cm npages first := by
  have hscan : ∀ k, FreeRun cm npages k → ∃ r ≤ k, multiScan cm npages cm.length 0 0 = some r :=
    fun k hk => multiScan_le hn hk (by omega) (Nat.le_refl 0) (by omega) (by omega)
  constructor
  · intro h
    refine ⟨multiScan_free h (Nat.le_refl 0) (by omega), fun k hk => ?_⟩
    obtain ⟨r, hr, hfound⟩ := hscan k hk
    obtain rfl := Option.some.inj (h.symm.trans hfound)
    exact hr
  · intro h
    obtain ⟨r, hr, hfound⟩ := hscan first h.free
    have hge := h.lowest r (multiScan_free hfound (Nat.le_refl 0) (by omega))
    rw [hfound, Nat.le_antisymm hr hge]

theorem multiScan_eq_none_iff (hn : 0 < npages) :
    multiScan cm npages cm.length 0 0 = none ↔ ∀ k, ¬ FreeRun cm npages k := by
  constructor
  · intro h k hk
    obtain ⟨r, -, hfound⟩ := multiScan_le hn hk (n := cm.length) (i := 0) (by omega) (Nat.le_refl 0)
      (by omega) (by omega)
    rw [h] at hfound
    cases hfound
  · intro h
    cases hfound : multiScan cm npages cm.length 0 0 with
    | none => rfl
    | some r => exact (h r ((multiScan_eq_some_iff hn).mp hfound).free).elim

/-- The entries of the run at `first` are marked used, for `as` or reserved, the
first of them with the length of the run; nothing else changes. -/
structure MarksRun (s s' : Sys) (npages first : Nat) (isReserved : Bool) (as : Option AsId) :
    Prop where
  marked : ∀ j, first ≤ j → j < first + npages → ∃ e e',
    s.coremap[j]? = some e ∧ s'.coremap[j]? = some e' ∧ e'.cused = true ∧
      e'.reserved = isReserved ∧ e'.as = (if isReserved then none else as) ∧
      e'.allocpages = if j = first then npages else e.allocpages
  entries : ∀ j, ¬ (first ≤ j ∧ j < first + npages) → s'.coremap[j]? = s.coremap[j]?
  others : s' = { s with coremap := s'.coremap }

/-- The address of a page in the kernel's window has no flag bits. -/
theorem paddrToKvaddr_frameAddr_testBit (hal : s.firstpaddr % pageSize = 0) (i : Nat) :
    (paddrToKvaddr (s.frameAddr i)).testBit 0 = false := by
  have heven : paddrToKvaddr (s.frameAddr i) % 2 = 0 := by
    simp only [pageSize_eq] at hal
    simp only [paddrToKvaddr, Sys.frameAddr, wrap, kseg0, pageSize_eq]
    omega
  simp [Nat.testBit_zero, heven]

theorem takeRun_getElem {isReserved : Bool} {as : Option AsId} {j : Nat} {e : CEntry}
    (hj : first ≤ j ∧ j < first + npages) (he : s.coremap[j]? = some e) :
    (s.takeRun first npages isReserved as).coremap[j]? =
      some ((if j = first then { e with allocpages := npages } else e).set
        (paddrToKvaddr (s.frameAddr j)) isReserved as) := by
  simp only [Sys.takeRun, modifyRange_getElem, if_pos hj, List.getElem?_modify, he]
  by_cases hjf : j = first
  · simp [hjf]
  · simp [hjf, Ne.symm hjf]

theorem marksRun_takeRun {isReserved : Bool} {as : Option AsId} (hn : 0 < npages)
    (hal : s.firstpaddr % pageSize = 0) (hfree : FreeRun s.coremap npages first) :
    MarksRun s (s.takeRun first npages isReserved as) npages first isReserved as where
  marked j hj hlt := by
    obtain ⟨e, he, -⟩ := freeAt_eq_true.mp (hfree j hj hlt)
    refine ⟨e, _, he, takeRun_getElem ⟨hj, hlt⟩ he, CEntry.set_cused .., ?_,
      CEntry.set_as .., ?_⟩
    · simp [paddrToKvaddr_frameAddr_testBit hal j]
    · rw [CEntry.set_allocpages]
      split <;> rfl
  entries j hj := by
    have hjf : first ≠ j := by omega
    simp [Sys.takeRun, modifyRange_getElem, hj, hjf]
  others := rfl

/-- **`getMultiplePages` is a complete first-fit search**: on every active
coremap it panics exactly if there is no run of `npages` free entries, and
otherwise returns the address of the lowest one and marks its entries. -/
theorem getMultiplePages_firstFit {isReserved : Bool} {as : Option AsId} (hn : 0 < npages)
    (hact : s.coremapActive = true) (hal : s.firstpaddr % pageSize = 0)
    (hl : s.owner .coremap = none) :
    ((∃ m, (getMultiplePages npages isReserved as).run t s = .panic m) ↔
        ∀ k, ¬ FreeRun s.coremap npages k) ∧
      ((∃ k, FreeRun s.coremap npages k) → ∃ first s', FirstRun s.coremap npages first ∧
        (getMultiplePages npages isReserved as).run t s = .ok (s.frameAddr first, s') ∧
        MarksRun s s' npages first isReserved as) := by
  cases hscan : multiScan s.coremap npages s.coremap.length 0 0 with
  | none =>
      have hno := (multiScan_eq_none_iff hn).mp hscan
      exact ⟨iff_of_true ⟨_, getMultiplePages_run_none hact hl hscan⟩ hno,
        fun ⟨k, hk⟩ => (hno k hk).elim⟩
  | some first =>
      have hfirst := (multiScan_eq_some_iff hn).mp hscan
      have hrun : (getMultiplePages npages isReserved as).run t s = .ok (s.frameAddr first, _) :=
        getMultiplePages_run_some hact hl hscan
      refine ⟨iff_of_false ?_ fun hno => hno first hfirst.free, fun _ => ⟨first, _, hfirst, hrun,
        marksRun_takeRun hn hal hfirst.free⟩⟩
      rintro ⟨m, hm⟩
      rw [hrun] at hm
      cases hm

/-- A machine with four frames, of which the second is in use. -/
def holed : Sys :=
  (boot .calm (fun _ => 0) (fun _ => 0) (6 * pageSize) pageSize 0).claim 1 false 0 none

theorem holed_firstRun : FreeRun holed.coremap 2 2 := by
  intro j hj hlt
  obtain rfl | rfl : j = 2 ∨ j = 3 := by omega
  · decide
  · decide

theorem getMultiplePages_firstFit_holed :
    ∃ first s', FirstRun holed.coremap 2 first ∧
      (getMultiplePages 2 true none).run .kernel holed = .ok (holed.frameAddr first, s') ∧
      MarksRun holed s' 2 first true none :=
  (getMultiplePages_firstFit (by decide) rfl (by decide) rfl).2 ⟨2, holed_firstRun⟩

end Os161Paging
