import Os161Paging.Balance
import Os161Paging.Holdings
import Os161Paging.Processes
import Os161Paging.Translations

/-!
# Sleeping with a spinlock held

A thread that goes to sleep on a sleep lock must not hold `coremap_lock`:
`wchan_sleep` asserts that the spinlock of the wait channel is the only one
held. There is one place in which a fault asks for a sleep lock inside of
the allocator, the call of `getAvailableSwap` in `getPage` once no frame is
free. In every run of the machine, a thread about to sleep, for a lock or
for a device, holds no spinlock, unless it is there and another thread holds
`swap_lock`.

The argument follows one thread at a time. A thread sees whether it is
outside of `coremap_lock`, inside, or inside with no frame free; nobody else
can change that.
-/

namespace Os161Paging

open Prog
open Views.Triple (andThen)

/-! ## The instance -/

/-- Where a thread is with respect to `coremap_lock`. -/
inductive Hold where
  | outside
  | inside
  | full
deriving DecidableEq

/-- The thread `t` is in the allocator, no frame is free and another thread has the
swap file. -/
def Crowded (t : Tid) (s : Sys) : Prop :=
  s.owner .coremap = some t ∧ firstFree s.coremap = none ∧ ∃ u, u ≠ t ∧ s.owner .swap = some u

/-- How often a device has been asked to transfer something. -/
def Sys.transfers (s : Sys) : Nat × Nat × Nat := (s.swapReads, s.swapWrites, s.elfReads)

/-- What is remembered of the state before an action. -/
structure Watch where
  transfers : Nat × Nat × Nat
  holder : Option Tid

def Sys.watch (s : Sys) : Watch := ⟨s.transfers, s.owner .coremap⟩

/-- The logic of `coremap_lock`. A thread that holds it waits for a sleep lock only
where it is crowded, and never for a device. -/
def allocator : Views Tid Tid Sys Lock Watch Hold where
  inv g s := g = s.watch ∧ s.owner .stealmem = none
  sees t v _ s := match v with
    | .outside => s.owner .coremap ≠ some t
    | .inside => s.owner .coremap = some t
    | .full => s.owner .coremap = some t ∧ firstFree s.coremap = none
  law g s _ := s.transfers ≠ g.transfers → ∀ t : Tid, s.cur = t.as → g.holder ≠ some t
  stops t s o := ∀ l, o = .wait l → l.isSpin = false → s.owner .coremap = some t → Crowded t s

abbrev Holds (t : Tid) {α : Type} (v : Hold) (p : VM α) (Φ : α → Hold → Prop) : Prop :=
  allocator.Triple ⟨t, t, (·.cur = t.as)⟩ v p Φ

structure Aside (s s' : Sys) : Prop where
  cur : s'.cur = s.cur
  coremap : s'.coremap = s.coremap
  spin : ∀ l, l.isSpin = true → s'.owner l = s.owner l

variable {t u : Tid} {α : Type} {v : Hold} {p : VM α} {s s' : Sys} {a : AsId} {i j : Nat}
  {g g' : Watch}

theorem Tid.as_inj (h : t.as = u.as) : t = u := by
  cases t with
  | kernel =>
      cases u with
      | kernel => rfl
      | proc b => cases h
  | proc a =>
      cases u with
      | kernel => cases h
      | proc b =>
          cases h
          rfl

theorem Aside.sees (h : Aside s s') (hs : allocator.sees u v g s) : allocator.sees u v g' s' := by
  cases v with
  | outside => exact (h.spin .coremap rfl).trans_ne hs
  | inside => exact (h.spin .coremap rfl).trans hs
  | full => exact ⟨(h.spin .coremap rfl).trans hs.1, by rw [h.coremap]; exact hs.2⟩

theorem idle_aside : Idle Aside where
  refl _ := ⟨rfl, rfl, fun _ _ => rfl⟩
  sleepLock s l x hl := by
    refine ⟨rfl, rfl, fun l' hl' => Function.update_of_ne ?_ ..⟩
    rintro rfl
    rw [hl] at hl'
    cases hl'
  counters _ _ := ⟨rfl, rfl, fun _ _ => rfl⟩
  slots _ _ _ := ⟨rfl, rfl, fun _ _ => rfl⟩
  contents _ _ _ _ _ _ := ⟨rfl, rfl, fun _ _ => rfl⟩

/-- While the lock is free or in the hands of `t`, other threads are outside. -/
theorem sees_of_owner (hu : u ≠ t) (h : s.owner .coremap = none ∨ s.owner .coremap = some t)
    (h' : s'.owner .coremap = none ∨ s'.owner .coremap = some t)
    (hs : allocator.sees u v g s) : allocator.sees u v g' s' := by
  have hne : ∀ s : Sys, s.owner .coremap = none ∨ s.owner .coremap = some t →
      s.owner .coremap ≠ some u := by
    rintro s (hn | ht) heq
    · rw [hn] at heq
      cases heq
    · exact hu (Option.some.inj (heq.symm.trans ht))
  cases v with
  | outside => exact hne s' h'
  | inside => exact absurd hs (hne s h)
  | full => exact absurd hs.1 (hne s h)

theorem stops_of_ne {o : Outcome Lock Empty} (h : ∀ l, o ≠ .wait l) : allocator.stops t s o :=
  fun l hl => absurd hl (h l)

namespace Holds

/-! ## Single actions -/

/-- Outside of the allocator a thread may wait for what it likes. -/
theorem aside (hp : p.Steps Aside t) : Holds t .outside p fun _ v' => v' = .outside := by
  refine .unnoticed (fun g s s' h hi hs hc => ⟨h.cur.trans hc, s'.watch, fun _ u hu => ?_,
    ⟨rfl, (h.spin .stealmem rfl).trans hi.2⟩, fun _ _ => h.sees⟩)
    (fun _ _ _ hs _ _ _ ho => absurd ho hs) hp
  obtain rfl := Tid.as_inj (hu.symm.trans (h.cur.trans hc))
  rw [hi.1]
  exact hs

theorem take {m : String} : Holds t .outside (grab .coremap m) fun _ v' => v' = .inside := by
  refine Views.Triple.action (isAction_exec _) fun g s hi hs hc =>
    ⟨.of_all fun o l _ _ ho => absurd ho hs, fun x s' h => ?_⟩
  obtain ⟨hfree, rfl⟩ := grab_eq_ok.mp h
  obtain ⟨rfl, hsteal⟩ := hi
  exact ⟨hc, _, .inside, fun hne => absurd rfl hne,
    ⟨⟨rfl, (Sys.take_owner_of_ne (by simp)).trans hsteal⟩, fun u hu _ =>
      sees_of_owner hu (.inl hfree) (.inr Sys.take_owner_self)⟩, Sys.take_owner_self, rfl⟩

/-- What an action of a thread inside must not do: switch, transfer anything, or hand
the lock to somebody else. -/
structure Confined (t : Tid) (s s' : Sys) : Prop where
  cur : s'.cur = s.cur
  transfers : s'.transfers = s.transfers
  stealmem : s'.owner .stealmem = s.owner .stealmem
  coremap : s'.owner .coremap = none ∨ s'.owner .coremap = some t

theorem owner_of_sees (hv : v ≠ .outside) (hs : allocator.sees t v g s) :
    s.owner .coremap = some t := by
  cases v with
  | outside => exact absurd rfl hv
  | inside => exact hs
  | full => exact hs.1

theorem within {w : α → Hold} (hv : v ≠ .outside) (hp : p.IsAction)
    (h : ∀ s, allocator.sees t v s.watch s → (p.run t s).StopsIn (allocator.stops t s) ∧
      ∀ x s', p.run t s = .ok (x, s') →
        Confined t s s' ∧ allocator.sees t (w x) s'.watch s') :
    Holds t v p fun x v' => v' = w x := by
  refine .action hp fun g s hi hs hc => ?_
  obtain ⟨rfl, hsteal⟩ := hi
  obtain ⟨hstops, h⟩ := h s hs
  refine ⟨hstops, fun x s' hrun => ?_⟩
  obtain ⟨hconf, hs'⟩ := h x s' hrun
  exact ⟨hconf.cur.trans hc, s'.watch, w x, fun hne => absurd hconf.transfers hne,
    ⟨⟨rfl, hconf.stealmem.trans hsteal⟩, fun u hu _ =>
      sees_of_owner hu (.inr (owner_of_sees hv hs)) hconf.coremap⟩, hs', rfl⟩

theorem give {m : String} (hv : v ≠ .outside) :
    Holds t v (letGo .coremap m) fun _ v' => v' = .outside := by
  refine within (w := fun _ => .outside) hv (isAction_exec _) fun s _ => ⟨?_, fun x s' h => ?_⟩
  · rw [letGo, run_exec]
    split
    · trivial
    · exact stops_of_ne (by simp)
  · obtain ⟨-, rfl⟩ := letGo_eq_ok.mp h
    have hnone : (s.drop .coremap).owner .coremap = none := Sys.drop_owner_self
    exact ⟨⟨rfl, rfl, Sys.drop_owner_of_ne (by simp), .inl hnone⟩, by simp [allocator]⟩

/-- An action inside that leaves the spinlocks alone and does not wait. -/
theorem inside {w : α → Hold} (hv : v ≠ .outside) (hp : p.IsAction)
    (hwait : ∀ s, (p.run t s).StopsIn fun o => ∀ l, o ≠ .wait l)
    (h : ∀ s x s', allocator.sees t v s.watch s → p.run t s = .ok (x, s') →
      s'.cur = s.cur ∧ s'.transfers = s.transfers ∧
      (∀ l, l.isSpin = true → s'.owner l = s.owner l) ∧
      (s'.owner .coremap = some t → allocator.sees t (w x) s'.watch s')) :
    Holds t v p fun x v' => v' = w x := by
  refine within hv hp fun s hs => ⟨(hwait s).mono fun o => stops_of_ne,
    fun x s' hrun => ?_⟩
  obtain ⟨hcur, htr, howner, hs'⟩ := h s x s' hs hrun
  have hheld : s'.owner .coremap = some t := (howner .coremap rfl).trans (owner_of_sees hv hs)
  exact ⟨⟨hcur, htr, howner .stealmem rfl, .inr hheld⟩, hs' hheld⟩

theorem gets {ρ : Type} {f : Sys → ρ} (hv : v ≠ .outside) :
    Holds t v (Prog.gets f) fun _ v' => v' = v := by
  refine inside (w := fun _ => v) hv (isAction_exec _) (fun s => trivial) fun s x s' hs h => ?_
  obtain ⟨-, rfl⟩ := gets_eq_ok.mp h
  exact ⟨rfl, rfl, fun _ _ => rfl, fun _ => hs⟩

/-! ## The allocator -/

/-- What the first loop of `getPage` tells the thread. -/
def found : Option Nat → Hold
  | some _ => .inside
  | none => .full

theorem claimFree {r : Bool} {fa : Nat} {x : Option AsId} :
    Holds t .inside (claimFree r fa x) fun i v' => v' = found i := by
  refine inside (by simp) (isAction_exec _) (fun s => ?_) fun s i s' hs h => ?_
  · rw [Os161Paging.claimFree, run_exec]
    split <;> trivial
  · obtain ⟨hi, rfl⟩ := claimFree_eq_ok.mp h
    cases i with
    | some i => exact ⟨rfl, rfl, fun _ _ => rfl, id⟩
    | none => exact ⟨rfl, rfl, fun _ _ => rfl, fun ho => ⟨ho, hi.symm⟩⟩

/-- **`getAvailableSwap` inside of the allocator**: the one place where a thread may wait
for a sleep lock with `coremap_lock` held. -/
theorem getAvailableSwap :
    Holds t .full getAvailableSwap fun _ v' => v' = .full := by
  refine andThen (within (w := fun _ => .full) (by simp) (isAction_exec _) fun s hs => ⟨?_, ?_⟩)
    fun _ => andThen (gets (by simp)) fun _ => andThen (inside (w := fun _ => .full) (by simp)
      (isAction_exec _) (fun s => ?_) fun s x s' hs h => ?_) fun _ => .pure rfl
  · rw [lockAcquire, grab, run_exec]
    split
    · trivial
    · next u hu =>
        split
        · exact stops_of_ne (by simp)
        · next hut => exact fun l _ _ _ => ⟨hs.1, hs.2, u, hut, hu⟩
  · intro x s' h
    obtain ⟨-, rfl⟩ := grab_eq_ok.mp h
    have hheld : (s.take t .swap).owner .coremap = some t :=
      (Sys.take_owner_of_ne (by simp)).trans hs.1
    exact ⟨⟨rfl, rfl, Sys.take_owner_of_ne (by simp), .inr hheld⟩, hheld, hs.2⟩
  · rw [lockRelease, letGo, run_exec]
    split
    · trivial
    · exact fun l => by simp
  · obtain ⟨-, rfl⟩ := letGo_eq_ok.mp h
    refine ⟨rfl, rfl, fun l hl => Sys.drop_owner_of_ne ?_, fun ho => ⟨ho, hs.2⟩⟩
    rintro rfl
    cases hl

theorem findVictim : Holds t .full (findVictim a) fun _ v' => v' = .full := by
  refine inside (w := fun _ => .full) (by simp) (isAction_exec _) (fun s => ?_) fun s x s' hs h => ?_
  · rw [Os161Paging.findVictim, run_exec]
    split
    · trivial
    · exact fun l => by simp
  · obtain ⟨next, -, rfl⟩ := findVictim_eq_ok.mp h
    exact ⟨rfl, rfl, fun _ _ => rfl, fun ho => ⟨ho, hs.2⟩⟩

/-! ## Outside of the allocator -/

theorem updPte {f : PtEntry → PtEntry} : (updPte a j f).Steps Aside t := by
  refine .action (isAction_exec _) fun s x s' h => ?_
  rw [(updPte_eq_ok.mp h).2]
  exact ⟨rfl, rfl, fun _ _ => rfl⟩

theorem swapOut : (swapOut a j).Steps Aside t := by
  refine .bind (idle_aside.grab rfl) fun _ => .bind (.gets idle_aside.refl) fun _ =>
    .ite (.pure _) (.bind idle_aside.bitmapAlloc fun slot => ?_)
  cases slot with
  | none => exact .bind (idle_aside.letGo rfl) fun _ => .pure _
  | some k =>
      exact .bind idle_aside.getPte fun _ => .bind idle_aside.vopWrite fun _ => .bind updPte fun _ =>
        .bind idle_aside.incUsed fun _ => .bind (idle_aside.letGo rfl) fun _ => .pure _

theorem swapIn {q : Nat} {b : Bool} : (swapIn a j q b).Steps Aside t := by
  refine .bind (idle_aside.grab rfl) fun _ => .bind idle_aside.getPte fun e =>
    .bind idle_aside.loadSegment_swap fun r => ?_
  cases r with
  | some err => exact .pure _
  | none =>
      exact .bind idle_aside.leaveSlot fun _ => .bind updPte fun _ =>
        .bind (idle_aside.letGo rfl) fun _ => .pure _

theorem saveVictim {w : Bool} : (saveVictim a j w).Steps Aside t := by
  refine .ite (.bind swapOut fun r => .bind ?_ fun _ => .bind idle_aside.vmStatsInc fun _ => updPte)
    updPte
  cases r with
  | none => exact .pure _
  | some err => exact .fail _

theorem evictFrom : (evictFrom a i).Steps Aside t := by
  refine .bind (.gets idle_aside.refl) fun _ => .bind idle_aside.findPaddr fun r => ?_
  cases r with
  | none => exact .pure _
  | some j =>
      refine .bind (.bind idle_aside.getPte fun e => .bind saveVictim fun _ =>
        .bind updPte fun _ => .modify fun s => ?_) fun _ => .pure _
      rw [Sys.tlbDrop]
      split <;> exact ⟨rfl, rfl, fun _ _ => rfl⟩

theorem tlbLoadentry {fa q : Nat} {ro : Bool} : (tlbLoadentry fa q ro).Steps Aside t := by
  refine .bind (.action (isAction_exec _) fun s x s' h => ?_) fun _ =>
    .bind idle_aside.vmStatsInc fun _ => .pure _
  obtain ⟨-, rfl⟩ := tlbLoad_eq_ok.mp h
  rw [tlbLoad]
  split <;> exact ⟨rfl, rfl, fun _ _ => rfl⟩

/-! ## Faults -/

/-- **`getPage`** for an address space leaves the allocator again. -/
theorem getPage {r : Bool} {fa : Nat} :
    Holds t .outside (getPage r fa (some a)) fun _ v' => v' = .outside := by
  refine .bind take ?_
  rintro _ _ rfl
  refine andThen (gets (by simp)) fun active => .ite (fun _ => .bind claimFree ?_) fun _ =>
    .bind (give (by simp)) ?_
  · rintro (_ | i) _ rfl
    · refine andThen getAvailableSwap fun avail => .ite (fun _ => ?_) fun _ => .fail fun _ => stops_of_ne (by simp)
      refine andThen findVictim fun i => .bind (give (by simp [found])) ?_
      rintro _ _ rfl
      exact andThen (aside (idle_aside.grab rfl)) fun _ => andThen (aside evictFrom) fun _ =>
        andThen (aside (idle_aside.letGo rfl)) fun _ => aside (.gets idle_aside.refl)
    · refine .bind (give (by simp [found])) ?_
      rintro _ _ rfl
      exact aside (.gets idle_aside.refl)
  · rintro _ _ rfl
    exact .pure rfl

theorem pageInSwap {fa : Nat} :
    Holds t .outside (pageInSwap a i fa) fun _ v' => v' = .outside :=
  andThen (aside (idle_aside.letGo rfl)) fun _ => andThen getPage fun _ => aside
    (.bind (idle_aside.grab rfl) fun _ => .bind swapIn fun _ => .bind updPte fun _ =>
      .bind idle_aside.vmStatsInc fun _ => idle_aside.vmStatsInc)

theorem pageInFresh {seg : Segment} {last : Bool} {fa : Nat} :
    Holds t .outside (pageInFresh a i seg last fa) fun _ v' => v' = .outside := by
  refine andThen (andThen (aside idle_aside.getPte) fun e => .ite (fun _ => ?_) fun _ => .pure rfl)
    fun _ => aside (.bind idle_aside.getPte fun e => .ite ?_ ?_)
  · exact andThen (aside (idle_aside.letGo rfl)) fun _ => andThen getPage fun _ =>
      aside (.bind updPte fun _ => idle_aside.grab rfl)
  · exact .bind (.modify fun s => idle_aside.contents s _ _ _ _ _) fun _ => idle_aside.vmStatsInc
  · exact .bind idle_aside.loadElfOndemand fun _ => .bind idle_aside.vmStatsInc fun _ =>
      idle_aside.vmStatsInc

theorem faultAt {seg : Segment} {last : Bool} {fa : Nat} :
    Holds t .outside (faultAt a i seg last fa) fun _ v' => v' = .outside := by
  refine andThen (andThen (aside idle_aside.getPte) fun e =>
    .ite (fun _ => aside idle_aside.vmStatsInc) fun _ =>
      andThen (.ite (fun _ => pageInSwap) fun _ => pageInFresh) fun _ => aside updPte) fun _ => ?_
  exact aside (.bind idle_aside.getPte fun e => .bind tlbLoadentry fun _ =>
    .bind (idle_aside.letGo rfl) fun _ => .pure _)

theorem vmFault {ty : FaultType} {fa : Nat} :
    Holds t .outside (vmFault ty fa) fun _ v' => v' = .outside := by
  refine andThen (aside idle_aside.vmStatsInc) fun _ =>
    andThen (aside (.gets idle_aside.refl)) fun x => ?_
  cases x with
  | none => exact .pure rfl
  | some a =>
      refine andThen (aside idle_aside.findSegment) fun seg =>
        andThen (aside (idle_aside.grab rfl)) fun _ => andThen (aside idle_aside.findPage) fun i => ?_
      cases i with
      | none => exact aside (.bind (idle_aside.letGo rfl) fun _ => .fail _)
      | some i =>
          cases ty with
          | readonly => exact aside (.bind (idle_aside.letGo rfl) fun _ => .fail _)
          | other c => exact aside (.bind (idle_aside.letGo rfl) fun _ => .pure _)
          | read => exact faultAt
          | write => exact faultAt

/-! ## Destruction -/

theorem freepages {paddr : Nat} :
    Holds t .outside (freepages paddr) fun _ v' => v' = .outside := by
  refine andThen (aside (.gets idle_aside.refl)) fun _ => .ite (fun _ => .pure rfl) fun _ =>
    .bind take ?_
  rintro _ _ rfl
  refine andThen (inside (w := fun _ => .inside) (by simp) (isAction_exec _) (fun s => ?_)
    fun s x s' _ h => ?_) fun _ => give (by simp)
  · rw [emptyBlock, run_exec]
    split
    · exact fun l => by simp
    · split
      · trivial
      · exact fun l => by simp
  · obtain ⟨e, -, -, rfl⟩ := emptyBlock_eq_ok.mp h
    exact ⟨rfl, rfl, fun _ _ => rfl, id⟩

theorem freeAs : Holds t .outside (freeAs a) fun _ v' => v' = .outside := by
  refine .bind take ?_
  rintro _ _ rfl
  refine andThen (inside (w := fun _ => .inside) (by simp) (isAction_exec _) (fun s => trivial)
    fun s x s' _ h => ?_) fun _ => give (by simp)
  rw [modify_eq_ok.mp h]
  exact ⟨rfl, rfl, fun _ _ => rfl, id⟩

theorem asDestroy : Holds t .outside (asDestroy a) fun _ v' => v' = .outside := by
  refine andThen (aside idle_aside.canSleep) fun _ => andThen (aside (idle_aside.grab rfl)) fun _ =>
    andThen (aside idle_aside.getAs) fun x => ?_
  split
  · exact aside (.action (isAction_exec _) nofun)
  · exact andThen (aside idle_aside.clearSlots) fun _ => andThen (aside (idle_aside.letGo rfl))
      fun _ => andThen freepages fun _ => andThen freeAs fun _ =>
        aside (.modify fun _ => ⟨rfl, rfl, fun _ _ => rfl⟩)

end Holds

namespace Processes

open Calls

/-! ## The machine -/

/-- Each thread follows the rules, and is outside of the allocator while it is not at
work. -/
def locking : Regime Tid Watch Hold where
  logic := allocator
  agent t _ := t
  calm _ v := v = .outside

abbrev Locking (m : Machine) : Prop := locking.Sound m.sys.watch m

variable {m m' : Machine}

/-- What a call that is taken as one step does to the allocator: the spinlocks are as
before, and the coremap is unless the lock was free. -/
structure Outside (s s' : Sys) : Prop where
  cur : s'.cur = s.cur
  spin : ∀ l, l.isSpin = true → s'.owner l = s.owner l
  coremap : s'.coremap = s.coremap ∨ s.owner .coremap = none

theorem Aside.outside (h : Aside s s') : Outside s s' := ⟨h.cur, h.spin, .inl h.coremap⟩

theorem Outside.sees (h : Outside s s') {v : Hold} (hs : allocator.sees u v g s) :
    allocator.sees u v g' s' := by
  rcases h.coremap with hcm | hfree
  · exact Aside.sees ⟨h.cur, hcm, h.spin⟩ hs
  · have hfree' := (h.spin .coremap rfl).trans hfree
    cases v with
    | outside =>
        intro ho
        rw [hfree'] at ho
        cases ho
    | inside => cases hfree.symm.trans hs
    | full => cases hfree.symm.trans hs.1

/-! ## Calls that are taken as one step -/

theorem getPages_owner {n : Int} {q : Nat} (hfree : firstFree s.coremap ≠ none)
    (h : (getPages n 0 none).run t s = .ok (q, s')) :
    s.owner .coremap = none ∧ s'.owner = s.owner := by
  rw [getPages] at h
  split at h
  · obtain ⟨_, _, h1, -⟩ := run_bind_eq_ok.mp h
    exact ⟨(spinlockAcquire_eq_ok.mp h1).1, getMultiplePages_leaves_owner _ _ _ h⟩
  · obtain ⟨hl, howner⟩ := getPage_owner h
    exact ⟨hl, howner.trans (if_neg fun hc => hfree hc.2.1)⟩

theorem allocKpages_outside {n q : Nat} (hfree : firstFree s.coremap ≠ none)
    (h : (allocKpages n).run t s = .ok (q, s')) : Outside s s' := by
  have hcur := (Maps.allocKpages.within .refl .trans _ _ _ h).cur
  obtain ⟨_, _, h1, h⟩ := run_bind_eq_ok.mp h
  rw [(canSleep_eq_ok.mp h1).2] at h
  obtain ⟨pa, s2, h2, h⟩ := run_bind_eq_ok.mp h
  obtain ⟨addr, s1, h1, h2⟩ := run_bind_eq_ok.mp h2
  obtain ⟨hl, howner⟩ := getPages_owner hfree h1
  have h2' : s2.owner = s1.owner := by
    split at h2
    · exact locked_leaves_owner (Leaves.gets _) _ _ _ h2
    · rw [(pure_eq_ok.mp h2).2]
  have h' : s'.owner = s2.owner := by
    split at h
    · rw [(pure_eq_ok.mp h).2]
    · rw [(pure_eq_ok.mp h).2]
  exact ⟨hcur, fun l _ => congrFun (h'.trans (h2'.trans howner)) l, .inr hl⟩

theorem freeKpages_outside {addr : Nat} {x : Unit} (h : (freeKpages addr).run t s = .ok (x, s')) :
    Outside s s' := by
  have hcur := (Maps.freeKpages.within .refl .trans _ _ _ h).cur
  have howner : s'.owner = s.owner := by
    obtain ⟨-, ⟨-, rfl⟩ | ⟨-, -, hfree⟩⟩ := freeKpages_eq_ok h
    · rfl
    · exact freepages_leaves_owner _ _ _ hfree
  exact ⟨hcur, fun l _ => congrFun howner l, .inr (freeKpages_eq_ok h).1⟩

theorem asPrepareLoad_outside {r : Option Errno} (hfree : firstFree s.coremap ≠ none)
    (h : (asPrepareLoad a).run t s = .ok (r, s')) : Outside s s' := by
  obtain ⟨-, rfl⟩ | ⟨x, loc, s2, hx, hpt, h2, hend⟩ := asPrepareLoad_cases h
  · exact ⟨rfl, fun _ _ => rfl, .inl rfl⟩
  have hspin : ∀ l : Lock, l.isSpin = true → l ≠ .pt a := by
    rintro _ hl rfl
    cases hl
  have hbefore : ∀ l, l.isSpin = true → (s.beforeTable t a x).owner l = s.owner l :=
    fun l hl => Function.update_of_ne (hspin l hl) ..
  have hcur : s2.cur = s.cur := (Maps.ptAlloc.within .refl .trans _ _ _ h2).cur
  obtain ⟨hl, hcases⟩ := ptAlloc_cases h2
  have howner : s2.owner = (s.beforeTable t a x).owner := by
    obtain ⟨-, -, rfl⟩ | ⟨-, -, first, -, -, rfl⟩ | ⟨-, -, i, -, -, rfl⟩ | ⟨-, -, hno, -, -⟩ := hcases
    · rfl
    · rfl
    · rfl
    · exact absurd hno hfree
  have hs2 : ∀ l, l.isSpin = true → s2.owner l = s.owner l := fun l hl =>
    (congrFun howner l).trans (hbefore l hl)
  have hlock : s.owner .coremap = none := (hbefore .coremap rfl).symm.trans hl
  obtain ⟨-, -, rfl⟩ | ⟨-, -, -, rfl⟩ := hend
  · exact ⟨hcur, hs2, .inr hlock⟩
  · exact ⟨hcur, fun l hl => (Sys.drop_owner_of_ne (hspin l hl)).trans (hs2 l hl), .inr hlock⟩

namespace Locking

theorem of_sound (h : locking.Sound g m) : Locking m := by
  obtain ⟨rfl, -⟩ := h.inv
  exact h

theorem acting_iff {t : Tid} : locking.Acting m t ↔ ∃ a p, m.job t = .work a p := by
  constructor
  · rintro ⟨_, a, p, hjob, rfl⟩
    exact ⟨a, p, hjob⟩
  · rintro ⟨a, p, hjob⟩
    exact ⟨t, a, p, hjob, rfl⟩

theorem not_acting (hfree : m.job t = .free) : ¬ locking.Acting m t := by
  rw [acting_iff]
  rintro ⟨a, p, hjob⟩
  rw [hfree] at hjob
  cases hjob

theorem outside {r : Record} {ks : List Nat} (hm : Locking m) (h : Outside m.sys s') :
    Locking { m with sys := s', kpages := ks, record := r } := by
  have hs := hm.scheduled
  have hinv : allocator.inv s'.watch s' := ⟨rfl, (h.spin .stealmem rfl).trans hm.inv.2⟩
  exact hm.pass ⟨h.cur.trans hs.cur, hs.present, hs.kthread, hs.apart, hs.tended⟩ hinv
    (fun _ _ _ => Iff.rfl) fun u => .inl ⟨fun _ => hinv, fun v => h.sees⟩

theorem call {call : Call} {c : Config} (hm : Locking m) (hadmits : m.Admits call)
    (hcall : perform m.running ⟨m.sys, m.kpages⟩ call = some c) :
    Locking { m.put c.sys with kpages := c.kpages } := by
  cases performed hcall with
  | switch _ => exact hadmits.elim
  | create h =>
      obtain ⟨-, -, k, rfl⟩ | ⟨a, v, -, -, -, -, -, rfl⟩ := asCreate_cases h
      · exact hm.outside ⟨rfl, fun _ _ => rfl, .inl rfl⟩
      · exact hm.outside ⟨rfl, fun _ _ => rfl, .inl rfl⟩
  | define _ _ h =>
      obtain ⟨-, -, rfl⟩ | ⟨-, -, x, -, rfl⟩ := asDefineRegion_cases h
      · exact hm.outside ⟨rfl, fun _ _ => rfl, .inl rfl⟩
      · exact hm.outside ⟨rfl, fun _ _ => rfl, .inl rfl⟩
  | prepare _ hfree h => exact hm.outside (asPrepareLoad_outside hfree h)
  | fault _ _ _ => exact hadmits.elim
  | destroy _ _ => exact hadmits.elim
  | alloc hfree h => exact hm.outside (allocKpages_outside hfree h)
  | free _ h => exact hm.outside (freeKpages_outside h)

/-! ## Threads -/

theorem activate_rely (hi : allocator.inv g s) (x : Option AsId) :
    locking.logic.inv g (s.activate x) ∧ ∀ u, locking.logic.Rely u g s g (s.activate x) := by
  cases x with
  | none => exact ⟨hi, fun u => ⟨fun _ => hi, fun v hv => hv⟩⟩
  | some a => exact ⟨hi, fun u => ⟨fun _ => hi, fun v hv => hv⟩⟩

/-- The running thread begins something that leaves the allocator again. -/
theorem begins {p : VM Unit} (hm : Locking m) (hfree : m.job m.running = .free)
    (hs : ¬ m.Served a) (htended : m.running = .proc a ∨ m.job (.proc a) = .absent)
    (hp : Holds m.running .outside p fun _ v' => v' = .outside) :
    Locking (m.doing m.running (.work a p)) := by
  obtain ⟨-, _, hv, rfl⟩ := hm.rest m.running (not_acting hfree)
  exact hm.begin hfree (not_acting hfree) hs htended (hp _ m.sys hm.inv hv)

/-- **Every step of the machine keeps it.** -/
theorem step (hm : Locking m) (hs : Step m m') : Locking m' := by
  have hact := fun x => activate_rely hm.inv x
  cases hs with
  | switch hjob _ => exact of_sound (Regime.Sound.switch hm hact hjob)
  | start _ _ hbusy _ => exact of_sound (Regime.Sound.start hm hact hbusy)
  | exit _ hfree _ => exact of_sound (Regime.Sound.exit hm hact hfree)
  | call _ hadmits hcall => exact hm.call hadmits hcall
  | background => exact hm.outside ⟨rfl, fun _ _ => rfl, .inl rfl⟩
  | store x _ _ _ => exact hm.outside ⟨rfl, fun _ _ => rfl, .inl rfl⟩
  | miss hu _ =>
      obtain ⟨hrun, hfree, -⟩ := hu
      have hs := hm.scheduled.not_served hfree
      rw [← hrun] at hfree ⊢
      refine hm.begins hfree hs (.inl hrun) (.bind Holds.vmFault ?_)
      rintro _ _ rfl
      exact .pure rfl
  | destroy hfree hbusy _ =>
      exact hm.begins hfree (fun hs => hbusy (.inr hs))
        (.inr (not_not.mp fun h => hbusy (.inl h))) Holds.asDestroy
  | act hjob hf =>
      obtain ⟨_, -, hsound⟩ := Regime.Sound.act hm hjob hf
      exact of_sound hsound
  | done hjob => exact hm.done hjob

end Locking

/-! ## Runs -/

def unlocked : Transitions Machine := machine.restrict fun m => ∀ l, m.sys.owner l = none

theorem locking_of_reachable (h : unlocked.Reachable m) : Locking m := by
  refine h.invariant (I := Locking) ?_ fun m m' hm hs => hm.step hs
  rintro m ⟨hstart, hfree⟩
  have hinv : allocator.inv m.sys.watch m.sys := ⟨rfl, hfree .stealmem⟩
  refine .of_start hstart hinv fun t => ⟨hinv, .outside, ?_, rfl⟩
  intro howner
  rw [hfree] at howner
  cases howner

/-- The running thread is about to sleep in `P`: for a sleep lock that another thread has,
or in the driver of a device. -/
inductive Sleeps (m : Machine) : Prop where
  | lock {a : AsId} {ρ : Type} {f : Tid → Sys → Outcome Lock (ρ × Sys)} {k : ρ → VM Unit} {l : Lock}
      (hjob : m.job m.running = .work a (.act f k)) (hf : f m.running m.sys = .wait l)
      (hl : l.isSpin = false)
  | device {a : AsId} {ρ : Type} {f : Tid → Sys → Outcome Lock (ρ × Sys)} {k : ρ → VM Unit} {x : ρ}
      {s : Sys} (hjob : m.job m.running = .work a (.act f k))
      (hf : f m.running m.sys = .ok (x, s)) (htransfer : s.transfers ≠ m.sys.transfers)

/-- Wherever a thread may sleep, it holds `coremap_lock` only if it is crowded. -/
theorem crowded_of_sleeps (h : unlocked.Reachable m) (hs : Sleeps m)
    (howner : m.sys.owner .coremap = some m.running) : Crowded m.running m.sys := by
  have hm := locking_of_reachable h
  have hcur := hm.scheduled.cur
  cases hs with
  | @lock a ρ f k l hjob hf hl =>
      have hstops : (f m.running m.sys).StopsIn (allocator.stops m.running m.sys) :=
        (hm.working _ _ _ hjob _ m.sys (.refl ..) hcur).1
      rw [hf] at hstops
      exact hstops l rfl hl howner
  | @device a ρ f k x s hjob hf htransfer =>
      obtain ⟨hcur', _, hlaw, -⟩ := (hm.working _ _ _ hjob _ m.sys (.refl ..) hcur).2 x s hf
      exact absurd howner (hlaw htransfer m.running hcur')

/-- **Who goes to sleep holds no spinlock**, in every run and wherever it may sleep, exactly
if the thread is not in the allocator with no frame free while another thread has the swap
file. -/
theorem sleeps_without_spinlock_iff (h : unlocked.Reachable m) (hs : Sleeps m) :
    m.sys.spinning m.running = false ↔ ¬ Crowded m.running m.sys := by
  have hsteal : m.sys.owner .stealmem = none := (locking_of_reachable h).inv.2
  rw [Sys.spinning, hsteal]
  constructor
  · rintro hspin ⟨howner, -⟩
    simp [howner] at hspin
  · intro hcrowded
    by_contra hspin
    exact hcrowded (crowded_of_sleeps h hs (by simpa using hspin))

/-! ## Two programs on the machine with three frames -/

/-- Two programs have been started; their page tables leave one frame. -/
def twoPrograms : Option Config :=
  (launch .kernel 0 (threeFrames .calm 4)).bind (launch (.proc 0) 1)

def bothFree : Tid → Job :=
  Function.update (Function.update atBoot (.proc 0) .free) (.proc 1) .free

theorem twoPrograms_at {c : Config} (h : twoPrograms = some c) :
    At unlocked c (.proc 1) bothFree := by
  obtain ⟨c1, h1, h⟩ := Option.bind_eq_some_iff.mp h
  have hboot : At unlocked (threeFrames .calm 4) .kernel atBoot :=
    ⟨_, .init ⟨start_atBoot (threeFrames_start .calm 4 fun _ => rfl).1, fun _ => rfl⟩⟩
  obtain ⟨hat, -⟩ := hboot.launch (C := fun _ _ => True) (fun _ _ hs _ => hs) rfl atBoot_idle rfl
    (fun _ _ _ => trivial) h1
  have hidle : ∀ u a p, Function.update atBoot (.proc 0) .free u ≠ .work a p := by
    intro u a p
    by_cases hu : u = .proc 0
    · rw [hu, Function.update_self]
      simp
    · rw [Function.update_of_ne hu]
      exact atBoot_idle u a p
  exact (hat.launch (C := fun _ _ => True) (fun _ _ hs _ => hs) (Function.update_self ..) hidle
    (Function.update_of_ne (by simp) ..) (fun _ _ _ => trivial) h).1

def switchTo (a : AsId) (c : Config) : Config := { c with sys := c.sys.activate (some a) }

/-- The first `n` actions of a fault of `a`, and what is left of it. -/
def interrupted (a : AsId) (va n : Nat) (c : Config) : Option (VM Unit × Config) :=
  if hasTable c.sys a && allowed c (.fault .write va) then
    ((vmFault .write va >>= fun _ => pure ()).advance (.proc a) n c.sys).map fun r =>
      (r.1, { c with sys := r.2 })
  else none

theorem interrupted_at {c c' : Config} {va n : Nat} {job : Tid → Job} {p : VM Unit}
    (h : At unlocked c (.proc a) job) (hfree : job (.proc a) = .free)
    (hi : interrupted a va n c = some (p, c')) :
    At unlocked c' (.proc a) (Function.update job (.proc a) (.work a p)) := by
  obtain ⟨hc, hi⟩ := Option.ite_none_right_eq_some.mp hi
  obtain ⟨htab, hmiss⟩ := Bool.and_eq_true_iff.mp hc
  obtain ⟨⟨p', s'⟩, hadv, hr⟩ := Option.map_eq_some_iff.mp hi
  cases hr
  exact (h.miss (C := fun _ _ => True) (fun _ _ hs _ => hs) hfree htab hmiss trivial).advance
    (C := fun _ _ => True) (fun _ _ hs _ => hs) hadv fun _ => trivial

def waitsFor (t : Tid) (s : Sys) : VM Unit → Option Lock
  | .ret _ => none
  | .act f _ =>
      match f t s with
      | .wait l => some l
      | _ => none

theorem sleeps_of_waitsFor {c : Config} {job : Tid → Job} {l : Lock} {p : VM Unit}
    (h : At unlocked c (.proc a) (Function.update job (.proc a) (.work a p)))
    (hw : waitsFor (.proc a) c.sys p = some l) (hl : l.isSpin = false) :
    ∃ m, unlocked.Reachable m ∧ m.sys = c.sys ∧ m.running = .proc a ∧ Sleeps m := by
  obtain ⟨r, hr⟩ := h
  cases p with
  | ret u => cases hw
  | act f k =>
      rw [waitsFor] at hw
      split at hw
      · next hf =>
          cases hw
          exact ⟨_, hr, rfl, rfl, .lock (Function.update_self ..) hf hl⟩
      · cases hw

/-- Both programs have a fault, the second one while the first updates a counter. -/
def countTogether : Option (VM Unit × Config) :=
  twoPrograms.bind fun c => (interrupted 1 (stackPage 0) 2 c).bind fun r =>
    if r.2.sys.spinning (.proc 1) then none else interrupted 0 (stackPage 0) 1 (switchTo 0 r.2)

set_option maxRecDepth 100000 in
/-- The second program waits for `stats_lock`, with no spinlock held. -/
theorem sleeps_without_spinlock_stats :
    ∃ m, unlocked.Reachable m ∧ Sleeps m ∧ m.sys.spinning m.running = false := by
  have hrun : countTogether.any (fun r => waitsFor (.proc 0) r.2.sys r.1 == some .stats &&
      r.2.sys.owner .coremap == none) = true := by
    decide +kernel
  obtain ⟨⟨p, c⟩, hc, hcheck⟩ := (Option.any_eq_true _ _).mp hrun
  simp only [Bool.and_eq_true, beq_iff_eq] at hcheck
  obtain ⟨c1, h1, hc⟩ := Option.bind_eq_some_iff.mp hc
  obtain ⟨⟨p2, c2⟩, h2, hc⟩ := Option.bind_eq_some_iff.mp hc
  obtain ⟨hspin, h3⟩ := Option.ite_none_left_eq_some.mp hc
  have hat := interrupted_at (twoPrograms_at h1) (Function.update_self ..) h2
  have hat' := hat.switch (u := .proc 0) (C := fun _ _ => True) (fun _ _ hs _ => hs) (by simp [bothFree])
    (by simpa using hspin) trivial
  obtain ⟨m, hr, hsys, hm, hsleeps⟩ :=
    sleeps_of_waitsFor (interrupted_at hat' (by simp [bothFree]) h3) hcheck.1 rfl
  refine ⟨m, hr, hsleeps, (sleeps_without_spinlock_iff hr hsleeps).mpr fun hcrowded => ?_⟩
  rw [hsys] at hcrowded
  cases hcheck.2.symm.trans hcrowded.1

/-- The first program takes the last frame and evicts that page again to make room for
another. While the page is being written to the swap file, the second program needs a
frame. -/
def evictTogether : Option (VM Unit × Config) :=
  twoPrograms.bind fun c => if c.sys.spinning (.proc 1) then none else
    (if hasTable (switchTo 0 c).sys 0 then
      perform (.proc 0) (switchTo 0 c) (.fault .write (stackPage 0)) else none).bind fun c =>
    (interrupted 0 (stackPage 1) 27 c).bind fun r =>
      if r.2.sys.spinning (.proc 0) then none else interrupted 1 (stackPage 0) 14 (switchTo 1 r.2)

set_option maxRecDepth 100000 in
/-- The second program goes to sleep on `swap_lock` with `coremap_lock` held. -/
theorem sleeps_with_spinlock :
    ∃ m, unlocked.Reachable m ∧ Sleeps m ∧ m.sys.owner .swap = some (.proc 0) ∧
      m.running = .proc 1 ∧ m.sys.owner .coremap = some (.proc 1) ∧
      m.sys.spinning m.running = true := by
  have hrun : evictTogether.any (fun r => waitsFor (.proc 1) r.2.sys r.1 == some .swap &&
      (r.2.sys.owner .swap == some (.proc 0) && (r.2.sys.owner .coremap == some (.proc 1)))) =
        true := by
    decide +kernel
  obtain ⟨⟨p, c⟩, hc, hcheck⟩ := (Option.any_eq_true _ _).mp hrun
  simp only [Bool.and_eq_true, beq_iff_eq] at hcheck
  obtain ⟨hwaits, hswap, hcoremap⟩ := hcheck
  obtain ⟨c1, h1, hc⟩ := Option.bind_eq_some_iff.mp hc
  obtain ⟨hspin1, hc⟩ := Option.ite_none_left_eq_some.mp hc
  obtain ⟨c2, h2, hc⟩ := Option.bind_eq_some_iff.mp hc
  obtain ⟨htab, h2⟩ := Option.ite_none_right_eq_some.mp h2
  obtain ⟨⟨p3, c3⟩, h3, hc⟩ := Option.bind_eq_some_iff.mp hc
  obtain ⟨hspin3, h4⟩ := Option.ite_none_left_eq_some.mp hc
  have hzero : bothFree (.proc 0) = .free := by simp [bothFree]
  have hat1 := (twoPrograms_at h1).switch (u := .proc 0) (C := fun _ _ => True)
    (fun _ _ hs _ => hs) (by simp [hzero]) (by simpa using hspin1) trivial
  have hat2 := hat1.fault (C := fun _ _ => True) (fun _ _ hs _ => hs) hzero htab h2 fun _ => trivial
  have hat3 := interrupted_at hat2 hzero h3
  have hat4 := hat3.switch (u := .proc 1) (C := fun _ _ => True) (fun _ _ hs _ => hs)
    (by simp [bothFree]) (by simpa using hspin3) trivial
  obtain ⟨m, hr, hsys, hm, hsleeps⟩ :=
    sleeps_of_waitsFor (interrupted_at hat4 (by simp [bothFree]) h4) hwaits rfl
  rw [← hsys] at hswap hcoremap
  exact ⟨m, hr, hsleeps, hswap, hm, hcoremap, by simp [Sys.spinning, hm, hcoremap]⟩

end Processes

end Os161Paging
