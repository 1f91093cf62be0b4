import Os161Paging.ForkExit
import Os161Paging.Migration

/-!
# Every interleaving of the processors

All that threads run has been followed from view to view; here it is put
together. The handlers of interrupts give the thread its view back, so that
they can come between any two actions of a thread that has interrupts on,
and in the idle loop. Every machine that is reached from boot is therefore
manned by threads that are each followed from what they see, and the
invariant of `Residence` holds in it.
-/

namespace Os161Paging.Threads

open Prog

variable {n : Nat} {t : Thread} {c : Fin n} {v : View n} {p : Proc}

/-! ## Handlers -/

theorem does_cpuHalt {Φ : Unit → View n → Prop} (hv : v.Runs) : Does t v cpuHalt Φ :=
  does_onCpu hv fun _ _ _ _ => ⟨trivial, fun _ _ hx => by cases hx⟩

theorem does_interprocessorInterrupt (h : Quiet c v) :
    Does t v interprocessorInterrupt fun _ v' => v' = v := by
  have hv : v.Runs := .inr ⟨c, h.loc⟩
  unfold interprocessorInterrupt
  refine .reading (does_curcpu h.loc) ?_
  refine .bind h.acquire ?_
  rintro _ _ rfl
  refine .knowing (does_look (Φ := fun _ => True) (.inr ⟨c, h.loc⟩) fun _ _ _ _ => trivial)
    fun bits _ => ?_
  refine .ite (fun _ => ?_) fun _ => ?_
  · refine .bind h.release ?_
    rintro _ _ rfl
    exact does_cpuHalt hv
  refine .ite (fun _ => ?_) fun _ => ?_
  · refine .bind h.release ?_
    rintro _ _ rfl
    refine .bind h.acquire ?_
    rintro _ _ rfl
    refine .bind h.release ?_
    rintro _ _ rfl
    exact does_cpuHalt hv
  · refine .bind (does_clearPending (c := c) h.loc (Stage.not_dozing_of_calm h.calm)) ?_
    intro _ w hw
    obtain rfl := hw.trans (View.put_self_of_spl h.loc h.spl)
    exact h.release

/-- A handler gives the thread its view back; only a thread that was not in the idle loop
may find itself on another processor. -/
theorem does_handler {e : Env n} (hserves : Serves t e) (k : Nat) (i : Interrupt)
    {q : Option Proc} (h : Quiet c v) (hproc : v.proc = some q) :
    Does t v (i.handler e k) fun _ v' => ∃ d m, (v.stage ≠ .present → d = c) ∧
      v' = { v with floor := m, loc := some (.on d) } := by
  have hback : ∀ m, ∃ d l, (v.stage ≠ .present → d = c) ∧
      ({ v with floor := m } : View n) = { v with floor := l, loc := some (.on d) } :=
    fun m => ⟨c, m, fun _ => rfl, by rw [← h.loc]⟩
  cases i with
  | ipi =>
      refine .mono (does_interprocessorInterrupt h) ?_
      rintro _ _ rfl
      exact hback _
  | device x =>
      refine .mono (does_semV (.inr ⟨c, h.loc⟩) h.locks h.even h.calm) ?_
      rintro _ _ rfl
      exact hback _
  | clock migrate =>
      have hyield : ∀ m, Does t { v with floor := m } (threadYield e k) fun _ v' =>
          ∃ d l, (v.stage ≠ .present → d = c) ∧
            v' = { v with floor := l, loc := some (.on d) } := by
        intro m
        refine .mono (does_threadSwitch hserves k (.inr ⟨c, h.loc⟩) h.calm
          (by simp [Self.Unmasked, h.spl]) h.even.owes h.even.posted hproc
          ⟨h.locks, h.even.found⟩) ?_
        rintro _ w ⟨-, hidle, hmoved⟩
        by_cases hst : v.stage = .present
        · obtain ⟨d, l, rfl⟩ := hmoved
          rw [View.put_of_not_open (by simp [View.Open, h.spl])]
          refine ⟨d, l, fun hne => absurd hst hne, ?_⟩
          rw [h.locks, h.even.found]
        · have hcalm := h.calm
          have hisIdle : v.stage.isIdle = true := by
            cases hs : v.stage <;> simp [hs, Stage.calm, Stage.isIdle] at hcalm hst ⊢
          rw [hidle hisIdle]
          exact hback m
      cases migrate with
      | true =>
          refine .bind (does_threadConsiderMigration h) ?_
          rintro _ _ ⟨m, rfl⟩
          exact hyield m
      | false => exact hyield v.floor

theorem serves_env (t : Thread) (k : Nat) : Serves t (env k : Env n) := by
  induction k with
  | zero =>
      have hstuck : ∀ {v : View n} {Φ : Unit → View n → Prop},
          Does t v (rounds 0 (pure none)) Φ :=
        does_rounds (I := fun _ => True) (fun v _ => .pure ⟨by simp, fun _ => trivial⟩) 0 trivial
      exact ⟨fun _ _ _ _ _ _ _ _ _ => hstuck, fun _ _ _ _ _ _ _ _ _ _ => hstuck⟩
  | succ k ih =>
      constructor
      · intro v c q hc hspl hst hlocks he hproc
        exact does_asActivate ih k hc hspl hst hlocks he hproc
      · intro i v c q hc hspl hcalm hlocks he hproc
        exact does_handler ih k i ⟨hc, hspl, hlocks, he, hcalm⟩ hproc

/-! ## Calls -/

theorem usual_atEase : AtEase (.usual p : View n) := ⟨.inl rfl, rfl, rfl, ⟨rfl, rfl, rfl⟩⟩

theorem View.Moved.usual {v : View n} (h : View.Moved (.usual p) v) : v = .usual p := by
  obtain ⟨c, m, rfl⟩ := h
  exact View.put_of_open ⟨rfl, rfl⟩

theorem does_underChan {y : Nat} {q : K n Unit}
    (hq : ∀ c, Does t { (View.usual p : View n) with
        locks := [.chan (.cv y)]
        loc := some (.on c) } q fun _ v' => ∃ d m, v' = { (View.usual p : View n) with
          locks := [.chan (.cv y)]
          floor := m
          loc := some (.on d) }) :
    Does t (.usual p) (underChan y q) fun _ v' => v' = .usual p := by
  unfold underChan
  refine .bind (does_spinlockAcquire usual_atEase.runs (by simp [View.usual, Desk.clear])
    (by simp [View.usual])) ?_
  rintro _ _ ⟨c, -, rfl⟩
  refine .bind (hq c) ?_
  rintro _ _ ⟨d, m, rfl⟩
  refine .mono (does_spinlockRelease (c := d) rfl (by simp) rfl rfl (by simp)) ?_
  rintro _ _ rfl
  exact View.put_of_open ⟨rfl, by simp⟩

/-- A call brings the thread back to what it saw, if it brings it back at all. -/
theorem does_call (k : Nat) (call : Call) :
    Does t (.usual p : View n) (call.program k) fun _ v' => v' = .usual p := by
  have hserves : Serves t (env k : Env n) := serves_env t k
  have h : AtEase (.usual p : View n) := usual_atEase
  cases call with
  | yield =>
      refine .mono (does_threadSwitch hserves k h.runs h.calm (fun _ => ⟨rfl, some p, rfl⟩) rfl rfl
        rfl ⟨rfl, rfl⟩) ?_
      rintro _ _ ⟨-, -, hmoved⟩
      exact hmoved.usual
  | semP x =>
      refine .mono (does_semP hserves k x h.runs rfl rfl rfl h.even rfl) ?_
      intro _ _ hmoved
      exact hmoved.usual
  | semV x => exact does_semV h.runs rfl h.even h.calm
  | sleep y =>
      refine does_underChan fun c => ?_
      exact does_wchanSleep hserves k (c := c) rfl rfl rfl rfl rfl rfl (by simp) rfl
  | wakeone y =>
      refine does_underChan fun c => ?_
      refine .mono (does_wchanWakeone (c := c) rfl rfl rfl rfl (by simp [View.usual, Desk.clear])
        rfl) ?_
      rintro _ _ rfl
      exact ⟨c, 0, rfl⟩
  | wakeall y =>
      refine does_underChan fun c => ?_
      refine .mono (does_wchanWakeall (c := c) rfl rfl ⟨rfl, rfl, rfl⟩ rfl) ?_
      rintro _ _ rfl
      exact ⟨c, 0, rfl⟩
  | fork memory proc =>
      refine .bind (does_threadFork h rfl rfl) ?_
      rintro _ _ rfl
      exact .pure rfl
  | exit => exact .mono (does_threadExit hserves k h rfl rfl) fun _ _ => False.elim
  | sysExit x => exact .mono (does_sysExit hserves k x h rfl rfl) fun _ _ => False.elim
  | shutdown => exact does_ipiBroadcast h.runs h.even rfl h.calm

/-! ## The machine -/

/-- Every thread is followed from what it sees, until it is between calls. -/
def Manned (m : Machine n) : Prop :=
  (logic n).Crew role (fun _ v => ∃ p, v = .usual p) m.code m.sched

theorem Manned.inv {m : Machine n} (h : Manned m) : ∃ g, Inv g m.sched := Views.Crew.inv h

/-- What is written down when the processors have been created. -/
def bootGhost (n : Nat) : Ghost n where
  place t := if t < n then .present else .absent
  member t := if t < n then some 0 else none
  loc t := if h : t < n then .on ⟨t, h⟩ else .away
  stage _ := .present
  spl _ := .high
  irq _ := false
  proc t := if t < n then some (some 0) else none
  leaving _ := false
  hand _ := []
  fresh _ := none
  held _ := []
  floor _ := 0
  owes _ := none
  posted _ := none
  found _ := none

theorem bootGhost_loc : (bootGhost n).loc t = .on c ↔ t = c := by
  simp only [bootGhost]
  split
  · simp [Fin.ext_iff]
  · simp only [reduceCtorEq, false_iff]
    rintro rfl
    exact absurd c.isLt ‹_›

theorem bootGhost_away : (bootGhost n).loc t = .away ↔ n ≤ t := by
  simp only [bootGhost]
  split
  · simp only [reduceCtorEq, false_iff, Nat.not_le]
    assumption
  · simp only [true_iff]
    exact Nat.not_lt.mp ‹_›

theorem bootGhost_place_ne {q : Place n} (hpresent : q ≠ .present) (habsent : q ≠ .absent) :
    (bootGhost n).place t ≠ q := by
  simp only [bootGhost]
  split
  · exact hpresent.symm
  · exact habsent.symm

theorem bootGhost_present : (bootGhost n).place t = .present ↔ t < n := by
  simp [bootGhost]

theorem bootGhost_absent : (bootGhost n).place t = .absent ↔ n ≤ t := by
  simp [bootGhost]

theorem bootGhost_stated {tState : Thread → ThreadState} :
    Stated (bootGhost n).place (bootGhost n).loc (bootGhost n).stage (bootGhost n).hand tState := by
  refine ⟨fun u d hu => ?_, fun u => .inr ?_, fun _ _ hi => ?_⟩
  · exact absurd hu (bootGhost_place_ne (by simp) (by simp))
  · simp only [bootGhost]
    split <;> trivial
  · cases hi

namespace Booted

variable {s : Sched n} (h : Booted s)
include h

theorem located : Located (bootGhost n).place (bootGhost n).loc (bootGhost n).stage
    (bootGhost n).hand (bootGhost n).fresh s.allocated s.nextThread s.cZombies s.cRunqueue s.wcThreads := by
  have hempty : ∀ q, shelves (bootGhost n).hand (bootGhost n).fresh s.cZombies s.cRunqueue
      s.wcThreads q = [] := by
    intro q
    cases q <;> simp [shelves, bootGhost, h.cZombies, h.cRunqueue, h.wcThreads]
  refine ⟨⟨fun q hq u => ?_, fun q _ => ?_⟩, fun u => ?_, fun u => ?_, fun u hu => ?_⟩
  · rw [hempty]
    refine iff_of_false (by simp) (bootGhost_place_ne ?_ ?_) <;> rintro rfl <;> exact hq
  · rw [hempty]
    exact List.nodup_nil
  · rw [bootGhost_present]
    exact ⟨fun hu => ⟨⟨⟨u, hu⟩, bootGhost_loc.mpr rfl⟩, rfl⟩,
      fun hu => hu.1.elim fun d hd => bootGhost_loc.mp hd ▸ d.isLt⟩
  · rw [h.allocated, decide_eq_true_iff, Ne, bootGhost_absent, Nat.not_le]
  · rw [h.nextThread]
    exact Nat.not_le.mp fun hle => hu (bootGhost_absent.mpr hle)

theorem seated : Seated (bootGhost n).place (bootGhost n).loc (bootGhost n).stage (bootGhost n).hand
    (bootGhost n).fresh s.tCpu s.cCurthread s.cIsidle := by
  have hcur : ∀ d, (bootGhost n).loc (s.cCurthread d) = .on d := fun d =>
    bootGhost_loc.mpr (h.curthread d)
  have hne : ∀ {u : Thread} {q : Place n}, q ≠ .present → q ≠ .absent → (bootGhost n).place u ≠ q :=
    bootGhost_place_ne
  refine ⟨fun u d hu => ?_, fun d => .inl (hcur d), fun u d => ?_, fun d => ?_, fun u => ?_,
    fun _ _ hi => ?_, fun _ _ hb => ?_, fun _ _ _ hst => absurd rfl hst, fun d => ?_,
    fun u d hu => absurd hu (hne (by simp) (by simp)), fun u hu => ?_⟩
  · rw [h.curthread d, bootGhost_loc.mp hu]
  · refine iff_of_false (hne (by simp) (by simp)) ?_
    rintro ⟨haway, rfl⟩
    rw [hcur] at haway
    cases haway
  · rw [h.curthread d]
    exact h.tCpu d
  · simp only [bootGhost]
    split <;> trivial
  · cases hi
  · cases hb
  · simp [h.cIsidle, bootGhost, Stage.isIdle]
  · simp only [bootGhost] at hu
    split at hu <;> cases hu

theorem locked : Locked (bootGhost n).loc (bootGhost n).stage (bootGhost n).held (bootGhost n).owes
    (bootGhost n).posted (bootGhost n).found s.cCurthread s.cSpinlocks s.splkHolder := by
  refine ⟨fun l d => ?_, fun _ => List.nodup_nil, fun d => h.cSpinlocks d, fun u d _ hs => ?_,
    fun d hd => ?_, fun d b hb => ?_, fun d x hx => ?_, fun d x b hx => ?_⟩
  · simp [h.splkHolder, bootGhost]
  · cases hs
  · rw [bootGhost_away, h.curthread d] at hd
    exact absurd d.isLt (Nat.not_lt.mpr hd)
  · cases hb
  · cases hx
  · cases hx

theorem levelled : Levelled (bootGhost n).place (bootGhost n).loc (bootGhost n).spl
    (bootGhost n).irq (bootGhost n).held s.tInInterrupt s.tCurspl s.tIplhighCount := by
  refine ⟨fun u d hu => ?_, fun u hu hset => ?_, fun u b hu => ?_, fun _ _ => rfl, fun u hu => ?_⟩
  · obtain rfl := bootGhost_loc.mp hu
    exact ⟨h.tCurspl d d.isLt, h.tIplhighCount d d.isLt⟩
  · exact absurd (bootGhost_absent.mpr (bootGhost_away.mp hu)) hset.1
  · exact absurd hu (bootGhost_place_ne (by simp) (by simp))
  · exact h.tInInterrupt u (Nat.not_le.mp fun hle => hu (bootGhost_absent.mpr hle))

theorem roused : Roused (bootGhost n).loc (bootGhost n).stage (bootGhost n).held (bootGhost n).floor
    (bootGhost n).owes s.cCurthread s.cRunqueue s.cIpiPending s.waiting := by
  refine ⟨fun _ => Nat.zero_le _, fun _ _ _ _ hst => ?_, fun d hd => ?_⟩
  · cases hst
  · exact absurd (h.waiting d) hd

theorem attached : Attached (bootGhost n).place (bootGhost n).member (bootGhost n).proc
    (bootGhost n).leaving (bootGhost n).fresh s.tProc s.nextThread s.pNumthreads := by
  have hlt : ∀ {u : Thread}, (bootGhost n).place u ≠ .absent → u < n := fun hu =>
    Nat.not_le.mp fun hle => hu (bootGhost_absent.mpr hle)
  refine ⟨fun u x hx => ?_, fun u hu _ => ?_, fun u d hu => ?_, fun _ _ hb => ?_, fun u hu => ?_,
    fun u hu => ?_, fun q => ?_⟩
  · simp only [bootGhost] at hx
    split at hx
    · rw [h.tProc u ‹_›, ← Option.some.inj hx]
    · cases hx
  · rw [h.tProc u (hlt hu.1)]
    simp
  · exact absurd hu (bootGhost_place_ne (by simp) (by simp))
  · cases hb
  · have hu' := hlt hu.1
    rw [h.tProc u hu']
    simp [bootGhost, hu']
  · simp [bootGhost, bootGhost_absent.mp hu]
  · rw [h.pNumthreads, h.nextThread]
    by_cases hq : q = 0
    · rw [if_pos hq, Finset.filter_true_of_mem, Finset.card_range]
      intro u hu
      simp [bootGhost, Finset.mem_range.mp hu, hq]
    · rw [if_neg hq, Finset.filter_false_of_mem, Finset.card_empty]
      intro u hu
      simp [bootGhost, Finset.mem_range.mp hu, Ne.symm hq]

theorem signalled : Signalled (bootGhost n).posted (bootGhost n).found s.nextThread s.slept
    s.wcThreads s.semCount := by
  refine ⟨fun u x hu => ?_, fun _ _ _ hx => ?_, fun x hx => absurd (h.wcThreads _) hx⟩
  · rw [h.wcThreads] at hu
    cases hu
  · cases hx

theorem inv : Inv (bootGhost n) s where
  located := h.located
  seated := h.seated
  locked := h.locked
  levelled := h.levelled
  unmasked _ hspl := by cases hspl
  stated := bootGhost_stated
  roused := h.roused
  attached := h.attached
  signalled := h.signalled
  virgin u hu := by
    rw [h.nextThread] at hu
    rw [Ghost.shown, bootGhost_away.mpr hu, View.hide_of_not_open fun hopen => by cases hopen.1]
    simp [Ghost.self, Ghost.deskAt, bootGhost, View.newborn, Nat.not_lt.mpr hu]

end Booted

/-! ## Steps -/

variable {m m' : Machine n}

theorem Inv.open_of_count {g : Ghost n} {s : Sched n} (hi : Inv g s) (hcur : s.cCurthread c = t)
    (hon : s.tIplhighCount t = 0) (hv : g.shown t = v) :
    v.Runs ∧ v.locks = [] ∧ v.Even ∧ (∀ d, v.At d) ∧ v.toSelf.Unmasked ∧ v.spl = .none := by
  have hloc : g.loc t = .on c := by
    subst hcur
    refine (hi.seated.cur c).resolve_right fun haway => ?_
    have hset : (g.place (s.cCurthread c)).Settled :=
      ⟨hi.exists_cur rfl, fun _ => hi.not_fresh_cur rfl⟩
    rw [(hi.levelled.away _ haway hset).2] at hon
    cases hon
  obtain ⟨-, hcount⟩ := hi.levelled.on t c hloc
  rw [hon] at hcount
  have hheld : g.held c = [] := List.length_eq_zero_iff.mp (by omega)
  have hspl : g.spl t = .none := by
    cases hs : g.spl t with
    | none => rfl
    | high =>
        rw [hs, if_pos rfl] at hcount
        omega
  rw [Ghost.shown_of_on hloc, View.hide_of_open ⟨hspl, hheld⟩] at hv
  subst hv
  exact ⟨.inl rfl, rfl, ⟨rfl, rfl, rfl⟩, fun d => View.put_of_open ⟨hspl, rfl⟩, hi.unmasked t,
    hspl⟩

theorem Manned.start (hm : (machine n).start m) : Manned m := by
  obtain ⟨hboot, hfirst, hlater⟩ := hm
  refine ⟨bootGhost n, hboot.inv, fun t => ⟨_, rfl, ?_⟩⟩
  by_cases ht : t < n
  · have hself :
        (bootGhost n).self t = { (View.usual 0 : View n).toSelf with spl := .high } := by
      simp [Ghost.self, bootGhost, View.usual, ht]
    rw [hfirst t ht, Ghost.shown_put (c := ⟨t, ht⟩) (w := { View.usual 0 with spl := .high })
      (bootGhost_loc.mpr rfl) hself rfl]
    refine .bind (does_splx View.put_runs .none ?_) ?_
    · rw [View.put_toSelf]
      exact fun _ => ⟨rfl, some 0, rfl⟩
    · rintro _ _ ⟨-, d, -, rfl⟩
      refine .pure ⟨0, ?_⟩
      exact View.put_of_open ⟨rfl, View.put_locks⟩
  · have hle : n ≤ t := Nat.not_lt.mp ht
    obtain ⟨k, hk⟩ := hlater t hle
    rw [hk, hboot.inv.virgin t (by rwa [hboot.nextThread])]
    exact does_threadStartup (serves_env t k) k

theorem Manned.step (h : Manned m) (hs : Step m m') : Manned m' := by
  cases hs with
  | @act t ρ f k x s hcode hf => exact Views.Crew.act h rfl trivial hcode hf
  | @call t c k call hcode hcur =>
      refine Views.Crew.replace h fun g v hi hv hfollows => ?_
      rw [hcode] at hfollows
      obtain ⟨p, rfl⟩ := hfollows
      exact .mono (does_call k call) fun _ _ hv' => ⟨p, hv'⟩
  | @interrupt t c k i hcur hon hipi =>
      refine Views.Crew.replace h fun g v hi hv hfollows => ?_
      obtain ⟨hruns, hlocks, heven, hat, hfair, hspl⟩ := hi.open_of_count hcur hon hv
      obtain ⟨hst, q, hq⟩ := hfair hspl
      refine .andThen ?_ fun _ => hfollows
      refine .mono (does_interrupted hruns (fun d => ?_) hlocks hfair) ?_
      · refine does_handler (serves_env t k) k i ⟨rfl, rfl, hlocks, ?_, ?_⟩ hq
        · exact ⟨heven.owes, heven.posted, heven.found⟩
        · rw [hst]
          rfl
      · rintro _ _ ⟨-, d, m, -, -, rfl⟩
        have hopen : v.Open := ⟨hspl, hlocks⟩
        refine .trans ?_ (hat d)
        rw [View.put_of_open hopen]
        exact View.put_of_open hopen
  | @rouse c i hwait hipi =>
      refine Views.Crew.unseen h fun g hi => ⟨?_, fun _ _ hv => hv⟩
      refine ⟨{ hi.toCore with roused := { hi.roused with asleep := fun d hd => ?_ } }, hi.virgin⟩
      refine hi.roused.asleep d ?_
      by_cases hdc : d = c
      · rw [hdc, hwait]
        simp
      · exact fun hno => hd ((Function.update_of_ne hdc _ _).trans hno)
  | setas =>
      exact Views.Crew.unseen h fun g hi => ⟨⟨{ hi.toCore with }, hi.virgin⟩, fun _ _ hv => hv⟩

/-- Whatever the processors do, in whatever order. -/
theorem manned_of_reachable (h : (machine n).Reachable m) : Manned m :=
  h.invariant (fun _ => Manned.start) fun _ _ => Manned.step

end Os161Paging.Threads
