import Os161Paging.Queueing
import Os161Paging.Scheduler

/-!
# First come, first served

Every action of every thread treats the lists of the scheduler as queues:
threads are added at the end and taken from the front; migration takes them
from the end, and `wchan_wakeall` takes all. As the lists have no
duplicates, no thread is overtaken by another while it is on one of them.
-/

namespace Os161Paging.Threads

open Prog

variable {n : Nat} {ρ : Type} {t u : Thread} {c : Fin n} {s s' : Sched n} {m m' : Machine n}

/-! ## Actions -/

/-- The lists are treated as queues. -/
def Queued (s s' : Sched n) : Prop := ∀ q, Advances (s.list q) (s'.list q)

namespace Queued

theorem at_most {q : Place n} (hq : Advances (s.list q) (s'.list q))
    (hother : ∀ r, r ≠ q → s'.list r = s.list r) : Queued s s' := by
  intro r
  by_cases hr : r = q
  · exact hr ▸ hq
  · rw [hother r hr]
    exact .same _

theorem same (hz : s'.cZombies = s.cZombies) (hq : s'.cRunqueue = s.cRunqueue)
    (hw : s'.wcThreads = s.wcThreads) : Queued s s' := by
  intro q
  rw [show s'.list q = s.list q by rw [Sched.list, Sched.list, hz, hq, hw]]
  exact .same _

theorem runqueue {l : List Thread} (hl : Advances (s.cRunqueue c) l) (hz : s'.cZombies = s.cZombies)
    (hq : s'.cRunqueue = Function.update s.cRunqueue c l) (hw : s'.wcThreads = s.wcThreads) :
    Queued s s' := by
  refine at_most (q := .queue c) ?_ fun r hr => ?_
  · show Advances (s.cRunqueue c) (s'.cRunqueue c)
    rwa [hq, Function.update_self]
  · cases r <;> simp_all [Sched.list, shelves]

theorem channel {w : Chan} {l : List Thread} (hl : Advances (s.wcThreads w) l)
    (hz : s'.cZombies = s.cZombies) (hq : s'.cRunqueue = s.cRunqueue)
    (hw : s'.wcThreads = Function.update s.wcThreads w l) : Queued s s' := by
  refine at_most (q := .chan w) ?_ fun r hr => ?_
  · show Advances (s.wcThreads w) (s'.wcThreads w)
    rwa [hw, Function.update_self]
  · cases r <;> simp_all [Sched.list, shelves]

theorem zombies {l : List Thread} (hl : Advances (s.cZombies c) l)
    (hz : s'.cZombies = Function.update s.cZombies c l) (hq : s'.cRunqueue = s.cRunqueue)
    (hw : s'.wcThreads = s.wcThreads) : Queued s s' := by
  refine at_most (q := .zombies c) ?_ fun r hr => ?_
  · show Advances (s.cZombies c) (s'.cZombies c)
    rwa [hz, Function.update_self]
  · cases r <;> simp_all [Sched.list, shelves]

end Queued

/-- All actions of a program treat the lists as queues. -/
abbrev Lines (t : Thread) (p : K n ρ) : Prop := p.Steps Queued t

theorem lines_onCpu {f : Thread → Fin n → Sched n → Outcome (Wait n) (ρ × Sched n)}
    (h : ∀ c s x s', f t c s = .ok (x, s') → Queued s s') : Lines t (onCpu f) := by
  refine .action (isAction_exec _) fun s x s' hx => ?_
  rw [onCpu, run_exec] at hx
  split at hx
  · cases hx
  · exact h _ s x s' hx

theorem lines_change {F : Thread → Fin n → Sched n → Sched n}
    (h : ∀ c s, Queued s (F t c s)) : Lines t (change F) := by
  refine lines_onCpu fun c s x s' hx => ?_
  cases hx
  exact h c s

theorem lines_look {f : Thread → Fin n → Sched n → ρ} : Lines t (look f) := by
  refine lines_onCpu fun c s x s' hx => ?_
  cases hx
  exact .same rfl rfl rfl

theorem lines_kassert {b : Thread → Fin n → Sched n → Bool} {msg : String} :
    Lines t (kassert b msg) := by
  refine lines_onCpu fun c s x s' hx => ?_
  split at hx
  · cases hx
    exact .same rfl rfl rfl
  · cases hx

theorem lines_rounds {body : K n (Option ρ)} (h : Lines t body) (k : Nat) :
    Lines t (rounds k body) := by
  induction k with
  | zero =>
      intro s x
      exact x.elim
  | succ k ih =>
      refine .bind h fun x => ?_
      cases x with
      | none => exact ih
      | some y => exact .pure y

theorem lines_splx {spl : Ipl} : Lines t (splx spl : K n Ipl) := by
  refine lines_onCpu fun c s x s' hx => ?_
  cases hx
  split <;> exact .same rfl rfl rfl

theorem lines_spinlockAcquire {l : Spin n} : Lines t (spinlockAcquire l) := by
  refine lines_onCpu fun c s x s' hx => ?_
  split at hx
  · cases hx
    exact .same rfl rfl rfl
  · split at hx <;> cases hx

theorem lines_spinlockRelease {l : Spin n} : Lines t (spinlockRelease l) := by
  refine lines_onCpu fun c s x s' hx => ?_
  split at hx
  · cases hx
    exact .same rfl rfl rfl
  · cases hx

/-! ## Functions -/

theorem lines_ipiSend {target : Fin n} {code : Ipi} : Lines t (ipiSend target code) := by
  refine .bind lines_spinlockAcquire fun _ => .bind (lines_change fun c s => ?_) fun _ =>
    lines_spinlockRelease
  exact .same rfl rfl rfl

theorem lines_ipiBroadcast {code : Ipi} : Lines t (ipiBroadcast code : K n Unit) := by
  unfold ipiBroadcast
  induction List.finRange n with
  | nil => exact .pure ()
  | cons d ds ih =>
      refine .bind lines_look fun other => ?_
      cases other with
      | true => exact .bind lines_ipiSend fun _ => ih
      | false => exact ih

theorem lines_cpuHalt : Lines t (cpuHalt : K n Unit) :=
  lines_onCpu fun _ _ _ _ hx => by cases hx

theorem lines_interprocessorInterrupt : Lines t (interprocessorInterrupt : K n Unit) := by
  unfold interprocessorInterrupt
  refine .bind lines_look fun c => .bind lines_spinlockAcquire fun _ => .bind lines_look
    fun bits => ?_
  refine .ite (.bind lines_spinlockRelease fun _ => lines_cpuHalt) ?_
  refine .ite (.bind lines_spinlockRelease fun _ => .bind lines_spinlockAcquire fun _ =>
    .bind lines_spinlockRelease fun _ => lines_cpuHalt) ?_
  refine .bind (lines_change fun d s => ?_) fun _ => lines_spinlockRelease
  exact .same rfl rfl rfl

theorem lines_interrupted {handler : K n Unit} (h : Lines t handler) :
    Lines t (interrupted handler) := by
  refine .bind (lines_onCpu fun c s x s' hx => ?_) fun x => .bind h fun _ => lines_onCpu
    fun c s y s' hy => ?_
  · cases hx
    exact .same rfl rfl rfl
  · split at hy
    · split at hy
      · cases hy
        exact .same rfl rfl rfl
      · cases hy
    · cases hy
      exact .same rfl rfl rfl

theorem lines_cpuOf {target : Thread} : Lines t (cpuOf target : K n (Fin n)) := by
  refine lines_onCpu fun c s x s' hx => ?_
  split at hx
  · cases hx
    exact .same rfl rfl rfl
  · cases hx

theorem lines_threadMakeRunnable {target : Thread} {alreadyHaveLock : Bool} :
    Lines t (threadMakeRunnable target alreadyHaveLock : K n Unit) := by
  unfold threadMakeRunnable
  refine .bind lines_cpuOf fun targetcpu => ?_
  have hqueue : Lines t (change fun _ _ s => s.enqueue targetcpu target : K n Unit) :=
    lines_change fun c s => .runqueue (.join _ _) rfl rfl rfl
  cases alreadyHaveLock with
  | true =>
      refine .bind lines_kassert fun _ => .bind hqueue fun _ => .bind lines_look fun rouse => ?_
      exact .ite (.bind lines_ipiSend fun _ => .pure ()) (.pure ())
  | false =>
      refine .bind lines_spinlockAcquire fun _ => .bind hqueue fun _ => .bind lines_look
        fun rouse => ?_
      exact .ite (.bind lines_ipiSend fun _ => lines_spinlockRelease) lines_spinlockRelease

theorem lines_wchanWakeone {w : Chan} : Lines t (wchanWakeone w : K n Unit) := by
  refine .bind lines_kassert fun _ => .bind (lines_onCpu fun c s x s' hx => ?_) fun target => ?_
  · cases hx
    exact .channel (.tail _) rfl rfl rfl
  · cases target with
    | none => exact .pure ()
    | some u => exact lines_threadMakeRunnable

theorem lines_wchanWakeall {w : Chan} : Lines t (wchanWakeall w : K n Unit) := by
  refine .bind lines_kassert fun _ => .bind (lines_onCpu fun c s x s' hx => ?_) fun list => ?_
  · cases hx
    exact .channel (.clear _) rfl rfl rfl
  · induction list with
    | nil => exact .pure ()
    | cons u us ih => exact .bind lines_threadMakeRunnable fun _ => ih

theorem lines_semV {x : Nat} : Lines t (semV x : K n Unit) := by
  refine .bind lines_spinlockAcquire fun _ => .bind (lines_onCpu fun c s y s' hy => ?_) fun _ =>
    .bind lines_wchanWakeone fun _ => lines_spinlockRelease
  split at hy
  · cases hy
    exact .same rfl rfl rfl
  · cases hy

/-! ## The switch -/

structure EnvLines (t : Thread) (e : Env n) : Prop where
  activate : Lines t e.activate
  handle : ∀ i, Lines t (e.handle i)

theorem lines_exorcise {k : Nat} : Lines t (exorcise k : K n Unit) := by
  refine lines_rounds (lines_onCpu fun c s x s' hx => ?_) k
  split at hx
  · cases hx
    exact .same rfl rfl rfl
  · rename_i z zs hz
    split at hx
    · cases hx
    split at hx
    · cases hx
    obtain ⟨s1, h1, hx⟩ := Outcome.bind_eq_ok.mp hx
    cases hx
    unfold threadDestroy at h1
    split at h1
    · cases h1
    split at h1
    · cases h1
    split at h1
    · cases h1
    split at h1
    · cases h1
    cases h1
    refine .zombies (l := zs) ?_ rfl rfl rfl
    rw [hz]
    exact .serve z zs

theorem lines_cpuIdle {e : Env n} (he : EnvLines t e) : Lines t (cpuIdle e.handle) := by
  refine .bind (lines_change fun c s => .same rfl rfl rfl) fun _ =>
    .bind (lines_onCpu fun c s x s' hx => ?_) fun i => lines_interrupted (he.handle i)
  split at hx
  · cases hx
    exact .same rfl rfl rfl
  · cases hx

theorem lines_nextThread {e : Env n} (he : EnvLines t e) (k : Nat) : Lines t (nextThread e k) := by
  refine lines_rounds (.bind (lines_onCpu fun c s x s' hx => ?_) fun next => ?_) k
  · cases hx
    exact .runqueue (.tail _) rfl rfl rfl
  · cases next with
    | some u => exact .pure _
    | none =>
        exact .bind lines_look fun _ => .bind lines_spinlockRelease fun _ =>
          .bind (lines_cpuIdle he) fun _ => .bind lines_look fun _ =>
            .bind lines_spinlockAcquire fun _ => .pure _

theorem lines_putAway {st : ThreadState} {wc : Option Chan} :
    Lines t (putAway st wc : K n Unit) := by
  cases st with
  | run => exact lines_onCpu fun _ _ _ _ hx => by cases hx
  | ready => exact .bind lines_look fun _ => lines_threadMakeRunnable
  | sleep =>
      cases wc with
      | none => exact lines_onCpu fun _ _ _ _ hx => by cases hx
      | some w =>
          exact .bind (lines_change fun c s => .channel (.join _ _) rfl rfl rfl) fun _ =>
            lines_spinlockRelease
  | zombie => exact lines_change fun c s => .zombies (.join _ _) rfl rfl rfl

theorem lines_setState {st : ThreadState} : Lines t (setState st : K n Unit) :=
  lines_change fun _ _ => .same rfl rfl rfl

theorem lines_setIsidle {b : Bool} : Lines t (setIsidle b : K n Unit) :=
  lines_change fun _ _ => .same rfl rfl rfl

theorem lines_arrive {e : Env n} (he : EnvLines t e) (k : Nat) : Lines t (arrive e k) :=
  .bind lines_setState fun _ => .bind lines_look fun _ => .bind lines_spinlockRelease fun _ =>
    .bind he.activate fun _ => lines_exorcise

theorem lines_threadSwitch {e : Env n} (he : EnvLines t e) (k : Nat) {st : ThreadState}
    {wc : Option Chan} : Lines t (threadSwitch e k st wc) := by
  unfold threadSwitch
  refine .bind lines_kassert fun _ => .bind lines_splx fun spl => .bind lines_look fun isidle => ?_
  refine .ite (.bind lines_splx fun _ => .pure ()) ?_
  refine .bind lines_look fun c => .bind lines_spinlockAcquire fun _ => .bind lines_look
    fun empty => ?_
  refine .ite (.bind lines_spinlockRelease fun _ => .bind lines_splx fun _ => .pure ()) ?_
  refine .bind lines_putAway fun _ => .bind lines_setState fun _ => .bind lines_setIsidle fun _ =>
    .bind (lines_nextThread he k) fun next => .bind lines_setIsidle fun _ => ?_
  refine .bind (lines_onCpu fun c s x s' hx => ?_) fun _ => .bind (lines_arrive he k) fun _ =>
    .bind lines_splx fun _ => .pure ()
  split at hx
  · cases hx
    exact .same rfl rfl rfl
  · cases hx

theorem lines_wchanSleep {e : Env n} (he : EnvLines t e) (k : Nat) {w : Chan} :
    Lines t (wchanSleep e k w) :=
  .bind lines_kassert fun _ => .bind lines_kassert fun _ => .bind lines_kassert fun _ =>
    .bind (lines_threadSwitch he k) fun _ => lines_spinlockAcquire

theorem lines_semP {e : Env n} (he : EnvLines t e) (k x : Nat) : Lines t (semP e k x) := by
  refine .bind lines_kassert fun _ => .bind lines_spinlockAcquire fun _ => .bind (lines_rounds ?_ k)
    fun _ => .bind (lines_onCpu fun c s y s' hy => ?_) fun _ => lines_spinlockRelease
  · refine .bind lines_look fun count => .ite ?_ (.pure _)
    exact .bind (lines_wchanSleep he k) fun _ => .pure _
  · split at hy
    · cases hy
      exact .same rfl rfl rfl
    · cases hy

theorem lines_asActivate {e : Env n} (he : EnvLines t e) (k : Nat) : Lines t (asActivate e k) := by
  refine .bind lines_look fun proc => ?_
  cases proc with
  | none => exact .pure ()
  | some p =>
      refine .bind lines_spinlockAcquire fun _ => .bind lines_look fun as =>
        .bind lines_spinlockRelease fun _ => .bind lines_look fun canLock => .ite ?_ (.pure ())
      exact .bind (lines_semP he k statsSem) fun _ => lines_semV

/-! ## Migration -/

theorem lines_countThreads {cs : List (Fin n)} {my total : Nat} :
    Lines t (countThreads cs my total) := by
  induction cs generalizing my total with
  | nil => exact .pure _
  | cons c cs ih =>
      exact .bind lines_spinlockAcquire fun _ => .bind lines_look fun count =>
        .bind lines_look fun mine => .bind lines_spinlockRelease fun _ => ih

theorem lines_takeVictims {k : Nat} {victims : List Thread} :
    Lines t (takeVictims k victims : K n (List Thread)) := by
  induction k generalizing victims with
  | zero => exact .pure _
  | succ k ih =>
      refine .bind (lines_onCpu fun c s x s' hx => ?_) fun u => ih
      split at hx
      · cases hx
      · cases hx
        exact .runqueue (.dropLast _) rfl rfl rfl

theorem lines_sendVictims {share k : Nat} {victims : List Thread} :
    Lines t (sendVictims c share k victims) := by
  induction k generalizing victims with
  | zero => exact .pure _
  | succ k ih =>
      refine .bind lines_look fun count => .ite ?_ (.pure _)
      cases victims with
      | nil => exact lines_onCpu fun _ _ _ _ hx => by cases hx
      | cons u us =>
          refine .bind lines_look fun cur => .ite ih ?_
          refine .bind (lines_change fun d s => .same rfl rfl rfl) fun _ =>
            .bind (lines_change fun d s => .runqueue (.join _ _) rfl rfl rfl) fun _ =>
              .bind lines_look fun isidle => .ite (.bind lines_ipiSend fun _ => ih) ih

theorem lines_spreadVictims {share k : Nat} {cs : List (Fin n)} {victims : List Thread} :
    Lines t (spreadVictims share cs victims k) := by
  induction cs generalizing victims k with
  | nil => exact .pure _
  | cons c cs ih =>
      refine .ite (.pure _) (.bind lines_look fun mine => .ite ih ?_)
      exact .bind lines_spinlockAcquire fun _ => .bind lines_sendVictims fun _ =>
        .bind lines_spinlockRelease fun _ => ih

theorem lines_putBack {victims : List Thread} : Lines t (putBack victims : K n Unit) := by
  induction victims with
  | nil => exact .pure ()
  | cons u us ih =>
      exact .bind (lines_change fun c s => .runqueue (.join _ _) rfl rfl rfl) fun _ => ih

theorem lines_threadConsiderMigration : Lines t (threadConsiderMigration : K n Unit) := by
  refine .bind lines_countThreads fun x => .ite (.pure ()) ?_
  refine .bind lines_look fun c => .bind lines_spinlockAcquire fun _ =>
    .bind lines_takeVictims fun us => .bind lines_spinlockRelease fun _ =>
      .bind lines_spreadVictims fun us' => .ite (.pure ()) ?_
  exact .bind lines_spinlockAcquire fun _ => .bind lines_putBack fun _ => lines_spinlockRelease

theorem lines_handler {e : Env n} (he : EnvLines t e) (k : Nat) (i : Interrupt) :
    Lines t (i.handler e k) := by
  cases i with
  | ipi => exact lines_interprocessorInterrupt
  | device x => exact lines_semV
  | clock migrate =>
      exact .ite (.bind lines_threadConsiderMigration fun _ => lines_threadSwitch he k)
        (lines_threadSwitch he k)

theorem lines_env (t : Thread) (k : Nat) : EnvLines t (env k : Env n) := by
  induction k with
  | zero =>
      have hstuck : Lines t (rounds 0 (pure none) : K n Unit) := lines_rounds (.pure none) 0
      exact ⟨hstuck, fun _ => hstuck⟩
  | succ k ih => exact ⟨lines_asActivate ih k, lines_handler ih k⟩

/-! ## Calls -/

theorem lines_procAddthread {p : Proc} : Lines t (procAddthread p u : K n Unit) := by
  refine .bind lines_kassert fun _ => .bind lines_spinlockAcquire fun _ =>
    .bind (lines_change fun c s => ?_) fun _ => .bind lines_spinlockRelease fun _ =>
      .bind lines_splx fun spl => .bind (lines_change fun c s => ?_) fun _ =>
        .bind lines_splx fun _ => .pure ()
  · exact .same rfl rfl rfl
  · exact .same rfl rfl rfl

theorem lines_procRemthread : Lines t (procRemthread : K n Unit) := by
  refine .bind lines_look fun proc => ?_
  cases proc with
  | none => exact lines_onCpu fun _ _ _ _ hx => by cases hx
  | some p =>
      refine .bind lines_spinlockAcquire fun _ => .bind (lines_onCpu fun c s x s' hx => ?_) fun _ =>
        .bind lines_spinlockRelease fun _ => .bind lines_splx fun spl =>
          .bind (lines_change fun c s => .same rfl rfl rfl) fun _ =>
            .bind lines_splx fun _ => .pure ()
      split at hx
      · cases hx
        exact .same rfl rfl rfl
      · cases hx

theorem lines_threadFork {memory : Bool} {proc : Option Proc} :
    Lines t (threadFork memory proc : K n Bool) := by
  refine .ite ?_ (.pure _)
  refine .bind (lines_onCpu fun c s x s' hx => ?_) fun newthread => .bind lines_look fun own => ?_
  · cases hx
    exact .same rfl rfl rfl
  · split
    · exact lines_onCpu fun _ _ _ _ hx => by cases hx
    · exact .bind lines_procAddthread fun _ =>
        .bind (lines_change fun c s => .same rfl rfl rfl) fun _ =>
          .bind lines_threadMakeRunnable fun _ => .pure _

theorem lines_threadExit {e : Env n} (he : EnvLines t e) (k : Nat) : Lines t (threadExit e k) := by
  have hpanic : Lines t (kpanic "braaaaaaaiiiiiiiiiiinssssss\n" : K n Unit) :=
    lines_onCpu fun _ _ _ _ hx => by cases hx
  have hrest : Lines t (do
      kassert (fun t _ s => s.tProc t == none) "cur->t_proc == NULL"
      let _ ← splhigh
      threadSwitch e k .zombie none
      kpanic "braaaaaaaiiiiiiiiiiinssssss\n" : K n Unit) :=
    .bind lines_kassert fun _ => .bind lines_splx fun _ => .bind (lines_threadSwitch he k) fun _ =>
      hpanic
  refine .bind lines_look fun proc => .ite ?_ hrest
  exact .bind lines_procRemthread fun _ => hrest

theorem lines_call (t : Thread) (k : Nat) (call : Call) : Lines t (call.program k : K n Unit) := by
  have he : EnvLines t (env k : Env n) := lines_env t k
  have hunder : ∀ {y : Nat} {p : K n Unit}, Lines t p → Lines t (underChan y p) := fun hp =>
    .bind lines_spinlockAcquire fun _ => .bind hp fun _ => lines_spinlockRelease
  cases call with
  | yield => exact lines_threadSwitch he k
  | semP x => exact lines_semP he k x
  | semV x => exact lines_semV
  | sleep y => exact hunder (lines_wchanSleep he k)
  | wakeone y => exact hunder lines_wchanWakeone
  | wakeall y => exact hunder lines_wchanWakeall
  | fork memory proc => exact .bind lines_threadFork fun _ => .pure ()
  | exit => exact lines_threadExit he k
  | sysExit x =>
      exact .bind lines_procRemthread fun _ => .bind lines_semV fun _ => lines_threadExit he k
  | shutdown => exact lines_ipiBroadcast

/-! ## Runs -/

theorem lines_of_reachable (hm : (machine n).Reachable m) (t : Thread) : Lines t (m.code t) := by
  refine hm.invariant (I := fun m => ∀ t, Lines t (m.code t)) (fun m hm t => ?_)
    (fun m m' ih hs t => ?_) t
  · obtain ⟨-, hfirst, hlater⟩ := hm
    by_cases ht : t < n
    · rw [hfirst t ht]
      exact .bind lines_splx fun _ => .pure ()
    · obtain ⟨k, hk⟩ := hlater t (Nat.not_lt.mp ht)
      rw [hk]
      exact .bind (lines_arrive (lines_env t k) k) fun _ => .bind lines_splx fun _ => .pure ()
  · have hdoing : ∀ {u : Thread} {p : K n Unit}, Lines u p → Lines t ((m.doing u p).code t) := by
      intro u p hp
      by_cases htu : t = u
      · subst htu
        simpa [Machine.doing] using hp
      · simpa [Machine.doing, htu] using ih t
    cases hs with
    | @act u _ f k x s hcode hf =>
        have hu := ih u
        rw [hcode] at hu
        exact hdoing (hu m.sched x s hf).2
    | call k call hcode hcur => exact hdoing (lines_call _ k call)
    | interrupt k i hcur hon hipi =>
        exact hdoing (.bind (lines_interrupted (lines_handler (lines_env _ k) k i)) fun _ => ih _)
    | rouse => exact ih t
    | setas => exact ih t

/-- One step treats the lists as queues. -/
theorem queued_of_step (hm : (machine n).Reachable m) (hs : Step m m') :
    Queued m.sched m'.sched := by
  cases hs with
  | @act u _ f k x s hcode hf =>
      have hu := lines_of_reachable hm u
      rw [hcode] at hu
      exact (hu m.sched x s hf).1
  | call => exact .same rfl rfl rfl
  | interrupt => exact .same rfl rfl rfl
  | rouse => exact .same rfl rfl rfl
  | setas => exact .same rfl rfl rfl

/-- In every interleaving, as long as a thread stays on a run queue, on a wait channel or on a
list of zombies, those ahead of it are served one after the other and nobody overtakes it. -/
theorem no_thread_overtakes (hm : (machine n).Reachable m) {q : Place n}
    (hu : u ∈ m.sched.list q)
    (hrun : Relation.ReflTransGen (fun m m' => Step m m' ∧ u ∈ m'.sched.list q) m m') :
    ahead u (m'.sched.list q) <:+ ahead u (m.sched.list q) := by
  -- along the run, reachable machines only
  have hall : (machine n).Reachable m' ∧ u ∈ m'.sched.list q ∧
      ahead u (m'.sched.list q) <:+ ahead u (m.sched.list q) := by
    induction hrun with
    | refl => exact ⟨hm, hu, List.suffix_refl _⟩
    | tail _ hs ih =>
        obtain ⟨hreach, hmem, hsuffix⟩ := ih
        obtain ⟨hstep, hmem'⟩ := hs
        obtain ⟨g, hi⟩ := (manned_of_reachable hreach).inv
        have hadv := queued_of_step hreach hstep q
        exact ⟨hreach.next hstep, hmem',
          (hadv.ahead_suffix (hi.orderly.once q) hmem hmem').trans hsuffix⟩
  exact hall.2.2

theorem Machine.run_of_moves {P : Machine n → Bool} {es : List (Event n)}
    (h : es.foldlM (fun m e => (m.move e).filter P) m = some m') :
    Relation.ReflTransGen (fun m m' => Step m m' ∧ P m' = true) m m' := by
  induction es generalizing m with
  | nil =>
      cases h
      exact .refl
  | cons e es ih =>
      obtain ⟨m1, h1, h⟩ := Option.bind_eq_some_iff.mp h
      obtain ⟨hmove, hP⟩ := Option.filter_eq_some_iff.mp h1
      exact .head ⟨step_of_move hmove, hP⟩ (ih h)

theorem no_thread_overtakes_device : ∃ m m' : Machine 2, Machine.play 2 3 (deviceRun 0) = some m ∧
    m.sched.wcThreads (.sem 1) = [0, 1] ∧ m'.sched.wcThreads (.sem 1) = [1] ∧
      ahead 1 (m'.sched.list (.chan (.sem 1))) <:+ ahead 1 (m.sched.list (.chan (.sem 1))) := by
  let P : Machine 2 → Bool := fun m => decide (1 ∈ m.sched.list (.chan (.sem 1)))
  have hplay : (Machine.play 2 3 (deviceRun 0)).bind (fun m =>
      ((List.replicate 6 (Event.act 1)).foldlM (fun m e => (Machine.move e m).filter P) m).map
        fun m' => (m.sched.wcThreads (.sem 1), m'.sched.wcThreads (.sem 1))) =
      some ([0, 1], [1]) := by
    decide +kernel
  obtain ⟨m, hm, hrest⟩ := Option.bind_eq_some_iff.mp hplay
  obtain ⟨m', hm', hlists⟩ := Option.map_eq_some_iff.mp hrest
  obtain ⟨hbefore, hafter⟩ := Prod.mk.inj hlists
  refine ⟨m, m', hm, hbefore, hafter, no_thread_overtakes (Machine.reachable_of_play hm) ?_ ?_⟩
  · show 1 ∈ m.sched.wcThreads (.sem 1)
    simp [hbefore]
  · refine Relation.ReflTransGen.mono ?_ _ _ (Machine.run_of_moves hm')
    exact fun _ _ h => ⟨h.1, of_decide_eq_true h.2⟩

end Os161Paging.Threads
