import Mathlib.Tactic.SplitIfs
import Os161Paging.ExitWait

/-!
# The protocol between an ending program and its waiter

The thread hands the process over to its waiter with one `V`. The
invariant says of every pair of places the two parties can be at what the
process and the semaphore look like; the point of it is that the waiter
gets through `P` only when the thread has left `sem_lock` for the last time
(`Inv.taken`). From it follow the safety of the handover, that it always
comes to its end, and which programs never get to their `V`.
-/

namespace Os161Paging.ExitWait

/-! ## What the two program counters say

The whole state can be read off the places of the two parties and the
result `e` of the start-up. -/

namespace ThreadPc

/-- `V` has been done. -/
def signalled (e : Nat) : ThreadPc → Bool
  | .semWake | .semRelease => true
  | .threadExit | .assertDetached | .zombie => e == 0
  | _ => false

/-- The thread is past its `V`. -/
def finished (e : Nat) : ThreadPc → Bool
  | .threadExit | .assertDetached | .zombie => e == 0
  | _ => false

def attached (e : Nat) : ThreadPc → Bool
  | .semAcquire | .semCount | .semWake | .semRelease | .assertDetached | .zombie => false
  | .threadExit => e != 0
  | _ => true

/-- The thread is counted in `p_numthreads`. -/
def counted (e : Nat) : ThreadPc → Bool
  | .detach _ => false
  | t => t.attached e

/-- The thread ends without `sys__exit`. -/
def failed (e : Nat) : ThreadPc → Bool
  | .remthread b | .detach b => b == .threadExit
  | .threadExit | .assertDetached | .zombie => e != 0
  | _ => false

def locks : ThreadPc → Bool
  | .semCount | .semWake | .semRelease => true
  | _ => false

theorem signalled_of_not_locks {e : Nat} {t : ThreadPc} (h : t.locks = false) :
    t.signalled e = t.finished e := by
  cases t <;> first | rfl | cases h

theorem not_locks_of_finished {e : Nat} {t : ThreadPc} (h : t.finished e = true) :
    t.locks = false := by
  cases t <;> first | rfl | cases h

theorem not_finished_of_attached {e : Nat} {t : ThreadPc} (h : t.attached e = true) :
    t.finished e = false := by
  cases t <;> first | rfl | cases h | simpa [finished, attached] using h

theorem not_counted_of_finished {e : Nat} {t : ThreadPc} (h : t.finished e = true) :
    t.counted e = false := by
  cases t <;> first | rfl | cases h | simpa [finished, counted, attached] using h

end ThreadPc

namespace WaiterPc

/-- The waiter has got through `P`. -/
def taken : WaiterPc → Bool
  | .semAcquire | .semTest | .asleep | .semRelock => false
  | _ => true

def locks : WaiterPc → Bool
  | .semTest | .semRelease => true
  | _ => false

def semFreed : WaiterPc → Bool
  | .freeProc _ | .done _ => true
  | _ => false

def procFreed : WaiterPc → Bool
  | .done _ => true
  | _ => false

def destroying : WaiterPc → Bool
  | .destroyAs _ | .assertThreads _ | .endWaitpid _ | .freeProc _ | .done _ => true
  | _ => false

end WaiterPc

structure Inv (s : State) : Prop where
  error : s.thread.failed s.error = (s.error != 0)
  tProc : s.tProc = s.thread.attached s.error
  signals : s.signals = (s.thread.signalled s.error).toNat
  numthreads : ∀ p, s.proc = some p → p.numthreads = (s.thread.counted s.error).toNat
  procLive : s.proc.isNone = s.waiter.procFreed
  semLive : s.sem.isNone = s.waiter.semFreed
  count : ∀ x, s.sem = some x →
    x.count + s.waiter.taken.toNat = (s.thread.signalled s.error).toNat
  lockThread : ∀ x, s.sem = some x → (x.lock = some .thread ↔ s.thread.locks = true)
  lockWaiter : ∀ x, s.sem = some x → (x.lock = some .waiter ↔ s.waiter.locks = true)
  waiting : ∀ x, s.sem = some x → (x.waiting = true ↔ s.waiter = .asleep)
  taken : s.waiter.taken = true → s.thread.finished s.error = true
  asleep : s.waiter = .asleep → s.thread.signalled s.error = true → s.thread = .semWake
  relock : s.waiter = .semRelock → s.thread.signalled s.error = true
  destroys : s.destroys = s.waiter.destroying.toNat
  asDestroyed : s.asDestroyed = true → s.waiter.destroying = true

theorem Inv.exiting (status : BitVec 32) (p : Proc) : Inv (.exiting status p) where
  error := rfl
  tProc := rfl
  signals := rfl
  numthreads q hq := by cases hq; rfl
  procLive := rfl
  semLive := rfl
  count x hx := by cases hx; rfl
  lockThread x hx := by cases hx; exact ⟨nofun, nofun⟩
  lockWaiter x hx := by cases hx; exact ⟨nofun, nofun⟩
  waiting x hx := by cases hx; exact ⟨nofun, nofun⟩
  taken := nofun
  asleep := nofun
  relock := nofun
  destroys := rfl
  asDestroyed := nofun

theorem Inv.started : Inv .started :=
  { Inv.exiting 0 ⟨1, 0, false⟩ with
    error := rfl
    tProc := rfl
    signals := rfl
    numthreads := fun q hq => by cases hq; rfl
    count := fun x hx => by cases hx; rfl
    lockThread := fun x hx => by cases hx; exact ⟨nofun, nofun⟩
    taken := nofun
    asleep := nofun
    relock := nofun }

variable {s s' : State}

theorem withProc_eq_ok {k : Proc → Outcome Blocked State} :
    s.withProc k = .ok s' ↔ ∃ p, s.proc = some p ∧ k p = .ok s' := by
  unfold State.withProc
  cases s.proc <;> simp

/-! ## What the two parties can do

Each branch of `waiterStep` and of `threadStep`, with what is found there. -/

inductive WaiterMoves (s : State) : State → Prop where
  | lock {x : Sem} (hw : s.waiter = .semAcquire ∨ s.waiter = .semRelock) (hx : s.sem = some x)
      (hl : x.lock = none) :
      WaiterMoves s { s with sem := some { x with lock := some .waiter }, waiter := .semTest }
  | sleep {x : Sem} (hw : s.waiter = .semTest) (hx : s.sem = some x) (hc : x.count = 0) :
      WaiterMoves s { s with
        sem := some { x with lock := none, waiting := true }, waiter := .asleep }
  | take {x : Sem} (hw : s.waiter = .semTest) (hx : s.sem = some x) (hc : x.count ≠ 0) :
      WaiterMoves s { s with sem := some { x with count := x.count - 1 }, waiter := .semRelease }
  | unlock {x : Sem} (hw : s.waiter = .semRelease) (hx : s.sem = some x) :
      WaiterMoves s { s with sem := some { x with lock := none }, waiter := .readStatus }
  | readStatus {p : Proc} (hw : s.waiter = .readStatus) (hp : s.proc = some p) :
      WaiterMoves s { s with waiter := .takeAs p.status }
  | takeAs {r : BitVec 32} {p : Proc} (hw : s.waiter = .takeAs r) (hp : s.proc = some p) :
      WaiterMoves s { s with
        proc := some { p with hasAs := false }, destroys := s.destroys + 1
        waiter := if p.hasAs then .destroyAs r else .assertThreads r }
  | destroyAs {r : BitVec 32} (hw : s.waiter = .destroyAs r) :
      WaiterMoves s { s with asDestroyed := true, waiter := .assertThreads r }
  | assertThreads {r : BitVec 32} (hw : s.waiter = .assertThreads r) :
      WaiterMoves s { s with waiter := .endWaitpid r }
  | endWaitpid {r : BitVec 32} (hw : s.waiter = .endWaitpid r) :
      WaiterMoves s { s with sem := none, waiter := .freeProc r }
  | freeProc {r : BitVec 32} (hw : s.waiter = .freeProc r) :
      WaiterMoves s { s with proc := none, waiter := .done r }

/-- How a step of the waiter ends. -/
inductive WaiterEnds (s : State) : Outcome Blocked State → Prop where
  | goes {s' : State} (h : WaiterMoves s s') : WaiterEnds s (.ok s')
  | locked {x : Sem} (hw : s.waiter = .semAcquire ∨ s.waiter = .semRelock) (hx : s.sem = some x)
      (hl : x.lock ≠ none) : WaiterEnds s (.wait .semLock)
  | asleep (hw : s.waiter = .asleep) : WaiterEnds s (.wait .wakeup)
  | done {r : BitVec 32} (hw : s.waiter = .done r) : WaiterEnds s (.wait .environment)
  | threadsLeft {r : BitVec 32} {p : Proc} {msg : String} (hw : s.waiter = .assertThreads r)
      (hp : s.proc = some p) (hn : p.numthreads ≠ 0) : WaiterEnds s (.panic msg)
  | semInUse {r : BitVec 32} {x : Sem} {msg : String} (hw : s.waiter = .endWaitpid r)
      (hx : s.sem = some x) (h : x.lock ≠ none ∨ x.waiting = true) : WaiterEnds s (.panic msg)
  | procGone (hw : s.waiter.procFreed = false) (hp : s.proc = none) : WaiterEnds s .undefined
  | semGone (hw : s.waiter.semFreed = false) (hx : s.sem = none) : WaiterEnds s .undefined

theorem WaiterEnds.withProc {k : Proc → Outcome Blocked State} (hw : s.waiter.procFreed = false)
    (h : ∀ p, s.proc = some p → WaiterEnds s (k p)) : WaiterEnds s (s.withProc k) := by
  unfold State.withProc
  cases hp : s.proc with
  | none => exact .procGone hw hp
  | some p => exact h p hp

theorem WaiterEnds.withSem {k : Sem → Outcome Blocked State} (hw : s.waiter.semFreed = false)
    (h : ∀ x, s.sem = some x → WaiterEnds s (k x)) : WaiterEnds s (s.withSem k) := by
  unfold State.withSem
  cases hx : s.sem with
  | none => exact .semGone hw hx
  | some x => exact h x hx

theorem waiterStep_ends (s : State) : WaiterEnds s (waiterStep s) := by
  unfold waiterStep
  cases hw : s.waiter with
  | semAcquire =>
      refine .withProc (by rw [hw]; rfl) fun p _ => .withSem (by rw [hw]; rfl) fun x hx => ?_
      split_ifs with hl
      · exact .goes (.lock (.inl hw) hx hl)
      · exact .locked (.inl hw) hx hl
  | semTest =>
      refine .withSem (by rw [hw]; rfl) fun x hx => ?_
      split_ifs with hc
      · exact .goes (.sleep hw hx hc)
      · exact .goes (.take hw hx hc)
  | asleep => exact .asleep hw
  | semRelock =>
      refine .withSem (by rw [hw]; rfl) fun x hx => ?_
      split_ifs with hl
      · exact .goes (.lock (.inr hw) hx hl)
      · exact .locked (.inr hw) hx hl
  | semRelease => exact .withSem (by rw [hw]; rfl) fun x hx => .goes (.unlock hw hx)
  | readStatus => exact .withProc (by rw [hw]; rfl) fun p hp => .goes (.readStatus hw hp)
  | takeAs r => exact .withProc (by rw [hw]; rfl) fun p hp => .goes (.takeAs hw hp)
  | destroyAs r => exact .goes (.destroyAs hw)
  | assertThreads r =>
      refine .withProc (by rw [hw]; rfl) fun p hp => ?_
      split_ifs with hn
      · exact .goes (.assertThreads hw)
      · exact .threadsLeft hw hp hn
  | endWaitpid r =>
      refine .withProc (by rw [hw]; rfl) fun p _ => .withSem (by rw [hw]; rfl) fun x hx => ?_
      split_ifs with hl hwait
      · exact .semInUse hw hx (.inr hwait)
      · exact .goes (.endWaitpid hw)
      · exact .semInUse hw hx (.inl hl)
  | freeProc r => exact .withProc (by rw [hw]; rfl) fun p _ => .goes (.freeProc hw)
  | done r => exact .done hw

theorem waiterStep_moves (h : waiterStep s = .ok s') : WaiterMoves s s' := by
  have hends := waiterStep_ends s
  rw [h] at hends
  cases hends with
  | goes hm => exact hm

inductive ThreadMoves (s : State) : State → Prop where
  | exitStatus {status : BitVec 32} {p : Proc} (ht : s.thread = .exitStatus status)
      (hp : s.proc = some p) :
      ThreadMoves s { s with
        proc := some { p with status := status &&& 0xff }, thread := .remthread .sysExit }
  | remthread {b : Back} {p : Proc} (ht : s.thread = .remthread b) (hb : s.tProc = true)
      (hp : s.proc = some p) :
      ThreadMoves s { s with
        proc := some { p with numthreads := p.numthreads - 1 }, thread := .detach b }
  | detachExit (ht : s.thread = .detach .sysExit) :
      ThreadMoves s { s with tProc := false, thread := .semAcquire }
  | detachEnd (ht : s.thread = .detach .threadExit) :
      ThreadMoves s { s with tProc := false, thread := .assertDetached }
  | lock {x : Sem} (ht : s.thread = .semAcquire) (hx : s.sem = some x) (hl : x.lock = none) :
      ThreadMoves s { s with sem := some { x with lock := some .thread }, thread := .semCount }
  | count {x : Sem} (ht : s.thread = .semCount) (hx : s.sem = some x) :
      ThreadMoves s { s with
        sem := some { x with count := (x.count + 1) % 2 ^ 32 }, thread := .semWake
        signals := s.signals + 1 }
  | wake {x : Sem} (ht : s.thread = .semWake) (hx : s.sem = some x) (hwait : x.waiting = true) :
      ThreadMoves s { s with
        sem := some { x with waiting := false }, thread := .semRelease, waiter := .semRelock }
  | noWake {x : Sem} (ht : s.thread = .semWake) (hx : s.sem = some x) (hwait : x.waiting = false) :
      ThreadMoves s { s with thread := .semRelease }
  | unlock {x : Sem} (ht : s.thread = .semRelease) (hx : s.sem = some x) :
      ThreadMoves s { s with sem := some { x with lock := none }, thread := .threadExit }
  | threadExit (ht : s.thread = .threadExit) :
      ThreadMoves s { s with
        thread := if s.tProc then .remthread .threadExit else .assertDetached }
  | zombie (ht : s.thread = .assertDetached) : ThreadMoves s { s with thread := .zombie }

/-- How a step of the thread ends. -/
inductive ThreadEnds (s : State) : Outcome Blocked State → Prop where
  | goes {s' : State} (h : ThreadMoves s s') : ThreadEnds s (.ok s')
  | outside (ht : s.thread = .user ∨ s.thread = .zombie ∨ ∃ st, s.thread = .startup st) :
      ThreadEnds s (.wait .environment)
  | locked {x : Sem} (ht : s.thread = .semAcquire) (hx : s.sem = some x) (hl : x.lock ≠ none) :
      ThreadEnds s (.wait .semLock)
  | noThreads {b : Back} {p : Proc} {msg : String} (ht : s.thread = .remthread b)
      (hp : s.proc = some p) (hn : ¬ p.numthreads > 0) : ThreadEnds s (.panic msg)
  | detached {b : Back} {msg : String} (ht : s.thread = .remthread b) (hb : ¬ s.tProc = true) :
      ThreadEnds s (.panic msg)
  | overflow {x : Sem} {msg : String} (ht : s.thread = .semCount) (hx : s.sem = some x)
      (hc : (x.count + 1) % 2 ^ 32 = 0) : ThreadEnds s (.panic msg)
  | attached {msg : String} (ht : s.thread = .assertDetached) (hb : s.tProc = true) :
      ThreadEnds s (.panic msg)
  | gone (ht : s.thread.finished s.error = false) (h : s.proc = none ∨ s.sem = none) :
      ThreadEnds s .undefined

theorem ThreadEnds.withProc {k : Proc → Outcome Blocked State}
    (ht : s.thread.finished s.error = false) (h : ∀ p, s.proc = some p → ThreadEnds s (k p)) :
    ThreadEnds s (s.withProc k) := by
  unfold State.withProc
  cases hp : s.proc with
  | none => exact .gone ht (.inl hp)
  | some p => exact h p hp

theorem ThreadEnds.withSem {k : Sem → Outcome Blocked State}
    (ht : s.thread.finished s.error = false) (h : ∀ x, s.sem = some x → ThreadEnds s (k x)) :
    ThreadEnds s (s.withSem k) := by
  unfold State.withSem
  cases hx : s.sem with
  | none => exact .gone ht (.inr hx)
  | some x => exact h x hx

theorem threadStep_ends (s : State) : ThreadEnds s (threadStep s) := by
  unfold threadStep
  cases ht : s.thread with
  | startup st => exact .outside (.inr (.inr ⟨st, ht⟩))
  | user => exact .outside (.inl ht)
  | zombie => exact .outside (.inr (.inl ht))
  | exitStatus status => exact .withProc (by rw [ht]; rfl) fun p hp => .goes (.exitStatus ht hp)
  | remthread b =>
      dsimp only
      split_ifs with hb
      · refine .withProc (by rw [ht]; rfl) fun p hp => ?_
        split_ifs with hn
        · exact .goes (.remthread ht hb hp)
        · exact .noThreads ht hp hn
      · exact .detached ht hb
  | detach b =>
      cases b with
      | sysExit => exact .goes (.detachExit ht)
      | threadExit => exact .goes (.detachEnd ht)
  | semAcquire =>
      refine .withProc (by rw [ht]; rfl) fun p _ => .withSem (by rw [ht]; rfl) fun x hx => ?_
      split_ifs with hl
      · exact .goes (.lock ht hx hl)
      · exact .locked ht hx hl
  | semCount =>
      refine .withSem (by rw [ht]; rfl) fun x hx => ?_
      split_ifs with hc
      · exact .overflow ht hx hc
      · exact .goes (.count ht hx)
  | semWake =>
      refine .withSem (by rw [ht]; rfl) fun x hx => ?_
      split_ifs with hwait
      · exact .goes (.wake ht hx hwait)
      · exact .goes (.noWake ht hx (Bool.eq_false_iff.mpr hwait))
  | semRelease => exact .withSem (by rw [ht]; rfl) fun x hx => .goes (.unlock ht hx)
  | threadExit => exact .goes (.threadExit ht)
  | assertDetached =>
      dsimp only
      split_ifs with hb
      · exact .attached ht hb
      · exact .goes (.zombie ht)

theorem threadStep_moves (h : threadStep s = .ok s') : ThreadMoves s s' := by
  have hends := threadStep_ends s
  rw [h] at hends
  cases hends with
  | goes hm => exact hm

/-- A step of the start-up fails, or leads to the next one with the structure still there. -/
theorem startupStep_eq_ok {result : Nat} (h : startupStep result s = .ok s') :
    ∃ st, s.thread = .startup st ∧
      (result ≠ 0 ∧ s' = { s with thread := .threadExit, error := result } ∨
        result = 0 ∧ ∃ proc, (proc = s.proc ∨
          ∃ p, s.proc = some p ∧ proc = some { p with hasAs := true }) ∧
          s' = { s with proc := proc, thread := st.next }) := by
  unfold startupStep at h
  split at h
  · next st ht =>
      refine ⟨st, ht, ?_⟩
      split_ifs at h with hres hst
      · exact .inl ⟨hres, (Outcome.ok.inj h).symm⟩
      · obtain ⟨p, hp, h⟩ := withProc_eq_ok.mp h
        exact .inr ⟨not_not.mp hres, _, .inr ⟨p, hp, rfl⟩, (Outcome.ok.inj h).symm⟩
      · exact .inr ⟨not_not.mp hres, _, .inl rfl, (Outcome.ok.inj h).symm⟩
  · exact absurd h nofun

theorem sysExit_eq_ok {status : BitVec 32} (h : sysExit status s = .ok s') :
    s.thread = .user ∧ s' = { s with thread := .exitStatus status } := by
  unfold sysExit at h
  split at h
  · next ht => exact ⟨ht, (Outcome.ok.inj h).symm⟩
  · exact absurd h nofun

theorem activate_eq_ok (h : activate s = .ok s') : s' = s := by
  unfold activate at h
  split_ifs at h
  · obtain ⟨p, -, h⟩ := withProc_eq_ok.mp h
    exact (Outcome.ok.inj h).symm
  · exact (Outcome.ok.inj h).symm

section Waiter

attribute [local simp] WaiterPc.taken WaiterPc.locks WaiterPc.semFreed WaiterPc.procFreed
  WaiterPc.destroying

/-- Taking `sem_lock`, at the start of `P` or after a wakeup. -/
theorem Inv.waiterLock {x : Sem} (hi : Inv s) (hx : s.sem = some x) (hl : x.lock = none)
    (hw : s.waiter = .semAcquire ∨ s.waiter = .semRelock) :
    Inv { s with sem := some { x with lock := some .waiter }, waiter := .semTest } := by
  have hT := (hi.lockThread x hx).not.mp (by simp [hl])
  rcases hw with hw | hw <;>
  · exact { hi with
      procLive := by simpa [hw] using hi.procLive
      semLive := by simp
      count := fun y hy => by cases hy; simpa [hw] using hi.count x hx
      lockThread := fun y hy => by cases hy; simpa using hT
      lockWaiter := fun y hy => by cases hy; simp
      waiting := fun y hy => by cases hy; simpa [hw] using hi.waiting x hx
      taken := by simp
      asleep := by simp
      relock := by simp
      destroys := by simpa [hw] using hi.destroys
      asDestroyed := by simpa [hw] using hi.asDestroyed }

theorem Inv.waiterSleep {x : Sem} (hi : Inv s) (hx : s.sem = some x) (hc : x.count = 0)
    (hw : s.waiter = .semTest) :
    Inv { s with sem := some { x with lock := none, waiting := true }, waiter := .asleep } := by
  have hT : s.thread.locks = false := by
    have hlock := (hi.lockWaiter x hx).mpr (by simp [hw])
    simpa [hlock] using hi.lockThread x hx
  have hs : s.thread.signalled s.error = false := by
    simpa [hc, hw] using (hi.count x hx).symm
  exact { hi with
    procLive := by simpa [hw] using hi.procLive
    semLive := by simp
    count := fun y hy => by cases hy; simpa [hw] using hi.count x hx
    lockThread := fun y hy => by cases hy; simp [hT]
    lockWaiter := fun y hy => by cases hy; simp
    waiting := fun y hy => by cases hy; simp
    taken := by simp
    asleep := fun _ hsig => by simp [hs] at hsig
    relock := by simp
    destroys := by simpa [hw] using hi.destroys
    asDestroyed := by simpa [hw] using hi.asDestroyed }

theorem Inv.waiterTake {x : Sem} (hi : Inv s) (hx : s.sem = some x) (hc : x.count ≠ 0)
    (hw : s.waiter = .semTest) :
    Inv { s with sem := some { x with count := x.count - 1 }, waiter := .semRelease } := by
  have hlock := (hi.lockWaiter x hx).mpr (by simp [hw])
  have hT : s.thread.locks = false := by simpa [hlock] using hi.lockThread x hx
  have hcount := hi.count x hx
  simp only [hw, WaiterPc.taken, Bool.toNat_false, Nat.add_zero] at hcount
  have hs : s.thread.signalled s.error = true := by
    cases hsig : s.thread.signalled s.error with
    | false => exact absurd (by simpa [hsig] using hcount) hc
    | true => rfl
  exact { hi with
    procLive := by simpa [hw] using hi.procLive
    semLive := by simp
    count := fun y hy => by cases hy; simp [hcount, hs]
    lockThread := fun y hy => by cases hy; simp [hT, hlock]
    lockWaiter := fun y hy => by cases hy; simp [hlock]
    waiting := fun y hy => by cases hy; simpa [hw] using hi.waiting x hx
    taken := fun _ => (ThreadPc.signalled_of_not_locks hT).symm.trans hs
    asleep := by simp
    relock := by simp
    destroys := by simpa [hw] using hi.destroys
    asDestroyed := by simpa [hw] using hi.asDestroyed }

theorem Inv.waiterUnlock {x : Sem} (hi : Inv s) (hx : s.sem = some x)
    (hw : s.waiter = .semRelease) :
    Inv { s with sem := some { x with lock := none }, waiter := .readStatus } := by
  have hlock := (hi.lockWaiter x hx).mpr (by simp [hw])
  have hT : s.thread.locks = false := by simpa [hlock] using hi.lockThread x hx
  exact { hi with
    procLive := by simpa [hw] using hi.procLive
    semLive := by simp
    count := fun y hy => by cases hy; simpa [hw] using hi.count x hx
    lockThread := fun y hy => by cases hy; simp [hT]
    lockWaiter := fun y hy => by cases hy; simp
    waiting := fun y hy => by cases hy; simpa [hw] using hi.waiting x hx
    taken := fun _ => hi.taken (by simp [hw])
    asleep := by simp
    relock := by simp
    destroys := by simpa [hw] using hi.destroys
    asDestroyed := by simpa [hw] using hi.asDestroyed }

/-- Going on after `P` with the semaphore and the structure still there. -/
theorem Inv.waiterGo {q : WaiterPc} (hi : Inv s) (ht : s.waiter.taken = true)
    (hl : s.waiter.locks = false) (hq : q.taken = true) (hql : q.locks = false)
    (hsem : q.semFreed = s.waiter.semFreed) (hproc : q.procFreed = s.waiter.procFreed)
    (hd : q.destroying = s.waiter.destroying) : Inv { s with waiter := q } := by
  have hne : s.waiter ≠ .asleep := fun h => by simp [h] at ht
  have hqne : q ≠ .asleep := fun h => by simp [h] at hq
  exact { hi with
    procLive := hi.procLive.trans hproc.symm
    semLive := hi.semLive.trans hsem.symm
    count := fun y hy => by simpa only [ht, hq] using hi.count y hy
    lockWaiter := fun y hy => by simpa only [hl, hql] using hi.lockWaiter y hy
    waiting := fun y hy => by simpa [hne, hqne] using hi.waiting y hy
    taken := fun _ => hi.taken ht
    asleep := fun h => absurd h hqne
    relock := fun h => by simp [show q = _ from h] at hq
    destroys := hi.destroys.trans (by rw [hd])
    asDestroyed := fun h => hd.trans (hi.asDestroyed h) }

theorem Inv.takeAs {r : BitVec 32} {p : Proc} {q : WaiterPc} (hi : Inv s)
    (hw : s.waiter = .takeAs r) (hp : s.proc = some p)
    (hq : q = .destroyAs r ∨ q = .assertThreads r) :
    Inv { s with
      proc := some { p with hasAs := false }, destroys := s.destroys + 1, waiter := q } := by
  rcases hq with rfl | rfl <;>
  · exact { hi with
      numthreads := fun p' hp' => by cases hp'; exact hi.numthreads p hp
      procLive := by simp
      semLive := by simpa [hw] using hi.semLive
      count := fun y hy => by simpa [hw] using hi.count y hy
      lockWaiter := fun y hy => by simpa [hw] using hi.lockWaiter y hy
      waiting := fun y hy => by simpa [hw] using hi.waiting y hy
      taken := fun _ => hi.taken (by simp [hw])
      asleep := by simp
      relock := by simp
      destroys := by simpa [hw] using hi.destroys
      asDestroyed := by simp }

theorem Inv.endWaitpid {r : BitVec 32} (hi : Inv s) (hw : s.waiter = .endWaitpid r) :
    Inv { s with sem := none, waiter := .freeProc r } :=
  { hi with
    procLive := by simpa [hw] using hi.procLive
    semLive := by simp
    count := nofun
    lockThread := nofun
    lockWaiter := nofun
    waiting := nofun
    taken := fun _ => hi.taken (by simp [hw])
    asleep := by simp
    relock := by simp
    destroys := by simpa [hw] using hi.destroys
    asDestroyed := by simp }

theorem Inv.freeProc {r : BitVec 32} (hi : Inv s) (hw : s.waiter = .freeProc r) :
    Inv { s with proc := none, waiter := .done r } := by
  have hsem : s.sem = none := by simpa [hw] using hi.semLive
  exact { hi with
    numthreads := nofun
    procLive := by simp
    semLive := by simp [hsem]
    count := fun y hy => by simp [hsem] at hy
    lockWaiter := fun y hy => by simp [hsem] at hy
    waiting := fun y hy => by simp [hsem] at hy
    taken := fun _ => hi.taken (by simp [hw])
    asleep := by simp
    relock := by simp
    destroys := by simpa [hw] using hi.destroys
    asDestroyed := by simp }

theorem Inv.of_waiterMoves (hi : Inv s) (h : WaiterMoves s s') : Inv s' := by
  cases h with
  | lock hw hx hl => exact hi.waiterLock hx hl hw
  | sleep hw hx hc => exact hi.waiterSleep hx hc hw
  | take hw hx hc => exact hi.waiterTake hx hc hw
  | unlock hw hx => exact hi.waiterUnlock hx hw
  | readStatus hw hp =>
      exact hi.waiterGo (by simp [hw]) (by simp [hw]) rfl rfl (by simp [hw]) (by simp [hw])
        (by simp [hw])
  | takeAs hw hp => exact hi.takeAs hw hp (by split <;> simp)
  | @destroyAs r hw =>
      have hgo := hi.waiterGo (q := .assertThreads r) (by simp [hw]) (by simp [hw]) rfl rfl
        (by simp [hw]) (by simp [hw]) (by simp [hw])
      exact { hgo with asDestroyed := fun _ => rfl }
  | assertThreads hw =>
      exact hi.waiterGo (by simp [hw]) (by simp [hw]) rfl rfl (by simp [hw]) (by simp [hw])
        (by simp [hw])
  | endWaitpid hw => exact hi.endWaitpid hw
  | freeProc hw => exact hi.freeProc hw

end Waiter

section Thread

/-- As long as the thread is not past its `V`, the waiter is still in `P`. -/
theorem Inv.not_taken (hi : Inv s) (h : s.thread.finished s.error = false) :
    s.waiter.taken = false := by
  cases ht : s.waiter.taken with
  | false => rfl
  | true => exact absurd (hi.taken ht) (by simp [h])

/-- A step of the thread that leaves the semaphore alone and is not a signal. -/
theorem Inv.threadGo {t : ThreadPc} {e : Nat} {b : Bool} {proc : Option Proc} (hi : Inv s)
    (hfail : t.failed e = (e != 0)) (hb : b = t.attached e)
    (hsig : t.signalled e = s.thread.signalled s.error) (hwake : s.thread ≠ .semWake)
    (hlock : t.locks = s.thread.locks)
    (hfin : s.thread.finished s.error = true → t.finished e = true)
    (hnum : ∀ p, proc = some p → p.numthreads = (t.counted e).toNat)
    (hproc : proc.isNone = s.proc.isNone) :
    Inv { s with proc := proc, tProc := b, thread := t, error := e } :=
  { hi with
    error := hfail
    tProc := hb
    signals := by simpa only [hsig] using hi.signals
    numthreads := hnum
    procLive := hproc.trans hi.procLive
    count := fun x hx => by simpa only [hsig] using hi.count x hx
    lockThread := fun x hx => by simpa only [hlock] using hi.lockThread x hx
    taken := fun h => hfin (hi.taken h)
    asleep := fun ha hs => absurd (hi.asleep ha (hsig ▸ hs)) hwake
    relock := fun h => hsig.trans (hi.relock h) }

attribute [local simp] ThreadPc.failed ThreadPc.attached ThreadPc.signalled ThreadPc.counted
  ThreadPc.finished ThreadPc.locks

theorem Inv.of_startupStep {result : Nat} (hi : Inv s) (h : startupStep result s = .ok s') :
    Inv s' := by
  obtain ⟨st, ht, hs'⟩ := startupStep_eq_ok h
  have herr : s.error = 0 := by simpa [ht] using hi.error.symm
  have htp : s.tProc = true := by simpa [ht] using hi.tProc
  have hnum : ∀ p, s.proc = some p → p.numthreads = 1 := by simpa [ht] using hi.numthreads
  rcases hs' with ⟨hres, rfl⟩ | ⟨-, proc, hproc, rfl⟩
  · have hne : (result != 0) = true := bne_iff_ne.mpr hres
    exact hi.threadGo (b := s.tProc) (by simp) (by simp [htp, hne]) (by simp [ht, hres])
      (by simp [ht]) (by simp [ht]) (by simp [ht]) (fun p hp => by simp [hnum p hp, hne]) rfl
  · have hone : ∀ q, proc = some q → q.numthreads = 1 := by
      intro q hq
      rcases hproc with rfl | ⟨p, hp, rfl⟩
      · exact hnum q hq
      · cases hq
        exact hnum p hp
    have hlive : proc.isNone = s.proc.isNone := by
      rcases hproc with rfl | ⟨p, hp, rfl⟩
      · rfl
      · rw [hp]
        rfl
    exact hi.threadGo (b := s.tProc) (by cases st <;> simp [Stage.next, herr])
      (by cases st <;> simp [Stage.next, htp]) (by cases st <;> simp [Stage.next, ht])
      (by simp [ht]) (by cases st <;> simp [Stage.next, ht]) (by simp [ht])
      (fun q hq => by cases st <;> simp [Stage.next, hone q hq]) hlive

theorem Inv.of_sysExit {status : BitVec 32} (hi : Inv s) (h : sysExit status s = .ok s') :
    Inv s' := by
  obtain ⟨ht, rfl⟩ := sysExit_eq_ok h
  have hnum := hi.numthreads
  simp only [ht] at hnum
  exact hi.threadGo (b := s.tProc) (by simpa [ht] using hi.error) (by simpa [ht] using hi.tProc)
    (by simp [ht]) (by simp [ht]) (by simp [ht]) (by simp [ht]) hnum rfl

/-- `V` up to the increment, and the wakeup after it. -/
theorem Inv.threadLock {x : Sem} (hi : Inv s) (hx : s.sem = some x) (hl : x.lock = none)
    (ht : s.thread = .semAcquire) :
    Inv { s with sem := some { x with lock := some .thread }, thread := .semCount } := by
  have hW : s.waiter.locks = false := by simpa [hl] using hi.lockWaiter x hx
  have hsem := hi.semLive
  exact { hi with
    error := by simpa [ht] using hi.error
    tProc := by simpa [ht] using hi.tProc
    signals := by simpa [ht] using hi.signals
    numthreads := fun p hp => by simpa [ht] using hi.numthreads p hp
    semLive := by simpa [hx] using hsem
    count := fun y hy => by cases hy; simpa [ht] using hi.count x hx
    lockThread := fun y hy => by cases hy; simp
    lockWaiter := fun y hy => by cases hy; simp [hW]
    waiting := fun y hy => by cases hy; exact hi.waiting x hx
    taken := fun h => by simpa [ht] using hi.taken h
    asleep := fun _ hs => by simp at hs
    relock := fun h => by simpa [ht] using hi.relock h }

theorem Inv.threadCount {x : Sem} (hi : Inv s) (hx : s.sem = some x) (ht : s.thread = .semCount) :
    x.count = 0 ∧
      Inv { s with sem := some { x with count := 1 }, thread := .semWake
                   signals := s.signals + 1 } := by
  have htaken := hi.not_taken (by simp [ht])
  have hcount := hi.count x hx
  have hsem := hi.semLive
  simp only [htaken, ht, ThreadPc.signalled, Bool.toNat_false, Nat.add_zero] at hcount
  refine ⟨hcount, { hi with
    error := by simpa [ht] using hi.error
    tProc := by simpa [ht] using hi.tProc
    signals := by simpa [ht] using hi.signals
    numthreads := fun p hp => by simpa [ht] using hi.numthreads p hp
    semLive := by simpa [hx] using hsem
    count := fun y hy => by cases hy; simp [htaken]
    lockThread := fun y hy => by cases hy; simpa [ht] using hi.lockThread x hx
    lockWaiter := fun y hy => by cases hy; exact hi.lockWaiter x hx
    waiting := fun y hy => by cases hy; exact hi.waiting x hx
    taken := fun h => by simp [htaken] at h
    asleep := fun _ _ => rfl
    relock := fun _ => by simp }⟩

theorem Inv.threadWake {x : Sem} {w : WaiterPc} (hi : Inv s) (hx : s.sem = some x)
    (ht : s.thread = .semWake)
    (hw : (x.waiting = true ∧ w = .semRelock) ∨ (x.waiting = false ∧ w = s.waiter)) :
    Inv { s with sem := some { x with waiting := false }, thread := .semRelease, waiter := w } := by
  have htaken := hi.not_taken (by simp [ht])
  have hlock := hi.lockThread x hx
  have herr : s.error = 0 := by simpa [ht] using hi.error.symm
  have base : ∀ w : WaiterPc, w.procFreed = s.waiter.procFreed → w.semFreed = s.waiter.semFreed →
      w.taken = s.waiter.taken → w.locks = s.waiter.locks → w.destroying = s.waiter.destroying →
      w ≠ .asleep →
      Inv { s with sem := some { x with waiting := false }, thread := .semRelease
                   waiter := w } := by
    intro w h1 h2 h3 h4 h5 h6
    have hsem := hi.semLive
    exact { hi with
      error := by simp [herr]
      tProc := by simpa [ht] using hi.tProc
      signals := by simpa [ht] using hi.signals
      numthreads := fun p hp => by simpa [ht] using hi.numthreads p hp
      procLive := hi.procLive.trans h1.symm
      semLive := by simpa [hx, h2] using hsem
      count := fun y hy => by cases hy; simpa [ht, h3] using hi.count x hx
      lockThread := fun y hy => by cases hy; simpa [ht] using hlock
      lockWaiter := fun y hy => by cases hy; simpa only [h4] using hi.lockWaiter x hx
      waiting := fun y hy => by cases hy; simp [h6]
      taken := fun h => by simp [h3, htaken] at h
      asleep := fun h => absurd h h6
      relock := fun _ => by simp
      destroys := by simpa only [h5] using hi.destroys
      asDestroyed := fun h => by simpa only [h5] using hi.asDestroyed h }
  rcases hw with ⟨hwait, rfl⟩ | ⟨hwait, rfl⟩
  · have hw := (hi.waiting x hx).mp hwait
    exact base _ (by rw [hw]; rfl) (by rw [hw]; rfl) (by rw [hw]; rfl) (by rw [hw]; rfl)
      (by rw [hw]; rfl) nofun
  · refine base _ rfl rfl rfl rfl rfl fun hw => ?_
    simp [(hi.waiting x hx).mpr hw] at hwait

theorem Inv.threadUnlock {x : Sem} (hi : Inv s) (hx : s.sem = some x)
    (ht : s.thread = .semRelease) :
    Inv { s with sem := some { x with lock := none }, thread := .threadExit } := by
  have herr : s.error = 0 := by simpa [ht] using hi.error.symm
  have hlock := (hi.lockThread x hx).mpr (by simp [ht])
  have hW : s.waiter.locks = false := by simpa [hlock] using hi.lockWaiter x hx
  have hsem := hi.semLive
  exact { hi with
    error := by simp [herr]
    tProc := by simpa [ht, herr] using hi.tProc
    signals := by simpa [ht, herr] using hi.signals
    numthreads := fun p hp => by simpa [ht, herr] using hi.numthreads p hp
    semLive := by simpa [hx] using hsem
    count := fun y hy => by cases hy; simpa [ht, herr] using hi.count x hx
    lockThread := fun y hy => by cases hy; simp
    lockWaiter := fun y hy => by cases hy; simp [hW]
    waiting := fun y hy => by cases hy; exact hi.waiting x hx
    taken := fun _ => by simp [herr]
    asleep := fun ha _ => absurd (hi.asleep ha (by simp [ht])) (by simp [ht])
    relock := fun _ => by simp [herr] }

theorem Inv.of_threadMoves (hi : Inv s) (h : ThreadMoves s s') : Inv s' := by
  have herr := hi.error
  have htp := hi.tProc
  have hnum := hi.numthreads
  cases h with
  | @exitStatus status p ht hp =>
      simp only [ht] at herr htp hnum
      exact hi.threadGo (b := s.tProc) herr htp (by simp [ht]) (by simp [ht]) (by simp [ht])
        (by simp [ht]) (fun q hq => by cases hq; exact hnum p hp) (by simp [hp])
  | @remthread b p ht hb hp =>
      simp only [ht] at herr hnum
      exact hi.threadGo (b := s.tProc) herr (by simp [hb]) (by simp [ht]) (by simp [ht])
        (by simp [ht]) (by simp [ht]) (fun q hq => by cases hq; simp [hnum p hp]) (by simp [hp])
  | detachExit ht =>
      simp only [ht] at herr hnum
      exact hi.threadGo herr rfl (by simp [ht]) (by simp [ht]) (by simp [ht]) (by simp [ht])
        hnum rfl
  | detachEnd ht =>
      simp only [ht] at herr hnum
      have hne : (s.error != 0) = true := herr.symm
      exact hi.threadGo rfl rfl (by simpa [ht] using hne) (by simp [ht]) (by simp [ht])
        (by simp [ht]) hnum rfl
  | lock ht hx hl => exact hi.threadLock hx hl ht
  | @count x ht hx =>
      obtain ⟨hzero, hi'⟩ := hi.threadCount hx ht
      have hone : (x.count + 1) % 2 ^ 32 = 1 := by simp [hzero]
      rwa [hone]
  | wake ht hx hwait => exact hi.threadWake hx ht (.inl ⟨hwait, rfl⟩)
  | @noWake x ht hx hwait =>
      have hi' := hi.threadWake hx ht (.inr ⟨hwait, rfl⟩)
      have hsame : ({ x with waiting := false } : Sem) = x := by rw [← hwait]
      rwa [hsame, ← hx] at hi'
  | unlock ht hx => exact hi.threadUnlock hx ht
  | threadExit ht =>
      simp only [ht] at herr hnum htp
      cases hb : s.tProc with
      | true =>
          have hne : (s.error != 0) = true := htp.symm.trans hb
          have hi' := hi.threadGo (t := .remthread .threadExit) (b := true) hne.symm rfl
            (by simpa [ht] using hne) (by simp [ht]) (by simp [ht]) (by simpa [ht] using hne)
            (fun p hp => by simpa [hne] using hnum p hp) rfl
          simpa only [hb, if_true] using hi'
      | false =>
          have hz : (s.error != 0) = false := htp.symm.trans hb
          have hi' := hi.threadGo (t := .assertDetached) (e := s.error) (b := false) rfl rfl
            (by simp [ht]) (by simp [ht]) (by simp [ht]) (by simp [ht])
            (fun p hp => by simpa [hz] using hnum p hp) rfl
          simpa only [hb, Bool.false_eq_true, if_false] using hi'
  | zombie ht =>
      simp only [ht] at herr hnum htp
      exact hi.threadGo (b := s.tProc) rfl htp (by simp [ht]) (by simp [ht]) (by simp [ht])
        (by simp [ht]) hnum rfl

end Thread

theorem Inv.of_outcome {m : Move} (hi : Inv s) (h : outcome m s = .ok s') : Inv s' := by
  cases m with
  | startup result => exact hi.of_startupStep h
  | sysExit status => exact hi.of_sysExit h
  | thread => exact hi.of_threadMoves (threadStep_moves h)
  | waiter => exact hi.of_waiterMoves (waiterStep_moves h)
  | activate => exact activate_eq_ok h ▸ hi

/-! ## No step goes wrong -/

theorem WaiterPc.taken_of_destroying {w : WaiterPc} (h : w.destroying = true) :
    w.taken = true := by
  cases w <;> first | rfl | cases h

theorem WaiterPc.freed_of_not_taken {w : WaiterPc} (h : w.taken = false) :
    w.procFreed = false ∧ w.semFreed = false := by
  cases w <;> simp_all [taken, procFreed, semFreed]

theorem Inv.exists_proc (hi : Inv s) (h : s.waiter.procFreed = false) : ∃ p, s.proc = some p := by
  have hlive := hi.procLive.trans h
  simpa [← Option.isSome_iff_exists] using hlive

theorem Inv.exists_sem (hi : Inv s) (h : s.waiter.semFreed = false) : ∃ x, s.sem = some x := by
  have hlive := hi.semLive.trans h
  simpa [← Option.isSome_iff_exists] using hlive

theorem Inv.locks_of_lock {x : Sem} (hi : Inv s) (hx : s.sem = some x) (hl : x.lock ≠ none) :
    s.thread.locks = true ∨ s.waiter.locks = true := by
  cases hp : x.lock with
  | none => exact absurd hp hl
  | some party =>
      cases party with
      | thread => exact .inl ((hi.lockThread x hx).mp hp)
      | waiter => exact .inr ((hi.lockWaiter x hx).mp hp)

/-- The thread goes on, or has nothing to do in the kernel, or waits for a
`sem_lock` that the waiter holds. -/
theorem Inv.threadStep_cases (hi : Inv s) :
    (∃ s', threadStep s = .ok s') ∨
      (threadStep s = .wait .environment ∧
        (s.thread = .user ∨ s.thread = .zombie ∨ ∃ st, s.thread = .startup st)) ∨
      (threadStep s = .wait .semLock ∧ s.waiter.locks = true) := by
  have hends := threadStep_ends s
  generalize threadStep s = o at hends ⊢
  cases hends with
  | goes h => exact .inl ⟨_, rfl⟩
  | outside ht => exact .inr (.inl ⟨rfl, ht⟩)
  | locked ht hx hl =>
      refine .inr (.inr ⟨rfl, (hi.locks_of_lock hx hl).resolve_left ?_⟩)
      rw [ht]
      exact nofun
  | @noThreads b p _ ht hp hn =>
      refine absurd ?_ hn
      rw [hi.numthreads p hp, ht]
      exact Nat.one_pos
  | detached ht hb =>
      refine absurd (hi.tProc.trans ?_) hb
      rw [ht]
      rfl
  | @overflow x _ ht hx hc =>
      rw [(hi.threadCount hx ht).1] at hc
      cases hc
  | attached ht hb =>
      rw [hi.tProc, ht] at hb
      cases hb
  | gone ht h =>
      obtain ⟨hp, hx⟩ := WaiterPc.freed_of_not_taken (hi.not_taken ht)
      obtain ⟨p, hp⟩ := hi.exists_proc hp
      obtain ⟨x, hx⟩ := hi.exists_sem hx
      simp [hp, hx] at h

/-- The waiter goes on, or sleeps, or has returned, or waits for a `sem_lock` that
the thread holds. -/
theorem Inv.waiterStep_cases (hi : Inv s) :
    (∃ s', waiterStep s = .ok s') ∨
      (waiterStep s = .wait .wakeup ∧ s.waiter = .asleep) ∨
      (waiterStep s = .wait .environment ∧ ∃ r, s.waiter = .done r) ∨
      (waiterStep s = .wait .semLock ∧ s.thread.locks = true ∧ s.waiter.locks = false) := by
  have hends := waiterStep_ends s
  generalize waiterStep s = o at hends ⊢
  cases hends with
  | goes h => exact .inl ⟨_, rfl⟩
  | locked hw hx hl =>
      have hfree : s.waiter.locks = false := by
        rcases hw with hw | hw <;> (rw [hw]; rfl)
      refine .inr (.inr (.inr ⟨rfl, (hi.locks_of_lock hx hl).resolve_right ?_, hfree⟩))
      rw [hfree]
      exact nofun
  | asleep hw => exact .inr (.inl ⟨rfl, hw⟩)
  | @done r hw => exact .inr (.inr (.inl ⟨rfl, r, hw⟩))
  | @threadsLeft r p _ hw hp hn =>
      refine absurd ?_ hn
      rw [hi.numthreads p hp, ThreadPc.not_counted_of_finished (hi.taken (by rw [hw]; rfl))]
      rfl
  | @semInUse r x _ hw hx h =>
      have hfin := hi.taken (by rw [hw]; rfl)
      rcases h with hl | hwait
      · rcases hi.locks_of_lock hx hl with hT | hW
        · rw [ThreadPc.not_locks_of_finished hfin] at hT
          cases hT
        · rw [hw] at hW
          cases hW
      · rw [hi.waiting x hx, hw] at hwait
        cases hwait
  | procGone hw hp =>
      obtain ⟨p, hp'⟩ := hi.exists_proc hw
      rw [hp] at hp'
      cases hp'
  | semGone hw hx =>
      obtain ⟨x, hx'⟩ := hi.exists_sem hw
      rw [hx] at hx'
      cases hx'

/-- Every step that does not go on waits: no assertion fails and nothing that
was freed is touched. -/
theorem Inv.safe (hi : Inv s) (m : Move) :
    outcome m s ≠ .undefined ∧ ∀ msg, outcome m s ≠ .panic msg := by
  cases m with
  | startup result =>
      simp only [outcome, startupStep]
      split
      · next st ht =>
          obtain ⟨p, hp⟩ := hi.exists_proc
            (WaiterPc.freed_of_not_taken (hi.not_taken (by rw [ht]; rfl))).1
          simp only [State.withProc, hp]
          split_ifs <;> simp
      · simp
  | sysExit status =>
      simp only [outcome, sysExit]
      split <;> simp
  | thread =>
      rcases hi.threadStep_cases with ⟨s', h⟩ | ⟨h, -⟩ | ⟨h, -⟩ <;> simp [outcome, h]
  | waiter =>
      rcases hi.waiterStep_cases with ⟨s', h⟩ | ⟨h, -⟩ | ⟨h, -⟩ | ⟨h, -⟩ <;>
        simp [outcome, h]
  | activate =>
      simp only [outcome, activate]
      split_ifs with hz ht
      · simp
      · have hfin : s.thread.finished s.error = false :=
          ThreadPc.not_finished_of_attached (hi.tProc.symm.trans ht)
        obtain ⟨p, hp⟩ := hi.exists_proc (WaiterPc.freed_of_not_taken (hi.not_taken hfin)).1
        simp [State.withProc, hp]
      · simp

/-! ## The protocol of exit and wait -/

def ThreadPc.stored : ThreadPc → Bool
  | .remthread _ | .detach _ | .semAcquire | .semCount | .semWake | .semRelease | .threadExit
  | .assertDetached | .zombie => true
  | _ => false

/-- The status the waiter is going to return. -/
def WaiterPc.result : WaiterPc → Option (BitVec 32)
  | .takeAs r | .destroyAs r | .assertThreads r | .endWaitpid r | .freeProc r | .done r => some r
  | _ => none

/-- The thread runs `sys__exit(status)`, and the status is on its way to the waiter. -/
structure Carries (status : BitVec 32) (s : State) : Prop where
  error : s.error = 0
  exiting : s.thread = .exitStatus status ∨ s.thread.stored = true
  stored : s.thread.stored = true → ∀ p, s.proc = some p → p.status = status &&& 0xff
  result : ∀ r, s.waiter.result = some r → r = status &&& 0xff

theorem ThreadPc.stored_of_finished {e : Nat} {t : ThreadPc} (h : t.finished e = true) :
    t.stored = true := by
  cases t <;> first | rfl | cases h

/-- Counts down along the code of the thread. -/
def ThreadPc.rank : ThreadPc → Nat
  | .zombie => 0
  | .assertDetached => 1
  | .detach .threadExit => 2
  | .remthread .threadExit => 3
  | .threadExit => 4
  | .semRelease => 5
  | .semWake => 6
  | .semCount => 7
  | .semAcquire => 8
  | .detach .sysExit => 9
  | .remthread .sysExit => 10
  | _ => 11

/-- Counts down along the code of the waiter, where a wakeup takes it two back. -/
def WaiterPc.rank : WaiterPc → Nat
  | .done _ => 0
  | .freeProc _ => 1
  | .endWaitpid _ => 2
  | .assertThreads _ => 3
  | .destroyAs _ => 4
  | .takeAs _ => 5
  | .readStatus => 6
  | .semRelease => 7
  | .asleep => 8
  | .semTest => 9
  | .semRelock => 10
  | .semAcquire => 11

def State.rank (s : State) : Nat := 3 * s.thread.rank + s.waiter.rank

/-- What a step of the thread does to the status and to the ranks. -/
theorem Inv.threadMoves_spec (hi : Inv s) (h : ThreadMoves s s') :
    s'.error = s.error ∧ s'.thread.stored = true ∧
      (∀ p', s'.proc = some p' → (∃ st, s.thread = .exitStatus st ∧ p'.status = st &&& 0xff) ∨
        s.thread.stored = true ∧ ∃ p, s.proc = some p ∧ p'.status = p.status) ∧
      s'.waiter.result = s.waiter.result ∧
      s'.thread.rank < s.thread.rank ∧ s'.waiter.rank ≤ s.waiter.rank + 2 := by
  -- most steps leave the structure and the waiter alone
  have hsame : s.thread.stored = true → ∀ p', s.proc = some p' →
      (∃ st, s.thread = .exitStatus st ∧ p'.status = st &&& 0xff) ∨
        s.thread.stored = true ∧ ∃ p, s.proc = some p ∧ p'.status = p.status :=
    fun hst p' hp' => .inr ⟨hst, p', hp', rfl⟩
  have hle := Nat.le_add_right s.waiter.rank 2
  cases h with
  | exitStatus ht hp =>
      refine ⟨rfl, rfl, fun p' hp' => .inl ⟨_, ht, ?_⟩, rfl, by simp [ht, ThreadPc.rank], hle⟩
      cases hp'
      rfl
  | @remthread b p ht hb hp =>
      refine ⟨rfl, rfl, fun p' hp' => .inr ⟨by rw [ht]; rfl, p, hp, ?_⟩, rfl, ?_, hle⟩
      · cases hp'
        rfl
      · cases b <;> simp [ht, ThreadPc.rank]
  | wake ht hx hwait =>
      have hw := (hi.waiting _ hx).mp hwait
      exact ⟨rfl, rfl, hsame (by rw [ht]; rfl), by rw [hw]; rfl, by simp [ht, ThreadPc.rank],
        by rw [hw]; simp [WaiterPc.rank]⟩
  | threadExit ht =>
      refine ⟨rfl, ?_, hsame (by rw [ht]; rfl), rfl, ?_, hle⟩
      · cases s.tProc <;> rfl
      · cases s.tProc <;> simp [ht, ThreadPc.rank]
  | detachExit ht | detachEnd ht | lock ht | count ht | noWake ht | unlock ht | zombie ht =>
      exact ⟨rfl, rfl, hsame (by rw [ht]; rfl), rfl, by simp [ht, ThreadPc.rank], hle⟩

theorem WaiterMoves.spec (h : WaiterMoves s s') :
    s'.thread = s.thread ∧ s'.error = s.error ∧
      (∀ p', s'.proc = some p' → ∃ p, s.proc = some p ∧ p'.status = p.status) ∧
      (∀ r, s'.waiter.result = some r → s.waiter.result = some r ∨
        s.waiter = .readStatus ∧ ∃ p, s.proc = some p ∧ r = p.status) ∧
      s'.waiter.rank < s.waiter.rank := by
  have hsame : ∀ p', s.proc = some p' → ∃ p, s.proc = some p ∧ p'.status = p.status :=
    fun p' hp' => ⟨p', hp', rfl⟩
  cases h with
  | lock hw hx hl =>
      refine ⟨rfl, rfl, hsame, nofun, ?_⟩
      rcases hw with hw | hw <;> simp [hw, WaiterPc.rank]
  | sleep hw | take hw | unlock hw =>
      exact ⟨rfl, rfl, hsame, nofun, by simp [hw, WaiterPc.rank]⟩
  | @readStatus p hw hp =>
      exact ⟨rfl, rfl, hsame, fun r hr => .inr ⟨hw, p, hp, (Option.some.inj hr).symm⟩,
        by simp [hw, WaiterPc.rank]⟩
  | @takeAs r p hw hp =>
      refine ⟨rfl, rfl, fun p' hp' => ⟨p, hp, ?_⟩, fun r' hr => .inl ?_, ?_⟩
      · cases hp'
        rfl
      · cases ha : p.hasAs <;> simpa [ha, hw, WaiterPc.result] using hr
      · cases p.hasAs <;> simp [hw, WaiterPc.rank]
  | destroyAs hw | assertThreads hw | endWaitpid hw =>
      exact ⟨rfl, rfl, hsame, fun r' hr => .inl (by rw [hw]; exact hr), by simp [hw, WaiterPc.rank]⟩
  | freeProc hw =>
      exact ⟨rfl, rfl, nofun, fun r' hr => .inl (by rw [hw]; exact hr), by simp [hw, WaiterPc.rank]⟩

variable {status : BitVec 32}

theorem Carries.not_user (hc : Carries status s) : s.thread ≠ .user := by
  intro ht
  rcases hc.exiting with he | he <;> simp [ht, ThreadPc.stored] at he

theorem Carries.not_startup (hc : Carries status s) (st : Stage) : s.thread ≠ .startup st := by
  intro ht
  rcases hc.exiting with he | he <;> simp [ht, ThreadPc.stored] at he

theorem Carries.of_outcome {m : Move} (hi : Inv s) (hc : Carries status s)
    (h : outcome m s = .ok s') : Carries status s' := by
  cases m with
  | startup result =>
      obtain ⟨st, ht, -⟩ := startupStep_eq_ok h
      exact absurd ht (hc.not_startup st)
  | sysExit status' => exact absurd (sysExit_eq_ok h).1 hc.not_user
  | thread =>
      obtain ⟨herr, hst, hproc, hres, -⟩ := hi.threadMoves_spec (threadStep_moves h)
      refine ⟨herr.trans hc.error, .inr hst, fun _ p' hp' => ?_, by rw [hres]; exact hc.result⟩
      rcases hproc p' hp' with ⟨st, ht, hs⟩ | ⟨hs, p, hp, hpp⟩
      · rcases hc.exiting with he | he
        · obtain rfl : st = status := by simpa [ht] using he
          exact hs
        · simp [ht, ThreadPc.stored] at he
      · exact hpp.trans (hc.stored hs p hp)
  | waiter =>
      obtain ⟨ht, herr, hproc, hres, -⟩ := (waiterStep_moves h).spec
      refine ⟨herr.trans hc.error, by rw [ht]; exact hc.exiting, fun hs p' hp' => ?_,
        fun r hr => ?_⟩
      · obtain ⟨p, hp, hpp⟩ := hproc p' hp'
        exact hpp.trans (hc.stored (ht ▸ hs) p hp)
      · rcases hres r hr with hold | ⟨hw, p, hp, rfl⟩
        · exact hc.result r hold
        · have hfin := hi.taken (by rw [hw]; rfl)
          exact hc.stored (ThreadPc.stored_of_finished hfin) p hp
  | activate => exact activate_eq_ok h ▸ hc

theorem exits_inv (h : (exits status).Reachable s) : Inv s ∧ Carries status s := by
  refine h.invariant (I := fun s => Inv s ∧ Carries status s) ?_ ?_
  · rintro s ⟨p, rfl⟩
    exact ⟨Inv.exiting status p, rfl, .inl rfl, nofun, nofun⟩
  · rintro s s' ⟨hi, hc⟩ ⟨m, hm⟩
    exact ⟨hi.of_outcome hm, hc.of_outcome hi hm⟩

/-- In any interleaving of `sys__exit(status)` and `thread_exit` with one `proc_wait`,
no assertion fails and nothing that was freed is touched; the waiter gets
`status & 0xff`; `proc_destroy` is called once at most, after the thread has
detached, and `as_destroy` only from it; and the protocol always comes to its
end: every step but the activation of an address space lowers a rank, and
a state in which neither party can go on is the last one. -/
theorem exit_wait_protocol (status : BitVec 32) (s : State) (h : (exits status).Reachable s) :
    (∀ m, outcome m s ≠ .undefined ∧ ∀ msg, outcome m s ≠ .panic msg) ∧
      (∀ r, s.waiter = .done r → r = status &&& 0xff ∧ s.destroys = 1) ∧
      (s.destroys ≤ 1 ∧
        (0 < s.destroys → s.tProc = false ∧ ∀ p, s.proc = some p → p.numthreads = 0)) ∧
      (s.asDestroyed = true → s.destroys = 1) ∧
      (∀ m s', m ≠ .activate → outcome m s = .ok s' → s'.rank < s.rank) ∧
      ((∀ s', threadStep s ≠ .ok s') → (∀ s', waiterStep s ≠ .ok s') →
        s.thread = .zombie ∧ s.waiter = .done (status &&& 0xff)) := by
  obtain ⟨hi, hc⟩ := exits_inv h
  refine ⟨hi.safe, fun r hr => ?_, ⟨?_, fun hd => ?_⟩, fun ha => ?_, fun m s' hm hs => ?_,
    fun ht hw => ?_⟩
  · exact ⟨hc.result r (by rw [hr]; rfl), by rw [hi.destroys, hr]; rfl⟩
  · rw [hi.destroys]
    exact Bool.toNat_le _
  · have htaken : s.waiter.taken = true := by
      rw [hi.destroys] at hd
      refine WaiterPc.taken_of_destroying ?_
      cases hdes : s.waiter.destroying with
      | true => rfl
      | false => simp [hdes] at hd
    have hfin := hi.taken htaken
    refine ⟨hi.tProc.trans ?_, fun p hp => ?_⟩
    · cases hatt : s.thread.attached s.error with
      | false => rfl
      | true => simp [ThreadPc.not_finished_of_attached hatt] at hfin
    · rw [hi.numthreads p hp, ThreadPc.not_counted_of_finished hfin]
      rfl
  · rw [hi.destroys, hi.asDestroyed ha]
    rfl
  · cases m with
    | startup result =>
        obtain ⟨st, hst, -⟩ := startupStep_eq_ok hs
        exact absurd hst (hc.not_startup st)
    | sysExit status' => exact absurd (sysExit_eq_ok hs).1 hc.not_user
    | thread =>
        obtain ⟨-, -, -, -, h1, h2⟩ := hi.threadMoves_spec (threadStep_moves hs)
        simp only [State.rank]
        omega
    | waiter =>
        obtain ⟨h1, -, -, -, h2⟩ := (waiterStep_moves hs).spec
        simp only [State.rank, h1]
        omega
    | activate => exact absurd rfl hm
  · -- the waiter has gone through everything, so the thread is past its `V`
    have hlocks : s.waiter.locks = false := by
      rcases hi.waiterStep_cases with ⟨s', hok⟩ | ⟨-, hw'⟩ | ⟨-, r, hw'⟩ | ⟨-, -, hw'⟩
      · exact absurd hok (hw s')
      · rw [hw']; rfl
      · rw [hw']; rfl
      · exact hw'
    have hz : s.thread = .zombie := by
      rcases hi.threadStep_cases with ⟨s', hok⟩ | ⟨-, hz | hz | ⟨st, hz⟩⟩ | ⟨-, hl⟩
      · exact absurd hok (ht s')
      · exact absurd hz hc.not_user
      · exact hz
      · exact absurd hz (hc.not_startup st)
      · simp [hlocks] at hl
    have hsig : s.thread.signalled s.error = true := by rw [hz, hc.error]; rfl
    rcases hi.waiterStep_cases with ⟨s', hok⟩ | ⟨-, hw'⟩ | ⟨-, r, hw'⟩ | ⟨-, hl, -⟩
    · exact absurd hok (hw s')
    · exact absurd (hi.asleep hw' hsig) (by rw [hz]; exact nofun)
    · exact ⟨hz, by rw [hw', hc.result r (by rw [hw']; rfl)]⟩
    · rw [hz] at hl
      cases hl

theorem perform_eq_some {m : Move} (h : perform m s = some s') : outcome m s = .ok s' := by
  revert h
  unfold perform
  cases outcome m s <;> simp

/-- `_exit(-1)` with the wait begun first, up to the end of both parties. -/
def exitedMinusOne : Option State :=
  [.waiter, .waiter, .thread, .thread, .thread, .thread, .thread, .thread, .thread, .waiter,
    .waiter, .waiter, .waiter, .waiter, .waiter, .thread, .waiter, .waiter, .waiter,
    .thread].foldlM (fun s m => perform m s) (State.exiting (-1) ⟨1, 0, true⟩)

theorem exitedMinusOne_protocol :
    ∃ s, exitedMinusOne = some s ∧ s.waiter = .done 0xff ∧ s.destroys = 1 := by
  have hs : exitedMinusOne = some (exitedMinusOne.get (by decide +kernel)) :=
    (Option.some_get _).symm
  have hr := Transitions.Reachable.moves (M := exits (-1))
    (fun m _ _ h => ⟨m, perform_eq_some h⟩) _ (.init ⟨⟨1, 0, true⟩, rfl⟩) hs
  have hw : (exitedMinusOne.get (by decide +kernel)).waiter = .done 0xff := by decide +kernel
  exact ⟨_, hs, hw, ((exit_wait_protocol (-1) _ hr).2.1 0xff hw).2⟩

/-! ## Programs that end -/

/-- Once the thread is a zombie, `p_sem` was signalled exactly once and the menu
thread is not asleep in `proc_wait`. -/
def Signalled (s : State) : Prop :=
  s.thread = .zombie → s.signals = 1 ∧ s.waiter ≠ .asleep

def Move.Succeeds : Move → Prop
  | .startup result => result = 0
  | _ => True

theorem programs_inv (h : programs.Reachable s) : Inv s := by
  refine h.invariant (I := Inv) ?_ ?_
  · rintro s rfl
    exact Inv.started
  · rintro s s' hi ⟨m, hm⟩
    exact hi.of_outcome hm

theorem outcome_error {m : Move} (hi : Inv s) (hm : m.Succeeds) (h : outcome m s = .ok s') :
    s'.error = s.error := by
  cases m with
  | startup result =>
      obtain ⟨st, -, ⟨hne, -⟩ | ⟨-, proc, -, rfl⟩⟩ := startupStep_eq_ok h
      · exact absurd hm hne
      · rfl
  | sysExit status =>
      obtain ⟨-, rfl⟩ := sysExit_eq_ok h
      rfl
  | thread => exact (hi.threadMoves_spec (threadStep_moves h)).1
  | waiter => exact (waiterStep_moves h).spec.2.1
  | activate => rw [activate_eq_ok h]

theorem Inv.signalled_iff (hi : Inv s) (hz : s.thread = .zombie) :
    Signalled s ↔ s.error = 0 := by
  have hsig := hi.signals
  rw [hz] at hsig
  constructor
  · intro h
    have hone := hsig.symm.trans (h hz).1
    by_contra he
    simp [ThreadPc.signalled, he] at hone
  · intro he _
    refine ⟨by rw [hsig, he]; rfl, fun hw => ?_⟩
    have := hi.asleep hw (by rw [hz, he]; rfl)
    rw [hz] at this
    cases this

/-- In every run in which each step of `runprogramWithArgs` succeeds, a program
that has ended has signalled its waiter exactly once. In any run, a program
that has ended has done so exactly if `runprogramWithArgs` did not fail. -/
theorem ended_program_signalled (s : State) :
    ((programs.cut fun s s' => ∃ m, outcome m s = .ok s' ∧ m.Succeeds).Reachable s →
      Signalled s) ∧
    (programs.Reachable s → s.thread = .zombie → (Signalled s ↔ s.error = 0)) := by
  refine ⟨fun h => ?_, fun h hz => (programs_inv h).signalled_iff hz⟩
  have hinv : Inv s ∧ s.error = 0 := by
    refine h.invariant (I := fun s => Inv s ∧ s.error = 0) ?_ ?_
    · rintro s rfl
      exact ⟨Inv.started, rfl⟩
    · rintro s s' ⟨hi, he⟩ ⟨-, m, hm, hok⟩
      exact ⟨hi.of_outcome hm, (outcome_error hi hok hm).trans he⟩
  intro hz
  exact (hinv.1.signalled_iff hz).mpr hinv.2 hz

/-- A program that starts, runs and calls `_exit(0)` with nobody waiting yet. -/
def ranToEnd : Option State :=
  [.startup 0, .startup 0, .startup 0, .startup 0, .startup 0, .sysExit 0, .thread, .thread,
    .thread, .thread, .thread, .thread, .thread, .thread,
    .thread].foldlM (fun s m => perform m s) State.started

theorem ranToEnd_signalled :
    ∃ s, ranToEnd = some s ∧ s.thread = .zombie ∧ s.signals = 1 := by
  have hs : ranToEnd = some (ranToEnd.get (by decide +kernel)) := (Option.some_get _).symm
  have hr := Transitions.Reachable.moves (M := programs)
    (fun m _ _ h => ⟨m, perform_eq_some h⟩) _ (.init rfl) hs
  have hz : (ranToEnd.get (by decide +kernel)).thread = .zombie := by decide +kernel
  have he : (ranToEnd.get (by decide +kernel)).error = 0 := by decide +kernel
  exact ⟨_, hs, hz, ((((ended_program_signalled _).2 hr hz).mpr he) hz).1⟩

/-- The menu thread waits, and `as_create` fails because there is no such program. -/
def failedStart : Option State :=
  [.waiter, .waiter, .startup 19, .thread, .thread, .thread,
    .thread].foldlM (fun s m => perform m s) State.started

theorem failedStart_reachable (h : failedStart = some s) : programs.Reachable s :=
  Transitions.Reachable.moves (fun m _ _ h => ⟨m, perform_eq_some h⟩) _ (.init rfl) h

/-- The thread is a zombie, nobody signalled, and neither party will ever go on. -/
theorem failedStart_not_signalled :
    ∃ s, programs.Reachable s ∧ ¬ Signalled s ∧ s.thread = .zombie ∧ s.signals = 0 ∧
      threadStep s = .wait .environment ∧ waiterStep s = .wait .wakeup := by
  have hs : failedStart = some (failedStart.get (by decide +kernel)) := (Option.some_get _).symm
  have hz : (failedStart.get (by decide +kernel)).thread = .zombie := by decide +kernel
  have h0 : (failedStart.get (by decide +kernel)).signals = 0 := by decide +kernel
  refine ⟨_, failedStart_reachable hs, fun h => ?_, hz, h0, by decide +kernel, by decide +kernel⟩
  have := (h hz).1
  rw [h0] at this
  cases this

end Os161Paging.ExitWait
