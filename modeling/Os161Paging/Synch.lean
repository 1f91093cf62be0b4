import Mathlib.Logic.Function.Basic
import Os161Paging.Prog
import Os161Paging.Transitions

/-!
# Locks and condition variables

`lock_acquire`, `lock_release`, `lock_do_i_hold`, `cv_wait`, `cv_signal` and
`cv_broadcast` of `synch.c` in the configuration that is built
(`OPT_SYNCH`, `USE_SEMAPHORE_FOR_LOCK`), down to `P`, `V` and the wait
channels of `thread.c`, for one lock, one condition variable and any
number of threads.

A thread is a program counter. The steps are the sections the code runs
under a spinlock; where a section stays open over several statements
(`lk_lock` in `lock_release`, `cv_lock` in `cv_wait` and in the two wakeups)
the spinlock is state and the statements are steps of their own. Sections
of `sem_lock` contain nothing that waits for another spinlock, so each is
one step. A sleeping thread is on the list of its wait channel and has no
step of its own: the step that wakes it moves its counter.

The functions start with assertions that their caller is not in an
interrupt handler; interrupt handlers call none of them here.
-/

namespace Os161Paging.Synch

/-- Where a `lock_acquire` or `lock_release` was called from. -/
inductive Ret where
  | caller
  | cvWait
deriving DecidableEq, Repr

inductive Call where
  | lockAcquire
  | lockRelease
  | cvWait
  | cvSignal
  | cvBroadcast
deriving DecidableEq, Repr

inductive Pc where
  -- Nothing: it is between two calls.
  | idle
  -- `if (lock_do_i_hold(lock)) kprintf(..)`
  | acquireTest (r : Ret)
  -- `KASSERT(!(lock_do_i_hold(lock)))`
  | acquireAssert (r : Ret)
  -- `P(lock->lk_sem)`, from taking `sem_lock` to leaving it or to sleeping
  | acquireP (r : Ret)
  | acquireAsleep (r : Ret)
  -- the section of `lk_lock` that sets `lk_owner`
  | acquireSet (r : Ret)
  -- `KASSERT(lock_do_i_hold(lock))`
  | releaseAssert (r : Ret)
  -- `spinlock_acquire(&lock->lk_lock); lock->lk_owner = NULL`
  | releaseClear (r : Ret)
  -- `V(lock->lk_sem)`
  | releaseV (r : Ret)
  -- `spinlock_release(&lock->lk_lock)`
  | releaseUnlock (r : Ret)
  -- `KASSERT(lock_do_i_hold(lock))`
  | waitAssert
  -- `spinlock_acquire(&cv->cv_lock)`
  | waitLock
  -- `wchan_sleep` up to the switch away
  | waitSleep
  | waitAsleep
  -- `wchan_sleep` after the wakeup: `spinlock_acquire(lk)`
  | waitRelock
  -- `spinlock_release(&cv->cv_lock)`
  | waitUnlock
  -- `KASSERT(lock_do_i_hold(lock))`
  | signalAssert (all : Bool)
  -- `spinlock_acquire(&cv->cv_lock)`
  | signalLock (all : Bool)
  -- `wchan_wakeone` or `wchan_wakeall`
  | signalWake (all : Bool)
  -- `spinlock_release(&cv->cv_lock)`
  | signalUnlock (all : Bool)
deriving DecidableEq, Repr

inductive Blocked where
  | lkLock
  | cvLock
  | wakeup
deriving DecidableEq, Repr

/-- The lock, the condition variable and the threads. A spinlock holds the
thread that took it. -/
structure State (T : Type) where
  semCount : Nat
  semWchan : List T
  lkOwner : Option T
  lkLock : Option T
  cvWchan : List T
  cvLock : Option T
  pc : T → Pc
  /-- History: the thread has done its `P` on `lk_sem` and not its `V`. -/
  passed : T → Bool
  /-- History: the thread is between the end of a `lock_acquire` and the `lock_release` for it. -/
  holding : T → Bool

variable {T : Type} [DecidableEq T]

namespace State

/-- After `lock_create` and `cv_create`. -/
def init : State T where
  semCount := 1
  semWchan := []
  lkOwner := none
  lkLock := none
  cvWchan := []
  cvLock := none
  pc _ := .idle
  passed _ := false
  holding _ := false

def goto (s : State T) (t : T) (p : Pc) : State T :=
  { s with pc := Function.update s.pc t p }

def setPassed (s : State T) (t : T) (b : Bool) : State T :=
  { s with passed := Function.update s.passed t b }

def setHolding (s : State T) (t : T) (b : Bool) : State T :=
  { s with holding := Function.update s.holding t b }

/-- `curcpu->c_spinlocks` while `t` runs, not counting `sem_lock`. -/
def spinlocks (s : State T) (t : T) : Nat :=
  (if s.lkLock = some t then 1 else 0) + (if s.cvLock = some t then 1 else 0)

end State

/-! ## Wait channels -/

/-- Where a thread goes on when `thread_make_runnable` is done to it: back in
`wchan_sleep`, which takes the spinlock of the channel again. -/
def Pc.woken : Pc → Pc
  | .acquireAsleep r => .acquireP r
  | .waitAsleep => .waitRelock
  | p => p

def State.threadMakeRunnable (s : State T) (u : T) : State T :=
  s.goto u (s.pc u).woken

/-- `wchan_wakeone(sem->sem_wchan, ..)`. -/
def State.semWakeone (s : State T) : State T :=
  match s.semWchan with
  | [] => s
  | u :: q => { s with semWchan := q }.threadMakeRunnable u

/-- `wchan_wakeone(cv->cv_wchan, ..)`. -/
def State.cvWakeone (s : State T) : State T :=
  match s.cvWchan with
  | [] => s
  | u :: q => { s with cvWchan := q }.threadMakeRunnable u

/-- `wchan_wakeall(cv->cv_wchan, ..)`: the list is emptied first. -/
def State.cvWakeall (s : State T) : State T :=
  s.cvWchan.foldl State.threadMakeRunnable { s with cvWchan := [] }

/-! ## The functions -/

/-- A section that takes and leaves `lk_lock`. -/
def underLk (s : State T) (o : Outcome Blocked (State T)) : Outcome Blocked (State T) :=
  if s.lkLock = none then o else .wait .lkLock

/-- What `lock_do_i_hold(lock)` returns to `t`; the test is a section of `lk_lock`. -/
def lockDoIHold (t : T) (s : State T) : Bool := s.lkOwner == some t

/-- `KASSERT(lock_do_i_hold(lock))`, going on at `p`. -/
def assertHeld (t : T) (s : State T) (p : Pc) : Outcome Blocked (State T) :=
  underLk s (if lockDoIHold t s then .ok (s.goto t p) else .panic "lock_do_i_hold(lock)")

/-- The first thing a call does. A `lock_release` ends the stretch in which
its caller holds the lock. -/
def State.enter (s : State T) (t : T) : Call → State T
  | .lockAcquire => s.goto t (.acquireTest .caller)
  | .lockRelease => (s.goto t (.releaseAssert .caller)).setHolding t false
  | .cvWait => s.goto t .waitAssert
  | .cvSignal => s.goto t (.signalAssert false)
  | .cvBroadcast => s.goto t (.signalAssert true)

def next (t : T) (s : State T) : Outcome Blocked (State T) :=
  match s.pc t with
  | .idle => .ok s
  -- lock_acquire
  | .acquireTest r => underLk s (.ok (s.goto t (.acquireAssert r)))
  | .acquireAssert r =>
      underLk s (if lockDoIHold t s then .panic "!(lock_do_i_hold(lock))"
        else .ok (s.goto t (.acquireP r)))
  | .acquireP r =>
      -- `while (sem->sem_count == 0) wchan_sleep(..)`: a woken thread comes back here
      if s.semCount = 0 then
        if s.spinlocks t = 0 then
          .ok { s.goto t (.acquireAsleep r) with semWchan := s.semWchan ++ [t] }
        else .panic "curcpu->c_spinlocks == 1"
      else
        .ok ({ s.goto t (.acquireSet r) with semCount := s.semCount - 1 }.setPassed t true)
  | .acquireAsleep _ => .wait .wakeup
  | .acquireSet _ =>
      -- the last statement of `cv_wait` is its `lock_acquire`: both return
      underLk s (if s.lkOwner = none then
          .ok ({ s.goto t .idle with lkOwner := some t }.setHolding t true)
        else .panic "lock->lk_owner == NULL")
  -- lock_release
  | .releaseAssert r => assertHeld t s (.releaseClear r)
  | .releaseClear r =>
      if s.lkLock = none then
        .ok { s.goto t (.releaseV r) with lkLock := some t, lkOwner := none }
      else .wait .lkLock
  | .releaseV r =>
      if (s.semCount + 1) % 2 ^ 32 = 0 then .panic "sem->sem_count > 0"
      else
        .ok ({ s.goto t (.releaseUnlock r) with
                semCount := (s.semCount + 1) % 2 ^ 32 }.setPassed t false).semWakeone
  | .releaseUnlock .caller => .ok { s.goto t .idle with lkLock := none }
  | .releaseUnlock .cvWait => .ok { s.goto t .waitSleep with lkLock := none }
  -- cv_wait
  | .waitAssert => assertHeld t s .waitLock
  | .waitLock =>
      if s.cvLock = none then
        .ok ({ s.goto t (.releaseAssert .cvWait) with cvLock := some t }.setHolding t false)
      else .wait .cvLock
  | .waitSleep =>
      if s.cvLock = some t then
        if s.spinlocks t = 1 then
          -- `thread_switch`: on the list first, then the spinlock is dropped
          .ok { s.goto t .waitAsleep with cvWchan := s.cvWchan ++ [t], cvLock := none }
        else .panic "curcpu->c_spinlocks == 1"
      else .panic "spinlock_do_i_hold(lk)"
  | .waitAsleep => .wait .wakeup
  | .waitRelock =>
      if s.cvLock = none then .ok { s.goto t .waitUnlock with cvLock := some t }
      else .wait .cvLock
  | .waitUnlock => .ok { s.goto t (.acquireTest .cvWait) with cvLock := none }
  -- cv_signal and cv_broadcast
  | .signalAssert all => assertHeld t s (.signalLock all)
  | .signalLock all =>
      if s.cvLock = none then .ok { s.goto t (.signalWake all) with cvLock := some t }
      else .wait .cvLock
  | .signalWake all =>
      if s.cvLock = some t then
        .ok (if all then (s.goto t (.signalUnlock all)).cvWakeall
          else (s.goto t (.signalUnlock all)).cvWakeone)
      else .panic "spinlock_do_i_hold(lk)"
  | .signalUnlock _ => .ok { s.goto t .idle with cvLock := none }

/-! ## Interleavings -/

/-- What may happen next: a thread between two calls makes a call, or a thread
takes its next step. -/
inductive Move (T : Type) where
  | call (t : T) (c : Call)
  | go (t : T)

def perform : Move T → State T → Option (State T)
  | .call t c, s => if s.pc t = .idle then some (s.enter t c) else none
  | .go t, s =>
      match next t s with
      | .ok s' => some s'
      | _ => none

/-- The interleavings of any calls on one lock and one condition variable. -/
def interleavings (T : Type) [DecidableEq T] : Transitions (State T) where
  start s := s = .init
  step s s' := ∃ m, perform m s = some s'

end Os161Paging.Synch
