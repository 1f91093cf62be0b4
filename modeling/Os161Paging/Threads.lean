import Mathlib.Data.List.FinRange
import Mathlib.Logic.Function.Basic
import Os161Paging.Prog
import Os161Paging.Transitions

/-!
# Threads on several processors

`thread.c`: run queues, wait channels, zombies, the switch from one thread
to the next, the migration of threads between processors and the
interrupts by which processors rouse each other; with `P` and `V` of
`synch.c`, and `proc_addthread` and `proc_remthread` of `proc.c`.

Threads run these functions on whatever processor they are current on. A
thread that is not current has no step: every action asks for the
processor first, and `switchframe_switch` is the action that gives it to
another thread. An action is a statement, or a few of which no other
processor can see the parts: the list of zombies of a processor and a
thread nobody else knows of are private, and what is done under a run
queue's lock to that queue is done at once.

A field of `struct thread` or `struct cpu` is a function of the thread or
the processor. What lies outside of this repository is taken from the base
system: spinlocks belong to processors and keep interrupts off, `splx` and
the spinlocks count in `t_iplhigh_count` who wants them off, and the trap
code marks the interrupted thread. Names for debugging, the guard band of
the stack and TLB shootdowns, which nobody requests, are left out.

Two loops go round until something happens elsewhere: the idle loop and the
one in `P`; and `thread_switch` calls functions that call it. All this is
given a bound, and a thread that has used it up goes no further; every run
is a run for some bound.
-/

namespace Os161Paging.Threads

open Prog

/-! ## Data -/

/-- A `struct thread *`. The address of a structure that was freed is not used again. -/
abbrev Thread := Nat

abbrev Proc := Nat

inductive ThreadState where
  | run | ready | sleep | zombie
deriving DecidableEq, Repr

inductive Ipl where
  | none | high
deriving DecidableEq, Repr

inductive Ipi where
  | panic | offline | unidle
deriving DecidableEq, Repr

/-- A wait channel: that of a semaphore, or another one. -/
inductive Chan where
  | sem (x : Nat)
  | cv (y : Nat)
deriving DecidableEq, Repr

/-- What a thread that goes to sleep on the channel leaves behind. -/
def Chan.noteSleeper (slept : Nat → Thread → Bool) (t : Thread) : Chan → Nat → Thread → Bool
  | .sem x => Function.update slept x (Function.update (slept x) t true)
  | .cv _ => slept

/-- The spinlocks: `c_runqueue_lock`, `c_ipi_lock`, the one that goes with a wait
channel, and `p_lock`. -/
inductive Spin (n : Nat) where
  | runqueue (c : Fin n)
  | ipi (c : Fin n)
  | chan (w : Chan)
  | proc (p : Proc)
deriving DecidableEq, Repr

/-- The interrupts a processor can take: from another processor, from the clock, which
calls `thread_consider_migration` from time to time and then `thread_yield`, and from a
device, whose driver calls `V`. -/
inductive Interrupt where
  | ipi
  | clock (migrate : Bool)
  | device (x : Nat)
deriving DecidableEq, Repr

/-- Whether a processor executes the `wait` instruction of `cpu_idle`, which ends with an
interrupt. -/
inductive Waiting where
  | no
  | yes
  | taken (i : Interrupt)
deriving DecidableEq, Repr

inductive Wait (n : Nat) where
  | processor
  | spin (l : Spin n)
  | interrupt
  | rounds
deriving DecidableEq, Repr

/-- The threads, `n` processors, and what they share. -/
structure Sched (n : Nat) where
  -- struct thread
  allocated : Thread → Bool
  tState : Thread → ThreadState
  tCpu : Thread → Option (Fin n)
  tProc : Thread → Option Proc
  tInInterrupt : Thread → Bool
  tCurspl : Thread → Ipl
  tIplhighCount : Thread → Nat
  /-- the next structure `kmalloc` hands out -/
  nextThread : Thread
  -- struct cpu
  cCurthread : Fin n → Thread
  cZombies : Fin n → List Thread
  cSpinlocks : Fin n → Nat
  cIsidle : Fin n → Bool
  cRunqueue : Fin n → List Thread
  cIpiPending : Fin n → Ipi → Bool
  waiting : Fin n → Waiting
  -- struct wchan, struct semaphore, struct proc, struct spinlock
  wcThreads : Chan → List Thread
  semCount : Nat → Nat
  pNumthreads : Proc → Nat
  /-- `p_addrspace` is not null -/
  pAddrspace : Proc → Bool
  splkHolder : Spin n → Option (Fin n)
  /-- History: the threads that have slept in `P` of a semaphore without having got it since. -/
  slept : Nat → Thread → Bool

abbrev K (n : Nat) := Prog Thread (Sched n) (Wait n)

variable {n : Nat} {ρ : Type}

/-! ## Actions -/

def Sched.processor (s : Sched n) (t : Thread) : Option (Fin n) :=
  (List.finRange n).find? fun c => s.cCurthread c = t

/-- An action of `curthread` on `curcpu`. -/
def onCpu (f : Thread → Fin n → Sched n → Outcome (Wait n) (ρ × Sched n)) : K n ρ :=
  Prog.exec fun t s =>
    match s.processor t with
    | none => .wait .processor
    | some c => f t c s

def look (f : Thread → Fin n → Sched n → ρ) : K n ρ := onCpu fun t c s => .ok (f t c s, s)

def change (f : Thread → Fin n → Sched n → Sched n) : K n Unit :=
  onCpu fun t c s => .ok ((), f t c s)

def kassert (b : Thread → Fin n → Sched n → Bool) (msg : String) : K n Unit :=
  onCpu fun t c s => if b t c s then .ok ((), s) else .panic msg

def kpanic (msg : String) : K n Unit := onCpu fun _ _ _ => .panic msg

def curthread : K n Thread := look fun t _ _ => t

def curcpu : K n (Fin n) := look fun _ c _ => c

/-- A loop that goes round as long as its body answers `none`, at most `k` times. -/
def rounds : Nat → K n (Option ρ) → K n ρ
  | 0, _ => Prog.act (fun _ _ => (.wait .rounds : Outcome (Wait n) (Empty × Sched n))) nofun
  | k + 1, body => do
      match ← body with
      | some x => pure x
      | none => rounds k body

/-! ## Interrupt levels and spinlocks -/

/-- `splx`: the level it was at before. -/
def splx (spl : Ipl) : K n Ipl :=
  onCpu fun t _ s => .ok (s.tCurspl t,
    if s.tCurspl t = spl then s
    else { s with
      tCurspl := Function.update s.tCurspl t spl
      tIplhighCount := Function.update s.tIplhighCount t
        (if spl = .high then s.tIplhighCount t + 1 else s.tIplhighCount t - 1) })

def splhigh : K n Ipl := splx .high

def spl0 : K n Ipl := splx .none

def Sched.take (s : Sched n) (t : Thread) (c : Fin n) (l : Spin n) : Sched n :=
  { s with
    splkHolder := Function.update s.splkHolder l (some c)
    cSpinlocks := Function.update s.cSpinlocks c (s.cSpinlocks c + 1)
    tIplhighCount := Function.update s.tIplhighCount t (s.tIplhighCount t + 1) }

def Sched.drop (s : Sched n) (t : Thread) (c : Fin n) (l : Spin n) : Sched n :=
  { s with
    splkHolder := Function.update s.splkHolder l none
    cSpinlocks := Function.update s.cSpinlocks c (s.cSpinlocks c - 1)
    tIplhighCount := Function.update s.tIplhighCount t (s.tIplhighCount t - 1) }

def spinlockAcquire (l : Spin n) : K n Unit :=
  onCpu fun t c s =>
    match s.splkHolder l with
    | none => .ok ((), s.take t c l)
    | some d => if d = c then .panic "Deadlock on spinlock" else .wait (.spin l)

def spinlockRelease (l : Spin n) : K n Unit :=
  onCpu fun t c s =>
    if s.splkHolder l = some c then .ok ((), s.drop t c l) else .panic "spinlock_do_i_hold(splk)"

def assertHeld (l : Spin n) : K n Unit :=
  kassert (fun _ c s => s.splkHolder l == some c) "spinlock_do_i_hold(lk)"

/-! ## Rousing processors -/

def ipiSend (target : Fin n) (code : Ipi) : K n Unit := do
  spinlockAcquire (.ipi target)
  change fun _ _ s => { s with
    cIpiPending := Function.update s.cIpiPending target
      (Function.update (s.cIpiPending target) code true) }
  spinlockRelease (.ipi target)

def ipiSendAll (code : Ipi) : List (Fin n) → K n Unit
  | [] => pure ()
  | c :: cs => do
      let other ← look fun _ me _ => decide (c ≠ me)
      if other then ipiSend c code else pure ()
      ipiSendAll code cs

def ipiBroadcast (code : Ipi) : K n Unit := ipiSendAll code (List.finRange n)

def cpuHalt : K n Unit := onCpu fun _ _ _ => .hang

/-- `interprocessor_interrupt`. That the processor was interrupted is all that
`IPI_UNIDLE` is for. -/
def interprocessorInterrupt : K n Unit := do
  let c ← curcpu
  spinlockAcquire (.ipi c)
  let bits ← look fun _ _ s => s.cIpiPending c
  if bits .panic then
    spinlockRelease (.ipi c)
    cpuHalt
  else if bits .offline then
    spinlockRelease (.ipi c)
    spinlockAcquire (.runqueue c)
    spinlockRelease (.runqueue c)
    cpuHalt
  else
    change fun _ _ s => { s with cIpiPending := Function.update s.cIpiPending c fun _ => false }
    spinlockRelease (.ipi c)

/-- The trap code around a handler. -/
def interrupted (handler : K n Unit) : K n Unit := do
  let (oldIn, spl) ← onCpu fun t _ s => .ok ((s.tInInterrupt t, s.tCurspl t), { s with
    tInInterrupt := Function.update s.tInInterrupt t true
    tCurspl := Function.update s.tCurspl t .high
    tIplhighCount := if s.tCurspl t = .none
      then Function.update s.tIplhighCount t (s.tIplhighCount t + 1) else s.tIplhighCount })
  handler
  onCpu fun t _ s =>
    if spl = .none then
      if s.tCurspl t = .high ∧ s.tIplhighCount t = 1 then
        .ok ((), { s with
          tInInterrupt := Function.update s.tInInterrupt t oldIn
          tCurspl := Function.update s.tCurspl t .none
          tIplhighCount := Function.update s.tIplhighCount t 0 })
      else .panic "curthread->t_iplhigh_count == 1"
    else .ok ((), { s with tInInterrupt := Function.update s.tInInterrupt t oldIn })

/-- `cpu_idle`: wait for an interrupt and take it. -/
def cpuIdle (handle : Interrupt → K n Unit) : K n Unit := do
  change fun _ c s => { s with waiting := Function.update s.waiting c .yes }
  let i ← onCpu fun _ c s =>
    match s.waiting c with
    | .taken i => .ok (i, { s with waiting := Function.update s.waiting c .no })
    | _ => .wait .interrupt
  interrupted (handle i)

/-! ## Making threads runnable -/

/-- `target->t_cpu`, which is about to be used. -/
def cpuOf (target : Thread) : K n (Fin n) :=
  onCpu fun _ _ s =>
    match s.allocated target, s.tCpu target with
    | true, some c => .ok (c, s)
    | _, _ => .undefined

/-- `target->t_state = S_READY; threadlist_addtail(&c->c_runqueue, target)`. -/
def Sched.enqueue (s : Sched n) (c : Fin n) (target : Thread) : Sched n :=
  { s with
    tState := Function.update s.tState target .ready
    cRunqueue := Function.update s.cRunqueue c (s.cRunqueue c ++ [target]) }

def threadMakeRunnable (target : Thread) (alreadyHaveLock : Bool) : K n Unit := do
  let targetcpu ← cpuOf target
  if alreadyHaveLock then assertHeld (.runqueue targetcpu)
  else spinlockAcquire (.runqueue targetcpu)
  change fun _ _ s => s.enqueue targetcpu target
  let rouse ← look fun _ c s => s.cIsidle targetcpu && decide (targetcpu ≠ c)
  if rouse then ipiSend targetcpu .unidle else pure ()
  if alreadyHaveLock then pure () else spinlockRelease (.runqueue targetcpu)

def wchanWakeone (w : Chan) : K n Unit := do
  assertHeld (.chan w)
  let target ← onCpu fun _ _ s => .ok ((s.wcThreads w).head?,
    { s with wcThreads := Function.update s.wcThreads w (s.wcThreads w).tail })
  match target with
  | none => pure ()
  | some u => threadMakeRunnable u false

def makeAllRunnable : List Thread → K n Unit
  | [] => pure ()
  | u :: us => do
      threadMakeRunnable u false
      makeAllRunnable us

/-- `wchan_wakeall`: all threads of the channel go to a private list first. -/
def wchanWakeall (w : Chan) : K n Unit := do
  assertHeld (.chan w)
  let list ← onCpu fun _ _ s => .ok (s.wcThreads w,
    { s with wcThreads := Function.update s.wcThreads w [] })
  makeAllRunnable list

/-! ## The switch -/

/-- What `thread_switch` calls and may be called from again: `as_activate`, and the
handlers of the interrupts that are taken in the idle loop. -/
structure Env (n : Nat) where
  activate : K n Unit
  handle : Interrupt → K n Unit

def threadDestroy (cur thread : Thread) (s : Sched n) : Outcome (Wait n) (Sched n) :=
  if thread = cur then .panic "thread != curthread"
  else if s.allocated thread = false then .undefined
  else if s.tState thread = .run then .panic "thread->t_state != S_RUN"
  else if s.tProc thread ≠ none then .panic "thread->t_proc == NULL"
  else .ok { s with allocated := Function.update s.allocated thread false }

/-- One round of `exorcise`; the answer is `none` if there was a zombie. -/
def exorciseOne : K n (Option Unit) :=
  onCpu fun t c s =>
    match s.cZombies c with
    | [] => .ok (some (), s)
    | z :: zs =>
        if z = t then .panic "z != curthread"
        else if s.tState z ≠ .zombie then .panic "z->t_state == S_ZOMBIE"
        else (threadDestroy t z { s with cZombies := Function.update s.cZombies c zs }).bind
          fun s' => .ok (none, s')

def exorcise (k : Nat) : K n Unit := rounds k exorciseOne

/-- The loop in which `thread_switch` looks for the next thread, with the run queue
locked except while there is none. -/
def nextThread (e : Env n) (k : Nat) : K n Thread :=
  rounds k do
    let next ← onCpu fun _ c s => .ok ((s.cRunqueue c).head?,
      { s with cRunqueue := Function.update s.cRunqueue c (s.cRunqueue c).tail })
    match next with
    | some u => pure (some u)
    | none => do
        let c ← curcpu
        spinlockRelease (.runqueue c)
        cpuIdle e.handle
        let c ← curcpu
        spinlockAcquire (.runqueue c)
        pure none

def setState (st : ThreadState) : K n Unit :=
  change fun t _ s => { s with tState := Function.update s.tState t st }

def setIsidle (b : Bool) : K n Unit :=
  change fun _ c s => { s with cIsidle := Function.update s.cIsidle c b }

/-- `c_curthread = next` and `switchframe_switch`. -/
def switchframeSwitch (next : Thread) : K n Unit :=
  onCpu fun _ c s =>
    if s.allocated next then .ok ((), { s with cCurthread := Function.update s.cCurthread c next })
    else .undefined

/-- Put the current thread in the right place. -/
def putAway (newstate : ThreadState) (wc : Option Chan) : K n Unit :=
  match newstate, wc with
  | .run, _ => kpanic "Illegal S_RUN in thread_switch\n"
  | .ready, _ => do
      let cur ← curthread
      threadMakeRunnable cur true
  | .sleep, none => onCpu fun _ _ _ => .undefined
  | .sleep, some w => do
      change fun t _ s => { s with
        wcThreads := Function.update s.wcThreads w (s.wcThreads w ++ [t])
        slept := w.noteSleeper s.slept t }
      spinlockRelease (.chan w)
  | .zombie, _ =>
      change fun t c s => { s with
        cZombies := Function.update s.cZombies c (s.cZombies c ++ [t]) }

/-- What a thread does first when it gets a processor, at the end of `thread_switch` and
at the beginning of `thread_startup`. -/
def arrive (e : Env n) (k : Nat) : K n Unit := do
  setState .run
  let c ← curcpu
  spinlockRelease (.runqueue c)
  e.activate
  exorcise k

def threadSwitch (e : Env n) (k : Nat) (newstate : ThreadState) (wc : Option Chan) : K n Unit := do
  kassert (fun t c s => s.tCpu t == some c) "curthread->t_cpu == curcpu->c_self"
  let spl ← splhigh
  let isidle ← look fun _ c s => s.cIsidle c
  if isidle then
    let _ ← splx spl
  else
    let c ← curcpu
    spinlockAcquire (.runqueue c)
    let empty ← look fun _ c s => (s.cRunqueue c).isEmpty
    if newstate = .ready ∧ empty then
      spinlockRelease (.runqueue c)
      let _ ← splx spl
    else
      putAway newstate wc
      setState newstate
      setIsidle true
      let next ← nextThread e k
      setIsidle false
      switchframeSwitch next
      arrive e k
      let _ ← splx spl

def threadYield (e : Env n) (k : Nat) : K n Unit := threadSwitch e k .ready none

def wchanSleep (e : Env n) (k : Nat) (w : Chan) : K n Unit := do
  kassert (fun t _ s => !s.tInInterrupt t) "!curthread->t_in_interrupt"
  assertHeld (.chan w)
  kassert (fun _ c s => s.cSpinlocks c == 1) "curcpu->c_spinlocks == 1"
  threadSwitch e k .sleep (some w)
  spinlockAcquire (.chan w)

/-! ## Semaphores

`P` and `V` make the same assertion about the count; a failed one is reported with the
function it is in. -/

def semP (e : Env n) (k : Nat) (x : Nat) : K n Unit := do
  kassert (fun t _ s => !s.tInInterrupt t) "curthread->t_in_interrupt == false"
  spinlockAcquire (.chan (.sem x))
  rounds k do
    let count ← look fun _ _ s => s.semCount x
    if count = 0 then
      wchanSleep e k (.sem x)
      pure none
    else pure (some ())
  onCpu fun t _ s =>
    if 0 < s.semCount x then
      .ok ((), { s with
        semCount := Function.update s.semCount x (s.semCount x - 1)
        slept := Function.update s.slept x (Function.update (s.slept x) t false) })
    else .panic "sem->sem_count > 0 (P)"
  spinlockRelease (.chan (.sem x))

def semV (x : Nat) : K n Unit := do
  spinlockAcquire (.chan (.sem x))
  onCpu fun _ _ s =>
    if 0 < (s.semCount x + 1) % 2 ^ 32 then
      .ok ((), { s with semCount := Function.update s.semCount x ((s.semCount x + 1) % 2 ^ 32) })
    else .panic "sem->sem_count > 0 (V)"
  wchanWakeone (.sem x)
  spinlockRelease (.chan (.sem x))

/-- `lk_sem` of `stats_lock`. -/
def statsSem : Nat := 0

/-- `as_activate`: `proc_getas`, and if there is an address space, `tlb_invalidate`, whose
`vm_stats_inc` takes `stats_lock` if it may sleep. -/
def asActivate (e : Env n) (k : Nat) : K n Unit := do
  let proc ← look fun t _ s => s.tProc t
  match proc with
  | none => pure ()
  | some p => do
      spinlockAcquire (.proc p)
      let as ← look fun _ _ s => s.pAddrspace p
      spinlockRelease (.proc p)
      let canLock ← look fun t c s => s.cSpinlocks c == 0 && !s.tInInterrupt t
      if as ∧ canLock then
        semP e k statsSem
        semV statsSem
      else pure ()

/-! ## The beginning and the end of a thread -/

def procAddthread (p : Proc) (u : Thread) : K n Unit := do
  kassert (fun _ _ s => s.tProc u == none) "t->t_proc == NULL"
  spinlockAcquire (.proc p)
  change fun _ _ s => { s with
    pNumthreads := Function.update s.pNumthreads p (s.pNumthreads p + 1) }
  spinlockRelease (.proc p)
  let spl ← splhigh
  change fun _ _ s => { s with tProc := Function.update s.tProc u (some p) }
  let _ ← splx spl

def procRemthread : K n Unit := do
  let proc ← look fun t _ s => s.tProc t
  match proc with
  | none => kpanic "proc != NULL"
  | some p => do
      spinlockAcquire (.proc p)
      onCpu fun _ _ s =>
        if 0 < s.pNumthreads p then
          .ok ((), { s with pNumthreads := Function.update s.pNumthreads p (s.pNumthreads p - 1) })
        else .panic "proc->p_numthreads > 0"
      spinlockRelease (.proc p)
      let spl ← splhigh
      change fun t _ s => { s with tProc := Function.update s.tProc t none }
      let _ ← splx spl

/-- `thread_create`, and `newthread->t_cpu = curthread->t_cpu`: nobody else knows of the
new thread. -/
def threadCreate : K n Thread :=
  onCpu fun t _ s => .ok (s.nextThread, { s with
    nextThread := s.nextThread + 1
    allocated := Function.update s.allocated s.nextThread true
    tState := Function.update s.tState s.nextThread .ready
    tCpu := Function.update s.tCpu s.nextThread (s.tCpu t)
    tProc := Function.update s.tProc s.nextThread none
    tInInterrupt := Function.update s.tInInterrupt s.nextThread false
    tCurspl := Function.update s.tCurspl s.nextThread .high
    tIplhighCount := Function.update s.tIplhighCount s.nextThread 1 })

/-- `thread_fork`; without `memory` an allocation fails, and what was allocated before it
is freed again. The new thread starts in `thread_startup`. -/
def threadFork (memory : Bool) (proc : Option Proc) : K n Bool := do
  if memory then
    let newthread ← threadCreate
    let own ← look fun t _ s => s.tProc t
    match proc.or own with
    | none => onCpu fun _ _ _ => .undefined
    | some p => do
        procAddthread p newthread
        change fun _ _ s => { s with
          tIplhighCount := Function.update s.tIplhighCount newthread
            (s.tIplhighCount newthread + 1) }
        threadMakeRunnable newthread false
        pure true
  else pure false

/-- `thread_startup`, up to the call of the function it was given. -/
def threadStartup (e : Env n) (k : Nat) : K n Unit := do
  arrive e k
  let _ ← spl0

def threadExit (e : Env n) (k : Nat) : K n Unit := do
  let proc ← look fun t _ s => s.tProc t
  if proc ≠ none then procRemthread else pure ()
  kassert (fun t _ s => s.tProc t == none) "cur->t_proc == NULL"
  let _ ← splhigh
  threadSwitch e k .zombie none
  kpanic "braaaaaaaiiiiiiiiiiinssssss\n"

/-- `sys__exit`, as far as threads are concerned; `x` is the semaphore `p_sem`. -/
def sysExit (e : Env n) (k : Nat) (x : Nat) : K n Unit := do
  procRemthread
  semV x
  threadExit e k

/-! ## Migration -/

def countThreads : List (Fin n) → Nat → Nat → K n (Nat × Nat)
  | [], my, total => pure (my, total)
  | c :: cs, my, total => do
      spinlockAcquire (.runqueue c)
      let count ← look fun _ _ s => (s.cRunqueue c).length
      let mine ← look fun _ me _ => decide (c = me)
      spinlockRelease (.runqueue c)
      countThreads cs (if mine then count else my) (total + count)

/-- `DIVROUNDUP(total_count, numcpus)`. -/
def oneShare (total numcpus : Nat) : Nat := (total + numcpus - 1) / numcpus

/-- Take `k` threads off the end of the run queue of this processor, to the front of
`victims`. -/
def takeVictims : Nat → List Thread → K n (List Thread)
  | 0, victims => pure victims
  | k + 1, victims => do
      let t ← onCpu fun _ c s =>
        match (s.cRunqueue c).getLast? with
        | none => .undefined
        | some u => .ok (u, { s with
            cRunqueue := Function.update s.cRunqueue c (s.cRunqueue c).dropLast })
      takeVictims k (t :: victims)

/-- `threadlist_addtail(&c->c_runqueue, t)`, of a thread that is ready already. -/
def Sched.addtail (s : Sched n) (c : Fin n) (t : Thread) : Sched n :=
  { s with cRunqueue := Function.update s.cRunqueue c (s.cRunqueue c ++ [t]) }

/-- Give processor `c` threads until it has its share; the current thread is skipped. -/
def sendVictims (c : Fin n) (share : Nat) : Nat → List Thread → K n (List Thread × Nat)
  | 0, victims => pure (victims, 0)
  | toSend + 1, victims => do
      let count ← look fun _ _ s => (s.cRunqueue c).length
      if count < share then
        match victims with
        | [] => onCpu fun _ _ _ => .undefined
        | t :: rest => do
            let cur ← curthread
            if t = cur then sendVictims c share toSend (rest ++ [t])
            else do
              change fun _ _ s => { s with tCpu := Function.update s.tCpu t (some c) }
              change fun _ _ s => s.addtail c t
              let isidle ← look fun _ _ s => s.cIsidle c
              if isidle then ipiSend c .unidle else pure ()
              sendVictims c share toSend rest
      else pure (victims, toSend + 1)

def spreadVictims (share : Nat) : List (Fin n) → List Thread → Nat → K n (List Thread)
  | [], victims, _ => pure victims
  | c :: cs, victims, toSend => do
      if toSend = 0 then pure victims
      else
        let mine ← look fun _ me _ => decide (c = me)
        if mine then spreadVictims share cs victims toSend
        else
          spinlockAcquire (.runqueue c)
          let (victims, toSend) ← sendVictims c share toSend victims
          spinlockRelease (.runqueue c)
          spreadVictims share cs victims toSend

def putBack : List Thread → K n Unit
  | [] => pure ()
  | t :: victims => do
      change fun _ c s => s.addtail c t
      putBack victims

def threadConsiderMigration : K n Unit := do
  let (my, total) ← countThreads (List.finRange n) 0 0
  let share := oneShare total n
  if my < share then pure ()
  else
    let c ← curcpu
    spinlockAcquire (.runqueue c)
    let victims ← takeVictims (my - share) []
    spinlockRelease (.runqueue c)
    let victims ← spreadVictims share (List.finRange n) victims (my - share)
    if victims = [] then pure ()
    else
      spinlockAcquire (.runqueue c)
      putBack victims
      spinlockRelease (.runqueue c)

/-! ## Interrupts -/

def Interrupt.handler (e : Env n) (k : Nat) : Interrupt → K n Unit
  | .ipi => interprocessorInterrupt
  | .clock migrate => do
      if migrate then threadConsiderMigration else pure ()
      threadYield e k
  | .device x => semV x

/-- The functions that `thread_switch` calls and that call it, nested at most so deep. -/
def env : Nat → Env n
  | 0 => ⟨rounds 0 (pure none), fun _ => rounds 0 (pure none)⟩
  | k + 1 => ⟨asActivate (env k) k, Interrupt.handler (env k) k⟩

/-! ## The machine -/

/-- What a thread can call when it is not in one of these functions. -/
inductive Call where
  | yield
  | semP (x : Nat)
  | semV (x : Nat)
  | sleep (y : Nat)
  | wakeone (y : Nat)
  | wakeall (y : Nat)
  | fork (memory : Bool) (proc : Option Proc)
  | exit
  | sysExit (x : Nat)
  | shutdown
deriving DecidableEq, Repr

/-- Between `spinlock_acquire` and `spinlock_release` of the channel's lock. -/
def underChan (y : Nat) (p : K n Unit) : K n Unit := do
  spinlockAcquire (.chan (.cv y))
  p
  spinlockRelease (.chan (.cv y))

def Call.program (k : Nat) : Call → K n Unit
  | .yield => threadYield (env k) k
  | .semP x => Threads.semP (env k) k x
  | .semV x => Threads.semV x
  | .sleep y => underChan y (wchanSleep (env k) k (.cv y))
  | .wakeone y => underChan y (wchanWakeone (.cv y))
  | .wakeall y => underChan y (wchanWakeall (.cv y))
  | .fork memory proc => do let _ ← threadFork memory proc
  | .exit => threadExit (env k) k
  | .sysExit x => Threads.sysExit (env k) k x
  | .shutdown => ipiBroadcast .offline

/-- The processors, and what each thread is about to do. -/
structure Machine (n : Nat) where
  sched : Sched n
  code : Thread → K n Unit

def Machine.doing (m : Machine n) (t : Thread) (p : K n Unit) : Machine n :=
  { m with code := Function.update m.code t p }

/-- Another processor wants `c` to take an interrupt. -/
def Sched.IpiPending (s : Sched n) (c : Fin n) : Prop := ∃ code, s.cIpiPending c code = true

inductive Step (m : Machine n) : Machine n → Prop where
  | act {t : Thread} {ρ : Type} {f : Thread → Sched n → Outcome (Wait n) (ρ × Sched n)}
      {k : ρ → K n Unit} {x : ρ} {s : Sched n} (hcode : m.code t = .act f k)
      (hf : f t m.sched = .ok (x, s)) :
      Step m { m.doing t (k x) with sched := s }
  /-- a thread that was doing something else makes a call -/
  | call {t : Thread} {c : Fin n} (k : Nat) (call : Call) (hcode : m.code t = .ret ())
      (hcur : m.sched.cCurthread c = t) :
      Step m (m.doing t (call.program k))
  /-- the processor takes an interrupt -/
  | interrupt {t : Thread} {c : Fin n} (k : Nat) (i : Interrupt) (hcur : m.sched.cCurthread c = t)
      (hon : m.sched.tIplhighCount t = 0) (hipi : i = .ipi → m.sched.IpiPending c) :
      Step m (m.doing t (interrupted (i.handler (env k) k) >>= fun _ => m.code t))
  /-- an interrupt ends the `wait` instruction of `cpu_idle` -/
  | rouse {c : Fin n} (i : Interrupt) (hwait : m.sched.waiting c = .yes)
      (hipi : i = .ipi → m.sched.IpiPending c) :
      Step m { m with
        sched := { m.sched with waiting := Function.update m.sched.waiting c (.taken i) } }
  /-- `proc_setas` -/
  | setas {p : Proc} {b : Bool} : Step m { m with
      sched := { m.sched with pAddrspace := Function.update m.sched.pAddrspace p b } }

/-- The processors have been created: on each runs the thread `cpu_create` made for it,
which has not turned interrupts on yet. -/
structure Booted (s : Sched n) : Prop where
  allocated : ∀ t, s.allocated t = decide (t < n)
  nextThread : s.nextThread = n
  curthread : ∀ c, s.cCurthread c = c
  tState : ∀ t, t < n → s.tState t = .ready
  tCpu : ∀ c : Fin n, s.tCpu c = some c
  tProc : ∀ t, t < n → s.tProc t = some 0
  tInInterrupt : ∀ t, t < n → s.tInInterrupt t = false
  tCurspl : ∀ t, t < n → s.tCurspl t = .high
  tIplhighCount : ∀ t, t < n → s.tIplhighCount t = 1
  cZombies : ∀ c, s.cZombies c = []
  cSpinlocks : ∀ c, s.cSpinlocks c = 0
  cIsidle : ∀ c, s.cIsidle c = false
  cRunqueue : ∀ c, s.cRunqueue c = []
  cIpiPending : ∀ c i, s.cIpiPending c i = false
  waiting : ∀ c, s.waiting c = .no
  wcThreads : ∀ w, s.wcThreads w = []
  pNumthreads : ∀ p, s.pNumthreads p = if p = 0 then n else 0
  splkHolder : ∀ l, s.splkHolder l = none
  slept : ∀ x t, s.slept x t = false

/-- Any interleaving of the processors, from boot. -/
def machine (n : Nat) : Transitions (Machine n) where
  start m := Booted m.sched ∧ (∀ t, t < n → m.code t = do let _ ← spl0) ∧
    ∀ t, n ≤ t → ∃ k, m.code t = threadStartup (env k) k
  step := Step

end Os161Paging.Threads
