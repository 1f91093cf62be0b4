import Os161Paging.Prog
import Os161Paging.Transitions

/-!
# Ending a program and waiting for it

One process, its thread and the thread that waits for it, from
`common_prog` (`menu.c`) to the end of both: `cmd_progthread` and the start
of the program, `sys__exit` (`proc_syscalls.c`), `proc_remthread`,
`proc_signal_end`, `proc_wait` and `proc_destroy` (`proc.c`), `P` and `V`
(`synch.c`) and `thread_exit` (`thread.c`).

The waiter frees the `proc` structure and its semaphore. Both are therefore
optional here, and a step that touches a structure that is gone has no
defined outcome. The steps are single statements, except that a section
of `p_lock` is one step; `sem_lock` is state.
-/

namespace Os161Paging.ExitWait

/-- The steps of `runprogramWithArgs` that can fail. -/
inductive Stage where
  | asCreate
  | loadElf
  | asDefineStack
  | copyoutstr
  | copyout
deriving DecidableEq, Repr

/-- What called `proc_remthread`. -/
inductive Back where
  | sysExit
  | threadExit
deriving DecidableEq, Repr

inductive ThreadPc where
  -- in `runprogramWithArgs`, called from `cmd_progthread`
  | startup (st : Stage)
  | user
  -- `p->p_status = status & 0xff`
  | exitStatus (status : BitVec 32)
  -- the section of `p_lock` in `proc_remthread`
  | remthread (b : Back)
  -- `t->t_proc = NULL`
  | detach (b : Back)
  -- `proc_signal_end`: the four statements of `V`
  | semAcquire
  | semCount
  | semWake
  | semRelease
  -- `if (cur->t_proc != NULL) proc_remthread(cur)`
  | threadExit
  -- `KASSERT(cur->t_proc == NULL)`
  | assertDetached
  | zombie
deriving DecidableEq, Repr

/-- The next thing the waiter does. From `proc_destroy` on it has the status
it is going to return. -/
inductive WaiterPc where
  -- `P(proc->p_sem)`
  | semAcquire
  | semTest
  | asleep
  | semRelock
  | semRelease
  -- `return_status = proc->p_status`
  | readStatus
  -- `proc_destroy`: `as = proc->p_addrspace; proc->p_addrspace = NULL`
  | takeAs (r : BitVec 32)
  -- `as_destroy(as)`
  | destroyAs (r : BitVec 32)
  -- `KASSERT(proc->p_numthreads == 0)`
  | assertThreads (r : BitVec 32)
  -- `proc_end_waitpid(proc)`, which ends in `sem_destroy`
  | endWaitpid (r : BitVec 32)
  -- `kfree(proc)`
  | freeProc (r : BitVec 32)
  | done (r : BitVec 32)
deriving DecidableEq, Repr

inductive Party where
  | thread
  | waiter
deriving DecidableEq, Repr

/-- The fields of `struct proc` that the protocol uses. -/
structure Proc where
  numthreads : Nat
  status : BitVec 32
  /-- `p_addrspace` is not null. -/
  hasAs : Bool
deriving DecidableEq, Repr

/-- `struct semaphore`, with the one waiter on its channel or not. -/
structure Sem where
  count : Nat
  lock : Option Party
  waiting : Bool
deriving DecidableEq, Repr

structure State where
  proc : Option Proc
  sem : Option Sem
  /-- `t_proc` of the thread is the process, not null. -/
  tProc : Bool
  thread : ThreadPc
  waiter : WaiterPc
  /-- History: what `runprogramWithArgs` returned, 0 as long as it did not. -/
  error : Nat
  /-- History: how often `p_sem` was signalled. -/
  signals : Nat
  /-- History: how often `proc_destroy` was called. -/
  destroys : Nat
  /-- History: `as_destroy` was called. -/
  asDestroyed : Bool
deriving DecidableEq, Repr

inductive Blocked where
  | semLock
  | wakeup
  | environment
deriving DecidableEq, Repr

namespace State

/-- `common_prog` has created the process and forked its thread. -/
def started : State where
  proc := some { numthreads := 1, status := 0, hasAs := false }
  sem := some { count := 0, lock := none, waiting := false }
  tProc := true
  thread := .startup .asCreate
  waiter := .semAcquire
  error := 0
  signals := 0
  destroys := 0
  asDestroyed := false

/-- The thread of the process is about to run `sys__exit(status)`. -/
def exiting (status : BitVec 32) (p : Proc) : State :=
  { started with proc := some { p with numthreads := 1 }, thread := .exitStatus status }

def withProc (s : State) (k : Proc → Outcome Blocked State) : Outcome Blocked State :=
  match s.proc with
  | none => .undefined
  | some p => k p

def withSem (s : State) (k : Sem → Outcome Blocked State) : Outcome Blocked State :=
  match s.sem with
  | none => .undefined
  | some x => k x

end State

/-! ## The program's thread -/

/-- What follows in `runprogramWithArgs`; after `as_create` the process has its
address space. -/
def Stage.next : Stage → ThreadPc
  | .asCreate => .startup .loadElf
  | .loadElf => .startup .asDefineStack
  | .asDefineStack => .startup .copyoutstr
  | .copyoutstr => .startup .copyout
  | .copyout => .user

/-- A step of `runprogramWithArgs` returned `result`. If that is an error,
`cmd_progthread` prints it and returns, and `thread_startup` goes on to
`thread_exit`. -/
def startupStep (result : Nat) (s : State) : Outcome Blocked State :=
  match s.thread with
  | .startup st =>
      if result ≠ 0 then .ok { s with thread := .threadExit, error := result }
      else if st = .asCreate then
        s.withProc fun p => .ok { s with proc := some { p with hasAs := true }, thread := st.next }
      else .ok { s with thread := st.next }
  | _ => .wait .environment

def sysExit (status : BitVec 32) (s : State) : Outcome Blocked State :=
  match s.thread with
  | .user => .ok { s with thread := .exitStatus status }
  | _ => .wait .environment

def threadStep (s : State) : Outcome Blocked State :=
  match s.thread with
  | .startup _ | .user | .zombie => .wait .environment
  | .exitStatus status =>
      s.withProc fun p => .ok { s with
        proc := some { p with status := status &&& 0xff }, thread := .remthread .sysExit }
  | .remthread b =>
      if s.tProc then
        s.withProc fun p =>
          if p.numthreads > 0 then .ok { s with
            proc := some { p with numthreads := p.numthreads - 1 }, thread := .detach b }
          else .panic "proc->p_numthreads > 0"
      else .panic "proc != NULL"
  | .detach .sysExit => .ok { s with tProc := false, thread := .semAcquire }
  | .detach .threadExit => .ok { s with tProc := false, thread := .assertDetached }
  | .semAcquire =>
      s.withProc fun _ => s.withSem fun x =>
        if x.lock = none then .ok { s with
          sem := some { x with lock := some .thread }, thread := .semCount }
        else .wait .semLock
  | .semCount =>
      s.withSem fun x =>
        if (x.count + 1) % 2 ^ 32 = 0 then .panic "sem->sem_count > 0"
        else .ok { s with
          sem := some { x with count := (x.count + 1) % 2 ^ 32 }, thread := .semWake
          signals := s.signals + 1 }
  | .semWake =>
      s.withSem fun x =>
        if x.waiting then .ok { s with
          sem := some { x with waiting := false }, thread := .semRelease, waiter := .semRelock }
        else .ok { s with thread := .semRelease }
  | .semRelease =>
      s.withSem fun x => .ok { s with sem := some { x with lock := none }, thread := .threadExit }
  | .threadExit =>
      .ok { s with thread := if s.tProc then .remthread .threadExit else .assertDetached }
  | .assertDetached =>
      if s.tProc then .panic "cur->t_proc == NULL" else .ok { s with thread := .zombie }

/-- The processor comes back to the thread after it ran another one:
`as_activate` asks for the address space of the current process. -/
def activate (s : State) : Outcome Blocked State :=
  if s.thread = .zombie then .wait .environment
  else if s.tProc then s.withProc fun _ => .ok s
  else .ok s

/-! ## The waiter -/

/-- One statement of `proc_wait`. -/
def waiterStep (s : State) : Outcome Blocked State :=
  match s.waiter with
  | .semAcquire =>
      s.withProc fun _ => s.withSem fun x =>
        if x.lock = none then .ok { s with
          sem := some { x with lock := some .waiter }, waiter := .semTest }
        else .wait .semLock
  | .semTest =>
      s.withSem fun x =>
        if x.count = 0 then .ok { s with
          sem := some { x with lock := none, waiting := true }, waiter := .asleep }
        else .ok { s with sem := some { x with count := x.count - 1 }, waiter := .semRelease }
  | .asleep => .wait .wakeup
  | .semRelock =>
      s.withSem fun x =>
        if x.lock = none then .ok { s with
          sem := some { x with lock := some .waiter }, waiter := .semTest }
        else .wait .semLock
  | .semRelease =>
      s.withSem fun x => .ok { s with sem := some { x with lock := none }, waiter := .readStatus }
  | .readStatus => s.withProc fun p => .ok { s with waiter := .takeAs p.status }
  | .takeAs r =>
      s.withProc fun p => .ok { s with
        proc := some { p with hasAs := false }, destroys := s.destroys + 1
        waiter := if p.hasAs then .destroyAs r else .assertThreads r }
  | .destroyAs r => .ok { s with asDestroyed := true, waiter := .assertThreads r }
  | .assertThreads r =>
      s.withProc fun p =>
        if p.numthreads = 0 then .ok { s with waiter := .endWaitpid r }
        else .panic "proc->p_numthreads == 0"
  | .endWaitpid r =>
      s.withProc fun _ => s.withSem fun x =>
        if x.lock = none then
          if x.waiting then .panic "threadlist_cleanup"
          else .ok { s with sem := none, waiter := .freeProc r }
        else .panic "spinlock_cleanup"
  | .freeProc r => s.withProc fun _ => .ok { s with proc := none, waiter := .done r }
  | .done _ => .wait .environment

/-! ## Interleavings -/

inductive Move where
  | startup (result : Nat)
  | sysExit (status : BitVec 32)
  | thread
  | activate
  | waiter
deriving DecidableEq, Repr

def outcome : Move → State → Outcome Blocked State
  | .startup result => startupStep result
  | .sysExit status => sysExit status
  | .thread => threadStep
  | .activate => activate
  | .waiter => waiterStep

def perform (m : Move) (s : State) : Option State :=
  match outcome m s with
  | .ok s' => some s'
  | _ => none

/-- Any interleaving, from the start of a program. -/
def programs : Transitions State where
  start s := s = .started
  step s s' := ∃ m, outcome m s = .ok s'

/-- Any interleaving of `sys__exit(status)` of a process with one thread with
one `proc_wait` for it. -/
def exits (status : BitVec 32) : Transitions State where
  start s := ∃ p, s = .exiting status p
  step s s' := ∃ m, outcome m s = .ok s'

end Os161Paging.ExitWait
