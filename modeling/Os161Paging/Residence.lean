import Mathlib.Data.Finset.Card
import Mathlib.Data.Fintype.Card
import Mathlib.Tactic.Tauto
import Os161Paging.Following
import Os161Paging.Shelves
import Os161Paging.Threads

/-!
# Where threads are

What holds between any two actions of any processors. A thread is at one
`Place`: on one list, with a thread that has taken it off a list, being made
by another thread, or none of these because it runs. Beside the places
rides what each thread and each processor is in the middle of. The
invariant is a conjunction of structures that each speak about a few of the
fields, so that an action has to be compared only with those it changes.

A thread is followed by what it sees (`Ghost.shown`): what is written down
about it and about the processor it is current on. As long as interrupts
are on it may be moved to another processor, so that it does not see which
one it is on.
-/

namespace Os161Paging.Threads

variable {n : Nat}

/-! ## Places and stages -/

/-- Where a thread is. -/
inductive Place (n : Nat) where
  /-- it does not exist -/
  | absent
  /-- it runs -/
  | present
  /-- it was given a processor and has not done anything yet -/
  | arriving (c : Fin n)
  | queue (c : Fin n)
  | chan (w : Chan)
  | zombies (c : Fin n)
  /-- it was taken off a list by `t` -/
  | hand (t : Thread)
  /-- it is being made by `t` -/
  | fresh (t : Thread)
deriving DecidableEq

namespace Place

/-- Threads there are on a list. -/
def IsShelf : Place n → Prop
  | .absent | .present | .arriving _ => False
  | _ => True

/-- The thread exists, and whoever made it is done with it. -/
def Settled (p : Place n) : Prop := p ≠ .absent ∧ ∀ t, p ≠ .fresh t

/-- What `t_cpu` of a thread there is. -/
def Fits : Place n → Option (Fin n) → Prop
  | .arriving c, x | .queue c, x | .zombies c, x => x = some c
  | .chan _, x => ∃ c, x = some c
  | _, _ => True

/-- What `t_state` of a thread there is. -/
def Tells : Place n → ThreadState → Prop
  | .queue _, st => st = .ready
  | .chan _, st => st = .sleep
  | .zombies _, st => st = .zombie
  | _, _ => True

end Place

/-- Whether a thread executes. -/
inductive Loc (n : Nat) where
  | away
  /-- it has given up its processor for good -/
  | gone
  | on (c : Fin n)
deriving DecidableEq

/-- How far a thread that executes is in `thread_switch`. -/
inductive Stage where
  | present
  /-- it is on a list, but its `t_state` does not say so -/
  | departing (st : ThreadState)
  | left (st : ThreadState)
  /-- in the idle loop -/
  | idle (st : ThreadState)
  /-- it has found its run queue empty, and has not been interrupted since -/
  | dozing (st : ThreadState)
deriving DecidableEq

namespace Stage

def isIdle : Stage → Bool
  | .idle _ | .dozing _ => true
  | _ => false

/-- The run queue of the processor is locked. -/
def switching : Stage → Bool
  | .departing _ | .left _ => true
  | _ => false

/-- Where a thread on its way out can be found. -/
def Permits (c : Fin n) : Stage → Place n → Prop
  | .present, _ => True
  | .departing .ready, p => p = .queue c
  | .departing .sleep, p => (∃ w, p = .chan w) ∨ ∃ t, p = .hand t
  | .departing .zombie, p | .left .zombie, p | .idle .zombie, p | .dozing .zombie, p =>
      p = .zombies c
  | _, p => p = .queue c ∨ (∃ w, p = .chan w) ∨ ∃ t, p = .hand t

theorem Permits.place {c : Fin n} {st : Stage} {p : Place n} (h : st.Permits c p)
    (hst : st ≠ .present) :
    p = .queue c ∨ p = .zombies c ∨ (∃ w, p = .chan w) ∨ ∃ t, p = .hand t := by
  cases st with
  | present => exact absurd rfl hst
  | departing x | left x | idle x | dozing x =>
      cases x <;> simp only [Permits] at h <;> tauto

end Stage

/-- The thread has put itself on a list and has not set its `t_state` yet. -/
def Departing (l : Loc n) (st : Stage) : Prop := (∃ c, l = .on c) ∧ ∃ x, st = .departing x

/-! ## What is written down -/

/-- A thread that was taken off a list: the processor in its `t_cpu`, and whether it was a
run queue. -/
structure Item (n : Nat) where
  thread : Thread
  cpu : Fin n
  ready : Bool
deriving DecidableEq

/-- A thread that is being made: its `t_cpu`, the process that counts it already, and
whether its `t_proc` says so. -/
structure Newborn (n : Nat) where
  thread : Thread
  cpu : Fin n
  joining : Option Proc
  joined : Bool
deriving DecidableEq

structure Ghost (n : Nat) where
  place : Thread → Place n
  /-- the process that counts the thread -/
  member : Thread → Option Proc
  loc : Thread → Loc n
  -- what a thread is in the middle of
  stage : Thread → Stage
  spl : Thread → Ipl
  irq : Thread → Bool
  /-- its `t_proc`, once it has run -/
  proc : Thread → Option (Option Proc)
  /-- its process does not count it any more -/
  leaving : Thread → Bool
  hand : Thread → List (Item n)
  fresh : Thread → Option (Newborn n)
  -- what a processor is in the middle of
  held : Fin n → List (Spin n)
  /-- at least so many threads are on its run queue -/
  floor : Fin n → Nat
  /-- it has put a thread on the run queue of another one and has to look if that is idle -/
  owes : Fin n → Option (Fin n)
  /-- it has counted the semaphore up and has to wake a thread -/
  posted : Fin n → Option Nat
  /-- it has looked whether the count of the semaphore is zero -/
  found : Fin n → Option (Nat × Bool)

/-- What is written down about a thread. -/
structure Self (n : Nat) where
  stage : Stage
  spl : Ipl
  irq : Bool
  proc : Option (Option Proc)
  leaving : Bool
  hand : List (Item n)
  fresh : Option (Newborn n)

/-- With interrupts on, a thread is not in `thread_switch`, and it has run. -/
def Self.Unmasked (a : Self n) : Prop := a.spl = .none → a.stage = .present ∧ ∃ p, a.proc = some p

/-- What is written down about a processor. -/
structure Desk (n : Nat) where
  locks : List (Spin n)
  floor : Nat
  owes : Option (Fin n)
  posted : Option Nat
  found : Option (Nat × Bool)

def Desk.clear : Desk n := ⟨[], 0, none, none, none⟩

/-- What a thread sees. -/
structure View (n : Nat) extends Self n, Desk n where
  loc : Option (Loc n)

namespace View

/-- Interrupts are on. -/
def Open (v : View n) : Prop := v.spl = .none ∧ v.locks = []

instance (v : View n) : Decidable v.Open := inferInstanceAs (Decidable (_ ∧ _))

def opened (v : View n) : View n := ⟨v.toSelf, .clear, none⟩

/-- As long as interrupts are on, the thread does not know its processor. -/
def hide (v : View n) : View n := if v.Open then v.opened else v

def put (v : View n) (c : Fin n) : View n := hide { v with loc := some (.on c) }

/-- The view of a thread that has not run yet. -/
def newborn : View n where
  stage := .present
  spl := .high
  irq := false
  proc := none
  leaving := false
  hand := []
  fresh := none
  toDesk := .clear
  loc := some .away

end View

namespace Ghost

def self (g : Ghost n) (t : Thread) : Self n :=
  ⟨g.stage t, g.spl t, g.irq t, g.proc t, g.leaving t, g.hand t, g.fresh t⟩

def desk (g : Ghost n) (c : Fin n) : Desk n :=
  ⟨g.held c, g.floor c, g.owes c, g.posted c, g.found c⟩

def deskAt (g : Ghost n) : Loc n → Desk n
  | .on c => g.desk c
  | _ => .clear

def shown (g : Ghost n) (t : Thread) : View n :=
  View.hide { toSelf := g.self t, toDesk := g.deskAt (g.loc t), loc := some (g.loc t) }

end Ghost

/-! ## The invariant -/

section Invariant

variable (place : Thread → Place n) (member : Thread → Option Proc) (loc : Thread → Loc n)
  (stage : Thread → Stage) (spl : Thread → Ipl) (irq : Thread → Bool)
  (proc : Thread → Option (Option Proc)) (leaving : Thread → Bool)
  (hand : Thread → List (Item n)) (fresh : Thread → Option (Newborn n))
  (held : Fin n → List (Spin n)) (floor : Fin n → Nat) (owes : Fin n → Option (Fin n))
  (posted : Fin n → Option Nat) (found : Fin n → Option (Nat × Bool))
  (allocated : Thread → Bool) (tState : Thread → ThreadState) (tCpu : Thread → Option (Fin n))
  (tProc : Thread → Option Proc) (tInInterrupt : Thread → Bool) (tCurspl : Thread → Ipl)
  (tIplhighCount : Thread → Nat) (nextThread : Thread) (slept : Nat → Thread → Bool)
  (curthread : Fin n → Thread) (zombies : Fin n → List Thread) (spinlocks : Fin n → Nat)
  (isidle : Fin n → Bool) (runqueue : Fin n → List Thread) (ipiPending : Fin n → Ipi → Bool)
  (waiting : Fin n → Waiting) (wcThreads : Chan → List Thread) (semCount : Nat → Nat)
  (numthreads : Proc → Nat) (splkHolder : Spin n → Option (Fin n))

def shelves : Place n → List Thread
  | .queue c => runqueue c
  | .zombies c => zombies c
  | .chan w => wcThreads w
  | .hand t => (hand t).map Item.thread
  | .fresh t => (fresh t).toList.map Newborn.thread
  | _ => []

/-- Every thread is at its place, once. -/
structure Located : Prop where
  shelved : Shelved Place.IsShelf place (shelves hand fresh zombies runqueue wcThreads)
  present : ∀ u, place u = .present ↔ (∃ c, loc u = .on c) ∧ stage u = .present
  exists_iff : ∀ u, allocated u = true ↔ place u ≠ .absent
  bound : ∀ u, place u ≠ .absent → u < nextThread

/-- A thread is current on the processor that `t_cpu` says, and on no other. -/
structure Seated : Prop where
  on : ∀ t c, loc t = .on c → curthread c = t
  cur : ∀ c, loc (curthread c) = .on c ∨ loc (curthread c) = .away
  arriving : ∀ u c, place u = .arriving c ↔ loc u = .away ∧ curthread c = u
  curCpu : ∀ c, tCpu (curthread c) = some c
  cpu : ∀ u, (place u).Fits (tCpu u)
  handCpu : ∀ t, ∀ i ∈ hand t, tCpu i.thread = some i.cpu
  freshCpu : ∀ t, ∀ b ∈ fresh t, tCpu b.thread = some b.cpu
  departed : ∀ t c, loc t = .on c → stage t ≠ .present → (stage t).Permits c (place t)
  idle : ∀ c, isidle c = true ↔ loc (curthread c) = .on c ∧ (stage (curthread c)).isIdle = true
  dead : ∀ u c, place u = .zombies c → loc u = .gone ∨ ∃ d, loc u = .on d
  gone : ∀ u, loc u = .gone → (∃ c, place u = .zombies c) ∨ place u = .absent

structure Locked : Prop where
  holder : ∀ l c, splkHolder l = some c ↔ l ∈ held c
  nodup : ∀ c, (held c).Nodup
  count : ∀ c, spinlocks c = (held c).length
  switching : ∀ t c, loc t = .on c → (stage t).switching = true → Spin.runqueue c ∈ held c
  arriving : ∀ c, loc (curthread c) = .away → held c = [Spin.runqueue c] ∧ owes c = none
  owing : ∀ c d, owes c = some d → Spin.runqueue d ∈ held c ∧ d ≠ c
  posting : ∀ c x, posted c = some x → Spin.chan (.sem x) ∈ held c
  testing : ∀ c x b, found c = some (x, b) → Spin.chan (.sem x) ∈ held c

/-- What keeps interrupts off. -/
structure Levelled : Prop where
  on : ∀ t c, loc t = .on c → tCurspl t = spl t ∧
    tIplhighCount t = (if spl t = .high then 1 else 0) + (held c).length
  away : ∀ u, loc u = .away → (place u).Settled → tCurspl u = .high ∧ tIplhighCount u = 2
  newborn : ∀ u t, place u = .fresh t → loc u = .away ∧ tCurspl u = .high ∧ tIplhighCount u = 1
  awaySpl : ∀ u, loc u = .away → spl u = .high
  inInterrupt : ∀ u, place u ≠ .absent → tInInterrupt u = irq u

/-- `t_state` says where a thread is, once it has been set. -/
structure Stated : Prop where
  queue : ∀ u c, place u = .queue c → tState u = .ready
  told : ∀ u, Departing (loc u) (stage u) ∨ (place u).Tells (tState u)
  taken : ∀ t, ∀ i ∈ hand t, i.ready = true →
    tState i.thread = .ready ∧ ¬ Departing (loc i.thread) (stage i.thread)

/-- A processor that sleeps is woken when there is something to do. -/
structure Roused : Prop where
  atLeast : ∀ c, floor c ≤ (runqueue c).length
  doze : ∀ t c st, loc t = .on c → stage t = .dozing st →
    runqueue c = [] ∨ ipiPending c .unidle = true ∨ ∃ d, owes d = some c
  asleep : ∀ c, waiting c ≠ .no →
    loc (curthread c) = .on c ∧ held c = [] ∧ ∃ st, stage (curthread c) = .dozing st

/-- `p_numthreads` counts the threads of the process. -/
structure Attached : Prop where
  known : ∀ t x, proc t = some x → tProc t = x
  unstarted : ∀ u, (place u).Settled → proc u = none → tProc u ≠ none
  zombies : ∀ u c, place u = .zombies c → tProc u = none
  newborn : ∀ t, ∀ b ∈ fresh t, tProc b.thread = (if b.joined then b.joining else none) ∧
    proc b.thread = none ∧ member b.thread = b.joining ∧ leaving b.thread = false
  counted : ∀ u, (place u).Settled → member u = if leaving u then none else tProc u
  absent : ∀ u, place u = .absent → member u = none
  total : ∀ p, numthreads p = ((Finset.range nextThread).filter fun u => member u = some p).card

/-- The threads that slept in `P(x)`, have been woken and have not got through yet. -/
def wokenFor (nextThread : Thread) (slept : Nat → Thread → Bool) (wcThreads : Chan → List Thread)
    (x : Nat) : Finset Thread :=
  (Finset.range nextThread).filter fun u => slept x u = true ∧ u ∉ wcThreads (.sem x)

/-- No thread sleeps on a semaphore that it could get, unless others are on their way
to it. -/
structure Signalled : Prop where
  sleepers : ∀ u x, u ∈ wcThreads (.sem x) → slept x u = true
  zero : ∀ c x b, found c = some (x, b) → (b = true ↔ semCount x = 0)
  awake : ∀ x, wcThreads (.sem x) ≠ [] → semCount x ≤
    (wokenFor nextThread slept wcThreads x).card +
      (Finset.univ.filter fun c => posted c = some x).card

end Invariant

structure Core (g : Ghost n) (s : Sched n) : Prop where
  located : Located g.place g.loc g.stage g.hand g.fresh s.allocated s.nextThread s.cZombies
    s.cRunqueue s.wcThreads
  seated : Seated g.place g.loc g.stage g.hand g.fresh s.tCpu s.cCurthread s.cIsidle
  locked : Locked g.loc g.stage g.held g.owes g.posted g.found s.cCurthread s.cSpinlocks
    s.splkHolder
  levelled : Levelled g.place g.loc g.spl g.irq g.held s.tInInterrupt s.tCurspl s.tIplhighCount
  unmasked : ∀ t, (g.self t).Unmasked
  stated : Stated g.place g.loc g.stage g.hand s.tState
  roused : Roused g.loc g.stage g.held g.floor g.owes s.cCurthread s.cRunqueue s.cIpiPending
    s.waiting
  attached : Attached g.place g.member g.proc g.leaving g.fresh s.tProc s.nextThread s.pNumthreads
  signalled : Signalled g.posted g.found s.nextThread s.slept s.wcThreads s.semCount

structure Inv (g : Ghost n) (s : Sched n) : Prop extends Core g s where
  virgin : ∀ u, s.nextThread ≤ u → g.shown u = .newborn

end Os161Paging.Threads
