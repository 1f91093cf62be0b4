import Mathlib.Data.Set.Card
import Os161Paging.Multiprocessor

/-!
# What the scheduler guarantees

Read off the invariant, for every machine that is reached from boot and
however many processors there are: threads are on one list at a time and
run on one processor at a time; no assertion fails and no freed thread is
used; a processor does not sleep through work; spinning for a lock comes to
an end; interrupts are off exactly as long as somebody wants them off; and
no wakeup of a semaphore is lost.
-/

namespace Os161Paging.Threads

open Prog

variable {n : Nat} {m : Machine n} {t u : Thread} {c d : Fin n}

/-! ## Runs that can be computed -/

inductive Event (n : Nat) where
  | act (t : Thread)
  | call (c : Fin n) (k : Nat) (call : Call)
  | interrupt (c : Fin n) (k : Nat) (i : Interrupt)
  | rouse (c : Fin n) (i : Interrupt)

def Sched.ipiPending (s : Sched n) (c : Fin n) : Bool :=
  s.cIpiPending c .panic || s.cIpiPending c .offline || s.cIpiPending c .unidle

theorem Sched.ipiPending_iff {s : Sched n} : s.ipiPending c = true → s.IpiPending c := by
  unfold ipiPending
  rw [Bool.or_eq_true, Bool.or_eq_true]
  rintro ((h | h) | h)
  · exact ⟨_, h⟩
  · exact ⟨_, h⟩
  · exact ⟨_, h⟩

namespace Machine

def act (m : Machine n) (t : Thread) : Option (Machine n) :=
  match m.code t with
  | .ret _ => none
  | .act f k =>
      match f t m.sched with
      | .ok (x, s) => some { m.doing t (k x) with sched := s }
      | _ => none

def call (m : Machine n) (c : Fin n) (k : Nat) (call : Call) : Option (Machine n) :=
  match m.code (m.sched.cCurthread c) with
  | .ret _ => some (m.doing (m.sched.cCurthread c) (call.program k))
  | .act _ _ => none

def interrupt (m : Machine n) (c : Fin n) (k : Nat) (i : Interrupt) : Option (Machine n) :=
  if m.sched.tIplhighCount (m.sched.cCurthread c) = 0 ∧ (i = .ipi → m.sched.ipiPending c = true)
  then some (m.doing (m.sched.cCurthread c)
    (interrupted (i.handler (env k) k) >>= fun _ => m.code (m.sched.cCurthread c)))
  else none

def rouse (m : Machine n) (c : Fin n) (i : Interrupt) : Option (Machine n) :=
  if m.sched.waiting c = .yes ∧ (i = .ipi → m.sched.ipiPending c = true) then
    some { m with
      sched := { m.sched with waiting := Function.update m.sched.waiting c (.taken i) } }
  else none

def move : Event n → Machine n → Option (Machine n)
  | .act t, m => m.act t
  | .call c k call, m => m.call c k call
  | .interrupt c k i, m => m.interrupt c k i
  | .rouse c i, m => m.rouse c i

theorem step_of_move {e : Event n} {m m' : Machine n} (h : move e m = some m') : Step m m' := by
  cases e with
  | act t =>
      replace h : m.act t = some m' := h
      unfold act at h
      split at h
      · cases h
      · split at h
        · cases h
          exact .act ‹_› ‹_›
        · cases h
  | call c k call =>
      replace h : m.call c k call = some m' := h
      unfold Machine.call at h
      split at h
      · cases h
        exact .call k call ‹_› rfl
      · cases h
  | interrupt c k i =>
      obtain ⟨⟨hon, hipi⟩, h⟩ := Option.ite_none_right_eq_some.mp h
      cases h
      exact .interrupt k i rfl hon fun hi => Sched.ipiPending_iff (hipi hi)
  | rouse c i =>
      obtain ⟨⟨hwait, hipi⟩, h⟩ := Option.ite_none_right_eq_some.mp h
      cases h
      exact .rouse i hwait fun hi => Sched.ipiPending_iff (hipi hi)

end Machine

/-- The processors have been created, and `n` threads run. -/
def Sched.booted (n : Nat) : Sched n where
  allocated t := decide (t < n)
  tState _ := .ready
  tCpu t := if h : t < n then some ⟨t, h⟩ else none
  tProc _ := some 0
  tInInterrupt _ := false
  tCurspl _ := .high
  tIplhighCount _ := 1
  nextThread := n
  cCurthread c := c
  cZombies _ := []
  cSpinlocks _ := 0
  cIsidle _ := false
  cRunqueue _ := []
  cIpiPending _ _ := false
  waiting _ := .no
  wcThreads _ := []
  semCount _ := 0
  pNumthreads p := if p = 0 then n else 0
  pAddrspace _ := false
  splkHolder _ := none
  slept _ _ := false

theorem Sched.booted_booted (n : Nat) : Booted (Sched.booted n) where
  allocated _ := rfl
  nextThread := rfl
  curthread _ := rfl
  tState _ _ := rfl
  tCpu c := by simp [booted]
  tProc _ _ := rfl
  tInInterrupt _ _ := rfl
  tCurspl _ _ := rfl
  tIplhighCount _ _ := rfl
  cZombies _ := rfl
  cSpinlocks _ := rfl
  cIsidle _ := rfl
  cRunqueue _ := rfl
  cIpiPending _ _ := rfl
  waiting _ := rfl
  wcThreads _ := rfl
  pNumthreads _ := rfl
  splkHolder _ := rfl
  slept _ _ := rfl

def Machine.booted (n k : Nat) : Machine n where
  sched := .booted n
  code t := if t < n then do let _ ← spl0 else threadStartup (env k) k

theorem Machine.booted_start (n k : Nat) : (machine n).start (.booted n k) := by
  refine ⟨Sched.booted_booted n, fun t ht => if_pos ht, fun t ht => ⟨k, ?_⟩⟩
  exact if_neg (Nat.not_lt.mpr ht)

def Machine.play (n k : Nat) (es : List (Event n)) : Option (Machine n) :=
  es.foldlM (fun m e => m.move e) (.booted n k)

theorem Machine.reachable_of_play {n k : Nat} {es : List (Event n)} {m : Machine n}
    (h : Machine.play n k es = some m) : (machine n).Reachable m :=
  (Transitions.Reachable.init (booted_start n k)).moves
    (f := Machine.move) (fun _ _ _ => Machine.step_of_move) es h

/-- Two threads sleep in `P` of one semaphore, each on its own processor; in the idle loop of
the second one, the first `k` actions of taking an interrupt from a device, whose driver calls
`V`. -/
def deviceRun (k : Nat) : List (Event 2) :=
  [.act 0, .act 1, .call 0 3 (.semP 1), .call 1 3 (.semP 1)] ++ List.replicate 20 (.act 0) ++
    List.replicate 20 (.act 1) ++ [.rouse 1 (.device 1)] ++ List.replicate k (.act 1)

/-! ## Lists -/

def Sched.list (s : Sched n) : Place n → List Thread :=
  shelves (fun _ => []) (fun _ => none) s.cZombies s.cRunqueue s.wcThreads

/-- Every thread is on one list at most, and runs on one processor at most. -/
structure Orderly (s : Sched n) : Prop where
  once : ∀ q, (s.list q).Nodup
  oneList : ∀ q r, ∀ u ∈ s.list q, u ∈ s.list r → q = r
  live : ∀ q, ∀ u ∈ s.list q, s.allocated u = true
  ready : ∀ c, ∀ u ∈ s.cRunqueue c, s.tCpu u = some c ∧ s.tState u = .ready
  current : ∀ c, s.allocated (s.cCurthread c) = true ∧ s.tCpu (s.cCurthread c) = some c
  /-- a thread that runs and is on a list is in `thread_switch`, and on a list of its own
  processor unless it sleeps -/
  leaving : ∀ c q, s.cCurthread c ∈ s.list q →
    (s.cIsidle c = true ∨ s.splkHolder (.runqueue c) = some c) ∧
      ∀ d, q = .queue d ∨ q = .zombies d → d = c

namespace Inv

variable {g : Ghost n} {s : Sched n} (hi : Inv g s)
include hi

theorem place_of_list {q : Place n} (hu : u ∈ s.list q) : g.place u = q := by
  have hmem := hi.located.shelved.mem q
  cases q with
  | queue c => exact (hmem trivial u).mp hu
  | chan w => exact (hmem trivial u).mp hu
  | zombies c => exact (hmem trivial u).mp hu
  | _ => cases hu

/-- A current thread that is on a list is on its way out. -/
theorem stage_of_list {q : Place n} (hu : s.cCurthread c ∈ s.list q) :
    g.loc (s.cCurthread c) = .on c ∧ g.stage (s.cCurthread c) ≠ .present := by
  have hplace := hi.place_of_list hu
  have hon : g.loc (s.cCurthread c) = .on c := by
    refine (hi.seated.cur c).resolve_right fun haway => ?_
    rw [(hi.seated.arriving _ c).mpr ⟨haway, rfl⟩] at hplace
    subst hplace
    cases hu
  refine ⟨hon, fun hst => ?_⟩
  rw [(hi.located.present _).mpr ⟨⟨c, hon⟩, hst⟩] at hplace
  subst hplace
  cases hu

theorem orderly : Orderly s where
  once q := by
    have hnodup := hi.located.shelved.nodup q
    cases q with
    | queue c => exact hnodup trivial
    | chan w => exact hnodup trivial
    | zombies c => exact hnodup trivial
    | _ => exact List.nodup_nil
  oneList q r u hq hr := (hi.place_of_list hq).symm.trans (hi.place_of_list hr)
  live q u hu := by
    rw [hi.located.exists_iff, hi.place_of_list hu]
    rintro rfl
    cases hu
  ready c u hu := by
    have hplace : g.place u = .queue c := hi.place_of_list (q := .queue c) hu
    have hcpu := hi.seated.cpu u
    rw [hplace] at hcpu
    exact ⟨hcpu, hi.stated.queue u c hplace⟩
  current c := ⟨(hi.located.exists_iff _).mpr (hi.exists_cur rfl), hi.seated.curCpu c⟩
  leaving c q hu := by
    obtain ⟨hon, hst⟩ := hi.stage_of_list hu
    have hplace := hi.place_of_list hu
    constructor
    · by_cases hidle : (g.stage (s.cCurthread c)).isIdle = true
      · exact .inl ((hi.seated.idle c).mpr ⟨hon, hidle⟩)
      · have hswitching : (g.stage (s.cCurthread c)).switching = true := by
          cases hs : g.stage (s.cCurthread c) <;> simp_all [Stage.isIdle, Stage.switching]
        exact .inr ((hi.locked.holder _ c).mpr (hi.locked.switching _ c hon hswitching))
    · intro d hd
      have hpermits := (hi.seated.departed _ c hon hst).place hst
      rw [hplace] at hpermits
      rcases hd with rfl | rfl <;> simpa using hpermits

end Inv

/-- In every interleaving, threads are on one list at a time and on one processor at a time. -/
theorem threads_orderly (hm : (machine n).Reachable m) : Orderly m.sched := by
  obtain ⟨g, hi⟩ := (manned_of_reachable hm).inv
  exact hi.orderly

theorem threads_orderly_device : ∃ m, Machine.play 2 3 (deviceRun 21) = some m ∧
    Orderly m.sched ∧ m.sched.cCurthread 0 ∈ m.sched.list (.queue 0) := by
  obtain ⟨m, hm, hcur, hqueue⟩ : ∃ m, Machine.play 2 3 (deviceRun 21) = some m ∧
      m.sched.cCurthread 0 = 0 ∧ m.sched.cRunqueue 0 = [0] := by
    simpa using Option.map_eq_some_iff.mp (show (Machine.play 2 3 (deviceRun 21)).map
      (fun m => (m.sched.cCurthread 0, m.sched.cRunqueue 0)) = some (0, [0]) by decide +kernel)
  refine ⟨m, hm, threads_orderly (Machine.reachable_of_play hm), ?_⟩
  show m.sched.cCurthread 0 ∈ m.sched.cRunqueue 0
  rw [hcur, hqueue]
  exact List.mem_singleton_self _

/-! ## Assertions -/

/-- In every interleaving, no assertion of the scheduler fails and no thread is used that has
been freed; only `V` can count up a semaphore too often, the one whose lock it holds. -/
theorem no_assertion_fails {ρ : Type} {f : Thread → Sched n → Outcome (Wait n) (ρ × Sched n)}
    {k : ρ → K n Unit} (hm : (machine n).Reachable m) (hcode : m.code t = .act f k) :
    f t m.sched ≠ .undefined ∧ ∀ msg, f t m.sched = .panic msg →
      msg = "sem->sem_count > 0 (V)" ∧ ∃ c x, m.sched.cCurthread c = t ∧
        m.sched.splkHolder (.chan (.sem x)) = some c ∧ (m.sched.semCount x + 1) % 2 ^ 32 = 0 := by
  have hstops : (f t m.sched).StopsIn (Allowed t m.sched) :=
    (manned_of_reachable hm).stops rfl trivial hcode
  constructor
  · intro hf
    rw [hf] at hstops
    exact hstops
  · intro msg hf
    rw [hf] at hstops
    exact hstops

theorem no_assertion_fails_device : ∃ (m : Machine 2) (ρ : Type)
    (f : Thread → Sched 2 → Outcome (Wait 2) (ρ × Sched 2)) (k : ρ → K 2 Unit),
    Machine.play 2 3 (deviceRun 7) = some m ∧ m.code 1 = .act f k ∧ f 1 m.sched ≠ .undefined := by
  obtain ⟨m, hm, hact⟩ := Option.map_eq_some_iff.mp (show (Machine.play 2 3 (deviceRun 7)).map
    (fun m => (m.act 1).isSome) = some true by decide +kernel)
  cases hcode : m.code 1 with
  | ret x => simp [Machine.act, hcode] at hact
  | act f k =>
      exact ⟨m, _, f, k, hm, hcode, (no_assertion_fails (Machine.reachable_of_play hm) hcode).1⟩

/-! ## Idle processors -/

/-- In every interleaving, a processor that waits for an interrupt while there are threads on
its run queue has one pending, unless the run queue is locked. -/
theorem waiting_processor_roused (hm : (machine n).Reachable m) (hwait : m.sched.waiting c ≠ .no)
    (hwork : m.sched.cRunqueue c ≠ []) (hlock : m.sched.splkHolder (.runqueue c) = none) :
    m.sched.cIpiPending c .unidle = true := by
  obtain ⟨g, hi⟩ := (manned_of_reachable hm).inv
  obtain ⟨hon, -, st, hst⟩ := hi.roused.asleep c hwait
  rcases hi.roused.doze _ c st hon hst with hempty | hpending | ⟨d, hd⟩
  · exact absurd hempty hwork
  · exact hpending
  · -- the one that has put a thread there still holds the lock
    have hheld := (hi.locked.holder _ d).mpr (hi.locked.owing d c hd).1
    rw [hlock] at hheld
    cases hheld

theorem waiting_processor_roused_device : ∃ m, Machine.play 2 3 (deviceRun 21) = some m ∧
    m.sched.waiting 0 = .yes ∧ m.sched.cRunqueue 0 = [0] ∧
      m.sched.cIpiPending 0 .unidle = true := by
  obtain ⟨m, hm, hwait, hqueue, hlock⟩ : ∃ m, Machine.play 2 3 (deviceRun 21) = some m ∧
      m.sched.waiting 0 = .yes ∧ m.sched.cRunqueue 0 = [0] ∧
        m.sched.splkHolder (.runqueue 0) = none := by
    simpa using Option.map_eq_some_iff.mp (show (Machine.play 2 3 (deviceRun 21)).map
      (fun m => (m.sched.waiting 0, m.sched.cRunqueue 0, m.sched.splkHolder (.runqueue 0))) =
        some (.yes, [0], none) by decide +kernel)
  exact ⟨m, hm, hwait, hqueue, waiting_processor_roused (Machine.reachable_of_play hm)
    (by simp [hwait]) (by simp [hqueue]) hlock⟩

/-! ## Interrupts -/

/-- In every interleaving, `c_spinlocks` counts the spinlocks that a processor holds, and
`t_iplhigh_count` of its thread counts them and the level of the thread. -/
theorem interrupts_accounted (hm : (machine n).Reachable m) (c : Fin n) :
    m.sched.cSpinlocks c = {l | m.sched.splkHolder l = some c}.ncard ∧
      m.sched.tIplhighCount (m.sched.cCurthread c) =
        (if m.sched.tCurspl (m.sched.cCurthread c) = .high then 1 else 0) +
          m.sched.cSpinlocks c := by
  obtain ⟨g, hi⟩ := (manned_of_reachable hm).inv
  constructor
  · have hset : {l | m.sched.splkHolder l = some c} = (g.held c).toFinset := by
      ext l
      simp [hi.locked.holder]
    rw [hset, Set.ncard_coe_finset, List.toFinset_card_of_nodup (hi.locked.nodup c),
      hi.locked.count]
  · rw [hi.locked.count]
    rcases hi.seated.cur c with hon | haway
    · obtain ⟨hspl, hcount⟩ := hi.levelled.on _ c hon
      rw [hspl, hcount]
    · obtain ⟨hspl, hcount⟩ := hi.levelled.away _ haway
        ⟨hi.exists_cur rfl, fun _ => hi.not_fresh_cur rfl⟩
      rw [hspl, hcount, (hi.locked.arriving c haway).1]
      rfl

theorem interrupts_accounted_device : ∃ m, Machine.play 2 3 (deviceRun 12) = some m ∧
    m.sched.cSpinlocks 1 = 3 ∧ {l | m.sched.splkHolder l = some 1}.ncard = 3 := by
  obtain ⟨m, hm, hcount⟩ := Option.map_eq_some_iff.mp (show (Machine.play 2 3 (deviceRun 12)).map
    (fun m => m.sched.cSpinlocks 1) = some 3 by decide +kernel)
  refine ⟨m, hm, hcount, ?_⟩
  rw [← (interrupts_accounted (Machine.reachable_of_play hm) 1).1, hcount]

/-! ## Semaphores -/

/-- In every interleaving, threads sleep on a semaphore with a positive count only if at least
so many others have been woken and are on their way, unless the semaphore is locked. -/
theorem semaphore_sleepers_followed (hm : (machine n).Reachable m) (x : Nat)
    (hsleep : m.sched.wcThreads (.sem x) ≠ [])
    (hlock : m.sched.splkHolder (.chan (.sem x)) = none) :
    m.sched.semCount x ≤
      (wokenFor m.sched.nextThread m.sched.slept m.sched.wcThreads x).card := by
  obtain ⟨g, hi⟩ := (manned_of_reachable hm).inv
  have hawake := hi.signalled.awake x hsleep
  have hnone : (Finset.univ.filter fun c => g.posted c = some x) = ∅ := by
    refine Finset.filter_false_of_mem fun c _ hc => ?_
    have hheld := (hi.locked.holder _ c).mpr (hi.locked.posting c x hc)
    rw [hlock] at hheld
    cases hheld
  rwa [hnone, Finset.card_empty, Nat.add_zero] at hawake

theorem semaphore_sleepers_followed_device : ∃ m, Machine.play 2 3 (deviceRun 21) = some m ∧
    m.sched.wcThreads (.sem 1) = [1] ∧ m.sched.semCount 1 = 1 ∧
      1 ≤ (wokenFor m.sched.nextThread m.sched.slept m.sched.wcThreads 1).card := by
  obtain ⟨m, hm, hsleep, hlock, hcount⟩ : ∃ m, Machine.play 2 3 (deviceRun 21) = some m ∧
      m.sched.wcThreads (.sem 1) = [1] ∧ m.sched.splkHolder (.chan (.sem 1)) = none ∧
        m.sched.semCount 1 = 1 := by
    simpa using Option.map_eq_some_iff.mp (show (Machine.play 2 3 (deviceRun 21)).map
      (fun m => (m.sched.wcThreads (.sem 1), m.sched.splkHolder (.chan (.sem 1)),
        m.sched.semCount 1)) = some ([1], none, 1) by decide +kernel)
  have hle := semaphore_sleepers_followed (Machine.reachable_of_play hm) 1 (by simp [hsleep]) hlock
  exact ⟨m, hm, hsleep, hcount, hcount.symm.le.trans hle⟩

/-! ## Spinning -/

def Machine.blocked (m : Machine n) (c : Fin n) : Option (Wait n) :=
  match m.code (m.sched.cCurthread c) with
  | .ret _ => none
  | .act f _ =>
      match f (m.sched.cCurthread c) m.sched with
      | .wait w => some w
      | _ => none

/-- The spinlock for which the processor spins. -/
def Machine.spinsFor (m : Machine n) (c : Fin n) : Option (Spin n) :=
  match m.blocked c with
  | some (.spin l) => some l
  | _ => none

theorem Machine.blocked_allowed (hm : (machine n).Reachable m) {w : Wait n}
    (hw : m.blocked c = some w) : Allowed (m.sched.cCurthread c) m.sched (.wait w) := by
  unfold blocked at hw
  split at hw
  · cases hw
  · rename_i f k hcode
    have hstops : (f (m.sched.cCurthread c) m.sched).StopsIn (Allowed _ m.sched) :=
      (manned_of_reachable hm).stops rfl trivial hcode
    split at hw
    · rename_i w' hf
      cases hw
      rw [hf] at hstops
      exact hstops
    · cases hw

theorem Machine.spinsFor_eq {l : Spin n} (h : m.spinsFor c = some l) :
    m.blocked c = some (.spin l) := by
  unfold spinsFor at h
  split at h
  · cases h
    assumption
  · cases h

/-- In every interleaving, the holder of the spinlock a processor spins for, or the holder of
the one that this one spins for, and so on, is a processor that neither spins nor waits for an
interrupt. -/
theorem spinning_ends (hm : (machine n).Reachable m) {l : Spin n}
    (hspin : m.spinsFor c = some l) :
    ∃ d, Relation.TransGen (WaitsFor m.sched.splkHolder m.spinsFor) c d ∧
      (m.blocked d = none ∨ m.blocked d = some .rounds) := by
  have hordered : Ordered m.sched.splkHolder m.spinsFor Spin.rank := by
    intro b l hl
    exact (Machine.blocked_allowed hm (Machine.spinsFor_eq hl)).2 b rfl
  obtain ⟨⟨b, hb⟩, -⟩ := Machine.blocked_allowed hm (Machine.spinsFor_eq hspin)
  obtain ⟨d, hcd, hend⟩ := hordered.exists_end (k := 2) (fun l => by cases l <;> simp [Spin.rank])
    ⟨l, hspin, hb⟩
  refine ⟨d, hcd, ?_⟩
  -- somebody waits for `d`, so that it holds a lock
  obtain ⟨b', l', -, hl'⟩ : ∃ b' l', m.spinsFor b' = some l' ∧ m.sched.splkHolder l' = some d := by
    cases hcd with
    | single h => exact ⟨c, h⟩
    | tail _ h => exact ⟨_, h⟩
  cases hblocked : m.blocked d with
  | none => exact .inl rfl
  | some w =>
      have hallowed := Machine.blocked_allowed hm hblocked
      cases w with
      | processor => exact absurd rfl (hallowed d)
      | spin l =>
          obtain ⟨⟨e, he⟩, -⟩ := hallowed
          exact absurd ⟨l, by simp [Machine.spinsFor, hblocked], he⟩ (hend e)
      | interrupt => exact absurd hl' (hallowed d rfl l')
      | rounds => exact .inr rfl

theorem spinning_ends_twoVs : ∃ m, Machine.play 2 3
      [.act 0, .act 1, .call 0 3 (.semV 1), .call 1 3 (.semV 1), .act 0] = some m ∧
    m.spinsFor 1 = some (.chan (.sem 1)) ∧
    ∃ d, Relation.TransGen (WaitsFor m.sched.splkHolder m.spinsFor) 1 d ∧
      (m.blocked d = none ∨ m.blocked d = some .rounds) := by
  obtain ⟨m, hm, hspin⟩ := Option.map_eq_some_iff.mp (show (Machine.play 2 3
      [.act 0, .act 1, .call 0 3 (.semV 1), .call 1 3 (.semV 1), .act 0]).map
    (fun m => m.spinsFor 1) = some (some (.chan (.sem 1))) by decide +kernel)
  exact ⟨m, hm, hspin, spinning_ends (Machine.reachable_of_play hm) hspin⟩

end Os161Paging.Threads
