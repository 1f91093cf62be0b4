import Os161Paging.Calls

/-!
# Processes on one CPU

The machine as the programs on it see it. A thread runs user code, which
reads and writes memory through the TLB, or is in the middle of `vm_fault`
or of the `as_destroy` of an address space whose thread is gone. The CPU
goes from one thread to another between any two actions, unless the running
thread holds a spinlock; every such switch ends in `as_activate`. The calls
that start a program, and those of the kernel for memory of its own, do not
wait for a device and are taken as one step.

Beside the state rides a `record` of what each page should contain: what it
contained when it first became resident, and from then on what the program
has stored. It is written to at exactly these two occasions. That user code
reads what the record says is what it means that paging cannot be noticed.
-/

namespace Os161Paging

open Prog

def Tid.as : Tid → Option AsId
  | .proc a => some a
  | .kernel => none

/-- What each page of each address space should contain. -/
abbrev Record := AsId → Nat → Option Page

def Record.store (r : Record) (a : AsId) (j : Option Nat) (o : Fin pageSize) (x : Byte) : Record :=
  fun b i => if b = a ∧ some i = j then (r b i).map fun d => Function.update d o x else r b i

namespace Processes

open Calls

/-! ## The machine -/

/-- What a thread is doing: nothing, since it does not exist; something outside of the
paging code; or `p`, on the address space `a`. -/
inductive Job : Type 1 where
  | absent
  | free
  | work (a : AsId) (p : VM Unit)

structure Machine where
  sys : Sys
  kpages : List Nat
  running : Tid
  job : Tid → Job
  record : Record

namespace Machine

def Served (m : Machine) (a : AsId) : Prop := ∃ t p, m.job t = .work a p

def Busy (m : Machine) (a : AsId) : Prop := m.job (.proc a) ≠ .absent ∨ m.Served a

/-- The machine with another state; what is resident in it for the first time is
recorded. -/
def put (m : Machine) (s : Sys) : Machine := { m with sys := s, record := s.observe m.record }

def doing (m : Machine) (t : Tid) (j : Job) : Machine :=
  { m with job := Function.update m.job t j }

theorem doing_self {m : Machine} {t : Tid} {j : Job} : (m.doing t j).job t = j :=
  Function.update_self ..

theorem doing_of_ne {m : Machine} {t u : Tid} {j : Job} (h : u ≠ t) :
    (m.doing t j).job u = m.job u :=
  Function.update_of_ne h ..

/-- The calls a thread makes in one step. It works on an address space of its own or
on one that no other thread has to do with. -/
def Admits (m : Machine) : Call → Prop
  | .create p _ => ∀ a, p = some a → ¬ m.Busy a
  | .define a .. | .prepare a => m.running = .proc a ∨ ¬ m.Busy a
  | .alloc _ | .free _ => True
  | .switch _ | .fault .. | .destroy _ => False

/-- User code runs in the address space `a`. -/
def InUser (m : Machine) (a : AsId) : Prop :=
  m.running = .proc a ∧ m.job (.proc a) = .free ∧ hasTable m.sys a = true

end Machine

def pageOf (s : Sys) (a : AsId) (va : Nat) : Option Nat :=
  (s.as a).bind fun x => (x.lookup (pageFrame va)).map (·.1)

def offset (va : Nat) : Fin pageSize := ⟨va % pageSize, Nat.mod_lt _ (by decide)⟩

/-- An entry of the TLB translates the address. -/
def Hits (s : Sys) (va : Nat) (e : TlbEntry) : Prop := e ∈ validTlb s ∧ e.vpage = pageFrame va

def physical (e : TlbEntry) (va : Nat) : Nat := e.ppage + va % pageSize

/-- One step of the machine. A load that hits changes nothing and is not listed; a store
through an entry that is not writable makes `vm_fault` panic. -/
inductive Step (m : Machine) : Machine → Prop where
  /-- `thread_switch`, which ends in `as_activate`; in the handler of the timer
  interrupt `vm_stats_inc` takes no lock -/
  | switch {t : Tid} (hjob : m.job t ≠ .absent) (hspin : m.sys.spinning m.running = false) :
      Step m { m.put (m.sys.activate t.as) with running := t }
  /-- `proc_setas`, then `as_activate`, in a thread that becomes that of a program -/
  | start {a : AsId} (hfree : m.job m.running = .free) (hspin : m.sys.spinning m.running = false)
      (hbusy : ¬ m.Busy a) (hlive : m.sys.as a ≠ none) :
      Step m { (m.put (m.sys.activate (some a))).doing (.proc a) .free with running := .proc a }
  /-- the process gives its address space up -/
  | exit {a : AsId} (hrun : m.running = .proc a) (hfree : m.job (.proc a) = .free)
      (hspin : m.sys.spinning m.running = false) :
      Step m { (m.put (m.sys.activate none)).doing (.proc a) .absent with running := .kernel }
  | call {call : Call} {c : Config} (hfree : m.job m.running = .free) (hadmits : m.Admits call)
      (hcall : perform m.running ⟨m.sys, m.kpages⟩ call = some c) :
      Step m { m.put c.sys with kpages := c.kpages }
  /-- other code of the kernel -/
  | background {n k : Nat} : Step m (m.put { m.sys with kmallocs := n, elfReads := k })
  | store {a : AsId} {va : Nat} {e : TlbEntry} (x : Byte) (hu : m.InUser a) (hhit : Hits m.sys va e)
      (hdirty : e.dirty = true) :
      Step m { m with
        sys := { m.sys with ram := m.sys.ram.store (physical e va) x }
        record := m.record.store a (pageOf m.sys a va) (offset va) x }
  /-- the MMU finds no entry for an access -/
  | miss {a : AsId} {ty : FaultType} {va : Nat} (hu : m.InUser a)
      (hmiss : allowed ⟨m.sys, m.kpages⟩ (.fault ty va) = true) :
      Step m (m.doing (.proc a) (.work a (vmFault ty va >>= fun _ => pure ())))
  | destroy {a : AsId} (hfree : m.job m.running = .free) (hbusy : ¬ m.Busy a)
      (htab : hasTable m.sys a = true) :
      Step m (m.doing m.running (.work a (asDestroy a)))
  | act {a : AsId} {ρ : Type} {f : Tid → Sys → Outcome Lock (ρ × Sys)} {k : ρ → VM Unit} {x : ρ}
      {s : Sys} (hjob : m.job m.running = .work a (.act f k)) (hf : f m.running m.sys = .ok (x, s)) :
      Step m ((m.put s).doing m.running (.work a (k x)))
  | done {a : AsId} {u : Unit} (hjob : m.job m.running = .work a (.ret u)) :
      Step m (m.doing m.running .free)

/-- Runs from boot. -/
def machine : Transitions Machine where
  start m := Fresh m.sys ∧ m.kpages = [] ∧ m.running = .kernel ∧ m.job .kernel = .free ∧
    (∀ a, m.job (.proc a) = .absent) ∧ m.record = fun _ _ => none
  step := Step

/-! ## Threads -/

structure Scheduled (m : Machine) : Prop where
  cur : m.sys.cur = m.running.as
  present : m.job m.running ≠ .absent
  kthread : m.job .kernel ≠ .absent
  apart : ∀ t u a p q, m.job t = .work a p → m.job u = .work a q → t = u
  tended : ∀ t a p, m.job t = .work a p → t = .proc a ∨ m.job (.proc a) = .absent

namespace Scheduled

variable {m : Machine} {s : Sys} {t : Tid} {a : AsId} {p : VM Unit} {j : Job}

theorem not_served (hm : Scheduled m) (hfree : m.job (.proc a) = .free) : ¬ m.Served a := by
  rintro ⟨t, p, hjob⟩
  rcases hm.tended t a p hjob with rfl | habs
  · rw [hfree] at hjob
    cases hjob
  · rw [hfree] at habs
    cases habs

/-- An address space that is not busy has nothing to do with the running thread. -/
theorem running_ne (hm : Scheduled m) (hbusy : ¬ m.Busy a) : m.running ≠ .proc a := by
  intro hrun
  exact hm.present (hrun ▸ not_not.mp fun h => hbusy (.inl h))

theorem cur_ne (hm : Scheduled m) (hbusy : ¬ m.Busy a) : m.sys.cur ≠ some a := by
  intro hcur
  rw [hm.cur] at hcur
  cases hrun : m.running with
  | kernel =>
      rw [hrun] at hcur
      cases hcur
  | proc b =>
      rw [hrun] at hcur
      cases hcur
      exact hm.running_ne hbusy hrun

/-- The running thread goes on to `j`, at most on an address space no other thread is
at work on. -/
theorem doing {r : Record} (hm : Scheduled m) (hcur : s.cur = m.running.as) (hj : j ≠ .absent)
    (hwork : ∀ a p, j = .work a p → (m.running = .proc a ∨ m.job (.proc a) = .absent) ∧
      ∀ t q, m.job t = .work a q → t = m.running) :
    Scheduled { m.doing m.running j with sys := s, record := r } := by
  have hjob : ∀ u, u ≠ m.running → (m.doing m.running j).job u = m.job u :=
    fun u hu => Machine.doing_of_ne hu
  have hself : (m.doing m.running j).job m.running = j := Machine.doing_self
  have hpresent : ∀ u, m.job u ≠ .absent → (m.doing m.running j).job u ≠ .absent := by
    intro u hu
    by_cases hur : u = m.running
    · rwa [hur, hself]
    · rwa [hjob u hur]
  have habs : ∀ b, m.job (.proc b) = .absent → (m.doing m.running j).job (.proc b) = .absent := by
    intro b hb
    rwa [hjob]
    rintro hbr
    exact hm.present (hbr ▸ hb)
  refine ⟨hcur, hpresent _ hm.present, hpresent _ hm.kthread, fun u u' a p q hu hu' => ?_,
    fun u a p hu => ?_⟩
  · by_cases hur : u = m.running <;> by_cases hur' : u' = m.running
    · rw [hur, hur']
    · subst hur
      exact ((hwork a p (hself.symm.trans hu)).2 u' q ((hjob u' hur').symm.trans hu')).symm
    · subst hur'
      exact (hwork a q (hself.symm.trans hu')).2 u p ((hjob u hur).symm.trans hu)
    · exact hm.apart u u' a p q ((hjob u hur).symm.trans hu) ((hjob u' hur').symm.trans hu')
  · by_cases hur : u = m.running
    · subst hur
      exact (hwork a p (hself.symm.trans hu)).1.imp_right (habs a)
    · exact (hm.tended u a p ((hjob u hur).symm.trans hu)).imp_right (habs a)

/-- The CPU goes to the thread `u`; threads that are not at work may come and go. -/
theorem activate {job : Tid → Job} (hm : Scheduled m) (u : Tid)
    (hjobs : ∀ t a p, job t = .work a p ↔ m.job t = .work a p) (hu : job u ≠ .absent)
    (hkthread : job .kernel ≠ .absent)
    (htended : ∀ t a p, m.job t = .work a p → t = .proc a ∨ job (.proc a) = .absent) :
    Scheduled { m.put (m.sys.activate u.as) with running := u, job := job } := by
  refine ⟨?_, hu, hkthread, fun t t' a p q ht ht' => ?_, fun t a p ht => ?_⟩
  · cases u with
    | kernel => rfl
    | proc a => rfl
  · exact hm.apart t t' a p q ((hjobs t a p).mp ht) ((hjobs t' a q).mp ht')
  · exact htended t a p ((hjobs t a p).mp ht)

end Scheduled

theorem doing_work_iff {m : Machine} {t : Tid} {j : Job} (hold : ∀ a p, m.job t ≠ .work a p)
    (hnew : ∀ a p, j ≠ .work a p) (u : Tid) (a : AsId) (p : VM Unit) :
    (m.doing t j).job u = .work a p ↔ m.job u = .work a p := by
  by_cases hu : u = t
  · subst hu
    rw [Machine.doing_self]
    exact iff_of_false (hnew a p) (hold a p)
  · rw [Machine.doing_of_ne hu]

/-! ## Threads in the middle of something -/

/-- How a property of the machine is proved: the logic in which one thread among others
is followed, the agent a thread acts for, and what an agent can count on while no thread
acts for it. -/
structure Regime (A γ V : Type) where
  logic : Views A Tid Sys Lock γ V
  agent : Tid → AsId → A
  calm : A → V → Prop

namespace Regime

variable {A γ V : Type} (K : Regime A γ V)

def role (t : Tid) (a : AsId) : Role A Tid Sys := ⟨K.agent t a, t, (·.cur = t.as)⟩

/-- The state of an agent no thread acts for. -/
def Rests (x : A) : γ → Sys → Prop := K.logic.Post x (fun (_ : Unit) => K.calm x) ()

def Acting (m : Machine) (x : A) : Prop := ∃ t a p, m.job t = .work a p ∧ K.agent t a = x

/-- What holds between any two steps: agents that no thread acts for are at rest, and
every thread at work goes on correctly among the others and brings its agent to rest. -/
structure Sound (g : γ) (m : Machine) : Prop where
  inv : K.logic.inv g m.sys
  scheduled : Scheduled m
  rest : ∀ x, ¬ K.Acting m x → K.Rests x g m.sys
  working : ∀ t a p, m.job t = .work a p →
    K.logic.wp (K.role t a) p (fun _ => K.Rests (K.agent t a)) g m.sys
  alone : ∀ t u a b p q, m.job t = .work a p → m.job u = .work b q → K.agent t a = K.agent u b →
    t = u

variable {K} {g g' : γ} {m m' : Machine} {x : A} {t : Tid} {a : AsId} {p : VM Unit} {s : Sys}

theorem rests_stable (x : A) : K.logic.Stable x (K.Rests x) := Views.Post.stable _ ()

namespace Sound

/-- A step by which no thread at work gets on: the agents notice nothing, or are at rest
and stay so. -/
theorem pass (hm : K.Sound g m) (hs : Scheduled m') (hinv : K.logic.inv g' m'.sys)
    (hjobs : ∀ t a p, m'.job t = .work a p ↔ m.job t = .work a p)
    (hothers : ∀ x, K.logic.Rely x g m.sys g' m'.sys ∨ ¬ K.Acting m x ∧ K.Rests x g' m'.sys) :
    K.Sound g' m' := by
  have hacting : ∀ x, K.Acting m' x ↔ K.Acting m x := fun x => exists_congr fun t =>
    exists_congr fun a => exists_congr fun p => and_congr_left fun _ => hjobs t a p
  refine ⟨hinv, hs, fun x hx => ?_, fun t a p hjob => ?_, fun t u a b p q ht hu => ?_⟩
  · rcases hothers x with hr | ⟨-, hrest⟩
    · exact rests_stable x g m.sys g' m'.sys hr (hm.rest x fun h => hx ((hacting x).mpr h))
    · exact hrest
  · have hold := (hjobs t a p).mp hjob
    refine Views.wp_rely (fun _ => rests_stable _) (hm.working t a p hold)
      ((hothers _).resolve_right fun h => h.1 ⟨t, a, p, hold, rfl⟩)
  · exact hm.alone t u a b p q ((hjobs t a p).mp ht) ((hjobs u b q).mp hu)

/-! The CPU goes to another thread. -/

section Switch

variable (hm : K.Sound g m) (hact : ∀ y, K.logic.inv g (m.sys.activate y) ∧
  ∀ x, K.logic.Rely x g m.sys g (m.sys.activate y))
include hm hact

theorem switch (hjob : m.job t ≠ .absent) :
    K.Sound g { m.put (m.sys.activate t.as) with running := t } :=
  hm.pass (hm.scheduled.activate t (fun _ _ _ => Iff.rfl) hjob hm.scheduled.kthread
    hm.scheduled.tended) (hact _).1 (fun _ _ _ => Iff.rfl) fun x => .inl ((hact _).2 x)

theorem start (hbusy : ¬ m.Busy a) :
    K.Sound g
      { (m.put (m.sys.activate (some a))).doing (.proc a) .free with running := .proc a } := by
  have habs : m.job (.proc a) = .absent := not_not.mp fun h => hbusy (.inl h)
  have hother : ∀ t, t ≠ .proc a → (m.doing (.proc a) .free).job t = m.job t :=
    fun t => Machine.doing_of_ne
  have hself : (m.doing (.proc a) .free).job (.proc a) = .free := Machine.doing_self
  have hjobs := doing_work_iff (m := m) (t := .proc a) (j := .free) (by simp [habs]) (by simp)
  have hsched := hm.scheduled.activate (.proc a) hjobs (by simp [hself])
    (by rw [hother _ (by simp)]; exact hm.scheduled.kthread) fun t b p ht =>
      (hm.scheduled.tended t b p ht).imp_right fun hb => (hother _ fun hba => ?_).trans hb
  · exact hm.pass hsched (hact (some a)).1 hjobs fun x => .inl ((hact (some a)).2 x)
  · cases hba
    exact hbusy (.inr ⟨t, p, ht⟩)

theorem exit (hfree : m.job (.proc a) = .free) :
    K.Sound g { (m.put (m.sys.activate none)).doing (.proc a) .absent with running := .kernel } := by
  have hkernel : (m.doing (.proc a) .absent).job .kernel ≠ .absent := by
    rw [Machine.doing_of_ne (by simp)]
    exact hm.scheduled.kthread
  have hjobs := doing_work_iff (m := m) (t := .proc a) (j := .absent) (by simp [hfree]) (by simp)
  have hsched := hm.scheduled.activate .kernel hjobs hkernel hkernel fun t b p ht =>
    (hm.scheduled.tended t b p ht).imp_right fun hb => ?_
  · exact hm.pass hsched (hact none).1 hjobs fun x => .inl ((hact none).2 x)
  · by_cases hba : b = a
    · rw [hba, Machine.doing_self]
    · rwa [Machine.doing_of_ne (by simpa using hba)]

end Switch

/-- The running thread takes up something for an agent at rest. -/
theorem begin (hm : K.Sound g m) (hfree : m.job m.running = .free)
    (hx : ¬ K.Acting m (K.agent m.running a)) (hs : ¬ m.Served a)
    (htended : m.running = .proc a ∨ m.job (.proc a) = .absent)
    (hp : K.logic.wp (K.role m.running a) p (fun _ => K.Rests (K.agent m.running a)) g m.sys) :
    K.Sound g (m.doing m.running (.work a p)) := by
  have hself : (m.doing m.running (.work a p)).job m.running = .work a p := Machine.doing_self
  have hjob : ∀ u, u ≠ m.running → (m.doing m.running (.work a p)).job u = m.job u :=
    fun u hu => Machine.doing_of_ne hu
  have hsched : Scheduled (m.doing m.running (.work a p)) := by
    refine hm.scheduled.doing (r := m.record) hm.scheduled.cur nofun ?_
    rintro _ _ ⟨⟩
    exact ⟨htended, fun t q ht => absurd ⟨t, q, ht⟩ hs⟩
  refine ⟨hm.inv, hsched, fun x hx' => hm.rest x ?_, fun t b q hq => ?_,
    fun t u b c q q' ht hu heq => ?_⟩
  · rintro ⟨t, b, q, hq, rfl⟩
    refine hx' ⟨t, b, q, (hjob t ?_).trans hq, rfl⟩
    rintro rfl
    rw [hfree] at hq
    cases hq
  · by_cases htr : t = m.running
    · subst htr
      rw [hself] at hq
      cases hq
      exact hp
    · exact hm.working t b q ((hjob t htr).symm.trans hq)
  · by_cases htr : t = m.running <;> by_cases hur : u = m.running
    · rw [htr, hur]
    · subst htr
      rw [hself] at ht
      cases ht
      exact absurd ⟨u, c, q', (hjob u hur).symm.trans hu, heq.symm⟩ hx
    · subst hur
      rw [hself] at hu
      cases hu
      exact absurd ⟨t, b, q, (hjob t htr).symm.trans ht, heq⟩ hx
    · exact hm.alone t u b c q q' ((hjob t htr).symm.trans ht) ((hjob u hur).symm.trans hu) heq

/-- **One action of a thread at work** is correct for itself and for the others. -/
theorem act {ρ : Type} {f : Tid → Sys → Outcome Lock (ρ × Sys)} {k : ρ → VM Unit} {y : ρ}
    (hm : K.Sound g m) (hjob : m.job m.running = .work a (.act f k))
    (hf : f m.running m.sys = .ok (y, s)) :
    ∃ g', K.logic.law g s g' ∧ K.Sound g' ((m.put s).doing m.running (.work a (k y))) := by
  obtain ⟨hcur, g', hlaw, hguar, hk⟩ :=
    (hm.working _ _ _ hjob g m.sys (Views.Rely.refl ..) hm.scheduled.cur).2 y s hf
  have hself : ((m.put s).doing m.running (.work a (k y))).job m.running = .work a (k y) :=
    Machine.doing_self
  have hother : ∀ u, u ≠ m.running → ((m.put s).doing m.running (.work a (k y))).job u = m.job u :=
    fun u hu => Machine.doing_of_ne hu
  have hjobs : ∀ t b p, ((m.put s).doing m.running (.work a (k y))).job t = .work b p →
      ∃ q, m.job t = .work b q := by
    intro t b p ht
    by_cases htr : t = m.running
    · subst htr
      rw [hself] at ht
      cases ht
      exact ⟨_, hjob⟩
    · exact ⟨p, (hother t htr).symm.trans ht⟩
  have hs : Scheduled ((m.put s).doing m.running (.work a (k y))) := by
    refine hm.scheduled.doing (r := s.observe m.record) hcur nofun ?_
    rintro _ _ ⟨⟩
    exact ⟨hm.scheduled.tended _ a _ hjob, fun t q hq => hm.scheduled.apart t _ a q _ hq hjob⟩
  refine ⟨g', hlaw, hguar.1, hs, fun x hx => ?_, fun t b p hp => ?_, fun t u b c p q ht hu => ?_⟩
  · have hxa : x ≠ K.agent m.running a := by
      rintro rfl
      exact hx ⟨_, a, _, hself, rfl⟩
    refine rests_stable x g m.sys g' s (hguar.rely hxa) (hm.rest x ?_)
    rintro ⟨t, b, p, hp, rfl⟩
    refine hx ⟨t, b, p, (hother t ?_).trans hp, rfl⟩
    rintro rfl
    rw [hjob] at hp
    cases hp
    exact hxa rfl
  · by_cases htr : t = m.running
    · subst htr
      rw [hself] at hp
      cases hp
      exact hk
    · rw [hother t htr] at hp
      refine Views.wp_rely (fun _ => rests_stable _) (hm.working t b p hp) (hguar.rely fun heq => ?_)
      exact htr (hm.alone t _ b a p _ hp hjob heq)
  · obtain ⟨p', hp'⟩ := hjobs t b p ht
    obtain ⟨q', hq'⟩ := hjobs u c q hu
    exact hm.alone t u b c p' q' hp' hq'

theorem done {u : Unit} (hm : K.Sound g m) (hjob : m.job m.running = .work a (.ret u)) :
    K.Sound g (m.doing m.running .free) := by
  have hself : (m.doing m.running .free).job m.running = .free := Machine.doing_self
  have hother : ∀ u, u ≠ m.running → (m.doing m.running .free).job u = m.job u :=
    fun u hu => Machine.doing_of_ne hu
  have hold : ∀ t b p, (m.doing m.running .free).job t = .work b p → m.job t = .work b p := by
    intro t b p ht
    by_cases htr : t = m.running
    · rw [htr, hself] at ht
      cases ht
    · exact (hother t htr).symm.trans ht
  have hs : Scheduled (m.doing m.running .free) :=
    hm.scheduled.doing (r := m.record) hm.scheduled.cur nofun nofun
  refine ⟨hm.inv, hs, fun x hx => ?_, fun t b p ht => hm.working t b p (hold t b p ht),
    fun t u b c p q ht hu => hm.alone t u b c p q (hold t b p ht) (hold u c q hu)⟩
  by_cases hxa : x = K.agent m.running a
  · subst hxa
    exact hm.working _ _ _ hjob
  · refine hm.rest x ?_
    rintro ⟨t, b, p, hp, rfl⟩
    refine hx ⟨t, b, p, (hother t ?_).trans hp, rfl⟩
    rintro rfl
    rw [hjob] at hp
    cases hp
    exact hxa rfl

end Sound

end Regime

/-! ## The start -/

theorem idle_of_start {m : Machine} (h : machine.start m) (t : Tid) (a : AsId) (p : VM Unit) :
    m.job t ≠ .work a p := by
  obtain ⟨-, -, -, hkernel, habs, -⟩ := h
  cases t with
  | kernel => simp [hkernel]
  | proc b => simp [habs]

theorem scheduled_of_start {m : Machine} (h : machine.start m) : Scheduled m := by
  have hidle := idle_of_start h
  obtain ⟨hfresh, -, hrun, hkernel, -, -⟩ := h
  exact ⟨by rw [hfresh.cur, hrun]; rfl, by simp [hrun, hkernel], by simp [hkernel],
    fun t _ a p _ ht => absurd ht (hidle t a p), fun t a p ht => absurd ht (hidle t a p)⟩

/-- While no thread is at work, it is enough that everybody is at rest. -/
theorem Regime.Sound.of_start {A γ V : Type} {K : Regime A γ V} {g : γ} {m : Machine}
    (h : machine.start m) (hinv : K.logic.inv g m.sys) (hrest : ∀ x, K.Rests x g m.sys) :
    K.Sound g m :=
  ⟨hinv, scheduled_of_start h, fun x _ => hrest x,
    fun t a p ht => absurd ht (idle_of_start h t a p),
    fun t _ a _ p _ ht => absurd ht (idle_of_start h t a p)⟩

/-! ## Following a run -/

def At (M : Transitions Machine) (c : Config) (t : Tid) (job : Tid → Job) : Prop :=
  ∃ r, M.Reachable ⟨c.sys, c.kpages, t, job, r⟩

section At

variable {M : Transitions Machine} {C : Sys → Tid → Prop} {c c' : Config} {t u : Tid}
  {job : Tid → Job} {a : AsId} {p p' : VM Unit} {s : Sys}
  (hM : ∀ m m', Step m m' → C m'.sys m'.running → M.step m m')
include hM

theorem At.call {call : Call} (h : At M c t job) (hfree : job t = .free)
    (hidle : ∀ u a p, job u ≠ .work a p)
    (hsub : match call with
      | .create (some a) _ | .define a .. | .prepare a => job (.proc a) = .absent
      | .switch _ | .fault .. | .destroy _ => False
      | _ => True)
    (hcall : perform t c call = some c') (hC : C c'.sys t) : At M c' t job := by
  obtain ⟨r, hr⟩ := h
  have hbusy : ∀ a, job (.proc a) = .absent →
      ¬ Machine.Busy ⟨c.sys, c.kpages, t, job, r⟩ a := by
    rintro a ha (hne | ⟨u, p, hu⟩)
    · exact hne ha
    · exact hidle u a p hu
  refine ⟨_, hr.next (hM _ _ (.call hfree ?_ hcall) hC)⟩
  cases call with
  | create p f =>
      rintro a rfl
      exact hbusy a hsub
  | define a => exact .inr (hbusy a hsub)
  | prepare a => exact .inr (hbusy a hsub)
  | _ => exact hsub

theorem At.start (h : At M c t job) (hfree : job t = .free) (hidle : ∀ u a p, job u ≠ .work a p)
    (hspin : c.sys.spinning t = false) (habs : job (.proc a) = .absent) (hlive : c.sys.as a ≠ none)
    (hC : C (c.sys.activate (some a)) (.proc a)) :
    At M ⟨c.sys.activate (some a), c.kpages⟩ (.proc a) (Function.update job (.proc a) .free) := by
  obtain ⟨r, hr⟩ := h
  refine ⟨_, hr.next (hM _ _ (.start (a := a) hfree hspin ?_ hlive) hC)⟩
  rintro (hne | ⟨u, p, hu⟩)
  · exact hne habs
  · exact hidle u a p hu

theorem At.switch (h : At M c t job) (hu : job u ≠ .absent) (hspin : c.sys.spinning t = false)
    (hC : C (c.sys.activate u.as) u) : At M ⟨c.sys.activate u.as, c.kpages⟩ u job := by
  obtain ⟨r, hr⟩ := h
  exact ⟨_, hr.next (hM _ _ (.switch hu hspin) hC)⟩

theorem At.store {va : Nat} {e : TlbEntry} {x : Byte} (h : At M c (.proc a) job)
    (hfree : job (.proc a) = .free) (htab : hasTable c.sys a = true) (hhit : Hits c.sys va e)
    (hdirty : e.dirty = true)
    (hC : C { c.sys with ram := c.sys.ram.store (physical e va) x } (.proc a)) :
    At M { c with sys := { c.sys with ram := c.sys.ram.store (physical e va) x } } (.proc a) job := by
  obtain ⟨r, hr⟩ := h
  exact ⟨_, hr.next (hM _ _ (.store x ⟨rfl, hfree, htab⟩ hhit hdirty) hC)⟩

theorem At.miss {ty : FaultType} {va : Nat} (h : At M c (.proc a) job)
    (hfree : job (.proc a) = .free) (htab : hasTable c.sys a = true)
    (hmiss : allowed c (.fault ty va) = true) (hC : C c.sys (.proc a)) :
    At M c (.proc a)
      (Function.update job (.proc a) (.work a (vmFault ty va >>= fun _ => pure ()))) := by
  obtain ⟨r, hr⟩ := h
  exact ⟨_, hr.next (hM _ _ (.miss ⟨rfl, hfree, htab⟩ hmiss) hC)⟩

theorem At.advance {n : Nat} (h : At M c t (Function.update job t (.work a p)))
    (hp : p.advance t n c.sys = some (p', s)) (hC : ∀ s, C s t) :
    At M { c with sys := s } t (Function.update job t (.work a p')) := by
  induction n generalizing p c with
  | zero =>
      cases hp
      exact h
  | succ n ih =>
      cases p with
      | ret u => cases hp
      | act f k =>
          rw [Prog.advance] at hp
          split at hp
          · next x s1 hf =>
              obtain ⟨r, hr⟩ := h
              have hs := hr.next (hM _ _ (.act (a := a) (Function.update_self ..) hf) (hC s1))
              simp only [Machine.doing, Machine.put, Function.update_idem] at hs
              exact ih (c := ⟨s1, c.kpages⟩) ⟨_, hs⟩ hp
          · cases hp

theorem At.fault {ty : FaultType} {va : Nat} (h : At M c (.proc a) job)
    (hfree : job (.proc a) = .free) (htab : hasTable c.sys a = true)
    (hcall : perform (.proc a) c (.fault ty va) = some c') (hC : ∀ s, C s (.proc a)) :
    At M c' (.proc a) job := by
  obtain ⟨hmiss, hrun⟩ := perform_eq_some.mp hcall
  obtain ⟨r, s1, h1, h2⟩ := run_bind_eq_ok.mp hrun
  obtain ⟨hks, rfl⟩ := pure_eq_ok.mp h2
  obtain ⟨n, hn⟩ := run_advance (run_bind_eq_ok.mpr ⟨r, _, h1, rfl⟩ :
    (vmFault ty va >>= fun _ => pure ()).run (.proc a) c.sys = .ok ((), c'.sys))
  have hwork := (h.miss hM hfree htab hmiss (hC _)).advance hM hn hC
  obtain ⟨rec, hr⟩ := hwork
  have hdone := hr.next (hM _ _ (.done (a := a) (Function.update_self ..)) (hC _))
  refine ⟨rec, ?_⟩
  rw [hks]
  simpa [Machine.doing, ← hfree] using hdone

theorem At.faults (calls : List Call) (hfaults : ∀ call ∈ calls, ∃ ty va, call = .fault ty va)
    (h : At M c (.proc a) job) (hfree : job (.proc a) = .free) (htab : hasTable c.sys a = true)
    (hC : ∀ s, C s (.proc a)) (hrun : calls.foldlM (perform (.proc a)) c = some c') :
    At M c' (.proc a) job ∧ hasTable c'.sys a = true := by
  refine Transitions.foldlM_invariant (I := fun c => At M c (.proc a) job ∧
    hasTable c.sys a = true) calls (fun call hcall c c' hc hs => ?_) ⟨h, htab⟩ hrun
  obtain ⟨ty, va, rfl⟩ := hfaults call hcall
  refine ⟨hc.1.fault hM hfree hc.2 hs hC, ?_⟩
  cases performed hs with
  | fault _ _ h1 =>
      rw [hasTable, vmFault_tableOf h1]
      exact hc.2

/-- A call at whose end nobody is in the allocator. -/
def quietly (t : Tid) (c : Config) (call : Call) : Option Config :=
  (perform t c call).filter fun c => (c.sys.owner .coremap).isNone

/-- A thread makes an address space without segments of its own, loads it and becomes
the thread of its program. -/
def launch (t : Tid) (a : AsId) (c : Config) : Option Config :=
  ([Call.create (some a) (some ⟨0, fun _ => 0⟩), .prepare a].foldlM (quietly t) c).bind fun c =>
    if hasTable c.sys a && !c.sys.spinning t && (c.sys.owner .coremap).isNone then
      some { c with sys := c.sys.activate (some a) }
    else none

theorem At.launch (h : At M c t job) (hfree : job t = .free) (hidle : ∀ u a p, job u ≠ .work a p)
    (habs : job (.proc a) = .absent) (hC : ∀ s t, s.owner .coremap = none → C s t)
    (hl : launch t a c = some c') :
    At M c' (.proc a) (Function.update job (.proc a) .free) ∧ hasTable c'.sys a = true := by
  obtain ⟨c1, h1, hl⟩ := Option.bind_eq_some_iff.mp hl
  obtain ⟨hcheck, hl⟩ := Option.ite_none_right_eq_some.mp hl
  obtain rfl := Option.some.inj hl
  simp only [Bool.and_eq_true, Bool.not_eq_true', Option.isNone_iff_eq_none] at hcheck
  obtain ⟨⟨htab, hspin⟩, hquiet⟩ := hcheck
  have hload : At M c1 t job := by
    refine Transitions.foldlM_invariant (I := fun c => At M c t job) _ (fun call hcall c c' hc hs => ?_)
      h h1
    obtain ⟨hs, howner⟩ := Option.filter_eq_some_iff.mp hs
    refine hc.call hM hfree hidle ?_ hs (hC _ _ (Option.isNone_iff_eq_none.mp howner))
    simp only [List.mem_cons, List.not_mem_nil, or_false] at hcall
    rcases hcall with rfl | rfl
    · exact habs
    · exact habs
  obtain ⟨x, n, hx, -⟩ := hasTable_iff.mp htab
  exact ⟨hload.start hM hfree hidle hspin habs (by simp [hx]) (hC _ _ hquiet), htab⟩

end At

def atBoot : Tid → Job
  | .kernel => .free
  | .proc _ => .absent

theorem atBoot_idle (t : Tid) (a : AsId) (p : VM Unit) : atBoot t ≠ .work a p := by
  cases t with
  | kernel => simp [atBoot]
  | proc b => simp [atBoot]

theorem start_atBoot {s : Sys} (h : Fresh s) :
    machine.start ⟨s, [], .kernel, atBoot, fun _ _ => none⟩ :=
  ⟨h, rfl, rfl, rfl, fun _ => rfl, rfl⟩

end Processes

end Os161Paging
