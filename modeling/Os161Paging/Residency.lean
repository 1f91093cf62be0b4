import Os161Paging.Contention
import Os161Paging.Transparency

/-!
# Page replacement is local

`getPage` takes a free frame, or one of the address space it is called for.
Two consequences for runs of the machine, whatever the other processes do in
the meantime, between any two of their actions:

- while a process does not run, its page table, its frames and what is in
  them stay as they are;
- as long as a process lives, it keeps every frame it has ever got.
-/

namespace Os161Paging

open Prog

namespace Processes

open Calls

variable {P : Layout} {g g' : Ghost} {m m' : Machine} {a b : AsId} {t : Tid} {s s' : Sys}

/-! ## What is not disturbed -/

/-- The page table of `a`, its frames and their contents are the same. -/
structure Undisturbed (a : AsId) (s s' : Sys) : Prop where
  as : s'.as a = s.as a
  frames : ∀ p, s'.frameOwner p = some a ↔ s.frameOwner p = some a
  contents : ∀ p, s.frameOwner p = some a → s'.ram.page p = s.ram.page p

namespace Undisturbed

theorem refl (a : AsId) (s : Sys) : Undisturbed a s s := ⟨rfl, fun _ => Iff.rfl, fun _ _ => rfl⟩

theorem trans {s1 : Sys} (h1 : Undisturbed a s s1) (h2 : Undisturbed a s1 s') :
    Undisturbed a s s' where
  as := h2.as.trans h1.as
  frames p := (h2.frames p).trans (h1.frames p)
  contents p hp := (h2.contents p ((h1.frames p).mpr hp)).trans (h1.contents p hp)

theorem hasTable (h : Undisturbed a s s') (htab : hasTable s a = true) : hasTable s' a = true := by
  rw [Calls.hasTable, tableOf, h.as]
  exact htab

theorem of_own (g : Ghost) (h : own a g' s' = own a g s) : Undisturbed a s s' := by
  have hval : ∀ p, (if s'.frameOwner p = some a then some (s'.ram.page p) else none) =
      if s.frameOwner p = some a then some (s.ram.page p) else none :=
    fun p => congrFun (congrArg Own.val h) (.frame p)
  have hiff : ∀ p, s'.frameOwner p = some a ↔ s.frameOwner p = some a := by
    intro p
    have hp := hval p
    by_cases h1 : s'.frameOwner p = some a <;> by_cases h2 : s.frameOwner p = some a <;>
      simp_all
  refine ⟨congrArg Own.as h, hiff, fun p hp => ?_⟩
  have hp' := hval p
  rw [if_pos hp, if_pos ((hiff p).mpr hp)] at hp'
  exact Option.some.inj hp'

end Undisturbed

/-! ## One step -/

namespace Transparent

/-- The calls that are taken as one step are not for a process that has its page table. -/
theorem undisturbed_call {call : Call} {c : Config} (hm : Transparent P g m)
    (hfree : m.job m.running = .free) (hadmits : m.Admits call)
    (htab : ¬ m.Served a → hasTable m.sys a = true)
    (hcall : perform m.running ⟨m.sys, m.kpages⟩ call = some c) : Undisturbed a m.sys c.sys := by
  have hserved : ∀ b, m.running = .proc b ∨ ¬ m.Busy b → ¬ m.Served b := by
    rintro b (hrun | hbusy)
    · exact hm.sound.scheduled.not_served (hrun ▸ hfree)
    · exact fun hs => hbusy (.inr hs)
  have hne : ∀ b, ¬ m.Served b → (∀ y, m.sys.as b = some y → y.npages = none) → a ≠ b := by
    rintro b hs hb rfl
    obtain ⟨x, n, hx, hn⟩ := hasTable_iff.mp (htab hs)
    cases hn.symm.trans (hb x hx)
  cases performed hcall with
  | switch _ => exact hadmits.elim
  | create h =>
      have hidle : ∀ b, _ = some b → ¬ m.Served b := fun b hb hs => hadmits b hb (.inr hs)
      obtain hcore | ⟨b, hb, hnone, hapart, -⟩ := asCreate_apart hm.inv
        (fun b hb hnone => (hm.rest (hidle b hb)).phase.gone_of_none hnone) h
      · exact .of_own g (own_core_congr hcore)
      · exact .of_own g (hapart.others a (hne b (hidle b hb) (by simp [hnone])))
  | define hloading hva h =>
      obtain ⟨-, -, rfl⟩ | ⟨-, -, y, hy, -⟩ := asDefineRegion_cases h
      · exact .of_own g (own_core_congr rfl)
      · have hl := (hm.rest (hserved _ hadmits)).phase.loading_of_npages hy (hloading y hy)
        exact .of_own g ((asDefineRegion_apart hm.inv hl hva h).1.others a
          (hne _ (hserved _ hadmits) hloading))
  | prepare hloading hroom h =>
      obtain ⟨-, rfl⟩ | ⟨y, -, -, hy, -⟩ := asPrepareLoad_cases h
      · exact .of_own g (own_core_congr rfl)
      · have hl := (hm.rest (hserved _ hadmits)).phase.loading_of_npages hy (hloading y hy)
        obtain ⟨-, hcore⟩ | ⟨-, g', hp⟩ := asPrepareLoad_apart hm.inv hl hroom h
        · exact .of_own g (own_core_congr hcore)
        · exact .of_own g (hp.apart.others a (hne _ (hserved _ hadmits) hloading))
  | fault _ _ _ => exact hadmits.elim
  | destroy _ _ => exact hadmits.elim
  | alloc hroom h =>
      obtain ⟨i, k, -, htakes, hs'⟩ := allocKpages_takes hm.inv hroom h
      obtain ⟨-, -, hown⟩ := hm.inv.takes htakes none hs'
      exact .of_own g ((hown a).trans (by rw [if_neg (by simp)]))
  | free hmem h =>
      obtain ⟨k, hk, hhome⟩ := hm.kpages.kernel _ hmem
      rw [hk] at h
      obtain ⟨e, -, -, -, -, hown⟩ := hm.inv.freeKpages hhome h
      exact .of_own g (hown a)

/-- A thread at work on one address space does not disturb the others. -/
theorem undisturbed_act {ρ : Type} {f : Tid → Sys → Outcome Lock (ρ × Sys)} {k : ρ → VM Unit}
    {x : ρ} (hm : Transparent P g m) (hjob : m.job m.running = .work b (.act f k))
    (hf : f m.running m.sys = .ok (x, s)) (hab : a ≠ b) : Undisturbed a m.sys s := by
  obtain ⟨-, g', -, hguar, -⟩ := (hm.sound.working _ _ _ hjob g m.sys (Views.Rely.refl ..)
    hm.sound.scheduled.cur).2 x s hf
  exact .of_own g (hguar.2 a hab ⟨own a g m.sys, Set.univ⟩ ⟨rfl, fun _ e _ _ => trivial⟩).1

theorem undisturbed_store {va : Nat} {e : TlbEntry} {x : Byte} (hm : Transparent P g m)
    (hu : m.InUser b) (hhit : Hits m.sys va e) (hab : a ≠ b) :
    Undisturbed a m.sys { m.sys with ram := m.sys.ram.store (physical e va) x } := by
  obtain ⟨j, pe, hb⟩ := hm.behind hu hhit
  obtain ⟨hmove, -⟩ := hm.inv.setRam (m := m.sys.ram.store (physical e va) x) hb.owner
    fun z hz => if_neg (by have := (offset va).isLt; rw [hb.paddr]; omega)
  exact .of_own g (hmove.others a hab)

/-- Every step of a thread other than its own leaves a process undisturbed. -/
theorem undisturbed (hm : Transparent P g m) (hs : Step m m') (hlive : m.job (.proc a) ≠ .absent)
    (htab : hasTable m.sys a = true) (helse : m.running ≠ .proc a) :
    Undisturbed a m.sys m'.sys := by
  have hact : ∀ x, Undisturbed a m.sys (m.sys.activate x) :=
    fun x => .of_own g ((hm.inv.activate x).own a)
  cases hs with
  | switch _ _ => exact hact _
  | start _ _ _ _ => exact hact (some _)
  | exit _ _ _ => exact hact none
  | call hfree hadmits hcall => exact hm.undisturbed_call hfree hadmits (fun _ => htab) hcall
  | background => exact .of_own g (own_core_congr rfl)
  | store x hu hhit _ =>
      refine hm.undisturbed_store hu hhit ?_
      rintro rfl
      exact helse hu.1
  | miss _ _ => exact .refl a _
  | destroy _ _ _ => exact .refl a _
  | act hjob hf =>
      refine hm.undisturbed_act hjob hf ?_
      rintro rfl
      -- only its own thread can be at work on a process that lives
      exact (hm.sound.scheduled.tended _ _ _ hjob).elim helse hlive
  | done _ => exact .refl a _

end Transparent

/-- The job of a thread changes by its own steps only. -/
theorem job_of_step (hs : Step m m') (hlive : m.job (.proc a) ≠ .absent)
    (helse : m.running ≠ .proc a) : m'.job (.proc a) = m.job (.proc a) := by
  cases hs with
  | start _ _ hbusy _ =>
      refine Machine.doing_of_ne ?_
      rintro ⟨⟩
      exact hbusy (.inl hlive)
  | exit hrun _ _ =>
      refine Machine.doing_of_ne ?_
      rintro ⟨⟩
      exact helse hrun
  | miss hu _ =>
      refine Machine.doing_of_ne ?_
      rintro ⟨⟩
      exact helse hu.1
  | destroy _ _ _ => exact Machine.doing_of_ne helse.symm
  | act _ _ => exact Machine.doing_of_ne helse.symm
  | done _ => exact Machine.doing_of_ne helse.symm
  | switch _ _ => rfl
  | call _ _ _ => rfl
  | background => rfl
  | store _ _ _ _ => rfl

/-! ## While a process does not run -/

/-- A run of steps of threads other than that of `a`. -/
def RunsAside (a : AsId) : Machine → Machine → Prop :=
  Relation.ReflTransGen fun m m' => Step m m' ∧ m.running ≠ .proc a

/-- **While a process does not run** nobody takes a page away from it. -/
theorem not_disturbed_by_others (h : steady.Reachable m) (hlive : m.job (.proc a) ≠ .absent)
    (htab : hasTable m.sys a = true) (hrun : RunsAside a m m') :
    Undisturbed a m.sys m'.sys := by
  suffices hall : steady.Reachable m' ∧ m'.job (.proc a) = m.job (.proc a) ∧
      Undisturbed a m.sys m'.sys from hall.2.2
  induction hrun with
  | refl => exact ⟨h, rfl, .refl a _⟩
  | tail _ hs ih =>
      obtain ⟨hr, hjob, hund⟩ := ih
      obtain ⟨P, g, hm⟩ := transparent_of_reachable hr
      have hlive' := hjob.trans_ne hlive
      exact ⟨hr.next hs.1, (job_of_step hs.1 hlive' hs.2).trans hjob,
        hund.trans (hm.undisturbed hs.1 hlive' (hund.hasTable htab) hs.2)⟩

/-! ## While a process lives -/

/-- Entries of the coremap that are used and belong to an address space still do. -/
def Kept (s s' : Sys) : Prop := ∀ (i : Nat) (e : CEntry) b, s.coremap[i]? = some e →
  e.as = some b → e.cused = true → ∃ e', s'.coremap[i]? = some e' ∧ e'.as = some b

theorem kept_of_coremap (h : s'.coremap = s.coremap) : Kept s s' :=
  fun _ e _ he hb _ => ⟨e, by rw [h]; exact he, hb⟩

theorem kept_claim {i v : Nat} {r : Bool} {x : Option AsId} (hi : firstFree s.coremap = some i) :
    Kept s (s.claim i r v x) := by
  intro k e b he hb hused
  have hki : i ≠ k := by
    rintro rfl
    obtain ⟨e', he', hfree⟩ := freeAt_eq_true.mp (firstFree_eq_some hi)
    obtain rfl := Option.some.inj (he.symm.trans he')
    rw [CEntry.not_isFree hused] at hfree
    cases hfree
  refine ⟨e, ?_, hb⟩
  show (s.coremap.modify i _)[k]? = some e
  rw [List.getElem?_modify, he]
  simp [hki]

namespace Kept

variable {α : Type} {p : VM α} {fa i : Nat}

theorem aside (h : p.Steps Aside t) : p.Steps Kept t :=
  h.mono fun _ _ hs => kept_of_coremap hs.coremap

theorem grab {l : Lock} {msg : String} : (grab l msg).Steps Kept t := by
  refine .action (isAction_exec _) fun s x s' h => ?_
  rw [(grab_eq_ok.mp h).2]
  exact kept_of_coremap rfl

theorem letGo {l : Lock} {msg : String} : (letGo l msg).Steps Kept t := by
  refine .action (isAction_exec _) fun s x s' h => ?_
  rw [(letGo_eq_ok.mp h).2]
  exact kept_of_coremap rfl

theorem gets {ρ : Type} {f : Sys → ρ} : (Prog.gets f : VM ρ).Steps Kept t :=
  .gets fun _ => kept_of_coremap rfl

theorem claimFree {r : Bool} {x : Option AsId} : (claimFree r fa x).Steps Kept t := by
  refine .action (isAction_exec _) fun s i s' h => ?_
  obtain ⟨hi, rfl⟩ := claimFree_eq_ok.mp h
  cases i with
  | none => exact kept_of_coremap rfl
  | some i => exact kept_claim hi.symm

theorem findVictim : (findVictim a).Steps Kept t := by
  refine .action (isAction_exec _) fun s i s' h => ?_
  obtain ⟨next, -, rfl⟩ := findVictim_eq_ok.mp h
  exact kept_of_coremap rfl

/-- `getPage` takes no frame from anybody. -/
theorem getPage {r : Bool} : (getPage r fa (some a)).Steps Kept t := by
  refine .bind grab fun _ => .bind gets fun _ => .ite (.bind claimFree fun i => ?_)
    (.bind letGo fun _ => .pure _)
  cases i with
  | some i => exact .bind letGo fun _ => gets
  | none =>
      refine .bind (aside idle_aside.getAvailableSwap) fun _ => .ite (.bind findVictim fun i => ?_)
        (.fail _)
      exact .bind letGo fun _ => .bind grab fun _ => .bind (aside Holds.evictFrom) fun _ =>
        .bind letGo fun _ => gets

theorem pageInSwap : (pageInSwap a i fa).Steps Kept t :=
  .bind letGo fun _ => .bind getPage fun _ => aside
    (.bind (idle_aside.grab rfl) fun _ => .bind Holds.swapIn fun _ => .bind Holds.updPte fun _ =>
      .bind idle_aside.vmStatsInc fun _ => idle_aside.vmStatsInc)

theorem pageInFresh {seg : Segment} {last : Bool} : (pageInFresh a i seg last fa).Steps Kept t := by
  refine .bind (.bind (aside idle_aside.getPte) fun e => .ite ?_ (.pure _)) fun _ =>
    aside (.bind idle_aside.getPte fun e => .ite ?_ ?_)
  · exact .bind letGo fun _ => .bind getPage fun _ => .bind (aside Holds.updPte) fun _ => grab
  · exact .bind (.modify fun s => idle_aside.contents s _ _ _ _ _) fun _ => idle_aside.vmStatsInc
  · exact .bind idle_aside.loadElfOndemand fun _ => .bind idle_aside.vmStatsInc fun _ =>
      idle_aside.vmStatsInc

theorem faultAt {seg : Segment} {last : Bool} : (faultAt a i seg last fa).Steps Kept t := by
  refine .bind (.bind (aside idle_aside.getPte) fun e => .ite (aside idle_aside.vmStatsInc)
    (.bind (.ite pageInSwap pageInFresh) fun _ => aside Holds.updPte)) fun _ => ?_
  exact aside (.bind idle_aside.getPte fun e => .bind Holds.tlbLoadentry fun _ =>
    .bind (idle_aside.letGo rfl) fun _ => .pure _)

/-- A page fault takes no frame from anybody. -/
theorem vmFault {ty : FaultType} : (vmFault ty fa).Steps Kept t := by
  refine .bind (aside idle_aside.vmStatsInc) fun _ => .bind gets fun x => ?_
  cases x with
  | none => exact .pure _
  | some a =>
      refine .bind (aside idle_aside.findSegment) fun seg => .bind grab fun _ =>
        .bind (aside idle_aside.findPage) fun i => ?_
      cases i with
      | none => exact .bind letGo fun _ => .fail _
      | some i =>
          cases ty with
          | readonly => exact .bind letGo fun _ => .fail _
          | other c => exact .bind letGo fun _ => .pure _
          | read => exact faultAt
          | write => exact faultAt

end Kept

/-- A process at work on its own address space is in a page fault. -/
def Faulting (job : Tid → Job) : Prop :=
  ∀ b p, job (.proc b) = .work b p → p.Steps Kept (.proc b)

theorem faulting_of_start (h : machine.start m) : Faulting m.job :=
  fun b p hjob => absurd hjob (idle_of_start h _ b p)

theorem Faulting.doing {j : Job} (h : Faulting m.job)
    (hj : ∀ b p, t = .proc b → j = .work b p → p.Steps Kept (.proc b)) :
    Faulting (m.doing t j).job := by
  intro b p hjob
  by_cases ht : t = .proc b
  · refine hj b p ht ?_
    rw [← hjob, ← ht]
    exact Machine.doing_self.symm
  · rw [Machine.doing_of_ne (Ne.symm ht)] at hjob
    exact h b p hjob

theorem Faulting.step (h : Faulting m.job) (hs : Step m m') : Faulting m'.job := by
  cases hs with
  | switch _ _ => exact h
  | start _ _ _ _ => exact h.doing (j := .free) (by simp)
  | exit _ _ _ => exact h.doing (j := .absent) (by simp)
  | call _ _ _ => exact h
  | background => exact h
  | store _ _ _ _ => exact h
  | miss _ _ =>
      refine h.doing fun b p _ hp => ?_
      cases hp
      exact .bind Kept.vmFault fun _ => .pure _
  | destroy hfree hbusy _ =>
      refine h.doing fun b p hrun hp => ?_
      cases hp
      -- a thread does not destroy the address space it runs in
      refine absurd (.inl ?_) hbusy
      rw [← hrun, hfree]
      simp
  | act hjob hf =>
      refine h.doing fun b p hrun hp => ?_
      cases hp
      rw [hrun] at hjob hf
      exact (h _ _ hjob _ _ _ hf).2
  | done _ => exact h.doing (j := .free) (by simp)

theorem faulting_of_reachable (h : steady.Reachable m) : Faulting m.job :=
  h.invariant (fun _ hstart => faulting_of_start hstart.1) fun _ _ hm hs => hm.step hs

namespace Transparent

theorem hasTable_of_frame {p : Nat} (hm : Transparent P g m) (hs : ¬ m.Served a)
    (hp : m.sys.frameOwner p = some a) : hasTable m.sys a = true := by
  have hval : (own a g m.sys).val (.frame p) = some (m.sys.ram.page p) := if_pos hp
  have hphase := (hm.rest hs).phase
  cases hx : m.sys.as a with
  | none => cases ((hphase.gone_of_none hx).2.1 _).symm.trans hval
  | some x =>
      cases hn : x.npages with
      | none => cases ((hphase.loading_of_npages hx hn).val _).symm.trans hval
      | some n => exact hasTable_iff.mpr ⟨x, n, hx, hn⟩

/-- Every step keeps the frames of a process that lives. -/
theorem frame_kept {p : Nat} (hm : Transparent P g m) (hfaulting : Faulting m.job)
    (hlive : m.job (.proc a) ≠ .absent) (hs : Step m m') (hp : m.sys.frameOwner p = some a) :
    m'.sys.frameOwner p = some a := by
  have hact : ∀ x, (m.sys.activate x).frameOwner p = some a := fun x =>
    ((Undisturbed.of_own g ((hm.inv.activate x).own a)).frames p).mpr hp
  cases hs with
  | switch _ _ => exact hact _
  | start _ _ _ _ => exact hact (some _)
  | exit _ _ _ => exact hact none
  | call hfree hadmits hcall =>
      exact ((hm.undisturbed_call hfree hadmits (fun hs => hm.hasTable_of_frame hs hp)
        hcall).frames p).mpr hp
  | background => exact hp
  | store _ _ _ _ => exact hp
  | miss _ _ => exact hp
  | destroy _ _ _ => exact hp
  | done _ => exact hp
  | @act b _ _ _ _ s hjob hf =>
      by_cases hab : a = b
      · subst hab
        obtain ⟨g', -, hsound⟩ := hm.sound.act hjob hf
        have hfirst : s.firstpaddr = m.sys.firstpaddr :=
          hsound.inv.firstpaddr.trans hm.inv.firstpaddr.symm
        have hrun := (hm.sound.scheduled.tended _ _ _ hjob).resolve_right hlive
        rw [hrun] at hjob hf
        obtain ⟨i, e, he, hea, rfl⟩ := Sys.frameOwner_eq_some.mp hp
        obtain ⟨e', he', hea'⟩ :=
          (hfaulting _ _ hjob _ _ _ hf).1 i e a he hea (hm.inv.owned i e a he hea).1
        exact Sys.frameOwner_eq_some.mpr ⟨i, e', he', hea', congrArg (· + i * pageSize) hfirst.symm⟩
      · exact ((hm.undisturbed_act hjob hf hab).frames p).mpr hp

end Transparent

def RunsAlive (a : AsId) : Machine → Machine → Prop :=
  Relation.ReflTransGen fun m m' => Step m m' ∧ m'.job (.proc a) ≠ .absent

/-- **As long as a process lives** it keeps every frame it has got: its evictions replace one
page of its own by another, and nobody else's touch it. -/
theorem frames_kept_while_alive {p : Nat} (h : steady.Reachable m)
    (hlive : m.job (.proc a) ≠ .absent) (hp : m.sys.frameOwner p = some a)
    (hrun : RunsAlive a m m') : m'.sys.frameOwner p = some a := by
  suffices hall : steady.Reachable m' ∧ m'.job (.proc a) ≠ .absent ∧
      m'.sys.frameOwner p = some a from hall.2.2
  induction hrun with
  | refl => exact ⟨h, hlive, hp⟩
  | tail _ hs ih =>
      obtain ⟨hr, hlive', hp'⟩ := ih
      obtain ⟨P, g, hm⟩ := transparent_of_reachable hr
      exact ⟨hr.next hs.1, hs.2, hm.frame_kept (faulting_of_reachable hr) hlive' hs.1 hp'⟩

/-! ## Two processes -/

/-- Runs from `m` in which the CPU goes only to threads that meet `C`. -/
def turnsOf (m : Machine) (C : Tid → Prop) : Transitions Machine where
  start m0 := m0 = m
  step m m' := Step m m' ∧ C m'.running

theorem runsAside_of_turns (hm : m.running ≠ .proc a)
    (h : (turnsOf m (· ≠ .proc a)).Reachable m') : RunsAside a m m' := by
  obtain ⟨_, rfl, hrun⟩ := h
  suffices hall : RunsAside a _ m' ∧ m'.running ≠ .proc a from hall.1
  induction hrun with
  | refl => exact ⟨.refl, hm⟩
  | tail _ hs ih => exact ⟨ih.1.tail ⟨hs.1, ih.2⟩, hs.2⟩

theorem runsAlive_of_turns (hm : steady.Reachable m)
    (h : (turnsOf m (· = .proc a)).Reachable m') : RunsAlive a m m' := by
  obtain ⟨_, rfl, hrun⟩ := h
  suffices hall : RunsAlive a _ m' ∧ steady.Reachable m' from hall.1
  induction hrun with
  | refl => exact ⟨.refl, hm⟩
  | tail _ hs ih =>
      have hr := ih.2.next hs.1
      obtain ⟨P, g, htr⟩ := transparent_of_reachable hr
      exact ⟨ih.1.tail ⟨hs.1, hs.2 ▸ htr.sound.scheduled.present⟩, hr⟩

def sixFrames : Config :=
  ⟨boot .calm (fun _ => 0) (fun _ => 0) (8 * pageSize) pageSize (4 * pageSize), []⟩

def touch (t : Tid) (ks : List Nat) (c : Config) : Option Config :=
  (ks.map fun k => Call.fault .write (stackPage k)).foldlM (perform t) c

/-- A program has a page in memory, and the CPU is with the kernel's thread. -/
def firstWaits : Option Config :=
  (launch .kernel 0 sixFrames).bind fun c =>
    (touch (.proc 0) [0] c).bind fun c =>
      if c.sys.spinning (.proc 0) then none else some { c with sys := c.sys.activate none }

def started (job : Tid → Job) (a : AsId) : Tid → Job := Function.update job (.proc a) .free

theorem firstWaits_reachable {c : Config} (h : firstWaits = some c) :
    At steady c .kernel (started atBoot 0) ∧ hasTable c.sys 0 = true := by
  obtain ⟨c1, h1, h⟩ := Option.bind_eq_some_iff.mp h
  obtain ⟨c2, h2, h⟩ := Option.bind_eq_some_iff.mp h
  obtain ⟨hspin, h⟩ := Option.ite_none_left_eq_some.mp h
  obtain rfl := Option.some.inj h
  have hboot : At steady sixFrames .kernel atBoot :=
    ⟨_, .init ⟨start_atBoot (fresh_boot (by decide) (by decide) (by decide)), fun _ => rfl,
      by decide, by decide⟩⟩
  obtain ⟨hat, htab⟩ := hboot.launch (C := fun _ _ => True) (fun _ _ hs _ => hs) rfl atBoot_idle rfl
    (fun _ _ _ => trivial) h1
  obtain ⟨hat, htab⟩ := hat.faults (C := fun _ _ => True) (fun _ _ hs _ => hs) _ (by simp)
    (Function.update_self ..) htab (fun _ => trivial) h2
  exact ⟨hat.switch (C := fun _ _ => True) (u := .kernel) (fun _ _ hs _ => hs)
    (by simp [started, atBoot]) (by simpa using hspin) trivial, htab⟩

/-- The kernel's thread then starts another program, which writes to four pages, for which
there are three frames. -/
def secondRuns (c : Config) : Option Config :=
  ([Call.create (some 1) (some ⟨0, fun _ => 0⟩), .prepare 1].foldlM (perform .kernel) c).bind
    fun c => if hasTable c.sys 1 && !c.sys.spinning .kernel then
      touch (.proc 1) [0, 1, 2, 3] { c with sys := c.sys.activate (some 1) } else none

theorem started_idle (job : Tid → Job) (hidle : ∀ t a p, job t ≠ .work a p) (t : Tid) (b : AsId)
    (p : VM Unit) : started job a t ≠ .work b p := by
  unfold started
  by_cases ht : t = .proc a
  · rw [ht, Function.update_self]
    simp
  · rw [Function.update_of_ne ht]
    exact hidle t b p

theorem secondRuns_turns {c c' : Config} {r : Record} (h : secondRuns c = some c') :
    At (turnsOf ⟨c.sys, c.kpages, .kernel, started atBoot 0, r⟩ (· ≠ .proc 0)) c' (.proc 1)
      (started (started atBoot 0) 1) := by
  obtain ⟨c1, h1, h⟩ := Option.bind_eq_some_iff.mp h
  obtain ⟨hcheck, h⟩ := Option.ite_none_right_eq_some.mp h
  simp only [Bool.and_eq_true, Bool.not_eq_true'] at hcheck
  have hM : ∀ m0 m m', Step m m' → m'.running ≠ .proc 0 →
      (turnsOf m0 (· ≠ .proc 0)).step m m' := fun _ _ _ hs ht => ⟨hs, ht⟩
  have hidle := started_idle (a := 0) atBoot atBoot_idle
  have hload : At (turnsOf ⟨c.sys, c.kpages, .kernel, started atBoot 0, r⟩ (· ≠ .proc 0)) c1
      .kernel (started atBoot 0) := by
    refine Transitions.foldlM_invariant (I := fun c' => At _ c' .kernel (started atBoot 0)) _
      (fun call hcall c c' hc hs => ?_) ⟨r, .init rfl⟩ h1
    refine hc.call (C := fun _ t => t ≠ .proc 0) (hM _) rfl hidle ?_ hs (by simp)
    simp only [List.mem_cons, List.not_mem_nil, or_false] at hcall
    rcases hcall with rfl | rfl
    · rfl
    · rfl
  obtain ⟨x, n, hx, -⟩ := hasTable_iff.mp hcheck.1
  have hstart := hload.start (C := fun _ t => t ≠ .proc 0) (a := 1) (hM _) rfl hidle hcheck.2 rfl
    (by simp [hx]) (by simp)
  exact (hstart.faults (C := fun _ t => t ≠ .proc 0) (hM _) _ (by simp)
    (Function.update_self ..) hcheck.1 (by simp) h).1

/-- Another program starts and evicts a page; the one that waits keeps its page. -/
theorem not_disturbed_twoPrograms : ∃ m m', RunsAside 0 m m' ∧ Undisturbed 0 m.sys m'.sys ∧
    m.sys.frameOwner 0x3000 = some 0 ∧ m'.sys.swapMap = [true, false, false, false] := by
  have hrun : (firstWaits.bind fun c => (secondRuns c).map fun c' =>
      (c.sys.frameOwner 0x3000, c'.sys.swapMap)) =
        some (some 0, [true, false, false, false]) := by
    decide +kernel
  obtain ⟨c, hc, h⟩ := Option.bind_eq_some_iff.mp hrun
  obtain ⟨c', hc', h⟩ := Option.map_eq_some_iff.mp h
  obtain ⟨⟨r, hr⟩, htab⟩ := firstWaits_reachable hc
  obtain ⟨r', hr'⟩ := secondRuns_turns (r := r) hc'
  have haside := runsAside_of_turns (by simp) hr'
  refine ⟨_, _, haside, not_disturbed_by_others hr (by simp [started]) htab haside, ?_⟩
  simpa using h

/-- A program has a page in memory, writes to two others and has one evicted. -/
theorem frames_kept_threePages : ∃ m m', RunsAlive 0 m m' ∧ m.sys.frameOwner 0x3000 = some 0 ∧
    m'.sys.frameOwner 0x3000 = some 0 ∧ m'.sys.swapMap = [true, false, false, false] := by
  have hrun : ((launch .kernel 0 (threeFrames .calm 4)).bind fun c =>
      (touch (.proc 0) [0] c).bind fun c => (touch (.proc 0) [1, 2] c).map fun c' =>
        (c.sys.frameOwner 0x3000, c'.sys.swapMap)) =
          some (some 0, [true, false, false, false]) := by
    decide +kernel
  obtain ⟨c1, h1, h⟩ := Option.bind_eq_some_iff.mp hrun
  obtain ⟨c2, h2, h⟩ := Option.bind_eq_some_iff.mp h
  obtain ⟨c3, h3, h⟩ := Option.map_eq_some_iff.mp h
  simp only [Prod.mk.injEq] at h
  obtain ⟨hat, htab⟩ := atBoot_threeFrames.launch (C := fun _ _ => True) (fun _ _ hs _ => hs) rfl
    atBoot_idle rfl (fun _ _ _ => trivial) h1
  obtain ⟨⟨r, hr⟩, htab⟩ := hat.faults (C := fun _ _ => True) (fun _ _ hs _ => hs) _ (by simp)
    (Function.update_self ..) htab (fun _ => trivial) h2
  have hturns : At (turnsOf ⟨c2.sys, c2.kpages, .proc 0, started atBoot 0, r⟩ (· = .proc 0)) c2
      (.proc 0) (started atBoot 0) := ⟨r, .init rfl⟩
  have hM : ∀ m0 m m', Step m m' → m'.running = .proc 0 →
      (turnsOf m0 (· = .proc 0)).step m m' := fun _ _ _ hs ht => ⟨hs, ht⟩
  obtain ⟨⟨r', hr'⟩, -⟩ := hturns.faults (C := fun _ t => t = .proc 0) (hM _) _ (by simp)
    (Function.update_self ..) htab (fun _ => rfl) h3
  have halive := runsAlive_of_turns hr hr'
  exact ⟨_, _, halive, h.1, frames_kept_while_alive hr (by simp) h.1 halive, h.2⟩

end Processes

end Os161Paging
