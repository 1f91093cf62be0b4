import Os161Paging.ThreadCalls

/-!
# The beginning and the end of a thread

A new thread is known to nobody but the one that makes it, until
`thread_make_runnable` puts it on a run queue; the process counts it before
its `t_proc` says so. A thread that exits leaves its process first, and
never comes back from `thread_switch`.
-/

namespace Os161Paging.Threads

open Prog

variable {n : Nat} {t : Thread} {c : Fin n} {v : View n} {p : Proc} {b : Newborn n}

/-- Whether a thread knows its processor depends on its level and its locks only. -/
theorem View.At.keep {a : Self n} (h : v.At c) (hspl : a.spl = v.spl) :
    ({ v with toSelf := a }).At c := by
  unfold View.At at h ⊢
  by_cases hopen : v.Open
  · rw [View.put_of_open (v := { v with toSelf := a }) ⟨hspl.trans hopen.1, hopen.2⟩]
    rw [View.put_of_open hopen] at h
    rw [← h]
    rfl
  · rw [View.put_of_not_open (v := { v with toSelf := a }) fun h' => hopen ⟨hspl ▸ h'.1, h'.2⟩]
    rw [View.put_of_not_open hopen] at h
    rw [← h]

/-- What a thread sees when it is not in `thread_switch` and holds no lock. -/
structure AtEase (v : View n) : Prop where
  runs : v.Runs
  stage : v.stage = .present
  locks : v.locks = []
  even : v.Even

namespace AtEase

theorem calm (h : AtEase v) : v.stage.calm = true := by
  rw [h.stage]
  rfl

theorem keep {a : Self n} (h : AtEase v) (hst : a.stage = .present) :
    AtEase { v with toSelf := a } :=
  ⟨h.runs, hst, h.locks, ⟨h.even.owes, h.even.posted, h.even.found⟩⟩

theorem locked {l : Spin n} {q : K n Unit} {ρ : Type} {rest : K n ρ} {Φ : ρ → View n → Prop}
    {a : Self n} (h : AtEase v) (hspl : a.spl = v.spl) (hst : a.stage = .present)
    (hq : ∀ c, Does t { v with locks := [l], loc := some (.on c) } q
      fun _ v' => v' = { v with toSelf := a, locks := [l], loc := some (.on c) })
    (hrest : Does t { v with toSelf := a } rest Φ) :
    Does t v (do spinlockAcquire l; q; spinlockRelease l; rest) Φ := by
  refine .bind (does_spinlockAcquire (l := l) h.runs (by simp [h.locks]) (by simp [h.stage])) ?_
  rintro _ w ⟨c, hat, hw⟩
  obtain rfl : w = { v with locks := [l], loc := some (.on c) } := by rw [hw, h.locks]
  refine .bind (hq c) ?_
  rintro _ _ rfl
  refine .bind (does_spinlockRelease (c := c) rfl (by simp) h.even.owes h.even.posted
    (by simp [hst, Stage.switching])) ?_
  rintro _ _ rfl
  rw [List.erase_cons_head, ← h.locks, ← h.even.found]
  exact (hat.keep hspl).symm ▸ hrest

theorem masked {q : K n Unit} {a : Self n} (h : AtEase v) (hspl : a.spl = v.spl)
    (hfair : a.Unmasked)
    (hq : ∀ c, Does t { v with spl := .high, loc := some (.on c) } q
      fun _ v' => v' = { v with toSelf := { a with spl := .high }, loc := some (.on c) }) :
    Does t v (do let spl ← splhigh; q; let _ ← splx spl)
      fun _ v' => v' = { v with toSelf := a } := by
  refine .bind (does_splx h.runs .high (by simp [Self.Unmasked])) ?_
  rintro _ w ⟨rfl, c, hat, hw⟩
  obtain rfl : w = { v with spl := .high, loc := some (.on c) } :=
    hw.trans (View.put_of_not_open (by simp [View.Open]))
  refine .bind (hq c) ?_
  rintro _ _ rfl
  refine .bind (does_splx (.inr ⟨c, rfl⟩) v.spl (hspl ▸ hfair)) ?_
  rintro _ w ⟨-, d, hd, hw⟩
  obtain rfl : d = c := hd.eq rfl
  refine .pure (hw.trans ?_)
  rw [← hspl]
  exact hat.keep hspl

end AtEase

/-! ## Joining and leaving a process -/

theorem does_procAddthread (h : AtEase v) (hfair : v.toSelf.Unmasked) (hb : v.fresh = some b)
    (hjoining : b.joining = none) (hjoined : b.joined = false) :
    Does t v (procAddthread p b.thread) fun _ v' =>
      v' = { v with fresh := some { b with joining := some p, joined := true } } := by
  unfold procAddthread
  refine .andThen (does_assertNoProc h.runs hb hjoined) fun _ => ?_
  refine h.locked (a := { v.toSelf with fresh := some { b with joining := some p } }) rfl h.stage
    (fun c => .mono (does_addMember (c := c) rfl hb hjoining hjoined) fun _ w hw =>
      hw.trans (View.put_of_not_open (by simp [View.Open]))) ?_
  refine (h.keep (a := { v.toSelf with fresh := some { b with joining := some p } })
    h.stage).masked
    (a := { v.toSelf with fresh := some { b with joining := some p, joined := true } }) rfl hfair
    fun c => ?_
  refine .mono (does_setProc (c := c) (b := { b with joining := some p }) rfl rfl rfl) ?_
  intro _ w hw
  exact hw.trans (View.put_of_not_open (by simp [View.Open]))

theorem does_procRemthread (h : AtEase v) (hproc : v.proc = some (some p))
    (hleaving : v.leaving = false) :
    Does t v procRemthread fun _ v' => v' = { v with proc := some none } := by
  unfold procRemthread
  refine .reading (does_lookProc h.runs hproc) ?_
  refine h.locked (a := { v.toSelf with leaving := true }) rfl h.stage
    (fun c => .mono (does_removeMember (c := c) rfl hproc hleaving) fun _ w hw =>
      hw.trans (View.put_of_not_open (by simp [View.Open]))) ?_
  refine .mono ((h.keep (a := { v.toSelf with leaving := true }) h.stage).masked
    (a := { v.toSelf with proc := some none }) rfl (fun _ => ⟨h.stage, none, rfl⟩) fun c => ?_) ?_
  · refine .mono (does_clearProc (c := c) rfl h.stage rfl) ?_
    intro _ w hw
    refine (hw.trans (View.put_of_not_open (by simp [View.Open]))).trans ?_
    rw [← hleaving]
  · rintro _ _ rfl
    rfl

/-! ## Fork -/

theorem does_threadFork {memory : Bool} {proc : Option Proc} (h : AtEase v)
    (hfresh : v.fresh = none) (hproc : v.proc = some (some p)) :
    Does t v (threadFork memory proc) fun _ v' => v' = v := by
  unfold threadFork
  refine .ite (fun _ => ?_) fun _ => .pure rfl
  refine .bind (does_threadCreate h.runs hfresh) ?_
  rintro u w ⟨c, hat, hw⟩
  obtain rfl : w = { v with fresh := some ⟨u, c, none, false⟩ } :=
    hw.trans (hat.keep (a := { v.toSelf with fresh := some ⟨u, c, none, false⟩ }) rfl)
  refine .reading (does_lookProc h.runs hproc) ?_
  obtain ⟨q, hq⟩ : ∃ q, proc.or (some p) = some q := by
    cases proc with
    | none => exact ⟨p, rfl⟩
    | some q => exact ⟨q, rfl⟩
  rw [hq]
  have hfair : v.toSelf.Unmasked := fun _ => ⟨h.stage, some p, hproc⟩
  refine .bind (does_procAddthread (b := ⟨u, c, none, false⟩)
    (h.keep (a := { v.toSelf with fresh := some ⟨u, c, none, false⟩ }) h.stage) hfair rfl rfl
    rfl) ?_
  rintro _ _ rfl
  refine .bind (does_deliver (b := ⟨u, c, some q, true⟩) h.runs rfl rfl rfl) ?_
  rintro _ w ⟨d, hd, hw⟩
  obtain rfl : w = { v with hand := ⟨u, c, false⟩ :: v.hand } := by
    refine (hw.trans (hd.keep (a := { v.toSelf with
      fresh := none
      hand := ⟨u, c, false⟩ :: v.hand }) rfl)).trans ?_
    rw [← hfresh]
  refine .bind (does_threadMakeRunnable (i := ⟨u, c, false⟩) h.runs
    ⟨h.even.owes, h.even.posted, h.even.found⟩ (by simp) (by simp [h.locks]) h.calm) ?_
  rintro _ w ⟨b, hb, hw⟩
  refine .pure (hw.trans ?_)
  rw [List.erase_cons_head]
  exact hb.keep (a := v.toSelf) rfl

/-! ## Startup and exit -/

def View.usual (p : Proc) : View n where
  stage := .present
  spl := .none
  irq := false
  proc := some (some p)
  leaving := false
  hand := []
  fresh := none
  toDesk := .clear
  loc := none

theorem does_threadStartup {e : Env n} (hserves : Serves t e) (k : Nat) :
    Does t .newborn (threadStartup e k) fun _ v' => ∃ p, v' = .usual p := by
  refine .bind (does_arrival hserves k rfl rfl rfl rfl) ?_
  rintro _ w ⟨q, -, hq, d, m, hw⟩
  obtain ⟨p, rfl⟩ := Option.ne_none_iff_exists'.mp (hq rfl)
  obtain rfl := hw.trans (View.put_of_not_open (by simp [View.Open, View.newborn]))
  refine .bind (does_splx (.inr ⟨d, rfl⟩) .none fun _ => ⟨rfl, some p, rfl⟩) ?_
  rintro _ _ ⟨-, c, -, rfl⟩
  exact .pure ⟨p, View.put_of_open ⟨rfl, rfl⟩⟩

theorem does_die {e : Env n} (hserves : Serves t e) (k : Nat) (h : AtEase v)
    (hproc : v.proc = some none) :
    Does t v (do
      kassert (fun t _ s => s.tProc t == none) "cur->t_proc == NULL"
      let _ ← splhigh
      threadSwitch e k .zombie none
      kpanic "braaaaaaaiiiiiiiiiiinssssss\n") fun _ _ => False := by
  refine .andThen (does_kassert h.runs fun g s c hc => ?_) fun _ => ?_
  · rw [hc.inv.attached.known t none (hc.proc.trans hproc)]
    rfl
  refine .bind (does_splx h.runs .high (by simp [Self.Unmasked])) ?_
  rintro _ w ⟨-, c, -, hw⟩
  obtain rfl : w = { v with spl := .high, loc := some (.on c) } :=
    hw.trans (View.put_of_not_open (by simp [View.Open]))
  refine .bind (does_threadSwitch hserves k (.inr ⟨c, rfl⟩) h.calm (by simp [Self.Unmasked])
    h.even.owes h.even.posted hproc ⟨h.stage, h.locks, h.even.found, hproc⟩) ?_
  rintro _ _ ⟨hz, -⟩
  exact absurd rfl hz

/-- No thread returns from `thread_exit`. -/
theorem does_threadExit {e : Env n} (hserves : Serves t e) (k : Nat) {q : Option Proc}
    (h : AtEase v) (hproc : v.proc = some q) (hleaving : v.leaving = false) :
    Does t v (threadExit e k) fun _ _ => False := by
  unfold threadExit
  refine .reading (does_lookProc h.runs hproc) ?_
  cases q with
  | none => exact does_die hserves k h hproc
  | some p =>
      refine .bind (does_procRemthread h hproc hleaving) ?_
      rintro _ _ rfl
      exact does_die hserves k (h.keep (a := { v.toSelf with proc := some none }) h.stage) rfl

theorem does_sysExit {e : Env n} (hserves : Serves t e) (k x : Nat) (h : AtEase v)
    (hproc : v.proc = some (some p)) (hleaving : v.leaving = false) :
    Does t v (sysExit e k x) fun _ _ => False := by
  refine .bind (does_procRemthread h hproc hleaving) ?_
  rintro _ _ rfl
  have h' := h.keep (a := { v.toSelf with proc := some none }) h.stage
  refine .andThen (does_semV h'.runs h'.locks h'.even h'.calm) fun _ => ?_
  exact does_threadExit hserves k h' rfl hleaving

end Os161Paging.Threads
