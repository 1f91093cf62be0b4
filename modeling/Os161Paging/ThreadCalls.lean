import Os161Paging.Membership

/-!
# What the functions on threads do

One triple for each function. What a thread is in the middle of in one
function does not matter in another: the triples leave alone what is in its
hand, whom it is making, and its process. A function that may sleep brings
the thread back on whatever processor.
-/

namespace Os161Paging.Threads

open Prog

variable {n : Nat} {ρ : Type} {t u : Thread} {c d : Fin n} {v v' : View n} {i : Item n}
  {st : ThreadState} {p : Proc}

/-! ## Views between calls -/

namespace View

/-- The processor is in the middle of nothing. -/
structure Even (v : View n) : Prop where
  owes : v.owes = none
  posted : v.posted = none
  found : v.found = none

@[simp] theorem put_toSelf : (v.put c).toSelf = v.toSelf := hide_toSelf

@[simp] theorem put_locks : (v.put c).locks = v.locks := hide_locks

theorem put_runs : (v.put c).Runs := by
  unfold put hide
  split
  · exact .inl rfl
  · exact .inr ⟨c, rfl⟩

theorem put_self_of_locks (hc : v.loc = some (.on c)) (hl : v.locks ≠ []) : v.put c = v := by
  rw [put_of_not_open fun h => hl h.2, ← hc]

theorem Even.put (h : v.Even) : (v.put c).Even := by
  unfold View.put hide
  split
  · exact ⟨rfl, rfl, rfl⟩
  · exact ⟨h.owes, h.posted, h.found⟩

/-- The thread has been elsewhere, and nothing else has changed for it. -/
def Moved (v v' : View n) : Prop := ∃ c k, v' = ({ v with floor := k }).put c

end View

/-! ## Loops -/

theorem does_rounds {body : K n (Option ρ)} {I : View n → Prop} {Φ : ρ → View n → Prop}
    (h : ∀ v, I v → Does t v body fun x v' =>
      (∀ y, x = some y → Φ y v') ∧ (x = none → I v')) (k : Nat) (hv : I v) :
    Does t v (rounds k body) Φ := by
  induction k generalizing v with
  | zero => exact fun _ _ _ _ _ => ⟨trivial, fun x => x.elim⟩
  | succ k ih =>
      refine .bind (h v hv) fun x v' hx => ?_
      cases x with
      | some y => exact .pure (hx.1 y rfl)
      | none => exact ih (hx.2 rfl)

/-! ## Waking threads -/

theorem Stage.not_dozing_of_calm {b : Stage} (h : b.calm = true) (st : ThreadState) :
    b ≠ .dozing st := by
  rintro rfl
  cases h

theorem Stage.not_switching_of_calm {b : Stage} (h : b.calm = true) : b.switching ≠ true := by
  cases b <;> simp [Stage.calm, Stage.switching] at h ⊢

theorem does_threadMakeRunnable (hv : v.Runs) (he : v.Even) (hi : i ∈ v.hand)
    (hl : ∀ l ∈ v.locks, l.rank < 1) (hcalm : v.stage.calm = true) :
    Does t v (threadMakeRunnable i.thread false) fun _ v' =>
      ∃ c, v.At c ∧ v' = ({ v with hand := v.hand.erase i }).put c := by
  have hdoze := Stage.not_dozing_of_calm hcalm
  unfold threadMakeRunnable
  refine .reading (does_cpuOf_hand hv hi) ?_
  simp only [Bool.false_eq_true, if_false]
  refine .bind (does_spinlockAcquire (l := .runqueue i.cpu) hv hl hdoze) ?_
  rintro _ _ ⟨c, hat, rfl⟩
  refine .bind (does_enqueue (c := c) rfl hi (by simp) he.owes hcalm) ?_
  rintro _ _ rfl
  rw [View.put_of_not_open (by simp [View.Open])]
  have hrelease : Does t { v with
      hand := v.hand.erase i
      locks := Spin.runqueue i.cpu :: v.locks
      owes := none
      loc := some (.on c) } (spinlockRelease (.runqueue i.cpu)) fun _ v' =>
        ∃ c, v.At c ∧ v' = ({ v with hand := v.hand.erase i }).put c := by
    refine .mono (does_spinlockRelease (c := c) rfl (by simp) rfl he.posted
      fun hsw => absurd hsw (Stage.not_switching_of_calm hcalm)) ?_
    rintro _ _ rfl
    refine ⟨c, hat, ?_⟩
    rw [List.erase_cons_head, ← he.owes, ← he.found]
    rfl
  refine .bind (does_rouse (c := c) (d := i.cpu) rfl rfl fun _ => rfl) ?_
  rintro rouse _ (⟨rfl, hdc, rfl⟩ | ⟨rfl, rfl⟩)
  · simp only [if_true]
    refine .bind (does_ipiSend (.inr ⟨c, rfl⟩) ?_ hdoze he.posted (.inr ⟨if_neg hdc, rfl⟩)) ?_
    · simp only [List.mem_cons, forall_eq_or_imp]
      exact ⟨Nat.lt_succ_self 1, fun l hmem => (hl l hmem).trans (Nat.lt_succ_self 1)⟩
    · rintro _ _ ⟨d, hd, rfl⟩
      obtain rfl : d = c := hd.eq rfl
      rw [View.put_of_not_open (by simp [View.Open]), ← he.found]
      exact hrelease
  · rw [View.put_of_not_open (by simp [View.Open])]
    exact hrelease

theorem does_makeAllRunnable {is hs : List (Item n)} (hc : v.loc = some (.on c))
    (hlocks : v.locks ≠ []) (he : v.Even) (hhand : v.hand = is ++ hs)
    (hl : ∀ l ∈ v.locks, l.rank < 1) (hcalm : v.stage.calm = true) :
    Does t v (makeAllRunnable (is.map Item.thread)) fun _ v' => v' = { v with hand := hs } := by
  induction is generalizing v with
  | nil =>
      refine .pure ?_
      rw [← show v.hand = hs from hhand]
  | cons i is ih =>
      refine .bind (does_threadMakeRunnable (.inr ⟨c, hc⟩) he (i := i) (by simp [hhand]) hl
        hcalm) ?_
      rintro _ _ ⟨d, hd, rfl⟩
      obtain rfl : d = c := hd.eq hc
      rw [View.put_self_of_locks (v := { v with hand := v.hand.erase i }) hc hlocks]
      exact ih hc hlocks ⟨he.owes, he.posted, he.found⟩ (by simp [hhand]) hl hcalm

theorem does_wchanWakeone {w : Chan} (hc : v.loc = some (.on c)) (hlocks : v.locks = [.chan w])
    (howes : v.owes = none) (hfound : v.found = none)
    (hposted : ∀ x, v.posted = some x → w = .sem x) (hcalm : v.stage.calm = true) :
    Does t v (wchanWakeone w) fun _ v' => v' = { v with posted := none } := by
  have hne : v.locks ≠ [] := by simp [hlocks]
  unfold wchanWakeone
  refine .andThen (does_assertHeld hc (by simp [hlocks])) fun _ => ?_
  refine .bind (does_wakeone hc hposted) ?_
  rintro _ _ (⟨rfl, rfl⟩ | ⟨i, rfl, rfl⟩)
  · refine .pure ?_
    exact View.put_self_of_locks (v := { v with posted := none }) hc hne
  · rw [View.put_self_of_locks (v := { v with hand := i :: v.hand, posted := none }) hc hne]
    refine .mono (does_threadMakeRunnable (.inr ⟨c, hc⟩) ⟨howes, rfl, hfound⟩ (i := i) (by simp)
      (by simp [hlocks, Spin.rank]) hcalm) ?_
    rintro _ _ ⟨d, hd, rfl⟩
    obtain rfl : d = c := hd.eq hc
    rw [List.erase_cons_head]
    exact View.put_self_of_locks (v := { v with posted := none }) hc hne

theorem does_wchanWakeall {w : Chan} (hc : v.loc = some (.on c)) (hlocks : v.locks = [.chan w])
    (he : v.Even) (hcalm : v.stage.calm = true) :
    Does t v (wchanWakeall w) fun _ v' => v' = v := by
  have hne : v.locks ≠ [] := by simp [hlocks]
  unfold wchanWakeall
  refine .andThen (does_assertHeld hc (by simp [hlocks])) fun _ => ?_
  refine .bind (does_wakeall hc) ?_
  rintro _ _ ⟨is, rfl, rfl⟩
  rw [View.put_self_of_locks (v := { v with hand := is ++ v.hand }) hc hne]
  exact does_makeAllRunnable hc hne ⟨he.owes, he.posted, he.found⟩ rfl
    (by simp [hlocks, Spin.rank]) hcalm

theorem does_semV {x : Nat} (hv : v.Runs) (hlocks : v.locks = []) (he : v.Even)
    (hcalm : v.stage.calm = true) : Does t v (semV x) fun _ v' => v' = v := by
  unfold semV
  refine .bind (does_spinlockAcquire (l := .chan (.sem x)) hv (by simp [hlocks])
    (Stage.not_dozing_of_calm hcalm)) ?_
  rintro _ _ ⟨c, hat, rfl⟩
  refine .bind (does_up (c := c) rfl (by simp) he.posted he.found) ?_
  rintro _ _ rfl
  rw [View.put_of_not_open (by simp [View.Open])]
  refine .bind (does_wchanWakeone (c := c) rfl (by simp [hlocks]) he.owes he.found (by simp)
    hcalm) ?_
  rintro _ _ rfl
  refine .mono (does_spinlockRelease (c := c) rfl (by simp) he.owes rfl
    fun hsw => absurd hsw (Stage.not_switching_of_calm hcalm)) ?_
  rintro _ _ rfl
  rw [List.erase_cons_head, ← he.posted, ← he.found]
  exact hat

/-- Another processor is told something; the thread is done with what it owed. -/
theorem does_ipiSend_even {target : Fin n} {code : Ipi} (hv : v.Runs) (he : v.Even)
    (hl : ∀ l ∈ v.locks, l.rank < 2) (hcalm : v.stage.calm = true) :
    Does t v (ipiSend target code) fun _ v' => v' = v := by
  refine .mono (does_ipiSend hv hl (Stage.not_dozing_of_calm hcalm) he.posted (.inl he.owes)) ?_
  rintro _ _ ⟨c, hat, rfl⟩
  rw [← he.owes, ← he.found]
  exact hat

theorem does_ipiBroadcast {code : Ipi} (hv : v.Runs) (he : v.Even) (hlocks : v.locks = [])
    (hcalm : v.stage.calm = true) : Does t v (ipiBroadcast code) fun _ v' => v' = v := by
  unfold ipiBroadcast
  induction List.finRange n with
  | nil => exact .pure rfl
  | cons d ds ih =>
      refine .knowing (does_look (Φ := fun _ => True) hv fun _ _ _ _ => trivial) fun other _ => ?_
      cases other with
      | true => exact .andThen (does_ipiSend_even hv he (by simp [hlocks]) hcalm) fun _ => ih
      | false => exact ih

/-! ## Giving up the processor -/

theorem View.put_self_of_spl (hc : v.loc = some (.on c)) (hspl : v.spl = .high) : v.put c = v := by
  rw [View.put_of_not_open fun h => by simp [h.1] at hspl, ← hc]

/-- What is asked of the functions that `thread_switch` calls: `as_activate` is called with
interrupts off and may sleep; in the idle loop a handler does not get the thread off its
processor. -/
structure Serves (t : Thread) (e : Env n) : Prop where
  activates : ∀ (v : View n) (c : Fin n) (q : Option Proc), v.loc = some (.on c) → v.spl = .high →
    v.stage = .present → v.locks = [] → v.Even → v.proc = some q →
    Does t v e.activate fun _ v' => v.Moved v'
  handles : ∀ (i : Interrupt) (v : View n) (c : Fin n) (q : Option Proc), v.loc = some (.on c) →
    v.spl = .high → v.stage.calm = true → v.locks = [] → v.Even → v.proc = some q →
    Does t v (e.handle i) fun _ v' => ∃ d m, (v.stage ≠ .present → d = c) ∧
      v' = { v with floor := m, loc := some (.on d) }

/-- An interrupted thread does not notice, except that it may be on another processor. -/
theorem does_interrupted {handler : K n Unit} (hv : v.Runs)
    (h : ∀ c, Does t { v with irq := true, spl := .high, loc := some (.on c) } handler
      fun _ v' => ∃ d m, (v.stage ≠ .present → d = c) ∧
        v' = { v with irq := true, spl := .high, floor := m, loc := some (.on d) })
    (hlocks : v.locks = []) (hfair : v.toSelf.Unmasked) :
    Does t v (interrupted handler) fun _ v' => ∃ c d m, v.At c ∧ (v.stage ≠ .present → d = c) ∧
      v' = ({ v with floor := m }).put d := by
  unfold interrupted
  refine .bind (does_enterInterrupt hv) ?_
  rintro _ _ ⟨rfl, c, hat, rfl⟩
  refine .bind (h c) ?_
  rintro _ _ ⟨d, m, hd, rfl⟩
  refine .mono (does_leaveInterrupt (c := d) rfl rfl hlocks hfair) ?_
  rintro _ _ rfl
  exact ⟨c, d, m, hat, hd, rfl⟩

theorem does_cpuIdle {e : Env n} (hserves : Serves t e) {q : Option Proc}
    (hc : v.loc = some (.on c)) (hspl : v.spl = .high) (hst : v.stage = .dozing st)
    (hlocks : v.locks = []) (he : v.Even) (hproc : v.proc = some q) :
    Does t v (cpuIdle e.handle) fun _ v' => ∃ m, v' = { v with stage := .idle st, floor := m } := by
  refine .bind (does_beginWait hc hst hlocks) ?_
  intro _ w hw
  obtain rfl : w = v := hw.trans (View.put_self_of_spl hc hspl)
  refine .bind (does_wait hc hst hlocks) ?_
  intro i w' hw
  obtain rfl : w' = { w with stage := .idle st } := hw.trans (View.put_self_of_spl hc hspl)
  refine .mono (does_interrupted (.inr ⟨c, hc⟩) (fun d => ?_) hlocks
    (by simp [Self.Unmasked, hspl])) ?_
  · exact hserves.handles i _ d q rfl rfl rfl hlocks ⟨he.owes, he.posted, he.found⟩ hproc
  · rintro _ v' ⟨b, d, m, hb, hd, hv'⟩
    obtain rfl : d = b := hd (by simp)
    obtain rfl : d = c := hb.eq hc
    exact ⟨m, hv'.trans (View.put_self_of_spl hc hspl)⟩

theorem does_nextThread {e : Env n} (hserves : Serves t e) (k : Nat) {q : Option Proc}
    (hc : v.loc = some (.on c)) (hspl : v.spl = .high) (hst : v.stage = .idle st)
    (hlocks : v.locks = [.runqueue c]) (he : v.Even) (hproc : v.proc = some q) :
    Does t v (nextThread e k) fun u v' =>
      v' = { v with hand := ⟨u, c, true⟩ :: v.hand, floor := 0 } := by
  have hne : v.locks ≠ [] := by simp [hlocks]
  refine does_rounds (I := fun w => ∃ m, w = { v with floor := m }) ?_ k ⟨v.floor, rfl⟩
  rintro _ ⟨m, rfl⟩
  refine .bind (does_remhead hc hst (by simp [hlocks])) ?_
  rintro _ w (⟨rfl, hw⟩ | ⟨u, rfl, hw⟩)
  · -- the lock is dropped while the processor waits
    obtain rfl : w = { v with stage := .dozing st, floor := m } :=
      hw.trans (View.put_self_of_locks hc hne)
    refine .reading (does_curcpu hc) ?_
    refine .bind (does_spinlockRelease hc (by simp [hlocks]) he.owes he.posted
      (by simp [Stage.switching])) ?_
    intro _ w hw
    rw [hlocks, List.erase_cons_head] at hw
    obtain rfl : w = { v with stage := .dozing st, locks := [], floor := m, found := none } :=
      hw.trans (View.put_self_of_spl hc hspl)
    refine .bind (does_cpuIdle hserves hc hspl rfl rfl ⟨he.owes, he.posted, rfl⟩ hproc) ?_
    rintro _ w ⟨l, hw⟩
    obtain rfl : w = { v with stage := .idle st, locks := [], floor := l, found := none } := hw
    refine .reading (does_curcpu hc) ?_
    refine .bind (does_spinlockAcquire (l := .runqueue c) (.inr ⟨c, hc⟩) (by simp) (by simp)) ?_
    rintro _ w ⟨d, hd, hw⟩
    obtain rfl : d = c := hd.eq hc
    refine .pure ⟨by simp, fun _ => ⟨l, ?_⟩⟩
    rw [hw, ← hc, ← hlocks, ← he.found, ← hst]
  · refine .pure ⟨fun y hy => ?_, by simp⟩
    cases hy
    exact hw.trans (View.put_self_of_locks hc hne)

/-- What `thread_switch` may be asked for. -/
def CanSwitch (v : View n) : ThreadState → Option Chan → Prop
  | .ready, _ => v.locks = [] ∧ v.found = none
  | .sleep, some w => v.stage = .present ∧ v.locks = [.chan w] ∧
      ∀ x, w = .sem x → v.found = some (x, true)
  | .zombie, _ => v.stage = .present ∧ v.locks = [] ∧ v.found = none ∧ v.proc = some none
  | _, _ => False

/-- The current thread is put on a list, and drops the lock of the wait channel. -/
theorem does_putAway {wc : Option Chan} (hcan : CanSwitch v st wc) (hst : v.stage = .present)
    (howes : v.owes = none) (hposted : v.posted = none) :
    Does t { v with
        spl := .high
        locks := Spin.runqueue c :: v.locks
        loc := some (.on c) } (putAway st wc) fun _ v' =>
      v' = { v with
        spl := .high
        stage := .departing st
        locks := [.runqueue c]
        found := none
        loc := some (.on c) } := by
  cases st with
  | run => exact hcan.elim
  | ready =>
      obtain ⟨hlocks, hfound⟩ := hcan
      refine .reading (does_curthread (.inr ⟨c, rfl⟩)) ?_
      refine .reading (does_cpuOf_self (c := c) rfl) ?_
      simp only [if_true]
      refine .andThen (does_assertHeld (c := c) rfl (by simp)) fun _ => ?_
      refine .bind (does_enqueue_self (c := c) rfl hst rfl (by simp) howes) ?_
      rintro _ _ rfl
      rw [View.put_of_not_open (by simp [View.Open])]
      -- the processor is its own
      refine .reading (x := false) (does_look (.inr ⟨c, rfl⟩) fun g s d h => ?_) ?_
      · obtain rfl : d = c := View.At.eq h.put_self rfl
        simp
      · refine .pure ?_
        rw [hlocks, hfound]
  | sleep =>
      cases wc with
      | none => exact hcan.elim
      | some w =>
          obtain ⟨-, hlocks, hfound⟩ := hcan
          refine .bind (does_addChan (c := c) rfl hst rfl (by simp) hfound) ?_
          rintro _ _ rfl
          rw [View.put_of_not_open (by simp [View.Open])]
          refine .mono (does_spinlockRelease (c := c) rfl (by simp [hlocks]) howes hposted
            (by simp)) ?_
          rintro _ _ rfl
          rw [View.put_of_not_open (by simp [View.Open]), hlocks]
          simp
  | zombie =>
      obtain ⟨-, hlocks, hfound, hproc⟩ := hcan
      refine .mono (does_addZombie (c := c) rfl hst rfl (by simp) hproc) ?_
      rintro _ _ rfl
      rw [View.put_of_not_open (by simp [View.Open]), hlocks, hfound]

theorem does_exorcise (k : Nat) (hc : v.loc = some (.on c)) (hst : v.stage = .present) :
    Does t v (exorcise k) fun _ v' => v' = v := by
  refine does_rounds (I := fun w => w = v) ?_ k rfl
  intro w hw
  subst hw
  refine .mono (does_exorciseOne hc hst) ?_
  rintro _ _ rfl
  exact ⟨fun _ _ => rfl, fun _ => rfl⟩

/-- Back on a processor, or on one for the first time. -/
theorem does_arrival {e : Env n} (hserves : Serves t e) (k : Nat)
    (haway : v.loc = some .away) (hdesk : v.toDesk = .clear) (hst : v.stage = .present)
    (hspl : v.spl = .high) :
    Does t v (arrive e k) fun _ v' => ∃ p, (∀ q, v.proc = some q → p = q) ∧
      (v.proc = none → p ≠ none) ∧ View.Moved { v with proc := some p } v' := by
  unfold arrive
  refine .bind (does_arrive haway hst) ?_
  rintro _ _ ⟨c, p, hknown, hnone, rfl⟩
  refine .reading (does_curcpu rfl) ?_
  have he : v.Even := by
    constructor
    · exact congrArg Desk.owes hdesk
    · exact congrArg Desk.posted hdesk
    · exact congrArg Desk.found hdesk
  refine .bind (does_spinlockRelease (c := c) rfl (by simp) he.owes he.posted
    (by simp [hst, Stage.switching])) ?_
  intro _ w hw
  simp only [List.erase_cons_head] at hw
  obtain rfl : w = { v with proc := some p, locks := [], found := none, loc := some (.on c) } :=
    hw.trans (View.put_self_of_spl rfl hspl)
  refine .bind (hserves.activates _ c p rfl hspl hst rfl ⟨he.owes, he.posted, rfl⟩ rfl) ?_
  intro _ w hmoved
  obtain ⟨d, m, rfl⟩ := hmoved
  rw [View.put_of_not_open (by simp [View.Open, hspl])]
  refine .mono (does_exorcise (c := d) k rfl hst) ?_
  rintro _ _ rfl
  refine ⟨p, hknown, hnone, d, m, ?_⟩
  rw [View.put_of_not_open (by simp [View.Open, hspl])]
  have hlocks : v.locks = [] := congrArg Desk.locks hdesk
  rw [hlocks, he.found]

theorem does_arrival_gone {e : Env n} {k : Nat} {Φ : Unit → View n → Prop}
    (hgone : v.loc = some .gone) : Does t v (arrive e k) Φ :=
  .bind (does_gone (Φ := fun _ _ => False) hgone) fun _ _ => False.elim

/-- The second half of `thread_switch`: the thread is on a list, and comes back when it has
been given a processor, if at all. -/
theorem does_switchAway {e : Env n} (hserves : Serves t e) (k : Nat)
    {q : Option Proc} {spl : Ipl} (hc : v.loc = some (.on c)) (hspl : v.spl = .high)
    (hst : v.stage = .departing st) (hrun : st ≠ .run) (hlocks : v.locks = [.runqueue c])
    (he : v.Even) (hproc : v.proc = some q) :
    Does t v (do
        setState st
        setIsidle true
        let next ← nextThread e k
        setIsidle false
        switchframeSwitch next
        arrive e k
        let _ ← splx spl) fun _ v' =>
      st ≠ .zombie ∧ View.Moved { v with spl := spl, stage := .present, locks := [] } v' := by
  have hmem : Spin.runqueue c ∈ v.locks := by simp [hlocks]
  refine .bind (does_setState hc hst hrun hmem) ?_
  intro _ w hw
  obtain rfl : w = { v with stage := .left st } := hw.trans (View.put_self_of_spl hc hspl)
  refine .bind (does_setIsidle_true hc rfl) ?_
  intro _ w hw
  obtain rfl : w = { v with stage := .idle st } := hw.trans (View.put_self_of_spl hc hspl)
  refine .bind (does_nextThread hserves k hc hspl rfl hlocks
    ⟨he.owes, he.posted, he.found⟩ hproc) ?_
  intro u w hw
  obtain rfl : w = { v with stage := .idle st, hand := ⟨u, c, true⟩ :: v.hand, floor := 0 } := hw
  refine .bind (does_setIsidle_false hc rfl hmem) ?_
  intro _ w hw
  obtain rfl : w = { v with stage := .left st, hand := ⟨u, c, true⟩ :: v.hand, floor := 0 } :=
    hw.trans (View.put_self_of_spl hc hspl)
  refine .bind (does_switch (i := ⟨u, c, true⟩) hc rfl hlocks hspl he.owes (by simp) rfl) ?_
  intro _ w hw
  simp only [List.erase_cons_head] at hw
  by_cases hz : st = .zombie
  · rw [if_pos hz] at hw
    subst hw
    exact .bind (does_arrival_gone (Φ := fun _ _ => False) rfl) fun _ _ => False.elim
  · rw [if_neg hz] at hw
    obtain rfl : w = { v with stage := .present, toDesk := .clear, loc := some .away } := hw
    refine .bind (does_arrival hserves k rfl rfl rfl hspl) ?_
    rintro _ w ⟨p, hknown, -, d, m, hw⟩
    obtain rfl := hknown q hproc
    obtain rfl : w = { v with
        stage := .present
        locks := []
        floor := m
        loc := some (.on d) } := by
      rw [hw, View.put_of_not_open (by simp [View.Open, hspl]), he.owes, he.posted, he.found, hproc]
      rfl
    refine .bind (does_splx (.inr ⟨d, rfl⟩) spl fun _ => ⟨rfl, p, hproc⟩) ?_
    rintro _ w ⟨-, b, hb, hw⟩
    obtain rfl : b = d := hb.eq rfl
    exact .pure ⟨hz, b, m, hw⟩

theorem does_threadSwitch {e : Env n} (hserves : Serves t e) (k : Nat)
    {q : Option Proc} {wc : Option Chan} (hv : v.Runs) (hcalm : v.stage.calm = true)
    (hfair : v.toSelf.Unmasked) (howes : v.owes = none) (hposted : v.posted = none)
    (hproc : v.proc = some q)
    (hcan : CanSwitch v st wc) :
    Does t v (threadSwitch e k st wc) fun _ v' => st ≠ .zombie ∧
      (v.stage.isIdle = true → v' = v) ∧ View.Moved { v with locks := [], found := none } v' := by
  unfold threadSwitch
  refine .andThen (does_kassert hv fun g s c h => ?_) fun _ => ?_
  · rw [beq_iff_eq, ← h.cur]
    exact h.inv.seated.curCpu c
  refine .bind (does_splx hv .high (by simp [Self.Unmasked])) ?_
  rintro _ w ⟨rfl, c, hat, hw⟩
  obtain rfl : w = { v with spl := .high, loc := some (.on c) } :=
    hw.trans (View.put_of_not_open (by simp [View.Open]))
  refine .reading (does_look (.inr ⟨c, rfl⟩) fun g s d h => h.idle_eq) ?_
  cases hidle : v.stage.isIdle with
  | true =>
      -- the idle loop was interrupted, and nobody else is to be run
      have hready : st = .ready ∧ v.locks = [] ∧ v.found = none := by
        cases st with
        | ready => exact ⟨rfl, hcan⟩
        | run => exact hcan.elim
        | sleep =>
            cases wc with
            | none => exact hcan.elim
            | some w =>
                rw [hcan.1] at hidle
                cases hidle
        | zombie =>
            rw [hcan.1] at hidle
            cases hidle
      refine .bind (does_splx (.inr ⟨c, rfl⟩) v.spl hfair) ?_
      rintro _ w ⟨-, d, hd, hw⟩
      obtain rfl : d = c := hd.eq rfl
      refine .pure ⟨by simp [hready.1], fun _ => hw.trans hat, ?_⟩
      rw [← hready.2.1, ← hready.2.2]
      exact ⟨d, v.floor, hw⟩
  | false =>
      have hst : v.stage = .present := by
        cases hs : v.stage <;> simp [hs, Stage.calm, Stage.isIdle] at hcalm hidle
        rfl
      have hranks : ∀ l ∈ v.locks, l.rank < 1 := by
        cases st with
        | ready =>
            rw [hcan.1]
            simp
        | run => exact hcan.elim
        | sleep =>
            cases wc with
            | none => exact hcan.elim
            | some w =>
                rw [hcan.2.1]
                simp [Spin.rank]
        | zombie =>
            rw [hcan.2.1]
            simp
      refine .reading (does_curcpu rfl) ?_
      refine .bind (does_spinlockAcquire (l := .runqueue c) (.inr ⟨c, rfl⟩) hranks
        (by simp [hst])) ?_
      rintro _ w ⟨d, hd, hw⟩
      obtain rfl : d = c := hd.eq rfl
      obtain rfl : w = { v with
          spl := .high
          locks := Spin.runqueue d :: v.locks
          loc := some (.on d) } := hw
      refine .knowing (does_look (Φ := fun _ => True) (.inr ⟨d, rfl⟩) fun _ _ _ _ => trivial)
        fun empty _ => ?_
      refine .ite (fun hstay => ?_) fun _ => ?_
      · obtain ⟨rfl, -⟩ := hstay
        refine .bind (does_spinlockRelease (c := d) rfl (by simp) howes hposted
          (by simp [hst, Stage.switching])) ?_
        intro _ w hw
        simp only [List.erase_cons_head] at hw
        obtain rfl : w = { v with spl := .high, found := none, loc := some (.on d) } :=
          hw.trans (View.put_of_not_open (by simp [View.Open]))
        refine .bind (does_splx (.inr ⟨d, rfl⟩) v.spl hfair) ?_
        rintro _ w ⟨-, b, hb, hw⟩
        obtain rfl : b = d := hb.eq rfl
        refine .pure ⟨by simp, by simp, ?_⟩
        rw [← hcan.1]
        exact ⟨b, v.floor, hw⟩
      · refine .bind (does_putAway hcan hst howes hposted) ?_
        rintro _ _ rfl
        have hrun : st ≠ .run := by
          rintro rfl
          exact hcan
        refine .mono (does_switchAway hserves k (c := d) rfl rfl rfl hrun rfl ⟨howes, hposted, rfl⟩
          hproc) ?_
        rintro _ _ ⟨hz, hmoved⟩
        rw [← hst] at hmoved
        exact ⟨hz, by simp, hmoved⟩

/-! ## Sleeping -/

theorem does_wchanSleep {e : Env n} (hserves : Serves t e) (k : Nat)
    {q : Option Proc} {w : Chan} (hc : v.loc = some (.on c)) (hst : v.stage = .present)
    (hirq : v.irq = false) (hlocks : v.locks = [.chan w]) (howes : v.owes = none)
    (hposted : v.posted = none) (hfound : ∀ x, w = .sem x → v.found = some (x, true))
    (hproc : v.proc = some q) :
    Does t v (wchanSleep e k w) fun _ v' => ∃ d m,
      v' = { v with floor := m, found := none, loc := some (.on d) } := by
  have hcalm : v.stage.calm = true := by
    rw [hst]
    rfl
  unfold wchanSleep
  refine .andThen (does_kassert (.inr ⟨c, hc⟩) fun g s d h => ?_) fun _ => ?_
  · rw [h.inv.levelled.inInterrupt t (h.inv.exists_cur h.cur), h.irq, hirq]
    rfl
  refine .andThen (does_assertHeld hc (by simp [hlocks])) fun _ => ?_
  refine .andThen (does_kassert (.inr ⟨c, hc⟩) fun g s d h => ?_) fun _ => ?_
  · rw [h.inv.locked.count, h.held, hlocks]
    rfl
  refine .bind (does_threadSwitch hserves k (.inr ⟨c, hc⟩) hcalm (fun _ => ⟨hst, q, hproc⟩) howes hposted hproc
    ⟨hst, hlocks, hfound⟩) ?_
  rintro _ _ ⟨-, -, d, m, rfl⟩
  refine .mono (does_spinlockAcquire (l := .chan w) View.put_runs (by simp) ?_) ?_
  · intro x
    simp [hst]
  · rintro _ _ ⟨b, -, rfl⟩
    by_cases hopen : View.Open { v with locks := [], found := none, floor := m }
    · rw [View.put_of_open hopen]
      refine ⟨b, 0, ?_⟩
      rw [hlocks, howes, hposted]
      rfl
    · rw [View.put_of_not_open hopen]
      refine ⟨b, m, ?_⟩
      rw [hlocks]

theorem does_semP {e : Env n} (hserves : Serves t e) (k x : Nat)
    {q : Option Proc} (hv : v.Runs) (hst : v.stage = .present) (hirq : v.irq = false)
    (hlocks : v.locks = []) (he : v.Even) (hproc : v.proc = some q) :
    Does t v (semP e k x) fun _ v' => v.Moved v' := by
  unfold semP
  refine .andThen (does_kassert hv fun g s d h => ?_) fun _ => ?_
  · rw [h.inv.levelled.inInterrupt t (h.inv.exists_cur h.cur), h.irq, hirq]
    rfl
  refine .bind (does_spinlockAcquire (l := .chan (.sem x)) hv (by simp [hlocks]) (by simp [hst])) ?_
  rintro _ _ ⟨c, -, rfl⟩
  refine .bind (does_rounds (I := fun w => ∃ d m, w =
      { v with locks := [.chan (.sem x)], floor := m, loc := some (.on d) })
    (Φ := fun _ w => ∃ d m, w = { v with
      locks := [.chan (.sem x)]
      floor := m
      found := some (x, false)
      loc := some (.on d) }) ?_ k ⟨c, v.floor, by rw [hlocks]⟩) ?_
  · rintro _ ⟨d, m, rfl⟩
    refine .bind (does_test (c := d) rfl (by simp)) ?_
    intro count w hw
    obtain rfl := hw.trans (View.put_of_not_open (by simp [View.Open]))
    refine .ite (fun hzero => ?_) fun hpos => ?_
    · refine .bind (does_wchanSleep hserves k (c := d) rfl hst hirq rfl he.owes he.posted ?_
        hproc) ?_
      · rintro y hy
        cases hy
        simp [hzero]
      · rintro _ _ ⟨b, l, rfl⟩
        refine .pure ⟨by simp, fun _ => ⟨b, l, ?_⟩⟩
        rw [he.found]
    · refine .pure ⟨fun y _ => ⟨d, m, ?_⟩, by simp⟩
      simp [hpos]
  · rintro _ _ ⟨d, m, rfl⟩
    refine .bind (does_down (c := d) rfl hst (by simp) rfl) ?_
    intro _ w hw
    obtain rfl := hw.trans (View.put_of_not_open (by simp [View.Open]))
    refine .mono (does_spinlockRelease (c := d) rfl (by simp) he.owes he.posted (by simp)) ?_
    rintro _ _ rfl
    refine ⟨d, m, ?_⟩
    rw [List.erase_cons_head, ← hlocks, ← he.found]
    rfl

/-- `as_activate` leaves the thread as it was, on whatever processor. -/
theorem does_asActivate {e : Env n} (hserves : Serves t e) (k : Nat) {q : Option Proc}
    (hc : v.loc = some (.on c)) (hspl : v.spl = .high) (hst : v.stage = .present)
    (hlocks : v.locks = []) (he : v.Even) (hproc : v.proc = some q) :
    Does t v (asActivate e k) fun _ v' => v.Moved v' := by
  have hself : v.Moved v := ⟨c, v.floor, (View.put_self_of_spl hc hspl).symm⟩
  refine .reading (does_lookProc (.inr ⟨c, hc⟩) hproc) ?_
  cases q with
  | none => exact .pure hself
  | some p =>
      refine .bind (does_spinlockAcquire (l := .proc p) (.inr ⟨c, hc⟩) (by simp [hlocks])
        (by simp [hst])) ?_
      rintro _ _ ⟨d, hd, rfl⟩
      obtain rfl : d = c := hd.eq hc
      refine .knowing (does_look (Φ := fun _ => True) (.inr ⟨d, rfl⟩) fun _ _ _ _ => trivial)
        fun as _ => ?_
      refine .bind (does_spinlockRelease (c := d) rfl (by simp) he.owes he.posted (by simp)) ?_
      intro _ w hw
      simp only [List.erase_cons_head] at hw
      obtain rfl : w = v := by
        rw [hw, ← he.found, ← hc]
        exact View.put_self_of_spl hc hspl
      refine .knowing (does_look (Φ := fun x => x = true → w.irq = false) (.inr ⟨d, hc⟩)
        fun g s b h hx => ?_) fun canLock hcan => ?_
      · have hirq := h.inv.levelled.inInterrupt t (h.inv.exists_cur h.cur)
        rw [h.irq] at hirq
        simpa [hirq] using (Bool.and_eq_true_iff.mp hx).2
      refine .ite (fun hlock => ?_) fun _ => .pure hself
      refine .bind (does_semP hserves k statsSem (.inr ⟨d, hc⟩) hst (hcan hlock.2) hlocks he
        hproc) ?_
      rintro _ _ ⟨b, m, rfl⟩
      refine .mono (does_semV View.put_runs ?_ ?_ ?_) ?_
      · exact View.put_locks.trans hlocks
      · exact View.Even.put ⟨he.owes, he.posted, he.found⟩
      · rw [View.put_toSelf, hst]
        rfl
      · rintro _ _ rfl
        exact ⟨b, m, rfl⟩

end Os161Paging.Threads
