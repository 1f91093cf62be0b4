import Os161Paging.Relocation
import Os161Paging.RunQueues

/-!
# Giving up the processor and getting it back

The stages of `thread_switch`: the thread puts itself on a list, notes its
new state, goes idle until there is a next thread, and hands the processor
over with the run queue locked. Whoever gets the processor finds the lock
held and drops it.
-/

namespace Os161Paging.Threads

open Prog

variable {n : Nat} {ρ : Type} {g g' : Ghost n} {s s' : Sched n} {t u : Thread} {c d : Fin n}
  {v v' : View n} {i : Item n} {st : ThreadState}

/-! ## From stage to stage -/

/-- The current thread, on its way out, gets to the stage `b`. -/
theorem Here.restage (h : Here g s t c v) {b : Stage} {tState' : Thread → ThreadState}
    {isidle' : Fin n → Bool} {waiting' : Fin n → Waiting} (hold : v.stage ≠ .present)
    (hnew : b ≠ .present)
    (hdep : ∀ x, b ≠ .departing x) (hpermits : ∀ p, v.stage.Permits c p → b.Permits c p)
    (hlock : b.switching = true → Spin.runqueue c ∈ v.locks)
    (hidle : isidle' c = b.isIdle) (hidle' : ∀ d, d ≠ c → isidle' d = s.cIsidle d)
    (hstate : ∀ u, u ≠ t → tState' u = s.tState u) (htells : (g.place t).Tells (tState' t))
    (hkeep : (∃ x, v.stage = .departing x) ∨ tState' t = s.tState t)
    (hdoze : ∀ st, b = .dozing st → s.cRunqueue c = [])
    (hwake : ∀ d, waiting' d ≠ .no → s.waiting d ≠ .no)
    (hwait : waiting' c ≠ .no → ∃ st, b = .dozing st) :
    Core { g with stage := Function.update g.stage t b }
      { s with tState := tState', cIsidle := isidle', waiting := waiting' } := by
  have hstage : ∀ u, u ≠ t → Function.update g.stage t b u = g.stage u :=
    fun u hu => Function.update_of_ne hu _ _
  have hlocated : Located g.place g.loc (Function.update g.stage t b) g.hand g.fresh s.allocated
      s.nextThread s.cZombies s.cRunqueue s.wcThreads := by
    refine { h.inv.located with present := fun u => (h.inv.located.present u).trans ?_ }
    by_cases hu : u = t
    · subst hu
      simp [h.stage, hold, hnew]
    · rw [hstage u hu]
  have hseated : Seated g.place g.loc (Function.update g.stage t b) g.hand g.fresh s.tCpu
      s.cCurthread isidle' := by
    refine { h.inv.seated with departed := fun u d hu hst => ?_, idle := fun d => ?_ }
    · by_cases hut : u = t
      · subst hut
        obtain rfl : d = c := by simpa [h.loc] using hu.symm
        rw [Function.update_self]
        exact hpermits _ (h.stage ▸ h.inv.seated.departed u d hu (by rwa [h.stage]))
      · rw [hstage u hut] at hst ⊢
        exact h.inv.seated.departed u d hu hst
    · by_cases hd : d = c
      · subst hd
        simp [hidle, h.cur, h.loc]
      · rw [hidle' d hd, hstage _ (h.inv.cur_ne h.cur hd)]
        exact h.inv.seated.idle d
  have hstated : Stated g.place g.loc (Function.update g.stage t b) g.hand tState' := by
    have hdeparting : ∀ u, u ≠ t →
        (Departing (g.loc u) (Function.update g.stage t b u) ↔ Departing (g.loc u) (g.stage u)) :=
      fun u hu => by rw [hstage u hu]
    rw [← Function.update_eq_self t g.place]
    refine h.inv.stated.move hdeparting hstate (fun d hd => ?_) (.inr htells) fun w i hi hr => ?_
    · rw [hd] at htells
      exact htells
    · by_cases hut : i.thread = t
      · obtain ⟨hready, hnot⟩ := h.inv.stated.taken w i hi hr
        rw [hut] at hready hnot ⊢
        rw [Function.update_self]
        constructor
        · rcases hkeep with ⟨x, hx⟩ | heq
          · exact absurd ⟨⟨c, h.loc⟩, x, h.stage.trans hx⟩ hnot
          · rw [heq, hready]
        · rintro ⟨-, x, hx⟩
          exact hdep x hx
      · exact h.inv.stated.taken_of_ne hdeparting hstate hi hut hr
  have hunmasked : ∀ u, (Ghost.self { g with stage := Function.update g.stage t b } u).Unmasked :=
    h.inv.unmasked_of_apart (t := t) (fun u hu => by simp [Ghost.self, hu])
      fun hspl => absurd (h.stage.symm.trans (h.inv.unmasked t hspl).1) hold
  exact { h.inv.toCore with
    located := hlocated
    seated := hseated
    locked := h.inv.locked.restage h.loc (h.held ▸ hlock)
    stated := hstated
    roused := h.inv.roused.restage h.loc h.cur (fun _ => h.inv.cur_ne h.cur) hdoze hwake hwait
    unmasked := hunmasked }

/-- What has been seen once it is known that the current thread got to the stage `b`. -/
theorem Here.turns_stage (h : Here g s t c v) {b : Stage} (tState' : Thread → ThreadState)
    (isidle' : Fin n → Bool) (waiting' : Fin n → Waiting)
    (hcore : Core { g with stage := Function.update g.stage t b }
      { s with tState := tState', cIsidle := isidle', waiting := waiting' }) :
    Turns t c g s { g with stage := Function.update g.stage t b }
      { s with tState := tState', cIsidle := isidle', waiting := waiting' }
      { v with stage := b } := by
  refine ⟨hcore, le_rfl, ?_, h.loc, ?_, h.desk⟩
  · constructor <;> intro _ hb <;> simp [Ghost.self, Ghost.desk, hb]
  · simp [Ghost.self, h.spl, h.irq, h.proc, h.leaving, h.hand, h.fresh]

theorem Here.idle_eq (h : Here g s t c v) : s.cIsidle c = v.stage.isIdle := by
  have hidle := h.inv.seated.idle c
  rw [h.cur, h.stage] at hidle
  rw [Bool.eq_iff_iff, hidle]
  exact ⟨And.right, fun hx => ⟨h.loc, hx⟩⟩

/-- A thread whose state has been noted is where its state says. -/
theorem Here.tells (h : Here g s t c v) (hdep : ∀ x, v.stage ≠ .departing x) :
    (g.place t).Tells (s.tState t) :=
  (h.inv.stated.told t).resolve_left fun ⟨_, x, hx⟩ => hdep x (h.stage.symm.trans hx)

theorem does_setState (hc : v.loc = some (.on c)) (hst : v.stage = .departing st)
    (hrun : st ≠ .run) (hlock : Spin.runqueue c ∈ v.locks) :
    Does t v (setState st) fun _ v' => v' = ({ v with stage := .left st }).put c := by
  refine does_change_at hc fun g s h => ⟨_, h.turns_stage _ s.cIsidle s.waiting
    (h.restage (by simp [hst]) (by simp) (by simp) ?_ (fun _ => hlock) ?_
    (fun _ _ => rfl) ?_ ?_ (.inl ⟨st, hst⟩) (by simp) (fun _ => id) ?_)⟩
  · intro p hp
    rw [hst] at hp
    cases st <;> simp_all [Stage.Permits]
  · rw [h.idle_eq, hst]
    rfl
  · intro u hu
    exact Function.update_of_ne hu _ _
  · have hp := h.inv.seated.departed t c h.loc (by simp [h.stage, hst])
    rw [h.stage, hst] at hp
    rw [Function.update_self]
    cases st with
    | run => exact absurd rfl hrun
    | ready | zombie =>
        simp only [Stage.Permits] at hp
        rw [hp]
        rfl
    | sleep =>
        rcases hp with ⟨w, hp⟩ | ⟨b, hp⟩
        · rw [hp]
          rfl
        · rw [hp]
          trivial
  · intro hw
    exact absurd (h.not_waiting (.inl (by simp [hst]))) hw

theorem does_setIsidle_true (hc : v.loc = some (.on c)) (hst : v.stage = .left st) :
    Does t v (setIsidle true) fun _ v' => v' = ({ v with stage := .idle st }).put c := by
  refine does_change_at hc fun g s h => ⟨_, h.turns_stage s.tState _ s.waiting
    (h.restage (by simp [hst]) (by simp) (by simp) ?_
    (by simp [Stage.switching]) (Function.update_self ..)
    (fun _ hd => Function.update_of_ne hd _ _) (fun _ _ => rfl)
    (h.tells (by simp [hst])) (.inr rfl) (by simp) (fun _ => id) ?_)⟩
  · intro p hp
    rw [hst] at hp
    cases st <;> exact hp
  · intro hw
    exact absurd (h.not_waiting (.inl (by simp [hst]))) hw

theorem does_setIsidle_false (hc : v.loc = some (.on c)) (hst : v.stage = .idle st)
    (hlock : Spin.runqueue c ∈ v.locks) :
    Does t v (setIsidle false) fun _ v' => v' = ({ v with stage := .left st }).put c := by
  refine does_change_at hc fun g s h => ⟨_, h.turns_stage s.tState _ s.waiting
    (h.restage (by simp [hst]) (by simp) (by simp) ?_ (fun _ => hlock)
    (Function.update_self ..) (fun _ hd => Function.update_of_ne hd _ _) (fun _ _ => rfl)
    (h.tells (by simp [hst])) (.inr rfl) (by simp) (fun _ => id) ?_)⟩
  · intro p hp
    rw [hst] at hp
    cases st <;> exact hp
  · intro hw
    exact absurd (h.not_waiting (.inl (by simp [hst]))) hw

theorem does_remhead (hc : v.loc = some (.on c)) (hst : v.stage = .idle st)
    (hlock : Spin.runqueue c ∈ v.locks) :
    Does t v (onCpu fun _ c s => .ok ((s.cRunqueue c).head?,
        { s with cRunqueue := Function.update s.cRunqueue c (s.cRunqueue c).tail }))
      fun x v' => x = none ∧ v' = ({ v with stage := .dozing st }).put c ∨
        ∃ u, x = some u ∧ v' = ({ v with hand := ⟨u, c, true⟩ :: v.hand, floor := 0 }).put c := by
  refine does_onCpu_at hc fun g s h => ⟨trivial, fun x s' hx => ?_⟩
  cases hq : s.cRunqueue c with
  | nil =>
      have hsame : Function.update s.cRunqueue c [] = s.cRunqueue := by
        rw [← hq, Function.update_eq_self]
      simp only [hq, List.head?_nil, List.tail_nil, hsame] at hx
      cases hx
      refine ⟨_, _, .inl ⟨rfl, rfl⟩, h.turns_stage s.tState s.cIsidle s.waiting
        (h.restage (by simp [hst]) (by simp) (by simp) ?_
        (by simp [Stage.switching]) (by rw [h.idle_eq, hst]; rfl) (fun _ _ => rfl) (fun _ _ => rfl)
        (h.tells (by simp [hst])) (.inr rfl) (fun _ _ => hq) (fun _ => id) ?_)⟩
      · intro p hp
        rw [hst] at hp
        cases st <;> exact hp
      · intro hw
        exact absurd (h.not_waiting (.inl (by simp [hst]))) hw
  | cons u us =>
      simp only [hq, List.head?_cons, List.tail_cons] at hx
      cases hx
      refine ⟨_, _, .inr ⟨u, rfl, rfl⟩, h.grab_queue (u := u) hlock (by rw [hst]; rfl)
        (by rw [hq]) (Nat.zero_le us.length), le_rfl, ?_, h.loc, ?_, ?_⟩
      · constructor <;> intro _ hb <;> simp [Ghost.self, Ghost.desk, hb]
      · simp [Ghost.self, h.stage, h.spl, h.irq, h.proc, h.leaving, h.hand, h.fresh]
      · simp [Ghost.desk, h.held, h.owes, h.posted, h.found]

theorem does_beginWait (hc : v.loc = some (.on c)) (hst : v.stage = .dozing st)
    (hlocks : v.locks = []) :
    Does t v (change fun _ c s => { s with waiting := Function.update s.waiting c .yes })
      fun _ v' => v' = v.put c := by
  refine does_change_at hc fun g s h => ⟨g, ?_, le_rfl,
    ⟨fun _ _ => rfl, fun _ _ => rfl, fun _ _ => rfl⟩, h.loc, h.self, h.desk⟩
  refine { h.inv.toCore with roused := { h.inv.roused with asleep := fun d hd => ?_ } }
  by_cases hdc : d = c
  · subst hdc
    rw [h.cur]
    exact ⟨h.loc, h.held.trans hlocks, st, h.stage.trans hst⟩
  · refine h.inv.roused.asleep d fun hno => hd ?_
    exact (Function.update_of_ne hdc _ _).trans hno

theorem does_wait (hc : v.loc = some (.on c)) (hst : v.stage = .dozing st)
    (hlocks : v.locks = []) :
    Does t v (onCpu fun _ c s =>
        match s.waiting c with
        | .taken i => .ok (i, { s with waiting := Function.update s.waiting c .no })
        | _ => .wait .interrupt)
      fun _ v' => v' = ({ v with stage := .idle st }).put c := by
  refine does_onCpu_at hc fun g s h => ?_
  have hheld : ∀ b, s.cCurthread b = t → ∀ l, s.splkHolder l ≠ some b := by
    intro b hb l hl
    obtain rfl : b = c := h.inv.cur_inj (hb.trans h.cur.symm)
    have hmem := (h.inv.locked.holder l b).mp hl
    simp [h.held, hlocks] at hmem
  cases hw : s.waiting c with
  | no | yes => exact ⟨hheld, fun x s' hx => by cases hx⟩
  | taken i =>
      refine ⟨trivial, fun x s' hx => ?_⟩
      cases hx
      refine ⟨_, _, rfl, h.turns_stage s.tState s.cIsidle _
        (h.restage (by simp [hst]) (by simp) (by simp) ?_ (by simp [Stage.switching])
        (by rw [h.idle_eq, hst]; rfl) (fun _ _ => rfl) (fun _ _ => rfl)
        (h.tells (by simp [hst])) (.inr rfl) (by simp) ?_ (by simp))⟩
      · intro p hp
        rw [hst] at hp
        cases st <;> exact hp
      · intro d hd hno
        by_cases hdc : d = c
        · subst hdc
          rw [Function.update_self] at hd
          exact hd rfl
        · rw [Function.update_of_ne hdc] at hd
          exact hd hno

/-! ## Onto a list -/

/-- The current thread puts itself on the list `q`. -/
theorem Here.depart (h : Here g s t c v) (st : ThreadState) (q : Place n)
    (hst : v.stage = .present) (hspl : v.spl = .high) (hlock : Spin.runqueue c ∈ v.locks)
    (hq : q.IsShelf) (hsettled : q.Settled)
    (hfits : q.Fits (some c)) (hpermits : (Stage.departing st).Permits c q)
    {tState' : Thread → ThreadState} {zombies' runqueue' : Fin n → List Thread}
    {wcThreads' : Chan → List Thread} {slept' : Nat → Thread → Bool}
    (hstate : ∀ u, u ≠ t → tState' u = s.tState u)
    (hready : ∀ d, q = .queue d → tState' t = .ready)
    (hzombies : ∀ d, q = .zombies d → s.tProc t = none)
    (hto : (shelves g.hand g.fresh zombies' runqueue' wcThreads' q).Perm
      (t :: shelves g.hand g.fresh s.cZombies s.cRunqueue s.wcThreads q))
    (hother : ∀ r, r ≠ q → shelves g.hand g.fresh zombies' runqueue' wcThreads' r =
      shelves g.hand g.fresh s.cZombies s.cRunqueue s.wcThreads r)
    (hroused : Roused g.loc g.stage g.held g.floor g.owes s.cCurthread runqueue' s.cIpiPending
      s.waiting)
    (hsignalled : Signalled g.posted g.found s.nextThread slept' wcThreads' s.semCount) :
    Core { g with
        place := Function.update g.place t q
        stage := Function.update g.stage t (.departing st) }
      { s with
        tState := tState'
        cZombies := zombies'
        cRunqueue := runqueue'
        wcThreads := wcThreads'
        slept := slept' } := by
  have hpresent : g.place t = .present :=
    (h.inv.located.present t).mpr ⟨⟨c, h.loc⟩, h.stage.trans hst⟩
  have hqp : q ≠ .present := by
    rintro rfl
    exact hq
  have hstage : ∀ x, x ≠ t → Function.update g.stage t (.departing st) x = g.stage x :=
    fun x hx => Function.update_of_ne hx _ _
  have hdeparting : ∀ x, x ≠ t → (Departing (g.loc x)
      (Function.update g.stage t (.departing st) x) ↔ Departing (g.loc x) (g.stage x)) :=
    fun x hx => by rw [hstage x hx]
  have hresettled : ∀ x, Function.update g.place t q x = g.place x ∨
      (g.place x).Settled ∧ (Function.update g.place t q x).Settled :=
    resettled_update h.settled hsettled
  have hlocated : Located (Function.update g.place t q) g.loc
      (Function.update g.stage t (.departing st)) g.hand g.fresh s.allocated s.nextThread zombies'
      runqueue' wcThreads' := by
    refine h.inv.located.move_of_exists h.settled.1 hsettled.1 ?_ ?_ fun x hx => by rw [hstage x hx]
    · refine h.inv.located.shelved.move (by rw [hpresent]; exact hqp.symm) ?_ (fun _ => hto) ?_
      · rw [hpresent]
        exact False.elim
      · intro r _ hr
        exact hother r hr
    · exact iff_of_false hqp (by simp)
  have hseated : Seated (Function.update g.place t q) g.loc
      (Function.update g.stage t (.departing st)) g.hand g.fresh s.tCpu s.cCurthread s.cIsidle := by
    refine h.inv.seated.move hstage ?_ (fun _ _ => rfl) h.inv.seated.curCpu (fun d => ?_) ?_
      h.inv.seated.handCpu h.inv.seated.freshCpu (fun d hd _ => ?_) (fun _ _ => .inr ⟨c, h.loc⟩)
      fun hgone => ?_
    · rw [Function.update_self, h.stage, hst]
      rfl
    · refine iff_of_false ?_ (by simp [h.loc])
      rintro rfl
      exact hq
    · rw [← h.cur, h.inv.seated.curCpu]
      exact hfits
    · obtain rfl : d = c := by simpa [h.loc] using hd.symm
      rw [Function.update_self]
      exact hpermits
    · rw [h.loc] at hgone
      cases hgone
  have hstated : Stated (Function.update g.place t q) g.loc
      (Function.update g.stage t (.departing st)) g.hand tState' := by
    refine h.inv.stated.move hdeparting hstate hready
      (.inl ⟨⟨c, h.loc⟩, st, Function.update_self ..⟩) fun w i hi hr => ?_
    refine h.inv.stated.taken_of_ne hdeparting hstate hi ?_ hr
    intro hit
    have hplace := h.inv.place_hand hi
    rw [hit, hpresent] at hplace
    cases hplace
  have hroused' : Roused g.loc (Function.update g.stage t (.departing st)) g.held g.floor g.owes
      s.cCurthread runqueue' s.cIpiPending s.waiting :=
    hroused.restage h.loc h.cur (fun _ => h.inv.cur_ne h.cur) (by simp) (fun _ => id)
      fun hw => absurd (h.not_waiting (.inl (by simp [hst]))) hw
  have hunmasked : ∀ u, (Ghost.self { g with
      stage := Function.update g.stage t (.departing st) } u).Unmasked :=
    h.inv.unmasked_of_apart (t := t) (fun u hu => by simp [Ghost.self, hu])
      fun hx => absurd (h.spl.symm.trans hx) (by simp [hspl])
  refine { h.inv.toCore with
    located := hlocated
    seated := hseated
    locked := h.inv.locked.restage h.loc fun _ => h.held ▸ hlock
    levelled := h.inv.levelled.shift hresettled
    unmasked := hunmasked
    stated := hstated
    roused := hroused'
    attached := h.inv.attached.shift hresettled fun u d hu => ?_
    signalled := hsignalled }
  by_cases hut : u = t
  · subst hut
    have hqd : Function.update g.place u q u = .zombies d := hu
    rw [Function.update_self] at hqd
    exact .inr (hzombies d hqd)
  · exact .inl ((Function.update_of_ne hut _ _).symm.trans hu)

theorem Here.turns_depart (h : Here g s t c v) {q : Place n} {s' : Sched n}
    (hcore : Core { g with
      place := Function.update g.place t q
      stage := Function.update g.stage t (.departing st) } s')
    (hnext : s.nextThread ≤ s'.nextThread) :
    Turns t c g s { g with
      place := Function.update g.place t q
      stage := Function.update g.stage t (.departing st) } s'
      { v with stage := .departing st } := by
  refine ⟨hcore, hnext, ?_, h.loc, ?_, h.desk⟩
  · constructor <;> intro _ hb <;> simp [Ghost.self, Ghost.desk, hb]
  · simp [Ghost.self, h.spl, h.irq, h.proc, h.leaving, h.hand, h.fresh]

theorem does_enqueue_self (hc : v.loc = some (.on c)) (hst : v.stage = .present)
    (hspl : v.spl = .high) (hlock : Spin.runqueue c ∈ v.locks) (howes : v.owes = none) :
    Does t v (change fun _ _ s => s.enqueue c t) fun _ v' =>
      v' = ({ v with stage := .departing .ready }).put c := by
  refine does_change_at hc fun g s h => ⟨_, h.turns_depart (h.depart .ready (.queue c)
    hst hspl hlock trivial (by simp [Place.Settled]) rfl rfl
    (fun u hu => Function.update_of_ne hu _ _) (fun _ _ => Function.update_self ..) (by simp) ?_ ?_
    ?_ h.inv.signalled) le_rfl⟩
  · simp only [shelves, Function.update_self]
    exact List.perm_append_singleton _ _
  · intro r hr
    cases r with
    | queue b => exact Function.update_of_ne (by rintro rfl; exact hr rfl) _ _
    | _ => rfl
  · have hroused := h.inv.roused.append (d := c) (x := t) (h.owes.trans howes)
      fun u st => h.not_dozing (by rw [hst]; rfl) st
    rwa [owed, if_pos rfl, ← h.owes.trans howes, Function.update_eq_self] at hroused

section Sleep

variable {posted : Fin n → Option Nat} {found : Fin n → Option (Nat × Bool)} {nextThread : Thread}
  {slept : Nat → Thread → Bool} {wcThreads : Chan → List Thread} {semCount : Nat → Nat} {w : Chan}

/-- Threads go to sleep on a semaphore only when its count is zero. -/
theorem Signalled.sleep (h : Signalled posted found nextThread slept wcThreads semCount)
    (hzero : ∀ x, w = .sem x → semCount x = 0) :
    Signalled posted found nextThread (w.noteSleeper slept t)
      (Function.update wcThreads w (wcThreads w ++ [t])) semCount := by
  have hkeep : ∀ x u, slept x u = true → w.noteSleeper slept t x u = true := by
    intro x u hu
    cases w with
    | cv y => exact hu
    | sem y =>
        show Function.update slept y (Function.update (slept y) t true) x u = true
        by_cases hx : x = y
        · subst hx
          rw [Function.update_self, Function.update_apply]
          split
          · rfl
          · exact hu
        · rwa [Function.update_of_ne hx]
  have hother : ∀ x, .sem x ≠ w → w.noteSleeper slept t x = slept x := by
    intro x hx
    cases w with
    | cv y => rfl
    | sem y => exact Function.update_of_ne (by rintro rfl; exact hx rfl) _ _
  refine ⟨fun u x hu => ?_, h.zero, fun x hne => ?_⟩
  · by_cases hx : .sem x = w
    · subst hx
      rw [Function.update_self, List.mem_append, List.mem_singleton] at hu
      rcases hu with hu | rfl
      · exact hkeep x u (h.sleepers u x hu)
      · simp [Chan.noteSleeper]
    · rw [Function.update_of_ne hx] at hu
      exact hkeep x u (h.sleepers u x hu)
  · by_cases hx : .sem x = w
    · rw [hzero x hx.symm]
      exact Nat.zero_le _
    · rw [Function.update_of_ne hx] at hne
      have hold := h.awake x hne
      unfold wokenFor at hold ⊢
      rwa [hother x hx, Function.update_of_ne hx]

end Sleep

theorem does_addChan {w : Chan} (hc : v.loc = some (.on c)) (hst : v.stage = .present)
    (hspl : v.spl = .high) (hlock : Spin.runqueue c ∈ v.locks)
    (hfound : ∀ x, w = .sem x → v.found = some (x, true)) :
    Does t v (change fun t _ s => { s with
        wcThreads := Function.update s.wcThreads w (s.wcThreads w ++ [t])
        slept := w.noteSleeper s.slept t }) fun _ v' =>
      v' = ({ v with stage := .departing .sleep }).put c := by
  refine does_change_at hc fun g s h => ⟨_, h.turns_depart (h.depart .sleep (.chan w)
    hst hspl hlock trivial (by simp [Place.Settled]) ⟨c, rfl⟩ (.inl ⟨w, rfl⟩)
    (fun _ _ => rfl) (by simp) (by simp) ?_ ?_ h.inv.roused
    (h.inv.signalled.sleep fun x hx => ?_)) le_rfl⟩
  · simp only [shelves, Function.update_self]
    exact List.perm_append_singleton _ _
  · intro r hr
    cases r with
    | chan w' => exact Function.update_of_ne (by rintro rfl; exact hr rfl) _ _
    | _ => rfl
  · exact (h.inv.signalled.zero c x true (h.found.trans (hfound x hx))).mp rfl

theorem does_addZombie (hc : v.loc = some (.on c)) (hst : v.stage = .present)
    (hspl : v.spl = .high) (hlock : Spin.runqueue c ∈ v.locks) (hproc : v.proc = some none) :
    Does t v (change fun t c s => { s with
        cZombies := Function.update s.cZombies c (s.cZombies c ++ [t]) }) fun _ v' =>
      v' = ({ v with stage := .departing .zombie }).put c := by
  refine does_change_at hc fun g s h => ⟨_, h.turns_depart (h.depart .zombie (.zombies c)
    hst hspl hlock trivial (by simp [Place.Settled]) rfl rfl (fun _ _ => rfl) (by simp)
    (fun _ _ => ?_) ?_ ?_ h.inv.roused h.inv.signalled) le_rfl⟩
  · exact h.inv.attached.known t none (h.proc.trans hproc)
  · simp only [shelves, Function.update_self]
    exact List.perm_append_singleton _ _
  · intro r hr
    cases r with
    | zombies b => exact Function.update_of_ne (by rintro rfl; exact hr rfl) _ _
    | _ => rfl

/-! ## Handing the processor over -/

/-- A thread in the hand of the current one that belongs to its processor. -/
theorem Here.away_hand (h : Here g s t c v) (hi : i ∈ v.hand) (hcpu : i.cpu = c)
    (hne : i.thread ≠ t) : g.loc i.thread = .away := by
  cases hloc : g.loc i.thread with
  | away => rfl
  | gone =>
      have hgone := h.inv.seated.gone i.thread hloc
      simp [h.place_hand hi] at hgone
  | on b =>
      have hb : s.tCpu i.thread = some b := by
        rw [← h.inv.seated.on i.thread b hloc]
        exact h.inv.seated.curCpu b
      rw [h.inv.seated.handCpu t i (h.hand ▸ hi), hcpu] at hb
      cases hb
      exact absurd (h.unique hloc) hne

/-- The current thread gives its processor to a thread in its hand, maybe itself. -/
theorem Here.switch (h : Here g s t c v) (hst : v.stage = .left st)
    (hlocks : v.locks = [.runqueue c]) (hspl : v.spl = .high) (howes : v.owes = none)
    (hi : i ∈ v.hand) (hcpu : i.cpu = c) :
    Core { g with
        place := Function.update g.place i.thread (.arriving c)
        loc := Function.update g.loc t (if st = .zombie then .gone else .away)
        stage := Function.update g.stage t .present
        hand := Function.update g.hand t ((g.hand t).erase i) }
      { s with cCurthread := Function.update s.cCurthread c i.thread } := by
  obtain ⟨u, b, r⟩ := i
  obtain rfl : b = c := hcpu
  have hmem : ⟨u, b, r⟩ ∈ g.hand t := h.hand ▸ hi
  have hplace : g.place u = .hand t := h.place_hand hi
  have hstage : g.stage t = .left st := h.stage.trans hst
  have hpermits := h.inv.seated.departed t b h.loc (by simp [hstage])
  rw [hstage] at hpermits
  have hhand : ∀ w, ∀ j ∈ Function.update g.hand t ((g.hand t).erase ⟨u, b, r⟩) w,
      j ∈ g.hand w := by
    intro w j hj
    by_cases hw : w = t
    · subst hw
      rw [Function.update_self] at hj
      exact List.mem_of_mem_erase hj
    · rwa [Function.update_of_ne hw] at hj
  have ho : HandsOver g.loc s.cCurthread t u b (if st = .zombie then .gone else .away) := by
    refine ⟨fun x hx => h.unique hx, h.cur, fun d => h.inv.cur_ne h.cur, ?_, ?_⟩
    · intro d
      split <;> simp
    · by_cases hut : u = t
      · -- a zombie is on its list, and not in a hand
        subst hut
        rw [Function.update_self, if_neg]
        rintro rfl
        rw [hplace] at hpermits
        cases hpermits
      · rw [Function.update_of_ne hut]
        exact h.away_hand hi rfl hut
  have hresettled : ∀ x, Function.update g.place u (.arriving b) x = g.place x ∨
      (g.place x).Settled ∧ (Function.update g.place u (.arriving b) x).Settled :=
    resettled_update (by simp [hplace, Place.Settled]) (by simp [Place.Settled])
  have hlocated : Located (Function.update g.place u (.arriving b))
      (Function.update g.loc t (if st = .zombie then .gone else .away))
      (Function.update g.stage t .present)
      (Function.update g.hand t ((g.hand t).erase ⟨u, b, r⟩)) g.fresh s.allocated s.nextThread
      s.cZombies s.cRunqueue s.wcThreads := by
    refine h.inv.located.move_of_exists (by simp [hplace]) (by simp) ?_ (by simp [ho.next])
      fun x _ => ho.present (by simp [hstage]) x
    refine h.inv.located.shelved.move (by rw [hplace]; simp) ?_ False.elim ?_
    · rw [hplace]
      intro _
      simp only [shelves, Function.update_self]
      exact (List.perm_cons_erase hmem).symm.map Item.thread
    · rw [hplace]
      intro p hp _
      cases p with
      | hand w => exact congrArg _ (Function.update_of_ne (by rintro rfl; exact hp rfl) _ _)
      | _ => rfl
  have hseated : Seated (Function.update g.place u (.arriving b))
      (Function.update g.loc t (if st = .zombie then .gone else .away))
      (Function.update g.stage t .present)
      (Function.update g.hand t ((g.hand t).erase ⟨u, b, r⟩)) g.fresh s.tCpu
      (Function.update s.cCurthread b u) s.cIsidle := by
    refine h.inv.seated.handOver ho h.loc (h.inv.seated.handCpu t _ hmem) (by rw [hstage]; rfl)
      hhand (fun d hd => ?_) fun hz => ?_
    · rw [hd] at hpermits
      cases st <;> simp [Stage.Permits] at hpermits ⊢
    · have hzombie : st = .zombie := by
        by_contra hst
        rw [if_neg hst] at hz
        cases hz
      subst hzombie
      exact hpermits
  have hstated : Stated (Function.update g.place u (.arriving b))
      (Function.update g.loc t (if st = .zombie then .gone else .away))
      (Function.update g.stage t .present)
      (Function.update g.hand t ((g.hand t).erase ⟨u, b, r⟩)) s.tState := by
    have hnot : ∀ x, g.stage t ≠ .departing x := by simp [hstage]
    refine h.inv.stated.move (fun x _ => ho.departing hnot x) (fun _ _ => rfl) (by simp)
      (.inr trivial) fun w j hj hr => ?_
    rw [ho.departing hnot]
    exact h.inv.stated.taken w j (hhand w j hj) hr
  have hunmasked : ∀ x, (Ghost.self { g with
      stage := Function.update g.stage t .present
      hand := Function.update g.hand t ((g.hand t).erase ⟨u, b, r⟩) } x).Unmasked :=
    h.inv.unmasked_of_apart (t := t) (fun x hx => by simp [Ghost.self, hx])
      fun hx => absurd (h.spl.symm.trans hx) (by simp [hspl])
  exact { h.inv.toCore with
    located := hlocated
    seated := hseated
    locked := h.inv.locked.handOver ho (h.held.trans hlocks) (h.owes.trans howes)
    levelled := (h.inv.levelled.shift hresettled).handOver ho h.loc (h.spl.trans hspl)
      (h.held.trans hlocks)
    unmasked := hunmasked
    stated := hstated
    roused := h.inv.roused.handOver ho (h.not_waiting (.inl (by simp [hst])))
    attached := h.inv.attached.shift hresettled fun x d hx =>
      .inl (ne_of_update (by simp) hx).2 }

theorem does_switch (hc : v.loc = some (.on c)) (hst : v.stage = .left st)
    (hlocks : v.locks = [.runqueue c]) (hspl : v.spl = .high) (howes : v.owes = none)
    (hi : i ∈ v.hand) (hcpu : i.cpu = c) :
    Does t v (switchframeSwitch i.thread) fun _ v' => v' =
      { v with
        stage := .present
        hand := v.hand.erase i
        toDesk := .clear
        loc := some (if st = .zombie then .gone else .away) } := by
  refine does_onCpu (.inr ⟨c, hc⟩) fun g s d h => ?_
  obtain rfl : d = c := View.At.eq h.put_self hc
  have halloc : s.allocated i.thread = true := by
    rw [h.inv.located.exists_iff, h.place_hand hi]
    simp
  rw [if_pos halloc]
  refine ⟨trivial, fun x s' hx => ?_⟩
  cases hx
  refine ⟨_, h.switch hst hlocks hspl howes hi hcpu, le_rfl, ?_, ?_⟩
  · constructor <;> intro _ hb <;> simp [Ghost.self, Ghost.desk, hb]
  · have hopen : ∀ w : View n, w.spl = v.spl → ¬ w.Open := by
      intro w hw hopen
      rw [hopen.1, hspl] at hw
      cases hw
    rw [Ghost.shown, View.hide_of_not_open (hopen _ h.spl)]
    simp only [Ghost.self, Function.update_self, h.spl, h.irq, h.proc, h.leaving, h.hand, h.fresh]
    split <;> rfl

/-! ## Getting the processor -/

theorem Ghost.away_of_shown (hv : g.shown t = v) (haway : v.loc = some .away) :
    g.loc t = .away ∧ g.self t = v.toSelf ∧ v.toDesk = .clear := by
  by_cases hopen : (View.mk (g.self t) (g.deskAt (g.loc t)) (some (g.loc t))).Open
  · rw [Ghost.shown, View.hide_of_open hopen] at hv
    rw [← hv] at haway
    cases haway
  · rw [Ghost.shown, View.hide_of_not_open hopen] at hv
    subst hv
    have hloc : g.loc t = .away := by simpa using haway
    refine ⟨hloc, rfl, ?_⟩
    show g.deskAt (g.loc t) = .clear
    rw [hloc]
    rfl

/-- A thread that has been given the processor `c` starts to execute. -/
theorem Inv.arrive (hi : Inv g s) (hc : s.cCurthread c = t) (haway : g.loc t = .away)
    (hstage : g.stage t = .present) :
    Core { g with
        place := Function.update g.place t .present
        loc := Function.update g.loc t (.on c)
        proc := Function.update g.proc t (some (s.tProc t))
        floor := Function.update g.floor c 0 }
      { s with tState := Function.update s.tState t .run } := by
  have hplace : g.place t = .arriving c := (hi.seated.arriving t c).mpr ⟨haway, hc⟩
  have hsettled : (g.place t).Settled := by simp [hplace, Place.Settled]
  have hcur : ∀ d, d ≠ c → s.cCurthread d ≠ t := fun _ => hi.cur_ne hc
  have hloc : ∀ x, x ≠ t → Function.update g.loc t (.on c) x = g.loc x :=
    fun x hx => Function.update_of_ne hx _ _
  have hdeparting : ∀ x, x ≠ t → (Departing (Function.update g.loc t (.on c) x) (g.stage x) ↔
      Departing (g.loc x) (g.stage x)) :=
    fun x hx => by rw [hloc x hx]
  have hstate : ∀ x, x ≠ t → Function.update s.tState t .run x = s.tState x :=
    fun x hx => Function.update_of_ne hx _ _
  have hresettled : ∀ x, Function.update g.place t .present x = g.place x ∨
      (g.place x).Settled ∧ (Function.update g.place t .present x).Settled :=
    resettled_update hsettled (by simp [Place.Settled])
  have hlocated : Located (Function.update g.place t .present) (Function.update g.loc t (.on c))
      g.stage g.hand g.fresh s.allocated s.nextThread s.cZombies s.cRunqueue s.wcThreads := by
    refine hi.located.move_of_exists hsettled.1 (by simp) ?_ (by simp [hstage]) fun x hx => by
      rw [hloc x hx]
    refine hi.located.shelved.move (by rw [hplace]; simp) ?_ False.elim fun _ _ _ => rfl
    rw [hplace]
    exact False.elim
  have hlevelled : Levelled (Function.update g.place t .present) (Function.update g.loc t (.on c))
      g.spl g.irq g.held s.tInInterrupt s.tCurspl s.tIplhighCount := by
    refine (hi.levelled.shift hresettled).arrive haway ?_ (hi.locked.arriving c (hc ▸ haway)).1
    rw [Function.update_self]
    simp [Place.Settled]
  have hstated : Stated (Function.update g.place t .present) (Function.update g.loc t (.on c))
      g.stage g.hand (Function.update s.tState t .run) := by
    refine hi.stated.move hdeparting hstate (by simp) (.inr trivial) fun w i him hr => ?_
    refine hi.stated.taken_of_ne hdeparting hstate him ?_ hr
    intro hit
    have hhand := hi.place_hand him
    rw [hit, hplace] at hhand
    cases hhand
  have hattached : Attached (Function.update g.place t .present) g.member
      (Function.update g.proc t (some (s.tProc t))) g.leaving g.fresh s.tProc s.nextThread
      s.pNumthreads := by
    refine (hi.attached.shift hresettled fun x d hx =>
      .inl (ne_of_update (by simp) hx).2).arrive fun w b hb hbt => ?_
    have hfresh := hi.place_fresh hb
    rw [hbt, hplace] at hfresh
    cases hfresh
  have hunmasked : ∀ x, (Ghost.self { g with
      proc := Function.update g.proc t (some (s.tProc t)) } x).Unmasked :=
    hi.unmasked_of_apart (t := t) (fun x hx => by simp [Ghost.self, hx])
      fun hx => absurd ((hi.levelled.awaySpl t haway).symm.trans hx) (by simp)
  exact { hi.toCore with
    located := hlocated
    seated := hi.seated.arrive hc hcur haway hstage
    locked := hi.locked.arrive hc hcur hstage
    levelled := hlevelled
    unmasked := hunmasked
    stated := hstated
    roused := hi.roused.arrive hc hcur haway hstage
    attached := hattached }

/-- The first thing a thread does when it gets a processor. -/
theorem does_arrive (haway : v.loc = some .away) (hst : v.stage = .present) :
    Does t v (setState .run) fun _ v' => ∃ c p, (∀ q, v.proc = some q → p = q) ∧
      (v.proc = none → p ≠ none) ∧
      v' = { v with proc := some p, locks := [.runqueue c], loc := some (.on c) } := by
  refine does_current fun g s c hi hc hv => ⟨trivial, fun x s' hx => ?_⟩
  cases hx
  obtain ⟨hloc, hself, hdesk⟩ := Ghost.away_of_shown hv haway
  have hstage : g.stage t = .present := (congrArg Self.stage hself).trans hst
  have hproc : g.proc t = v.proc := congrArg Self.proc hself
  obtain ⟨hheld, howes⟩ := hi.locked.arriving c (hc ▸ hloc)
  have hposted : g.posted c = none := Option.eq_none_iff_forall_ne_some.mpr fun x hx => by
    have hmem := hi.locked.posting c x hx
    simp [hheld] at hmem
  have hfound : g.found c = none := Option.eq_none_iff_forall_ne_some.mpr fun x hx => by
    have hmem := hi.locked.testing c x.1 x.2 hx
    simp [hheld] at hmem
  refine ⟨_, hi.arrive hc hloc hstage, le_rfl, ?_, c, s.tProc t, ?_, ?_, ?_⟩
  · constructor <;> intro _ hb <;> simp [Ghost.self, Ghost.desk, hb]
  · intro q hq
    exact hi.attached.known t q (hproc.trans hq)
  · intro hnone
    refine hi.attached.unstarted t ?_ (hproc.trans hnone)
    rw [(hi.seated.arriving t c).mpr ⟨hloc, hc⟩]
    simp [Place.Settled]
  · rw [← View.put_of_not_open (v := { v with proc := some (s.tProc t), locks := [.runqueue c] })
      (by simp [View.Open])]
    refine Ghost.shown_put (Function.update_self ..) ?_ ?_
    · rw [← hself]
      simp [Ghost.self]
    · simp [Ghost.desk, hheld, howes, hposted, hfound, hdesk, Desk.clear]

/-- A thread that has given up its processor for good does nothing any more. -/
theorem does_gone {f : Thread → Fin n → Sched n → Outcome (Wait n) (ρ × Sched n)}
    {Φ : ρ → View n → Prop} (hgone : v.loc = some .gone) : Does t v (onCpu f) Φ := by
  refine does_current fun g s c hi hc hv => absurd (hi.seated.cur c) ?_
  have hloc : g.loc t = .gone := by
    by_cases hopen : (View.mk (g.self t) (g.deskAt (g.loc t)) (some (g.loc t))).Open
    · rw [Ghost.shown, View.hide_of_open hopen] at hv
      rw [← hv] at hgone
      cases hgone
    · rw [Ghost.shown, View.hide_of_not_open hopen] at hv
      rw [← hv] at hgone
      simpa using hgone
  rw [hc, hloc]
  simp

/-! ## Counts of semaphores -/

section Counts

variable {posted : Fin n → Option Nat} {found : Fin n → Option (Nat × Bool)} {nextThread : Thread}
  {slept : Nat → Thread → Bool} {wcThreads : Chan → List Thread} {semCount : Nat → Nat} {x k : Nat}

/-- A thread that was woken, or one that came first, gets the semaphore. -/
theorem Signalled.down (h : Signalled posted found nextThread slept wcThreads semCount)
    (hother : ∀ b z, found b = some (x, z) → b = c) (hpos : semCount x ≠ 0)
    (ht : t ∉ wcThreads (.sem x)) :
    Signalled posted (Function.update found c none) nextThread
      (Function.update slept x (Function.update (slept x) t false)) wcThreads
      (Function.update semCount x (semCount x - 1)) := by
  refine ⟨fun u y hu => ?_, fun b y z hb => ?_, fun y hne => ?_⟩
  · by_cases hy : y = x
    · subst hy
      have hut : u ≠ t := by
        rintro rfl
        exact ht hu
      rw [Function.update_self, Function.update_of_ne hut]
      exact h.sleepers u y hu
    · rw [Function.update_of_ne hy]
      exact h.sleepers u y hu
  · have hbc : b ≠ c := by
      rintro rfl
      simp at hb
    rw [Function.update_of_ne hbc] at hb
    have hy : y ≠ x := by
      rintro rfl
      exact hbc (hother b z hb)
    rw [Function.update_of_ne hy]
    exact h.zero b y z hb
  · have hold := h.awake y hne
    by_cases hy : y = x
    · subst hy
      rw [Function.update_self]
      have hsub : (wokenFor nextThread slept wcThreads y).erase t ⊆ wokenFor nextThread
          (Function.update slept y (Function.update (slept y) t false)) wcThreads y := by
        intro u hu
        rw [Finset.mem_erase] at hu
        simp only [wokenFor, Finset.mem_filter, Function.update_self] at hu ⊢
        rw [Function.update_of_ne hu.1]
        exact hu.2
      have hcard := (Finset.pred_card_le_card_erase (a := t)).trans (Finset.card_le_card hsub)
      omega
    · rw [Function.update_of_ne hy]
      unfold wokenFor at hold ⊢
      rwa [Function.update_of_ne hy]

/-- A processor that has counted up the semaphore is going to wake a thread. -/
theorem Signalled.up (h : Signalled posted found nextThread slept wcThreads semCount)
    (hother : ∀ b z, found b ≠ some (x, z)) (hposted : posted c = none)
    (hk : k ≤ semCount x + 1) :
    Signalled (Function.update posted c (some x)) found nextThread slept wcThreads
      (Function.update semCount x k) := by
  refine ⟨h.sleepers, fun b y z hb => ?_, fun y hne => ?_⟩
  · have hy : y ≠ x := by
      rintro rfl
      exact hother b z hb
    rw [Function.update_of_ne hy]
    exact h.zero b y z hb
  · have hold := h.awake y hne
    by_cases hy : y = x
    · subst hy
      rw [Function.update_self]
      have hsub : insert c (Finset.univ.filter fun b => posted b = some y) ⊆
          Finset.univ.filter fun b => Function.update posted c (some y) b = some y := by
        intro b hb
        simp only [Finset.mem_insert, Finset.mem_filter, Finset.mem_univ, true_and] at hb ⊢
        rcases hb with rfl | hb
        · exact Function.update_self ..
        · rw [Function.update_apply]
          split
          · rfl
          · exact hb
      have hcard := Finset.card_le_card hsub
      rw [Finset.card_insert_of_notMem (by simp [hposted])] at hcard
      omega
    · rw [Function.update_of_ne hy]
      have hposts : (Finset.univ.filter fun b => Function.update posted c (some x) b = some y) =
          Finset.univ.filter fun b => posted b = some y := by
        refine Finset.filter_congr fun b _ => ?_
        by_cases hbc : b = c
        · subst hbc
          simp [hposted, Ne.symm hy]
        · rw [Function.update_of_ne hbc]
      rwa [hposts]

end Counts

/-- Only the holder of the semaphore's lock has looked at its count. -/
theorem Here.found_unique (h : Here g s t c v) {x : Nat} {z : Bool}
    (hlock : Spin.chan (.sem x) ∈ v.locks) (hd : g.found d = some (x, z)) : d = c := by
  have hother := (h.inv.locked.holder _ d).mpr (h.inv.locked.testing d x z hd)
  rw [← h.held, ← h.inv.locked.holder, hother] at hlock
  exact Option.some.inj hlock

theorem does_test {x : Nat} (hc : v.loc = some (.on c)) (hlock : Spin.chan (.sem x) ∈ v.locks) :
    Does t v (look fun _ _ s => s.semCount x) fun y v' =>
      v' = ({ v with found := some (x, decide (y = 0)) }).put c := by
  refine does_onCpu_at hc fun g s h => ⟨trivial, fun y s' hy => ?_⟩
  cases hy
  refine ⟨{ g with found := Function.update g.found c (some (x, decide (s.semCount x = 0))) }, _,
    rfl, { h.inv.toCore with
      locked := { h.inv.locked with testing := fun b y z hb => ?_ }
      signalled := { h.inv.signalled with zero := fun b y z hb => ?_ } }, le_rfl,
    ⟨fun _ _ => rfl, fun _ _ => rfl, fun b hb => by simp [Ghost.desk, hb]⟩, h.loc, h.self, ?_⟩
  · replace hb : Function.update g.found c (some (x, decide (s.semCount x = 0))) b = some (y, z) :=
      hb
    by_cases hbc : b = c
    · subst hbc
      rw [Function.update_self] at hb
      cases hb
      exact h.held ▸ hlock
    · rw [Function.update_of_ne hbc] at hb
      exact h.inv.locked.testing b y z hb
  · replace hb : Function.update g.found c (some (x, decide (s.semCount x = 0))) b = some (y, z) :=
      hb
    by_cases hbc : b = c
    · subst hbc
      rw [Function.update_self] at hb
      cases hb
      exact decide_eq_true_iff
    · rw [Function.update_of_ne hbc] at hb
      exact h.inv.signalled.zero b y z hb
  · simp [Ghost.desk, h.held, h.floor, h.owes, h.posted]

/-- `sem->sem_count--`, after it was found not to be zero. -/
theorem does_down {x : Nat} (hc : v.loc = some (.on c)) (hst : v.stage = .present)
    (hlock : Spin.chan (.sem x) ∈ v.locks) (hfound : v.found = some (x, false)) :
    Does t v (onCpu fun t _ s =>
        if 0 < s.semCount x then
          .ok ((), { s with
            semCount := Function.update s.semCount x (s.semCount x - 1)
            slept := Function.update s.slept x (Function.update (s.slept x) t false) })
        else .panic "sem->sem_count > 0 (P)")
      fun _ v' => v' = ({ v with found := none }).put c := by
  refine does_onCpu_at hc fun g s h => ?_
  have hpos : s.semCount x ≠ 0 := by
    intro hzero
    cases (h.inv.signalled.zero c x false (h.found.trans hfound)).mpr hzero
  rw [if_pos (Nat.pos_of_ne_zero hpos)]
  refine ⟨trivial, fun y s' hy => ?_⟩
  cases hy
  have hnot : t ∉ s.wcThreads (.sem x) := by
    intro hmem
    have hplace := (h.inv.located.shelved.mem (.chan (.sem x)) trivial t).mp hmem
    rw [(h.inv.located.present t).mpr ⟨⟨c, h.loc⟩, h.stage.trans hst⟩] at hplace
    cases hplace
  refine ⟨{ g with found := Function.update g.found c none }, _, rfl,
    { h.inv.toCore with
      locked := { h.inv.locked with testing := fun b y z hb => ?_ }
      signalled := h.inv.signalled.down (fun b z hb => h.found_unique hlock hb) hpos hnot }, le_rfl,
    ⟨fun _ _ => rfl, fun _ _ => rfl, fun b hb => by simp [Ghost.desk, hb]⟩, h.loc, h.self, ?_⟩
  · replace hb : Function.update g.found c none b = some (y, z) := hb
    by_cases hbc : b = c
    · subst hbc
      simp at hb
    · rw [Function.update_of_ne hbc] at hb
      exact h.inv.locked.testing b y z hb
  · simp [Ghost.desk, h.held, h.floor, h.owes, h.posted]

theorem does_up {x : Nat} (hc : v.loc = some (.on c)) (hlock : Spin.chan (.sem x) ∈ v.locks)
    (hposted : v.posted = none) (hfound : v.found = none) :
    Does t v (onCpu fun _ _ s =>
        if 0 < (s.semCount x + 1) % 2 ^ 32 then
          .ok ((), { s with
            semCount := Function.update s.semCount x ((s.semCount x + 1) % 2 ^ 32) })
        else .panic "sem->sem_count > 0 (V)") fun _ v' =>
          v' = ({ v with posted := some x }).put c := by
  refine does_onCpu_at hc fun g s h => ?_
  by_cases hwrap : 0 < (s.semCount x + 1) % 2 ^ 32
  · rw [if_pos hwrap]
    refine ⟨trivial, fun y s' hy => ?_⟩
    cases hy
    have hother : ∀ b z, g.found b ≠ some (x, z) := by
      intro b z hb
      rw [h.found_unique hlock hb, h.found, hfound] at hb
      cases hb
    refine ⟨{ g with posted := Function.update g.posted c (some x) }, _, rfl,
      { h.inv.toCore with
        locked := { h.inv.locked with posting := fun b y hb => ?_ }
        signalled := h.inv.signalled.up hother (h.posted.trans hposted) (Nat.mod_le _ _) }, le_rfl,
      ⟨fun _ _ => rfl, fun _ _ => rfl, fun b hb => by simp [Ghost.desk, hb]⟩, h.loc, h.self, ?_⟩
    · replace hb : Function.update g.posted c (some x) b = some y := hb
      by_cases hbc : b = c
      · subst hbc
        rw [Function.update_self] at hb
        cases hb
        exact h.held ▸ hlock
      · rw [Function.update_of_ne hbc] at hb
        exact h.inv.locked.posting b y hb
    · simp [Ghost.desk, h.held, h.floor, h.owes, h.found]
  · rw [if_neg hwrap]
    have hholder : s.splkHolder (.chan (.sem x)) = some c :=
      (h.inv.locked.holder _ c).mpr (h.held ▸ hlock)
    exact ⟨⟨rfl, c, x, h.cur, hholder, by omega⟩, fun y s' hy => by cases hy⟩

end Os161Paging.Threads
