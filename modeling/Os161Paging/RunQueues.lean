import Os161Paging.ThreadActions

/-!
# Threads that change lists

Threads are put on run queues and taken off them, and taken off wait
channels. Between two lists a thread is in the hand of the thread that
moves it. What keeps a thread from being put on a run queue while it still
executes is the lock of that queue, which its processor holds all through
`thread_switch` (`Here.not_departing`).
-/

namespace Os161Paging.Threads

open Prog

variable {n : Nat} {ρ : Type} {g g' : Ghost n} {s s' : Sched n} {t u : Thread} {c d : Fin n}
  {v v' : View n} {i : Item n}

/-! ## From list to list -/

namespace Place

/-- On a list from which the thread will be taken to run. -/
def IsListed : Place n → Prop
  | .queue _ | .chan _ | .hand _ => True
  | _ => False

theorem IsListed.settled {p : Place n} (h : p.IsListed) : p.Settled := by
  constructor
  · rintro rfl
    exact h
  · rintro t rfl
    exact h

end Place

/-- Some threads have been moved from one such list to another. -/
def Shifted (place place' : Thread → Place n) : Prop :=
  ∀ u, place' u = place u ∨ (place u).IsListed ∧ (place' u).IsListed

namespace Shifted

variable {place place' : Thread → Place n}

theorem eq_iff (h : Shifted place place') {p : Place n} (hp : ¬ p.IsListed) :
    place' u = p ↔ place u = p := by
  rcases h u with heq | ⟨hold, hnew⟩
  · rw [heq]
  · constructor
    · rintro rfl
      exact absurd hnew hp
    · rintro rfl
      exact absurd hold hp

theorem resettled (h : Shifted place place') (u : Thread) :
    place' u = place u ∨ (place u).Settled ∧ (place' u).Settled :=
  (h u).imp_right fun hu => ⟨hu.1.settled, hu.2.settled⟩

theorem relocate {l : List Thread} {q : Place n} (hl : ∀ x ∈ l, (place x).IsListed)
    (hq : q.IsListed) : Shifted place (relocate place l q) := by
  intro x
  unfold Os161Paging.relocate
  split
  · exact .inr ⟨hl x ‹_›, hq⟩
  · exact .inl rfl

theorem update {q : Place n} (hu : (place u).IsListed) (hq : q.IsListed) :
    Shifted place (Function.update place u q) := by
  rw [← relocate_singleton]
  exact relocate (by simpa using hu) hq

end Shifted

section Shift

variable {place place' : Thread → Place n} {member : Thread → Option Proc} {loc : Thread → Loc n}
  {stage : Thread → Stage} {spl : Thread → Ipl} {irq : Thread → Bool}
  {proc : Thread → Option (Option Proc)} {leaving : Thread → Bool}
  {hand hand' : Thread → List (Item n)} {fresh : Thread → Option (Newborn n)}
  {held : Fin n → List (Spin n)} {floor : Fin n → Nat} {owes : Fin n → Option (Fin n)}
  {posted : Fin n → Option Nat} {found : Fin n → Option (Nat × Bool)} {allocated : Thread → Bool}
  {tState tState' : Thread → ThreadState} {tCpu : Thread → Option (Fin n)}
  {tProc : Thread → Option Proc} {tInInterrupt : Thread → Bool} {tCurspl : Thread → Ipl}
  {tIplhighCount : Thread → Nat} {nextThread : Thread} {curthread : Fin n → Thread}
  {zombies : Fin n → List Thread} {spinlocks : Fin n → Nat} {isidle : Fin n → Bool}
  {runqueue runqueue' : Fin n → List Thread} {ipiPending : Fin n → Ipi → Bool}
  {waiting : Fin n → Waiting} {wcThreads wcThreads' : Chan → List Thread}
  {numthreads : Proc → Nat} {splkHolder : Spin n → Option (Fin n)}

theorem Located.shift
    (h : Located place loc stage hand fresh allocated nextThread zombies runqueue wcThreads)
    (hp : Shifted place place')
    (hs : Shelved Place.IsShelf place' (shelves hand' fresh zombies runqueue' wcThreads')) :
    Located place' loc stage hand' fresh allocated nextThread zombies runqueue' wcThreads' where
  shelved := hs
  present _ := (hp.eq_iff id).trans (h.present _)
  exists_iff _ := (h.exists_iff _).trans (hp.eq_iff id).not.symm
  bound _ hu := h.bound _ fun habs => hu ((hp.eq_iff id).mpr habs)

theorem Seated.shift (h : Seated place loc stage hand fresh tCpu curthread isidle)
    (hp : Shifted place place') (hfits : ∀ u, place' u ≠ place u → (place' u).Fits (tCpu u))
    (hhand : ∀ t, ∀ i ∈ hand' t, tCpu i.thread = some i.cpu)
    (hpermits : ∀ u c, loc u = .on c → stage u ≠ .present → place' u ≠ place u →
      (stage u).Permits c (place' u)) :
    Seated place' loc stage hand' fresh tCpu curthread isidle where
  on := h.on
  cur := h.cur
  arriving _ c := (hp.eq_iff id).trans (h.arriving _ c)
  curCpu := h.curCpu
  cpu u := by
    by_cases hu : place' u = place u
    · exact hu ▸ h.cpu u
    · exact hfits u hu
  handCpu := hhand
  freshCpu := h.freshCpu
  departed u c hu hst := by
    by_cases hpu : place' u = place u
    · exact hpu ▸ h.departed u c hu hst
    · exact hpermits u c hu hst hpu
  idle := h.idle
  dead _ c hu := h.dead _ c ((hp.eq_iff id).mp hu)
  gone u hu := by
    rcases h.gone u hu with ⟨c, hz⟩ | habs
    · exact .inl ⟨c, (hp.eq_iff id).mpr hz⟩
    · exact .inr ((hp.eq_iff id).mpr habs)

theorem Levelled.shift (h : Levelled place loc spl irq held tInInterrupt tCurspl tIplhighCount)
    (hp : ∀ u, place' u = place u ∨ (place u).Settled ∧ (place' u).Settled) :
    Levelled place' loc spl irq held tInInterrupt tCurspl tIplhighCount where
  on := h.on
  away u hu hset := by
    rcases hp u with heq | ⟨hold, -⟩
    · exact h.away u hu (heq ▸ hset)
    · exact h.away u hu hold
  newborn u b hu := by
    rcases hp u with heq | ⟨-, hnew⟩
    · exact h.newborn u b (heq ▸ hu)
    · exact absurd hu (hnew.2 b)
  awaySpl := h.awaySpl
  inInterrupt u hu := by
    rcases hp u with heq | ⟨hold, -⟩
    · exact h.inInterrupt u (heq ▸ hu)
    · exact h.inInterrupt u hold.1

theorem Attached.shift
    (h : Attached place member proc leaving fresh tProc nextThread numthreads)
    (hp : ∀ u, place' u = place u ∨ (place u).Settled ∧ (place' u).Settled)
    (hzombies : ∀ u c, place' u = .zombies c → place u = .zombies c ∨ tProc u = none) :
    Attached place' member proc leaving fresh tProc nextThread numthreads where
  known := h.known
  unstarted u hu := by
    rcases hp u with heq | ⟨hold, -⟩
    · exact h.unstarted u (heq ▸ hu)
    · exact h.unstarted u hold
  zombies u c hu := (hzombies u c hu).elim (h.zombies u c) id
  newborn := h.newborn
  counted u hu := by
    rcases hp u with heq | ⟨hold, -⟩
    · exact h.counted u (heq ▸ hu)
    · exact h.counted u hold
  absent u hu := by
    rcases hp u with heq | ⟨-, hnew⟩
    · exact h.absent u (heq ▸ hu)
    · exact absurd hu hnew.1
  total := h.total

/-- A thread is told that it is ready when it gets to a run queue, and keeps that while it
is in somebody's hand. -/
theorem Stated.shift (h : Stated place loc stage hand tState)
    (hstate : ∀ u, tState' u = tState u ∨ tState' u = .ready ∧ ∃ c, place' u = .queue c)
    (hqueue : ∀ u c, place' u = .queue c → place u = .queue c ∨ tState' u = .ready)
    (hplace : ∀ u, place' u = place u ∨ (∃ c, place' u = .queue c) ∨ ∃ t, place' u = .hand t)
    (htaken : ∀ t, ∀ i ∈ hand' t, i ∈ hand t ∨ (i.ready = true →
      tState' i.thread = .ready ∧ ¬ Departing (loc i.thread) (stage i.thread))) :
    Stated place' loc stage hand' tState' := by
  have hready : ∀ u c, place' u = .queue c → tState' u = .ready := by
    intro u c hu
    rcases hqueue u c hu with hold | hnew
    · rcases hstate u with heq | ⟨hr, -⟩
      · rw [heq]
        exact h.queue u c hold
      · exact hr
    · exact hnew
  refine ⟨hready, fun u => ?_, fun t i hi hr => ?_⟩
  · rcases hplace u with heq | ⟨c, hc⟩ | ⟨t, ht⟩
    · rw [heq]
      rcases hstate u with hsame | ⟨-, c, hc⟩
      · rw [hsame]
        exact h.told u
      · rw [← heq, hc]
        exact .inr (hready u c hc)
    · rw [hc]
      exact .inr (hready u c hc)
    · rw [ht]
      exact .inr trivial
  · rcases htaken t i hi with hold | hnew
    · obtain ⟨hst, hdep⟩ := h.taken t i hold hr
      refine ⟨?_, hdep⟩
      rcases hstate i.thread with heq | ⟨heq, -⟩
      · rw [heq, hst]
      · exact heq
    · exact hnew hr

/-- Whom a processor `c` has to see to after it has put a thread on the run queue of `d`. -/
def owed (c d : Fin n) : Option (Fin n) := if d = c then none else some d

theorem Locked.owe (h : Locked loc stage held owes posted found curthread spinlocks splkHolder)
    (hon : loc (curthread c) = .on c) (hlock : Spin.runqueue d ∈ held c) :
    Locked loc stage held (Function.update owes c (owed c d)) posted found curthread spinlocks
      splkHolder := by
  refine { h with arriving := fun b hb => ⟨(h.arriving b hb).1, ?_⟩, owing := fun b e he => ?_ }
  · have hbc : b ≠ c := by
      rintro rfl
      rw [hon] at hb
      cases hb
    rw [Function.update_of_ne hbc]
    exact (h.arriving b hb).2
  · by_cases hbc : b = c
    · subst hbc
      rw [Function.update_self, owed] at he
      split at he
      · cases he
      · cases he
        exact ⟨hlock, ‹_›⟩
    · rw [Function.update_of_ne hbc] at he
      exact h.owing b e he

/-- A thread more on the run queue of `d`: if `d` sleeps, `c` will see to it. -/
theorem Roused.append
    (h : Roused loc stage held floor owes curthread runqueue ipiPending waiting) {x : Thread}
    (howes : owes c = none) (hown : ∀ u st, loc u = .on c → stage u ≠ .dozing st) :
    Roused loc stage held floor (Function.update owes c (owed c d)) curthread
      (Function.update runqueue d (runqueue d ++ [x])) ipiPending waiting := by
  refine ⟨fun b => ?_, fun u b st hu hst => ?_, h.asleep⟩
  · by_cases hbd : b = d
    · subst hbd
      have := h.atLeast b
      rw [Function.update_self, List.length_append]
      omega
    · rw [Function.update_of_ne hbd]
      exact h.atLeast b
  · by_cases hbd : b = d
    · subst hbd
      have hbc : b ≠ c := by
        rintro rfl
        exact hown u st hu hst
      refine .inr (.inr ⟨c, ?_⟩)
      rw [Function.update_self, owed, if_neg hbc]
    · rw [Function.update_of_ne hbd]
      rcases h.doze u b st hu hst with hempty | hpending | ⟨e, he⟩
      · exact .inl hempty
      · exact .inr (.inl hpending)
      · refine .inr (.inr ⟨e, ?_⟩)
        have hec : e ≠ c := by
          rintro rfl
          rw [howes] at he
          cases he
        rwa [Function.update_of_ne hec]

end Shift

/-! ## What locks and stages exclude -/

namespace Stage

/-- Outside of `thread_switch`, or in the idle loop and interrupted there. -/
def calm : Stage → Bool
  | .present | .idle _ => true
  | _ => false

/-- A thread on its way out whose state has been set may be on any list. -/
theorem Permits.shift {st : Stage} {p q : Place n} (h : st.Permits c p) (hp : p.IsListed)
    (hst : st ≠ .present) (hdep : ∀ x, st ≠ .departing x)
    (hq : q = .queue c ∨ (∃ w, q = .chan w) ∨ ∃ t, q = .hand t) : st.Permits c q := by
  cases st with
  | present => exact absurd rfl hst
  | departing x => exact absurd rfl (hdep x)
  | left x | idle x | dozing x =>
      cases x with
      | zombie =>
          simp only [Permits] at h
          subst h
          exact hp.elim
      | _ => exact hq

theorem Permits.wake {st : Stage} {w : Chan} (h : st.Permits c (.chan w)) :
    st.Permits c (.hand t) := by
  cases st with
  | present => trivial
  | departing x | left x | idle x | dozing x => cases x <;> simp [Permits] at h ⊢

end Stage

namespace Inv

theorem place_hand (hi : Inv g s) (him : i ∈ g.hand t) : g.place i.thread = .hand t :=
  (hi.located.shelved.mem (.hand t) trivial i.thread).mp (List.mem_map_of_mem him)

theorem place_fresh (hi : Inv g s) {b : Newborn n} (hb : b ∈ g.fresh t) :
    g.place b.thread = .fresh t := by
  refine (hi.located.shelved.mem (.fresh t) trivial b.thread).mp ?_
  rw [Option.mem_def] at hb
  simp [shelves, hb]

end Inv

namespace Here

theorem place_hand (h : Here g s t c v) (hi : i ∈ v.hand) : g.place i.thread = .hand t :=
  h.inv.place_hand (h.hand ▸ hi)

theorem not_dozing (h : Here g s t c v) (hcalm : v.stage.calm = true) (st : ThreadState)
    (hu : g.loc u = .on c) : g.stage u ≠ .dozing st := by
  rw [h.unique hu, h.stage]
  intro hst
  simp [hst, Stage.calm] at hcalm

/-- Whoever holds the lock of the run queue in `t_cpu` does not find the thread on its
way out. -/
theorem not_departing (h : Here g s t c v) (hcalm : v.stage.calm = true)
    (hlock : Spin.runqueue d ∈ v.locks) (hcpu : s.tCpu u = some d) :
    ¬ Departing (g.loc u) (g.stage u) := by
  rintro ⟨⟨b, hb⟩, x, hx⟩
  have hbd : s.tCpu u = some b := by
    rw [← h.inv.seated.on u b hb]
    exact h.inv.seated.curCpu b
  obtain rfl : b = d := by simpa [hcpu] using hbd.symm
  have hown := h.inv.locked.switching u b hb (by rw [hx]; rfl)
  rw [← h.held, ← h.inv.locked.holder, (h.inv.locked.holder _ b).mpr hown] at hlock
  obtain rfl : b = c := Option.some.inj hlock
  rw [h.unique hb, h.stage] at hx
  simp [hx, Stage.calm] at hcalm

end Here

/-! ## Onto a run queue -/

/-- The thread `i` goes from the hand of the current thread to the run queue of its
processor, and is ready there. -/
theorem Here.append (h : Here g s t c v) (hi : i ∈ v.hand) (hlock : Spin.runqueue i.cpu ∈ v.locks)
    (howes : v.owes = none) (hcalm : v.stage.calm = true) {tState' : Thread → ThreadState}
    (hstate : ∀ u, tState' u = s.tState u ∨ tState' u = .ready ∧ u = i.thread)
    (hready : tState' i.thread = .ready) :
    Core { g with
        place := Function.update g.place i.thread (.queue i.cpu)
        hand := Function.update g.hand t ((g.hand t).erase i)
        owes := Function.update g.owes c (owed c i.cpu) }
      { s with
        tState := tState'
        cRunqueue := Function.update s.cRunqueue i.cpu (s.cRunqueue i.cpu ++ [i.thread]) } := by
  have hold := h.place_hand hi
  have hmem : i ∈ g.hand t := h.hand ▸ hi
  have hcpu := h.inv.seated.handCpu t i hmem
  have hshift : Shifted g.place (Function.update g.place i.thread (.queue i.cpu)) :=
    .update (by rw [hold]; trivial) trivial
  have hne : ∀ u, Function.update g.place i.thread (.queue i.cpu) u ≠ g.place u → u = i.thread := by
    intro u hu
    by_contra hne
    exact hu (Function.update_of_ne hne _ _)
  have hsub : ∀ b, ∀ j ∈ Function.update g.hand t ((g.hand t).erase i) b, j ∈ g.hand b := by
    intro b j hj
    by_cases hb : b = t
    · subst hb
      rw [Function.update_self] at hj
      exact List.mem_of_mem_erase hj
    · rwa [Function.update_of_ne hb] at hj
  refine { h.inv.toCore with
    located := h.inv.located.shift hshift ?_
    seated := h.inv.seated.shift hshift ?_ (fun b j hj => h.inv.seated.handCpu b j (hsub b j hj)) ?_
    locked := h.inv.locked.owe (h.cur ▸ h.loc) (h.held ▸ hlock)
    levelled := h.inv.levelled.shift hshift.resettled
    stated := h.inv.stated.shift ?_ ?_ ?_ fun b j hj => .inl (hsub b j hj)
    roused := h.inv.roused.append (h.owes.trans howes) fun u st => h.not_dozing hcalm st
    attached := h.inv.attached.shift hshift.resettled
      fun u b hu => .inl ((hshift.eq_iff id).mp hu) }
  · refine h.inv.located.shelved.move (by rw [hold]; simp) ?_ ?_ ?_
    · rw [hold]
      intro _
      simp only [shelves, Function.update_self]
      exact (List.perm_cons_erase hmem).symm.map Item.thread
    · intro _
      simp only [shelves, Function.update_self]
      exact List.perm_append_singleton _ _
    · rw [hold]
      intro r hrp hrq
      cases r with
      | queue b => exact Function.update_of_ne (by rintro rfl; exact hrq rfl) _ _
      | hand b =>
          exact congrArg _ (Function.update_of_ne (by rintro rfl; exact hrp rfl) _ _)
      | _ => rfl
  · intro u hu
    rw [hne u hu]
    show (Function.update g.place i.thread (.queue i.cpu) i.thread).Fits _
    rw [Function.update_self]
    exact hcpu
  · intro u b hu hst hchange
    obtain rfl := hne u hchange
    show (g.stage i.thread).Permits b (Function.update g.place i.thread (.queue i.cpu) i.thread)
    rw [Function.update_self]
    have hb : s.tCpu i.thread = some b := by
      rw [← h.inv.seated.on i.thread b hu]
      exact h.inv.seated.curCpu b
    obtain rfl : i.cpu = b := by simpa [hcpu] using hb
    have hpermits := h.inv.seated.departed i.thread i.cpu hu hst
    refine hpermits.shift (by rw [hold]; trivial) hst (fun x hx => ?_) (.inl rfl)
    exact h.not_departing hcalm hlock hcpu ⟨⟨_, hu⟩, x, hx⟩
  · intro u
    rcases hstate u with hsame | ⟨hr, rfl⟩
    · exact .inl hsame
    · exact .inr ⟨hr, i.cpu, Function.update_self ..⟩
  · intro u b hu
    by_cases hut : u = i.thread
    · exact .inr (hut ▸ hready)
    · exact .inl ((Function.update_of_ne hut _ _).symm.trans hu)
  · intro u
    by_cases hut : u = i.thread
    · subst hut
      exact .inr (.inl ⟨i.cpu, Function.update_self ..⟩)
    · exact .inl (Function.update_of_ne hut _ _)

theorem does_enqueue (hc : v.loc = some (.on c)) (hi : i ∈ v.hand)
    (hlock : Spin.runqueue i.cpu ∈ v.locks) (howes : v.owes = none) (hcalm : v.stage.calm = true) :
    Does t v (change fun _ _ s => s.enqueue i.cpu i.thread) fun _ v' =>
      v' = ({ v with hand := v.hand.erase i, owes := owed c i.cpu }).put c := by
  refine does_change_at hc fun g s h => ⟨_, h.append hi hlock howes hcalm (fun u => ?_)
    (Function.update_self ..), le_rfl, ?_, h.loc, ?_, ?_⟩
  · by_cases hut : u = i.thread
    · exact .inr ⟨hut ▸ Function.update_self .., hut⟩
    · exact .inl (Function.update_of_ne hut _ _)
  · constructor <;> intro _ hb <;> simp [Ghost.self, Ghost.desk, hb]
  · simp [Ghost.self, h.stage, h.spl, h.irq, h.proc, h.leaving, h.hand, h.fresh]
  · simp [Ghost.desk, h.held, h.floor, h.posted, h.found]

/-- `thread_consider_migration` has set `t_cpu` itself, of a thread that was ready. -/
theorem does_addtail {F : Thread → Fin n → Sched n → Sched n} (hc : v.loc = some (.on c))
    (hF : ∀ s, F t c s = s.addtail i.cpu i.thread) (hi : i ∈ v.hand) (hready : i.ready = true)
    (hlock : Spin.runqueue i.cpu ∈ v.locks) (howes : v.owes = none) (hcalm : v.stage.calm = true) :
    Does t v (change F) fun _ v' =>
      v' = ({ v with hand := v.hand.erase i, owes := owed c i.cpu }).put c := by
  refine does_change_at hc fun g s h => ?_
  rw [hF]
  refine ⟨_, h.append hi hlock howes hcalm (fun _ => .inl rfl)
    (h.inv.stated.taken t i (h.hand ▸ hi) hready).1, le_rfl, ?_, h.loc, ?_, ?_⟩
  · constructor <;> intro _ hb <;> simp [Ghost.self, Ghost.desk, hb]
  · simp [Ghost.self, h.stage, h.spl, h.irq, h.proc, h.leaving, h.hand, h.fresh]
  · simp [Ghost.desk, h.held, h.floor, h.posted, h.found]

/-- A processor that is not idle need not be roused. -/
theorem does_rouse {f : Thread → Fin n → Sched n → Bool} (hc : v.loc = some (.on c))
    (howes : v.owes = owed c d) (hf : ∀ s, f t c s = (s.cIsidle d && decide (d ≠ c))) :
    Does t v (look f) fun x v' =>
      x = true ∧ d ≠ c ∧ v' = v ∨ x = false ∧ v' = ({ v with owes := none }).put c := by
  refine does_onCpu_at hc fun g s h => ⟨trivial, fun x s' hx => ?_⟩
  cases hx
  cases hb : f t c s with
  | true =>
      have hdc : d ≠ c := by
        rw [hf, Bool.and_eq_true, decide_eq_true_eq] at hb
        exact hb.2
      exact ⟨g, v, .inl ⟨rfl, hdc, h.put_self⟩, h.inv.toCore, le_rfl,
        ⟨fun _ _ => rfl, fun _ _ => rfl, fun _ _ => rfl⟩, h.loc, h.self, h.desk⟩
  | false =>
      refine ⟨{ g with owes := Function.update g.owes c none }, _, .inr ⟨rfl, rfl⟩,
        { h.inv.toCore with
          locked := h.inv.locked.settle
          roused := h.inv.roused.settle fun b u st howed hu hst => ?_ }, le_rfl,
        ⟨fun _ _ => rfl, fun _ _ => rfl, fun b hb => by simp [Ghost.desk, hb]⟩, h.loc, h.self, ?_⟩
      · -- a processor in the idle loop says so in `c_isidle`
        have hidle : s.cIsidle b = true := by
          rw [h.inv.seated.idle, h.inv.seated.on u b hu]
          exact ⟨hu, by rw [hst]; rfl⟩
        rw [h.owes, howes, owed] at howed
        split at howed
        · cases howed
        · cases howed
          simp [hf, hidle] at hb
          contradiction
      · simp [Ghost.desk, h.held, h.floor, h.posted, h.found]

/-! ## Off a list -/

/-- The threads of `is` go from one list to the hand of the current thread. -/
theorem Here.grab (h : Here g s t c v) (is : List (Item n)) {p : Place n} (hp : p.IsListed)
    (hpt : p ≠ .hand t) {runqueue' : Fin n → List Thread} {wcThreads' : Chan → List Thread}
    {floor' : Fin n → Nat} {posted' : Fin n → Option Nat}
    (hfrom : (is.map Item.thread ++
        shelves g.hand g.fresh s.cZombies runqueue' wcThreads' p).Perm
      (shelves g.hand g.fresh s.cZombies s.cRunqueue s.wcThreads p))
    (hother : ∀ r, r ≠ p → shelves g.hand g.fresh s.cZombies runqueue' wcThreads' r =
      shelves g.hand g.fresh s.cZombies s.cRunqueue s.wcThreads r)
    (hcpu : ∀ i ∈ is, s.tCpu i.thread = some i.cpu)
    (hpermits : ∀ i ∈ is, ∀ b, g.loc i.thread = .on b → g.stage i.thread ≠ .present →
      (g.stage i.thread).Permits b (.hand t))
    (hready : ∀ i ∈ is, i.ready = true → s.tState i.thread = .ready ∧
      ¬ Departing (g.loc i.thread) (g.stage i.thread))
    (hlocked : Locked g.loc g.stage g.held g.owes posted' g.found s.cCurthread s.cSpinlocks
      s.splkHolder)
    (hroused : Roused g.loc g.stage g.held floor' g.owes s.cCurthread runqueue' s.cIpiPending
      s.waiting)
    (hsignalled : Signalled posted' g.found s.nextThread s.slept wcThreads' s.semCount) :
    Core { g with
        place := relocate g.place (is.map Item.thread) (.hand t)
        hand := Function.update g.hand t (is ++ g.hand t)
        floor := floor'
        posted := posted' }
      { s with cRunqueue := runqueue', wcThreads := wcThreads' } := by
  have hshelf : p.IsShelf := by cases p <;> trivial
  have hnodup := hfrom.nodup_iff.mpr (h.inv.located.shelved.nodup p hshelf)
  have hplace : ∀ x ∈ is.map Item.thread, g.place x = p := by
    intro x hx
    rw [← h.inv.located.shelved.mem p hshelf, ← hfrom.mem_iff]
    exact List.mem_append_left _ hx
  have hshift : Shifted g.place (relocate g.place (is.map Item.thread) (.hand t)) :=
    .relocate (fun x hx => by rw [hplace x hx]; exact hp) trivial
  have hmoved : ∀ u, relocate g.place (is.map Item.thread) (.hand t) u = g.place u ∨
      u ∈ is.map Item.thread ∧ relocate g.place (is.map Item.thread) (.hand t) u = .hand t := by
    intro u
    unfold relocate
    split
    · exact .inr ⟨‹_›, rfl⟩
    · exact .inl rfl
  have hmem : ∀ b, ∀ i ∈ Function.update g.hand t (is ++ g.hand t) b, i ∈ is ∨ i ∈ g.hand b := by
    intro b i hi
    by_cases hb : b = t
    · subst hb
      rw [Function.update_self, List.mem_append] at hi
      exact hi
    · rw [Function.update_of_ne hb] at hi
      exact .inr hi
  have hshelved : Shelved Place.IsShelf (relocate g.place (is.map Item.thread) (.hand t))
      (shelves (Function.update g.hand t (is ++ g.hand t)) g.fresh s.cZombies runqueue'
        wcThreads') := by
    have hsame : ∀ r, r ≠ .hand t →
        shelves (Function.update g.hand t (is ++ g.hand t)) g.fresh s.cZombies runqueue'
          wcThreads' r = shelves g.hand g.fresh s.cZombies runqueue' wcThreads' r := by
      intro r hr
      cases r with
      | hand b => exact congrArg _ (Function.update_of_ne (by rintro rfl; exact hr rfl) _ _)
      | _ => rfl
    refine h.inv.located.shelved.moveAll hpt (List.nodup_append.mp hnodup).1 hplace ?_ ?_ ?_
    · intro _
      rw [hsame p hpt]
      exact hfrom
    · intro _
      simp only [shelves, Function.update_self, List.map_append]
      exact .refl _
    · intro r hrp hrq
      rw [hsame r hrq]
      exact hother r hrp
  have hseated : Seated (relocate g.place (is.map Item.thread) (.hand t)) g.loc g.stage
      (Function.update g.hand t (is ++ g.hand t)) g.fresh s.tCpu s.cCurthread s.cIsidle := by
    refine h.inv.seated.shift hshift (fun u hu => ?_) (fun b i hi => ?_) fun u b hu hst hne => ?_
    · rw [((hmoved u).resolve_left hu).2]
      trivial
    · rcases hmem b i hi with hnew | hold
      · exact hcpu i hnew
      · exact h.inv.seated.handCpu b i hold
    · obtain ⟨hin, heq⟩ := (hmoved u).resolve_left hne
      obtain ⟨i, hi, rfl⟩ := List.mem_map.mp hin
      rw [heq]
      exact hpermits i hi b hu hst
  have hstated : Stated (relocate g.place (is.map Item.thread) (.hand t)) g.loc g.stage
      (Function.update g.hand t (is ++ g.hand t)) s.tState := by
    refine h.inv.stated.shift (fun _ => .inl rfl) (fun u b hu => ?_) (fun u => ?_) fun b i hi => ?_
    · rcases hmoved u with hsame | ⟨-, heq⟩
      · exact .inl (hsame ▸ hu)
      · rw [heq] at hu
        cases hu
    · exact (hmoved u).imp_right fun hu => .inr ⟨t, hu.2⟩
    · exact (hmem b i hi).symm.imp_right (hready i)
  exact { h.inv.toCore with
    located := h.inv.located.shift hshift hshelved
    seated := hseated
    locked := hlocked
    levelled := h.inv.levelled.shift hshift.resettled
    stated := hstated
    roused := hroused
    attached := h.inv.attached.shift hshift.resettled fun u b hu => .inl ((hshift.eq_iff id).mp hu)
    signalled := hsignalled }

section Wake

variable {place : Thread → Place n} {loc : Thread → Loc n} {stage : Thread → Stage}
  {held : Fin n → List (Spin n)} {floor : Fin n → Nat} {owes : Fin n → Option (Fin n)}
  {posted : Fin n → Option Nat} {found : Fin n → Option (Nat × Bool)} {nextThread : Thread}
  {slept : Nat → Thread → Bool}
  {curthread : Fin n → Thread} {spinlocks : Fin n → Nat} {runqueue : Fin n → List Thread}
  {ipiPending : Fin n → Ipi → Bool} {waiting : Fin n → Waiting} {wcThreads : Chan → List Thread}
  {semCount : Nat → Nat} {splkHolder : Spin n → Option (Fin n)} {w : Chan} {us : List Thread}

theorem Locked.post (h : Locked loc stage held owes posted found curthread spinlocks splkHolder) :
    Locked loc stage held owes (Function.update posted c none) found curthread spinlocks
      splkHolder := by
  refine { h with posting := fun b x hx => ?_ }
  by_cases hbc : b = c
  · simp [hbc] at hx
  · rw [Function.update_of_ne hbc] at hx
    exact h.posting b x hx

/-- Processors that have counted up another semaphore do not matter. -/
theorem posted_update {y : Nat} (h : posted c ≠ some y) :
    (Finset.univ.filter fun b => Function.update posted c none b = some y) =
      Finset.univ.filter fun b => posted b = some y := by
  refine Finset.filter_congr fun b _ => ?_
  by_cases hbc : b = c
  · subst hbc
    simp [h]
  · rw [Function.update_of_ne hbc]

theorem Signalled.wakeNone (h : Signalled posted found nextThread slept wcThreads semCount)
    (hw : wcThreads w = []) (hposted : ∀ x, posted c = some x → w = .sem x) :
    Signalled (Function.update posted c none) found nextThread slept wcThreads semCount := by
  refine { h with awake := fun y hne => ?_ }
  have hy : posted c ≠ some y := by
    intro hy
    rw [hposted y hy] at hw
    exact hne hw
  rw [posted_update hy]
  exact h.awake y hne

/-- The thread that is woken goes on to the semaphore that was counted up. -/
theorem Signalled.wake (h : Signalled posted found nextThread slept wcThreads semCount)
    (hw : wcThreads w = u :: us) (hus : u ∉ us) (hbound : u < nextThread)
    (hposted : ∀ x, posted c = some x → w = .sem x) :
    Signalled (Function.update posted c none) found nextThread slept
      (Function.update wcThreads w us) semCount := by
  have hsub : ∀ w' x, x ∈ Function.update wcThreads w us w' → x ∈ wcThreads w' := by
    intro w' x hx
    by_cases hw' : w' = w
    · subst hw'
      rw [Function.update_self] at hx
      rw [hw]
      exact List.mem_cons_of_mem _ hx
    · rwa [Function.update_of_ne hw'] at hx
  refine ⟨fun x y hx => h.sleepers x y (hsub _ x hx), h.zero, fun y hne => ?_⟩
  by_cases hwy : .sem y = w
  · subst hwy
    have hold := h.awake y (by rw [hw]; simp)
    have hwoken : insert u (wokenFor nextThread slept wcThreads y) ⊆
        wokenFor nextThread slept (Function.update wcThreads (.sem y) us) y := by
      intro x hx
      rw [Finset.mem_insert] at hx
      simp only [wokenFor, Finset.mem_filter, Finset.mem_range, Function.update_self] at hx ⊢
      rcases hx with rfl | ⟨hlt, hsl, hnot⟩
      · exact ⟨hbound, h.sleepers x y (by rw [hw]; simp), hus⟩
      · refine ⟨hlt, hsl, fun hmem => hnot ?_⟩
        rw [hw]
        exact List.mem_cons_of_mem _ hmem
    have hnot : u ∉ wokenFor nextThread slept wcThreads y := by
      simp [wokenFor, hw]
    have hcard := Finset.card_le_card hwoken
    rw [Finset.card_insert_of_notMem hnot] at hcard
    have hsubset : (Finset.univ.filter fun b => posted b = some y).erase c ⊆
        Finset.univ.filter fun b => Function.update posted c none b = some y := by
      intro b hb
      simp only [Finset.mem_erase, Finset.mem_filter, Finset.mem_univ, true_and] at hb ⊢
      rw [Function.update_of_ne hb.1]
      exact hb.2
    have hposts := (Finset.pred_card_le_card_erase (a := c)).trans (Finset.card_le_card hsubset)
    omega
  · rw [posted_update fun hy => hwy (hposted y hy).symm]
    rw [Function.update_of_ne hwy] at hne
    have hold := h.awake y hne
    unfold wokenFor at hold ⊢
    rwa [Function.update_of_ne hwy]

theorem Signalled.wakeAll (h : Signalled posted found nextThread slept wcThreads semCount) :
    Signalled posted found nextThread slept (Function.update wcThreads w []) semCount := by
  have hsub : ∀ w', Function.update wcThreads w [] w' ≠ [] → w' ≠ w := by
    rintro w' hne rfl
    simp at hne
  refine ⟨fun x y hx => ?_, h.zero, fun y hne => ?_⟩
  · have hwy := hsub _ (List.ne_nil_of_mem hx)
    rw [Function.update_of_ne hwy] at hx
    exact h.sleepers x y hx
  · have hwy := hsub _ hne
    rw [Function.update_of_ne hwy] at hne
    have hold := h.awake y hne
    unfold wokenFor at hold ⊢
    rwa [Function.update_of_ne hwy]

end Wake

/-- Threads of the wait channel `w` go to the hand of the current thread. -/
theorem Here.grab_chan (h : Here g s t c v) {w : Chan} (is : List (Item n)) (us : List Thread)
    {posted' : Fin n → Option Nat} (hperm : (is.map Item.thread ++ us).Perm (s.wcThreads w))
    (hcpu : ∀ i ∈ is, s.tCpu i.thread = some i.cpu) (hready : ∀ i ∈ is, i.ready = false)
    (hlocked : Locked g.loc g.stage g.held g.owes posted' g.found s.cCurthread s.cSpinlocks
      s.splkHolder)
    (hsignalled : Signalled posted' g.found s.nextThread s.slept
      (Function.update s.wcThreads w us) s.semCount) :
    Core { g with
        place := relocate g.place (is.map Item.thread) (.hand t)
        hand := Function.update g.hand t (is ++ g.hand t)
        posted := posted' }
      { s with wcThreads := Function.update s.wcThreads w us } := by
  have hplace : ∀ i ∈ is, g.place i.thread = .chan w := by
    intro i hi
    refine (h.inv.located.shelved.mem (.chan w) trivial i.thread).mp (hperm.mem_iff.mp ?_)
    exact List.mem_append_left _ (List.mem_map_of_mem hi)
  refine h.grab is (p := .chan w) trivial (by simp) ?_ (fun r hr => ?_) hcpu ?_ ?_ hlocked
    h.inv.roused hsignalled
  · simpa only [shelves, Function.update_self] using hperm
  · cases r with
    | chan w' => exact Function.update_of_ne (by rintro rfl; exact hr rfl) _ _
    | _ => rfl
  · intro i hi b hb hst
    have hpermits := h.inv.seated.departed i.thread b hb hst
    rw [hplace i hi] at hpermits
    exact hpermits.wake
  · intro i hi hr
    rw [hready i hi] at hr
    cases hr

theorem does_wakeone {w : Chan} (hc : v.loc = some (.on c))
    (hposted : ∀ x, v.posted = some x → w = .sem x) :
    Does t v (onCpu fun _ _ s => .ok ((s.wcThreads w).head?,
        { s with wcThreads := Function.update s.wcThreads w (s.wcThreads w).tail }))
      fun x v' => x = none ∧ v' = ({ v with posted := none }).put c ∨
        ∃ i : Item n, x = some i.thread ∧
          v' = ({ v with hand := i :: v.hand, posted := none }).put c
      := by
  refine does_onCpu_at hc fun g s h => ⟨trivial, fun x s' hx => ?_⟩
  have hposts : ∀ x, g.posted c = some x → w = .sem x := h.posted ▸ hposted
  cases hw : s.wcThreads w with
  | nil =>
      have hsame : Function.update s.wcThreads w [] = s.wcThreads := by
        rw [← hw, Function.update_eq_self]
      simp only [hw, List.head?_nil, List.tail_nil, hsame] at hx
      cases hx
      refine ⟨{ g with posted := Function.update g.posted c none }, _, .inl ⟨rfl, rfl⟩,
        { h.inv.toCore with
          locked := h.inv.locked.post
          signalled := h.inv.signalled.wakeNone hw hposts }, le_rfl,
        ⟨fun _ _ => rfl, fun _ _ => rfl, fun b hb => by simp [Ghost.desk, hb]⟩, h.loc, h.self, ?_⟩
      simp [Ghost.desk, h.held, h.floor, h.owes, h.found]
  | cons u us =>
      simp only [hw, List.head?_cons, List.tail_cons] at hx
      cases hx
      have hplace : g.place u = .chan w := by
        refine (h.inv.located.shelved.mem (.chan w) trivial u).mp ?_
        simp [shelves, hw]
      have hnodup := h.inv.located.shelved.nodup (.chan w) trivial
      simp only [shelves, hw, List.nodup_cons] at hnodup
      obtain ⟨b, hb⟩ : ∃ b, s.tCpu u = some b := by
        have hfits := h.inv.seated.cpu u
        rwa [hplace] at hfits
      have hbound := h.inv.located.bound u (by rw [hplace]; simp)
      refine ⟨_, _, .inr ⟨⟨u, b, false⟩, rfl, rfl⟩, h.grab_chan [⟨u, b, false⟩] _ ?_ ?_ ?_
        h.inv.locked.post (h.inv.signalled.wake hw hnodup.1 hbound hposts), le_rfl, ?_, h.loc, ?_,
        ?_⟩
      · simp [hw]
      · simpa using hb
      · simp
      · constructor <;> intro _ hb <;> simp [Ghost.self, Ghost.desk, hb]
      · simp [Ghost.self, h.stage, h.spl, h.irq, h.proc, h.leaving, h.hand, h.fresh]
      · simp [Ghost.desk, h.held, h.floor, h.owes, h.found]

theorem does_wakeall {w : Chan} (hc : v.loc = some (.on c)) :
    Does t v (onCpu fun _ _ s => .ok (s.wcThreads w,
        { s with wcThreads := Function.update s.wcThreads w [] }))
      fun x v' => ∃ is : List (Item n), x = is.map Item.thread ∧
        v' = ({ v with hand := is ++ v.hand }).put c := by
  refine does_onCpu_at hc fun g s h => ⟨trivial, fun x s' hx => ?_⟩
  cases hx
  obtain ⟨is, hmap, hcpu, hready⟩ : ∃ is : List (Item n), is.map Item.thread = s.wcThreads w ∧
      (∀ i ∈ is, s.tCpu i.thread = some i.cpu) ∧ ∀ i ∈ is, i.ready = false := by
    refine ⟨(s.wcThreads w).map fun u => ⟨u, (s.tCpu u).getD c, false⟩, ?_, ?_, ?_⟩
    · rw [List.map_map]
      exact List.map_id _
    · intro i hi
      obtain ⟨u, hu, rfl⟩ := List.mem_map.mp hi
      have hfits := h.inv.seated.cpu u
      rw [(h.inv.located.shelved.mem (.chan w) trivial u).mp hu] at hfits
      obtain ⟨b, hb⟩ := hfits
      simp [hb]
    · intro i hi
      obtain ⟨u, -, rfl⟩ := List.mem_map.mp hi
      rfl
  refine ⟨_, _, ⟨is, hmap.symm, rfl⟩, h.grab_chan is [] (by rw [hmap, List.append_nil]) hcpu
    hready h.inv.locked h.inv.signalled.wakeAll, le_rfl, ?_, h.loc, ?_, h.desk⟩
  · constructor <;> intro _ hb <;> simp [Ghost.self, Ghost.desk, hb]
  · simp [Ghost.self, h.stage, h.spl, h.irq, h.proc, h.leaving, h.hand, h.fresh]

theorem Roused.remove {loc : Thread → Loc n} {stage : Thread → Stage}
    {held : Fin n → List (Spin n)} {floor : Fin n → Nat} {owes : Fin n → Option (Fin n)}
    {curthread : Fin n → Thread} {runqueue : Fin n → List Thread} {ipiPending : Fin n → Ipi → Bool}
    {waiting : Fin n → Waiting}
    (h : Roused loc stage held floor owes curthread runqueue ipiPending waiting)
    (hown : ∀ u st, loc u = .on c → stage u ≠ .dozing st) {k : Nat} {l : List Thread}
    (hk : k ≤ l.length) :
    Roused loc stage held (Function.update floor c k) owes curthread (Function.update runqueue c l)
      ipiPending waiting := by
  refine ⟨fun b => ?_, fun u b st hu hst => ?_, h.asleep⟩
  · by_cases hbc : b = c
    · subst hbc
      rwa [Function.update_self, Function.update_self]
    · rw [Function.update_of_ne hbc, Function.update_of_ne hbc]
      exact h.atLeast b
  · have hbc : b ≠ c := by
      rintro rfl
      exact hown u st hu hst
    rw [Function.update_of_ne hbc]
    exact h.doze u b st hu hst

/-- A thread of the run queue goes to the hand of the current thread. -/
theorem Here.grab_queue (h : Here g s t c v) (hlock : Spin.runqueue c ∈ v.locks)
    (hcalm : v.stage.calm = true) {us : List Thread} (hperm : (u :: us).Perm (s.cRunqueue c))
    {k : Nat} (hk : k ≤ us.length) :
    Core { g with
        place := relocate g.place [u] (.hand t)
        hand := Function.update g.hand t (⟨u, c, true⟩ :: g.hand t)
        floor := Function.update g.floor c k }
      { s with cRunqueue := Function.update s.cRunqueue c us } := by
  have hplace : g.place u = .queue c := by
    refine (h.inv.located.shelved.mem (.queue c) trivial u).mp (hperm.mem_iff.mp ?_)
    exact List.mem_cons_self
  have hcpu : s.tCpu u = some c := by
    have hfits := h.inv.seated.cpu u
    rwa [hplace] at hfits
  have hdep := h.not_departing hcalm hlock hcpu
  refine h.grab [⟨u, c, true⟩] (p := .queue c) trivial (by simp) ?_ (fun r hr => ?_)
    (by simpa using hcpu) ?_ ?_ h.inv.locked
    (h.inv.roused.remove (fun _ st => h.not_dozing hcalm st) hk) h.inv.signalled
  · simp only [shelves, Function.update_self]
    exact hperm
  · cases r with
    | queue b => exact Function.update_of_ne (by rintro rfl; exact hr rfl) _ _
    | _ => rfl
  · intro i hi b hb hst
    obtain rfl := List.mem_singleton.mp hi
    have hpermits := h.inv.seated.departed u b hb hst
    exact hpermits.shift (by rw [hplace]; trivial) hst (fun x hx => hdep ⟨⟨b, hb⟩, x, hx⟩)
      (.inr (.inr ⟨t, rfl⟩))
  · intro i hi _
    obtain rfl := List.mem_singleton.mp hi
    exact ⟨h.inv.stated.queue u c hplace, hdep⟩

/-- `threadlist_remtail(&curcpu->c_runqueue)`, of as many threads as were counted. -/
theorem does_remtail {k : Nat} (hc : v.loc = some (.on c)) (hlock : Spin.runqueue c ∈ v.locks)
    (hcalm : v.stage.calm = true) (hfloor : v.floor = k + 1) :
    Does t v (onCpu fun _ c s =>
        match (s.cRunqueue c).getLast? with
        | none => .undefined
        | some u => .ok (u, { s with
            cRunqueue := Function.update s.cRunqueue c (s.cRunqueue c).dropLast }))
      fun u v' => v' = ({ v with hand := ⟨u, c, true⟩ :: v.hand, floor := k }).put c := by
  refine does_onCpu_at hc fun g s h => ?_
  have hlen := h.inv.roused.atLeast c
  rw [h.floor, hfloor] at hlen
  obtain ⟨us, u, hus⟩ : ∃ us u, s.cRunqueue c = us ++ [u] :=
    ⟨_, _, (List.dropLast_append_getLast (List.ne_nil_of_length_pos (by omega))).symm⟩
  simp only [hus, List.getLast?_append, List.getLast?_singleton, Option.some_or,
    List.dropLast_concat]
  rw [hus, List.length_append, List.length_singleton] at hlen
  refine ⟨trivial, fun x s' hx => ?_⟩
  cases hx
  refine ⟨_, _, rfl, h.grab_queue (u := u) hlock hcalm ?_ (Nat.le_of_succ_le_succ hlen), le_rfl, ?_,
    h.loc, ?_, ?_⟩
  · rw [hus]
    exact (List.perm_append_singleton u us).symm
  · constructor <;> intro _ hb <;> simp [Ghost.self, Ghost.desk, hb]
  · simp [Ghost.self, h.stage, h.spl, h.irq, h.proc, h.leaving, h.hand, h.fresh]
  · simp [Ghost.desk, h.held, h.owes, h.posted, h.found]

/-! ## Processors of threads -/

theorem does_cpuOf (hv : v.Runs)
    (h : ∀ g s c, Here g s t c v → g.place u ≠ .absent ∧ s.tCpu u = some d) :
    Does t v (cpuOf u) fun x v' => v' = v ∧ x = d := by
  refine does_onCpu hv fun g s c hh => ?_
  obtain ⟨hplace, hcpu⟩ := h g s c hh
  simp only [(hh.inv.located.exists_iff u).mpr hplace, hcpu]
  refine ⟨trivial, fun x s' hx => ?_⟩
  cases hx
  exact ⟨g, hh.inv.toCore, le_rfl, ⟨fun _ _ => rfl, fun _ _ => rfl, fun _ _ => rfl⟩, hh.shown, rfl⟩

theorem does_cpuOf_hand (hv : v.Runs) (hi : i ∈ v.hand) :
    Does t v (cpuOf i.thread) fun x v' => v' = v ∧ x = i.cpu := by
  refine does_cpuOf hv fun g s c h => ⟨?_, h.inv.seated.handCpu t i (h.hand ▸ hi)⟩
  rw [h.place_hand hi]
  simp

theorem does_cpuOf_self (hc : v.loc = some (.on c)) :
    Does t v (cpuOf t) fun x v' => v' = v ∧ x = c := by
  refine does_cpuOf (.inr ⟨c, hc⟩) fun g s d h => ⟨h.inv.exists_cur h.cur, ?_⟩
  obtain rfl : d = c := View.At.eq h.put_self hc
  rw [← h.cur]
  exact h.inv.seated.curCpu d

/-- What the processor has counted on its own run queue stays there until it takes it. -/
theorem does_count (hc : v.loc = some (.on c)) :
    Does t v (look fun _ _ s => (s.cRunqueue d).length) fun x v' =>
      v' = ({ v with floor := if d = c then x else v.floor }).put c := by
  refine does_onCpu_at hc fun g s h => ⟨trivial, fun x s' hx => ?_⟩
  cases hx
  refine ⟨{ g with
      floor := Function.update g.floor c (if d = c then (s.cRunqueue d).length else g.floor c) },
    _, rfl,
    { h.inv.toCore with roused := { h.inv.roused with atLeast := fun b => ?_ } }, le_rfl,
    ⟨fun _ _ => rfl, fun _ _ => rfl, fun b hb => by simp [Ghost.desk, hb]⟩, h.loc, h.self, ?_⟩
  · show Function.update g.floor c _ b ≤ (s.cRunqueue b).length
    by_cases hb : b = c
    · subst hb
      rw [Function.update_self]
      split
      · exact ‹d = b› ▸ le_rfl
      · exact h.inv.roused.atLeast b
    · rw [Function.update_of_ne hb]
      exact h.inv.roused.atLeast b
  · simp [Ghost.desk, h.held, h.floor, h.owes, h.posted, h.found]

/-- `t->t_cpu = c` of a thread that was taken off the run queue, which is not the current
one. -/
theorem does_setCpu (hc : v.loc = some (.on c)) (hi : i ∈ v.hand) (hcpu : i.cpu = c)
    (hne : i.thread ≠ t) :
    Does t v (change fun _ _ s => { s with tCpu := Function.update s.tCpu i.thread (some d) })
      fun _ v' => v' = ({ v with hand := { i with cpu := d } :: v.hand.erase i }).put c := by
  refine does_change_at hc fun g s h => ?_
  have hmem : i ∈ g.hand t := h.hand ▸ hi
  have hplace := h.place_hand hi
  have hperm : ((({ i with cpu := d } : Item n) :: (g.hand t).erase i).map Item.thread).Perm
      ((g.hand t).map Item.thread) := (List.perm_cons_erase hmem).symm.map Item.thread
  have hnodup := hperm.nodup_iff.mpr (h.inv.located.shelved.nodup (.hand t) trivial)
  rw [List.map_cons, List.nodup_cons] at hnodup
  have hcur : ∀ b, s.cCurthread b ≠ i.thread := by
    intro b hb
    have hbcpu := h.inv.seated.curCpu b
    rw [hb, h.inv.seated.handCpu t i hmem, hcpu] at hbcpu
    cases hbcpu
    exact hne (hb.symm.trans h.cur)
  have hlocated : Located g.place g.loc g.stage
      (Function.update g.hand t ({ i with cpu := d } :: (g.hand t).erase i)) g.fresh s.allocated
      s.nextThread s.cZombies s.cRunqueue s.wcThreads := by
    refine { h.inv.located with shelved := h.inv.located.shelved.perm fun p _ => ?_ }
    cases p with
    | hand b =>
        by_cases hb : b = t
        · subst hb
          simp only [shelves, Function.update_self]
          exact hperm
        · simp only [shelves, Function.update_of_ne hb]
          exact .refl _
    | _ => exact .refl _
  have hseated : Seated g.place g.loc g.stage
      (Function.update g.hand t ({ i with cpu := d } :: (g.hand t).erase i)) g.fresh
      (Function.update s.tCpu i.thread (some d)) s.cCurthread s.cIsidle := by
    refine { h.inv.seated with
      curCpu := fun b => ?_
      cpu := fun u => ?_
      handCpu := fun b j hj => ?_
      freshCpu := fun b j hj => ?_ }
    · rw [Function.update_of_ne (hcur b)]
      exact h.inv.seated.curCpu b
    · by_cases hu : u = i.thread
      · subst hu
        rw [hplace]
        trivial
      · rw [Function.update_of_ne hu]
        exact h.inv.seated.cpu u
    · by_cases hb : b = t
      · subst hb
        rw [Function.update_self, List.mem_cons] at hj
        rcases hj with rfl | hj
        · exact Function.update_self ..
        · have hji : j.thread ≠ i.thread := by
            intro hji
            exact hnodup.1 (List.mem_map.mpr ⟨j, hj, hji⟩)
          rw [Function.update_of_ne hji]
          exact h.inv.seated.handCpu b j (List.mem_of_mem_erase hj)
      · rw [Function.update_of_ne hb] at hj
        have hji : j.thread ≠ i.thread := by
          intro hji
          have hother := h.inv.place_hand hj
          rw [hji, hplace] at hother
          cases hother
          exact hb rfl
        rw [Function.update_of_ne hji]
        exact h.inv.seated.handCpu b j hj
    · have hji : j.thread ≠ i.thread := by
        intro hji
        have hother := h.inv.place_fresh hj
        rw [hji, hplace] at hother
        cases hother
      rw [Function.update_of_ne hji]
      exact h.inv.seated.freshCpu b j hj
  have hstated : Stated g.place g.loc g.stage
      (Function.update g.hand t ({ i with cpu := d } :: (g.hand t).erase i)) s.tState := by
    refine { h.inv.stated with taken := fun b j hj hr => ?_ }
    by_cases hb : b = t
    · subst hb
      rw [Function.update_self, List.mem_cons] at hj
      rcases hj with rfl | hj
      · exact h.inv.stated.taken b i hmem hr
      · exact h.inv.stated.taken b j (List.mem_of_mem_erase hj) hr
    · rw [Function.update_of_ne hb] at hj
      exact h.inv.stated.taken b j hj hr
  refine ⟨{ g with hand := Function.update g.hand t ({ i with cpu := d } :: (g.hand t).erase i) },
    { h.inv.toCore with
      located := hlocated
      seated := hseated
      stated := hstated }, le_rfl,
    ⟨fun _ _ => rfl, fun b hb => by simp [Ghost.self, hb], fun _ _ => rfl⟩, h.loc, ?_, h.desk⟩
  simp [Ghost.self, h.stage, h.spl, h.irq, h.proc, h.leaving, h.hand, h.fresh]

end Os161Paging.Threads
