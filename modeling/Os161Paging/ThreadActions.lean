import Os161Paging.Residence

/-!
# What single actions do to the threads

One lemma for each action of `Threads`: what it does to the thread that
takes it, with the invariant kept and nothing shown to other threads
changed. The proofs about whole functions are about what is shown alone.
-/

namespace Os161Paging.Threads

open Prog

variable {n : Nat} {ρ : Type} {g g' : Ghost n} {s s' : Sched n} {t u : Thread} {c d : Fin n}
  {v v' : View n}

/-! ## Views -/

namespace View

def Runs (v : View n) : Prop := v.loc = none ∨ ∃ c, v.loc = some (.on c)

theorem hide_of_not_open (h : ¬ v.Open) : v.hide = v := if_neg h

theorem hide_of_open (h : v.Open) : v.hide = v.opened := if_pos h

@[simp] theorem hide_toSelf : v.hide.toSelf = v.toSelf := by
  unfold hide
  split <;> rfl

theorem hide_locks : v.hide.locks = v.locks := by
  by_cases h : v.Open
  · rw [hide_of_open h, h.2]
    rfl
  · rw [hide_of_not_open h]

theorem hide_open : v.hide.Open ↔ v.Open := by
  unfold Open
  rw [hide_locks, hide_toSelf]

end View

/-! ## Order of spinlocks -/

/-- Locks are taken in this order. -/
def Spin.rank : Spin n → Nat
  | .chan _ => 0
  | .proc _ => 0
  | .runqueue _ => 1
  | .ipi _ => 2

/-- How an action may fail to return: it waits, for a spinlock only in the order of the
locks; `V` counts up a semaphore that is at 2^32 - 1; or the processor was told to stop. -/
def Allowed (t : Thread) (s : Sched n) : Outcome (Wait n) Empty → Prop
  | .wait .processor => ∀ c, s.cCurthread c ≠ t
  | .wait (.spin l) => (∃ d, s.splkHolder l = some d) ∧
      ∀ c, s.cCurthread c = t → ∀ l', s.splkHolder l' = some c → l'.rank < l.rank
  | .wait .interrupt => ∀ c, s.cCurthread c = t → ∀ l, s.splkHolder l ≠ some c
  | .wait .rounds => True
  | .hang => True
  | .panic m => m = "sem->sem_count > 0 (V)" ∧ ∃ c x, s.cCurthread c = t ∧
      s.splkHolder (.chan (.sem x)) = some c ∧ (s.semCount x + 1) % 2 ^ 32 = 0
  | .undefined => False
  | .ok e => nomatch e

/-- The vocabulary for following one thread among the others. -/
def logic (n : Nat) : Views Thread Thread (Sched n) (Wait n) (Ghost n) (View n) where
  inv := Inv
  sees t v g _ := g.shown t = v
  law _ _ _ := True
  stops := Allowed

def role (t : Thread) : Role Thread Thread (Sched n) := ⟨t, t, fun _ => True⟩

/-- From a state in which the thread `t` sees `v`, the code `p` ends where it sees a view
that satisfies `Φ`. -/
abbrev Does (t : Thread) (v : View n) (p : K n ρ) (Φ : ρ → View n → Prop) : Prop :=
  (logic n).Follows (role t) p v Φ

/-! ## Being current -/

namespace Inv

theorem cur_inj (hi : Inv g s) (h : s.cCurthread c = s.cCurthread d) : c = d := by
  have hc := hi.seated.curCpu c
  rw [h, hi.seated.curCpu d] at hc
  exact (Option.some.inj hc).symm

theorem cur_ne (hi : Inv g s) (hc : s.cCurthread c = t) (hd : d ≠ c) : s.cCurthread d ≠ t :=
  fun hcur => hd (hi.cur_inj (hcur.trans hc.symm))

theorem processor_iff (hi : Inv g s) : s.processor t = some c ↔ s.cCurthread c = t := by
  constructor
  · intro h
    simpa using List.find?_some h
  · intro h
    cases hp : s.processor t with
    | none =>
        have := List.find?_eq_none.mp hp c (List.mem_finRange c)
        simp [h] at this
    | some d =>
        have hd : s.cCurthread d = t := by simpa using List.find?_some hp
        rw [hi.cur_inj (hd.trans h.symm)]

theorem on_inj (hi : Inv g s) (ht : g.loc t = .on c) (hu : g.loc u = .on c) : t = u :=
  (hi.seated.on t c ht).symm.trans (hi.seated.on u c hu)

end Inv

/-- The thread `t`, which sees `v`, is about to do something on `c`. -/
structure Here (g : Ghost n) (s : Sched n) (t : Thread) (c : Fin n) (v : View n) : Prop where
  inv : Inv g s
  cur : s.cCurthread c = t
  loc : g.loc t = .on c
  self : g.self t = v.toSelf
  desk : g.desk c = v.toDesk
  put_self : v.put c = v

namespace Ghost

theorem shown_of_on (h : g.loc t = .on c) :
    g.shown t = View.hide { toSelf := g.self t, toDesk := g.desk c, loc := some (.on c) } := by
  rw [shown, h]
  rfl

theorem shown_toSelf : (g.shown t).toSelf = g.self t := View.hide_toSelf

theorem shown_congr (hloc : g'.loc t = g.loc t) (hself : g'.self t = g.self t)
    (hdesk : ∀ c, g.loc t = .on c → g'.desk c = g.desk c) : g'.shown t = g.shown t := by
  unfold shown
  rw [hloc, hself]
  cases h : g.loc t with
  | on c => rw [deskAt, deskAt, hdesk c h]
  | _ => rfl

end Ghost

/-- Only what concerns the thread `t` and the processor `c` has been written anew. -/
structure Apart (t : Thread) (c : Fin n) (g g' : Ghost n) : Prop where
  loc : ∀ b, b ≠ t → g'.loc b = g.loc b
  self : ∀ b, b ≠ t → g'.self b = g.self b
  desk : ∀ d, d ≠ c → g'.desk d = g.desk d

namespace Inv

theorem away_of_virgin (hi : Inv g s) (hu : s.nextThread ≤ u) : g.loc u = .away := by
  have h := hi.virgin u hu
  by_cases hopen : (g.shown u).Open
  · rw [h] at hopen
    cases hopen.1
  · rw [Ghost.shown, View.hide_of_not_open (fun ho => hopen (View.hide_open.mpr ho))] at h
    simpa [View.newborn] using congrArg View.loc h

theorem shown_apart (hi : Inv g s) (hc : s.cCurthread c = t) (ha : Apart t c g g') (b : Thread)
    (hb : b ≠ t) : g'.shown b = g.shown b := by
  refine Ghost.shown_congr (ha.loc b hb) (ha.self b hb) fun d hd => ha.desk d ?_
  rintro rfl
  exact hb ((hi.seated.on b d hd).symm.trans hc)

/-- A current thread runs, has just been given its processor, or is in `thread_switch`. -/
theorem place_cur (hi : Inv g s) (hc : s.cCurthread c = t) :
    g.place t = .present ∨ g.place t = .arriving c ∨ g.place t = .queue c ∨
      g.place t = .zombies c ∨ (∃ w, g.place t = .chan w) ∨ ∃ u, g.place t = .hand u := by
  subst hc
  rcases hi.seated.cur c with hon | haway
  · by_cases hst : g.stage (s.cCurthread c) = .present
    · exact .inl ((hi.located.present _).mpr ⟨⟨c, hon⟩, hst⟩)
    · rcases (hi.seated.departed _ c hon hst).place hst with h | h | h | h
      · exact .inr (.inr (.inl h))
      · exact .inr (.inr (.inr (.inl h)))
      · exact .inr (.inr (.inr (.inr (.inl h))))
      · exact .inr (.inr (.inr (.inr (.inr h))))
  · exact .inr (.inl ((hi.seated.arriving _ c).mpr ⟨haway, rfl⟩))

theorem exists_cur (hi : Inv g s) (hc : s.cCurthread c = t) : g.place t ≠ .absent := by
  intro habs
  have h := hi.place_cur hc
  simp [habs] at h

theorem not_fresh_cur (hi : Inv g s) (hc : s.cCurthread c = t) : g.place t ≠ .fresh u := by
  intro habs
  have h := hi.place_cur hc
  simp [habs] at h

/-- The invariant again, from its parts, after a step that concerns `t` and `c`. -/
theorem of_core (hi : Inv g s) (hc : s.cCurthread c = t) (hcore : Core g' s')
    (hnext : s.nextThread ≤ s'.nextThread) (ha : Apart t c g g') : Inv g' s' := by
  refine ⟨hcore, fun u hu => ?_⟩
  replace hu := hnext.trans hu
  have hut : u ≠ t := by
    rintro rfl
    exact absurd (hi.located.bound u (hi.exists_cur hc)) (Nat.not_lt.mpr hu)
  rw [hi.shown_apart hc ha u hut]
  exact hi.virgin u hu

theorem lower (hi : Inv g s) (hc : s.cCurthread c = t) {k : Nat} (hk : k ≤ g.floor c) :
    Inv { g with floor := Function.update g.floor c k } s := by
  refine hi.of_core hc { hi.toCore with roused := { hi.roused with atLeast := ?_ } } le_rfl
    ⟨fun _ _ => rfl, fun _ _ => rfl, fun d hd => by simp [Ghost.desk, hd]⟩
  refine (Function.forall_update_iff _ fun d k => k ≤ (s.cRunqueue d).length).mpr
    ⟨hk.trans (hi.roused.atLeast c), fun d _ => hi.roused.atLeast d⟩

/-- A processor that holds no lock is in the middle of nothing. -/
theorem desk_of_held (hi : Inv g s) (h : g.held c = []) :
    g.desk c = { (Desk.clear : Desk n) with floor := g.floor c } := by
  have howes : g.owes c = none := Option.eq_none_iff_forall_ne_some.mpr fun d hd => by
    have hmem := (hi.locked.owing c d hd).1
    simp [h] at hmem
  have hposted : g.posted c = none := Option.eq_none_iff_forall_ne_some.mpr fun x hx => by
    have hmem := hi.locked.posting c x hx
    simp [h] at hmem
  have hfound : g.found c = none := Option.eq_none_iff_forall_ne_some.mpr fun x hx => by
    have hmem := hi.locked.testing c x.1 x.2 hx
    simp [h] at hmem
  rw [Ghost.desk, h, howes, hposted, hfound]
  rfl

end Inv

/-! ## The rule for actions -/

/-- A thread that sees that it runs is on its processor, and sees all that is written down
once what it does not need is forgotten. -/
theorem Inv.here (hi : Inv g s) (hc : s.cCurthread c = t) (hv : g.shown t = v) (hruns : v.Runs) :
    ∃ k, Here { g with floor := Function.update g.floor c k } s t c v := by
  have hloc : g.loc t = .on c := by
    subst hc
    refine (hi.seated.cur c).resolve_right fun haway => ?_
    have hopen : ¬ (View.mk (g.self (s.cCurthread c)) (g.deskAt (g.loc (s.cCurthread c)))
        (some (g.loc (s.cCurthread c)))).Open := by
      rintro ⟨hspl, -⟩
      have := hi.levelled.awaySpl _ haway
      simp [Ghost.self, this] at hspl
    rw [Ghost.shown, View.hide_of_not_open hopen, haway] at hv
    subst hv
    simp [View.Runs] at hruns
  rw [Ghost.shown_of_on hloc] at hv
  have hself : g.self t = v.toSelf := by rw [← hv, View.hide_toSelf]
  by_cases hopen : (View.mk (g.self t) (g.desk c) (some (.on c))).Open
  · rw [View.hide_of_open hopen] at hv
    subst hv
    refine ⟨0, hi.lower hc (Nat.zero_le _), hc, hloc, rfl, ?_, ?_⟩
    · rw [(hi.lower hc (Nat.zero_le (g.floor c))).desk_of_held hopen.2]
      simp
      rfl
    · exact View.hide_of_open ⟨hopen.1, rfl⟩
  · rw [View.hide_of_not_open hopen] at hv
    subst hv
    refine ⟨g.floor c, hi.lower hc le_rfl, hc, hloc, rfl, ?_, ?_⟩
    · simp [Ghost.desk]
    · exact View.hide_of_not_open hopen

/-- An action of a thread, which is taken when it is current. -/
theorem does_current {f : Thread → Fin n → Sched n → Outcome (Wait n) (ρ × Sched n)}
    {Φ : ρ → View n → Prop}
    (h : ∀ g s c, Inv g s → s.cCurthread c = t → g.shown t = v →
      (f t c s).StopsIn (Allowed t s) ∧
      ∀ x s', f t c s = .ok (x, s') → ∃ g', Core g' s' ∧ s.nextThread ≤ s'.nextThread ∧
        Apart t c g g' ∧ Φ x (g'.shown t)) :
    Does t v (onCpu f) Φ := by
  refine Views.Follows.action (isAction_exec _) fun g s hi hs _ => ?_
  rw [onCpu, run_exec]
  cases hp : s.processor t with
  | none =>
      refine ⟨?_, fun x s' hx => ?_⟩
      · simp only [role, hp]
        intro c hc
        rw [hi.processor_iff.mpr hc] at hp
        cases hp
      · simp only [role, hp] at hx
        cases hx
  | some c =>
      simp only [role, hp]
      have hc := hi.processor_iff.mp hp
      obtain ⟨hstops, hok⟩ := h g s c hi hc hs
      refine ⟨hstops, fun x s' hx => ?_⟩
      obtain ⟨g', hcore, hnext, hapart, hΦ⟩ := hok x s' hx
      refine ⟨trivial, g', g'.shown t, trivial, ⟨hi.of_core hc hcore hnext hapart, ?_⟩, rfl, hΦ⟩
      intro b hb w hw
      exact (hi.shown_apart hc hapart b hb).trans hw

theorem does_onCpu {f : Thread → Fin n → Sched n → Outcome (Wait n) (ρ × Sched n)}
    {Φ : ρ → View n → Prop} (hv : v.Runs)
    (h : ∀ g s c, Here g s t c v → (f t c s).StopsIn (Allowed t s) ∧
      ∀ x s', f t c s = .ok (x, s') → ∃ g', Core g' s' ∧ s.nextThread ≤ s'.nextThread ∧
        Apart t c g g' ∧ Φ x (g'.shown t)) :
    Does t v (onCpu f) Φ := by
  refine does_current fun g s c hi hc hs => ?_
  obtain ⟨k, hhere⟩ := hi.here hc hs hv
  obtain ⟨hstops, hok⟩ := h _ s c hhere
  refine ⟨hstops, fun x s' hx => ?_⟩
  obtain ⟨g', hcore, hnext, hapart, hΦ⟩ := hok x s' hx
  refine ⟨g', hcore, hnext, ⟨hapart.loc, hapart.self, fun d hd => ?_⟩, hΦ⟩
  rw [hapart.desk d hd]
  simp [Ghost.desk, hd]

namespace Here

variable (h : Here g s t c v)
include h

theorem stage : g.stage t = v.stage := congrArg Self.stage h.self

theorem spl : g.spl t = v.spl := congrArg Self.spl h.self

theorem irq : g.irq t = v.irq := congrArg Self.irq h.self

theorem proc : g.proc t = v.proc := congrArg Self.proc h.self

theorem leaving : g.leaving t = v.leaving := congrArg Self.leaving h.self

theorem hand : g.hand t = v.hand := congrArg Self.hand h.self

theorem fresh : g.fresh t = v.fresh := congrArg Self.fresh h.self

theorem held : g.held c = v.locks := congrArg Desk.locks h.desk

theorem floor : g.floor c = v.floor := congrArg Desk.floor h.desk

theorem owes : g.owes c = v.owes := congrArg Desk.owes h.desk

theorem posted : g.posted c = v.posted := congrArg Desk.posted h.desk

theorem found : g.found c = v.found := congrArg Desk.found h.desk

theorem unique (hu : g.loc u = .on c) : u = t := h.inv.on_inj hu h.loc

theorem settled : (g.place t).Settled :=
  ⟨h.inv.exists_cur h.cur, fun _ => h.inv.not_fresh_cur h.cur⟩

end Here

theorem Ghost.shown_put {w : View n} (hloc : g.loc t = .on c) (hself : g.self t = w.toSelf)
    (hdesk : g.desk c = w.toDesk) : g.shown t = w.put c := by
  rw [shown_of_on hloc, hself, hdesk]
  rfl

theorem Here.shown (h : Here g s t c v) : g.shown t = v := by
  rw [Ghost.shown_put h.loc h.self h.desk, h.put_self]

namespace View

/-- The thread executes on `c`, if it knows where. -/
def At (v : View n) (c : Fin n) : Prop := v.put c = v

theorem put_of_not_open (h : ¬ v.Open) : v.put c = { v with loc := some (.on c) } :=
  hide_of_not_open h

theorem put_of_open (h : v.Open) : v.put c = v.opened := hide_of_open h

theorem At.eq (h : v.At c) (hd : v.loc = some (.on d)) : c = d := by
  have hloc : (v.put c).loc = some (.on d) := by rw [h, hd]
  unfold put hide at hloc
  split at hloc
  · cases hloc
  · simpa using hloc

end View

/-- The step from `s` to `s'` of the thread `t` on `c`, after which it sees `w`. -/
structure Turns (t : Thread) (c : Fin n) (g : Ghost n) (s : Sched n) (g' : Ghost n) (s' : Sched n)
    (w : View n) : Prop where
  core : Core g' s'
  next : s.nextThread ≤ s'.nextThread
  apart : Apart t c g g'
  loc : g'.loc t = .on c
  self : g'.self t = w.toSelf
  desk : g'.desk c = w.toDesk

theorem Turns.shown {w : View n} (h : Turns t c g s g' s' w) : g'.shown t = w.put c :=
  Ghost.shown_put h.loc h.self h.desk

theorem does_change {F : Thread → Fin n → Sched n → Sched n} {w : View n} (hv : v.Runs)
    (h : ∀ g s c, Here g s t c v → ∃ g', Turns t c g s g' (F t c s) w) :
    Does t v (change F) fun _ v' => ∃ c, v.At c ∧ v' = w.put c := by
  refine does_onCpu hv fun g s c hh => ⟨trivial, fun x s' hx => ?_⟩
  cases hx
  obtain ⟨g', ht⟩ := h g s c hh
  exact ⟨g', ht.core, ht.next, ht.apart, c, hh.put_self, ht.shown⟩

theorem does_onCpu_at {f : Thread → Fin n → Sched n → Outcome (Wait n) (ρ × Sched n)}
    {Φ : ρ → View n → Prop} (hc : v.loc = some (.on c))
    (h : ∀ g s, Here g s t c v → (f t c s).StopsIn (Allowed t s) ∧
      ∀ x s', f t c s = .ok (x, s') → ∃ g' w, Φ x (w.put c) ∧ Turns t c g s g' s' w) :
    Does t v (onCpu f) Φ := by
  refine does_onCpu (.inr ⟨c, hc⟩) fun g s d hd => ?_
  obtain rfl : d = c := View.At.eq hd.put_self hc
  refine ⟨(h g s hd).1, fun x s' hx => ?_⟩
  obtain ⟨g', w, hΦ, ht⟩ := (h g s hd).2 x s' hx
  exact ⟨g', ht.core, ht.next, ht.apart, ht.shown ▸ hΦ⟩

theorem does_change_at {F : Thread → Fin n → Sched n → Sched n} {w : View n}
    (hc : v.loc = some (.on c))
    (h : ∀ g s, Here g s t c v → ∃ g', Turns t c g s g' (F t c s) w) :
    Does t v (change F) fun _ v' => v' = w.put c := by
  refine does_onCpu_at hc fun g s hh => ⟨trivial, fun x s' hx => ?_⟩
  cases hx
  obtain ⟨g', ht⟩ := h g s hh
  exact ⟨g', w, rfl, ht⟩

theorem does_look {f : Thread → Fin n → Sched n → ρ} {Φ : ρ → Prop} (hv : v.Runs)
    (h : ∀ g s c, Here g s t c v → Φ (f t c s)) :
    Does t v (look f) fun x v' => v' = v ∧ Φ x := by
  refine does_onCpu hv fun g s c hh => ⟨trivial, fun x s' hx => ?_⟩
  cases hx
  exact ⟨g, hh.inv.toCore, le_rfl, ⟨fun _ _ => rfl, fun _ _ => rfl, fun _ _ => rfl⟩, hh.shown,
    h g s c hh⟩

theorem does_kassert {b : Thread → Fin n → Sched n → Bool} {m : String} (hv : v.Runs)
    (h : ∀ g s c, Here g s t c v → b t c s = true) :
    Does t v (kassert b m) fun _ v' => v' = v := by
  refine does_onCpu hv fun g s c hh => ?_
  rw [if_pos (h g s c hh)]
  refine ⟨trivial, fun x s' hx => ?_⟩
  cases hx
  exact ⟨g, hh.inv.toCore, le_rfl, ⟨fun _ _ => rfl, fun _ _ => rfl, fun _ _ => rfl⟩, hh.shown⟩

/-! ## Interrupt levels -/

section Levels

variable {place : Thread → Place n} {loc : Thread → Loc n} {spl : Thread → Ipl}
  {irq : Thread → Bool} {held : Fin n → List (Spin n)} {tInInterrupt : Thread → Bool}
  {tCurspl : Thread → Ipl} {tIplhighCount : Thread → Nat}

/-- The thread that executes on `c` changes what keeps its interrupts off. -/
theorem Levelled.set (h : Levelled place loc spl irq held tInInterrupt tCurspl tIplhighCount)
    (hloc : loc t = .on c) (hunique : ∀ u, loc u = .on c → u = t) (x : Ipl) (ls : List (Spin n))
    {k : Nat} (hk : k = (if x = .high then 1 else 0) + ls.length) :
    Levelled place loc (Function.update spl t x) irq (Function.update held c ls) tInInterrupt
      (Function.update tCurspl t x) (Function.update tIplhighCount t k) := by
  have hne : ∀ u, loc u = .away → u ≠ t := by
    rintro u hu rfl
    rw [hloc] at hu
    cases hu
  refine ⟨fun u d hu => ?_, fun u hu hset => ?_, fun u b hu => ?_, fun u hu => ?_, h.inInterrupt⟩
  · by_cases hut : u = t
    · subst hut
      rw [hloc] at hu
      cases hu
      simp [hk]
    · have hdc : d ≠ c := by
        rintro rfl
        exact hut (hunique u hu)
      simp only [Function.update_of_ne hut, Function.update_of_ne hdc]
      exact h.on u d hu
  · simp only [Function.update_of_ne (hne u hu)]
    exact h.away u hu hset
  · have haway := (h.newborn u b hu).1
    simp only [Function.update_of_ne (hne u haway)]
    exact h.newborn u b hu
  · rw [Function.update_of_ne (hne u hu)]
    exact h.awaySpl u hu

end Levels

theorem Core.unmasked_of_apart (h : Core g s) (hne : ∀ b, b ≠ t → g'.self b = g.self b)
    (ht : (g'.self t).Unmasked) (u : Thread) : (g'.self u).Unmasked := by
  by_cases hu : u = t
  · rwa [hu]
  · rw [hne u hu]
    exact h.unmasked u

theorem does_splx (hv : v.Runs) (spl : Ipl) (hfair : ({ v with spl := spl }).toSelf.Unmasked) :
    Does t v (splx spl) fun r v' => r = v.spl ∧
      ∃ c, v.At c ∧ v' = ({ v with spl := spl }).put c := by
  refine does_onCpu hv fun g s c h => ⟨trivial, fun x s' hx => ?_⟩
  obtain ⟨hcur, hcount⟩ := h.inv.levelled.on t c h.loc
  rw [h.spl] at hcur hcount
  simp only [Outcome.ok.injEq, Prod.mk.injEq] at hx
  obtain ⟨rfl, rfl⟩ := hx
  by_cases hspl : s.tCurspl t = spl
  · rw [if_pos hspl]
    refine ⟨g, h.inv.toCore, le_rfl, ⟨fun _ _ => rfl, fun _ _ => rfl, fun _ _ => rfl⟩, hcur, c,
      h.put_self, ?_⟩
    rw [← hspl, hcur]
    exact h.shown.trans h.put_self.symm
  · rw [if_neg hspl]
    have hlev := h.inv.levelled.set h.loc (fun _ => h.unique) spl (g.held c) rfl
    rw [Function.update_eq_self] at hlev
    let g' : Ghost n := { g with spl := Function.update g.spl t spl }
    have hself : g'.self t = ({ v with spl := spl }).toSelf := by
      simp [g', Ghost.self, h.irq, h.proc, h.stage, h.leaving, h.hand, h.fresh]
    have hne : ∀ b, b ≠ t → g'.self b = g.self b := fun b hb => by simp [g', Ghost.self, hb]
    refine ⟨g', { h.inv.toCore with levelled := ?_, unmasked := ?_ }, le_rfl,
      ⟨fun _ _ => rfl, hne, fun _ _ => rfl⟩, hcur, c, h.put_self,
      Ghost.shown_put h.loc hself h.desk⟩
    · have hk : (if spl = .high then s.tIplhighCount t + 1 else s.tIplhighCount t - 1) =
          (if spl = .high then 1 else 0) + (g.held c).length := by
        rw [hcount]
        rw [hcur] at hspl
        cases spl <;> cases hvs : v.spl <;> simp [hvs] at hspl ⊢
        omega
      rw [hk]
      exact hlev
    · exact h.inv.unmasked_of_apart hne (hself ▸ hfair)

/-! ## Entering and leaving an interrupt -/

theorem Levelled.mark {place : Thread → Place n} {loc : Thread → Loc n} {spl : Thread → Ipl}
    {irq : Thread → Bool} {held : Fin n → List (Spin n)} {tInInterrupt : Thread → Bool}
    {tCurspl : Thread → Ipl} {tIplhighCount : Thread → Nat}
    (h : Levelled place loc spl irq held tInInterrupt tCurspl tIplhighCount) {b : Bool} :
    Levelled place loc spl (Function.update irq t b) held (Function.update tInInterrupt t b)
      tCurspl tIplhighCount := by
  refine { h with inInterrupt := fun u hu => ?_ }
  by_cases hut : u = t
  · subst hut
    simp
  · rw [Function.update_of_ne hut, Function.update_of_ne hut]
    exact h.inInterrupt u hu

theorem does_enterInterrupt (hv : v.Runs) :
    Does t v (onCpu fun t _ s => .ok ((s.tInInterrupt t, s.tCurspl t), { s with
        tInInterrupt := Function.update s.tInInterrupt t true
        tCurspl := Function.update s.tCurspl t .high
        tIplhighCount := if s.tCurspl t = .none
          then Function.update s.tIplhighCount t (s.tIplhighCount t + 1) else s.tIplhighCount }))
      fun x v' => x = (v.irq, v.spl) ∧
        ∃ c, v.At c ∧ v' = { v with irq := true, spl := .high, loc := some (.on c) } := by
  refine does_onCpu hv fun g s c h => ⟨trivial, fun x s' hx => ?_⟩
  obtain ⟨hcurspl, hcount⟩ := h.inv.levelled.on t c h.loc
  have hirq := h.inv.levelled.inInterrupt t (h.inv.exists_cur h.cur)
  have hcount' : (if s.tCurspl t = .none then
      Function.update s.tIplhighCount t (s.tIplhighCount t + 1) else s.tIplhighCount) =
      Function.update s.tIplhighCount t (1 + (g.held c).length) := by
    rw [hcurspl] at *
    cases hspl : g.spl t with
    | none =>
        rw [if_pos rfl, hcount, hspl]
        congr 1
        simp [Nat.add_comm]
    | high =>
        rw [if_neg (by simp)]
        rw [hspl, if_pos rfl] at hcount
        rw [← hcount, Function.update_eq_self]
  simp only [hcount'] at hx
  cases hx
  have hlev := (h.inv.levelled.set h.loc (fun _ => h.unique) Ipl.high (g.held c) rfl).mark
    (t := t) (b := true)
  rw [Function.update_eq_self] at hlev
  let g' : Ghost n := { g with
    spl := Function.update g.spl t .high
    irq := Function.update g.irq t true }
  have hne : ∀ b, b ≠ t → g'.self b = g.self b := fun b hb => by simp [g', Ghost.self, hb]
  have hfair := h.inv.unmasked_of_apart hne (by simp [g', Ghost.self, Self.Unmasked])
  refine ⟨g', { h.inv.toCore with levelled := hlev, unmasked := hfair }, le_rfl,
    ⟨fun _ _ => rfl, hne, fun _ _ => rfl⟩, ?_, c, h.put_self, ?_⟩
  · rw [hirq, h.irq, hcurspl, h.spl]
  · rw [← View.put_of_not_open (v := { v with irq := true, spl := .high }) (by simp [View.Open])]
    refine Ghost.shown_put h.loc ?_ h.desk
    simp [g', Ghost.self, h.stage, h.proc, h.leaving, h.hand, h.fresh]

theorem does_leaveInterrupt {oldIn : Bool} {spl : Ipl} (hc : v.loc = some (.on c))
    (hspl : v.spl = .high) (hlocks : v.locks = [])
    (hfair : ({ v with spl := spl }).toSelf.Unmasked) :
    Does t v (onCpu fun t _ s =>
        if spl = .none then
          if s.tCurspl t = .high ∧ s.tIplhighCount t = 1 then
            .ok ((), { s with
              tInInterrupt := Function.update s.tInInterrupt t oldIn
              tCurspl := Function.update s.tCurspl t .none
              tIplhighCount := Function.update s.tIplhighCount t 0 })
          else .panic "curthread->t_iplhigh_count == 1"
        else .ok ((), { s with tInInterrupt := Function.update s.tInInterrupt t oldIn }))
      fun _ v' => v' = ({ v with irq := oldIn, spl := spl }).put c := by
  refine does_onCpu_at hc fun g s h => ?_
  obtain ⟨hcurspl, hcount⟩ := h.inv.levelled.on t c h.loc
  rw [h.spl, hspl] at hcurspl hcount
  rw [h.held, hlocks] at hcount
  cases spl with
  | none =>
      rw [if_pos rfl, if_pos ⟨hcurspl, hcount⟩]
      refine ⟨trivial, fun x s' hx => ?_⟩
      cases hx
      have hlev := (h.inv.levelled.set h.loc (fun _ => h.unique) Ipl.none (g.held c)
        (k := 0) (by simp [h.held, hlocks])).mark (t := t) (b := oldIn)
      rw [Function.update_eq_self] at hlev
      let g' : Ghost n := { g with
        spl := Function.update g.spl t .none
        irq := Function.update g.irq t oldIn }
      have hself : g'.self t = ({ v with irq := oldIn, spl := .none }).toSelf := by
        simp [g', Ghost.self, h.stage, h.proc, h.leaving, h.hand, h.fresh]
      have hne : ∀ b, b ≠ t → g'.self b = g.self b := fun b hb => by simp [g', Ghost.self, hb]
      have hunmasked := h.inv.unmasked_of_apart hne (hself ▸ hfair)
      exact ⟨g', _, rfl, { h.inv.toCore with levelled := hlev, unmasked := hunmasked }, le_rfl,
        ⟨fun _ _ => rfl, hne, fun _ _ => rfl⟩, h.loc, hself, h.desk⟩
  | high =>
      rw [if_neg (by simp)]
      refine ⟨trivial, fun x s' hx => ?_⟩
      cases hx
      refine ⟨{ g with irq := Function.update g.irq t oldIn }, _, rfl,
        { h.inv.toCore with levelled := h.inv.levelled.mark }, le_rfl,
        ⟨fun _ _ => rfl, fun b hb => by simp [Ghost.self, hb], fun _ _ => rfl⟩, h.loc, ?_, h.desk⟩
      simp [Ghost.self, h.stage, h.spl, hspl, h.proc, h.leaving, h.hand, h.fresh]

/-! ## Spinlocks -/

section Locks

variable {loc : Thread → Loc n} {stage : Thread → Stage} {held : Fin n → List (Spin n)}
  {floor : Fin n → Nat} {owes : Fin n → Option (Fin n)} {posted : Fin n → Option Nat}
  {found : Fin n → Option (Nat × Bool)}
  {curthread : Fin n → Thread} {spinlocks : Fin n → Nat} {splkHolder : Spin n → Option (Fin n)}
  {runqueue : Fin n → List Thread} {ipiPending : Fin n → Ipi → Bool} {waiting : Fin n → Waiting}
  {l : Spin n}

theorem Locked.acquire
    (h : Locked loc stage held owes posted found curthread spinlocks splkHolder)
    (hfree : splkHolder l = none) (hon : loc (curthread c) = .on c) :
    Locked loc stage (Function.update held c (l :: held c)) owes posted found curthread
      (Function.update spinlocks c (spinlocks c + 1)) (Function.update splkHolder l (some c)) := by
  have hnot : ∀ d, l ∉ held d := by
    intro d hd
    rw [(h.holder l d).mpr hd] at hfree
    cases hfree
  have hmem : ∀ d l', l' ∈ held d → l' ∈ Function.update held c (l :: held c) d := by
    intro d l' hl'
    by_cases hdc : d = c
    · subst hdc
      simp [hl']
    · rwa [Function.update_of_ne hdc]
  refine ⟨fun l' d => ?_, fun d => ?_, fun d => ?_,
    fun u d hu hs => hmem _ _ (h.switching u d hu hs),
    fun d hd => ?_, fun d b hb => ⟨hmem _ _ (h.owing d b hb).1, (h.owing d b hb).2⟩,
    fun d x hx => hmem _ _ (h.posting d x hx), fun d x b hx => hmem _ _ (h.testing d x b hx)⟩
  · have hold := h.holder l' d
    by_cases hl : l' = l
    · subst hl
      by_cases hdc : d = c
      · subst hdc
        simp
      · simp [hdc, Ne.symm hdc, hnot d]
    · rw [Function.update_of_ne hl, hold]
      by_cases hdc : d = c
      · subst hdc
        simp [hl]
      · rw [Function.update_of_ne hdc]
  · by_cases hdc : d = c
    · subst hdc
      simp [h.nodup d, hnot d]
    · rw [Function.update_of_ne hdc]
      exact h.nodup d
  · by_cases hdc : d = c
    · subst hdc
      simp [h.count d]
    · rw [Function.update_of_ne hdc, Function.update_of_ne hdc]
      exact h.count d
  · have hdc : d ≠ c := by
      rintro rfl
      rw [hon] at hd
      cases hd
    rw [Function.update_of_ne hdc]
    exact h.arriving d hd

theorem Locked.release
    (h : Locked loc stage held owes posted found curthread spinlocks splkHolder)
    (hmem : l ∈ held c) (hon : loc (curthread c) = .on c)
    (howes : owes c = none) (hposted : posted c = none)
    (hswitch : ∀ u, loc u = .on c → (stage u).switching = true → l ≠ .runqueue c) :
    Locked loc stage (Function.update held c ((held c).erase l)) owes posted
      (Function.update found c none) curthread (Function.update spinlocks c (spinlocks c - 1))
      (Function.update splkHolder l none) := by
  have hother : ∀ d, d ≠ c → l ∉ held d := by
    intro d hd hl
    have hc := (h.holder l c).mpr hmem
    rw [(h.holder l d).mpr hl] at hc
    exact hd (Option.some.inj hc)
  refine ⟨fun l' d => ?_, fun d => ?_, fun d => ?_, fun u d hu hs => ?_, fun d hd => ?_,
    fun d b hb => ?_, fun d x hx => ?_, fun d x b hx => ?_⟩
  · have hold := h.holder l' d
    by_cases hl : l' = l
    · subst hl
      by_cases hdc : d = c
      · subst hdc
        simp [(h.nodup d).not_mem_erase]
      · simp [hdc, hother d hdc]
    · rw [Function.update_of_ne hl, hold]
      by_cases hdc : d = c
      · subst hdc
        simp [List.mem_erase_of_ne hl]
      · rw [Function.update_of_ne hdc]
  · by_cases hdc : d = c
    · subst hdc
      simp [(h.nodup d).erase l]
    · rw [Function.update_of_ne hdc]
      exact h.nodup d
  · by_cases hdc : d = c
    · subst hdc
      simp [h.count d, List.length_erase_of_mem hmem]
    · rw [Function.update_of_ne hdc, Function.update_of_ne hdc]
      exact h.count d
  · by_cases hdc : d = c
    · subst hdc
      rw [Function.update_self, List.mem_erase_of_ne (Ne.symm (hswitch u hu hs))]
      exact h.switching u d hu hs
    · rw [Function.update_of_ne hdc]
      exact h.switching u d hu hs
  · have hdc : d ≠ c := by
      rintro rfl
      rw [hon] at hd
      cases hd
    rw [Function.update_of_ne hdc]
    exact h.arriving d hd
  · have hdc : d ≠ c := by
      rintro rfl
      rw [howes] at hb
      cases hb
    rw [Function.update_of_ne hdc]
    exact h.owing d b hb
  · have hdc : d ≠ c := by
      rintro rfl
      rw [hposted] at hx
      cases hx
    rw [Function.update_of_ne hdc]
    exact h.posting d x hx
  · have hdc : d ≠ c := by
      rintro rfl
      simp at hx
    rw [Function.update_of_ne hdc] at hx ⊢
    exact h.testing d x b hx

/-- A processor that does not sleep takes and drops locks. -/
theorem Roused.hold
    (h : Roused loc stage held floor owes curthread runqueue ipiPending waiting)
    (hwait : waiting c = .no) (ls : List (Spin n)) :
    Roused loc stage (Function.update held c ls) floor owes curthread runqueue ipiPending
      waiting := by
  refine { h with asleep := fun d hd => ?_ }
  have hdc : d ≠ c := by
    rintro rfl
    exact hd hwait
  rw [Function.update_of_ne hdc]
  exact h.asleep d hd

end Locks

theorem Here.not_waiting (h : Here g s t c v) (hv : (∀ st, v.stage ≠ .dozing st) ∨ v.locks ≠ []) :
    s.waiting c = .no := by
  by_contra hw
  obtain ⟨-, hheld, st, hst⟩ := h.inv.roused.asleep c hw
  rw [h.cur, h.stage] at hst
  rw [h.held] at hheld
  rcases hv with hv | hv
  · exact hv st hst
  · exact hv hheld

theorem does_spinlockAcquire {l : Spin n} (hv : v.Runs) (hl : ∀ l' ∈ v.locks, l'.rank < l.rank)
    (hst : ∀ st, v.stage ≠ .dozing st) :
    Does t v (spinlockAcquire l) fun _ v' =>
      ∃ c, v.At c ∧ v' = { v with locks := l :: v.locks, loc := some (.on c) } := by
  refine does_onCpu hv fun g s c h => ?_
  cases hholder : s.splkHolder l with
  | some d =>
      have hdc : d ≠ c := by
        rintro rfl
        have hmem := (h.inv.locked.holder l d).mp hholder
        rw [h.held] at hmem
        exact lt_irrefl _ (hl l hmem)
      simp only [if_neg hdc]
      refine ⟨⟨⟨d, hholder⟩, fun b hb l' hl' => ?_⟩, fun x s' hx => by cases hx⟩
      have hbc : b = c := h.inv.cur_inj (hb.trans h.cur.symm)
      subst hbc
      have hmem := (h.inv.locked.holder l' b).mp hl'
      rw [h.held] at hmem
      exact hl l' hmem
  | none =>
      refine ⟨trivial, fun x s' hx => ?_⟩
      cases hx
      have hcount := (h.inv.levelled.on t c h.loc).2
      have hcurspl := (h.inv.levelled.on t c h.loc).1
      have hlev := h.inv.levelled.set h.loc (fun _ => h.unique) (g.spl t)
        (l :: g.held c) (k := s.tIplhighCount t + 1) (by rw [hcount, List.length_cons]; omega)
      rw [← hcurspl, Function.update_eq_self, hcurspl, Function.update_eq_self] at hlev
      refine ⟨{ g with held := Function.update g.held c (l :: g.held c) },
        { h.inv.toCore with
          locked := h.inv.locked.acquire hholder (h.cur ▸ h.loc)
          levelled := hlev
          roused := h.inv.roused.hold (h.not_waiting (.inl hst)) _ }, le_rfl,
        ⟨fun _ _ => rfl, fun _ _ => rfl, fun d hd => by simp [Ghost.desk, hd]⟩, c, h.put_self, ?_⟩
      rw [← View.put_of_not_open (v := { v with locks := l :: v.locks }) (by simp [View.Open])]
      refine Ghost.shown_put h.loc h.self ?_
      simp [Ghost.desk, h.held, h.floor, h.owes, h.posted, h.found]

theorem does_spinlockRelease {l : Spin n} (hc : v.loc = some (.on c)) (hmem : l ∈ v.locks)
    (howes : v.owes = none) (hposted : v.posted = none)
    (hswitch : v.stage.switching = true → l ≠ .runqueue c) :
    Does t v (spinlockRelease l) fun _ v' =>
      v' = ({ v with locks := v.locks.erase l, found := none }).put c := by
  refine does_onCpu_at hc fun g s h => ?_
  have hheld : l ∈ g.held c := h.held ▸ hmem
  rw [if_pos ((h.inv.locked.holder l c).mpr hheld)]
  refine ⟨trivial, fun x s' hx => ?_⟩
  cases hx
  obtain ⟨hcurspl, hcount⟩ := h.inv.levelled.on t c h.loc
  have hlen := List.length_erase_of_mem hheld
  have hpos := List.length_pos_of_mem hheld
  have hlev := h.inv.levelled.set h.loc (fun _ => h.unique) (g.spl t)
    ((g.held c).erase l) (k := s.tIplhighCount t - 1) (by rw [hcount, hlen]; omega)
  rw [← hcurspl, Function.update_eq_self, hcurspl, Function.update_eq_self] at hlev
  have hswitching : ∀ u, g.loc u = .on c → (g.stage u).switching = true → l ≠ .runqueue c := by
    intro u hu hs
    rw [h.unique hu, h.stage] at hs
    exact hswitch hs
  have hzero : ∀ b x z, Function.update g.found c none b = some (x, z) →
      (z = true ↔ s.semCount x = 0) := by
    intro b x z hx
    by_cases hb : b = c
    · simp [hb] at hx
    · rw [Function.update_of_ne hb] at hx
      exact h.inv.signalled.zero b x z hx
  refine ⟨{ g with
      held := Function.update g.held c ((g.held c).erase l)
      found := Function.update g.found c none }, _, rfl,
    { h.inv.toCore with
      locked := h.inv.locked.release hheld (h.cur ▸ h.loc) (h.owes.trans howes)
        (h.posted.trans hposted) hswitching
      levelled := hlev
      roused := h.inv.roused.hold (h.not_waiting (.inr (List.ne_nil_of_mem hmem))) _
      signalled := { h.inv.signalled with zero := hzero } }, le_rfl,
    ⟨fun _ _ => rfl, fun _ _ => rfl, fun b hb => by simp [Ghost.desk, hb]⟩, h.loc, h.self, ?_⟩
  simp [Ghost.desk, h.held, h.floor, h.owes, h.posted]

theorem does_assertHeld {l : Spin n} (hc : v.loc = some (.on c)) (hmem : l ∈ v.locks) :
    Does t v (assertHeld l) fun _ v' => v' = v := by
  refine does_kassert (.inr ⟨c, hc⟩) fun g s d h => ?_
  rw [beq_iff_eq, h.inv.locked.holder, h.held]
  exact hmem

theorem does_curcpu (hc : v.loc = some (.on c)) : Does t v curcpu fun x v' => v' = v ∧ x = c :=
  does_look (.inr ⟨c, hc⟩) fun _ _ _ h => View.At.eq h.put_self hc

theorem does_curthread (hv : v.Runs) : Does t v curthread fun x v' => v' = v ∧ x = t :=
  does_look hv fun _ _ _ _ => rfl

/-! ## Interrupts between processors -/

section Rousing

variable {loc : Thread → Loc n} {stage : Thread → Stage} {held : Fin n → List (Spin n)}
  {floor : Fin n → Nat} {owes : Fin n → Option (Fin n)} {posted : Fin n → Option Nat}
  {found : Fin n → Option (Nat × Bool)}
  {curthread : Fin n → Thread} {spinlocks : Fin n → Nat} {splkHolder : Spin n → Option (Fin n)}
  {runqueue : Fin n → List Thread} {ipiPending : Fin n → Ipi → Bool} {waiting : Fin n → Waiting}

theorem Locked.settle
    (h : Locked loc stage held owes posted found curthread spinlocks splkHolder) :
    Locked loc stage held (Function.update owes c none) posted found curthread spinlocks
      splkHolder := by
  refine { h with arriving := fun b hb => ⟨(h.arriving b hb).1, ?_⟩, owing := fun b d hd => ?_ }
  · by_cases hbc : b = c
    · rw [hbc, Function.update_self]
    · rw [Function.update_of_ne hbc]
      exact (h.arriving b hb).2
  · by_cases hbc : b = c
    · simp [hbc] at hd
    · rw [Function.update_of_ne hbc] at hd
      exact h.owing b d hd

/-- The processor `c` has seen to `d`, on whose run queue it had put a thread. -/
theorem Roused.settle
    (h : Roused loc stage held floor owes curthread runqueue ipiPending waiting)
    (hd : ∀ d u st, owes c = some d → loc u = .on d → stage u = .dozing st →
      ipiPending d .unidle = true) :
    Roused loc stage held floor (Function.update owes c none) curthread runqueue ipiPending
      waiting := by
  refine { h with doze := fun u d st hu hst => ?_ }
  rcases h.doze u d st hu hst with hempty | hpending | ⟨b, hb⟩
  · exact .inl hempty
  · exact .inr (.inl hpending)
  · by_cases hbc : b = c
    · subst hbc
      exact .inr (.inl (hd d u st hb hu hst))
    · refine .inr (.inr ⟨b, ?_⟩)
      rwa [Function.update_of_ne hbc]

/-- A processor that is awake takes note of what the others wanted from it. -/
theorem Roused.heed
    (h : Roused loc stage held floor owes curthread runqueue ipiPending waiting)
    (hown : ∀ u st, loc u = .on c → stage u ≠ .dozing st) (bits : Ipi → Bool) :
    Roused loc stage held floor owes curthread runqueue (Function.update ipiPending c bits)
      waiting := by
  refine { h with doze := fun u d st hu hst => ?_ }
  have hdc : d ≠ c := by
    rintro rfl
    exact hown u st hu hst
  rw [Function.update_of_ne hdc]
  exact h.doze u d st hu hst

theorem Roused.signal
    (h : Roused loc stage held floor owes curthread runqueue ipiPending waiting)
    {pending' : Fin n → Ipi → Bool}
    (hp : ∀ d, ipiPending d .unidle = true → pending' d .unidle = true) :
    Roused loc stage held floor owes curthread runqueue pending' waiting := by
  refine { h with doze := fun u d st hu hst => ?_ }
  rcases h.doze u d st hu hst with hempty | hpending | howed
  · exact .inl hempty
  · exact .inr (.inl (hp d hpending))
  · exact .inr (.inr howed)

end Rousing

theorem does_setPending {target : Fin n} {code : Ipi} (hc : v.loc = some (.on c))
    (howes : v.owes = none ∨ v.owes = some target ∧ code = .unidle) :
    Does t v (change fun _ _ s => { s with
      cIpiPending := Function.update s.cIpiPending target
        (Function.update (s.cIpiPending target) code true) })
      fun _ v' => v' = ({ v with owes := none }).put c := by
  refine does_change_at hc fun g s h => ?_
  have hmono : ∀ b, s.cIpiPending b .unidle = true → Function.update s.cIpiPending target
      (Function.update (s.cIpiPending target) code true) b .unidle = true := by
    intro b hb
    by_cases hbt : b = target
    · subst hbt
      rw [Function.update_self, Function.update_apply]
      split
      · rfl
      · exact hb
    · rwa [Function.update_of_ne hbt]
  have hset : ∀ b u st, g.owes c = some b → g.loc u = .on b → g.stage u = .dozing st →
      Function.update s.cIpiPending target (Function.update (s.cIpiPending target) code true) b
        .unidle = true := by
    intro b u st hb _ _
    rw [h.owes] at hb
    rcases howes with hnone | ⟨hsome, rfl⟩
    · rw [hnone] at hb
      cases hb
    · rw [hsome] at hb
      cases hb
      simp
  refine ⟨{ g with owes := Function.update g.owes c none }, ?_, le_rfl, ?_, h.loc, h.self, ?_⟩
  · exact { h.inv.toCore with
      locked := h.inv.locked.settle
      roused := (h.inv.roused.signal hmono).settle hset }
  · exact ⟨fun _ _ => rfl, fun _ _ => rfl, fun b hb => by simp [Ghost.desk, hb]⟩
  · simp [Ghost.desk, h.held, h.floor, h.posted, h.found]

theorem does_ipiSend {target : Fin n} {code : Ipi} (hv : v.Runs)
    (hl : ∀ l ∈ v.locks, l.rank < 2) (hst : ∀ st, v.stage ≠ .dozing st) (hposted : v.posted = none)
    (howes : v.owes = none ∨ v.owes = some target ∧ code = .unidle) :
    Does t v (ipiSend target code) fun _ v' =>
      ∃ c, v.At c ∧ v' = ({ v with owes := none, found := none }).put c := by
  refine .bind (does_spinlockAcquire (l := .ipi target) hv hl hst) ?_
  rintro _ _ ⟨c, hat, rfl⟩
  refine .bind (does_setPending (c := c) rfl howes) ?_
  rintro _ _ rfl
  rw [View.put_of_not_open (by simp [View.Open])]
  refine .mono (does_spinlockRelease (c := c) rfl (by simp) rfl hposted (by simp)) ?_
  rintro _ _ rfl
  refine ⟨c, hat, ?_⟩
  simp [View.put]

theorem does_clearPending (hc : v.loc = some (.on c)) (hst : ∀ st, v.stage ≠ .dozing st) :
    Does t v (change fun _ _ s => { s with
        cIpiPending := Function.update s.cIpiPending c fun _ => false })
      fun _ v' => v' = v.put c := by
  refine does_change_at hc fun g s h => ⟨g, ?_, le_rfl,
    ⟨fun _ _ => rfl, fun _ _ => rfl, fun _ _ => rfl⟩, h.loc, h.self, h.desk⟩
  refine { h.inv.toCore with roused := h.inv.roused.heed (fun u st hu => ?_) _ }
  rw [h.unique hu, h.stage]
  exact hst st

end Os161Paging.Threads
