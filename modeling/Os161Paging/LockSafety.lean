import Mathlib.Data.Set.Card
import Os161Paging.Synch

/-!
# What the lock and the condition variable guarantee

Ownership of the lock is recorded twice, in the count of `lk_sem` and in
`lk_owner`, and the two are updated in different sections. The invariant
ties both to one thing, the token a thread takes in `P` and gives back in
`V`: there is one token, it is with the semaphore or with one thread, and
where a thread is in the code says whether it has the token, whether
`lk_owner` names it and which spinlocks it holds. Everything else is read
off these tables.
-/

namespace Os161Paging.Synch

variable {T : Type} {s s' : State T} {t u : T}

/-! ## What a program counter says -/

/-- Whether a thread there has the token, where its place decides it. -/
def Pc.token : Pc → Option Bool
  | .acquireSet _ | .releaseAssert .cvWait | .releaseClear _ | .releaseV _ | .waitLock
  | .signalLock _ | .signalWake _ | .signalUnlock _ => some true
  | .acquireTest .cvWait | .acquireAssert .cvWait | .acquireP _ | .acquireAsleep _
  | .releaseUnlock _ | .waitSleep | .waitAsleep | .waitRelock | .waitUnlock => some false
  | .idle | .acquireTest .caller | .acquireAssert .caller | .releaseAssert .caller
  | .waitAssert | .signalAssert _ => none

/-- `lk_owner` names a thread that is there with the token. -/
def Pc.owning : Pc → Bool
  | .acquireSet _ | .releaseV _ => false
  | _ => true

/-- A thread that is there with the token is between `lock_acquire` and `lock_release`. -/
def Pc.inside : Pc → Bool
  | .acquireSet _ | .releaseAssert _ | .releaseClear _ | .releaseV _ => false
  | _ => true

def Pc.hasLk : Pc → Bool
  | .releaseV _ | .releaseUnlock _ => true
  | _ => false

def Pc.hasCv : Pc → Bool
  | .releaseAssert .cvWait | .releaseClear .cvWait | .releaseV .cvWait | .releaseUnlock .cvWait
  | .waitSleep | .waitUnlock | .signalWake _ | .signalUnlock _ => true
  | _ => false

def Pc.inP : Pc → Bool
  | .acquireAsleep _ => true
  | _ => false

/-- What the shared data says about `t` is what its program counter says. -/
structure Agrees (s : State T) (t : T) : Prop where
  token : ∀ b, (s.pc t).token = some b → s.passed t = b
  owner : s.lkOwner = some t ↔ s.passed t = true ∧ (s.pc t).owning = true
  holding : s.holding t = (s.passed t && (s.pc t).inside)
  lk : s.lkLock = some t ↔ (s.pc t).hasLk = true
  cv : s.cvLock = some t ↔ (s.pc t).hasCv = true
  sem : t ∈ s.semWchan ↔ (s.pc t).inP = true
  chan : t ∈ s.cvWchan ↔ s.pc t = .waitAsleep

def OneToken (s : State T) : Prop :=
  (s.semCount = 1 ∧ ∀ t, s.passed t = false) ∨
    (s.semCount = 0 ∧ ∃ t, ∀ u, s.passed u = true ↔ u = t)

structure Inv (s : State T) : Prop where
  one : OneToken s
  semNodup : s.semWchan.Nodup
  cvNodup : s.cvWchan.Nodup
  agrees : ∀ t, Agrees s t

theorem OneToken.unique (h : OneToken s) (ht : s.passed t = true) (hu : s.passed u = true) :
    t = u := by
  rcases h with ⟨-, hall⟩ | ⟨-, w, hw⟩
  · simp [hall t] at ht
  · exact ((hw t).mp ht).trans ((hw u).mp hu).symm

theorem OneToken.conserved (h : OneToken s) :
    (s.semCount : ℕ∞) + {t | s.passed t = true}.encard = 1 := by
  rcases h with ⟨hone, hall⟩ | ⟨hzero, w, hw⟩
  · simp [hone, hall]
  · have : {t | s.passed t = true} = {w} := Set.ext hw
    simp [hzero, this]

theorem Inv.init : Inv (State.init : State T) where
  one := .inl ⟨rfl, fun _ => rfl⟩
  semNodup := List.nodup_nil
  cvNodup := List.nodup_nil
  agrees _ := by constructor <;> simp [State.init, Pc.token, Pc.hasLk, Pc.hasCv, Pc.inP, Pc.inside]

/-! ## Steps that wake nobody -/

/-- `u` and all that is recorded about it are the same in `s'`. -/
structure Untouched (s s' : State T) (u : T) : Prop where
  pc : s'.pc u = s.pc u
  passed : s'.passed u = s.passed u
  holding : s'.holding u = s.holding u
  owner : s'.lkOwner = some u ↔ s.lkOwner = some u
  lk : s'.lkLock = some u ↔ s.lkLock = some u
  cv : s'.cvLock = some u ↔ s.cvLock = some u
  sem : u ∈ s'.semWchan ↔ u ∈ s.semWchan
  chan : u ∈ s'.cvWchan ↔ u ∈ s.cvWchan

theorem Agrees.untouched (h : Agrees s u) (hu : Untouched s s' u) : Agrees s' u where
  token := by rw [hu.pc, hu.passed]; exact h.token
  owner := by rw [hu.owner, hu.pc, hu.passed]; exact h.owner
  holding := by rw [hu.holding, hu.pc, hu.passed]; exact h.holding
  lk := by rw [hu.lk, hu.pc]; exact h.lk
  cv := by rw [hu.cv, hu.pc]; exact h.cv
  sem := by rw [hu.sem, hu.pc]; exact h.sem
  chan := by rw [hu.chan, hu.pc]; exact h.chan

theorem Inv.act (hi : Inv s) (hone : OneToken s') (hsem : s'.semWchan.Nodup)
    (hcv : s'.cvWchan.Nodup) (ht : Agrees s' t) (hu : ∀ u, u ≠ t → Untouched s s' u) : Inv s' where
  one := hone
  semNodup := hsem
  cvNodup := hcv
  agrees u := by
    by_cases h : u = t
    · exact h ▸ ht
    · exact (hi.agrees u).untouched (hu u h)

variable [DecidableEq T]

attribute [local simp] State.goto State.setPassed State.setHolding

/-- Going from `p` to `q` changes nothing that the shared data says. -/
def Pc.Alike (p q : Pc) : Prop :=
  q.owning = p.owning ∧ q.inside = p.inside ∧ q.hasLk = p.hasLk ∧ q.hasCv = p.hasCv ∧
    q.inP = p.inP ∧ (q = .waitAsleep ↔ p = .waitAsleep)

theorem Inv.goto {q : Pc} (hi : Inv s) (h : (s.pc t).Alike q)
    (hq : ∀ b, q.token = some b → s.passed t = b) : Inv (s.goto t q) := by
  have ha := hi.agrees t
  obtain ⟨h1, h2, h3, h4, h5, h6⟩ := h
  refine hi.act (t := t) hi.one hi.semNodup hi.cvNodup ?_ fun u hne => ?_
  · constructor
    · simpa using hq
    · simpa [h1] using ha.owner
    · simpa [h2] using ha.holding
    · simpa [h3] using ha.lk
    · simpa [h4] using ha.cv
    · simpa [h5] using ha.sem
    · simpa [h6] using ha.chan
  · constructor <;> simp [hne]

attribute [local simp] Pc.token Pc.owning Pc.inside Pc.hasLk Pc.hasCv Pc.inP Pc.Alike

theorem Inv.enter (hi : Inv s) (c : Call) (h : s.pc t = .idle) : Inv (s.enter t c) := by
  have ha := hi.agrees t
  cases c with
  | lockRelease =>
      refine hi.act (t := t) hi.one hi.semNodup hi.cvNodup ?_ fun u hne => ?_
      · obtain ⟨h1, h2, h3, h4, h5, h6, h7⟩ := ha
        constructor <;> simp_all [State.enter]
      · constructor <;> simp [State.enter, hne]
  | _ => exact hi.goto (by simp [h]) (by simp)

theorem Inv.acquireSleep {r : Ret} (hi : Inv s) (h : s.pc t = .acquireP r) :
    Inv { s.goto t (.acquireAsleep r) with semWchan := s.semWchan ++ [t] } := by
  obtain ⟨h1, h2, h3, h4, h5, h6, h7⟩ := hi.agrees t
  refine hi.act (t := t) hi.one ?_ hi.cvNodup ?_ fun u hne => ?_
  · have hnot : t ∉ s.semWchan := by simp [h6, h]
    simpa [List.nodup_append, hi.semNodup] using fun a ha (hat : a = t) => hnot (hat ▸ ha)
  · constructor <;> simp_all
  · constructor <;> simp [hne]

theorem Inv.acquirePass {r : Ret} (hi : Inv s) (h : s.pc t = .acquireP r) (hc : s.semCount ≠ 0) :
    Inv ({ s.goto t (.acquireSet r) with semCount := s.semCount - 1 }.setPassed t true) := by
  obtain ⟨h1, h2, h3, h4, h5, h6, h7⟩ := hi.agrees t
  refine hi.act (t := t) ?_ hi.semNodup hi.cvNodup ?_ fun u hne => ?_
  · rcases hi.one with ⟨hone, hall⟩ | ⟨hzero, -⟩
    · refine .inr ⟨by simp [hone], t, fun u => ?_⟩
      by_cases hut : u = t <;> simp [hut, hall]
    · exact absurd hzero hc
  · constructor <;> simp_all
  · constructor <;> simp [hne]

theorem Inv.acquireSet {r : Ret} (hi : Inv s) (h : s.pc t = .acquireSet r)
    (ho : s.lkOwner = none) :
    Inv ({ s.goto t .idle with lkOwner := some t }.setHolding t true) := by
  obtain ⟨h1, h2, h3, h4, h5, h6, h7⟩ := hi.agrees t
  refine hi.act (t := t) hi.one hi.semNodup hi.cvNodup ?_ fun u hne => ?_
  · constructor <;> simp_all
  · constructor <;> simp [hne, hne.symm, ho]

/-! ### `lock_release` -/

theorem Inv.releaseClear {r : Ret} (hi : Inv s) (h : s.pc t = .releaseClear r)
    (hl : s.lkLock = none) :
    Inv { s.goto t (.releaseV r) with lkLock := some t, lkOwner := none } := by
  obtain ⟨h1, h2, h3, h4, h5, h6, h7⟩ := hi.agrees t
  have ho : s.lkOwner = some t := by simp_all
  refine hi.act (t := t) hi.one hi.semNodup hi.cvNodup ?_ fun u hne => ?_
  · cases r <;> constructor <;> simp_all
  · constructor <;> simp [hne, hne.symm, ho, hl]

theorem Inv.releaseV {r : Ret} (hi : Inv s) (h : s.pc t = .releaseV r) :
    s.semCount = 0 ∧
      Inv ({ s.goto t (.releaseUnlock r) with semCount := 1 }.setPassed t false) := by
  obtain ⟨h1, h2, h3, h4, h5, h6, h7⟩ := hi.agrees t
  have hp : s.passed t = true := h1 true (by simp [h])
  rcases hi.one with ⟨-, hall⟩ | ⟨hzero, w, hw⟩
  · simp [hall t] at hp
  · obtain rfl : t = w := (hw t).mp hp
    refine ⟨hzero, hi.act (t := t) (.inl ⟨rfl, fun u => ?_⟩) hi.semNodup hi.cvNodup ?_
      fun u hne => ?_⟩
    · by_cases hut : u = t
      · simp [hut]
      · have : s.passed u ≠ true := fun hu => hut ((hw u).mp hu)
        simpa [hut] using this
    · cases r <;> constructor <;> simp_all
    · constructor <;> simp [hne]

theorem Inv.releaseUnlock {r : Ret} {q : Pc} (hi : Inv s) (h : s.pc t = .releaseUnlock r)
    (hq : (r = .caller ∧ q = .idle) ∨ (r = .cvWait ∧ q = .waitSleep)) :
    Inv { s.goto t q with lkLock := none } := by
  obtain ⟨h1, h2, h3, h4, h5, h6, h7⟩ := hi.agrees t
  have hl : s.lkLock = some t := by simp [h4, h]
  refine hi.act (t := t) hi.one hi.semNodup hi.cvNodup ?_ fun u hne => ?_
  · rcases hq with ⟨rfl, rfl⟩ | ⟨rfl, rfl⟩ <;> constructor <;> simp_all
  · constructor <;> simp [hne, hne.symm, hl]

/-! ### `cv_wait`, `cv_signal`, `cv_broadcast` -/

theorem Inv.waitLock (hi : Inv s) (h : s.pc t = .waitLock) (hl : s.cvLock = none) :
    Inv ({ s.goto t (.releaseAssert .cvWait) with cvLock := some t }.setHolding t false) := by
  obtain ⟨h1, h2, h3, h4, h5, h6, h7⟩ := hi.agrees t
  refine hi.act (t := t) hi.one hi.semNodup hi.cvNodup ?_ fun u hne => ?_
  · constructor <;> simp_all
  · constructor <;> simp [hne, hne.symm, hl]

theorem Inv.waitSleep (hi : Inv s) (h : s.pc t = .waitSleep) :
    Inv { s.goto t .waitAsleep with cvWchan := s.cvWchan ++ [t], cvLock := none } := by
  obtain ⟨h1, h2, h3, h4, h5, h6, h7⟩ := hi.agrees t
  have hl : s.cvLock = some t := by simp [h5, h]
  refine hi.act (t := t) hi.one hi.semNodup ?_ ?_ fun u hne => ?_
  · have hnot : t ∉ s.cvWchan := by simp [h7, h]
    simpa [List.nodup_append, hi.cvNodup] using fun a ha (hat : a = t) => hnot (hat ▸ ha)
  · constructor <;> simp_all
  · constructor <;> simp [hne, hne.symm, hl]

theorem Inv.cvAcquire {p q : Pc} (hi : Inv s) (h : s.pc t = p) (hl : s.cvLock = none)
    (hpq : (p = .waitRelock ∧ q = .waitUnlock) ∨
      ∃ all, p = .signalLock all ∧ q = .signalWake all) :
    Inv { s.goto t q with cvLock := some t } := by
  obtain ⟨h1, h2, h3, h4, h5, h6, h7⟩ := hi.agrees t
  refine hi.act (t := t) hi.one hi.semNodup hi.cvNodup ?_ fun u hne => ?_
  · rcases hpq with ⟨rfl, rfl⟩ | ⟨all, rfl, rfl⟩ <;> constructor <;> simp_all
  · constructor <;> simp [hne, hne.symm, hl]

theorem Inv.cvRelease {p q : Pc} (hi : Inv s) (h : s.pc t = p)
    (hpq : (p = .waitUnlock ∧ q = .acquireTest .cvWait) ∨
      ∃ all, p = .signalUnlock all ∧ q = .idle) :
    Inv { s.goto t q with cvLock := none } := by
  obtain ⟨h1, h2, h3, h4, h5, h6, h7⟩ := hi.agrees t
  have hl : s.cvLock = some t := by rcases hpq with ⟨rfl, -⟩ | ⟨all, rfl, -⟩ <;> simp [h5, h]
  refine hi.act (t := t) hi.one hi.semNodup hi.cvNodup ?_ fun u hne => ?_
  · rcases hpq with ⟨rfl, rfl⟩ | ⟨all, rfl, rfl⟩ <;> constructor <;> simp_all
  · constructor <;> simp [hne, hne.symm, hl]

/-! ## Wakeups -/

theorem Inv.semWakeone (hi : Inv s) : Inv s.semWakeone := by
  unfold State.semWakeone
  split
  · exact hi
  · next u q hq =>
      have hnd := hi.semNodup
      rw [hq, List.nodup_cons] at hnd
      obtain ⟨h1, h2, h3, h4, h5, h6, h7⟩ := hi.agrees u
      obtain ⟨r, hr⟩ : ∃ r, s.pc u = .acquireAsleep r := by
        have : (s.pc u).inP = true := h6.mp (by simp [hq])
        revert this
        cases s.pc u <;> simp
      refine hi.act (t := u) hi.one hnd.2 hi.cvNodup ?_ fun w hne => ?_
      · constructor <;> simp_all [State.threadMakeRunnable, Pc.woken]
      · constructor <;> simp [State.threadMakeRunnable, hne, hq]

theorem Inv.cvWakeone (hi : Inv s) : Inv s.cvWakeone := by
  unfold State.cvWakeone
  split
  · exact hi
  · next u q hq =>
      have hnd := hi.cvNodup
      rw [hq, List.nodup_cons] at hnd
      obtain ⟨h1, h2, h3, h4, h5, h6, h7⟩ := hi.agrees u
      have hr : s.pc u = .waitAsleep := h7.mp (by simp [hq])
      refine hi.act (t := u) hi.one hi.semNodup hnd.2 ?_ fun w hne => ?_
      · constructor <;> simp_all [State.threadMakeRunnable, Pc.woken]
      · constructor <;> simp [State.threadMakeRunnable, hne, hq]

theorem foldl_threadMakeRunnable (l : List T) (s : State T) :
    l.foldl State.threadMakeRunnable s =
      { s with pc := fun u => if u ∈ l then (s.pc u).woken else s.pc u } := by
  have hidem : ∀ p : Pc, p.woken.woken = p.woken := fun p => by cases p <;> rfl
  induction l generalizing s with
  | nil => simp
  | cons a l ih =>
      rw [List.foldl_cons, ih]
      simp only [State.threadMakeRunnable, State.goto, State.mk.injEq, true_and, and_true]
      funext u
      by_cases hu : u = a
      · subst hu
        simp [hidem]
      · simp [hu]

theorem Inv.cvWakeall (hi : Inv s) : Inv s.cvWakeall := by
  rw [State.cvWakeall, foldl_threadMakeRunnable]
  refine ⟨hi.one, hi.semNodup, List.nodup_nil, fun u => ?_⟩
  obtain ⟨h1, h2, h3, h4, h5, h6, h7⟩ := hi.agrees u
  by_cases hu : u ∈ s.cvWchan
  · have hr := h7.mp hu
    constructor <;> simp_all [Pc.woken]
  · constructor <;> simp_all

/-! ## Every step keeps the invariant -/

omit [DecidableEq T] in
theorem underLk_eq_ok {o : Outcome Blocked (State T)} :
    underLk s o = .ok s' ↔ s.lkLock = none ∧ o = .ok s' := by
  unfold underLk
  split <;> simp [*]

theorem Inv.assertHeld {q : Pc} (hi : Inv s) (h : assertHeld t s q = .ok s')
    (hq : (s.pc t).Alike q) (htok : q.token ≠ some false) :
    Inv s' := by
  obtain ⟨-, h⟩ := underLk_eq_ok.mp h
  split at h
  · next hold =>
      cases h
      have hp := ((hi.agrees t).owner.mp (by simpa [lockDoIHold] using hold)).1
      exact hi.goto hq fun b hb => by cases b <;> simp_all
  · exact absurd h nofun

theorem Inv.next (hi : Inv s) (h : next t s = .ok s') : Inv s' := by
  unfold Synch.next at h
  cases hpc : s.pc t with
  | idle =>
      rw [hpc] at h
      exact Outcome.ok.inj h ▸ hi
  | acquireTest r =>
      rw [hpc] at h
      obtain ⟨-, h⟩ := underLk_eq_ok.mp h
      cases h
      exact hi.goto (by simp [hpc]) fun b hb => (hi.agrees t).token b (by cases r <;> simp_all)
  | acquireAssert r =>
      rw [hpc] at h
      obtain ⟨-, h⟩ := underLk_eq_ok.mp h
      split at h
      · exact absurd h nofun
      · next hold =>
          cases h
          refine hi.goto (by simp [hpc]) fun b hb => ?_
          have := (hi.agrees t).owner
          simp_all [lockDoIHold]
  | acquireP r =>
      rw [hpc] at h
      simp only at h
      split_ifs at h with hc
      · cases h
        exact hi.acquireSleep hpc
      · cases h
        exact hi.acquirePass hpc hc
  | acquireAsleep r =>
      rw [hpc] at h
      exact absurd h nofun
  | acquireSet r =>
      rw [hpc] at h
      obtain ⟨-, h⟩ := underLk_eq_ok.mp h
      split_ifs at h with ho
      cases h
      exact hi.acquireSet hpc ho
  | releaseAssert r =>
      rw [hpc] at h
      exact hi.assertHeld h (by cases r <;> simp [hpc]) (by simp)
  | releaseClear r =>
      rw [hpc] at h
      simp only at h
      split_ifs at h with hl
      cases h
      exact hi.releaseClear hpc hl
  | releaseV r =>
      rw [hpc] at h
      obtain ⟨hzero, hi'⟩ := hi.releaseV hpc
      have hone : (s.semCount + 1) % 2 ^ 32 = 1 := by simp [hzero]
      simp only [hone, one_ne_zero, if_false] at h
      cases h
      exact hi'.semWakeone
  | releaseUnlock r =>
      rw [hpc] at h
      cases r with
      | caller =>
          cases h
          exact hi.releaseUnlock hpc (.inl ⟨rfl, rfl⟩)
      | cvWait =>
          cases h
          exact hi.releaseUnlock hpc (.inr ⟨rfl, rfl⟩)
  | waitAssert =>
      rw [hpc] at h
      exact hi.assertHeld h (by simp [hpc]) (by simp)
  | waitLock =>
      rw [hpc] at h
      simp only at h
      split_ifs at h with hl
      cases h
      exact hi.waitLock hpc hl
  | waitSleep =>
      rw [hpc] at h
      simp only at h
      split_ifs at h
      cases h
      exact hi.waitSleep hpc
  | waitAsleep =>
      rw [hpc] at h
      exact absurd h nofun
  | waitRelock =>
      rw [hpc] at h
      simp only at h
      split_ifs at h with hl
      cases h
      exact hi.cvAcquire hpc hl (.inl ⟨rfl, rfl⟩)
  | waitUnlock =>
      rw [hpc] at h
      cases h
      exact hi.cvRelease hpc (.inl ⟨rfl, rfl⟩)
  | signalAssert all =>
      rw [hpc] at h
      exact hi.assertHeld h (by simp [hpc]) (by simp)
  | signalLock all =>
      rw [hpc] at h
      simp only at h
      split_ifs at h with hl
      cases h
      exact hi.cvAcquire hpc hl (.inr ⟨all, rfl, rfl⟩)
  | signalWake all =>
      rw [hpc] at h
      have hi' : Inv (s.goto t (.signalUnlock all)) :=
        hi.goto (by simp [hpc]) fun b hb => (hi.agrees t).token b (by simp_all)
      simp only at h
      split_ifs at h with hl hall
      · cases h
        exact hi'.cvWakeall
      · cases h
        exact hi'.cvWakeone
  | signalUnlock all =>
      rw [hpc] at h
      cases h
      exact hi.cvRelease hpc (.inr ⟨all, rfl, rfl⟩)

theorem reachable_inv (h : (interleavings T).Reachable s) : Inv s := by
  refine h.invariant (I := Inv) ?_ ?_
  · rintro s rfl
    exact Inv.init
  · rintro s s' hi ⟨m, hm⟩
    cases m with
    | call t c =>
        obtain ⟨hidle, hm⟩ := Option.ite_none_right_eq_some.mp hm
        exact Option.some.inj hm ▸ hi.enter c hidle
    | go t =>
        have hn : next t s = .ok s' := by
          revert hm
          simp only [perform]
          cases next t s <;> simp
        exact hi.next hn

/-- The only assertions that can fail are those against misuse: taking a lock
one holds, and leaving, waiting or signalling without it. -/
theorem Inv.next_panic {m : String} (hi : Inv s) (h : Synch.next t s = .panic m) :
    m = "!(lock_do_i_hold(lock))" ∨ m = "lock_do_i_hold(lock)" := by
  have ha := hi.agrees t
  have hheld : ∀ p, Synch.assertHeld t s p = .panic m → m = "lock_do_i_hold(lock)" := by
    intro p hp
    simp only [Synch.assertHeld, underLk] at hp
    split_ifs at hp
    exact (Outcome.panic.inj hp).symm
  unfold Synch.next at h
  cases hpc : s.pc t with
  | acquireAssert r =>
      simp only [hpc, underLk] at h
      split_ifs at h
      exact .inl (Outcome.panic.inj h).symm
  | acquireP r =>
      simp only [hpc] at h
      split_ifs at h with hc hs
      simp [State.spinlocks, ha.lk, ha.cv, hpc] at hs
  | acquireSet r =>
      -- an owner would have the token, and this thread has it
      simp only [hpc, underLk] at h
      split_ifs at h with hl ho
      obtain ⟨w, hw⟩ := Option.ne_none_iff_exists'.mp ho
      have hwp := ((hi.agrees w).owner.mp hw).1
      obtain rfl := hi.one.unique (ha.token true (by simp [hpc])) hwp
      have := ha.owner.mp hw
      simp [hpc] at this
  | releaseV r =>
      have hzero := (hi.releaseV hpc).1
      simp [hpc, hzero] at h
  | releaseAssert r => exact .inr (hheld _ (by simpa only [hpc] using h))
  | waitAssert => exact .inr (hheld _ (by simpa only [hpc] using h))
  | signalAssert all => exact .inr (hheld _ (by simpa only [hpc] using h))
  | waitSleep => simp [State.spinlocks, ha.lk, ha.cv, hpc] at h
  | signalWake all => simp [ha.cv, hpc] at h
  | releaseUnlock r => cases r <;> simp [hpc] at h
  | _ =>
      -- the other steps go on or wait
      simp only [hpc, underLk] at h
      first | split_ifs at h | cases h

/-! ## The lock -/

/-- The thread is between the end of a `lock_acquire` and the statement of its
`lock_release` that gives the lock up. -/
def State.Holder (s : State T) (t : T) : Prop :=
  s.holding t = true ∨
    s.passed t = true ∧ ∃ r, s.pc t = .releaseAssert r ∨ s.pc t = .releaseClear r

theorem Inv.holder_iff (hi : Inv s) : lockDoIHold t s = true ↔ s.Holder t := by
  have ha := hi.agrees t
  simp only [lockDoIHold, beq_iff_eq, State.Holder, ha.owner, ha.holding]
  cases s.pc t <;> simp

/-- Whatever calls the threads make and however they interleave: at most one
thread holds the lock, `lock_acquire` never finds an owner in its section,
`lock_do_i_hold` answers true to the holder and to nobody else, and the count
of `lk_sem` and the threads between `P` and `V` add up to one. -/
theorem lock_mutual_exclusion (s : State T) (h : (interleavings T).Reachable s) :
    (∀ t u, s.Holder t → s.Holder u → t = u) ∧
      (∀ t, next t s ≠ .panic "lock->lk_owner == NULL") ∧
      (∀ t, lockDoIHold t s = true ↔ s.Holder t) ∧
      (s.semCount : ℕ∞) + {t | s.passed t = true}.encard = 1 := by
  have hi := reachable_inv h
  refine ⟨fun t u ht hu => ?_, fun t hp => ?_, fun t => hi.holder_iff, hi.one.conserved⟩
  · have hot := hi.holder_iff.mpr ht
    have hou := hi.holder_iff.mpr hu
    simp only [lockDoIHold, beq_iff_eq] at hot hou
    exact Option.some.inj (hot.symm.trans hou)
  · rcases hi.next_panic hp with hm | hm <;> exact absurd hm (by decide)

/-- The state reached when `false` takes the lock and `true` then goes to sleep on it. -/
def contended : State Bool :=
  ([.call false .lockAcquire, .go false, .go false, .go false, .go false, .call true .lockAcquire,
    .go true, .go true, .go true].foldlM (fun s m => perform m s) State.init).get (by decide)

theorem perform_step {m : Move T} (h : perform m s = some s') : (interleavings T).step s s' :=
  ⟨m, h⟩

theorem contended_reachable : (interleavings Bool).Reachable contended :=
  Transitions.Reachable.moves (fun _ _ _ => perform_step) _ (.init rfl) (Option.some_get _).symm

theorem contended_mutual_exclusion :
    contended.Holder false ∧ contended.pc true = .acquireAsleep .caller ∧
      ∀ u, contended.Holder u → u = false := by
  have hf : contended.Holder false := .inl (by decide)
  exact ⟨hf, by decide,
    fun u hu => (lock_mutual_exclusion contended contended_reachable).1 u false hu hf⟩

/-! ## The condition variable -/

/-- A thread there has released the lock inside `cv_wait` and has not been woken. -/
def Pc.parked : Pc → Bool
  | .releaseV .cvWait | .releaseUnlock .cvWait | .waitSleep | .waitAsleep => true
  | _ => false

omit [DecidableEq T] in
/-- A parked thread is on the wait channel or still has `cv_lock`. -/
theorem Inv.parked (hi : Inv s) (h : (s.pc t).parked = true) :
    t ∈ s.cvWchan ∨ s.cvLock = some t := by
  have ha := hi.agrees t
  rw [ha.chan, ha.cv]
  revert h
  cases s.pc t with
  | releaseV r => cases r <;> simp [Pc.parked]
  | releaseUnlock r => cases r <;> simp [Pc.parked]
  | _ => simp [Pc.parked]

/-- Whatever calls the threads make and however they interleave, every wakeup
finds on the wait channel each thread that has released the lock inside
`cv_wait` and has not been woken; `cv_broadcast` then wakes all of them and
`cv_signal` wakes a waiter; and `cv_wait` returns with its caller holding the
lock. -/
theorem cv_loses_no_wakeup (s : State T) (h : (interleavings T).Reachable s) :
    (∀ u all, s.pc u = .signalWake all → ∀ w, (s.pc w).parked = true → w ∈ s.cvWchan) ∧
      (∀ u, s.pc u = .signalWake true → ∃ s', next u s = .ok s' ∧
        ∀ w, (s.pc w).parked = true → s'.pc w = .waitRelock) ∧
      (∀ u, s.pc u = .signalWake false → ∃ s', next u s = .ok s' ∧
        ∀ w, (s.pc w).parked = true →
          ∃ w', (s.pc w').parked = true ∧ s'.pc w' = .waitRelock) ∧
      (∀ t, s.pc t = .acquireSet .cvWait → ∀ s', next t s = .ok s' →
        s'.pc t = .idle ∧ s'.holding t = true ∧ lockDoIHold t s' = true) := by
  have hi := reachable_inv h
  have hfound : ∀ u all, s.pc u = .signalWake all → ∀ w, (s.pc w).parked = true →
      w ∈ s.cvWchan := by
    intro u all hu w hw
    rcases hi.parked hw with hmem | hlock
    · exact hmem
    · -- the waker has `cv_lock`, so the waiter has already dropped it
      have hcv : s.cvLock = some u := by simp [(hi.agrees u).cv, hu]
      obtain rfl := Option.some.inj (hcv.symm.trans hlock)
      simp [hu, Pc.parked] at hw
  have hcv : ∀ u all, s.pc u = .signalWake all → s.cvLock = some u := fun u all hu => by
    simp [(hi.agrees u).cv, hu]
  refine ⟨hfound, fun u hu => ?_, fun u hu => ?_, fun t ht s' hs' => ?_⟩
  · refine ⟨(s.goto u (.signalUnlock true)).cvWakeall, by simp [next, hu, hcv u _ hu],
      fun w hw => ?_⟩
    have hmem := hfound u _ hu w hw
    have hpc := (hi.agrees w).chan.mp hmem
    have hne : w ≠ u := fun e => by simp [← e, hpc] at hu
    simp [State.cvWakeall, foldl_threadMakeRunnable, hmem, hne, hpc, Pc.woken]
  · refine ⟨(s.goto u (.signalUnlock false)).cvWakeone, by simp [next, hu, hcv u _ hu],
      fun w hw => ?_⟩
    obtain ⟨w', q, hq⟩ := List.exists_cons_of_ne_nil (List.ne_nil_of_mem (hfound u _ hu w hw))
    have hpc : s.pc w' = .waitAsleep := (hi.agrees w').chan.mp (by simp [hq])
    have hne : w' ≠ u := fun e => by simp [← e, hpc] at hu
    refine ⟨w', by simp [hpc, Pc.parked], ?_⟩
    simp [State.cvWakeone, hq, State.threadMakeRunnable, hne, hpc, Pc.woken]
  · simp only [next, ht, underLk] at hs'
    split_ifs at hs'
    cases hs'
    simp [lockDoIHold]

/-- The state reached when `true` takes the lock and calls `cv_signal` while the
waiter `false` has released the lock but is not on the channel yet. -/
def signalled : State Bool :=
  ([.call false .lockAcquire, .go false, .go false, .go false, .go false, .call false .cvWait,
    .go false, .go false, .go false, .go false, .go false, .go false, .call true .lockAcquire,
    .go true, .go true, .go true, .go true, .call true .cvSignal, .go true, .go false,
    .go true].foldlM (fun s m => perform m s) State.init).get (by decide)

theorem signalled_finds_waiter :
    signalled.pc true = .signalWake false ∧ false ∈ signalled.cvWchan := by
  have hr : (interleavings Bool).Reachable signalled :=
    Transitions.Reachable.moves (fun _ _ _ => perform_step) _ (.init rfl) (Option.some_get _).symm
  have hpc : signalled.pc true = .signalWake false := by decide
  exact ⟨hpc, (cv_loses_no_wakeup signalled hr).1 true false hpc false (by decide)⟩

end Os161Paging.Synch
