import Os161Paging.ThreadCalls

/-!
# Moving threads to other processors

`thread_consider_migration` takes threads off the run queue of its
processor and keeps them on a list of its own, `victims`, while it holds the
locks of other run queues in turn. What it carries is in the hand of the
thread that executes it. It always has as many as it still wants to send,
the current thread never leaves, and nothing is left in the end.
-/

namespace Os161Paging.Threads

open Prog

variable {n : Nat} {t u : Thread} {c d : Fin n} {v : View n}

/-! ## The list of victims -/

/-- The hand has the victims, in some order, on top of what it had. -/
def Carries (c : Fin n) (hs : List (Item n)) (victims : List Thread) (h : List (Item n)) : Prop :=
  ∃ is js : List (Item n), victims = is.map Item.thread ∧ js.Perm is ∧
    (∀ i ∈ is, i.cpu = c ∧ i.ready = true) ∧ h = js ++ hs

namespace Carries

variable {hs h : List (Item n)} {us : List Thread}

theorem refl : Carries c hs [] hs := ⟨[], [], rfl, .refl _, by simp, rfl⟩

theorem eq_of_nil (hcar : Carries c hs [] h) : h = hs := by
  obtain ⟨is, js, hus, hperm, -, rfl⟩ := hcar
  obtain rfl := List.map_eq_nil_iff.mp hus.symm
  rw [List.perm_nil.mp hperm, List.nil_append]

theorem add (hcar : Carries c hs us h) : Carries c hs (u :: us) (⟨u, c, true⟩ :: h) := by
  obtain ⟨is, js, rfl, hperm, hall, rfl⟩ := hcar
  refine ⟨⟨u, c, true⟩ :: is, ⟨u, c, true⟩ :: js, rfl, hperm.cons _, ?_, rfl⟩
  rw [List.forall_mem_cons]
  exact ⟨⟨rfl, rfl⟩, hall⟩

theorem rotate (hcar : Carries c hs (u :: us) h) : Carries c hs (us ++ [u]) h := by
  obtain ⟨is, js, hus, hperm, hall, rfl⟩ := hcar
  cases is with
  | nil => cases hus
  | cons i is =>
      obtain ⟨rfl, rfl⟩ := List.cons.inj hus
      refine ⟨is ++ [i], js, by simp, hperm.trans (List.perm_append_singleton i is).symm, ?_, rfl⟩
      intro j hj
      exact hall j (by simpa [or_comm] using hj)

theorem take (hcar : Carries c hs (u :: us) h) : ⟨u, c, true⟩ ∈ h ∧
    Carries c hs us (h.erase ⟨u, c, true⟩) := by
  obtain ⟨is, js, hus, hperm, hall, rfl⟩ := hcar
  cases is with
  | nil => cases hus
  | cons i is =>
      obtain ⟨rfl, rfl⟩ := List.cons.inj hus
      obtain ⟨⟨rfl, hready⟩, hrest⟩ := List.forall_mem_cons.mp hall
      have hi : (⟨i.thread, i.cpu, true⟩ : Item n) = i := by rw [← hready]
      have hmem : i ∈ js := hperm.mem_iff.mpr (by simp)
      rw [hi]
      refine ⟨List.mem_append_left _ hmem, is, js.erase i, rfl, ?_, hrest, ?_⟩
      · rw [← List.erase_cons_head i is]
        exact hperm.erase i
      · exact List.erase_append_left _ hmem

end Carries

/-! ## The loops -/

/-- What `thread_consider_migration` is called with: interrupts are off and no lock is held. -/
structure Quiet (c : Fin n) (v : View n) : Prop where
  loc : v.loc = some (.on c)
  spl : v.spl = .high
  locks : v.locks = []
  even : v.Even
  calm : v.stage.calm = true

namespace Quiet

theorem release {l : Spin n} (h : Quiet c v) :
    Does t { v with locks := [l] } (spinlockRelease l) fun _ v' => v' = v := by
  refine .mono (does_spinlockRelease (c := c) h.loc (by simp) h.even.owes h.even.posted
    fun hsw => absurd hsw (Stage.not_switching_of_calm h.calm)) ?_
  intro _ w hw
  rw [List.erase_cons_head] at hw
  rw [hw, ← h.locks, ← h.even.found]
  exact View.put_self_of_spl h.loc h.spl

theorem acquire {l : Spin n} (h : Quiet c v) :
    Does t v (spinlockAcquire l) fun _ v' => v' = { v with locks := [l] } := by
  refine .mono (does_spinlockAcquire (.inr ⟨c, h.loc⟩) (by simp [h.locks])
    (Stage.not_dozing_of_calm h.calm)) ?_
  rintro _ w ⟨b, hb, rfl⟩
  obtain rfl : b = c := hb.eq h.loc
  rw [h.locks, ← h.loc]

theorem mine (h : Quiet c v) {l : List (Spin n)} {m : Nat} :
    Does t { v with locks := l, floor := m } (look fun _ me _ => decide (d = me))
      fun x v' => v' = { v with locks := l, floor := m } ∧ x = decide (d = c) := by
  refine does_look (.inr ⟨c, h.loc⟩) fun g s b hb => ?_
  obtain rfl : b = c := View.At.eq hb.put_self h.loc
  rfl

end Quiet

/-- The count of the own run queue is a lower bound from then on. -/
theorem does_countThreads {cs : List (Fin n)} {my total : Nat} (h : Quiet c v)
    (hmy : my ≤ v.floor) :
    Does t v (countThreads cs my total) fun x v' => ∃ m, v' = { v with floor := m } ∧ x.1 ≤ m := by
  induction cs generalizing v my total with
  | nil => exact .pure ⟨v.floor, rfl, hmy⟩
  | cons d cs ih =>
      refine .bind h.acquire ?_
      rintro _ _ rfl
      refine .bind (does_count (c := c) (d := d) h.loc) ?_
      intro count w hw
      obtain rfl : w = { v with
          locks := [.runqueue d]
          floor := if d = c then count else v.floor } :=
        hw.trans (View.put_self_of_spl h.loc h.spl)
      refine .reading h.mine ?_
      have hq : Quiet c { v with floor := if d = c then count else v.floor } :=
        ⟨h.loc, h.spl, h.locks, ⟨h.even.owes, h.even.posted, h.even.found⟩, h.calm⟩
      refine .bind hq.release ?_
      rintro _ _ rfl
      refine ih hq ?_
      by_cases hd : d = c <;> simp [hd, hmy]

/-- There are as many threads on the run queue as were counted. -/
theorem does_takeVictims {hs : List (Item n)} {k : Nat} {us : List Thread} (h : Quiet c v)
    (hcar : Carries c hs us v.hand) (hfloor : k ≤ v.floor) :
    Does t { v with locks := [.runqueue c] } (takeVictims k us) fun x v' =>
      x.length = us.length + k ∧ ∃ hand m, Carries c hs x hand ∧
        v' = { v with locks := [.runqueue c], hand := hand, floor := m } := by
  induction k generalizing v us with
  | zero => exact .pure ⟨rfl, v.hand, v.floor, hcar, rfl⟩
  | succ k ih =>
      obtain ⟨m, hm⟩ := Nat.exists_eq_add_of_le' hfloor
      have hfloor' : v.floor = m + k + 1 := by omega
      refine .bind (does_remtail (c := c) h.loc (by simp) h.calm hfloor') ?_
      intro u w hw
      obtain rfl : w = { v with
          locks := [.runqueue c]
          hand := ⟨u, c, true⟩ :: v.hand
          floor := m + k } := hw.trans (View.put_self_of_spl h.loc h.spl)
      refine .mono (ih (v := { v with hand := ⟨u, c, true⟩ :: v.hand, floor := m + k })
        ⟨h.loc, h.spl, h.locks, ⟨h.even.owes, h.even.posted, h.even.found⟩, h.calm⟩ hcar.add
        (by simp)) ?_
      rintro x _ ⟨hlen, hand, l, hcar', rfl⟩
      refine ⟨?_, hand, l, hcar', rfl⟩
      rw [hlen, List.length_cons]
      omega

/-- A thread goes to another processor, which is roused. -/
theorem does_migrate {us : List Thread} {hs : List (Item n)} {ρ : Type} {rest : K n ρ}
    {Φ : ρ → View n → Prop} (h : Quiet c v) (hcar : Carries c hs (u :: us) v.hand) (hd : d ≠ c)
    (hne : u ≠ t)
    (hrest : Does t { v with locks := [.runqueue d], hand := v.hand.erase ⟨u, c, true⟩ } rest Φ) :
    Does t { v with locks := [.runqueue d] } (do
        change fun _ _ s => { s with tCpu := Function.update s.tCpu u (some d) }
        change fun _ _ s => s.addtail d u
        let isidle ← look fun _ _ s => s.cIsidle d
        if isidle then ipiSend d .unidle else pure ()
        rest) Φ := by
  have hmem := hcar.take.1
  refine .bind (does_setCpu (c := c) (d := d) (i := ⟨u, c, true⟩) h.loc hmem rfl hne) ?_
  intro _ w hw
  obtain rfl : w = { v with
      locks := [.runqueue d]
      hand := ⟨u, d, true⟩ :: v.hand.erase ⟨u, c, true⟩ } :=
    hw.trans (View.put_self_of_spl h.loc h.spl)
  refine .bind (does_addtail (c := c) (i := ⟨u, d, true⟩) h.loc (fun s => rfl) (by simp) rfl
    (by simp) h.even.owes h.calm) ?_
  intro _ w hw
  simp only [List.erase_cons_head] at hw
  obtain rfl : w = { v with
      locks := [.runqueue d]
      hand := v.hand.erase ⟨u, c, true⟩
      owes := owed c d } := hw.trans (View.put_self_of_spl h.loc h.spl)
  refine .bind (does_rouse (c := c) (d := d) h.loc rfl fun s => by simp [hd]) ?_
  rintro isidle w (⟨rfl, -, rfl⟩ | ⟨rfl, hw⟩)
  · simp only [if_true]
    refine .bind (does_ipiSend (.inr ⟨c, h.loc⟩) (by simp [Spin.rank])
      (Stage.not_dozing_of_calm h.calm) h.even.posted (.inr ⟨if_neg hd, rfl⟩)) ?_
    rintro _ w ⟨b, hb, hw⟩
    obtain rfl : b = c := hb.eq h.loc
    obtain rfl : w = { v with locks := [.runqueue d], hand := v.hand.erase ⟨u, b, true⟩ } := by
      refine (hw.trans (View.put_self_of_spl h.loc h.spl)).trans ?_
      rw [h.even.owes, h.even.found]
    exact hrest
  · simp only [Bool.false_eq_true, if_false]
    obtain rfl : w = { v with locks := [.runqueue d], hand := v.hand.erase ⟨u, c, true⟩ } := by
      refine (hw.trans (View.put_self_of_spl h.loc h.spl)).trans ?_
      rw [h.even.owes]
    exact hrest

theorem does_sendVictims {hs : List (Item n)} {share k : Nat} {us : List Thread} (h : Quiet c v)
    (hd : d ≠ c) (hcar : Carries c hs us v.hand) (hk : k ≤ us.length) :
    Does t { v with locks := [.runqueue d] } (sendVictims d share k us) fun x v' =>
      x.2 ≤ x.1.length ∧ ∃ hand, Carries c hs x.1 hand ∧
        v' = { v with locks := [.runqueue d], hand := hand } := by
  induction k generalizing v us with
  | zero => exact .pure ⟨Nat.zero_le _, v.hand, hcar, rfl⟩
  | succ k ih =>
      refine .knowing (does_look (Φ := fun _ => True) (.inr ⟨c, h.loc⟩) fun _ _ _ _ => trivial)
        fun count _ => ?_
      refine .ite (fun _ => ?_) fun _ => .pure ⟨hk, v.hand, hcar, rfl⟩
      cases us with
      | nil => cases hk
      | cons u us =>
          have hk' : k ≤ us.length := Nat.le_of_succ_le_succ hk
          refine .reading (does_curthread (.inr ⟨c, h.loc⟩)) ?_
          refine .ite (fun _ => ?_) fun hne => ?_
          · -- the current thread is put at the end of the list
            exact ih h hcar.rotate (by simp; omega)
          · refine does_migrate h hcar hd hne ?_
            exact ih (v := { v with hand := v.hand.erase ⟨u, c, true⟩ })
              ⟨h.loc, h.spl, h.locks, ⟨h.even.owes, h.even.posted, h.even.found⟩, h.calm⟩
              hcar.take.2 hk'

theorem does_spreadVictims {hs : List (Item n)} {share k : Nat} {cs : List (Fin n)}
    {us : List Thread} (h : Quiet c v) (hcar : Carries c hs us v.hand) (hk : k ≤ us.length) :
    Does t v (spreadVictims share cs us k) fun x v' =>
      ∃ hand, Carries c hs x hand ∧ v' = { v with hand := hand } := by
  induction cs generalizing v us k with
  | nil => exact .pure ⟨v.hand, hcar, rfl⟩
  | cons d cs ih =>
      refine .ite (fun _ => .pure ⟨v.hand, hcar, rfl⟩) fun _ => ?_
      refine .reading h.mine ?_
      refine .ite (fun _ => ih h hcar hk) fun hd => ?_
      replace hd : d ≠ c := by simpa using hd
      refine .bind h.acquire ?_
      rintro _ _ rfl
      refine .bind (does_sendVictims h hd hcar hk) ?_
      rintro ⟨us', k'⟩ _ ⟨hk', hand, hcar', rfl⟩
      have hq : Quiet c { v with hand := hand } :=
        ⟨h.loc, h.spl, h.locks, ⟨h.even.owes, h.even.posted, h.even.found⟩, h.calm⟩
      refine .bind hq.release ?_
      rintro _ _ rfl
      exact ih hq hcar' hk'

theorem does_putBack {hs : List (Item n)} {us : List Thread} (h : Quiet c v)
    (hcar : Carries c hs us v.hand) :
    Does t { v with locks := [.runqueue c] } (putBack us) fun _ v' =>
      v' = { v with locks := [.runqueue c], hand := hs } := by
  induction us generalizing v with
  | nil =>
      refine .pure ?_
      rw [← hcar.eq_of_nil]
  | cons u us ih =>
      refine .bind (does_addtail (c := c) (i := ⟨u, c, true⟩) h.loc (fun s => rfl) hcar.take.1 rfl
        (by simp) h.even.owes h.calm) ?_
      intro _ w hw
      obtain rfl : w = { v with
          locks := [.runqueue c]
          hand := v.hand.erase ⟨u, c, true⟩ } := by
        refine (hw.trans (View.put_self_of_spl h.loc h.spl)).trans ?_
        simp [owed, h.even.owes]
      exact ih (v := { v with hand := v.hand.erase ⟨u, c, true⟩ })
        ⟨h.loc, h.spl, h.locks, ⟨h.even.owes, h.even.posted, h.even.found⟩, h.calm⟩ hcar.take.2

/-! ## The function -/

theorem does_threadConsiderMigration (h : Quiet c v) :
    Does t v threadConsiderMigration fun _ v' => ∃ m, v' = { v with floor := m } := by
  unfold threadConsiderMigration
  refine .bind (does_countThreads h (Nat.zero_le _)) ?_
  rintro ⟨my, total⟩ _ ⟨m, rfl, hmy⟩
  refine .ite (fun _ => .pure ⟨m, rfl⟩) fun _ => ?_
  have hq : ∀ {m : Nat} {hand : List (Item n)}, Quiet c { v with floor := m, hand := hand } :=
    ⟨h.loc, h.spl, h.locks, ⟨h.even.owes, h.even.posted, h.even.found⟩, h.calm⟩
  refine .reading (does_curcpu h.loc) ?_
  refine .bind hq.acquire ?_
  rintro _ _ rfl
  refine .bind (does_takeVictims (v := { v with floor := m }) hq .refl
    ((Nat.sub_le _ _).trans hmy)) ?_
  rintro us _ ⟨hlen, hand, l, hcar, rfl⟩
  refine .bind hq.release ?_
  rintro _ _ rfl
  refine .bind (does_spreadVictims hq hcar (by simp [hlen])) ?_
  rintro us' _ ⟨hand', hcar', rfl⟩
  refine .ite (fun hnil => ?_) fun _ => ?_
  · subst hnil
    refine .pure ⟨l, ?_⟩
    rw [hcar'.eq_of_nil]
  · refine .bind hq.acquire ?_
    rintro _ _ rfl
    refine .bind (does_putBack hq hcar') ?_
    rintro _ _ rfl
    refine .mono hq.release ?_
    rintro _ _ rfl
    exact ⟨l, rfl⟩

end Os161Paging.Threads
