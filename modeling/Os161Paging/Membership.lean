import Os161Paging.Switching

/-!
# Threads that come and go

A thread is made by another one, which enters it into a process and then
makes it runnable; nobody else knows of it before that. It leaves its
process when it exits, and is destroyed by the next thread that gets the
processor it died on.
-/

namespace Os161Paging.Threads

open Prog

variable {n : Nat} {ρ : Type} {g g' : Ghost n} {s s' : Sched n} {t u : Thread} {c d : Fin n}
  {v v' : View n} {p : Proc}

/-! ## Zombies -/

/-- A thread on the list of zombies of the processor of a running thread. -/
theorem Here.zombie (h : Here g s t c v) (hst : v.stage = .present) (hu : u ∈ s.cZombies c) :
    g.place u = .zombies c ∧ u ≠ t ∧ g.loc u = .gone ∧ s.tState u = .zombie := by
  have hplace := (h.inv.located.shelved.mem (.zombies c) trivial u).mp hu
  have hut : u ≠ t := by
    rintro rfl
    rw [(h.inv.located.present u).mpr ⟨⟨c, h.loc⟩, h.stage.trans hst⟩] at hplace
    cases hplace
  have hgone : g.loc u = .gone := by
    refine (h.inv.seated.dead u c hplace).resolve_right ?_
    rintro ⟨d, hd⟩
    have hstage : g.stage u ≠ .present := by
      intro hpres
      rw [(h.inv.located.present u).mpr ⟨⟨d, hd⟩, hpres⟩] at hplace
      cases hplace
    have hpermits := (h.inv.seated.departed u d hd hstage).place hstage
    rw [hplace] at hpermits
    obtain rfl : c = d := by simpa using hpermits
    exact hut (h.unique hd)
  refine ⟨hplace, hut, hgone, ?_⟩
  have htold := (h.inv.stated.told u).resolve_left (by simp [Departing, hgone])
  rwa [hplace] at htold

theorem Here.destroy (h : Here g s t c v) {us : List Thread} (hus : s.cZombies c = u :: us)
    (hplace : g.place u = .zombies c) (hgone : g.loc u = .gone) :
    Core { g with place := Function.update g.place u .absent }
      { s with
        cZombies := Function.update s.cZombies c us
        allocated := Function.update s.allocated u false } := by
  have hon : ∀ d, g.loc u ≠ .on d := by simp [hgone]
  have hmember : g.member u = none := by
    rw [h.inv.attached.counted u (by simp [hplace, Place.Settled]),
      h.inv.attached.zombies u c hplace]
    split <;> rfl
  have hlocated : Located (Function.update g.place u .absent) g.loc g.stage g.hand g.fresh
      (Function.update s.allocated u false) s.nextThread (Function.update s.cZombies c us)
      s.cRunqueue s.wcThreads := by
    refine h.inv.located.move ?_ (by simp [hgone]) (fun _ _ => .rfl) (by simp)
      (fun x hx => Function.update_of_ne hx _ _) (by simp) le_rfl
    refine h.inv.located.shelved.move (by rw [hplace]; simp) ?_ False.elim ?_
    · rw [hplace]
      intro _
      simp only [shelves, Function.update_self, hus]
      exact .refl _
    · rw [hplace]
      intro r hr _
      cases r with
      | zombies b => exact Function.update_of_ne (by rintro rfl; exact hr rfl) _ _
      | _ => rfl
  have hseated : Seated (Function.update g.place u .absent) g.loc g.stage g.hand g.fresh s.tCpu
      s.cCurthread s.cIsidle :=
    h.inv.seated.move (fun _ _ => rfl) rfl (fun _ _ => rfl) h.inv.seated.curCpu (by simp [hgone])
      trivial h.inv.seated.handCpu h.inv.seated.freshCpu (fun d hd => absurd hd (hon d)) (by simp)
      fun _ => .inr rfl
  have hlevelled : Levelled (Function.update g.place u .absent) g.loc g.spl g.irq g.held
      s.tInInterrupt s.tCurspl s.tIplhighCount :=
    h.inv.levelled.move (fun _ _ => rfl) (fun _ _ => rfl) (fun _ _ => rfl) hon
      (fun _ hset => absurd rfl hset.1) (by simp) fun hne => absurd rfl hne
  have hattached : Attached (Function.update g.place u .absent) g.member g.proc g.leaving g.fresh
      s.tProc s.nextThread s.pNumthreads :=
    h.inv.attached.move (fun _ _ => rfl) (h.inv.attached.known u) (fun hset => absurd rfl hset.1)
      (by simp) h.inv.attached.newborn (fun hset => absurd rfl hset.1) (fun _ => hmember)
      h.inv.attached.total
  exact { h.inv.toCore with
    located := hlocated
    seated := hseated
    levelled := hlevelled
    stated := h.inv.stated.move (fun _ _ => .rfl) (fun _ _ => rfl) (by simp) (.inr trivial)
      h.inv.stated.taken
    attached := hattached }

/-- A running thread finds only dead threads on the list of zombies. -/
theorem does_exorciseOne (hc : v.loc = some (.on c)) (hst : v.stage = .present) :
    Does t v exorciseOne fun _ v' => v' = v := by
  refine does_onCpu_at hc fun g s h => ?_
  cases hz : s.cZombies c with
  | nil =>
      refine ⟨trivial, fun x s' hx => ?_⟩
      cases hx
      exact ⟨g, v, h.put_self, h.inv.toCore, le_rfl,
        ⟨fun _ _ => rfl, fun _ _ => rfl, fun _ _ => rfl⟩, h.loc, h.self, h.desk⟩
  | cons u us =>
      obtain ⟨hplace, hut, hgone, hstate⟩ := h.zombie hst (hz ▸ List.mem_cons_self)
      have halloc : s.allocated u = true := by
        rw [h.inv.located.exists_iff, hplace]
        simp
      have hproc := h.inv.attached.zombies u c hplace
      simp only [hut, if_false, hstate, threadDestroy, halloc, hproc, ne_eq, not_true_eq_false,
        Bool.true_eq_false, reduceCtorEq, Outcome.bind]
      refine ⟨trivial, fun x s' hx => ?_⟩
      cases hx
      exact ⟨_, v, h.put_self, h.destroy hz hplace hgone, le_rfl,
        ⟨fun _ _ => rfl, fun _ _ => rfl, fun _ _ => rfl⟩, h.loc, h.self, h.desk⟩

/-! ## Making a thread -/

namespace Inv

theorem self_of_virgin (hi : Inv g s) (hu : s.nextThread ≤ u) :
    g.self u = (View.newborn : View n).toSelf := by
  rw [← Ghost.shown_toSelf, hi.virgin u hu]

theorem absent_of_virgin (hi : Inv g s) (hu : s.nextThread ≤ u) : g.place u = .absent := by
  by_contra hne
  exact absurd (hi.located.bound u hne) (Nat.not_lt.mpr hu)

end Inv

theorem Here.create (h : Here g s t c v) (hfresh : v.fresh = none) :
    Core { g with
        place := Function.update g.place s.nextThread (.fresh t)
        fresh := Function.update g.fresh t (some ⟨s.nextThread, c, none, false⟩) }
      { s with
        nextThread := s.nextThread + 1
        allocated := Function.update s.allocated s.nextThread true
        tState := Function.update s.tState s.nextThread .ready
        tCpu := Function.update s.tCpu s.nextThread (s.tCpu t)
        tProc := Function.update s.tProc s.nextThread none
        tInInterrupt := Function.update s.tInInterrupt s.nextThread false
        tCurspl := Function.update s.tCurspl s.nextThread .high
        tIplhighCount := Function.update s.tIplhighCount s.nextThread 1 } := by
  have habsent := h.inv.absent_of_virgin le_rfl
  have haway := h.inv.away_of_virgin le_rfl
  have hself := h.inv.self_of_virgin le_rfl
  have hproc : g.proc s.nextThread = none := congrArg Self.proc hself
  have hmember : g.member s.nextThread = none := h.inv.attached.absent _ habsent
  have hon : ∀ d, g.loc s.nextThread ≠ .on d := by simp [haway]
  have hne : ∀ x, g.place x ≠ .absent → x ≠ s.nextThread := by
    rintro x hx rfl
    exact hx habsent
  have hcur : ∀ d, s.cCurthread d ≠ s.nextThread := fun d => hne _ (h.inv.exists_cur rfl)
  have hhand : ∀ b, ∀ i ∈ g.hand b, i.thread ≠ s.nextThread := by
    intro b i hi
    exact hne _ (by rw [h.inv.place_hand hi]; simp)
  have hborn : ∀ b, ∀ k ∈ g.fresh b, k.thread ≠ s.nextThread := by
    intro b k hk
    exact hne _ (by rw [h.inv.place_fresh hk]; simp)
  have hfresh' : ∀ b, ∀ k ∈ Function.update g.fresh t (some ⟨s.nextThread, c, none, false⟩) b,
      k = ⟨s.nextThread, c, none, false⟩ ∨ k ∈ g.fresh b := by
    intro b k hk
    by_cases hb : b = t
    · subst hb
      rw [Function.update_self, Option.mem_def] at hk
      exact .inl (Option.some.inj hk).symm
    · rw [Function.update_of_ne hb] at hk
      exact .inr hk
  have hlocated : Located (Function.update g.place s.nextThread (.fresh t)) g.loc g.stage g.hand
      (Function.update g.fresh t (some ⟨s.nextThread, c, none, false⟩))
      (Function.update s.allocated s.nextThread true) (s.nextThread + 1) s.cZombies s.cRunqueue
      s.wcThreads := by
    refine h.inv.located.move ?_ (by simp [haway]) (fun _ _ => .rfl) (by simp)
      (fun x hx => Function.update_of_ne hx _ _) (fun _ => Nat.lt_succ_self _) (Nat.le_succ _)
    refine h.inv.located.shelved.move (by rw [habsent]; simp) ?_ ?_ ?_
    · rw [habsent]
      exact False.elim
    · intro _
      simp only [shelves, Function.update_self, h.fresh, hfresh]
      exact .refl _
    · intro r _ hr
      cases r with
      | fresh b =>
          exact congrArg (fun k : Option (Newborn n) => k.toList.map Newborn.thread)
            (Function.update_of_ne (by rintro rfl; exact hr rfl) _ _)
      | _ => rfl
  have hseated : Seated (Function.update g.place s.nextThread (.fresh t)) g.loc g.stage g.hand
      (Function.update g.fresh t (some ⟨s.nextThread, c, none, false⟩))
      (Function.update s.tCpu s.nextThread (s.tCpu t)) s.cCurthread s.cIsidle := by
    refine h.inv.seated.move (fun _ _ => rfl) rfl (fun x hx => Function.update_of_ne hx _ _)
      (fun d => ?_) (by simp [hcur]) trivial (fun b i hi => ?_) (fun b k hk => ?_)
      (fun d hd => absurd hd (hon d)) (by simp) (by simp [haway])
    · rw [Function.update_of_ne (hcur d)]
      exact h.inv.seated.curCpu d
    · rw [Function.update_of_ne (hhand b i hi)]
      exact h.inv.seated.handCpu b i hi
    · rcases hfresh' b k hk with rfl | hold
      · rw [Function.update_self, ← h.cur]
        exact h.inv.seated.curCpu c
      · rw [Function.update_of_ne (hborn b k hold)]
        exact h.inv.seated.freshCpu b k hold
  have hlevelled : Levelled (Function.update g.place s.nextThread (.fresh t)) g.loc g.spl g.irq
      g.held (Function.update s.tInInterrupt s.nextThread false)
      (Function.update s.tCurspl s.nextThread .high)
      (Function.update s.tIplhighCount s.nextThread 1) := by
    refine h.inv.levelled.move (fun x hx => Function.update_of_ne hx _ _)
      (fun x hx => Function.update_of_ne hx _ _) (fun x hx => Function.update_of_ne hx _ _) hon
      (fun _ hset => absurd rfl (hset.2 t)) (fun _ _ => ?_) fun _ => ?_
    · exact ⟨haway, Function.update_self .., Function.update_self ..⟩
    · rw [Function.update_self]
      exact (congrArg Self.irq hself).symm
  have hstated : Stated (Function.update g.place s.nextThread (.fresh t)) g.loc g.stage g.hand
      (Function.update s.tState s.nextThread .ready) := by
    have hstate : ∀ x, x ≠ s.nextThread →
        Function.update s.tState s.nextThread .ready x = s.tState x :=
      fun x hx => Function.update_of_ne hx _ _
    exact h.inv.stated.move (fun _ _ => .rfl) hstate (by simp) (.inr trivial)
      fun b i hi => h.inv.stated.taken_of_ne (fun _ _ => .rfl) hstate hi (hhand b i hi)
  have hattached : Attached (Function.update g.place s.nextThread (.fresh t)) g.member g.proc
      g.leaving (Function.update g.fresh t (some ⟨s.nextThread, c, none, false⟩))
      (Function.update s.tProc s.nextThread none) (s.nextThread + 1) s.pNumthreads := by
    refine h.inv.attached.move (fun x hx => Function.update_of_ne hx _ _) (by simp [hproc])
      (fun hset => absurd rfl (hset.2 t)) (by simp) (fun b k hk => ?_)
      (fun hset => absurd rfl (hset.2 t)) (by simp) fun q => ?_
    · rcases hfresh' b k hk with rfl | hold
      · exact ⟨Function.update_self .., hproc, hmember, congrArg Self.leaving hself⟩
      · rw [Function.update_of_ne (hborn b k hold)]
        exact h.inv.attached.newborn b k hold
    · rw [h.inv.attached.total q, Finset.range_add_one, Finset.filter_insert, if_neg]
      rw [hmember]
      simp
  have hsignalled : Signalled g.posted g.found (s.nextThread + 1) s.slept s.wcThreads
      s.semCount := by
    refine { h.inv.signalled with
      awake := fun x hx => (h.inv.signalled.awake x hx).trans ?_ }
    refine Nat.add_le_add_right (Finset.card_le_card ?_) _
    exact Finset.filter_subset_filter _ (Finset.range_mono (Nat.le_succ _))
  exact { h.inv.toCore with
    located := hlocated
    seated := hseated
    levelled := hlevelled
    stated := hstated
    attached := hattached
    signalled := hsignalled }

theorem does_threadCreate (hv : v.Runs) (hfresh : v.fresh = none) :
    Does t v threadCreate fun x v' =>
      ∃ c, v.At c ∧ v' = ({ v with fresh := some ⟨x, c, none, false⟩ }).put c := by
  refine does_onCpu hv fun g s c h => ⟨trivial, fun x s' hx => ?_⟩
  cases hx
  refine ⟨_, h.create hfresh, Nat.le_succ _, ?_, c, h.put_self, Ghost.shown_put h.loc ?_ h.desk⟩
  · constructor <;> intro _ hb <;> simp [Ghost.self, Ghost.desk, hb]
  · simp [Ghost.self, h.stage, h.spl, h.irq, h.proc, h.leaving, h.hand]

/-! ## Entering a process -/

theorem card_members_add (member : Thread → Option Proc) {N : Nat} (hu : u < N)
    (hnone : member u = none) (q : Proc) :
    ((Finset.range N).filter fun x => Function.update member u (some p) x = some q).card =
      ((Finset.range N).filter fun x => member x = some q).card + if q = p then 1 else 0 := by
  have hother : ∀ x, x ≠ u → Function.update member u (some p) x = member x :=
    fun x hx => Function.update_of_ne hx _ _
  by_cases hq : q = p
  · subst hq
    have hinsert : ((Finset.range N).filter fun x => Function.update member u (some q) x = some q) =
        insert u ((Finset.range N).filter fun x => member x = some q) := by
      ext x
      by_cases hx : x = u
      · subst hx
        simp [hu]
      · simp [hx]
    rw [hinsert, Finset.card_insert_of_notMem (by simp [hnone]), if_pos rfl]
  · rw [if_neg hq, Nat.add_zero]
    refine congrArg Finset.card (Finset.filter_congr fun x _ => ?_)
    by_cases hx : x = u
    · subst hx
      simp [hnone, Ne.symm hq]
    · rw [hother x hx]

theorem card_members_remove (member : Thread → Option Proc) {N : Nat} (hu : u < N)
    (hsome : member u = some p) (q : Proc) :
    ((Finset.range N).filter fun x => Function.update member u none x = some q).card =
      ((Finset.range N).filter fun x => member x = some q).card - if q = p then 1 else 0 := by
  have hadd := card_members_add (Function.update member u none) (p := p) hu
    (Function.update_self ..) q
  rw [Function.update_idem, ← hsome, Function.update_eq_self] at hadd
  omega

/-- Two threads that are being made are the same only if the same thread makes them. -/
theorem Inv.fresh_inj (hi : Inv g s) {a b : Thread} {k l : Newborn n} (hk : k ∈ g.fresh a)
    (hl : l ∈ g.fresh b) (hkl : k.thread = l.thread) : a = b := by
  have hplace := hi.place_fresh hk
  rw [hkl, hi.place_fresh hl] at hplace
  cases hplace
  rfl

/-- What is written down about the thread the current one makes changes. -/
theorem Here.rewrite_fresh (h : Here g s t c v) {b : Newborn n} (b' : Newborn n)
    (member' : Thread → Option Proc) (hb : v.fresh = some b) (hthread : b'.thread = b.thread)
    (hcpu : b'.cpu = b.cpu) {tProc' : Thread → Option Proc} {numthreads' : Proc → Nat}
    (hattached : Attached g.place member' g.proc g.leaving (Function.update g.fresh t (some b'))
      tProc' s.nextThread numthreads') :
    Turns t c g s
      { g with member := member', fresh := Function.update g.fresh t (some b') }
      { s with tProc := tProc', pNumthreads := numthreads' } { v with fresh := some b' } := by
  have hmem : b ∈ g.fresh t := by
    rw [Option.mem_def, h.fresh, hb]
  have hlocated : Located g.place g.loc g.stage g.hand (Function.update g.fresh t (some b'))
      s.allocated s.nextThread s.cZombies s.cRunqueue s.wcThreads := by
    refine { h.inv.located with shelved := h.inv.located.shelved.perm fun p _ => ?_ }
    cases p with
    | fresh a =>
        by_cases ha : a = t
        · subst ha
          simp only [shelves, Function.update_self, h.fresh, hb, Option.toList_some,
            List.map_cons, List.map_nil, hthread]
          exact .refl _
        · simp only [shelves, Function.update_of_ne ha]
          exact .refl _
    | _ => exact .refl _
  have hseated : Seated g.place g.loc g.stage g.hand (Function.update g.fresh t (some b')) s.tCpu
      s.cCurthread s.cIsidle := by
    refine { h.inv.seated with freshCpu := fun a k hk => ?_ }
    by_cases ha : a = t
    · subst ha
      rw [Function.update_self, Option.mem_def] at hk
      cases hk
      rw [hthread, hcpu]
      exact h.inv.seated.freshCpu a b hmem
    · rw [Function.update_of_ne ha] at hk
      exact h.inv.seated.freshCpu a k hk
  refine ⟨{ h.inv.toCore with
      located := hlocated
      seated := hseated
      attached := hattached }, le_rfl,
    ⟨fun _ _ => rfl, fun a ha => by simp [Ghost.self, ha], fun _ _ => rfl⟩, h.loc, ?_, h.desk⟩
  simp [Ghost.self, h.stage, h.spl, h.irq, h.proc, h.leaving, h.hand]

/-- `proc->p_numthreads++`. -/
theorem does_addMember {b : Newborn n} (hc : v.loc = some (.on c)) (hb : v.fresh = some b)
    (hjoining : b.joining = none) (hjoined : b.joined = false) :
    Does t v (change fun _ _ s => { s with
        pNumthreads := Function.update s.pNumthreads p (s.pNumthreads p + 1) })
      fun _ v' => v' = ({ v with fresh := some { b with joining := some p } }).put c := by
  refine does_change_at hc fun g s h => ⟨_, h.rewrite_fresh { b with joining := some p }
    (Function.update g.member b.thread (some p)) hb rfl rfl ?_⟩
  have hmem : b ∈ g.fresh t := by
    rw [Option.mem_def, h.fresh, hb]
  have hplace := h.inv.place_fresh hmem
  obtain ⟨htproc, hproc, hmember, hleaving⟩ := h.inv.attached.newborn t b hmem
  rw [hjoining] at hmember
  have hbound := h.inv.located.bound b.thread (by rw [hplace]; simp)
  have hne : ∀ x, (∀ a, g.place x ≠ .fresh a) → x ≠ b.thread := by
    rintro x hx rfl
    exact hx t hplace
  refine { h.inv.attached with
    newborn := fun a k hk => ?_
    counted := fun x hx => ?_
    absent := fun x hx => ?_
    total := fun q => ?_ }
  · by_cases ha : a = t
    · subst ha
      rw [Function.update_self, Option.mem_def] at hk
      cases hk
      refine ⟨?_, hproc, Function.update_self .., hleaving⟩
      rw [htproc]
      simp [hjoined]
    · rw [Function.update_of_ne ha] at hk
      have hkb : k.thread ≠ b.thread := fun hkb => ha (h.inv.fresh_inj hk hmem hkb)
      rw [Function.update_of_ne hkb]
      exact h.inv.attached.newborn a k hk
  · rw [Function.update_of_ne (hne x hx.2)]
    exact h.inv.attached.counted x hx
  · rw [Function.update_of_ne (hne x (by simp [hx]))]
    exact h.inv.attached.absent x hx
  · rw [card_members_add _ hbound hmember, ← h.inv.attached.total q, Function.update_apply]
    split
    · rw [‹q = p›]
    · rfl

theorem does_setProc {b : Newborn n} (hc : v.loc = some (.on c)) (hb : v.fresh = some b)
    (hjoining : b.joining = some p) :
    Does t v (change fun _ _ s => { s with tProc := Function.update s.tProc b.thread (some p) })
      fun _ v' => v' = ({ v with fresh := some { b with joined := true } }).put c := by
  refine does_change_at hc fun g s h => ⟨_, h.rewrite_fresh { b with joined := true }
    g.member hb rfl rfl ?_⟩
  have hmem : b ∈ g.fresh t := by
    rw [Option.mem_def, h.fresh, hb]
  have hplace := h.inv.place_fresh hmem
  obtain ⟨-, hproc, hmember, hleaving⟩ := h.inv.attached.newborn t b hmem
  have hne : ∀ x, (∀ a, g.place x ≠ .fresh a) → x ≠ b.thread := by
    rintro x hx rfl
    exact hx t hplace
  refine { h.inv.attached with
    known := fun x y hx => ?_
    unstarted := fun x hx hnone => ?_
    zombies := fun x d hx => ?_
    newborn := fun a k hk => ?_
    counted := fun x hx => ?_ }
  · have hxb : x ≠ b.thread := by
      rintro rfl
      rw [hproc] at hx
      cases hx
    rw [Function.update_of_ne hxb]
    exact h.inv.attached.known x y hx
  · rw [Function.update_of_ne (hne x hx.2)]
    exact h.inv.attached.unstarted x hx hnone
  · rw [Function.update_of_ne (hne x (by simp [hx]))]
    exact h.inv.attached.zombies x d hx
  · by_cases ha : a = t
    · subst ha
      rw [Function.update_self, Option.mem_def] at hk
      cases hk
      refine ⟨?_, hproc, hmember, hleaving⟩
      simp [hjoining]
    · rw [Function.update_of_ne ha] at hk
      have hkb : k.thread ≠ b.thread := fun hkb => ha (h.inv.fresh_inj hk hmem hkb)
      rw [Function.update_of_ne hkb]
      exact h.inv.attached.newborn a k hk
  · rw [Function.update_of_ne (hne x hx.2)]
    exact h.inv.attached.counted x hx

theorem does_assertNoProc {b : Newborn n} {m : String} (hv : v.Runs) (hb : v.fresh = some b)
    (hjoined : b.joined = false) :
    Does t v (kassert (fun _ _ s => s.tProc b.thread == none) m) fun _ v' => v' = v := by
  refine does_kassert hv fun g s c h => ?_
  have hmem : b ∈ g.fresh t := by
    rw [Option.mem_def, h.fresh, hb]
  rw [(h.inv.attached.newborn t b hmem).1, hjoined]
  rfl

/-- `newthread->t_iplhigh_count++`: after that the thread can be made runnable. -/
theorem Here.deliver (h : Here g s t c v) {b : Newborn n} (hb : v.fresh = some b)
    (hjoining : b.joining = some p) (hjoined : b.joined = true) :
    Core { g with
        place := Function.update g.place b.thread (.hand t)
        fresh := Function.update g.fresh t none
        hand := Function.update g.hand t (⟨b.thread, b.cpu, false⟩ :: g.hand t) }
      { s with
        tIplhighCount := Function.update s.tIplhighCount b.thread
          (s.tIplhighCount b.thread + 1) } := by
  have hmem : b ∈ g.fresh t := by
    rw [Option.mem_def, h.fresh, hb]
  have hplace := h.inv.place_fresh hmem
  obtain ⟨htproc, hproc, hmember, hleaving⟩ := h.inv.attached.newborn t b hmem
  rw [hjoined, if_pos rfl] at htproc
  obtain ⟨haway, hcurspl, hcount⟩ := h.inv.levelled.newborn b.thread t hplace
  have hon : ∀ d, g.loc b.thread ≠ .on d := by simp [haway]
  have hhand : ∀ a, ∀ i ∈ Function.update g.hand t (⟨b.thread, b.cpu, false⟩ :: g.hand t) a,
      i = ⟨b.thread, b.cpu, false⟩ ∨ i ∈ g.hand a := by
    intro a i hi
    by_cases ha : a = t
    · subst ha
      rw [Function.update_self, List.mem_cons] at hi
      exact hi
    · rw [Function.update_of_ne ha] at hi
      exact .inr hi
  have hfresh : ∀ a, ∀ k ∈ Function.update g.fresh t none a, k ∈ g.fresh a := by
    intro a k hk
    by_cases ha : a = t
    · subst ha
      simp at hk
    · rwa [Function.update_of_ne ha] at hk
  have hlocated : Located (Function.update g.place b.thread (.hand t)) g.loc g.stage
      (Function.update g.hand t (⟨b.thread, b.cpu, false⟩ :: g.hand t))
      (Function.update g.fresh t none) s.allocated s.nextThread s.cZombies s.cRunqueue
      s.wcThreads := by
    refine h.inv.located.move_of_exists (by simp [hplace]) (by simp) ?_ (by simp [haway])
      fun _ _ => .rfl
    refine h.inv.located.shelved.move (by rw [hplace]; simp) ?_ ?_ ?_
    · rw [hplace]
      intro _
      simp only [shelves, Function.update_self, h.fresh, hb]
      exact .refl _
    · intro _
      simp only [shelves, Function.update_self]
      exact .refl _
    · rw [hplace]
      intro r hr hr'
      cases r with
      | fresh a =>
          exact congrArg (fun k : Option (Newborn n) => k.toList.map Newborn.thread)
            (Function.update_of_ne (by rintro rfl; exact hr rfl) _ _)
      | hand a => exact congrArg _ (Function.update_of_ne (by rintro rfl; exact hr' rfl) _ _)
      | _ => rfl
  have hseated : Seated (Function.update g.place b.thread (.hand t)) g.loc g.stage
      (Function.update g.hand t (⟨b.thread, b.cpu, false⟩ :: g.hand t))
      (Function.update g.fresh t none) s.tCpu s.cCurthread s.cIsidle := by
    refine h.inv.seated.move (fun _ _ => rfl) rfl (fun _ _ => rfl) h.inv.seated.curCpu
      (fun d => ?_) trivial (fun a i hi => ?_)
      (fun a k hk => h.inv.seated.freshCpu a k (hfresh a k hk)) (fun d hd => absurd hd (hon d))
      (by simp) (by simp [haway])
    · rw [← h.inv.seated.arriving b.thread d, hplace]
      simp
    · rcases hhand a i hi with rfl | hold
      · exact h.inv.seated.freshCpu t b hmem
      · exact h.inv.seated.handCpu a i hold
  have hlevelled : Levelled (Function.update g.place b.thread (.hand t)) g.loc g.spl g.irq g.held
      s.tInInterrupt s.tCurspl
      (Function.update s.tIplhighCount b.thread (s.tIplhighCount b.thread + 1)) := by
    refine h.inv.levelled.move (fun _ _ => rfl) (fun _ _ => rfl)
      (fun x hx => Function.update_of_ne hx _ _) hon (fun _ _ => ⟨hcurspl, ?_⟩) (by simp)
      fun _ => h.inv.levelled.inInterrupt b.thread (by simp [hplace])
    rw [Function.update_self, hcount]
  have hstated : Stated (Function.update g.place b.thread (.hand t)) g.loc g.stage
      (Function.update g.hand t (⟨b.thread, b.cpu, false⟩ :: g.hand t)) s.tState := by
    refine h.inv.stated.move (fun _ _ => .rfl) (fun _ _ => rfl) (by simp) (.inr trivial)
      fun a i hi hr => ?_
    rcases hhand a i hi with rfl | hold
    · cases hr
    · exact h.inv.stated.taken a i hold hr
  have hattached : Attached (Function.update g.place b.thread (.hand t)) g.member g.proc g.leaving
      (Function.update g.fresh t none) s.tProc s.nextThread s.pNumthreads := by
    refine h.inv.attached.move (fun _ _ => rfl) (h.inv.attached.known b.thread) (fun _ _ => ?_)
      (by simp) (fun a k hk => h.inv.attached.newborn a k (hfresh a k hk)) (fun _ => ?_) (by simp)
      h.inv.attached.total
    · rw [htproc, hjoining]
      simp
    · rw [hmember, hleaving, htproc]
      rfl
  exact { h.inv.toCore with
    located := hlocated
    seated := hseated
    levelled := hlevelled
    stated := hstated
    attached := hattached }

theorem does_deliver {b : Newborn n} (hv : v.Runs) (hb : v.fresh = some b)
    (hjoining : b.joining = some p) (hjoined : b.joined = true) :
    Does t v (change fun _ _ s => { s with
        tIplhighCount := Function.update s.tIplhighCount b.thread
          (s.tIplhighCount b.thread + 1) })
      fun _ v' => ∃ c, v.At c ∧ v' =
        ({ v with fresh := none, hand := ⟨b.thread, b.cpu, false⟩ :: v.hand }).put c := by
  refine does_change hv fun g s c h => ⟨_, h.deliver hb hjoining hjoined, le_rfl, ?_, h.loc, ?_,
    h.desk⟩
  · constructor <;> intro _ hb <;> simp [Ghost.self, Ghost.desk, hb]
  · simp [Ghost.self, h.stage, h.spl, h.irq, h.proc, h.leaving, h.hand]

/-! ## Leaving a process -/

theorem does_lookProc {q : Option Proc} (hv : v.Runs) (hproc : v.proc = some q) :
    Does t v (look fun t _ s => s.tProc t) fun x v' => v' = v ∧ x = q :=
  does_look hv fun _ _ _ h => h.inv.attached.known t q (h.proc.trans hproc)

/-- `proc->p_numthreads--`. -/
theorem does_removeMember (hc : v.loc = some (.on c)) (hproc : v.proc = some (some p))
    (hleaving : v.leaving = false) :
    Does t v (onCpu fun _ _ s =>
        if 0 < s.pNumthreads p then
          .ok ((), { s with pNumthreads := Function.update s.pNumthreads p (s.pNumthreads p - 1) })
        else .panic "proc->p_numthreads > 0")
      fun _ v' => v' = ({ v with leaving := true }).put c := by
  refine does_onCpu_at hc fun g s h => ?_
  have htproc := h.inv.attached.known t (some p) (h.proc.trans hproc)
  have hmember : g.member t = some p := by
    rw [h.inv.attached.counted t h.settled, h.leaving, hleaving, htproc]
    rfl
  have hbound := h.inv.located.bound t h.settled.1
  have hpos : 0 < s.pNumthreads p := by
    rw [h.inv.attached.total p, Finset.card_pos]
    exact ⟨t, by simp [hbound, hmember]⟩
  rw [if_pos hpos]
  refine ⟨trivial, fun x s' hx => ?_⟩
  cases hx
  have hne : ∀ x, ¬ (g.place x).Settled → x ≠ t := by
    rintro x hx rfl
    exact hx h.settled
  have hattached : Attached g.place (Function.update g.member t none) g.proc
      (Function.update g.leaving t true) g.fresh s.tProc s.nextThread
      (Function.update s.pNumthreads p (s.pNumthreads p - 1)) := by
    refine { h.inv.attached with
      newborn := fun a k hk => ?_
      counted := fun x hx => ?_
      absent := fun x hx => ?_
      total := fun q => ?_ }
    · have hkt : k.thread ≠ t := hne _ fun hset => hset.2 a (h.inv.place_fresh hk)
      rw [Function.update_of_ne hkt, Function.update_of_ne hkt]
      exact h.inv.attached.newborn a k hk
    · by_cases hxt : x = t
      · subst hxt
        simp
      · rw [Function.update_of_ne hxt, Function.update_of_ne hxt]
        exact h.inv.attached.counted x hx
    · have hxt : x ≠ t := hne x fun hset => hset.1 hx
      rw [Function.update_of_ne hxt]
      exact h.inv.attached.absent x hx
    · rw [card_members_remove _ hbound hmember, ← h.inv.attached.total q, Function.update_apply]
      split
      · rw [‹q = p›]
      · rfl
  refine ⟨{ g with
      member := Function.update g.member t none
      leaving := Function.update g.leaving t true }, _, rfl,
    { h.inv.toCore with attached := hattached }, le_rfl,
    ⟨fun _ _ => rfl, fun a ha => by simp [Ghost.self, ha], fun _ _ => rfl⟩, h.loc, ?_, h.desk⟩
  simp [Ghost.self, h.stage, h.spl, h.irq, h.proc, h.hand, h.fresh]

theorem does_clearProc (hc : v.loc = some (.on c)) (hst : v.stage = .present)
    (hleaving : v.leaving = true) :
    Does t v (change fun t _ s => { s with tProc := Function.update s.tProc t none })
      fun _ v' => v' = ({ v with proc := some none, leaving := false }).put c := by
  refine does_change_at hc fun g s h => ?_
  have hmember : g.member t = none := by
    rw [h.inv.attached.counted t h.settled, h.leaving, hleaving]
    rfl
  have hpresent := (h.inv.located.present t).mpr ⟨⟨c, h.loc⟩, h.stage.trans hst⟩
  have hattached : Attached g.place g.member (Function.update g.proc t (some none))
      (Function.update g.leaving t false) g.fresh (Function.update s.tProc t none) s.nextThread
      s.pNumthreads := by
    refine { h.inv.attached with
      known := fun x y hx => ?_
      unstarted := fun x hx hnone => ?_
      zombies := fun x d hx => ?_
      newborn := fun a k hk => ?_
      counted := fun x hx => ?_ }
    · by_cases hxt : x = t
      · subst hxt
        simpa using hx
      · rw [Function.update_of_ne hxt] at hx ⊢
        exact h.inv.attached.known x y hx
    · have hxt : x ≠ t := by
        rintro rfl
        simp at hnone
      rw [Function.update_of_ne hxt] at hnone ⊢
      exact h.inv.attached.unstarted x hx hnone
    · have hxt : x ≠ t := by
        rintro rfl
        rw [hpresent] at hx
        cases hx
      rw [Function.update_of_ne hxt]
      exact h.inv.attached.zombies x d hx
    · have hkt : k.thread ≠ t := by
        intro hkt
        have hplace := h.inv.place_fresh hk
        rw [hkt, hpresent] at hplace
        cases hplace
      rw [Function.update_of_ne hkt, Function.update_of_ne hkt, Function.update_of_ne hkt]
      exact h.inv.attached.newborn a k hk
    · by_cases hxt : x = t
      · subst hxt
        simp [hmember]
      · rw [Function.update_of_ne hxt, Function.update_of_ne hxt]
        exact h.inv.attached.counted x hx
  let g' : Ghost n := { g with
    proc := Function.update g.proc t (some none)
    leaving := Function.update g.leaving t false }
  have hne : ∀ a, a ≠ t → g'.self a = g.self a := fun a ha => by simp [g', Ghost.self, ha]
  have hunmasked := h.inv.unmasked_of_apart hne fun _ =>
    ⟨h.stage.trans hst, none, Function.update_self ..⟩
  refine ⟨g', { h.inv.toCore with attached := hattached, unmasked := hunmasked }, le_rfl,
    ⟨fun _ _ => rfl, hne, fun _ _ => rfl⟩, h.loc, ?_, h.desk⟩
  simp [g', Ghost.self, h.stage, h.spl, h.irq, h.hand, h.fresh]

end Os161Paging.Threads
