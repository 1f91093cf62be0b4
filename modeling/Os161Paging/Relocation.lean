import Os161Paging.Residence

/-!
# What is kept when a thread moves

Threads change their places one at a time: a thread puts itself on a list,
hands its processor over, gets a processor, is made, or is destroyed. For
each part of the invariant there is one statement here that says what has
to be known about the thread that moves, and that the others stay as they
are; the actions of the scheduler put these together. Taking the processor
from a thread and giving it one change who executes as well, and have
statements of their own.
-/

namespace Os161Paging.Threads

variable {n : Nat} {t u : Thread} {c d : Fin n} {i : Item n}
  {place : Thread → Place n} {member : Thread → Option Proc} {loc loc' : Thread → Loc n}
  {stage stage' : Thread → Stage} {spl : Thread → Ipl} {irq : Thread → Bool}
  {proc : Thread → Option (Option Proc)} {leaving : Thread → Bool}
  {hand hand' : Thread → List (Item n)} {fresh fresh' : Thread → Option (Newborn n)}
  {held : Fin n → List (Spin n)} {floor : Fin n → Nat} {owes : Fin n → Option (Fin n)}
  {posted : Fin n → Option Nat} {found : Fin n → Option (Nat × Bool)}
  {allocated allocated' : Thread → Bool} {tState tState' : Thread → ThreadState}
  {tCpu tCpu' : Thread → Option (Fin n)} {tProc tProc' : Thread → Option Proc}
  {tInInterrupt tInInterrupt' : Thread → Bool} {tCurspl tCurspl' : Thread → Ipl}
  {tIplhighCount tIplhighCount' : Thread → Nat} {nextThread nextThread' : Thread}
  {curthread : Fin n → Thread} {zombies zombies' : Fin n → List Thread}
  {spinlocks : Fin n → Nat} {isidle : Fin n → Bool} {runqueue runqueue' : Fin n → List Thread}
  {ipiPending : Fin n → Ipi → Bool} {waiting waiting' : Fin n → Waiting}
  {wcThreads wcThreads' : Chan → List Thread} {numthreads : Proc → Nat}
  {splkHolder : Spin n → Option (Fin n)} {q : Place n} {b : Stage} {l : Loc n}

/-! ## One thread changes its place -/

theorem resettled_update (hu : (place u).Settled) (hq : q.Settled) (x : Thread) :
    Function.update place u q x = place x ∨
      (place x).Settled ∧ (Function.update place u q x).Settled := by
  by_cases hx : x = u
  · subst hx
    rw [Function.update_self]
    exact .inr ⟨hu, hq⟩
  · exact .inl (Function.update_of_ne hx _ _)

/-- Who is at another place than `q` has not been moved. -/
theorem ne_of_update {x : Thread} {r : Place n} (hr : r ≠ q)
    (hx : Function.update place u q x = r) : x ≠ u ∧ place x = r := by
  have hxu : x ≠ u := by
    rintro rfl
    rw [Function.update_self] at hx
    exact hr hx.symm
  rw [Function.update_of_ne hxu] at hx
  exact ⟨hxu, hx⟩

theorem Located.move
    (h : Located place loc stage hand fresh allocated nextThread zombies runqueue wcThreads)
    (hshelved : Shelved Place.IsShelf (Function.update place u q)
      (shelves hand' fresh' zombies' runqueue' wcThreads'))
    (hpresent : q = .present ↔ (∃ c, loc' u = .on c) ∧ stage' u = .present)
    (hothers : ∀ x, x ≠ u → ((∃ c, loc' x = .on c) ∧ stage' x = .present ↔
      (∃ c, loc x = .on c) ∧ stage x = .present))
    (hexists : allocated' u = true ↔ q ≠ .absent)
    (hallocated : ∀ x, x ≠ u → allocated' x = allocated x)
    (hbound : q ≠ .absent → u < nextThread') (hnext : nextThread ≤ nextThread') :
    Located (Function.update place u q) loc' stage' hand' fresh' allocated' nextThread' zombies'
      runqueue' wcThreads' := by
  refine ⟨hshelved, ?_, ?_, ?_⟩
  · refine (Function.forall_update_iff place fun x r =>
      r = .present ↔ (∃ c, loc' x = .on c) ∧ stage' x = .present).mpr ⟨hpresent, fun x hx => ?_⟩
    exact (h.present x).trans (hothers x hx).symm
  · refine (Function.forall_update_iff place fun x r =>
      allocated' x = true ↔ r ≠ .absent).mpr ⟨hexists, fun x hx => ?_⟩
    rw [hallocated x hx]
    exact h.exists_iff x
  · refine (Function.forall_update_iff place fun x r =>
      r ≠ .absent → x < nextThread').mpr ⟨hbound, fun x _ hr => ?_⟩
    exact Nat.lt_of_lt_of_le (h.bound x hr) hnext

/-- No thread is made or destroyed. -/
theorem Located.move_of_exists
    (h : Located place loc stage hand fresh allocated nextThread zombies runqueue wcThreads)
    (hu : place u ≠ .absent) (hq : q ≠ .absent)
    (hshelved : Shelved Place.IsShelf (Function.update place u q)
      (shelves hand' fresh' zombies' runqueue' wcThreads'))
    (hpresent : q = .present ↔ (∃ c, loc' u = .on c) ∧ stage' u = .present)
    (hothers : ∀ x, x ≠ u → ((∃ c, loc' x = .on c) ∧ stage' x = .present ↔
      (∃ c, loc x = .on c) ∧ stage x = .present)) :
    Located (Function.update place u q) loc' stage' hand' fresh' allocated nextThread zombies'
      runqueue' wcThreads' :=
  h.move hshelved hpresent hothers (iff_of_true ((h.exists_iff u).mpr hu) hq) (fun _ _ => rfl)
    (fun _ => h.bound u hu) le_rfl

/-- No thread gets a processor or gives it up. -/
theorem Seated.move (h : Seated place loc stage hand fresh tCpu curthread isidle)
    (hstage : ∀ x, x ≠ u → stage' x = stage x) (hidle : (stage' u).isIdle = (stage u).isIdle)
    (hcpu : ∀ x, x ≠ u → tCpu' x = tCpu x) (hcur : ∀ c, tCpu' (curthread c) = some c)
    (harriving : ∀ c, q = .arriving c ↔ loc u = .away ∧ curthread c = u)
    (hfits : q.Fits (tCpu' u)) (hhand : ∀ t, ∀ i ∈ hand' t, tCpu' i.thread = some i.cpu)
    (hfresh : ∀ t, ∀ b ∈ fresh' t, tCpu' b.thread = some b.cpu)
    (hpermits : ∀ c, loc u = .on c → stage' u ≠ .present → (stage' u).Permits c q)
    (hdead : ∀ c, q = .zombies c → loc u = .gone ∨ ∃ d, loc u = .on d)
    (hgone : loc u = .gone → (∃ c, q = .zombies c) ∨ q = .absent) :
    Seated (Function.update place u q) loc stage' hand' fresh' tCpu' curthread isidle := by
  refine ⟨h.on, h.cur, ?_, hcur, ?_, hhand, hfresh, ?_, fun c => ?_, ?_, ?_⟩
  · exact (Function.forall_update_iff place fun x r =>
      ∀ c, r = .arriving c ↔ loc x = .away ∧ curthread c = x).mpr
        ⟨harriving, fun x _ => h.arriving x⟩
  · refine (Function.forall_update_iff place fun x r => r.Fits (tCpu' x)).mpr
      ⟨hfits, fun x hx => ?_⟩
    rw [hcpu x hx]
    exact h.cpu x
  · refine (Function.forall_update_iff place fun x r =>
      ∀ c, loc x = .on c → stage' x ≠ .present → (stage' x).Permits c r).mpr
        ⟨hpermits, fun x hx => ?_⟩
    rw [hstage x hx]
    exact h.departed x
  · refine (h.idle c).trans (and_congr_right fun _ => ?_)
    by_cases hcu : curthread c = u
    · rw [hcu, hidle]
    · rw [hstage _ hcu]
  · exact (Function.forall_update_iff place fun x r =>
      ∀ c, r = .zombies c → loc x = .gone ∨ ∃ d, loc x = .on d).mpr ⟨hdead, fun x _ => h.dead x⟩
  · exact (Function.forall_update_iff place fun x r =>
      loc x = .gone → (∃ c, r = .zombies c) ∨ r = .absent).mpr ⟨hgone, fun x _ => h.gone x⟩

/-- The thread does not execute. -/
theorem Levelled.move (h : Levelled place loc spl irq held tInInterrupt tCurspl tIplhighCount)
    (hin : ∀ x, x ≠ u → tInInterrupt' x = tInInterrupt x)
    (hcurspl : ∀ x, x ≠ u → tCurspl' x = tCurspl x)
    (hcount : ∀ x, x ≠ u → tIplhighCount' x = tIplhighCount x) (hon : ∀ c, loc u ≠ .on c)
    (haway : loc u = .away → q.Settled → tCurspl' u = .high ∧ tIplhighCount' u = 2)
    (hnewborn : ∀ t, q = .fresh t → loc u = .away ∧ tCurspl' u = .high ∧ tIplhighCount' u = 1)
    (hirq : q ≠ .absent → tInInterrupt' u = irq u) :
    Levelled (Function.update place u q) loc spl irq held tInInterrupt' tCurspl'
      tIplhighCount' := by
  refine ⟨fun x c hx => ?_, ?_, ?_, h.awaySpl, ?_⟩
  · have hxu : x ≠ u := by
      rintro rfl
      exact hon c hx
    rw [hcurspl x hxu, hcount x hxu]
    exact h.on x c hx
  · refine (Function.forall_update_iff place fun x r =>
      loc x = .away → r.Settled → tCurspl' x = .high ∧ tIplhighCount' x = 2).mpr
        ⟨haway, fun x hx => ?_⟩
    rw [hcurspl x hx, hcount x hx]
    exact h.away x
  · refine (Function.forall_update_iff place fun x r => ∀ t, r = .fresh t →
      loc x = .away ∧ tCurspl' x = .high ∧ tIplhighCount' x = 1).mpr ⟨hnewborn, fun x hx => ?_⟩
    rw [hcurspl x hx, hcount x hx]
    exact h.newborn x
  · refine (Function.forall_update_iff place fun x r =>
      r ≠ .absent → tInInterrupt' x = irq x).mpr ⟨hirq, fun x hx => ?_⟩
    rw [hin x hx]
    exact h.inInterrupt x

theorem Stated.move (h : Stated place loc stage hand tState)
    (hdeparting : ∀ x, x ≠ u → (Departing (loc' x) (stage' x) ↔ Departing (loc x) (stage x)))
    (hstate : ∀ x, x ≠ u → tState' x = tState x) (hqueue : ∀ c, q = .queue c → tState' u = .ready)
    (htold : Departing (loc' u) (stage' u) ∨ q.Tells (tState' u))
    (htaken : ∀ t, ∀ i ∈ hand' t, i.ready = true → tState' i.thread = .ready ∧
      ¬ Departing (loc' i.thread) (stage' i.thread)) :
    Stated (Function.update place u q) loc' stage' hand' tState' := by
  refine ⟨?_, ?_, htaken⟩
  · refine (Function.forall_update_iff place fun x r => ∀ c, r = .queue c → tState' x = .ready).mpr
      ⟨hqueue, fun x hx => ?_⟩
    rw [hstate x hx]
    exact h.queue x
  · refine (Function.forall_update_iff place fun x r =>
      Departing (loc' x) (stage' x) ∨ r.Tells (tState' x)).mpr ⟨htold, fun x hx => ?_⟩
    rw [hdeparting x hx, hstate x hx]
    exact h.told x

/-- Nothing changes for a thread in somebody's hand that is not the one that is moved. -/
theorem Stated.taken_of_ne (h : Stated place loc stage hand tState)
    (hdeparting : ∀ x, x ≠ u → (Departing (loc' x) (stage' x) ↔ Departing (loc x) (stage x)))
    (hstate : ∀ x, x ≠ u → tState' x = tState x) (hi : i ∈ hand t) (hne : i.thread ≠ u)
    (hr : i.ready = true) :
    tState' i.thread = .ready ∧ ¬ Departing (loc' i.thread) (stage' i.thread) := by
  rw [hstate _ hne, hdeparting _ hne]
  exact h.taken t i hi hr

theorem Attached.move
    (h : Attached place member proc leaving fresh tProc nextThread numthreads)
    (hproc : ∀ x, x ≠ u → tProc' x = tProc x) (hknown : ∀ x, proc u = some x → tProc' u = x)
    (hunstarted : q.Settled → proc u = none → tProc' u ≠ none)
    (hzombies : ∀ c, q = .zombies c → tProc' u = none)
    (hnewborn : ∀ t, ∀ b ∈ fresh' t, tProc' b.thread = (if b.joined then b.joining else none) ∧
      proc b.thread = none ∧ member b.thread = b.joining ∧ leaving b.thread = false)
    (hcounted : q.Settled → member u = if leaving u then none else tProc' u)
    (habsent : q = .absent → member u = none)
    (htotal : ∀ p, numthreads p =
      ((Finset.range nextThread').filter fun x => member x = some p).card) :
    Attached (Function.update place u q) member proc leaving fresh' tProc' nextThread'
      numthreads := by
  refine ⟨fun x y hx => ?_, ?_, ?_, hnewborn, ?_, ?_, htotal⟩
  · by_cases hxu : x = u
    · rw [hxu] at hx ⊢
      exact hknown y hx
    · rw [hproc x hxu]
      exact h.known x y hx
  · refine (Function.forall_update_iff place fun x r =>
      r.Settled → proc x = none → tProc' x ≠ none).mpr ⟨hunstarted, fun x hx => ?_⟩
    rw [hproc x hx]
    exact h.unstarted x
  · refine (Function.forall_update_iff place fun x r => ∀ c, r = .zombies c → tProc' x = none).mpr
      ⟨hzombies, fun x hx => ?_⟩
    rw [hproc x hx]
    exact h.zombies x
  · refine (Function.forall_update_iff place fun x r =>
      r.Settled → member x = if leaving x then none else tProc' x).mpr ⟨hcounted, fun x hx => ?_⟩
    rw [hproc x hx]
    exact h.counted x
  · exact (Function.forall_update_iff place fun x r => r = .absent → member x = none).mpr
      ⟨habsent, fun x _ => h.absent x⟩

/-! ## The thread that executes gets to another stage -/

theorem Locked.restage
    (h : Locked loc stage held owes posted found curthread spinlocks splkHolder)
    (hloc : loc u = .on c) (hlock : b.switching = true → Spin.runqueue c ∈ held c) :
    Locked loc (Function.update stage u b) held owes posted found curthread spinlocks
      splkHolder := by
  refine { h with switching := fun x d hx hs => ?_ }
  by_cases hxu : x = u
  · subst hxu
    obtain rfl : d = c := by simpa [hloc] using hx.symm
    rw [Function.update_self] at hs
    exact hlock hs
  · rw [Function.update_of_ne hxu] at hs
    exact h.switching x d hx hs

theorem Roused.restage
    (h : Roused loc stage held floor owes curthread runqueue ipiPending waiting)
    (hloc : loc u = .on c) (hcur : curthread c = u) (hcur' : ∀ d, d ≠ c → curthread d ≠ u)
    (hdoze : ∀ st, b = .dozing st → runqueue c = [])
    (hwake : ∀ d, waiting' d ≠ .no → waiting d ≠ .no)
    (hwait : waiting' c ≠ .no → ∃ st, b = .dozing st) :
    Roused loc (Function.update stage u b) held floor owes curthread runqueue ipiPending
      waiting' := by
  refine { h with doze := fun x d st hx hst => ?_, asleep := fun d hd => ?_ }
  · by_cases hxu : x = u
    · subst hxu
      obtain rfl : d = c := by simpa [hloc] using hx.symm
      rw [Function.update_self] at hst
      exact .inl (hdoze st hst)
    · rw [Function.update_of_ne hxu] at hst
      exact h.doze x d st hx hst
  · obtain ⟨hon, hheld, hst⟩ := h.asleep d (hwake d hd)
    refine ⟨hon, hheld, ?_⟩
    by_cases hdc : d = c
    · subst hdc
      rw [hcur, Function.update_self]
      exact hwait hd
    · rwa [Function.update_of_ne (hcur' d hdc)]

/-! ## A thread hands its processor over -/

/-- The thread `t`, which executes on `c`, gives the processor to `u` and is `l` then. -/
structure HandsOver (loc : Thread → Loc n) (curthread : Fin n → Thread) (t u : Thread) (c : Fin n)
    (l : Loc n) : Prop where
  alone : ∀ x, loc x = .on c → x = t
  cur : curthread c = t
  only : ∀ d, d ≠ c → curthread d ≠ t
  leaves : ∀ d, l ≠ .on d
  next : Function.update loc t l u = .away

namespace HandsOver

/-- Who executes then has done so before, on another processor. -/
theorem on (h : HandsOver loc curthread t u c l) {x : Thread}
    (hx : Function.update loc t l x = .on d) : x ≠ t ∧ x ≠ u ∧ loc x = .on d ∧ d ≠ c := by
  have hxt : x ≠ t := by
    rintro rfl
    rw [Function.update_self] at hx
    exact h.leaves d hx
  have hxu : x ≠ u := by
    rintro rfl
    rw [h.next] at hx
    cases hx
  rw [Function.update_of_ne hxt] at hx
  refine ⟨hxt, hxu, hx, ?_⟩
  rintro rfl
  exact hxt (h.alone x hx)

theorem departing (h : HandsOver loc curthread t u c l) (hst : ∀ x, stage t ≠ .departing x)
    (x : Thread) : Departing (Function.update loc t l x) (Function.update stage t .present x) ↔
      Departing (loc x) (stage x) := by
  by_cases hxt : x = t
  · subst hxt
    refine iff_of_false ?_ fun hx => hst _ hx.2.choose_spec
    rintro ⟨⟨d, hd⟩, -⟩
    rw [Function.update_self] at hd
    exact h.leaves d hd
  · rw [Function.update_of_ne hxt, Function.update_of_ne hxt]

theorem present (h : HandsOver loc curthread t u c l) (hst : stage t ≠ .present) (x : Thread) :
    ((∃ d, Function.update loc t l x = .on d) ∧ Function.update stage t .present x = .present ↔
      (∃ d, loc x = .on d) ∧ stage x = .present) := by
  by_cases hxt : x = t
  · subst hxt
    refine iff_of_false ?_ fun hx => hst hx.2
    rintro ⟨⟨d, hd⟩, -⟩
    rw [Function.update_self] at hd
    exact h.leaves d hd
  · rw [Function.update_of_ne hxt, Function.update_of_ne hxt]

/-- Who is current then, and does not execute yet. -/
theorem away_iff (h : HandsOver loc curthread t u c l) (hcpu : ∀ d, d ≠ c → curthread d ≠ u)
    (x : Thread) (d : Fin n) :
    Function.update loc t l x = .away ∧ Function.update curthread c u d = x ↔
      x = u ∧ d = c ∨ x ≠ u ∧ x ≠ t ∧ loc x = .away ∧ curthread d = x := by
  by_cases hd : d = c
  · subst hd
    rw [Function.update_self]
    constructor
    · rintro ⟨-, rfl⟩
      exact .inl ⟨rfl, rfl⟩
    · rintro (⟨rfl, -⟩ | ⟨-, hxt, -, hx⟩)
      · exact ⟨h.next, rfl⟩
      · exact absurd (hx.symm.trans h.cur) hxt
  · rw [Function.update_of_ne hd]
    constructor
    · rintro ⟨haway, rfl⟩
      rw [Function.update_of_ne (h.only d hd)] at haway
      exact .inr ⟨hcpu d hd, h.only d hd, haway, rfl⟩
    · rintro (⟨-, hdc⟩ | ⟨-, hxt, haway, hx⟩)
      · exact absurd hdc hd
      · rw [Function.update_of_ne hxt]
        exact ⟨haway, hx⟩

end HandsOver

theorem Seated.handOver (h : Seated place loc stage hand fresh tCpu curthread isidle)
    (ho : HandsOver loc curthread t u c l) (hon : loc t = .on c) (hcpu : tCpu u = some c)
    (hidle : (stage t).isIdle = false) (hhand : ∀ w, ∀ i ∈ hand' w, i ∈ hand w)
    (hdead : ∀ d, place t = .zombies d → l = .gone)
    (hgone : l = .gone → place t = .zombies c) :
    Seated (Function.update place u (.arriving c)) (Function.update loc t l)
      (Function.update stage t .present) hand' fresh tCpu (Function.update curthread c u)
      isidle := by
  have hcur : ∀ d, d ≠ c → curthread d ≠ u := by
    intro d hd hcur
    have hcd := h.curCpu d
    rw [hcur, hcpu] at hcd
    exact hd (Option.some.inj hcd).symm
  refine ⟨fun x d hx => ?_, fun d => ?_, fun x d => ?_, fun d => ?_, fun x => ?_,
    fun w i hi => h.handCpu w i (hhand w i hi), h.freshCpu, fun x d hx hst => ?_, fun d => ?_,
    fun x d hx => ?_, fun x hx => ?_⟩
  · obtain ⟨-, -, hx, hd⟩ := ho.on hx
    rw [Function.update_of_ne hd]
    exact h.on x d hx
  · by_cases hd : d = c
    · subst hd
      rw [Function.update_self]
      exact .inr ho.next
    · rw [Function.update_of_ne hd, Function.update_of_ne (ho.only d hd)]
      exact h.cur d
  · rw [ho.away_iff hcur]
    by_cases hxu : x = u
    · subst hxu
      simp [eq_comm]
    · rw [Function.update_of_ne hxu, h.arriving x d]
      constructor
      · rintro ⟨haway, hx⟩
        refine .inr ⟨hxu, ?_, haway, hx⟩
        rintro rfl
        rw [hon] at haway
        cases haway
      · rintro (⟨hx, -⟩ | ⟨-, -, hx⟩)
        · exact absurd hx hxu
        · exact hx
  · by_cases hd : d = c
    · subst hd
      rw [Function.update_self]
      exact hcpu
    · rw [Function.update_of_ne hd]
      exact h.curCpu d
  · by_cases hxu : x = u
    · subst hxu
      rw [Function.update_self]
      exact hcpu
    · rw [Function.update_of_ne hxu]
      exact h.cpu x
  · obtain ⟨hxt, hxu, hx, -⟩ := ho.on hx
    rw [Function.update_of_ne hxt] at hst
    rw [Function.update_of_ne hxt, Function.update_of_ne hxu]
    exact h.departed x d hx hst
  · by_cases hd : d = c
    · subst hd
      rw [h.idle, Function.update_self, ho.next, ho.cur, hidle]
      simp
    · rw [Function.update_of_ne hd, Function.update_of_ne (ho.only d hd),
        Function.update_of_ne (ho.only d hd)]
      exact h.idle d
  · obtain ⟨hxu, hx⟩ := ne_of_update (by simp) hx
    by_cases hxt : x = t
    · subst hxt
      rw [Function.update_self]
      exact .inl (hdead d hx)
    · rw [Function.update_of_ne hxt]
      exact h.dead x d hx
  · have hxu : x ≠ u := by
      rintro rfl
      rw [ho.next] at hx
      cases hx
    rw [Function.update_of_ne hxu]
    by_cases hxt : x = t
    · subst hxt
      rw [Function.update_self] at hx
      exact .inl ⟨c, hgone hx⟩
    · rw [Function.update_of_ne hxt] at hx
      exact h.gone x hx

theorem Locked.handOver
    (h : Locked loc stage held owes posted found curthread spinlocks splkHolder)
    (ho : HandsOver loc curthread t u c l) (hheld : held c = [.runqueue c])
    (howes : owes c = none) :
    Locked (Function.update loc t l) (Function.update stage t .present) held owes posted found
      (Function.update curthread c u) spinlocks splkHolder := by
  refine { h with switching := fun x d hx hs => ?_, arriving := fun d hd => ?_ }
  · obtain ⟨hxt, -, hx, -⟩ := ho.on hx
    rw [Function.update_of_ne hxt] at hs
    exact h.switching x d hx hs
  · by_cases hdc : d = c
    · subst hdc
      exact ⟨hheld, howes⟩
    · rw [Function.update_of_ne hdc, Function.update_of_ne (ho.only d hdc)] at hd
      exact h.arriving d hd

theorem Levelled.handOver
    (h : Levelled place loc spl irq held tInInterrupt tCurspl tIplhighCount)
    (ho : HandsOver loc curthread t u c l) (hon : loc t = .on c) (hspl : spl t = .high)
    (hheld : held c = [.runqueue c]) :
    Levelled place (Function.update loc t l) spl irq held tInInterrupt tCurspl
      tIplhighCount := by
  refine { h with
    on := fun x d hx => h.on x d (ho.on hx).2.2.1
    away := fun x hx hset => ?_
    newborn := fun x w hx => ?_
    awaySpl := fun x hx => ?_ }
  · by_cases hxt : x = t
    · subst hxt
      -- the run queue's lock is the one it holds: with `splhigh` that makes two
      obtain ⟨hcurspl, hcount⟩ := h.on x c hon
      rw [hspl] at hcurspl hcount
      rw [hheld] at hcount
      exact ⟨hcurspl, hcount⟩
    · rw [Function.update_of_ne hxt] at hx
      exact h.away x hx hset
  · obtain ⟨haway, hrest⟩ := h.newborn x w hx
    have hxt : x ≠ t := by
      rintro rfl
      rw [hon] at haway
      cases haway
    rw [Function.update_of_ne hxt]
    exact ⟨haway, hrest⟩
  · by_cases hxt : x = t
    · subst hxt
      exact hspl
    · rw [Function.update_of_ne hxt] at hx
      exact h.awaySpl x hx

theorem Roused.handOver
    (h : Roused loc stage held floor owes curthread runqueue ipiPending waiting)
    (ho : HandsOver loc curthread t u c l) (hwait : waiting c = .no) :
    Roused (Function.update loc t l) (Function.update stage t .present) held floor owes
      (Function.update curthread c u) runqueue ipiPending waiting := by
  refine { h with doze := fun x d st hx hst => ?_, asleep := fun d hd => ?_ }
  · obtain ⟨hxt, -, hx, -⟩ := ho.on hx
    rw [Function.update_of_ne hxt] at hst
    exact h.doze x d st hx hst
  · have hdc : d ≠ c := by
      rintro rfl
      exact hd hwait
    rw [Function.update_of_ne hdc, Function.update_of_ne (ho.only d hdc),
      Function.update_of_ne (ho.only d hdc)]
    exact h.asleep d hd

/-! ## A thread gets a processor -/

theorem on_of_arrive {x : Thread} (hx : Function.update loc t (.on c) x = .on d) :
    x = t ∧ d = c ∨ x ≠ t ∧ loc x = .on d := by
  by_cases hxt : x = t
  · subst hxt
    rw [Function.update_self] at hx
    cases hx
    exact .inl ⟨rfl, rfl⟩
  · rw [Function.update_of_ne hxt] at hx
    exact .inr ⟨hxt, hx⟩

theorem ne_of_arrive {x : Thread} {l : Loc n} (hl : l ≠ .on c)
    (hx : Function.update loc t (.on c) x = l) : x ≠ t ∧ loc x = l := by
  have hxt : x ≠ t := by
    rintro rfl
    rw [Function.update_self] at hx
    exact hl hx.symm
  rw [Function.update_of_ne hxt] at hx
  exact ⟨hxt, hx⟩

theorem Seated.arrive (h : Seated place loc stage hand fresh tCpu curthread isidle)
    (hc : curthread c = t) (hcur : ∀ d, d ≠ c → curthread d ≠ t) (haway : loc t = .away)
    (hstage : stage t = .present) :
    Seated (Function.update place t .present) (Function.update loc t (.on c)) stage hand fresh
      tCpu curthread isidle := by
  refine { h with
    on := fun x d hx => ?_
    cur := fun d => ?_
    arriving := fun x d => ?_
    cpu := fun x => ?_
    departed := fun x d hx hst => ?_
    idle := fun d => ?_
    dead := fun x d hx => ?_
    gone := fun x hx => ?_ }
  · rcases on_of_arrive hx with ⟨rfl, rfl⟩ | ⟨-, hx⟩
    · exact hc
    · exact h.on x d hx
  · by_cases hd : d = c
    · subst hd
      rw [hc, Function.update_self]
      exact .inl rfl
    · rw [Function.update_of_ne (hcur d hd)]
      exact h.cur d
  · by_cases hxt : x = t
    · subst hxt
      simp
    · rw [Function.update_of_ne hxt, Function.update_of_ne hxt]
      exact h.arriving x d
  · by_cases hxt : x = t
    · subst hxt
      rw [Function.update_self]
      trivial
    · rw [Function.update_of_ne hxt]
      exact h.cpu x
  · rcases on_of_arrive hx with ⟨rfl, rfl⟩ | ⟨hxt, hx⟩
    · exact absurd hstage hst
    · rw [Function.update_of_ne hxt]
      exact h.departed x d hx hst
  · by_cases hd : d = c
    · subst hd
      rw [h.idle d, hc, haway, hstage]
      simp [Stage.isIdle]
    · rw [Function.update_of_ne (hcur d hd)]
      exact h.idle d
  · obtain ⟨hxt, hx⟩ := ne_of_update (by simp) hx
    rw [Function.update_of_ne hxt]
    exact h.dead x d hx
  · obtain ⟨hxt, hx⟩ := ne_of_arrive (by simp) hx
    rw [Function.update_of_ne hxt]
    exact h.gone x hx

theorem Locked.arrive (h : Locked loc stage held owes posted found curthread spinlocks splkHolder)
    (hc : curthread c = t) (hcur : ∀ d, d ≠ c → curthread d ≠ t) (hstage : stage t = .present) :
    Locked (Function.update loc t (.on c)) stage held owes posted found curthread spinlocks
      splkHolder := by
  refine { h with switching := fun x d hx hs => ?_, arriving := fun d hd => ?_ }
  · rcases on_of_arrive hx with ⟨rfl, rfl⟩ | ⟨-, hx⟩
    · rw [hstage] at hs
      cases hs
    · exact h.switching x d hx hs
  · have hdc : d ≠ c := by
      rintro rfl
      rw [hc, Function.update_self] at hd
      cases hd
    rw [Function.update_of_ne (hcur d hdc)] at hd
    exact h.arriving d hd

/-- The lock of the run queue was taken by another thread, and counted for this one when it
last gave up the processor, or when it was made. -/
theorem Levelled.arrive (h : Levelled place loc spl irq held tInInterrupt tCurspl tIplhighCount)
    (haway : loc t = .away) (hset : (place t).Settled) (hheld : held c = [.runqueue c]) :
    Levelled place (Function.update loc t (.on c)) spl irq held tInInterrupt tCurspl
      tIplhighCount := by
  refine { h with
    on := fun x d hx => ?_
    away := fun x hx => h.away x (ne_of_arrive (by simp) hx).2
    newborn := fun x b hx => ?_
    awaySpl := fun x hx => h.awaySpl x (ne_of_arrive (by simp) hx).2 }
  · rcases on_of_arrive hx with ⟨rfl, rfl⟩ | ⟨-, hx⟩
    · rw [h.awaySpl x haway, hheld]
      exact h.away x haway hset
    · exact h.on x d hx
  · have hxt : x ≠ t := by
      rintro rfl
      exact hset.2 b hx
    rw [Function.update_of_ne hxt]
    exact h.newborn x b hx

theorem Roused.arrive
    (h : Roused loc stage held floor owes curthread runqueue ipiPending waiting)
    (hc : curthread c = t) (hcur : ∀ d, d ≠ c → curthread d ≠ t) (haway : loc t = .away)
    (hstage : stage t = .present) :
    Roused (Function.update loc t (.on c)) stage held (Function.update floor c 0) owes curthread
      runqueue ipiPending waiting := by
  refine ⟨fun d => ?_, fun x d st hx hst => ?_, fun d hd => ?_⟩
  · by_cases hdc : d = c
    · subst hdc
      rw [Function.update_self]
      exact Nat.zero_le _
    · rw [Function.update_of_ne hdc]
      exact h.atLeast d
  · rcases on_of_arrive hx with ⟨rfl, rfl⟩ | ⟨-, hx⟩
    · rw [hstage] at hst
      cases hst
    · exact h.doze x d st hx hst
  · obtain ⟨hon, hrest⟩ := h.asleep d hd
    have hdc : d ≠ c := by
      rintro rfl
      rw [hc, haway] at hon
      cases hon
    rw [Function.update_of_ne (hcur d hdc)]
    exact ⟨hon, hrest⟩

theorem Attached.arrive
    (h : Attached place member proc leaving fresh tProc nextThread numthreads)
    (hfresh : ∀ w, ∀ b ∈ fresh w, b.thread ≠ t) :
    Attached place member (Function.update proc t (some (tProc t))) leaving fresh tProc nextThread
      numthreads := by
  refine { h with
    known := fun x y hx => ?_
    unstarted := fun x hx hproc => ?_
    newborn := fun w b hb => ?_ }
  · by_cases hxt : x = t
    · subst hxt
      simpa using hx
    · rw [Function.update_of_ne hxt] at hx
      exact h.known x y hx
  · have hxt : x ≠ t := by
      rintro rfl
      simp at hproc
    rw [Function.update_of_ne hxt] at hproc
    exact h.unstarted x hx hproc
  · rw [Function.update_of_ne (hfresh w b hb)]
    exact h.newborn w b hb

end Os161Paging.Threads
