import Mathlib.Logic.Function.Basic
import Mathlib.Tactic.SplitIfs
import Os161Paging.Circular
import Os161Paging.Prog
import Os161Paging.Transitions

/-!
# The pid registry

The process table of `proc.c` (`OPT_WAITPID`): `proc_init_waitpid` gives a
new process the next free index in circular order, `proc_end_waitpid` takes
it away, `proc_search_pid` looks a pid up for `sys_waitpid`. The table is a
partial bijection between indices and live processes through any number of
wraparounds, and the index assigned is the first free one after the last
assigned, unless the last one is all that is free: the loop stops before it.
The lookup asserts a range that leaves out the top index, and it reads
`p_pid` through whatever the slot holds.
-/

namespace Os161Paging.Pids

def maxProc : Nat := 100

/-- `processTable`, and the field `p_pid` of every process structure that is
allocated. Index 0 of the array is not used. -/
structure Table (P : Type) where
  proc : Nat → Option P
  lastI : Nat
  pid : P → Option Nat

variable {P : Type} {t t' : Table P} {p q : P} {i : Nat} {x : Int}

/-- The table as it is loaded, before `proc_bootstrap` makes the kernel process. -/
def Table.empty : Table P where
  proc _ := none
  lastI := 0
  pid _ := none

/-- `i++; if (i > MAX_PROC) i = 1`. -/
def nextI (i : Nat) : Nat := if i + 1 > maxProc then 1 else i + 1

/-- The loop of `proc_init_waitpid` from index `i`: the index it stops at, if
it finds an empty one before it is back at `last_i`. A loop that takes more
turns than there are indices is never left. -/
def scan (proc : Nat → Option P) (last : Nat) : Nat → Nat → Outcome Empty (Option Nat)
  | 0, _ => .hang
  | n + 1, i =>
      if i = last then .ok none
      else if (proc i).isNone then .ok (some i)
      else scan proc last n (nextI i)

variable [DecidableEq P]

/-- `proc_init_waitpid(proc, name)` for a structure that was just allocated. -/
def procInitWaitpid (p : P) (t : Table P) : Outcome Empty (Table P) :=
  (scan t.proc t.lastI (maxProc + 1) (nextI t.lastI)).bind fun
    | none => .panic "too many processes. proc table is full\n"
    | some i => .ok
        { proc := Function.update t.proc i (some p)
          lastI := i
          pid := Function.update t.pid p (some i) }

/-- `proc_end_waitpid(proc)`, after which `proc_destroy` frees the structure. -/
def procEndWaitpid (p : P) (t : Table P) : Outcome Empty (Table P) :=
  match t.pid p with
  | none => .undefined
  | some i =>
      if i > 0 ∧ i ≤ maxProc then .ok
        { t with proc := Function.update t.proc i none, pid := Function.update t.pid p none }
      else .panic "i>0 && i<=MAX_PROC"

/-- `proc_search_pid(pid)`. An empty slot is a null pointer, and the second
assertion reads a field through it. -/
def procSearchPid (t : Table P) (x : Int) : Outcome Empty (Option P) :=
  if x ≥ 0 ∧ x < maxProc then
    match t.proc x.toNat with
    | none => .undefined
    | some p => if t.pid p = some x.toNat then .ok (some p) else .panic "p->p_pid==pid"
  else .panic "pid>=0&&pid<MAX_PROC"

/-- A process is created in a fresh structure, or a live one is destroyed. -/
inductive Event (P : Type) where
  | create (p : P)
  | destroy (p : P)

def perform : Event P → Table P → Option (Table P)
  | .create p, t =>
      if t.pid p = none then
        match procInitWaitpid p t with
        | .ok t' => some t'
        | _ => none
      else none
  | .destroy p, t =>
      match procEndWaitpid p t with
      | .ok t' => some t'
      | _ => none

/-- Any sequence of creations and destructions. -/
def lifetimes (P : Type) [DecidableEq P] : Transitions (Table P) where
  start t := t = .empty
  step t t' := ∃ e, perform e t = some t'

/-! ## The table is a partial bijection -/

/-- The array and the fields `p_pid` say the same, with pids from 1 to `MAX_PROC`. -/
structure WellFormed (t : Table P) : Prop where
  slot : ∀ i p, t.proc i = some p ↔ t.pid p = some i
  range : ∀ i p, t.pid p = some i → 0 < i ∧ i ≤ maxProc

omit [DecidableEq P] in
theorem nextI_range (i : Nat) : 0 < nextI i ∧ nextI i ≤ maxProc := by
  unfold nextI
  split
  · decide
  · omega

omit [DecidableEq P] in
theorem scan_eq_some {proc : Nat → Option P} {last n j : Nat} (hj : 0 < j ∧ j ≤ maxProc)
    (h : scan proc last n j = .ok (some i)) : proc i = none ∧ 0 < i ∧ i ≤ maxProc := by
  induction n generalizing j with
  | zero => exact absurd h nofun
  | succ n ih =>
      unfold scan at h
      split_ifs at h with hlast hfree
      · cases h
      · cases h
        exact ⟨Option.isNone_iff_eq_none.mp hfree, hj⟩
      · exact ih (nextI_range j) h

theorem procInitWaitpid_eq_ok (h : procInitWaitpid p t = .ok t') :
    ∃ i, t.proc i = none ∧ (0 < i ∧ i ≤ maxProc) ∧
      t' = ⟨Function.update t.proc i (some p), i, Function.update t.pid p (some i)⟩ := by
  obtain ⟨r, hr, h⟩ := Outcome.bind_eq_ok.mp h
  cases r with
  | none => exact absurd h nofun
  | some i =>
      obtain ⟨hfree, hrange⟩ := scan_eq_some (nextI_range _) hr
      exact ⟨i, hfree, hrange, (Outcome.ok.inj h).symm⟩

theorem WellFormed.create (hw : WellFormed t) (hp : t.pid p = none)
    (h : procInitWaitpid p t = .ok t') : WellFormed t' := by
  obtain ⟨i, hfree, hrange, rfl⟩ := procInitWaitpid_eq_ok h
  constructor
  · intro j q
    have hslot := hw.slot j q
    have hi : t.pid q ≠ some i := fun hq => by simp [(hw.slot i q).mpr hq] at hfree
    simp only [Function.update_apply]
    split_ifs with hj hq hq
    · simp [hq, hj]
    · simp [hj, hi, Ne.symm hq]
    · subst hq
      simp [hslot, hp, Ne.symm hj]
    · exact hslot
  · intro j q hq
    by_cases hqp : q = p
    · subst hqp
      simp only [Function.update_self, Option.some.injEq] at hq
      exact hq ▸ hrange
    · exact hw.range j q (by simpa [hqp] using hq)

theorem procEndWaitpid_eq_ok (h : procEndWaitpid p t = .ok t') :
    ∃ i, t.pid p = some i ∧
      t' = ⟨Function.update t.proc i none, t.lastI, Function.update t.pid p none⟩ := by
  unfold procEndWaitpid at h
  split at h
  · exact absurd h nofun
  · next i hi =>
      split_ifs at h
      exact ⟨i, hi, (Outcome.ok.inj h).symm⟩

theorem WellFormed.destroy (hw : WellFormed t) (h : procEndWaitpid p t = .ok t') :
    WellFormed t' := by
  obtain ⟨i, hi, rfl⟩ := procEndWaitpid_eq_ok h
  constructor
  · intro j q
    have hslot := hw.slot j q
    have hinj : t.pid q = some i → q = p := fun hq =>
      Option.some.inj (((hw.slot i q).mpr hq).symm.trans ((hw.slot i p).mpr hi))
    simp only [Function.update_apply]
    split_ifs with hj hq hq
    · simp
    · simpa [hj] using fun hqi => hq (hinj hqi)
    · subst hq
      simp [hslot, hi, Ne.symm hj]
    · exact hslot
  · intro j q hq
    by_cases hqp : q = p
    · simp [hqp] at hq
    · exact hw.range j q (by simpa [hqp] using hq)

theorem perform_create :
    perform (.create p) t = some t' ↔ t.pid p = none ∧ procInitWaitpid p t = .ok t' := by
  rw [perform, Option.ite_none_right_eq_some]
  cases procInitWaitpid p t <;> simp

theorem perform_destroy : perform (.destroy p) t = some t' ↔ procEndWaitpid p t = .ok t' := by
  rw [perform]
  cases procEndWaitpid p t <;> simp

theorem reachable_wellFormed (h : (lifetimes P).Reachable t) : WellFormed t := by
  refine h.invariant (I := WellFormed) ?_ ?_
  · rintro t rfl
    exact ⟨by simp [Table.empty], by simp [Table.empty]⟩
  · rintro t t' hw ⟨e, he⟩
    cases e with
    | create p =>
        obtain ⟨hp, he⟩ := perform_create.mp he
        exact hw.create hp he
    | destroy p => exact hw.destroy (perform_destroy.mp he)

/-! ## Which pid is assigned -/

/-- The index `k` places after `last_i`: the last of `MAX_PROC` is `last_i` itself. -/
def indexAfter (last k : Nat) : Nat := (last + k) % maxProc + 1

def freeAfter (proc : Nat → Option P) (i : Nat) : Bool := (proc (i + 1)).isNone

omit [DecidableEq P] in
theorem nextI_indexAfter (last k : Nat) : nextI (indexAfter last k) = indexAfter last (k + 1) := by
  unfold nextI indexAfter maxProc
  split <;> omega

omit [DecidableEq P] in
theorem nextI_last {last : Nat} (h : last ≤ maxProc) : nextI last = indexAfter last 0 := by
  unfold nextI indexAfter maxProc at *
  split <;> omega

omit [DecidableEq P] in
/-- The loop is back at `last_i` after `MAX_PROC` steps, and not before. -/
theorem indexAfter_eq_last {last k : Nat} (h : last ≤ maxProc) (hk : k < maxProc) :
    indexAfter last k = last ↔ 0 < last ∧ k + 1 = maxProc := by
  simp only [indexAfter, maxProc] at *
  omega

omit [DecidableEq P] in
/-- The loop from the `j`-th index on, past indices that are taken. -/
theorem scan_of_taken {proc : Nat → Option P} {last j k fuel : Nat} (hlast : last ≤ maxProc)
    (hj : j ≤ k) (hk : k < maxProc) (htaken : ∀ m < k, proc (indexAfter last m) ≠ none) :
    scan proc last (k - j + fuel) (indexAfter last j) =
      scan proc last fuel (indexAfter last k) := by
  induction hd : k - j generalizing j with
  | zero =>
      obtain rfl : j = k := by omega
      rw [Nat.zero_add]
  | succ d ih =>
      have hstop : ¬ indexAfter last j = last := by
        rw [indexAfter_eq_last hlast (by omega)]
        omega
      have hfree : ¬ (proc (indexAfter last j)).isNone = true := by
        simpa using htaken j (by omega)
      rw [Nat.add_right_comm, scan, if_neg hstop, if_neg hfree, nextI_indexAfter,
        ih (by omega) (by omega)]

omit [DecidableEq P] in
theorem taken_of_first {proc : Nat → Option P} {last k m : Nat}
    (h : FirstFrom maxProc last (freeAfter proc) k) (hm : m < k) :
    proc (indexAfter last m) ≠ none := by
  intro hnone
  have htaken : (proc (indexAfter last m)).isNone = false := h.before m hm
  rw [hnone] at htaken
  cases htaken

omit [DecidableEq P] in
/-- The loop takes the first free index, unless that is the last one it should try. -/
theorem scan_of_first {proc : Nat → Option P} {last k : Nat} (hlast : last ≤ maxProc)
    (h : FirstFrom maxProc last (freeAfter proc) k) :
    scan proc last (maxProc + 1) (nextI last) =
      .ok (if 0 < last ∧ k + 1 = maxProc then none else some (indexAfter last k)) := by
  have hfree : (proc (indexAfter last k)).isNone = true := h.here
  have hlt := h.lt
  have hsteps : maxProc + 1 = k - 0 + (maxProc - k + 1) := by omega
  rw [nextI_last hlast, hsteps, scan_of_taken hlast (Nat.zero_le k) hlt
    fun m => taken_of_first h, scan]
  simp only [indexAfter_eq_last hlast hlt, if_pos hfree]
  split <;> rfl

omit [DecidableEq P] in
theorem scan_of_full {proc : Nat → Option P} {last : Nat} (hlast : last ≤ maxProc) (hpos : 0 < last)
    (hfull : ∀ m < maxProc, proc (indexAfter last m) ≠ none) :
    scan proc last (maxProc + 1) (nextI last) = .ok none := by
  have hend : indexAfter last (maxProc - 1) = last :=
    (indexAfter_eq_last hlast (by decide)).mpr ⟨hpos, by decide⟩
  have hsteps : maxProc + 1 = maxProc - 1 - 0 + 2 := by decide
  rw [nextI_last hlast, hsteps, scan_of_taken hlast (Nat.zero_le _) (by decide)
    fun m hm => hfull m (by omega), scan, if_pos hend]

/-- `last_i` is an index, and 0 only while the table is empty. -/
structure Cursor (t : Table P) : Prop where
  le : t.lastI ≤ maxProc
  zero : t.lastI = 0 → ∀ i, t.proc i = none

theorem reachable_cursor (h : (lifetimes P).Reachable t) : Cursor t := by
  refine h.invariant (I := Cursor) ?_ ?_
  · rintro t rfl
    exact ⟨Nat.zero_le _, fun _ _ => rfl⟩
  · rintro t t' hc ⟨e, he⟩
    cases e with
    | create p =>
        obtain ⟨i, -, ⟨hpos, hle⟩, rfl⟩ := procInitWaitpid_eq_ok (perform_create.mp he).2
        exact ⟨hle, fun hzero => absurd hzero (by simp; omega)⟩
    | destroy p =>
        obtain ⟨i, -, rfl⟩ := procEndWaitpid_eq_ok (perform_destroy.mp he)
        refine ⟨hc.le, fun hzero j => ?_⟩
        simp [Function.update_apply, hc.zero hzero j]

/-- What `proc_init_waitpid` should do: give up exactly if every index is taken, and assign
the first free one after `last_i` in circular order otherwise. -/
structure Assigns (p : P) (t : Table P) : Prop where
  ends : procInitWaitpid p t ≠ .hang
  gives_up : procInitWaitpid p t = .panic "too many processes. proc table is full\n" ↔
    ∀ i, 0 < i → i ≤ maxProc → t.proc i ≠ none
  assigns : (∃ i, 0 < i ∧ i ≤ maxProc ∧ t.proc i = none) →
    ∃ k < maxProc, (∀ m < k, t.proc (indexAfter t.lastI m) ≠ none) ∧
      t.proc (indexAfter t.lastI k) = none ∧
      procInitWaitpid p t = .ok
        { proc := Function.update t.proc (indexAfter t.lastI k) (some p)
          lastI := indexAfter t.lastI k
          pid := Function.update t.pid p (some (indexAfter t.lastI k)) }

/-- The index assigned last is free again, and no other is. -/
def OnlyLastFree (t : Table P) : Prop :=
  0 < t.lastI ∧ t.proc t.lastI = none ∧
    ∀ i, 0 < i → i ≤ maxProc → i ≠ t.lastI → t.proc i ≠ none

/-- **A pid is assigned as it should be unless the only free one is that assigned last**: the
loop stops when it is back at `last_i`, without having tried it. -/
theorem assigns_iff (h : (lifetimes P).Reachable t) (p : P) : Assigns p t ↔ ¬ OnlyLastFree t := by
  obtain ⟨hle, hzero⟩ := reachable_cursor h
  have hslot : ∀ i, 0 < i → i ≤ maxProc → ∃ m < maxProc, indexAfter t.lastI m = i := by
    intro i hpos hi
    obtain ⟨m, hm, hmi⟩ := exists_ahead (i := i - 1) (n := maxProc) t.lastI (by omega)
    exact ⟨m, hm, by rw [indexAfter, hmi]; omega⟩
  have hrange : ∀ m, 0 < indexAfter t.lastI m ∧ indexAfter t.lastI m ≤ maxProc := fun m =>
    ⟨Nat.succ_pos _, Nat.mod_lt _ (by decide)⟩
  by_cases hfull : ∀ i, 0 < i → i ≤ maxProc → t.proc i ≠ none
  · have hpos : 0 < t.lastI := by
      by_contra hz
      exact hfull 1 (by decide) (by decide) (hzero (by omega) 1)
    have hpanic : procInitWaitpid p t = .panic "too many processes. proc table is full\n" := by
      rw [procInitWaitpid, scan_of_full hle hpos fun m _ => hfull _ (hrange m).1 (hrange m).2]
      rfl
    refine iff_of_true ⟨by simp [hpanic], iff_of_true hpanic hfull, ?_⟩ ?_
    · rintro ⟨i, hi, hi', hnone⟩
      exact absurd hnone (hfull i hi hi')
    · rintro ⟨-, hnone, -⟩
      exact hfull _ hpos hle hnone
  · obtain ⟨i, hpos, hi, hnone⟩ : ∃ i, 0 < i ∧ i ≤ maxProc ∧ t.proc i = none := by
      simpa using hfull
    have hfree : freeAfter t.proc (i - 1) = true := by
      rw [freeAfter, Nat.sub_add_cancel hpos, hnone]
      rfl
    obtain ⟨k, hk⟩ := exists_firstFrom (n := maxProc) t.lastI (by omega) hfree
    have hscan := scan_of_first hle hk
    have hhere : t.proc (indexAfter t.lastI k) = none := Option.isNone_iff_eq_none.mp hk.here
    by_cases hlast : 0 < t.lastI ∧ k + 1 = maxProc
    · have hk' : indexAfter t.lastI k = t.lastI := (indexAfter_eq_last hle hk.lt).mpr hlast
      have hpanic : procInitWaitpid p t = .panic "too many processes. proc table is full\n" := by
        rw [procInitWaitpid, hscan, if_pos hlast]
        rfl
      refine iff_of_false (fun ha => hfull (ha.gives_up.mp hpanic)) (not_not.mpr ?_)
      refine ⟨hlast.1, hk' ▸ hhere, fun j hj hj' hne => ?_⟩
      obtain ⟨m, hm, rfl⟩ := hslot j hj hj'
      have hmk : m ≠ k := fun hmk => hne (hmk ▸ hk')
      exact taken_of_first hk (by omega)
    · have hok := congrArg (Outcome.bind · fun
        | none => .panic "too many processes. proc table is full\n"
        | some i => .ok (Table.mk (Function.update t.proc i (some p)) i
            (Function.update t.pid p (some i)))) hscan
      rw [if_neg hlast] at hok
      change procInitWaitpid p t = _ at hok
      refine iff_of_true ⟨by simp [hok], iff_of_false (by simp [hok]) hfull, fun _ => ?_⟩ ?_
      · exact ⟨k, hk.lt, fun m => taken_of_first hk, hhere, hok⟩
      · rintro ⟨hpos', -, hothers⟩
        refine hlast ((indexAfter_eq_last hle hk.lt).mp ?_)
        by_contra hne
        exact hothers _ (hrange k).1 (hrange k).2 hne hhere

def created (n : Nat) : Option (Table Nat) :=
  ((List.range n).map .create).foldlM (fun t e => perform e t) .empty

theorem created_reachable {n : Nat} {t : Table Nat} (h : created n = some t) :
    (lifetimes Nat).Reachable t :=
  Transitions.Reachable.moves (fun e _ _ he => ⟨e, he⟩) _ (.init rfl) h

theorem created_two_assigns : ∃ t, created 2 = some t ∧ Assigns 2 t := by
  refine ⟨(created 2).get (by decide), (Option.some_get _).symm, ?_⟩
  refine (assigns_iff (created_reachable (Option.some_get _).symm) 2).mpr ?_
  rintro ⟨-, -, hothers⟩
  exact hothers 3 (by decide) (by decide) (by decide) (by decide)

/-- The table is full, and then the process created last goes. -/
def lastGone : Option (Table Nat) := (created 100).bind (perform (.destroy 99))

/-- The next process could have pid 100, and the kernel panics. -/
theorem last_pid_not_reused :
    ∃ t, lastGone = some t ∧ (lifetimes Nat).Reachable t ∧ t.proc 100 = none ∧
      procInitWaitpid 100 t = .panic "too many processes. proc table is full\n" ∧
      ¬ Assigns 100 t := by
  have hsome : lastGone.isSome = true := by decide +kernel
  obtain ⟨t, ht⟩ := Option.isSome_iff_exists.mp hsome
  obtain ⟨t0, hcreated, hdestroy⟩ := Option.bind_eq_some_iff.mp ht
  have hcheck : lastGone.all (fun t => (t.proc 100).isNone &&
      decide (scan t.proc t.lastI (maxProc + 1) (nextI t.lastI) = .ok none)) = true := by
    decide +kernel
  rw [ht] at hcheck
  simp only [Option.all_some, Bool.and_eq_true, Option.isNone_iff_eq_none, decide_eq_true_eq]
    at hcheck
  obtain ⟨hfree, hscan⟩ := hcheck
  have hpanic : procInitWaitpid 100 t = .panic "too many processes. proc table is full\n" := by
    rw [procInitWaitpid, hscan]
    rfl
  refine ⟨t, ht, (created_reachable hcreated).next ⟨_, hdestroy⟩, hfree, hpanic, fun ha => ?_⟩
  exact ha.gives_up.mp hpanic 100 (by decide) (by decide) hfree

/-! ## The lookup -/

/-- `proc_search_pid(x)` returns, and returns the live process whose pid is `x`
if there is one and `NULL` otherwise. -/
def Finds (t : Table P) (x : Int) : Prop :=
  ∃ r, procSearchPid t x = .ok r ∧ ∀ p, r = some p ↔ (t.pid p).map Int.ofNat = some x

omit [DecidableEq P] in
theorem WellFormed.search (hw : WellFormed t) (x : Int) :
    procSearchPid t x = .panic "pid>=0&&pid<MAX_PROC" ∨ procSearchPid t x = .undefined ∨
      ∃ p, procSearchPid t x = .ok (some p) ∧ (t.pid p).map Int.ofNat = some x ∧ x < maxProc := by
  unfold procSearchPid
  split_ifs with hx
  · cases hslot : t.proc x.toNat with
    | none => exact .inr (.inl rfl)
    | some p =>
        have hp := (hw.slot _ p).mp hslot
        exact .inr (.inr ⟨p, by simp [hp], by simp [hp, Int.max_eq_left hx.1], hx.2⟩)
  · exact .inl rfl

/-- No two live processes have one pid. A lookup returns what it should exactly
when its argument is the pid of a live process and not `MAX_PROC`: for any
other argument an assertion fails or a null pointer is followed. -/
theorem pid_lookup_iff (t : Table P) (h : (lifetimes P).Reachable t) :
    (∀ p q i, t.pid p = some i → t.pid q = some i → p = q) ∧
      ∀ x, Finds t x ↔ x < maxProc ∧ ∃ p, (t.pid p).map Int.ofNat = some x := by
  have hw := reachable_wellFormed h
  have hinj : ∀ p q i, t.pid p = some i → t.pid q = some i → p = q := fun p q i hp hq =>
    Option.some.inj (((hw.slot i p).mpr hp).symm.trans ((hw.slot i q).mpr hq))
  refine ⟨hinj, fun x => ⟨?_, ?_⟩⟩
  · rintro ⟨r, hr, -⟩
    rcases hw.search x with hs | hs | ⟨p, -, hp, hx⟩
    · simp [hs] at hr
    · simp [hs] at hr
    · exact ⟨hx, p, hp⟩
  · rintro ⟨hx, p, hp⟩
    obtain ⟨i, hi, rfl⟩ := Option.map_eq_some_iff.mp hp
    have hslot := (hw.slot i p).mpr hi
    refine ⟨some p, by simp_all [procSearchPid], fun q => ?_⟩
    simp only [Option.some.injEq, Option.map_eq_some_iff, Int.ofNat_eq_natCast, Int.natCast_inj,
      exists_eq_right]
    exact ⟨fun h => h ▸ hi, fun hq => hinj p q i hi hq⟩

theorem created_two_finds :
    ∃ t, created 2 = some t ∧ Finds t 2 := by
  refine ⟨(created 2).get (by decide), (Option.some_get _).symm, ?_⟩
  exact ((pid_lookup_iff _ (created_reachable (Option.some_get _).symm)).2 2).mpr
    ⟨by decide, 1, by decide⟩

/-- After a hundred creations pid 100 belongs to a live process, and looking it
up fails the assertion; looking up a pid nobody has follows a null pointer. -/
theorem lookup_fails :
    (∃ t, created 100 = some t ∧ t.pid 99 = some 100 ∧
      procSearchPid t 100 = .panic "pid>=0&&pid<MAX_PROC") ∧
    ∃ t, created 1 = some t ∧ procSearchPid t 2 = .undefined ∧
      procSearchPid t (-1) = .panic "pid>=0&&pid<MAX_PROC" :=
  ⟨⟨(created 100).get (by decide +kernel), (Option.some_get _).symm, by decide +kernel,
      by decide +kernel⟩,
    (created 1).get (by decide), (Option.some_get _).symm, by decide, by decide⟩

end Os161Paging.Pids
