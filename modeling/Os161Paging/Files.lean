import Mathlib.Data.Finset.Prod
import Mathlib.Data.Fintype.Basic
import Os161Paging.References
import Os161Paging.State
import Os161Paging.Transitions

/-!
# Open files

The table of open files of `file_syscalls.c` (`OPT_FILE`) and the tables of
descriptors in the process structures of `proc.c`: `sys_open`, `sys_close`,
`sys_fork` (`OPT_FORK`), and the end of a process. An open file counts the
descriptors that refer to it, and the count is exact until one of three
things happens:

- `sys_open` finds no free descriptor: it has claimed a slot by then, which
  keeps its count and a vnode that has been closed;
- `sys_fork` in a process with open files: the arguments of
  `proc_file_table_copy` are the wrong way round, and the parent gets the
  empty table of the child;
- `proc_destroy` of a process with open files: nobody closes them.

`OPEN_MAX` is a parameter, and so are the types of the process structures
and of the vnodes.
-/

namespace Os161Paging.Files

def stderrFileno : Nat := 2

structure OpenFile (V : Type) where
  vn : Option V
  offset : Nat
  countRef : UInt32

/-- A pointer into `systemFileTable`, which has `SYSTEM_OPEN_MAX` entries. -/
abbrev Slot (openMax : Nat) := Fin (10 * openMax)

/-- The table of open files, the process structures that are allocated, and their fields
`fileTable` and `p_numthreads`. -/
structure State (P V : Type) (openMax : Nat) where
  systemFileTable : Slot openMax → OpenFile V
  live : Finset P
  fileTable : P × Fin openMax → Option (Slot openMax)
  numthreads : P → Nat

def State.empty {P V : Type} {openMax : Nat} : State P V openMax where
  systemFileTable _ := ⟨none, 0, 0⟩
  live := ∅
  fileTable _ := none
  numthreads _ := 0

variable {P V : Type} [DecidableEq P] {openMax : Nat} {s s' : State P V openMax} {p q : P}

namespace State

def setFile (s : State P V openMax) (k : Slot openMax) (of : OpenFile V) : State P V openMax :=
  { s with systemFileTable := Function.update s.systemFileTable k of }

/-- `p->fileTable[fd] = of`. -/
def setFd (s : State P V openMax) (p : P) (fd : Fin openMax) (of : Option (Slot openMax)) :
    State P V openMax :=
  { s with fileTable := Function.update s.fileTable (p, fd) of }

def clearFds (s : State P V openMax) (p : P) : State P V openMax :=
  { s with fileTable := fun x => if x.1 = p then none else s.fileTable x }

/-- The process has a thread, which can make system calls. -/
def Running (s : State P V openMax) (p : P) : Prop := p ∈ s.live ∧ 0 < s.numthreads p

instance : Decidable (s.Running p) := inferInstanceAs (Decidable (_ ∧ _))

end State

/-! ## file_syscalls.c -/

def openfileIncrRefCount (of : Option (Slot openMax)) (s : State P V openMax) :
    State P V openMax :=
  match of with
  | none => s
  | some k =>
      let file := s.systemFileTable k
      s.setFile k { file with countRef := file.countRef + 1 }

def freeSlot (s : State P V openMax) : Option (Slot openMax) :=
  (List.finRange _).find? fun k => (s.systemFileTable k).vn.isNone

def freeFd (s : State P V openMax) (p : P) : Option (Fin openMax) :=
  (List.finRange _).find? fun fd => decide (stderrFileno < fd) && (s.fileTable (p, fd)).isNone

inductive OpenError where
  | ENOENT | ENFILE | EMFILE
deriving DecidableEq, Repr

/-- `sys_open` in the process `p`; `v` is what `vfs_open` returned. -/
def sysOpen (p : P) (v : Option V) (s : State P V openMax) :
    Except OpenError (Fin openMax) × State P V openMax :=
  match v with
  | none => (.error .ENOENT, s)
  | some vn =>
      match freeSlot s with
      | none => (.error .ENFILE, s)
      | some k =>
          let s := s.setFile k ⟨some vn, 0, 1⟩
          match freeFd s p with
          | some fd => (.ok fd, s.setFd p fd (some k))
          | none => (.error .EMFILE, s)

/-- The part of `sys_close` after the descriptor has been cleared. -/
def dropFile (k : Slot openMax) (s : State P V openMax) : Int × State P V openMax :=
  let file := s.systemFileTable k
  if file.countRef - 1 > 0 then (0, s.setFile k { file with countRef := file.countRef - 1 })
  else
    (if file.vn.isNone then -1 else 0,
      s.setFile k { file with vn := none, countRef := file.countRef - 1 })

/-- `sys_close` in the process `p`. The descriptor `OPEN_MAX` passes the check and is read
from behind the table. -/
def sysClose (p : P) (fd : Int) (s : State P V openMax) :
    Outcome Empty (Int × State P V openMax) :=
  if fd < 0 ∨ fd > openMax then .ok (-1, s)
  else if h : fd.toNat < openMax then
    match s.fileTable (p, ⟨fd.toNat, h⟩) with
    | none => .ok (-1, s)
    | some k => .ok (dropFile k (s.setFd p ⟨fd.toNat, h⟩ none))
  else .undefined

/-! ## proc.c and proc_syscalls.c -/

def procCreate (p : P) (s : State P V openMax) : State P V openMax :=
  { s.clearFds p with
    live := insert p s.live
    numthreads := Function.update s.numthreads p 0 }

def procAddthread (p : P) (s : State P V openMax) : State P V openMax :=
  { s with numthreads := Function.update s.numthreads p (s.numthreads p + 1) }

def procRemthread (p : P) (s : State P V openMax) : Outcome Empty (State P V openMax) :=
  if s.numthreads p > 0 then
    .ok { s with numthreads := Function.update s.numthreads p (s.numthreads p - 1) }
  else .panic "KASSERT: proc->p_numthreads > 0"

def procDestroy (p : P) (s : State P V openMax) : Outcome Empty (State P V openMax) :=
  if s.numthreads p = 0 then .ok { s with live := s.live.erase p }
  else .panic "KASSERT: proc->p_numthreads == 0"

def copyFd (psrc pdest : P) (s : State P V openMax) (fd : Fin openMax) : State P V openMax :=
  let of := s.fileTable (psrc, fd)
  openfileIncrRefCount of (s.setFd pdest fd of)

def procFileTableCopy (psrc pdest : P) (s : State P V openMax) : State P V openMax :=
  (List.finRange openMax).foldl (copyFd psrc pdest) s

/-- Which of the calls in `sys_fork` succeed: `proc_create_runprogram`, `as_copy`, the
`kmalloc` of the trapframe and `thread_fork`. -/
structure ForkCalls where
  proc : Bool
  addrspace : Bool
  trapframe : Bool
  thread : Bool
deriving DecidableEq, Repr

/-- `sys_fork` in the process `p`, with the structure of the child at `newp`. -/
def sysFork (p newp : P) (r : ForkCalls) (s : State P V openMax) :
    Outcome Empty (Option Errno × State P V openMax) :=
  if r.proc then
    let s := procCreate newp s
    if r.addrspace then
      let s := procFileTableCopy newp p s
      if r.trapframe then
        if r.thread then .ok (none, procAddthread newp s)
        else (procDestroy newp s).bind fun s => .ok (some .ENOMEM, s)
      else (procDestroy newp s).bind fun s => .ok (some .ENOMEM, s)
    else (procDestroy newp s).bind fun s => .ok (some .ENOMEM, s)
  else .ok (some .ENOMEM, s)

/-! ## Runs -/

/-- A process is started, makes system calls, exits and is destroyed. -/
inductive Call (P V : Type) where
  | runprogram (p : P)
  | sysOpen (p : P) (v : Option V)
  | sysClose (p : P) (fd : Int)
  | sysFork (p newp : P) (r : ForkCalls)
  | sysExit (p : P)
  | procDestroy (p : P)

def returned {α : Type} : Outcome Empty (α × State P V openMax) → Option (State P V openMax)
  | .ok (_, s) => some s
  | _ => none

/-- The state after a call. A new process structure is in memory that was free; system
calls are made by processes with a thread. -/
def perform (s : State P V openMax) : Call P V → Option (State P V openMax)
  | .runprogram p => if p ∈ s.live then none else some (procAddthread p (procCreate p s))
  | .sysOpen p v => if s.Running p then some (sysOpen p v s).2 else none
  | .sysClose p fd => if s.Running p then returned (sysClose p fd s) else none
  | .sysFork p newp r =>
      if s.Running p ∧ newp ∉ s.live then returned (sysFork p newp r s) else none
  | .sysExit p =>
      if s.Running p then returned ((procRemthread p s).bind fun s => .ok ((), s)) else none
  | .procDestroy p =>
      if p ∈ s.live then returned ((procDestroy p s).bind fun s => .ok ((), s)) else none

/-! ## Exact counts -/

/-- The number of descriptors of live processes that refer to `k`. -/
def State.references (s : State P V openMax) (k : Slot openMax) : Nat :=
  refs (s.live ×ˢ Finset.univ) s.fileTable k

/-- A slot has a vnode exactly if its count is not 0, and the count is that of the
descriptors that refer to it. -/
structure Exact (s : State P V openMax) : Prop where
  vnode : ∀ k, (s.systemFileTable k).vn ≠ none ↔ 0 < (s.systemFileTable k).countRef
  count : ∀ k, (s.systemFileTable k).countRef.toNat = s.references k

def State.NoFiles (s : State P V openMax) (p : P) : Prop := ∀ fd, s.fileTable (p, fd) = none

instance : Decidable (s.NoFiles p) := inferInstanceAs (Decidable (∀ _, _))

/-- The calls that keep the counts exact: an open that does not run out of descriptors with
a slot in its hands, a fork that fails early or in a process without open files, and the
end of a process without open files. -/
def Harmless (s : State P V openMax) : Call P V → Prop
  | .sysOpen p v => v = none ∨ freeSlot s = none ∨ freeFd s p ≠ none
  | .sysFork p _ r => r.proc = false ∨ r.addrspace = false ∨ s.NoFiles p
  | .procDestroy p => s.NoFiles p
  | .runprogram _ | .sysClose _ _ | .sysExit _ => True

omit [DecidableEq P] in
theorem exact_empty : Exact (State.empty : State P V openMax) where
  vnode _ := by simp [State.empty]
  count _ := by simp [State.empty, State.references, refs]

omit [DecidableEq P] in
/-- A call that leaves the system table alone and makes no new reference keeps the counts
exact if and only if it loses no reference. -/
theorem Exact.iff_of_sub (h : Exact s) (hfile : s'.systemFileTable = s.systemFileTable)
    (hsub : ∀ q fd k, q ∈ s'.live → s'.fileTable (q, fd) = some k →
      q ∈ s.live ∧ s.fileTable (q, fd) = some k) :
    Exact s' ↔ ∀ q fd k, q ∈ s.live → s.fileTable (q, fd) = some k →
      q ∈ s'.live ∧ s'.fileTable (q, fd) = some k := by
  have hiff : ∀ k, s'.references k = s.references k ↔ ∀ x ∈ s.live ×ˢ Finset.univ,
      s.fileTable x = some k → x ∈ s'.live ×ˢ Finset.univ ∧ s'.fileTable x = some k := by
    intro k
    refine refs_eq_iff fun x hx hk => ?_
    simp only [Finset.mem_product, Finset.mem_univ, and_true] at hx ⊢
    exact hsub x.1 x.2 k hx hk
  constructor
  · intro h' q fd k hq hk
    have hcount := (h'.count k).symm.trans ((congrArg (fun f => (f k).countRef.toNat) hfile).trans
      (h.count k))
    simpa using (hiff k).mp hcount (q, fd) (by simpa using hq) hk
  · intro hall
    refine ⟨fun k => by rw [hfile]; exact h.vnode k, fun k => ?_⟩
    rw [hfile, h.count k]
    exact ((hiff k).mpr fun x hx hk => by simpa using hall x.1 x.2 k (by simpa using hx) hk).symm

/-! ## What each call does -/

/-- Copying an empty table empties the destination. -/
theorem procFileTableCopy_of_noFiles (h : s.NoFiles p) : procFileTableCopy p q s = s.clearFds q := by
  have hfold : ∀ (l : List (Fin openMax)) (s : State P V openMax), s.NoFiles p →
      l.foldl (copyFd p q) s =
        { s with fileTable := fun x => if x.1 = q ∧ x.2 ∈ l then none else s.fileTable x } := by
    intro l
    induction l with
    | nil =>
        intro s hs
        simp
    | cons fd l ih =>
        intro s hs
        have hcopy : copyFd p q s fd = s.setFd q fd none := by
          rw [copyFd, hs fd]
          rfl
        have hs' : (s.setFd q fd none).NoFiles p := by
          intro fd'
          by_cases hx : (p, fd') = (q, fd)
          · rw [hx]
            exact Function.update_self ..
          · exact (Function.update_of_ne hx ..).trans (hs fd')
        rw [List.foldl_cons, hcopy, ih _ hs']
        simp only [State.setFd, State.mk.injEq, true_and, and_true]
        funext x
        by_cases hx : x = (q, fd)
        · simp [hx]
        · rw [Function.update_of_ne hx]
          have hne : ¬ (x.1 = q ∧ x.2 = fd) := fun hc => hx (Prod.ext hc.1 hc.2)
          by_cases hq : x.1 = q
          · simp [hq, show x.2 ≠ fd from fun hc => hne ⟨hq, hc⟩]
          · simp [hq]
  rw [procFileTableCopy, hfold _ _ h, State.clearFds]
  simp

theorem procDestroy_run (h : s.numthreads p = 0) :
    procDestroy p s = .ok { s with live := s.live.erase p } := if_pos h

theorem noFiles_procCreate : (procCreate p s).NoFiles p := fun _ => if_pos rfl

/-- The ways `sys_fork` can return: without having copied a table, or with the tables of
the child and of the parent empty. -/
theorem sysFork_cases {r : ForkCalls} {x : Option Errno} (hq : q ∉ s.live)
    (h : sysFork p q r s = .ok (x, s')) :
    s'.systemFileTable = s.systemFileTable ∧
      ((r.proc = false ∨ r.addrspace = false) ∧ x = some .ENOMEM ∧ s'.live = s.live ∧
          (∀ y, y.1 ∈ s.live → s'.fileTable y = s.fileTable y) ∨
        r.proc = true ∧ r.addrspace = true ∧ (s'.live = insert q s.live ∨ s'.live = s.live) ∧
          s'.fileTable = ((s.clearFds q).clearFds p).fileTable) := by
  have hback : (insert q s.live).erase q = s.live := Finset.erase_insert hq
  have hcopy := procFileTableCopy_of_noFiles (q := p) (noFiles_procCreate (p := q) (s := s))
  have hzero : (procCreate q s).numthreads q = 0 := Function.update_self ..
  have hzero' : ((procCreate q s).clearFds p).numthreads q = 0 := hzero
  simp only [sysFork, hcopy] at h
  cases hproc : r.proc with
  | false =>
      simp only [hproc, Bool.false_eq_true, if_false] at h
      cases h
      exact ⟨rfl, .inl ⟨.inl rfl, rfl, rfl, fun _ _ => rfl⟩⟩
  | true =>
      cases has : r.addrspace with
      | false =>
          simp only [hproc, has, Bool.false_eq_true, if_false, if_true, procDestroy_run hzero,
            Outcome.bind_ok] at h
          cases h
          refine ⟨rfl, .inl ⟨.inr rfl, rfl, hback, fun y hy => if_neg ?_⟩⟩
          rintro rfl
          exact hq hy
      | true =>
          simp only [hproc, has, if_true] at h
          -- the child is destroyed again if a later call fails
          have hlate : s' = procAddthread q ((procCreate q s).clearFds p) ∨
              s' = { (procCreate q s).clearFds p with
                live := ((procCreate q s).clearFds p).live.erase q } := by
            split at h
            · split at h
              · cases h
                exact .inl rfl
              · rw [procDestroy_run hzero'] at h
                cases h
                exact .inr rfl
            · rw [procDestroy_run hzero'] at h
              cases h
              exact .inr rfl
          rcases hlate with rfl | rfl
          · exact ⟨rfl, .inr ⟨rfl, rfl, .inl rfl, rfl⟩⟩
          · exact ⟨rfl, .inr ⟨rfl, rfl, .inr hback, rfl⟩⟩

/-- A fork in a process with open files loses the references of the parent. -/
theorem Exact.sysFork (h : Exact s) {r : ForkCalls} {x : Option Errno} (hp : p ∈ s.live)
    (hq : q ∉ s.live) (hfork : sysFork p q r s = .ok (x, s')) :
    Exact s' ↔ r.proc = false ∨ r.addrspace = false ∨ s.NoFiles p := by
  obtain ⟨hfile, ⟨hearly, -, hlive, htab⟩ | ⟨hproc, has, hlive, htab⟩⟩ := sysFork_cases hq hfork
  · refine iff_of_true ((h.iff_of_sub hfile ?_).mpr ?_) (hearly.imp_right .inl)
    · intro q' fd k hq' hk
      rw [hlive] at hq'
      exact ⟨hq', htab (q', fd) hq' ▸ hk⟩
    · intro q' fd k hq' hk
      exact ⟨hlive ▸ hq', (htab (q', fd) hq').trans hk⟩
  · have hnone : ∀ q' fd, q' = p ∨ q' = q → s'.fileTable (q', fd) = none := by
      rintro q' fd (rfl | rfl)
      · rw [htab]
        exact if_pos rfl
      · rw [htab]
        simp [State.clearFds]
    have hsame : ∀ q' fd, q' ≠ p → q' ≠ q → s'.fileTable (q', fd) = s.fileTable (q', fd) := by
      intro q' fd hqp hqq
      rw [htab]
      simp [State.clearFds, hqp, hqq]
    rw [h.iff_of_sub hfile fun q' fd k hq' hk => ?_]
    · simp only [hproc, has, Bool.true_eq_false, false_or]
      constructor
      · intro hall fd
        cases hk : s.fileTable (p, fd) with
        | none => rfl
        | some k =>
            have hlost := (hall p fd k hp hk).2
            rw [hnone p fd (.inl rfl)] at hlost
            cases hlost
      · intro hno q' fd k hq' hk
        have hqp : q' ≠ p := by
          rintro rfl
          rw [hno fd] at hk
          cases hk
        have hqq : q' ≠ q := fun hc => hq (hc ▸ hq')
        refine ⟨?_, (hsame q' fd hqp hqq).trans hk⟩
        rcases hlive with hlive | hlive
        · exact hlive ▸ Finset.mem_insert_of_mem hq'
        · exact hlive ▸ hq'
    · have hqp : q' ≠ p := by
        rintro rfl
        rw [hnone q' fd (.inl rfl)] at hk
        cases hk
      have hqq : q' ≠ q := by
        rintro rfl
        rw [hnone q' fd (.inr rfl)] at hk
        cases hk
      rw [hsame q' fd hqp hqq] at hk
      rcases hlive with hlive | hlive
      · rw [hlive] at hq'
        exact ⟨Finset.mem_of_mem_insert_of_ne hq' hqq, hk⟩
      · exact ⟨hlive ▸ hq', hk⟩

omit [DecidableEq P] in
/-- The counts are exact when the number of references to each slot has changed in the way
its count has. -/
theorem Exact.setFile (h : Exact s) {k : Slot openMax} {of : OpenFile V}
    (hother : s'.systemFileTable = Function.update s.systemFileTable k of)
    (hvn : of.vn ≠ none ↔ 0 < of.countRef) (hk : of.countRef.toNat = s'.references k)
    (hrest : ∀ j ≠ k, s'.references j = s.references j) : Exact s' := by
  constructor
  · intro j
    by_cases hj : j = k
    · subst hj
      rw [hother, Function.update_self]
      exact hvn
    · rw [hother, Function.update_of_ne hj]
      exact h.vnode j
  · intro j
    by_cases hj : j = k
    · subst hj
      rw [hother, Function.update_self]
      exact hk
    · rw [hother, Function.update_of_ne hj, hrest j hj]
      exact h.count j

/-- An open that finds no free descriptor leaves a slot that nobody refers to. -/
theorem Exact.sysOpen (h : Exact s) (hp : p ∈ s.live) (v : Option V) :
    Exact (sysOpen p v s).2 ↔ v = none ∨ freeSlot s = none ∨ freeFd s p ≠ none := by
  cases v with
  | none => exact iff_of_true h (.inl rfl)
  | some vn =>
      cases hslot : freeSlot s with
      | none =>
          rw [Files.sysOpen, hslot]
          exact iff_of_true h (.inr (.inl rfl))
      | some k =>
          have hvn : (s.systemFileTable k).vn = none := by simpa using List.find?_some hslot
          have hzero : s.references k = 0 := by
            rw [← h.count k]
            by_contra hne
            exact (h.vnode k).mpr (UInt32.lt_iff_toNat_lt.mpr (Nat.pos_of_ne_zero hne)) hvn
          have hfd : freeFd (s.setFile k ⟨some vn, 0, 1⟩) p = freeFd s p := rfl
          simp only [Files.sysOpen, hslot, hfd]
          cases hfree : freeFd s p with
          | none =>
              refine iff_of_false (fun hexact => ?_) (by simp)
              have hone := hexact.count k
              simp only [State.setFile, Function.update_self] at hone
              exact absurd (hone.trans hzero) (by decide)
          | some fd =>
              have hnone : s.fileTable (p, fd) = none := by
                have := List.find?_some hfree
                simp only [Bool.and_eq_true, Option.isNone_iff_eq_none] at this
                exact this.2
              have hmem : (p, fd) ∈ s.live ×ˢ Finset.univ := by simpa using hp
              have hrefs : ∀ j, ((s.setFile k ⟨some vn, 0, 1⟩).setFd p fd (some k)).references j =
                  s.references j + if j = k then 1 else 0 := fun j => refs_take hmem hnone
              refine iff_of_true (h.setFile rfl (by simp) ?_ fun j hj => ?_) (by simp)
              · rw [hrefs, hzero, if_pos rfl]
                rfl
              · rw [hrefs, if_neg hj, Nat.add_zero]

theorem Exact.dropFile (h : Exact s) (hp : p ∈ s.live) {fd : Fin openMax} {k : Slot openMax}
    (hk : s.fileTable (p, fd) = some k) : Exact (dropFile k (s.setFd p fd none)).2 := by
  have hmem : (p, fd) ∈ s.live ×ˢ Finset.univ := by simpa using hp
  have hrefs : ∀ j, (s.setFd p fd none).references j + (if j = k then 1 else 0) =
      s.references j := fun j => refs_drop hmem hk
  have hle : (1 : UInt32) ≤ (s.systemFileTable k).countRef := by
    rw [UInt32.le_iff_toNat_le, h.count k]
    exact refs_pos hmem hk
  have hcount : ((s.systemFileTable k).countRef - 1).toNat =
      (s.setFd p fd none).references k := by
    rw [UInt32.toNat_sub_of_le _ _ hle, h.count k, ← hrefs k, if_pos rfl]
    rfl
  have hrest : ∀ j ≠ k, (s.setFd p fd none).references j = s.references j := by
    intro j hj
    rw [← hrefs j, if_neg hj, Nat.add_zero]
  rw [Files.dropFile]
  split
  · rename_i hlast
    refine h.setFile rfl (iff_of_true ?_ hlast) hcount hrest
    exact (h.vnode k).mpr (UInt32.lt_of_lt_of_le (by decide) hle)
  · rename_i hlast
    exact h.setFile rfl (iff_of_false (fun hc => hc rfl) hlast) hcount hrest

theorem Exact.sysClose (h : Exact s) (hp : p ∈ s.live) {fd x : Int}
    (hclose : sysClose p fd s = .ok (x, s')) : Exact s' := by
  rw [Files.sysClose] at hclose
  split at hclose
  · cases hclose
    exact h
  split at hclose
  · rename_i hlt
    cases hk : s.fileTable (p, ⟨fd.toNat, hlt⟩) with
    | none =>
        rw [hk] at hclose
        cases hclose
        exact h
    | some k =>
        rw [hk] at hclose
        have hs' : (Files.dropFile k (s.setFd p ⟨fd.toNat, hlt⟩ none)).2 = s' :=
          congrArg Prod.snd (Outcome.ok.inj hclose)
        exact hs' ▸ h.dropFile hp hk
  · cases hclose

/-- The end of a process with open files loses its references. -/
theorem Exact.procDestroy (h : Exact s) (hp : p ∈ s.live)
    (hdestroy : procDestroy p s = .ok s') : Exact s' ↔ s.NoFiles p := by
  rw [Files.procDestroy] at hdestroy
  split at hdestroy
  · cases hdestroy
    refine (h.iff_of_sub ?_ ?_).trans ⟨?_, ?_⟩
    · rfl
    · exact fun q fd k hq hk => ⟨Finset.mem_of_mem_erase hq, hk⟩
    · intro hall fd
      cases hk : s.fileTable (p, fd) with
      | none => rfl
      | some k => exact absurd (hall p fd k hp hk).1 (Finset.notMem_erase p s.live)
    · intro hno q fd k hq hk
      refine ⟨Finset.mem_erase_of_ne_of_mem ?_ hq, hk⟩
      rintro rfl
      rw [hno fd] at hk
      cases hk
  · cases hdestroy

theorem Exact.procCreate (h : Exact s) (hp : p ∉ s.live) : Exact (procCreate p s) := by
  have hne : ∀ {q : P}, q ∈ s.live → q ≠ p := fun hq hc => hp (hc ▸ hq)
  refine (h.iff_of_sub ?_ ?_).mpr ?_
  · rfl
  · intro q fd k hq hk
    by_cases hqp : q = p
    · subst hqp
      rw [noFiles_procCreate fd] at hk
      cases hk
    · exact ⟨Finset.mem_of_mem_insert_of_ne hq hqp, (if_neg hqp).symm.trans hk⟩
  · intro q fd k hq hk
    exact ⟨Finset.mem_insert_of_mem hq, (if_neg (hne hq)).trans hk⟩

omit [DecidableEq P] in
theorem Exact.numthreads (h : Exact s) (n : P → Nat) : Exact { s with numthreads := n } :=
  ⟨h.vnode, h.count⟩

omit [DecidableEq P] in
theorem returned_eq_some {α : Type} {r : Outcome Empty (α × State P V openMax)}
    (h : returned r = some s') : ∃ x, r = .ok (x, s') := by
  cases r with
  | ok y =>
      cases h
      exact ⟨y.1, rfl⟩
  | wait l => exact l.elim
  | panic | undefined | hang => cases h

/-! ## All of them -/

/-- **A call keeps the counts exact exactly if it is harmless.** -/
theorem Exact.perform (h : Exact s) {c : Call P V} (hc : perform s c = some s') :
    Exact s' ↔ Harmless s c := by
  cases c with
  | runprogram p =>
      simp only [Files.perform] at hc
      split at hc
      · cases hc
      · rename_i hp
        cases hc
        exact iff_of_true ((h.procCreate hp).numthreads _) trivial
  | sysOpen p v =>
      obtain ⟨hrun, hs'⟩ := Option.ite_none_right_eq_some.mp hc
      cases hs'
      exact h.sysOpen hrun.1 v
  | sysClose p fd =>
      obtain ⟨hrun, hs'⟩ := Option.ite_none_right_eq_some.mp hc
      obtain ⟨x, hclose⟩ := returned_eq_some hs'
      exact iff_of_true (h.sysClose hrun.1 hclose) trivial
  | sysFork p newp r =>
      obtain ⟨⟨hrun, hnew⟩, hs'⟩ := Option.ite_none_right_eq_some.mp hc
      obtain ⟨x, hfork⟩ := returned_eq_some hs'
      exact h.sysFork hrun.1 hnew hfork
  | sysExit p =>
      obtain ⟨hrun, hs'⟩ := Option.ite_none_right_eq_some.mp hc
      simp only [procRemthread, if_pos hrun.2, Outcome.bind_ok] at hs'
      cases hs'
      exact iff_of_true (h.numthreads _) trivial
  | procDestroy p =>
      obtain ⟨hp, hs'⟩ := Option.ite_none_right_eq_some.mp hc
      obtain ⟨x, hbind⟩ := returned_eq_some hs'
      obtain ⟨s1, hdestroy, hret⟩ := Outcome.bind_eq_ok.mp hbind
      cases hret
      exact h.procDestroy hp hdestroy

/-- **The reference counts are exact as long as every call is harmless, and no longer**:
along every sequence of starts, opens, closes, forks, exits and ends of processes, the
counts are exact in every state if and only if every call was harmless where it was made. -/
theorem refcounts_exact_iff {calls : List (Call P V)}
    (h : calls.foldlM perform (State.empty : State P V openMax) = some s') :
    (∀ n (s : State P V openMax), (calls.take n).foldlM perform State.empty = some s → Exact s) ↔
      ∀ n c (s : State P V openMax), calls[n]? = some c →
        (calls.take n).foldlM perform State.empty = some s → Harmless s c :=
  Transitions.foldlM_forall_iff (fun _ _ _ hs hc => hs.perform hc) exact_empty calls h

def after (openMax : Nat) (calls : List (Call Nat Nat)) : Option (State Nat Nat openMax) :=
  calls.foldlM perform State.empty

def openOne : List (Call Nat Nat) := [.runprogram 0, .sysOpen 0 (some 7)]

def tidyLife : List (Call Nat Nat) := openOne ++ [.sysClose 0 3, .sysExit 0, .procDestroy 0]

theorem tidyLife_exact :
    (after 16 tidyLife).isSome = true ∧ ∀ n s, after 16 (tidyLife.take n) = some s → Exact s := by
  have hrun : (after 16 tidyLife).isSome = true := by decide +kernel
  have hfd : (after 16 (tidyLife.take 1)).all (fun s => (freeFd s 0).isSome) = true := by
    decide +kernel
  have hno : (after 16 (tidyLife.take 4)).all (fun s => decide (s.NoFiles 0)) = true := by
    decide +kernel
  obtain ⟨s', hs'⟩ := Option.isSome_iff_exists.mp hrun
  refine ⟨hrun, (refcounts_exact_iff hs').mpr fun n c s hc hs => ?_⟩
  rcases n with _ | _ | _ | _ | _ | n
  · cases hc
    trivial
  · cases hc
    rw [after, hs] at hfd
    exact .inr (.inr (Option.isSome_iff_ne_none.mp hfd))
  · cases hc
    trivial
  · cases hc
    trivial
  · cases hc
    rw [after, hs] at hno
    exact (decide_eq_true_iff (p := s.NoFiles 0)).mp hno
  · cases hc

/-- The slot is counted once and referred to by nobody. -/
def Orphaned {openMax : Nat} (s : State Nat Nat openMax) (k : Slot openMax) : Prop :=
  (s.systemFileTable k).countRef = 1 ∧ s.references k = 0

/-- The file of a process that forks, that of a process that exits and is destroyed, and the
file that gets no descriptor are all counted once and referred to by nobody. -/
theorem refcounts_orphaned :
    (∃ s, after 16 (openOne ++ [.sysFork 0 1 ⟨true, true, true, true⟩]) = some s ∧
        Orphaned s 0 ∧ ¬ Exact s) ∧
      (∃ s, after 16 (openOne ++ [.sysExit 0, .procDestroy 0]) = some s ∧
        Orphaned s 0 ∧ ¬ Exact s) ∧
      ∃ s, after 4 (openOne ++ [.sysOpen 0 (some 8)]) = some s ∧ Orphaned s 1 ∧ ¬ Exact s := by
  have horphan : ∀ {openMax : Nat} {calls : List (Call Nat Nat)} {k : Slot openMax},
      (after openMax calls).any (fun s =>
        (s.systemFileTable k).countRef == 1 && s.references k == 0) = true →
      ∃ s, after openMax calls = some s ∧ Orphaned s k ∧ ¬ Exact s := by
    intro openMax calls k hany
    obtain ⟨s, hs, h⟩ := (Option.any_eq_true _ _).mp hany
    simp only [Bool.and_eq_true, beq_iff_eq] at h
    refine ⟨s, hs, h, fun hexact => ?_⟩
    have hcount := hexact.count k
    rw [h.1, h.2] at hcount
    cases hcount
  exact ⟨horphan (by decide +kernel), horphan (by decide +kernel), horphan (by decide +kernel)⟩

/-! ## What a child inherits -/

/-- What a fork should do with the open files of the parent `p`: the child `newp` gets the
same, the parent keeps them, and every descriptor of the child is counted. -/
structure Inherits (p newp : P) (s s' : State P V openMax) : Prop where
  child : ∀ fd, s'.fileTable (newp, fd) = s.fileTable (p, fd)
  parent : ∀ fd, s'.fileTable (p, fd) = s.fileTable (p, fd)
  counts : ∀ k, (∃ fd, s.fileTable (p, fd) = some k) →
    (s'.systemFileTable k).countRef = (s.systemFileTable k).countRef +
      UInt32.ofNat (refs Finset.univ (fun fd => s.fileTable (p, fd)) k)

/-- **A fork passes the open files on exactly if there are none**: the copy goes from the
child, whose table is empty, to the parent. -/
theorem fork_inherits_iff {r : ForkCalls} (hq : q ∉ s.live)
    (hfork : sysFork p q r s = .ok (none, s')) : Inherits p q s s' ↔ s.NoFiles p := by
  obtain ⟨-, ⟨-, herr, -, -⟩ | ⟨-, -, -, htab⟩⟩ := sysFork_cases hq hfork
  · cases herr
  have hparent : ∀ fd, s'.fileTable (p, fd) = none := by
    intro fd
    rw [htab]
    exact if_pos rfl
  have hchild : ∀ fd, s'.fileTable (q, fd) = none := by
    intro fd
    rw [htab]
    simp [State.clearFds]
  constructor
  · intro h fd
    exact (h.parent fd).symm.trans (hparent fd)
  · intro hno
    refine ⟨fun fd => (hchild fd).trans (hno fd).symm, fun fd => (hparent fd).trans (hno fd).symm, ?_⟩
    rintro k ⟨fd, hk⟩
    rw [hno fd] at hk
    cases hk

def smoothly : ForkCalls := ⟨true, true, true, true⟩

theorem forked_of_check {c : List (Call Nat Nat)} {Q : State Nat Nat 16 → State Nat Nat 16 → Prop}
    [∀ s s', Decidable (Q s s')]
    (h : (after 16 c).any (fun s => decide (1 ∉ s.live ∧
      (sysFork 0 1 smoothly s).Sat fun r => r.1 = none ∧ Q s r.2)) = true) :
    ∃ s s', after 16 c = some s ∧ 1 ∉ s.live ∧ sysFork 0 1 smoothly s = .ok (none, s') ∧
      Q s s' := by
  obtain ⟨s, hs, hcheck⟩ := (Option.any_eq_true _ _).mp h
  obtain ⟨hq, ⟨x, s'⟩, hfork, hx, hQ⟩ := of_decide_eq_true hcheck
  obtain rfl : x = none := hx
  exact ⟨s, s', hs, hq, hfork, hQ⟩

theorem fork_without_files :
    ∃ s s', after 16 [.runprogram 0] = some s ∧ sysFork 0 1 smoothly s = .ok (none, s') ∧
      Inherits 0 1 s s' := by
  obtain ⟨s, s', hs, hq, hfork, hno⟩ := forked_of_check (c := [.runprogram 0])
    (Q := fun s _ => s.NoFiles 0) (by decide +kernel)
  exact ⟨s, s', hs, hfork, (fork_inherits_iff hq hfork).mpr hno⟩

/-- Process 0 opens a file and forks: the child does not have it, and the parent has it no
more. -/
theorem fork_loses_file :
    ∃ s s', after 16 openOne = some s ∧ sysFork 0 1 smoothly s = .ok (none, s') ∧
      s.fileTable (0, 3) = some 0 ∧ s'.fileTable (0, 3) = none ∧ s'.fileTable (1, 3) = none ∧
      ¬ Inherits 0 1 s s' := by
  obtain ⟨s, s', hs, -, hfork, hopen, hparent, hchild⟩ := forked_of_check (c := openOne)
    (Q := fun s s' => s.fileTable (0, 3) = some 0 ∧ s'.fileTable (0, 3) = none ∧
      s'.fileTable (1, 3) = none) (by decide +kernel)
  refine ⟨s, s', hs, hfork, hopen, hparent, hchild, fun h => ?_⟩
  have hsame := h.parent 3
  rw [hparent, hopen] at hsame
  cases hsame

end Os161Paging.Files
