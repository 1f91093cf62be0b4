import Os161Paging.Files

/-!
# Reading and writing files

`file_read` and `file_write` (`file_syscalls.c`, without the kernel buffer)
take the position from the open file, call `VOP_READ` or `VOP_WRITE` and
store the new position when it returns. This may take a while, nothing is
locked, and meanwhile other processes make system calls of their own. A
process has one thread.

What is read or written through a descriptor follows on all the same: an
open file has one descriptor. Each open takes a file of its own, and a fork
does not pass the descriptors of the parent on.
-/

namespace Os161Paging.Files

variable {P V : Type} [DecidableEq P] {openMax : Nat} {s s' : State P V openMax} {p q : P}

/-! ## file_read and file_write -/

inductive Direction where
  | read | write
deriving DecidableEq, Repr

/-- The descriptors that are the console: `STDIN_FILENO`, and `STDOUT_FILENO` with
`STDERR_FILENO`. -/
def Direction.console : Direction → Int → Bool
  | .read, fd => fd == 0
  | .write, fd => fd == 1 || fd == stderrFileno

/-- The local variables of `file_read` and `file_write` during `VOP_READ` and `VOP_WRITE`: `fd`,
`of`, `vn`, and `uio_offset` and `uio_resid` as they were passed. -/
structure Transfer (V : Type) (openMax : Nat) where
  fd : Fin openMax
  file : Slot openMax
  vn : V
  offset : Nat
  resid : Nat

/-- `file_read` and `file_write` up to the transfer; without one they return -1. The descriptor
`OPEN_MAX` passes the check and is read from behind the table. -/
def fileStart (p : P) (fd : Int) (size : Nat) (s : State P V openMax) :
    Outcome Empty (Option (Transfer V openMax)) :=
  if fd < 0 ∨ fd > openMax then .ok none
  else if h : fd.toNat < openMax then
    match s.fileTable (p, ⟨fd.toNat, h⟩) with
    | none => .ok none
    | some k =>
        let of := s.systemFileTable k
        match of.vn with
        | none => .ok none
        | some vn => .ok (some ⟨⟨fd.toNat, h⟩, k, vn, of.offset, size⟩)
  else .undefined

/-- The end of `file_read` and `file_write`, when `VOP_READ` or `VOP_WRITE` has moved some bytes
or returned an error. -/
def fileEnd (u : Transfer V openMax) (moved : Except Nat Nat) (s : State P V openMax) :
    Int × State P V openMax :=
  match moved with
  | .error result => (result, s)
  | .ok n => (n, s.setFile u.file { s.systemFileTable u.file with offset := u.offset + n })

/-! ## Processes -/

/-- The tables, the transfer each process is in, and what was moved through each descriptor since
it was opened: offsets and numbers of bytes. -/
structure Machine (P V : Type) (openMax : Nat) where
  files : State P V openMax
  inside : P → Option (Transfer V openMax)
  moved : P × Fin openMax → List (Nat × Nat)

/-- One of the calls in `Call`, the start of a transfer, or its end. -/
inductive Event (P V : Type) where
  | call (c : Call P V)
  | start (p : P) (d : Direction) (fd : Int) (size : Nat)
  | finish (p : P) (moved : Except Nat Nat)

/-- The process a call is about: the one that makes it, is started or is destroyed. -/
def Call.process : Call P V → P
  | .runprogram p => p
  | .sysOpen p _ => p
  | .sysClose p _ => p
  | .sysFork p _ _ => p
  | .sysExit p => p
  | .procDestroy p => p

namespace Machine

variable {m m' : Machine P V openMax}

def empty : Machine P V openMax where
  files := State.empty
  inside _ := none
  moved _ := []

/-- A call. Through a descriptor that it changes nothing has been moved yet. -/
def call (m : Machine P V openMax) (s : State P V openMax) : Machine P V openMax :=
  { m with
    files := s
    moved := fun x => if s.fileTable x = m.files.fileTable x then m.moved x else [] }

def finish (m : Machine P V openMax) (p : P) (u : Transfer V openMax) (moved : Except Nat Nat) :
    Machine P V openMax where
  files := (fileEnd u moved m.files).2
  inside := Function.update m.inside p none
  moved :=
    match moved with
    | .error _ => m.moved
    | .ok n => Function.update m.moved (p, u.fd) (m.moved (p, u.fd) ++ [(u.offset, n)])

/-- What happens next. A process in a transfer does nothing else; a transfer moves at most what
was asked for. -/
def next (m : Machine P V openMax) : Event P V → Option (Machine P V openMax)
  | .call c => if (m.inside c.process).isNone then (perform m.files c).map m.call else none
  | .start p d fd size =>
      if m.files.Running p ∧ (m.inside p).isNone then
        if d.console fd then some m
        else
          match fileStart p fd size m.files with
          | .ok u => some { m with inside := Function.update m.inside p u }
          | _ => none
      else none
  | .finish p moved =>
      match m.inside p with
      | none => none
      | some u =>
          if moved.toOption.all (· ≤ u.resid) then some (m.finish p u moved) else none

end Machine

/-! ## Open files are not shared -/

/-- A descriptor of a live process is the only one of its open file, which has a vnode and is
counted once. -/
structure Sole (s : State P V openMax) : Prop where
  vnode : ∀ x k, x.1 ∈ s.live → s.fileTable x = some k → (s.systemFileTable k).vn ≠ none
  count : ∀ x k, x.1 ∈ s.live → s.fileTable x = some k → (s.systemFileTable k).countRef = 1
  one : ∀ x y k, x.1 ∈ s.live → y.1 ∈ s.live → s.fileTable x = some k → s.fileTable y = some k →
    x = y

/-- What a call may have done to the descriptor `x` of the file `k`: nothing, or it has opened
it. -/
inductive Came (s s' : State P V openMax) (x : P × Fin openMax) (k : Slot openMax) : Prop where
  | kept (hlive : x.1 ∈ s.live) (hfd : s.fileTable x = some k)
      (hfile : s'.systemFileTable k = s.systemFileTable k)
  | opened {v : V} (hfd : s.fileTable x = none) (hfile : s'.systemFileTable k = ⟨some v, 0, 1⟩)
      (hone : ∀ y, y.1 ∈ s'.live → s'.fileTable y = some k → y = x)

section Calls

variable {x : P × Fin openMax} {k : Slot openMax}

omit [DecidableEq P] in
theorem Sole.of_came (h : Sole s)
    (hcame : ∀ x k, x.1 ∈ s'.live → s'.fileTable x = some k → Came s s' x k) : Sole s' where
  vnode x k hx hk := by
    cases hcame x k hx hk with
    | kept hlive hfd hfile =>
        rw [hfile]
        exact h.vnode x k hlive hfd
    | opened _ hfile _ =>
        rw [hfile]
        exact Option.some_ne_none _
  count x k hx hk := by
    cases hcame x k hx hk with
    | kept hlive hfd hfile =>
        rw [hfile]
        exact h.count x k hlive hfd
    | opened _ hfile _ => rw [hfile]
  one x y k hx hy hxk hyk := by
    cases hcame x k hx hxk with
    | opened _ _ hone => exact (hone y hy hyk).symm
    | kept hlive hfd _ =>
        cases hcame y k hy hyk with
        | opened _ _ hone => exact hone x hx hxk
        | kept hlive' hfd' _ => exact h.one x y k hlive hlive' hfd hfd'

/-- What `sys_open` can do: nothing, or it takes a slot without a vnode, for a descriptor if there
is a free one. -/
theorem sysOpen_cases (p : P) (v : Option V) (s : State P V openMax) :
    (sysOpen p v s).2 = s ∨ (sysOpen p v s).2.live = s.live ∧
      ∃ j vn, (s.systemFileTable j).vn = none ∧
        (sysOpen p v s).2.systemFileTable =
          Function.update s.systemFileTable j ⟨some vn, 0, 1⟩ ∧
        ((sysOpen p v s).2.fileTable = s.fileTable ∨ ∃ fd, s.fileTable (p, fd) = none ∧
          (sysOpen p v s).2.fileTable = Function.update s.fileTable (p, fd) (some j)) := by
  cases v with
  | none => exact .inl rfl
  | some vn =>
      cases hslot : freeSlot s with
      | none =>
          left
          simp only [sysOpen, hslot]
      | some j =>
          have hvn : (s.systemFileTable j).vn = none := by simpa using List.find?_some hslot
          have hfd : freeFd (s.setFile j ⟨some vn, 0, 1⟩) p = freeFd s p := rfl
          cases hfree : freeFd s p with
          | none =>
              simp only [sysOpen, hslot, hfd, hfree]
              exact .inr ⟨rfl, j, vn, hvn, rfl, .inl rfl⟩
          | some fd =>
              have hnone := List.find?_some hfree
              simp only [Bool.and_eq_true, Option.isNone_iff_eq_none] at hnone
              simp only [sysOpen, hslot, hfd, hfree]
              exact .inr ⟨rfl, j, vn, hvn, rfl, .inr ⟨fd, hnone.2, rfl⟩⟩

/-- What `sys_close` can do: nothing, or it clears a descriptor and changes its file. -/
theorem sysClose_cases {fd r : Int} (h : sysClose p fd s = .ok (r, s')) :
    s' = s ∨ s'.live = s.live ∧ ∃ fd j of, s.fileTable (p, fd) = some j ∧
      s'.fileTable = Function.update s.fileTable (p, fd) none ∧
      s'.systemFileTable = Function.update s.systemFileTable j of := by
  rw [sysClose] at h
  split at h
  · cases h
    exact .inl rfl
  split at h
  · rename_i hlt
    cases hj : s.fileTable (p, ⟨fd.toNat, hlt⟩) with
    | none =>
        rw [hj] at h
        cases h
        exact .inl rfl
    | some j =>
        rw [hj] at h
        have hs' : (dropFile j (s.setFd p ⟨fd.toNat, hlt⟩ none)).2 = s' :=
          congrArg Prod.snd (Outcome.ok.inj h)
        rw [← hs', dropFile]
        split <;> exact .inr ⟨rfl, _, j, _, hj, rfl, rfl⟩
  · cases h

theorem came_sysOpen (h : Sole s) {v : Option V} (hx : x.1 ∈ (sysOpen p v s).2.live)
    (hk : (sysOpen p v s).2.fileTable x = some k) : Came s (sysOpen p v s).2 x k := by
  rcases sysOpen_cases p v s with heq | ⟨hlive, j, vn, hvn, hfile, htab⟩
  · rw [heq] at hx hk ⊢
    exact .kept hx hk rfl
  -- nobody refers to the slot, as it has no vnode
  have hnobody : ∀ y, y.1 ∈ s.live → s.fileTable y ≠ some j :=
    fun y hy hj => h.vnode y j hy hj hvn
  rw [hlive] at hx
  have hkept : s.fileTable x = some k → Came s (sysOpen p v s).2 x k := by
    intro hk
    refine .kept hx hk ?_
    rw [hfile, Function.update_of_ne]
    rintro rfl
    exact hnobody x hx hk
  rcases htab with htab | ⟨fd, hnone, htab⟩
  · exact hkept (htab ▸ hk)
  · by_cases hxp : x = (p, fd)
    · subst hxp
      rw [htab, Function.update_self] at hk
      cases hk
      refine .opened hnone (hfile ▸ Function.update_self ..) fun y hy hyk => ?_
      by_contra hne
      rw [htab, Function.update_of_ne hne] at hyk
      exact hnobody y (hlive ▸ hy) hyk
    · rw [htab, Function.update_of_ne hxp] at hk
      exact hkept hk

theorem came_sysClose (h : Sole s) (hp : p ∈ s.live) {fd r : Int}
    (hclose : sysClose p fd s = .ok (r, s')) (hx : x.1 ∈ s'.live) (hk : s'.fileTable x = some k) :
    Came s s' x k := by
  rcases sysClose_cases hclose with rfl | ⟨hlive, fd, j, of, hj, htab, hfile⟩
  · exact .kept hx hk rfl
  rw [hlive] at hx
  have hne : x ≠ (p, fd) := by
    rintro rfl
    rw [htab, Function.update_self] at hk
    cases hk
  rw [htab, Function.update_of_ne hne] at hk
  refine .kept hx hk ?_
  rw [hfile, Function.update_of_ne]
  rintro rfl
  exact hne (h.one x (p, fd) k hx hp hk hj)

theorem came_sysFork {r : ForkCalls} {e : Option Errno} (hq : q ∉ s.live)
    (hfork : sysFork p q r s = .ok (e, s')) (hx : x.1 ∈ s'.live) (hk : s'.fileTable x = some k) :
    Came s s' x k := by
  obtain ⟨hfile, ⟨-, -, hlive, htab⟩ | ⟨-, -, hlive, htab⟩⟩ := sysFork_cases hq hfork
  · rw [hlive] at hx
    exact .kept hx ((htab x hx).symm.trans hk) (congrFun hfile k)
  · have hne : x.1 ≠ p ∧ x.1 ≠ q := by
      constructor <;> intro hc <;> simp [htab, State.clearFds, hc] at hk
    have hsame : s'.fileTable x = s.fileTable x := by simp [htab, State.clearFds, hne]
    have hold : x.1 ∈ s.live := by
      rcases hlive with hlive | hlive
      · exact Finset.mem_of_mem_insert_of_ne (hlive ▸ hx) hne.2
      · exact hlive ▸ hx
    exact .kept hold (hsame.symm.trans hk) (congrFun hfile k)

theorem eq_of_procDestroy
    (h : returned ((procDestroy p s).bind fun s => .ok ((), s)) = some s') :
    { s with live := s.live.erase p } = s' := by
  obtain ⟨_, hbind⟩ := returned_eq_some h
  obtain ⟨s1, hdestroy, hret⟩ := Outcome.bind_eq_ok.mp hbind
  cases hret
  rw [procDestroy] at hdestroy
  split at hdestroy
  · exact Outcome.ok.inj hdestroy
  · cases hdestroy

/-- **Where the descriptors come from** after a call. -/
theorem came_perform (h : Sole s) {c : Call P V} (hc : perform s c = some s')
    (hx : x.1 ∈ s'.live) (hk : s'.fileTable x = some k) : Came s s' x k := by
  cases c with
  | runprogram p =>
      obtain ⟨-, hs'⟩ := Option.ite_none_left_eq_some.mp hc
      cases hs'
      have hne : x.1 ≠ p := by
        intro hxp
        cases (if_pos hxp).symm.trans hk
      exact .kept (Finset.mem_of_mem_insert_of_ne hx hne) ((if_neg hne).symm.trans hk) rfl
  | sysOpen p v =>
      obtain ⟨-, hs'⟩ := Option.ite_none_right_eq_some.mp hc
      cases hs'
      exact came_sysOpen h hx hk
  | sysClose p fd =>
      obtain ⟨hrun, hs'⟩ := Option.ite_none_right_eq_some.mp hc
      obtain ⟨r, hclose⟩ := returned_eq_some hs'
      exact came_sysClose h hrun.1 hclose hx hk
  | sysFork p newp r =>
      obtain ⟨⟨-, hnew⟩, hs'⟩ := Option.ite_none_right_eq_some.mp hc
      obtain ⟨e, hfork⟩ := returned_eq_some hs'
      exact came_sysFork hnew hfork hx hk
  | sysExit p =>
      obtain ⟨hrun, hs'⟩ := Option.ite_none_right_eq_some.mp hc
      simp only [procRemthread, if_pos hrun.2, Outcome.bind_ok] at hs'
      cases hs'
      exact .kept hx hk rfl
  | procDestroy p =>
      obtain ⟨-, hs'⟩ := Option.ite_none_right_eq_some.mp hc
      obtain rfl := eq_of_procDestroy hs'
      exact .kept (Finset.mem_of_mem_erase hx) hk rfl

/-- A call of one process leaves the others and their descriptors alone. -/
theorem perform_other {c : Call P V} (hc : perform s c = some s') (hq : q ∈ s.live)
    (hne : q ≠ c.process) (fd : Fin openMax) :
    q ∈ s'.live ∧ s'.fileTable (q, fd) = s.fileTable (q, fd) := by
  cases c with
  | runprogram p =>
      obtain ⟨-, hs'⟩ := Option.ite_none_left_eq_some.mp hc
      cases hs'
      exact ⟨Finset.mem_insert_of_mem hq, if_neg hne⟩
  | sysOpen p v =>
      obtain ⟨-, hs'⟩ := Option.ite_none_right_eq_some.mp hc
      cases hs'
      rcases sysOpen_cases p v s with heq | ⟨hlive, j, _, -, -, htab | ⟨fd', -, htab⟩⟩
      · rw [heq]
        exact ⟨hq, rfl⟩
      · exact ⟨hlive ▸ hq, congrFun htab _⟩
      · rw [htab, Function.update_of_ne fun he => hne (congrArg Prod.fst he)]
        exact ⟨hlive ▸ hq, rfl⟩
  | sysClose p fd' =>
      obtain ⟨-, hs'⟩ := Option.ite_none_right_eq_some.mp hc
      obtain ⟨r, hclose⟩ := returned_eq_some hs'
      rcases sysClose_cases hclose with rfl | ⟨hlive, fd', _, _, -, htab, -⟩
      · exact ⟨hq, rfl⟩
      · rw [htab, Function.update_of_ne fun he => hne (congrArg Prod.fst he)]
        exact ⟨hlive ▸ hq, rfl⟩
  | sysFork p newp r =>
      obtain ⟨⟨-, hnew⟩, hs'⟩ := Option.ite_none_right_eq_some.mp hc
      obtain ⟨e, hfork⟩ := returned_eq_some hs'
      have hnewp : q ≠ newp := fun he => hnew (he ▸ hq)
      obtain ⟨-, ⟨-, -, hlive, htab⟩ | ⟨-, -, hlive, htab⟩⟩ := sysFork_cases hnew hfork
      · exact ⟨hlive ▸ hq, htab (q, fd) hq⟩
      · refine ⟨?_, ?_⟩
        · rcases hlive with hlive | hlive
          · exact hlive ▸ Finset.mem_insert_of_mem hq
          · exact hlive ▸ hq
        · rw [htab]
          exact (if_neg hne).trans (if_neg hnewp)
  | sysExit p =>
      obtain ⟨hrun, hs'⟩ := Option.ite_none_right_eq_some.mp hc
      simp only [procRemthread, if_pos hrun.2, Outcome.bind_ok] at hs'
      cases hs'
      exact ⟨hq, rfl⟩
  | procDestroy p =>
      obtain ⟨-, hs'⟩ := Option.ite_none_right_eq_some.mp hc
      obtain rfl := eq_of_procDestroy hs'
      exact ⟨Finset.mem_erase_of_ne_of_mem hne hq, rfl⟩

end Calls

/-! ## Transfers follow on -/

/-- Transfers one after the other, from `a` up to `b`. -/
def Consecutive (a : Nat) : List (Nat × Nat) → Nat → Prop
  | [], b => a = b
  | (o, n) :: l, b => o = a ∧ Consecutive (a + n) l b

theorem Consecutive.snoc {b n : Nat} : ∀ {a : Nat} {l : List (Nat × Nat)}, Consecutive a l b →
    Consecutive a (l ++ [(b, n)]) (b + n)
  | _, [], rfl => ⟨rfl, rfl⟩
  | _, _ :: _, ⟨ho, hl⟩ => ⟨ho, hl.snoc⟩

namespace Machine

variable {m m' : Machine P V openMax}

/-- What holds all along: a transfer is at the position of its file, which is where the
transfers through its descriptor have led. -/
structure Inv (m : Machine P V openMax) : Prop where
  sole : Sole m.files
  inside : ∀ p u, m.inside p = some u → p ∈ m.files.live ∧
    m.files.fileTable (p, u.fd) = some u.file ∧ (m.files.systemFileTable u.file).offset = u.offset
  moved : ∀ x k, x.1 ∈ m.files.live → m.files.fileTable x = some k →
    Consecutive 0 (m.moved x) (m.files.systemFileTable k).offset

omit [DecidableEq P] in
theorem inv_empty : Inv (empty : Machine P V openMax) where
  sole :=
    { vnode := fun _ _ hx => absurd hx (Finset.notMem_empty _)
      count := fun _ _ hx => absurd hx (Finset.notMem_empty _)
      one := fun _ _ _ hx => absurd hx (Finset.notMem_empty _) }
  inside _ _ hu := by cases hu
  moved _ _ hx := absurd hx (Finset.notMem_empty _)

theorem Inv.call (h : Inv m) {c : Call P V} (hidle : m.inside c.process = none)
    (hc : perform m.files c = some s') : Inv (m.call s') where
  sole := h.sole.of_came fun _ _ => came_perform h.sole hc
  inside q u hu := by
    obtain ⟨hq, hfd, hoff⟩ := h.inside q u hu
    have hne : q ≠ c.process := by
      rintro rfl
      rw [show m.inside c.process = some u from hu] at hidle
      cases hidle
    obtain ⟨hq', hfd'⟩ := perform_other hc hq hne u.fd
    refine ⟨hq', hfd'.trans hfd, ?_⟩
    cases came_perform h.sole hc (x := (q, u.fd)) hq' (hfd'.trans hfd) with
    | kept _ _ hfile => exact (congrArg OpenFile.offset hfile).trans hoff
    | opened hnone _ _ => cases hnone.symm.trans hfd
  moved x k hx hk := by
    show Consecutive 0 (if s'.fileTable x = m.files.fileTable x then m.moved x else [])
      (s'.systemFileTable k).offset
    cases came_perform h.sole hc hx hk with
    | kept hlive hfd hfile =>
        have heq : s'.fileTable x = m.files.fileTable x := Eq.trans hk hfd.symm
        rw [if_pos heq, hfile]
        exact h.moved x k hlive hfd
    | opened hnone hfile _ =>
        have hne : s'.fileTable x ≠ m.files.fileTable x := by
          rw [show s'.fileTable x = some k from hk, hnone]
          exact Option.some_ne_none k
        rw [if_neg hne, hfile]
        rfl

omit [DecidableEq P] in
theorem fileStart_eq {fd : Int} {size : Nat} {u : Transfer V openMax}
    (h : fileStart p fd size s = .ok (some u)) :
    s.fileTable (p, u.fd) = some u.file ∧ (s.systemFileTable u.file).offset = u.offset := by
  rw [fileStart] at h
  split at h
  · cases h
  split at h
  · split at h
    · cases h
    · rename_i hk
      dsimp only at h
      split at h
      · cases h
      · cases h
        exact ⟨hk, rfl⟩
  · cases h

theorem Inv.start (h : Inv m) {fd : Int} {size : Nat} {u : Option (Transfer V openMax)}
    (hp : p ∈ m.files.live) (hu : fileStart p fd size m.files = .ok u) :
    Inv { m with inside := Function.update m.inside p u } where
  sole := h.sole
  inside q w hw := by
    by_cases hq : q = p
    · subst hq
      obtain rfl : u = some w := (Function.update_self q u m.inside).symm.trans hw
      exact ⟨hp, fileStart_eq hu⟩
    · exact h.inside q w ((Function.update_of_ne hq u m.inside).symm.trans hw)
  moved := h.moved

/-- A transfer ends. Its position is stored in its file, and no other process has a descriptor of
that. -/
theorem Inv.finish (h : Inv m) {u : Transfer V openMax} (hu : m.inside p = some u)
    (moved : Except Nat Nat) : Inv (m.finish p u moved) := by
  obtain ⟨hp, hfd, hoff⟩ := h.inside p u hu
  have hrest : ∀ q w, (m.finish p u moved).inside q = some w → q ≠ p ∧ m.inside q = some w := by
    intro q w hw
    change Function.update m.inside p none q = some w at hw
    by_cases hq : q = p
    · rw [hq, Function.update_self] at hw
      cases hw
    · rw [Function.update_of_ne hq] at hw
      exact ⟨hq, hw⟩
  cases moved with
  | error result =>
      exact ⟨h.sole, fun q w hw => h.inside q w (hrest q w hw).2, h.moved⟩
  | ok n =>
      -- the descriptors of other files see no difference
      have hother : ∀ x k, x.1 ∈ m.files.live → m.files.fileTable x = some k → x ≠ (p, u.fd) →
          (m.finish p u (.ok n)).files.systemFileTable k = m.files.systemFileTable k := by
        intro x k hx hk hne
        refine Function.update_of_ne ?_ ..
        rintro rfl
        exact hne (h.sole.one x (p, u.fd) _ hx hp hk hfd)
      have hsame : (m.finish p u (.ok n)).files.systemFileTable u.file =
          { m.files.systemFileTable u.file with offset := u.offset + n } :=
        Function.update_self ..
      have hkeep : ∀ k, ((m.finish p u (.ok n)).files.systemFileTable k).vn =
            (m.files.systemFileTable k).vn ∧
          ((m.finish p u (.ok n)).files.systemFileTable k).countRef =
            (m.files.systemFileTable k).countRef := by
        intro k
        by_cases hk : k = u.file
        · subst hk
          rw [hsame]
          exact ⟨rfl, rfl⟩
        · have := Function.update_of_ne hk
            { m.files.systemFileTable u.file with offset := u.offset + n } m.files.systemFileTable
          exact ⟨congrArg OpenFile.vn this, congrArg OpenFile.countRef this⟩
      refine ⟨⟨?_, ?_, h.sole.one⟩, ?_, ?_⟩
      · intro x k hx hk
        rw [(hkeep k).1]
        exact h.sole.vnode x k hx hk
      · intro x k hx hk
        rw [(hkeep k).2]
        exact h.sole.count x k hx hk
      · intro q w hw
        obtain ⟨hq, hw⟩ := hrest q w hw
        obtain ⟨hlive, hk, hwoff⟩ := h.inside q w hw
        refine ⟨hlive, hk, ?_⟩
        rw [hother (q, w.fd) _ hlive hk fun he => hq (congrArg Prod.fst he)]
        exact hwoff
      · intro x k hx hk
        by_cases hxp : x = (p, u.fd)
        · subst hxp
          obtain rfl : u.file = k := Option.some.inj (hfd.symm.trans hk)
          have hlast := (h.moved (p, u.fd) u.file hx hk).snoc (n := n)
          rw [hoff] at hlast
          rw [hsame]
          show Consecutive 0 (Function.update m.moved (p, u.fd) _ (p, u.fd)) _
          rw [Function.update_self]
          exact hlast
        · rw [hother x k hx hk hxp]
          show Consecutive 0 (Function.update m.moved (p, u.fd) _ x) _
          rw [Function.update_of_ne hxp]
          exact h.moved x k hx hk

theorem Inv.next (h : Inv m) {e : Event P V} (he : m.next e = some m') : Inv m' := by
  cases e with
  | call c =>
      obtain ⟨hidle, hcall⟩ := Option.ite_none_right_eq_some.mp he
      obtain ⟨s', hc, rfl⟩ := Option.map_eq_some_iff.mp hcall
      exact h.call (Option.isNone_iff_eq_none.mp hidle) hc
  | start p d fd size =>
      obtain ⟨⟨hrun, -⟩, hstart⟩ := Option.ite_none_right_eq_some.mp he
      split at hstart
      · cases hstart
        exact h
      · split at hstart
        · rename_i u hu
          cases hstart
          exact h.start hrun.1 hu
        · cases hstart
  | finish p moved =>
      rw [Machine.next] at he
      split at he
      · cases he
      · rename_i u hu
        obtain ⟨-, hfinish⟩ := Option.ite_none_right_eq_some.mp he
        cases hfinish
        exact h.finish hu moved

/-- **Files are read and written in order.** Whatever processes do and however their transfers
overlap, what was moved through a descriptor since it was opened follows on from the start of the
file up to the position in its open file, which no other descriptor refers to. -/
theorem transfers_consecutive {events : List (Event P V)}
    (h : events.foldlM next (empty : Machine P V openMax) = some m) {x : P × Fin openMax}
    {k : Slot openMax} (hx : x.1 ∈ m.files.live) (hk : m.files.fileTable x = some k) :
    Consecutive 0 (m.moved x) (m.files.systemFileTable k).offset ∧
      (m.files.systemFileTable k).countRef = 1 ∧
      ∀ y, y.1 ∈ m.files.live → m.files.fileTable y = some k → y = x := by
  have hinv : Inv m :=
    Transitions.foldlM_invariant events (fun _ _ _ _ hs he => hs.next he) inv_empty h
  refine ⟨hinv.moved x k hx hk, hinv.sole.count x k hx hk, fun y hy hyk => ?_⟩
  exact hinv.sole.one y x k hy hx hyk hk

/-- Two processes read one file; their transfers overlap. -/
def overlapping : List (Event Nat Nat) :=
  [.call (.runprogram 0), .call (.runprogram 1), .call (.sysOpen 0 (some 7)),
    .call (.sysOpen 1 (some 7)), .start 0 .read 3 10, .start 1 .read 3 4, .finish 0 (.ok 10),
    .start 0 .read 3 10, .finish 1 (.ok 4), .finish 0 (.ok 5)]

theorem transfers_overlapping : ∃ m : Machine Nat Nat 16, overlapping.foldlM next empty = some m ∧
    m.moved (0, 3) = [(0, 10), (10, 5)] ∧
    Consecutive 0 [(0, 10), (10, 5)] (m.files.systemFileTable 0).offset ∧
    ∀ y, y.1 ∈ m.files.live → m.files.fileTable y = some 0 → y = (0, 3) := by
  have hrun : (overlapping.foldlM next (empty : Machine Nat Nat 16)).any (fun m =>
      decide (0 ∈ m.files.live ∧ m.files.fileTable (0, 3) = some 0 ∧
        m.moved (0, 3) = [(0, 10), (10, 5)])) = true := by
    decide +kernel
  obtain ⟨m, hm, hcheck⟩ := (Option.any_eq_true _ _).mp hrun
  obtain ⟨hlive, hfd, hmoved⟩ := of_decide_eq_true hcheck
  obtain ⟨hconsecutive, -, hone⟩ := transfers_consecutive hm hlive hfd
  rw [hmoved] at hconsecutive
  exact ⟨m, hm, hmoved, hconsecutive, hone⟩

end Machine

end Os161Paging.Files
