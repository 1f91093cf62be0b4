import Mathlib.Algebra.BigOperators.Ring.List
import Mathlib.Algebra.Order.BigOperators.Group.List
import Mathlib.Algebra.Order.Ring.Nat
import Mathlib.Order.CompletePartialOrder
import Mathlib.Order.Interval.Set.Disjoint
import Os161Paging.Bytes
import Os161Paging.State

/-!
# The arguments of a program

`runprogramWithArgs` (`runprogram.c`) writes the arguments of a program to
its stack before it enters it: the strings from the last to the first
downwards from `USERSTACK`, each rounded up to whole words, and below them
the array of their addresses with a null pointer at its end. Both loops move
one stack pointer; what one round writes lies below everything written
before, and this is the whole proof.
-/

namespace Os161Paging.Argv

open Bytes

/-! ## The two loops -/

/-- A string of C: the bytes before its terminator. -/
structure CString where
  bytes : List Byte
  noNul : (0 : Byte) ∉ bytes

def CString.stored (s : CString) : List Byte := s.bytes ++ [0]

/-- User memory, the local variables of `runprogramWithArgs`, and how many copies were made. -/
structure State where
  mem : Mem
  stackptr : Nat
  addrargs : Nat → Nat
  copies : Nat

/-- What `enter_new_process` is called with, and the memory it finds. -/
structure Entered where
  argc : Nat
  argv : Nat
  stack : Nat
  mem : Mem

section

variable (fault : Nat → Option Errno)

/-- `copyout` or `copyoutstr` of these bytes to the stack pointer; `fault` is what the copies
return. -/
def copyOut (bs : List Byte) (st : State) : Except Errno State :=
  match fault st.copies with
  | some err => .error err
  | none => .ok { st with mem := write st.mem st.stackptr bs, copies := st.copies + 1 }

def wordSub (a b : Nat) : Nat := wrap (a + 2 ^ 32 - b)

/-- `stackptr -= n`. -/
def State.lower (st : State) (n : Nat) : State :=
  { st with stackptr := wordSub st.stackptr n }

def roundUp4 (n : Nat) : Nat := wrap (divRoundUp n 4 * 4)

/-- The loop over the strings, from index `i - 1` down. A null pointer ends it. -/
def pushStrings (args : Nat → Option CString) : Nat → State → Except Errno State
  | 0, st => .ok st
  | i + 1, st =>
      match args i with
      | none => .ok st
      | some arg =>
          let strsize := wrap (arg.bytes.length + 1)
          if strsize = 0 then .error .EINVAL
          else
            match copyOut fault arg.stored (st.lower (roundUp4 strsize)) with
            | .error err => .error err
            | .ok st => pushStrings args i
                { st with addrargs := Function.update st.addrargs i st.stackptr }

def pushPointers : Nat → State → Except Errno State
  | 0, st => .ok st
  | i + 1, st =>
      match copyOut fault (wordBytes (st.addrargs i)) (st.lower 4) with
      | .error err => .error err
      | .ok st => pushPointers i st

/-- How often `for (i = n; i >= 0; i--)` is run through: `i` is an `int`. -/
def rounds (n : Nat) : Nat := if n < 2 ^ 31 then n + 1 else 0

/-- The end of `runprogramWithArgs`, from `as_define_stack` on. `junk` is what the array
`addrargs` contains before it is written. -/
def enterWithArgs (args : Nat → Option CString) (nargs : Nat) (mem : Mem) (junk : Nat → Nat) :
    Except Errno Entered := do
  let st ← pushStrings fault args (rounds (wordSub nargs 1)) ⟨mem, userStack, junk, 0⟩
  let st ← pushPointers fault (rounds nargs)
    { st with addrargs := Function.update st.addrargs nargs 0 }
  return ⟨nargs, st.stackptr, st.stackptr - st.stackptr % 8, st.mem⟩

end

/-! ## The layout -/

variable {strs : List CString} {fault : Nat → Option Errno} {st : State} {i k : Nat}

def CString.room (s : CString) : Nat := (s.bytes.length + 1 + 3) / 4 * 4

/-- The strings and the array have room on the stack. -/
def Fit (strs : List CString) : Prop :=
  (strs.map CString.room).sum + 4 * (strs.length + 1) ≤ stackPages * pageSize

def stackRegion : Set Nat := Set.Ico (userStack - stackPages * pageSize) userStack

def Entered.array (x : Entered) : Set Nat := Set.Ico x.argv (x.argv + 4 * (x.argc + 1))

def Entered.string (x : Entered) (k : Nat) (s : CString) : Set Nat :=
  Set.Ico (word x.mem (x.argv + 4 * k)) (word x.mem (x.argv + 4 * k) + s.stored.length)

structure LaidOut (strs : List CString) (x : Entered) : Prop where
  argc : x.argc = strs.length
  strings : ∀ k s, strs[k]? = some s → Holds x.mem (word x.mem (x.argv + 4 * k)) s.stored
  null : word x.mem (x.argv + 4 * x.argc) = 0
  apart : ∀ j k s s', strs[j]? = some s → strs[k]? = some s' → j ≠ k →
    Disjoint (x.string j s) (x.string k s')
  below : ∀ k s, strs[k]? = some s → Disjoint x.array (x.string k s)
  array_inside : x.array ⊆ stackRegion
  string_inside : ∀ k s, strs[k]? = some s → x.string k s ⊆ stackRegion
  aligned : x.argv % 4 = 0 ∧ ∀ k < x.argc, word x.mem (x.argv + 4 * k) % 4 = 0
  stack : x.stack % 8 = 0 ∧ x.stack ≤ x.argv ∧ x.argv < x.stack + 8

/-! ## Where the strings are -/

def roomFrom (strs : List CString) (k : Nat) : Nat := ((strs.drop k).map CString.room).sum

def addr (strs : List CString) (k : Nat) : Nat := userStack - roomFrom strs k

theorem length_stored_le (s : CString) : s.stored.length ≤ s.room := by
  simp only [CString.stored, CString.room, List.length_append, List.length_singleton]
  omega

theorem roomFrom_length : roomFrom strs strs.length = 0 := by
  rw [roomFrom, List.drop_length, List.map_nil, List.sum_nil]

theorem roomFrom_succ {s : CString} (h : strs[k]? = some s) :
    roomFrom strs k = s.room + roomFrom strs (k + 1) := by
  obtain ⟨hlt, rfl⟩ := List.getElem?_eq_some_iff.mp h
  rw [roomFrom, List.drop_eq_getElem_cons hlt, List.map_cons, List.sum_cons, roomFrom]

theorem roomFrom_anti (h : i ≤ k) : roomFrom strs k ≤ roomFrom strs i :=
  ((List.drop_sublist_drop_left strs h).map CString.room).sum_le_sum fun _ _ => Nat.zero_le _

theorem roomFrom_mod : roomFrom strs k % 4 = 0 := by
  refine Nat.mod_eq_zero_of_dvd (List.dvd_sum fun x hx => ?_)
  obtain ⟨s, -, rfl⟩ := List.mem_map.mp hx
  exact Nat.dvd_mul_left 4 _

theorem Fit.roomFrom_le (h : Fit strs) :
    roomFrom strs k + 4 * (strs.length + 1) ≤ stackPages * pageSize := by
  have h0 : roomFrom strs 0 = (strs.map CString.room).sum := by rw [roomFrom, List.drop_zero]
  have hk : roomFrom strs k ≤ roomFrom strs 0 := roomFrom_anti (Nat.zero_le k)
  unfold Fit at h
  omega

theorem Fit.roomFrom_lt (h : Fit strs) : roomFrom strs k < 2 ^ 17 := by
  have := h.roomFrom_le (k := k)
  simp only [stackPages, pageSize_eq] at this
  omega

theorem addr_add (h : Fit strs) : addr strs k + roomFrom strs k = userStack :=
  Nat.sub_add_cancel (Nat.le_trans (Nat.le_of_lt h.roomFrom_lt) (by decide))

theorem addr_succ {s : CString} (hfit : Fit strs) (h : strs[k]? = some s) :
    addr strs k + s.room = addr strs (k + 1) := by
  have h1 := addr_add hfit (k := k)
  have h2 := addr_add hfit (k := k + 1)
  rw [roomFrom_succ h] at h1
  omega

theorem addr_mono (h : i ≤ k) : addr strs i ≤ addr strs k :=
  Nat.sub_le_sub_left (roomFrom_anti h) userStack

theorem stored_le_addr {s : CString} (hfit : Fit strs) (h : strs[i]? = some s) (hik : i < k) :
    addr strs i + s.stored.length ≤ addr strs k := by
  have h1 := addr_succ hfit h
  have h2 : addr strs (i + 1) ≤ addr strs k := addr_mono hik
  have h3 := length_stored_le s
  omega

theorem lower_eq {n p : Nat} (hp : p + n = st.stackptr) (hle : st.stackptr ≤ userStack) :
    st.lower n = { st with stackptr := p } := by
  have hlt : userStack < 2 ^ 32 := by decide
  have hw : wordSub st.stackptr n = p := by
    unfold wordSub wrap
    omega
  rw [State.lower, hw]

theorem copyOut_eq (hf : ∀ n, fault n = none) (bs : List Byte) :
    copyOut fault bs st =
      .ok { st with mem := write st.mem st.stackptr bs, copies := st.copies + 1 } := by
  rw [copyOut, hf]

/-! ## The loop over the strings -/

structure Pushed (strs : List CString) (i : Nat) (st : State) : Prop where
  ptr : st.stackptr = addr strs i
  addrs : ∀ k, i ≤ k → k < strs.length → st.addrargs k = addr strs k
  held : ∀ k s, i ≤ k → strs[k]? = some s → Holds st.mem (addr strs k) s.stored

theorem roundUp4_strsize {s : CString} (h : s.room < 2 ^ 17) :
    wrap (s.bytes.length + 1) ≠ 0 ∧ roundUp4 (wrap (s.bytes.length + 1)) = s.room := by
  simp only [CString.room] at h
  have hw : wrap (s.bytes.length + 1) = s.bytes.length + 1 := Nat.mod_eq_of_lt (by omega)
  rw [hw]
  simp only [roundUp4, divRoundUp, wrap, CString.room]
  omega

/-- One round of the loop pushes one string. -/
theorem Pushed.step {s : CString} (hfit : Fit strs) (hs : strs[i]? = some s)
    (hp : Pushed strs (i + 1) st) :
    st.lower s.room = { st with stackptr := addr strs i } ∧
      Pushed strs i { st with
        mem := write st.mem (addr strs i) s.stored
        stackptr := addr strs i
        addrargs := Function.update st.addrargs i (addr strs i)
        copies := st.copies + 1 } := by
  have hptr : addr strs i + s.room = st.stackptr := by rw [hp.ptr, addr_succ hfit hs]
  refine ⟨lower_eq hptr (hp.ptr ▸ Nat.sub_le ..), rfl, ?_, ?_⟩
  · intro k hik hk
    rcases Nat.eq_or_lt_of_le hik with rfl | hlt
    · exact Function.update_self ..
    · rw [← hp.addrs k hlt hk]
      exact Function.update_of_ne (by omega) ..
  · intro k s' hik hk
    rcases Nat.eq_or_lt_of_le hik with rfl | hlt
    · obtain rfl : s = s' := Option.some.inj (hs.symm.trans hk)
      exact holds_write
    · exact (hp.held k s' hlt hk).write_below (stored_le_addr hfit hs hlt)

theorem pushStrings_run (hf : ∀ n, fault n = none) (hfit : Fit strs) :
    ∀ (i : Nat) (st : State), i ≤ strs.length → Pushed strs i st →
      ∃ st', pushStrings fault (fun k => strs[k]?) i st = .ok st' ∧ Pushed strs 0 st'
  | 0, st, _, hp => ⟨st, rfl, hp⟩
  | i + 1, st, hi, hp => by
      have hs : strs[i]? = some strs[i] := List.getElem?_eq_getElem hi
      obtain ⟨hptr, hp'⟩ := hp.step hfit hs
      obtain ⟨st', hrun, hst'⟩ := pushStrings_run hf hfit i _ (Nat.le_of_succ_le hi) hp'
      have hroom : strs[i].room < 2 ^ 17 := by
        have := hfit.roomFrom_lt (k := i)
        rw [roomFrom_succ hs] at this
        omega
      obtain ⟨hne, hround⟩ := roundUp4_strsize hroom
      refine ⟨st', ?_, hst'⟩
      rw [pushStrings, hs]
      simp only [hne, if_false, hround, hptr, copyOut_eq hf]
      exact hrun

/-! ## The loop over the addresses -/

def entry (strs : List CString) (k : Nat) : Nat := if k < strs.length then addr strs k else 0

def argvOf (strs : List CString) : Nat := addr strs 0 - 4 * (strs.length + 1)

/-- The strings, and the addresses from the `i`-th on, have been pushed. -/
structure Written (strs : List CString) (i : Nat) (st : State) : Prop where
  ptr : st.stackptr = argvOf strs + 4 * i
  addrs : ∀ k ≤ strs.length, st.addrargs k = entry strs k
  held : ∀ k s, strs[k]? = some s → Holds st.mem (addr strs k) s.stored
  words : ∀ k, i ≤ k → k ≤ strs.length →
    Holds st.mem (argvOf strs + 4 * k) (wordBytes (entry strs k))

theorem argvOf_add (h : Fit strs) : argvOf strs + 4 * (strs.length + 1) = addr strs 0 := by
  refine Nat.sub_add_cancel ?_
  have h1 := addr_add h (k := 0)
  have h2 := h.roomFrom_le (k := 0)
  have h3 : stackPages * pageSize ≤ userStack := by decide
  omega

theorem Written.step (hfit : Fit strs) (hi : i ≤ strs.length) (hw : Written strs (i + 1) st) :
    st.lower 4 = { st with stackptr := argvOf strs + 4 * i } ∧
      Written strs i { st with
        mem := write st.mem (argvOf strs + 4 * i) (wordBytes (entry strs i))
        stackptr := argvOf strs + 4 * i
        copies := st.copies + 1 } := by
  have hend := argvOf_add hfit
  have hptr : argvOf strs + 4 * i + 4 = st.stackptr := by rw [hw.ptr]; omega
  have hbelow : ∀ {a : Nat} {cs : List Byte}, argvOf strs + 4 * i + 4 ≤ a → Holds st.mem a cs →
      Holds (write st.mem (argvOf strs + 4 * i) (wordBytes (entry strs i))) a cs :=
    fun hle hh => hh.write_below (by rwa [length_wordBytes])
  refine ⟨lower_eq hptr ?_, rfl, hw.addrs, ?_, ?_⟩
  · have h0 : addr strs 0 ≤ userStack := Nat.sub_le ..
    omega
  · intro k s hk
    have h0 : addr strs 0 ≤ addr strs k := addr_mono (Nat.zero_le k)
    exact hbelow (by omega) (hw.held k s hk)
  · intro k hik hk
    rcases Nat.eq_or_lt_of_le hik with rfl | hlt
    · exact holds_write
    · exact hbelow (by omega) (hw.words k hlt hk)

theorem pushPointers_run (hf : ∀ n, fault n = none) (hfit : Fit strs) :
    ∀ (i : Nat) (st : State), i ≤ strs.length + 1 → Written strs i st →
      ∃ st', pushPointers fault i st = .ok st' ∧ Written strs 0 st'
  | 0, st, _, hw => ⟨st, rfl, hw⟩
  | i + 1, st, hi, hw => by
      obtain ⟨hptr, hw'⟩ := hw.step hfit (Nat.le_of_succ_le_succ hi)
      obtain ⟨st', hrun, hst'⟩ := pushPointers_run hf hfit i _ (Nat.le_of_succ_le hi) hw'
      refine ⟨st', ?_, hst'⟩
      simp only [pushPointers, hw.addrs i (Nat.le_of_succ_le_succ hi), hptr, copyOut_eq hf]
      exact hrun

/-- Between the loops the null pointer is put at the end of the array. -/
theorem Pushed.written (hfit : Fit strs) (hp : Pushed strs 0 st) :
    Written strs (strs.length + 1)
      { st with addrargs := Function.update st.addrargs strs.length 0 } where
  ptr := by rw [argvOf_add hfit]; exact hp.ptr
  addrs := by
    intro k hk
    rcases Nat.eq_or_lt_of_le hk with rfl | hlt
    · rw [entry, if_neg (Nat.lt_irrefl _)]
      exact Function.update_self ..
    · rw [entry, if_pos hlt, ← hp.addrs k (Nat.zero_le k) hlt]
      exact Function.update_of_ne (Nat.ne_of_lt hlt) ..
  held := fun k s hk => hp.held k s (Nat.zero_le k) hk
  words := fun k hk hle => absurd hle (Nat.not_le_of_lt hk)

/-! ## What the program finds -/

theorem addr_lt : addr strs k < 2 ^ 32 :=
  Nat.lt_of_le_of_lt (Nat.sub_le ..) (by decide)

theorem Written.word_eq (hw : Written strs 0 st) (hk : k ≤ strs.length) :
    word st.mem (argvOf strs + 4 * k) = entry strs k := by
  refine (hw.words k (Nat.zero_le k) hk).word_eq ?_
  unfold entry
  split
  · exact addr_lt
  · decide

theorem Written.word_string {s : CString} (hw : Written strs 0 st) (hs : strs[k]? = some s) :
    word st.mem (argvOf strs + 4 * k) = addr strs k := by
  have hlt := (List.getElem?_eq_some_iff.mp hs).1
  rw [hw.word_eq (Nat.le_of_lt hlt), entry, if_pos hlt]

theorem addr_mod (hfit : Fit strs) : addr strs k % 4 = 0 := by
  have h1 := addr_add hfit (k := k)
  have h2 : roomFrom strs k % 4 = 0 := roomFrom_mod
  have h3 : userStack % 4 = 0 := by decide
  omega

theorem stored_le_userStack {s : CString} (hfit : Fit strs) (hs : strs[k]? = some s) :
    addr strs k + s.stored.length ≤ userStack := by
  have h1 := addr_add hfit (k := k)
  have h2 := length_stored_le s
  rw [roomFrom_succ hs] at h1
  omega

theorem stackRegion_le_argvOf (hfit : Fit strs) :
    userStack - stackPages * pageSize ≤ argvOf strs := by
  have h1 := addr_add hfit (k := 0)
  have h2 := hfit.roomFrom_le (k := 0)
  have h3 := argvOf_add hfit
  omega

theorem Written.laidOut (hfit : Fit strs) (hw : Written strs 0 st) :
    LaidOut strs
      ⟨strs.length, argvOf strs, argvOf strs - argvOf strs % 8, st.mem⟩ := by
  have hend := argvOf_add hfit
  have hbase := stackRegion_le_argvOf hfit
  have h0 : ∀ k, addr strs 0 ≤ addr strs k := fun k => addr_mono (Nat.zero_le k)
  refine ⟨rfl, ?_, ?_, ?_, ?_, ?_, ?_, ⟨?_, ?_⟩, ?_⟩
  · intro k s hs
    rw [hw.word_string hs]
    exact hw.held k s hs
  · rw [hw.word_eq (Nat.le_refl _), entry, if_neg (Nat.lt_irrefl _)]
  · intro j k s s' hs hs' hne
    simp only [Entered.string, hw.word_string hs, hw.word_string hs', Set.Ico_disjoint_Ico]
    rcases Nat.lt_or_gt_of_ne hne with hlt | hlt
    · have := stored_le_addr hfit hs hlt
      omega
    · have := stored_le_addr hfit hs' hlt
      omega
  · intro k s hs
    simp only [Entered.string, Entered.array, hw.word_string hs, Set.Ico_disjoint_Ico]
    have := h0 k
    omega
  · refine Set.Ico_subset_Ico hbase ?_
    rw [hend]
    exact Nat.sub_le ..
  · intro k s hs
    simp only [Entered.string, hw.word_string hs]
    have := h0 k
    exact Set.Ico_subset_Ico (by omega) (stored_le_userStack hfit hs)
  · have := addr_mod hfit (k := 0)
    show argvOf strs % 4 = 0
    omega
  · intro k hk
    rw [hw.word_string (List.getElem?_eq_getElem hk)]
    exact addr_mod hfit
  · simp only
    omega

theorem addr_length : addr strs strs.length = userStack := by
  rw [addr, roomFrom_length, Nat.sub_zero]

theorem pushed_none (mem : Mem) (junk : Nat → Nat) :
    Pushed strs strs.length ⟨mem, userStack, junk, 0⟩ where
  ptr := addr_length.symm
  addrs := fun _ hk hlt => absurd hlt (Nat.not_lt_of_le hk)
  held := fun _ _ hk hs => absurd (List.getElem?_eq_some_iff.mp hs).1 (Nat.not_lt_of_le hk)

theorem Fit.rounds (h : Fit strs) : Argv.rounds strs.length = strs.length + 1 ∧
    Argv.rounds (wordSub strs.length 1) = strs.length := by
  have hlen : strs.length < 2 ^ 17 := by
    unfold Fit at h
    simp only [stackPages, pageSize_eq] at h
    omega
  constructor
  · unfold Argv.rounds
    split <;> omega
  · unfold Argv.rounds wordSub wrap
    split <;> omega

theorem enterWithArgs_written (hf : ∀ n, fault n = none) (hfit : Fit strs) (mem : Mem)
    (junk : Nat → Nat) :
    ∃ st, enterWithArgs fault (fun k => strs[k]?) strs.length mem junk =
        .ok ⟨strs.length, argvOf strs, argvOf strs - argvOf strs % 8, st.mem⟩ ∧
      Written strs 0 st := by
  obtain ⟨hpointers, hstrings⟩ := hfit.rounds
  obtain ⟨st, hrun, hp⟩ :=
    pushStrings_run hf hfit strs.length _ (Nat.le_refl _) (pushed_none mem junk)
  obtain ⟨st', hrun', hw⟩ := pushPointers_run hf hfit _ _ (Nat.le_refl _) (hp.written hfit)
  have hptr : st'.stackptr = argvOf strs := by rw [hw.ptr, Nat.mul_zero, Nat.add_zero]
  refine ⟨st', ?_, hw⟩
  rw [enterWithArgs, hstrings, hrun, hpointers]
  simp only [bind, Except.bind, hrun', pure, Except.pure, hptr]

/-- A program with arguments that fit on its stack finds them laid out: each pointer of `argv`
leads to its string, a null pointer ends the array, and nothing overlaps or leaves the stack. -/
theorem enterWithArgs_laidOut (hf : ∀ n, fault n = none) (hfit : Fit strs) (mem : Mem)
    (junk : Nat → Nat) :
    ∃ x, enterWithArgs fault (fun k => strs[k]?) strs.length mem junk = .ok x ∧
      LaidOut strs x := by
  obtain ⟨st, hrun, hw⟩ := enterWithArgs_written hf hfit mem junk
  exact ⟨_, hrun, hw.laidOut hfit⟩

def sortHello : List CString :=
  [⟨[115, 111, 114, 116], by decide⟩, ⟨[104, 101, 108, 108, 111], by decide⟩]

theorem sortHello_laidOut :
    ∃ x, enterWithArgs (fun _ => none) (fun k => sortHello[k]?) 2 (fun _ => 0) (fun _ => 0) =
        .ok x ∧ LaidOut sortHello x :=
  enterWithArgs_laidOut (fun _ => rfl) (show _ ≤ _ by decide) (fun _ => 0) (fun _ => 0)

end Os161Paging.Argv
