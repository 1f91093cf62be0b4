import Os161Paging.State

/-!
# Locks, counters and the TLB

The code every other part calls: the lock operations of `synch.c` as far
as their callers can tell them apart (a lock is taken, waited for, or the
attempt is an assertion failure), `vmstats.c`, and `vm_tlb.c` over the
64 slots of the TLB.
-/

namespace Os161Paging

/-! ## Locks -/

namespace Sys

def take (s : Sys) (t : Tid) (l : Lock) : Sys :=
  { s with owner := Function.update s.owner l (some t) }

def drop (s : Sys) (l : Lock) : Sys :=
  { s with owner := Function.update s.owner l none }

variable {s : Sys} {t : Tid} {l l' : Lock}

@[simp] theorem take_owner_self : (s.take t l).owner l = some t := Function.update_self ..

@[simp] theorem take_owner_of_ne (h : l' ≠ l) : (s.take t l).owner l' = s.owner l' :=
  Function.update_of_ne h ..

@[simp] theorem drop_owner_self : (s.drop l).owner l = none := Function.update_self ..

@[simp] theorem drop_owner_of_ne (h : l' ≠ l) : (s.drop l).owner l' = s.owner l' :=
  Function.update_of_ne h ..

end Sys

/-- Take the lock `l`, or wait for it; taking it twice fails with `msg`. -/
def grab (l : Lock) (msg : String) : VM Unit :=
  Prog.exec fun t s =>
    match s.owner l with
    | none => .ok ((), s.take t l)
    | some u => if u = t then .panic msg else .wait l

/-- Give the lock `l` up; only its holder may. -/
def letGo (l : Lock) (msg : String) : VM Unit :=
  Prog.exec fun t s =>
    if s.owner l = some t then .ok ((), s.drop l) else .panic msg

def spinlockAcquire (l : Lock) : VM Unit := grab l "Deadlock on spinlock"

def spinlockRelease (l : Lock) : VM Unit := letGo l "KASSERT: spinlock_do_i_hold"

def lockAcquire (l : Lock) : VM Unit := grab l "KASSERT: !(lock_do_i_hold(lock))"

def lockRelease (l : Lock) : VM Unit := letGo l "KASSERT: lock_do_i_hold(lock)"

/-- `checkcanLock() == 0`: no spinlock is held on this CPU. The threads
modelled here never run in an interrupt handler. -/
def canLock : VM Bool := Prog.exec fun t s => .ok (!s.spinning t, s)

def canSleep : VM Unit :=
  Prog.exec fun t s =>
    if s.spinning t then .panic "KASSERT: curcpu->c_spinlocks == 0" else .ok ((), s)

/-! ## vmstats.c -/

/-- `counters[index]++`. -/
def Sys.bump (s : Sys) (i : Stat) : Sys :=
  { s with counters := Function.update s.counters i (wrap (s.counters i + 1)) }

/-- `vm_stats_inc`: under `stats_lock` where a sleep lock may be taken, bare otherwise. -/
def vmStatsInc (i : Stat) : VM Unit := do
  if ← canLock then
    lockAcquire .stats
    Prog.modify (·.bump i)
    lockRelease .stats
  else
    Prog.modify (·.bump i)

/-! ## vm_tlb.c -/

/-- `paddr | (readOnly ? 0 : TLBLO_DIRTY) | TLBLO_VALID`. -/
def tlbLo (paddr : Nat) (readOnly : Bool) : Nat :=
  paddr ||| (if readOnly then 0 else 0x400) ||| 0x200

def Sys.tlbWrite (s : Sys) (i : Nat) (e : TlbEntry) : Sys :=
  { s with tlb := s.tlb.set i e }

/-- `tlb_probe(vaddr, 0)`: the slot whose tag matches, valid or not. -/
def tlbProbe (tlb : List TlbEntry) (vaddr : Nat) : Option Nat :=
  tlb.findIdx? fun e => e.vpage == pageFrame vaddr

/-- The search of `tlb_loadentry` for the first slot that is not valid. -/
def tlbFree (tlb : List TlbEntry) : Option Nat := tlb.findIdx? fun e => !e.valid

/-- The slot `tlb_loadentry` writes, and which counter it bumps: the first
invalid one unless `tlb_full` is set, else the round-robin victim of
`tlb_get_rr_victim`. -/
def tlbLoad (s : Sys) (e : TlbEntry) : Stat × Sys :=
  match if s.tlbFull then none else tlbFree s.tlb with
  | some i => (.tlbFaultWithFree, s.tlbWrite i e)
  | none =>
      (.tlbFaultWithReplace,
        { s.tlbWrite s.nextVictim e with
          tlbFull := true
          nextVictim := (s.nextVictim + 1) % numTlb })

/-- `tlb_loadentry`. It always succeeds: `tlb_full` is set on the way to the
replacement branch, so the last return is never reached. -/
def tlbLoadentry (faultaddress paddr : Nat) (readOnly : Bool) : VM (Option Errno) := do
  let i ← Prog.exec fun _ s => .ok (tlbLoad s ⟨faultaddress, tlbLo paddr readOnly⟩)
  vmStatsInc i
  return none

def emptyTlb : List TlbEntry := (List.range numTlb).map TlbEntry.invalid

def tlbInvalidate : VM Unit := do
  Prog.modify fun s => { s with tlb := emptyTlb }
  vmStatsInc .tlbInvalidation

/-- The effect of `tlb_invalidate_vaddr` on the TLB. -/
def Sys.tlbDrop (s : Sys) (vaddr : Nat) : Sys :=
  match tlbProbe s.tlb vaddr with
  | some i => s.tlbWrite i (.invalid i)
  | none => s

def tlbInvalidateVaddr (vaddr : Nat) : VM Unit := Prog.modify (·.tlbDrop vaddr)

end Os161Paging
