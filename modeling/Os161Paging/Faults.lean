import Os161Paging.Footprint

/-!
# A page fault, taken apart

`vm_fault` first finds the page-table entry it is about and then, for a
read or a write, brings the page in and loads the TLB. The lookup only reads;
it is separated here from the part that does the work.
-/

namespace Os161Paging

open Prog

/-- What `vm_fault` looks up: the index of the entry, its segment, and whether
that is the last one. -/
def Addrspace.lookup (as : Addrspace) (fa : Nat) : Option (Nat × Segment × Bool) :=
  match walkSegments fa as.asSegment 0 with
  | some (seg, np, last) => (scanSlice as.pt fa np seg.npages).map fun i => (i, seg, last)
  | none => none

variable {t : Tid} {s s' : Sys}

/-- A call of `vm_fault` that returns: there is no address space, the fault type
is none it knows, or it went on to serve the fault. -/
theorem vmFault_cases {ty : FaultType} {fa : Nat} {r : Option Errno}
    (h : (vmFault ty fa).run t s = .ok (r, s')) :
    (s.cur = none ∧ r = some .EFAULT ∧ s' = s.bump .tlbFault) ∨
      ∃ a as i seg last, s.cur = some a ∧ s.as a = some as ∧
        as.lookup (pageFrame fa) = some (i, seg, last) ∧ s.owner (.pt a) = none ∧
        ((∃ c, ty = .other c) ∧ r = some .EINVAL ∧ s' = s.bump .tlbFault ∨
          (ty = .read ∨ ty = .write) ∧
            (faultAt a i seg last (pageFrame fa)).run t ((s.bump .tlbFault).take t (.pt a)) =
              .ok (r, s')) := by
  obtain ⟨_, _, h1, h⟩ := run_bind_eq_ok.mp h
  obtain ⟨-, rfl⟩ := vmStatsInc_eq_ok.mp h1
  obtain ⟨cur, _, h2, h⟩ := run_bind_eq_ok.mp h
  obtain ⟨hcur, rfl⟩ := gets_eq_ok.mp h2
  cases cur with
  | none =>
      obtain ⟨rfl, rfl⟩ := pure_eq_ok.mp h
      exact .inl ⟨hcur.symm, rfl, rfl⟩
  | some a =>
      obtain ⟨⟨seg, np, last⟩, _, h3, h⟩ := run_bind_eq_ok.mp h
      obtain ⟨⟨as, has, hwalk⟩, rfl⟩ := findSegment_eq_ok.mp h3
      obtain ⟨_, _, h4, h⟩ := run_bind_eq_ok.mp h
      obtain ⟨hpt, rfl⟩ := lockAcquire_eq_ok.mp h4
      obtain ⟨found, _, h5, h⟩ := run_bind_eq_ok.mp h
      obtain ⟨⟨as', has', -, hscan⟩, rfl⟩ := findPage_eq_ok.mp h5
      obtain rfl := Option.some.inj (has.symm.trans has')
      cases found with
      | none =>
          obtain ⟨_, _, -, h⟩ := run_bind_eq_ok.mp h
          exact (fail_eq_ok.mp h).elim
      | some i =>
          refine .inr ⟨a, as, i, seg, last, hcur.symm, has, ?_, hpt, ?_⟩
          · rw [Addrspace.lookup, hwalk]
            simp only [← hscan, Option.map_some]
          · cases ty with
            | readonly =>
                obtain ⟨_, _, -, h⟩ := run_bind_eq_ok.mp h
                exact (fail_eq_ok.mp h).elim
            | other c =>
                obtain ⟨_, _, h6, h⟩ := run_bind_eq_ok.mp h
                obtain ⟨-, rfl⟩ := lockRelease_eq_ok.mp h6
                obtain ⟨rfl, rfl⟩ := pure_eq_ok.mp h
                exact .inl ⟨⟨c, rfl⟩, rfl, Sys.take_drop hpt⟩
            | read => exact .inr ⟨.inl rfl, h⟩
            | write => exact .inr ⟨.inr rfl, h⟩

end Os161Paging
