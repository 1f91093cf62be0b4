import Os161Paging.Balance
import Os161Paging.Demand
import Os161Paging.Statistics

/-!
# Device errors in the fault handler

`vm_fault` stores what `swap_in` and `load_elf_ondemand` return in the
variable that it then overwrites with the result of `tlb_loadentry`. Which
reads of a device end in an error is up to the world; here it is settled what
the handler makes of them.
-/

namespace Os161Paging

open Prog

variable {t : Tid} {s s' : Sys} {a : AsId} {i fa : Nat} {seg : Segment} {last : Bool}

/-! ## The read -/

/-- `vm_fault`, once it has found the page, up to its call of `swap_in` or
`load_elf_ondemand`: what that call returns, and no error where there is none. -/
def pageInResult (a : AsId) (i : Nat) (seg : Segment) (last : Bool) (faultaddress : Nat) :
    VM (Option Errno) := do
  let e ← getPte a i
  if e.inMem then
    return none
  else if e.inSwap then
    lockRelease (.pt a)
    let newPaddr ← getPages 1 faultaddress (some a)
    lockAcquire (.pt a)
    swapIn a i newPaddr true
  else
    ensureFrame a i faultaddress
    let e ← getPte a i
    if last then return none else loadElfOndemand a seg e.paddr faultaddress

/-- The bytes of the executable `load_elf_ondemand` asks for do not depend on the
frame they go to. -/
theorem ondemandArgs_request (seg : Segment) (fa p : Nat) :
    (ondemandArgs seg p fa).offset = (ondemandArgs seg 0 fa).offset ∧
      (ondemandArgs seg p fa).filesize = (ondemandArgs seg 0 fa).filesize ∧
      (ondemandArgs seg p fa).memsize = (ondemandArgs seg 0 fa).memsize := by
  simp only [ondemandArgs]
  split <;> exact ⟨rfl, rfl, rfl⟩

/-- The next read of the executable `v`, as `load_elf_ondemand` would make it for
the page at `fa`, fails or comes up short. -/
def Sys.NextLoadFails (s : Sys) (v : File) (seg : Segment) (fa : Nat) : Prop :=
  s.elfResult v (ondemandArgs seg 0 fa).offset
    (min (ondemandArgs seg 0 fa).filesize (ondemandArgs seg 0 fa).memsize) ≠ none

/-- The page has to be read from a device, the swap file or the executable, and
the next read of that device ends in an error. -/
def ReadFails (s : Sys) (a : AsId) (i : Nat) (seg : Segment) (last : Bool) (fa : Nat) : Prop :=
  ∃ e as, s.pte a i = some e ∧ s.as a = some as ∧ e.inMem = false ∧
    if e.inSwap then s.NextReadFails else last = false ∧ s.NextLoadFails as.v seg fa

theorem readFails_iff {e : PtEntry} {as : Addrspace} (he : s.pte a i = some e)
    (has : s.as a = some as) :
    ReadFails s a i seg last fa ↔ e.inMem = false ∧
      if e.inSwap then s.NextReadFails else last = false ∧ s.NextLoadFails as.v seg fa := by
  constructor
  · rintro ⟨e', as', he', has', h⟩
    obtain rfl := Option.some.inj (he.symm.trans he')
    obtain rfl := Option.some.inj (has.symm.trans has')
    exact h
  · exact fun h => ⟨e, as, he, has, h⟩

theorem ensureFrame_leaves_filling :
    (ensureFrame a i fa).Leaves (fun s => (s.elfReads, s.world, (s.as a).map (·.v))) t := by
  have hmod : ∀ (s : Sys) g, ((s.modPte a i g).as a).map (·.v) = (s.as a).map (·.v) := by
    intro s g
    simp only [Sys.modPte, Function.update_self, Option.map_map]
    rfl
  refine .bind getPte_leaves fun e => .ite ?_ (.pure _)
  refine .bind (fun s r s' h => ?_) fun _ => .bind (fun s r s' h => ?_) fun p =>
    .bind (updPte_leaves fun s => ?_) fun _ => fun s r s' h => ?_
  · rw [(lockRelease_eq_ok.mp h).2]
    rfl
  · have hkeep := unaffected_filling.getPage s _ _ h
    simp only [Prod.mk.injEq] at hkeep
    simp only [hkeep]
  · simp only [hmod]
    rfl
  · rw [(lockAcquire_eq_ok.mp h).2]
    rfl

/-- The call returns an error exactly if the device does. -/
theorem pageInResult_error_iff {res : Option Errno}
    (h : (pageInResult a i seg last fa).run t s = .ok (res, s')) :
    res ≠ none ↔ ReadFails s a i seg last fa := by
  obtain ⟨e, s1, h1, h⟩ := run_bind_eq_ok.mp h
  obtain ⟨he, hs1⟩ := getPte_eq_ok.mp h1
  rw [hs1] at h
  obtain ⟨as, has, -⟩ := Option.bind_eq_some_iff.mp he
  rw [readFails_iff he has]
  cases hm : e.inMem with
  | true =>
      rw [hm, if_pos rfl] at h
      simp [(pure_eq_ok.mp h).1]
  | false =>
      simp only [hm, Bool.false_eq_true, if_false] at h
      cases hsw : e.inSwap with
      | true =>
          rw [hsw, if_pos rfl] at h
          obtain ⟨_, _, h2, h⟩ := run_bind_eq_ok.mp h
          obtain ⟨-, rfl⟩ := lockRelease_eq_ok.mp h2
          obtain ⟨p, s3, h3, h⟩ := run_bind_eq_ok.mp h
          obtain ⟨_, _, h4, h⟩ := run_bind_eq_ok.mp h
          obtain ⟨-, rfl⟩ := lockAcquire_eq_ok.mp h4
          have hkeep := unaffected_swapReads.getPage (s.drop (.pt a)) _ _ h3
          simp only [Prod.mk.injEq] at hkeep
          have hres : res = s3.world.swapRead s3.swapReads := (swapIn_owner h).2.1
          rw [hres, hkeep.1, hkeep.2]
          simp [Sys.NextReadFails, Sys.drop]
      | false =>
          simp only [hsw, Bool.false_eq_true, if_false] at h
          obtain ⟨_, s2, h2, h⟩ := run_bind_eq_ok.mp h
          obtain ⟨e', _, h3, h⟩ := run_bind_eq_ok.mp h
          rw [(getPte_eq_ok.mp h3).2] at h
          cases last with
          | true =>
              rw [if_pos rfl] at h
              simp [(pure_eq_ok.mp h).1]
          | false =>
              simp only [Bool.false_eq_true, if_false] at h
              obtain ⟨as', has', hres, -⟩ := loadSegment_exe_eq_ok.mp h
              have hkeep := ensureFrame_leaves_filling s _ _ h2
              simp only [Prod.mk.injEq, has, has', Option.map_some, Option.some.injEq] at hkeep
              obtain ⟨helf, hworld, hv⟩ := hkeep
              obtain ⟨ho, hf, hmem⟩ := ondemandArgs_request seg fa e'.paddr
              rw [ho, hf, hmem, Sys.elfResult, helf, hworld, hv] at hres
              simp [hres, Sys.NextLoadFails, Sys.elfResult]

/-! ## What becomes of the error -/

theorem pageIn_inMem {u : Unit} (h : (pageIn a i seg last fa).run t s = .ok (u, s')) :
    ∃ e, s'.pte a i = some e ∧ e.inMem = true := by
  obtain ⟨e, s1, h1, h⟩ := run_bind_eq_ok.mp h
  obtain ⟨he, hs1⟩ := getPte_eq_ok.mp h1
  rw [hs1] at h
  cases hm : e.inMem with
  | true =>
      rw [hm, if_pos rfl] at h
      obtain ⟨-, rfl⟩ := vmStatsInc_eq_ok.mp h
      exact ⟨e, he, hm⟩
  | false =>
      simp only [hm, Bool.false_eq_true, if_false] at h
      obtain ⟨_, s2, -, h⟩ := run_bind_eq_ok.mp h
      obtain ⟨hsome, rfl⟩ := updPte_eq_ok.mp h
      obtain ⟨e2, he2⟩ := Option.isSome_iff_exists.mp hsome
      exact ⟨_, by rw [Sys.pte_modPte_self, he2, Option.map_some], rfl⟩

/-- A fault that is served returns 0 and says that the page is in memory. -/
theorem faultAt_success {r : Option Errno} (h : (faultAt a i seg last fa).run t s = .ok (r, s')) :
    r = none ∧ ∃ e, s'.pte a i = some e ∧ e.inMem = true := by
  obtain ⟨_, s1, h1, h⟩ := run_bind_eq_ok.mp h
  obtain ⟨e, _, h2, h⟩ := run_bind_eq_ok.mp h
  rw [(getPte_eq_ok.mp h2).2] at h
  obtain ⟨res, s3, h3, h⟩ := run_bind_eq_ok.mp h
  obtain ⟨_, _, h4, h⟩ := run_bind_eq_ok.mp h
  obtain ⟨-, rfl⟩ := lockRelease_eq_ok.mp h4
  obtain ⟨hr, rfl⟩ := pure_eq_ok.mp h
  have hpte : s3.pte a i = s1.pte a i := tlbLoadentry_leaves (f := fun s => s.pte a i)
    (fun _ _ => rfl) (fun _ _ _ _ => rfl) s1 _ _ h3
  have hres : res = none := by
    obtain ⟨st, _, -, h3⟩ := run_bind_eq_ok.mp h3
    obtain ⟨_, _, -, h3⟩ := run_bind_eq_ok.mp h3
    exact (pure_eq_ok.mp h3).1
  refine ⟨hr.trans hres, ?_⟩
  change ∃ e, s3.pte a i = some e ∧ e.inMem = true
  rw [hpte]
  exact pageIn_inMem h1

/-- A fault on the page `i` of the current address space either does not return or
returns 0 with the page marked as being in memory. -/
theorem vmFault_success {ty : FaultType} {va : Nat} {as : Addrspace} {r : Option Errno}
    (hty : ty = .read ∨ ty = .write) (hcur : s.cur = some a) (has : s.as a = some as)
    (hlook : as.lookup (pageFrame va) = some (i, seg, last))
    (h : (vmFault ty va).run t s = .ok (r, s')) :
    r = none ∧ ∃ e, s'.pte a i = some e ∧ e.inMem = true := by
  obtain ⟨hnone, -⟩ | ⟨a', as', i', seg', last', hcur', has', hlook', -, hrest⟩ := vmFault_cases h
  · rw [hcur] at hnone
    cases hnone
  · obtain rfl := Option.some.inj (hcur.symm.trans hcur')
    obtain rfl := Option.some.inj (has.symm.trans has')
    cases hlook.symm.trans hlook'
    obtain ⟨⟨c, rfl⟩, -⟩ | ⟨-, hat⟩ := hrest
    · rcases hty with h | h <;> cases h
    · exact faultAt_success hat

/-- The state in which `vm_fault` has found the page and holds `pt_lock`. -/
def Sys.found (s : Sys) (t : Tid) (a : AsId) : Sys := (s.bump .tlbFault).take t (.pt a)

/-- If the call of `swap_in` or `load_elf_ondemand` returns an error, `vm_fault`
returns an error, installs no translation for the page, and leaves the page out
of memory and where it was in the swap file. -/
def Reported (t : Tid) (s : Sys) (ty : FaultType) (va : Nat) (a : AsId) (i : Nat) (seg : Segment)
    (last : Bool) : Prop :=
  ∀ err s1, (pageInResult a i seg last (pageFrame va)).run t (s.found t a) = .ok (some err, s1) →
    ∃ r s' e e', (vmFault ty va).run t s = .ok (some r, s') ∧
      (∀ x ∈ s'.tlb, x.valid = true → x.vpage = pageFrame va → x ∈ s.tlb) ∧
      s.pte a i = some e ∧ s'.pte a i = some e' ∧ e'.inMem = false ∧
      (e.inSwap = true → e'.inSwap = true ∧ e'.paddr = e.paddr)

/-- **No failed page-in is reported**: for every fault on a page of the current
address space that gets as far as the read, the error is reported and the page
left as it was if and only if the read does not fail. Where it fails, the fault
that returns has returned 0 with the page marked as being in memory. -/
theorem failed_read_reported_iff {ty : FaultType} {va : Nat} {as : Addrspace}
    {res : Option Errno} (hty : ty = .read ∨ ty = .write) (hcur : s.cur = some a)
    (has : s.as a = some as) (hlook : as.lookup (pageFrame va) = some (i, seg, last))
    (hres : (pageInResult a i seg last (pageFrame va)).run t (s.found t a) = .ok (res, s')) :
    (Reported t s ty va a i seg last ↔ ¬ ReadFails s a i seg last (pageFrame va)) ∧
      ∀ r s1, (vmFault ty va).run t s = .ok (r, s1) →
        r = none ∧ ∃ e, s1.pte a i = some e ∧ e.inMem = true := by
  have hret : ∀ r s1, (vmFault ty va).run t s = .ok (r, s1) →
      r = none ∧ ∃ e, s1.pte a i = some e ∧ e.inMem = true :=
    fun _ _ => vmFault_success hty hcur has hlook
  have herr : res ≠ none ↔ ReadFails s a i seg last (pageFrame va) :=
    pageInResult_error_iff (s := s.found t a) hres
  refine ⟨?_, hret⟩
  rw [← herr, not_not]
  cases res with
  | none =>
      refine iff_of_true (fun err s1 h => ?_) rfl
      rw [hres] at h
      cases h
  | some err =>
      refine iff_of_false (fun hrep => ?_) nofun
      obtain ⟨r, s1, e, e', hrun, -⟩ := hrep err s' hres
      cases (hret (some r) s1 hrun).1

/-! ## A page lost -/

/-- The process with a single frame, after it has touched two of its pages: the
first one is in slot 0 of the swap file. -/
def firstSwapped (w : World) : Option Sys :=
  (Statistics.tight w).bind fun s =>
    ([0x10000000, 0x10001000].foldlM (fun c fa => Statistics.readFault fa c) ⟨s, 0⟩).map (·.sys)

def dataSegment : Segment := ⟨0x10000000, 0x3000, 0x10, 3, 6, 0x2000, 0⟩

def Swapped (s : Sys) : Prop :=
  s.cur = some 0 ∧
    (∃ as, s.as 0 = some as ∧ as.lookup (pageFrame 0x10000000) = some (2, dataSegment, false)) ∧
    s.pte 0 2 = some ⟨0, 0x10000000, false, true, 6⟩

theorem firstSwapped_swapped {w : World}
    (h : (firstSwapped w).any (fun s => s.cur == some 0 &&
      (s.as 0).any (·.lookup (pageFrame 0x10000000) == some (2, dataSegment, false)) &&
      s.pte 0 2 == some ⟨0, 0x10000000, false, true, 6⟩) = true) :
    ∃ s, firstSwapped w = some s ∧ Swapped s := by
  obtain ⟨s, hs, h⟩ := (Option.any_eq_true _ _).mp h
  simp only [Bool.and_eq_true, beq_iff_eq, Option.any_eq_true] at h
  exact ⟨s, hs, h.1.1, h.1.2, h.2⟩

/-- With a disk that cannot be read, the page comes back as being in the frame
whose address is its slot number, 0, and the fault returns 0. -/
theorem failed_read_unreported :
    ∃ s s', firstSwapped Statistics.deadDisk = some s ∧ Swapped s ∧
      (vmFault .read 0x10000000).run (.proc 0) s = .ok (none, s') ∧
      s'.pte 0 2 = some ⟨0, 0x10000000, true, false, 6⟩ ∧
      ⟨0x10000000, tlbLo 0 false⟩ ∈ s'.tlb ∧
      ¬ Reported (.proc 0) s .read 0x10000000 0 2 dataSegment false := by
  obtain ⟨s, hs, hsw⟩ := firstSwapped_swapped (w := Statistics.deadDisk) (by decide +kernel)
  have hfault : (firstSwapped Statistics.deadDisk).all (fun s => decide
      (((vmFault .read 0x10000000).run (.proc 0) s).Sat fun x => x.1 = none ∧
        x.2.pte 0 2 = some ⟨0, 0x10000000, true, false, 6⟩ ∧
        ⟨0x10000000, tlbLo 0 false⟩ ∈ x.2.tlb)) = true := by decide +kernel
  have hread : (firstSwapped Statistics.deadDisk).all (fun s => decide
      (((pageInResult 0 2 dataSegment false (pageFrame 0x10000000)).run (.proc 0)
        (s.found (.proc 0) 0)).Sat fun x => x.1 = some (.dev 5))) = true := by decide +kernel
  rw [hs, Option.all_some, decide_eq_true_iff] at hfault hread
  obtain ⟨⟨r, s'⟩, hrun, rfl, hpte, htlb⟩ := hfault
  obtain ⟨⟨res, s1⟩, hres, rfl⟩ := hread
  refine ⟨s, s', hs, hsw, hrun, hpte, htlb, fun hrep => ?_⟩
  obtain ⟨r, s2, e, e', hsome, -⟩ := hrep _ s1 hres
  cases hrun.symm.trans hsome

theorem calm_read_reported :
    ∃ s, firstSwapped .calm = some s ∧ Swapped s ∧
      Reported (.proc 0) s .read 0x10000000 0 2 dataSegment false := by
  obtain ⟨s, hs, hsw⟩ := firstSwapped_swapped (w := .calm) (by decide +kernel)
  have hread : (firstSwapped .calm).all (fun s => decide
      ((s.world.swapRead s.swapReads = none) ∧
        ((pageInResult 0 2 dataSegment false (pageFrame 0x10000000)).run (.proc 0)
          (s.found (.proc 0) 0)).Sat fun _ => True)) = true := by decide +kernel
  rw [hs, Option.all_some, decide_eq_true_iff] at hread
  obtain ⟨hnone, ⟨res, s1⟩, hres, -⟩ := hread
  obtain ⟨hcur, ⟨as, has, hlook⟩, hpte⟩ := hsw
  refine ⟨s, hs, ⟨hcur, ⟨as, has, hlook⟩, hpte⟩,
    (failed_read_reported_iff (.inl rfl) hcur has hlook hres).1.mpr fun hfail => ?_⟩
  exact ((readFails_iff hpte has).mp hfail).2 hnone

end Os161Paging
