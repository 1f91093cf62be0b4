import Os161Paging.Balance

/-!
# Starting a program

What `as_prepare_load` and `load_elf` leave in the address space when they
succeed, as equations for their sequential runs.
-/

namespace Os161Paging

open Prog

variable {t : Tid} {s s' : Sys} {a : AsId}

/-! ## as_define_region -/

structure RegionArgs where
  vaddr : Nat
  memsize : Nat
  filesize : Nat
  readable : Nat
  writeable : Nat
  executable : Nat
  offset : Nat

def RegionArgs.segment (g : RegionArgs) : Segment :=
  .define g.vaddr g.memsize g.filesize g.readable g.writeable g.executable g.offset

/-- One call of `as_define_region` after the other, up to the first that fails. -/
def defineRegions (a : AsId) : List RegionArgs → VM (Option Errno)
  | [] => pure none
  | g :: gs => do
      match ← asDefineRegion a g.vaddr g.memsize g.filesize g.readable g.writeable g.executable
          g.offset with
      | some e => return some e
      | none => defineRegions a gs

/-- Successful calls add their segments to the list and do nothing else. -/
theorem defineRegions_eq_none {gs : List RegionArgs} {x : Addrspace} (hx : s.as a = some x)
    (h : (defineRegions a gs).run t s = .ok (none, s')) :
    s' = { s with
      kmallocs := s.kmallocs + gs.length
      as := Function.update s.as a
        (some { x with asSegment := x.asSegment ++ gs.map RegionArgs.segment }) } := by
  induction gs generalizing s x with
  | nil =>
      obtain ⟨-, rfl⟩ := pure_eq_ok.mp h
      simp [← hx]
  | cons g gs ih =>
      obtain ⟨r, s1, h1, h⟩ := run_bind_eq_ok.mp h
      obtain ⟨-, rfl, -⟩ | ⟨-, rfl, y, hy, rfl⟩ := asDefineRegion_cases h1
      · exact absurd (pure_eq_ok.mp h).1 nofun
      · obtain rfl := Option.some.inj (hx.symm.trans hy)
        rw [ih (Function.update_self ..) h]
        simp only [Function.update_idem, List.length_cons, List.map_cons, RegionArgs.segment,
          List.append_assoc, List.singleton_append, Nat.add_assoc, Nat.add_comm 1]

/-! ## as_prepare_load -/

def Addrspace.withStack (x : Addrspace) : Addrspace :=
  { x with
    asSegment := x.asSegment ++ [stackSegment]
    npages := some (totalPages (x.asSegment ++ [stackSegment])) }

def Addrspace.prepared (x : Addrspace) (loc : Nat) : Addrspace :=
  { x.withStack with asPt := some loc, pt := freshPt (x.asSegment ++ [stackSegment]) }

def Sys.beforeTable (s : Sys) (t : Tid) (a : AsId) (x : Addrspace) : Sys :=
  { s with
    kmallocs := s.kmallocs + 1
    as := Function.update s.as a (some x.withStack) }.take t (.pt a)

@[simp] theorem Sys.beforeTable_as {x : Addrspace} :
    (s.beforeTable t a x).as a = some x.withStack := Function.update_self ..

/-- `ptAlloc` changes the coremap, and at most keeps its lock. -/
theorem ptAlloc_eq {n p : Nat} (h : (ptAlloc n).run t s = .ok (p, s')) :
    ∃ cm o, s' = { s with coremap := cm, owner := o } := by
  obtain ⟨-, ⟨-, -, rfl⟩ | ⟨-, -, first, -, -, rfl⟩ | ⟨-, -, i, -, -, rfl⟩ | ⟨-, -, -, -, rfl⟩⟩ :=
    ptAlloc_cases h
  · exact ⟨_, _, rfl⟩
  · exact ⟨_, _, rfl⟩
  · exact ⟨_, _, rfl⟩
  · exact ⟨_, _, rfl⟩

theorem mem_freshPt {segs : List Segment} {e : PtEntry} (h : e ∈ freshPt segs) :
    e.inMem = false ∧ e.inSwap = false ∧ e.paddr = 0 := by
  simp only [freshPt, List.mem_flatMap, Segment.entries, List.mem_map] at h
  obtain ⟨seg, -, k, -, rfl⟩ := h
  exact ⟨rfl, rfl, rfl⟩

/-- The ways `as_prepare_load` can return: it could not define the stack, `ptAlloc`
returned 0, or it added the stack to the segments, laid the page table out and put
it in the block that `ptAlloc` returned. -/
theorem asPrepareLoad_cases {r : Option Errno} (h : (asPrepareLoad a).run t s = .ok (r, s')) :
    (r = some .ENOMEM ∧ s' = { s with kmallocs := s.kmallocs + 1 }) ∨
      ∃ x loc s2, s.as a = some x ∧ s.owner (.pt a) = none ∧
        (ptAlloc (totalPages (x.asSegment ++ [stackSegment]))).run t (s.beforeTable t a x) =
          .ok (loc, s2) ∧
        (loc = 0 ∧ r = some .ENOMEM ∧ s' = s2 ∨
          loc ≠ 0 ∧ r = none ∧
            sizeofPtEntry * (freshPt (x.asSegment ++ [stackSegment])).length ≤
              ptBytes (totalPages (x.asSegment ++ [stackSegment])) ∧
            s' = (s2.setAs a (x.prepared loc)).drop (.pt a)) := by
  obtain ⟨err, s1, h1, h⟩ := run_bind_eq_ok.mp h
  obtain ⟨-, rfl, rfl⟩ | ⟨-, rfl, x, hx, rfl⟩ := asDefineRegion_cases h1
  · exact .inl (pure_eq_ok.mp h)
  · obtain ⟨n, s2, h2, h⟩ := run_bind_eq_ok.mp h
    obtain ⟨x1, hx1, rfl, rfl⟩ := setNpages_eq_ok.mp h2
    simp only [Function.update_self, Option.some.injEq] at hx1
    subst hx1
    obtain ⟨_, _, h3, h⟩ := run_bind_eq_ok.mp h
    obtain ⟨hpt, rfl⟩ := lockAcquire_eq_ok.mp h3
    obtain ⟨loc, s4, h4, h⟩ := run_bind_eq_ok.mp h
    have hst : ((({ s with
        kmallocs := s.kmallocs + 1
        as := Function.update s.as a (some { x with
          asSegment := x.asSegment ++ [stackSegment] }) } : Sys).setAs a x.withStack).take t
          (.pt a)) = s.beforeTable t a x := by
      simp only [Sys.setAs, Sys.beforeTable, Function.update_idem]
    have h4' : (ptAlloc (totalPages (x.asSegment ++ [stackSegment]))).run t
        (s.beforeTable t a x) = .ok (loc, s4) := hst ▸ h4
    refine .inr ⟨x, loc, s4, hx, hpt, h4', ?_⟩
    split at h
    · next hloc => exact .inl ⟨hloc, pure_eq_ok.mp h⟩
    · next hloc =>
        obtain ⟨_, _, h5, h⟩ := run_bind_eq_ok.mp h
        obtain ⟨x2, hx2, hfits, rfl⟩ := installPt_eq_ok.mp h5
        obtain ⟨_, _, h6, h⟩ := run_bind_eq_ok.mp h
        obtain ⟨-, rfl⟩ := lockRelease_eq_ok.mp h6
        obtain ⟨rfl, rfl⟩ := pure_eq_ok.mp h
        obtain ⟨cm, o, hs4⟩ := ptAlloc_eq h4'
        have has : (s.beforeTable t a x).as a = some x2 := by rwa [hs4] at hx2
        obtain rfl := Option.some.inj (Sys.beforeTable_as.symm.trans has)
        exact .inr ⟨hloc, rfl, hfits, rfl⟩

/-! ## load_elf -/

/-- The segment `load_elf` defines for a header. -/
def Phdr.segment (ph : Phdr) : Segment :=
  .define ph.vaddr ph.memsz ph.filesz (ph.flags &&& pfR) (ph.flags &&& pfW) (ph.flags &&& pfX)
    ph.offset

def loads (phs : List Phdr) : List Phdr := phs.filter (·.ptype == .load)

theorem readHeader_as {offset n : Nat} {r : Option Errno}
    (h : (readHeader a offset n).run t s = .ok (r, s')) : s'.as = s.as := by
  rw [readHeader, run_exec] at h
  cases hx : s.as a with
  | none => simp [hx] at h
  | some x =>
      cases hr : s.world.elfRead s.elfReads <;> simp [hx, hr] at h <;> rw [← h.2]

theorem loadPhdrs_eq_none {e : Elf} {i : Nat} {phs : List Phdr} {x : Addrspace}
    (hx : s.as a = some x) (h : (loadPhdrs a e i phs).run t s = .ok (none, s')) :
    s'.as a = some { x with asSegment := x.asSegment ++ (loads phs).map Phdr.segment } := by
  induction phs generalizing i s x with
  | nil =>
      obtain ⟨-, rfl⟩ := pure_eq_ok.mp h
      simpa [loads] using hx
  | cons ph phs ih =>
      obtain ⟨r, s1, h1, h⟩ := run_bind_eq_ok.mp h
      rw [← readHeader_as h1] at hx
      cases r with
      | some err => exact absurd (pure_eq_ok.mp h).1 nofun
      | none =>
          cases hty : ph.ptype with
          | load =>
              simp only [hty] at h
              obtain ⟨r, s2, h2, h⟩ := run_bind_eq_ok.mp h
              obtain ⟨-, rfl, -⟩ | ⟨-, rfl, x1, hx1, rfl⟩ := asDefineRegion_cases h2
              · exact absurd (pure_eq_ok.mp h).1 nofun
              · obtain rfl := Option.some.inj (hx.symm.trans hx1)
                rw [ih (Function.update_self ..) h]
                simp [loads, hty, Phdr.segment]
          | other c =>
              simp only [hty] at h
              exact absurd (pure_eq_ok.mp h).1 nofun
          | null =>
              simp only [hty] at h
              simpa [loads, hty] using ih hx h
          | phdr =>
              simp only [hty] at h
              simpa [loads, hty] using ih hx h
          | mipsReginfo =>
              simp only [hty] at h
              simpa [loads, hty] using ih hx h

/-- A successful `load_elf` in a fresh address space leaves one segment for each
`PT_LOAD` header, the stack, and the page table for them. -/
theorem loadElf_eq_ok {e : Elf} {entry : Nat} {x : Addrspace} (hx : s.as a = some x)
    (h : (loadElf a e).run t s = .ok (.ok entry, s')) :
    ∃ loc, s'.as a =
      some ({ x with asSegment := x.asSegment ++ (loads e.phdrs).map Phdr.segment }.prepared
        loc) := by
  obtain ⟨r, s1, h1, h⟩ := run_bind_eq_ok.mp h
  rw [← readHeader_as h1] at hx
  cases r with
  | some err => exact absurd (pure_eq_ok.mp h).1 nofun
  | none =>
      simp only at h
      split at h
      · obtain ⟨r, s2, h2, h⟩ := run_bind_eq_ok.mp h
        cases r with
        | some err => exact absurd (pure_eq_ok.mp h).1 nofun
        | none =>
            have hx2 := loadPhdrs_eq_none hx h2
            obtain ⟨r, s3, h3, h⟩ := run_bind_eq_ok.mp h
            cases r with
            | some err => exact absurd (pure_eq_ok.mp h).1 nofun
            | none =>
                obtain ⟨-, rfl⟩ := pure_eq_ok.mp h
                obtain ⟨hr, -⟩ | ⟨y, loc, s4, hy, -, -, ⟨-, hr, -⟩ | ⟨-, -, -, rfl⟩⟩ :=
                  asPrepareLoad_cases h3
                · cases hr
                · cases hr
                · obtain rfl := Option.some.inj (hx2.symm.trans hy)
                  exact ⟨loc, Function.update_self ..⟩
      · exact absurd (pure_eq_ok.mp h).1 nofun

end Os161Paging
