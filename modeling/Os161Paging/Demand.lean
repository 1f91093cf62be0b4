import Os161Paging.Lookup

/-!
# Loading pages on demand

The first fault on a page, and any later one on a read-only page that was
discarded, fills a frame from the executable or clears it. The contents
that result are computed here from the segment, as `as_define_region`
made it from a program header, and compared with what the page should hold.
-/

namespace Os161Paging

open Prog

variable {t : Tid} {s s' : Sys} {a : AsId} {i : Nat}

/-! ## The fault as a whole -/

/-- The physical memory after the page of `fa` has been filled at `p`. -/
def Sys.filledRam (s : Sys) (v : File) (seg : Segment) (last : Bool) (fa p : Nat) : Mem :=
  if last then s.ram.bzero p pageSize
  else
    (s.readElf v (ondemandArgs seg p fa).offset (ondemandArgs seg p fa).paddr
      (min (ondemandArgs seg p fa).filesize (ondemandArgs seg p fa).memsize)).ram

/-- What the allocation of a frame leaves alone and the filling of it depends on. -/
theorem unaffected_filling :
    Unaffected a fun s => (s.ram, s.elfReads, s.world, (s.as a).map (·.v)) := by
  refine ⟨?_, fun _ _ => rfl, fun _ _ _ _ _ => rfl⟩
  constructor <;> intros <;> try rfl
  simp only [Sys.modPte, Function.update_self, Option.map_map]
  rfl

theorem pageInFresh_spec {e : PtEntry} {as : Addrspace} {seg : Segment} {last : Bool} {fa : Nat}
    {u : Unit} (hact : s.coremapActive = true) (has : s.as a = some as)
    (he : s.pte a i = some e) (hz : e.paddr = 0)
    (h : (pageInFresh a i seg last fa).run t s = .ok (u, s')) :
    ∃ f e', f < s.coremapSize ∧ s'.pte a i = some e' ∧ e'.paddr = s.frameAddr f ∧
      s'.ram = s.filledRam as.v seg last fa (s.frameAddr f) := by
  obtain ⟨_, s1, h1, h⟩ := run_bind_eq_ok.mp h
  -- a frame is allocated with `pt_lock` given up, and entered in the page table
  obtain ⟨e0, _, h2, h1⟩ := run_bind_eq_ok.mp h1
  obtain ⟨he0, hs2⟩ := getPte_eq_ok.mp h2
  obtain rfl := Option.some.inj (he.symm.trans he0)
  rw [hs2, if_pos hz] at h1
  obtain ⟨_, _, h3, h1⟩ := run_bind_eq_ok.mp h1
  obtain ⟨-, rfl⟩ := lockRelease_eq_ok.mp h3
  obtain ⟨p, s3, h4, h1⟩ := run_bind_eq_ok.mp h1
  obtain ⟨_, _, h5, h1⟩ := run_bind_eq_ok.mp h1
  obtain ⟨hsome, rfl⟩ := updPte_eq_ok.mp h5
  obtain ⟨-, rfl⟩ := lockAcquire_eq_ok.mp h1
  obtain ⟨f, hf, hp⟩ := getPage_frame (s := s.drop (.pt a)) hact h4
  have hkeep := unaffected_filling.getPage (s.drop (.pt a)) _ _ h4
  simp only [Prod.mk.injEq] at hkeep
  obtain ⟨hram, helf, hworld, hv⟩ := hkeep
  obtain ⟨e3, he3⟩ := Option.isSome_iff_exists.mp hsome
  -- it is then filled
  obtain ⟨e4, s4, h6, h⟩ := run_bind_eq_ok.mp h
  obtain ⟨he4, hs4⟩ := getPte_eq_ok.mp h6
  have hpte : (s3.modPte a i fun e => { e with paddr := p }).pte a i =
      some { e3 with paddr := p } := by rw [Sys.pte_modPte_self, he3]; rfl
  obtain rfl : { e3 with paddr := p } = e4 := Option.some.inj (hpte.symm.trans he4)
  rw [hs4] at h
  cases last with
  | true =>
      obtain ⟨_, _, h7, h⟩ := run_bind_eq_ok.mp h
      obtain rfl := modify_eq_ok.mp h7
      obtain ⟨-, rfl⟩ := vmStatsInc_eq_ok.mp h
      refine ⟨f, _, hf, hpte, hp, ?_⟩
      have hbz : s3.ram.bzero p pageSize = s.ram.bzero (s.frameAddr f) pageSize := by
        rw [hram, hp]
        rfl
      exact hbz
  | false =>
      obtain ⟨_, s5, h7, h⟩ := run_bind_eq_ok.mp h
      obtain ⟨as3, has3, -, rfl⟩ := loadSegment_exe_eq_ok.mp h7
      obtain ⟨_, _, h8, h⟩ := run_bind_eq_ok.mp h
      obtain ⟨-, rfl⟩ := vmStatsInc_eq_ok.mp h8
      obtain ⟨-, rfl⟩ := vmStatsInc_eq_ok.mp h
      refine ⟨f, _, hf, hpte, hp, ?_⟩
      have hv3 : as3.v = as.v := by
        have hv1 : ((s3.modPte a i fun e => { e with paddr := p }).as a).map (·.v) =
            (s3.as a).map (·.v) := by
          simp only [Sys.modPte, Function.update_self, Option.map_map]
          rfl
        have has3' : (s3.modPte a i fun e => { e with paddr := p }).as a = some as3 := has3
        rw [has3', hv, show (s.drop (.pt a)).as a = some as from has] at hv1
        exact Option.some.inj hv1
      have hread : ∀ x y n, (Sys.readElf ((s3.modPte a i fun e => { e with paddr := p }).take t
          (.pt a)) as3.v x y n).ram = (s.readElf as.v x y n).ram := by
        intro x y n
        simp only [Sys.readElf, Sys.take, Sys.modPte, hram, helf, hworld, hv3]
        rfl
      rw [hp] at hread ⊢
      exact hread _ _ _

/-- **A fault on a page that is neither in memory nor in the swap file**: the
entry gets a frame, and the frame is filled. -/
theorem vmFault_fresh {e : PtEntry} {as : Addrspace} {seg : Segment} {last : Bool} {fa : Nat}
    {ty : FaultType} {r : Option Errno} (hact : s.coremapActive = true)
    (hty : ty = .read ∨ ty = .write) (hcur : s.cur = some a) (has : s.as a = some as)
    (hlook : as.lookup (pageFrame fa) = some (i, seg, last)) (he : as.pt[i]? = some e)
    (hm : e.inMem = false) (hsw : e.inSwap = false) (hz : e.paddr = 0)
    (h : (vmFault ty fa).run t s = .ok (r, s')) :
    ∃ f e', f < s.coremapSize ∧ s'.pte a i = some e' ∧ e'.paddr = s.frameAddr f ∧
      s'.ram = s.filledRam as.v seg last (pageFrame fa) (s.frameAddr f) := by
  obtain ⟨hno, -, -⟩ | ⟨a', as', i', seg', last', hcur', has', hlook', hpt, hrest⟩ :=
    vmFault_cases h
  · rw [hno] at hcur
    cases hcur
  obtain rfl := Option.some.inj (hcur.symm.trans hcur')
  obtain rfl := Option.some.inj (has.symm.trans has')
  obtain ⟨rfl, rfl, rfl⟩ : i = i' ∧ seg = seg' ∧ last = last' := by
    simpa [hlook] using hlook'
  rcases hrest with ⟨⟨c, rfl⟩, -, -⟩ | ⟨-, h⟩
  · simp at hty
  obtain ⟨_, s1, h1, h⟩ := run_bind_eq_ok.mp h
  obtain ⟨e1, _, h2, h1⟩ := run_bind_eq_ok.mp h1
  obtain ⟨he1, hs2⟩ := getPte_eq_ok.mp h2
  have hpte : ((s.bump .tlbFault).take t (.pt a)).pte a i = some e := by
    have hp : s.pte a i = some e := by rw [Sys.pte, has]; exact he
    exact hp
  obtain rfl := Option.some.inj (hpte.symm.trans he1)
  rw [hs2, hm] at h1
  simp only [Bool.false_eq_true, if_false, fetch, hsw] at h1
  obtain ⟨_, s3, h3, h1⟩ := run_bind_eq_ok.mp h1
  obtain ⟨f, e', hf, he', hp, hram⟩ :=
    pageInFresh_spec (s := (s.bump .tlbFault).take t (.pt a)) hact has hpte hz h3
  obtain ⟨-, rfl⟩ := updPte_eq_ok.mp h1
  -- loading the TLB changes neither the entry nor the memory
  have hrest : (do
      let e ← getPte a i
      let result ← tlbLoadentry (pageFrame fa) e.paddr (!e.writable)
      lockRelease (.pt a)
      return result : VM (Option Errno)).Leaves (fun s => (s.as, s.ram)) t := by
    refine .bind getPte_leaves fun e => .bind (tlbLoadentry_leaves (fun _ _ => rfl)
      fun _ _ _ _ => rfl) fun _ => .bind (fun s r s' h => ?_) fun _ => .pure _
    rw [(lockRelease_eq_ok.mp h).2]
    rfl
  have hkeep := hrest _ _ _ h
  simp only [Prod.mk.injEq] at hkeep
  refine ⟨f, { e' with inMem := true }, hf, ?_, hp, hkeep.2.trans hram⟩
  rw [Sys.pte, hkeep.1]
  have hpte' : (s3.modPte a i fun e => { e with inMem := true }).pte a i =
      some { e' with inMem := true } := by rw [Sys.pte_modPte_self, he']; rfl
  exact hpte'

/-! ## Regions -/

/-- The arguments of a call of `as_define_region` that do not overflow. -/
structure Region where
  vaddr : Nat
  memsize : Nat
  filesize : Nat
  readable : Nat
  writeable : Nat
  executable : Nat
  offset : Nat
  noWrap : vaddr + memsize + pageSize ≤ 2 ^ 32

namespace Region

variable (g : Region)

def segment : Segment :=
  .define g.vaddr g.memsize g.filesize g.readable g.writeable g.executable g.offset

/-- `initoffset`: how far into its first page the region starts. -/
def shift : Nat := g.vaddr % pageSize

theorem segment_start : g.segment.start = g.vaddr - g.shift := rfl

theorem segment_size : g.segment.size = (g.shift + g.memsize + 4095) / 4096 * 4096 := by
  have := g.noWrap
  simp only [segment, Segment.define, pageFrame, pageOffset, wrap, shift, pageSize_eq] at *
  omega

theorem segment_npages : g.segment.npages = (g.shift + g.memsize + 4095) / 4096 := by
  have h : g.segment.npages = g.segment.size / pageSize := rfl
  rw [h, segment_size, pageSize_eq, Nat.mul_div_cancel _ (by decide)]

theorem shift_lt : g.shift < 4096 := Nat.mod_lt _ (by decide)

theorem segment_bound : g.segment.start + g.segment.size + 4096 ≤ 2 ^ 32 := by
  have := g.noWrap
  rw [segment_start, segment_size]
  simp only [shift, pageSize_eq] at *
  omega

theorem segment_aligned : g.segment.start % 4096 = 0 := by
  rw [segment_start, shift, pageSize_eq]
  omega

variable {g} {k p fa : Nat} (hk : k < g.segment.npages)
  (hfa : fa = g.segment.start + k * pageSize)
include hk hfa

/-- The distance `load_elf_ondemand` computes from the start of the segment, and
what is left of the segment there. -/
theorem ondemand_distance :
    pageFrame (wrap (pageFrame fa + 2 ^ 32 - g.segment.start)) = k * 4096 ∧
      4096 ≤ wrap (g.segment.size + 2 ^ 32 - k * 4096) := by
  have hb := g.segment_bound
  have hal := g.segment_aligned
  have hsize : k * 4096 + 4096 ≤ g.segment.size := by
    rw [segment_npages] at hk
    rw [segment_size]
    omega
  simp only [wrap, pageFrame, pageSize_eq] at *
  generalize g.segment.start = st at *
  generalize g.segment.size = sz at *
  omega

/-- On the first page, `load_elf_ondemand` reads the rest of the page, whatever the
size of the part that is in the file. -/
theorem ondemandArgs_first (hp : p + pageSize ≤ 2 ^ 32) (h0 : k = 0) :
    ondemandArgs g.segment p fa =
      ⟨g.offset, p + g.shift, pageSize - g.shift, pageSize - g.shift⟩ := by
  obtain ⟨hamt, hleft⟩ := ondemand_distance hk hfa
  have hsh := g.shift_lt
  have hinit : g.segment.initoffset = g.shift := rfl
  have hoff : g.segment.offset = g.offset := rfl
  simp only [h0, Nat.zero_mul] at hamt hleft
  simp only [ondemandArgs, hamt, hinit, hoff, if_true, pageSize_eq] at *
  rw [show (if wrap (g.segment.size + 2 ^ 32 - 0) > 4096 then 4096
    else wrap (g.segment.size + 2 ^ 32 - 0)) = 4096 by split <;> omega]
  simp only [wrap, OndemandArgs.mk.injEq]
  omega

/-- On the other pages, it reads what is left of the file part, from a page
boundary of the file region. -/
theorem ondemandArgs_rest (h0 : k ≠ 0) :
    ondemandArgs g.segment p fa =
      ⟨g.offset + k * pageSize, p, pageSize, min (g.filesize - k * pageSize) pageSize⟩ := by
  obtain ⟨hamt, hleft⟩ := ondemand_distance hk hfa
  have hoff : g.segment.offset = g.offset := rfl
  have hfs : g.segment.filesize = g.filesize := rfl
  have hne : ¬ k * 4096 = 0 := by omega
  simp only [ondemandArgs, hamt, hoff, hfs, hne, if_false, pageSize_eq, OndemandArgs.mk.injEq]
  refine ⟨trivial, trivial, ?_, ?_⟩
  · split <;> omega
  · split
    · omega
    · split <;> omega

end Region

/-! ## What the page holds -/

theorem Mem.copy_add {m src : Mem} {p c o off n : Nat} :
    m.copy (p + c) src off n (p + o) =
      if c ≤ o ∧ o - c < n then src (off + (o - c)) else m (p + o) := by
  have hiff : (p + c ≤ p + o ∧ p + o < p + c + n) ↔ (c ≤ o ∧ o - c < n) := by omega
  have hsub : p + o - (p + c) = o - c := by omega
  simp only [Mem.copy, hiff, hsub]

theorem Mem.copy_page {m src : Mem} {p o off n : Nat} :
    m.copy p src off n (p + o) = if o < n then src (off + o) else m (p + o) := by
  simpa using Mem.copy_add (m := m) (p := p) (c := 0) (o := o) (n := n)

def Sys.withRam (s : Sys) (m : Mem) : Sys := { s with ram := m }

/-- A read or write fault of the running process on page `k` of a region, with no
contents in memory or in the swap file. -/
structure FreshFault (s : Sys) (ty : FaultType) (fa : Nat) where
  a : AsId
  as : Addrspace
  i : Nat
  e : PtEntry
  region : Region
  last : Bool
  k : Nat
  geometry : s.Geometry
  type : ty = .read ∨ ty = .write
  cur : s.cur = some a
  has : s.as a = some as
  lookup : as.lookup (pageFrame fa) = some (i, region.segment, last)
  page : k < region.segment.npages
  address : pageFrame fa = region.segment.start + k * pageSize
  entry : as.pt[i]? = some e
  untouched : e.inMem = false ∧ e.inSwap = false ∧ e.paddr = 0

namespace FreshFault

variable {ty : FaultType} {fa : Nat} (F : FreshFault s ty fa)

/-- The byte written at offset `o` of the page; `none` where the old contents of
the frame stay. -/
def source (o : Nat) : Option Byte :=
  if F.last then some 0
  else if s.world.elfRead s.elfReads ≠ none then none
  else if F.k = 0 then
    if F.region.shift ≤ o ∧
        o - F.region.shift < F.as.v.avail F.region.offset (pageSize - F.region.shift) then
      some (F.as.v.byte (F.region.offset + (o - F.region.shift)))
    else none
  else if o < F.as.v.avail (F.region.offset + F.k * pageSize)
      (min (F.region.filesize - F.k * pageSize) pageSize) then
    some (F.as.v.byte (F.region.offset + F.k * pageSize + o))
  else none

variable {F} in
/-- **The contents of a page that was faulted in**: byte by byte what was written, or
what the frame held before. -/
theorem byte_eq {m : Mem} {r : Option Errno} {e' : PtEntry} {o : Nat}
    (h : (vmFault ty fa).run t (s.withRam m) = .ok (r, s'))
    (he' : s'.pte F.a F.i = some e') (ho : o < pageSize) :
    s'.ram (e'.paddr + o) = (F.source o).getD (m (e'.paddr + o)) := by
  obtain ⟨hm, hsw, hz⟩ := F.untouched
  obtain ⟨f, e1, hf, he1, hp, hram⟩ := vmFault_fresh (s := s.withRam m)
    F.geometry.active F.type F.cur F.has F.lookup F.entry hm hsw hz h
  obtain rfl := Option.some.inj (he'.symm.trans he1)
  change f < s.coremapSize at hf
  change e'.paddr = s.frameAddr f at hp
  have hbound : s.frameAddr f + pageSize ≤ 2 ^ 32 := by
    have hmul : (f + 1) * pageSize ≤ s.coremapSize * pageSize := Nat.mul_le_mul_right _ hf
    have := F.geometry.fits
    rw [F.geometry.frameAddr_eq (Nat.le_of_lt hf)]
    simp only [pageSize_eq] at *
    omega
  rw [hram, hp]
  change (s.withRam m).filledRam F.as.v F.region.segment F.last (pageFrame fa)
    (s.frameAddr f) (s.frameAddr f + o) = _
  generalize s.frameAddr f = p at hbound
  rw [Sys.filledRam, source]
  cases F.last with
  | true =>
      simp only [if_true, Mem.bzero, Option.getD_some]
      rw [if_pos ⟨Nat.le_add_right p o, Nat.add_lt_add_left ho p⟩]
  | false =>
      have hfill : ∀ x y n, ((s.withRam m).readElf F.as.v x y n).ram =
          if s.world.elfRead s.elfReads = none then m.copy y F.as.v.byte x (F.as.v.avail x n)
          else m := fun _ _ _ => rfl
      simp only [Bool.false_eq_true, if_false, hfill]
      by_cases hread : s.world.elfRead s.elfReads = none
      · rw [if_pos hread, if_neg (not_not.mpr hread)]
        by_cases hk : F.k = 0
        · rw [Region.ondemandArgs_first F.page F.address hbound hk, if_pos hk]
          simp only [Nat.min_self, Mem.copy_add]
          split <;> rfl
        · rw [Region.ondemandArgs_rest F.page F.address hk, if_neg hk]
          simp only [Nat.min_eq_left (Nat.min_le_right _ _), Mem.copy_page]
          split <;> rfl
      · rw [if_neg hread, if_pos hread]
        rfl

/-- The page has the same contents whatever the frame held before, and is zero
outside of the part of the region that is in the file. No part of the stack, the last
segment, is in a file. -/
structure RevealsNothing (t : Tid) : Prop where
  same : ∀ m m' r r' s1 s1' e e', (vmFault ty fa).run t (s.withRam m) = .ok (r, s1) →
    (vmFault ty fa).run t (s.withRam m') = .ok (r', s1') →
    s1.pte F.a F.i = some e → s1'.pte F.a F.i = some e' →
    s1.ram.page e.paddr = s1'.ram.page e'.paddr
  zero : ∀ m r s1 e (o : Fin pageSize), (vmFault ty fa).run t (s.withRam m) = .ok (r, s1) →
    s1.pte F.a F.i = some e →
    (pageFrame fa + o < F.region.vaddr ∨
      F.region.vaddr + F.region.filesize ≤ pageFrame fa + o) →
    s1.ram.page e.paddr o = 0
  stack : F.last = true → ∀ m r s1 e (o : Fin pageSize),
    (vmFault ty fa).run t (s.withRam m) = .ok (r, s1) → s1.pte F.a F.i = some e →
    s1.ram.page e.paddr o = 0

/-- Every byte of the page is written: the page belongs to the last segment, or it is
read whole from the file. The first page is read up to its end, so what follows
the file part in the file must be zero. -/
def Determined : Prop :=
  F.last = true ∨ s.world.elfRead s.elfReads = none ∧
    (F.k = 0 ∧ F.region.shift = 0 ∧ F.region.offset + pageSize ≤ F.as.v.size ∧
        (∀ o, F.region.filesize ≤ o → o < pageSize → F.as.v.byte (F.region.offset + o) = 0) ∨
      F.k ≠ 0 ∧ (F.k + 1) * pageSize ≤ F.region.filesize ∧
        F.region.offset + (F.k + 1) * pageSize ≤ F.as.v.size)

def Outside (o : Nat) : Prop :=
  pageFrame fa + o < F.region.vaddr ∨
    F.region.vaddr + F.region.filesize ≤ pageFrame fa + o

theorem source_of_determined (h : F.Determined) {o : Nat} (ho : o < pageSize) :
    ∃ b, F.source o = some b ∧ (F.Outside o → b = 0) := by
  obtain hlast | ⟨hread, ⟨hk, hsh, hsize, hbytes⟩ | ⟨hk, hfs, hsize⟩⟩ := h
  · exact ⟨0, by rw [source, if_pos hlast], fun _ => rfl⟩
  all_goals
    by_cases hlast : F.last = true
    · exact ⟨0, by rw [source, if_pos hlast], fun _ => rfl⟩
    rw [source, if_neg hlast, if_neg (not_not.mpr hread)]
  · have hav : F.region.shift ≤ o ∧
        o - F.region.shift < F.as.v.avail F.region.offset (pageSize - F.region.shift) := by
      rw [File.avail]
      omega
    refine ⟨_, by rw [if_pos hk, if_pos hav], ?_⟩
    intro hout
    have haddr : pageFrame fa = F.region.vaddr := by
      rw [F.address, hk, Region.segment_start, hsh]
      omega
    rw [Outside, haddr] at hout
    rw [hsh, Nat.sub_zero]
    exact hbytes o (by omega) ho
  · have hav : o < F.as.v.avail (F.region.offset + F.k * pageSize)
        (min (F.region.filesize - F.k * pageSize) pageSize) := by
      rw [File.avail]
      simp only [pageSize_eq] at *
      omega
    refine ⟨_, by rw [if_neg hk, if_pos hav], ?_⟩
    intro hout
    have haddr := F.address
    have hst := F.region.segment_start
    have hle : F.region.shift ≤ F.region.vaddr := Nat.mod_le _ _
    rw [Outside, haddr, hst] at hout
    simp only [pageSize_eq] at *
    have hsh := F.region.shift_lt
    omega

theorem determined_of_source (h : ∀ o < pageSize, F.source o ≠ none)
    (hz : ∀ o < pageSize, F.Outside o → F.source o = some 0) : F.Determined := by
  by_cases hlast : F.last = true
  · exact .inl hlast
  have hread : s.world.elfRead s.elfReads = none := by
    by_contra hread
    exact h 0 (by decide) (by rw [source, if_neg hlast, if_pos hread])
  refine .inr ⟨hread, ?_⟩
  have hsrc : ∀ o, F.source o = if F.k = 0 then
      if F.region.shift ≤ o ∧
          o - F.region.shift < F.as.v.avail F.region.offset (pageSize - F.region.shift) then
        some (F.as.v.byte (F.region.offset + (o - F.region.shift)))
      else none
    else if o < F.as.v.avail (F.region.offset + F.k * pageSize)
        (min (F.region.filesize - F.k * pageSize) pageSize) then
      some (F.as.v.byte (F.region.offset + F.k * pageSize + o))
    else none := fun o => by rw [source, if_neg hlast, if_neg (not_not.mpr hread)]
  by_cases hk : F.k = 0
  · simp only [hsrc, if_pos hk] at h hz
    -- the first byte shows that nothing is skipped, the last one that the file is long enough
    have hfirst := h 0 (by decide)
    have hlastb := h 4095 (by decide)
    simp only [ne_eq, ite_eq_right_iff, reduceCtorEq, imp_false, not_not] at hfirst hlastb
    have hsh : F.region.shift = 0 := by omega
    rw [File.avail, hsh, pageSize_eq] at hlastb
    refine .inl ⟨hk, hsh, by rw [pageSize_eq]; omega, fun o hfs ho => ?_⟩
    have haddr : pageFrame fa = F.region.vaddr := by
      rw [F.address, hk, Region.segment_start, hsh]
      omega
    have hb := hz o ho (.inr (by rw [haddr]; omega))
    rw [hsh, if_pos ⟨by omega, by rw [File.avail]; simp only [pageSize_eq] at *; omega⟩] at hb
    simpa using hb
  · simp only [hsrc, if_neg hk] at h
    have hlastb := h 4095 (by decide)
    simp only [ne_eq, ite_eq_right_iff, reduceCtorEq, imp_false, not_not] at hlastb
    simp only [File.avail, pageSize_eq] at hlastb
    refine .inr ⟨hk, ?_, ?_⟩ <;> rw [pageSize_eq] <;> omega

end FreshFault

namespace FreshFault

variable {ty : FaultType} {fa : Nat} {F : FreshFault s ty fa}

theorem exists_pte {m : Mem} {r : Option Errno}
    (h : (vmFault ty fa).run t (s.withRam m) = .ok (r, s')) : ∃ e, s'.pte F.a F.i = some e := by
  obtain ⟨hm, hsw, hz⟩ := F.untouched
  obtain ⟨-, e, -, he, -⟩ := vmFault_fresh (s := s.withRam m) F.geometry.active F.type F.cur
    F.has F.lookup F.entry hm hsw hz h
  exact ⟨e, he⟩

theorem revealsNothing_of_determined (hD : F.Determined) : F.RevealsNothing t := by
  refine ⟨fun m m' r r' s1 s1' e e' h h' he he' => funext fun o => ?_,
    fun m r s1 e o h he hout => ?_, fun hlast m r s1 e o h he => ?_⟩
  · obtain ⟨b, hb, -⟩ := F.source_of_determined hD o.isLt
    rw [Mem.page, Mem.page, byte_eq h he o.isLt, byte_eq h' he' o.isLt, hb]
    rfl
  · obtain ⟨b, hb, hzero⟩ := F.source_of_determined hD o.isLt
    rw [Mem.page, byte_eq h he o.isLt, hb]
    exact hzero hout
  · rw [Mem.page, byte_eq h he o.isLt, source, if_pos hlast]
    rfl

/-- Two runs, over a memory of zeros and a memory of ones, tell every byte that is not
written. -/
theorem determined_of_revealsNothing
    (hret : ∀ m, ∃ r s', (vmFault ty fa).run t (s.withRam m) = .ok (r, s'))
    (hN : F.RevealsNothing t) : F.Determined := by
  obtain ⟨r0, s0, h0⟩ := hret fun _ => 0
  obtain ⟨r1, s1, h1⟩ := hret fun _ => 1
  obtain ⟨e0, he0⟩ := F.exists_pte h0
  obtain ⟨e1, he1⟩ := F.exists_pte h1
  have hsome : ∀ o < pageSize, F.source o ≠ none := by
    intro o ho hnone
    have hpage := congrFun (hN.same _ _ _ _ _ _ _ _ h0 h1 he0 he1) ⟨o, ho⟩
    have hb0 := byte_eq h0 he0 ho
    have hb1 := byte_eq h1 he1 ho
    rw [hnone] at hb0 hb1
    rw [Mem.page, Mem.page, hb0, hb1] at hpage
    exact absurd hpage (by decide)
  refine F.determined_of_source hsome fun o ho hout => ?_
  have hzero := hN.zero _ _ _ _ ⟨o, ho⟩ h0 he0 hout
  rw [Mem.page, byte_eq h0 he0 ho] at hzero
  cases hs : F.source o with
  | none => exact absurd hs (hsome o ho)
  | some b =>
      rw [hs] at hzero
      exact congrArg some hzero

end FreshFault

/-! ## A fault that does return -/

theorem vmStatsInc_run {st : Stat} (h : s.owner .stats = none) :
    (vmStatsInc st).run t s = .ok ((), s.bump st) := vmStatsInc_eq_ok.mpr ⟨.inr h, rfl⟩

/-- With the other locks free and a free frame, the page is brought in. -/
theorem pageInFresh_returns {e : PtEntry} {as : Addrspace} {seg : Segment} {last : Bool}
    {fa f : Nat} (hl : ∀ l, l ≠ .pt a → s.owner l = none) (hpt : s.owner (.pt a) = some t)
    (hact : s.coremapActive = true) (has : s.as a = some as) (he : s.pte a i = some e)
    (hz : e.paddr = 0) (hfree : firstFree s.coremap = some f) :
    ∃ s' e', (pageInFresh a i seg last fa).run t s = .ok ((), s') ∧ s'.owner = s.owner ∧
      s'.pte a i = some e' := by
  -- the frame is allocated, entered in the page table, and `pt_lock` taken back
  obtain ⟨p, hget⟩ : ∃ p, (getPages 1 fa (some a)).run t (s.drop (.pt a)) =
      .ok (p, (s.drop (.pt a)).claim f false fa (some a)) := by
    refine ⟨_, getPage_run_some (s := s.drop (.pt a)) hact ?_ hfree⟩
    have hne : Lock.coremap ≠ .pt a := by simp
    rw [Sys.drop_owner_of_ne hne, hl _ hne]
  let s1 := (((s.drop (.pt a)).claim f false fa (some a)).modPte a i
    fun e => { e with paddr := p }).take t (.pt a)
  have hpte : s1.pte a i = some { e with paddr := p } := by
    have hp : ((s.drop (.pt a)).claim f false fa (some a)).pte a i = some e := he
    have := Sys.pte_modPte_self (s := (s.drop (.pt a)).claim f false fa (some a)) (a := a) (j := i)
      (f := fun e => { e with paddr := p })
    rw [hp] at this
    exact this
  have hown : s1.owner = s.owner := by
    have ho : s1.owner = ((s.drop (.pt a)).take t (.pt a)).owner := rfl
    rw [ho, Sys.take, Sys.drop]
    simp only [Function.update_idem, ← hpt, Function.update_eq_self]
  have hensure : (ensureFrame a i fa).run t s = .ok ((), s1) := by
    refine run_bind_eq_ok.mpr ⟨e, s, getPte_eq_ok.mpr ⟨he, rfl⟩, ?_⟩
    rw [if_pos hz]
    refine run_bind_eq_ok.mpr ⟨(), _, lockRelease_eq_ok.mpr ⟨hpt, rfl⟩, ?_⟩
    refine run_bind_eq_ok.mpr ⟨_, _, hget, ?_⟩
    refine run_bind_eq_ok.mpr ⟨(), _, updPte_eq_ok.mpr ⟨?_, rfl⟩, ?_⟩
    · have hp : ((s.drop (.pt a)).claim f false fa (some a)).pte a i = some e := he
      rw [hp]
      rfl
    · exact lockAcquire_eq_ok.mpr ⟨Sys.drop_owner_self (s := s), rfl⟩
  have hstats : s1.owner .stats = none := by
    rw [hown]
    exact hl _ (by simp)
  cases last with
  | true =>
      refine ⟨{ s1 with ram := s1.ram.bzero p pageSize }.bump .pageFaultZeroed, _,
        run_bind_eq_ok.mpr ⟨(), s1, hensure, ?_⟩, hown, hpte⟩
      refine run_bind_eq_ok.mpr ⟨_, _, getPte_eq_ok.mpr ⟨hpte, rfl⟩, ?_⟩
      refine run_bind_eq_ok.mpr ⟨(), _, modify_eq_ok.mpr rfl, ?_⟩
      exact vmStatsInc_run hstats
  | false =>
      obtain ⟨as1, has1⟩ : ∃ as1, s1.as a = some as1 :=
        ⟨as.modifyPte i fun e => { e with paddr := p }, by
          have : s1.as a = (s.as a).map fun as =>
            as.modifyPte i fun e => { e with paddr := p } := Function.update_self ..
          rw [this, has]
          rfl⟩
      obtain ⟨r, s2, hload, hown2, hpte2⟩ : ∃ r s2,
          (loadElfOndemand a seg p fa).run t s1 = .ok (r, s2) ∧ s2.owner = s1.owner ∧
            s2.pte a i = s1.pte a i :=
        ⟨_, _, loadSegment_exe_eq_ok.mpr ⟨as1, has1, rfl, rfl⟩, rfl, rfl⟩
      have hstats2 : s2.owner .stats = none := by rw [hown2, hstats]
      refine ⟨(s2.bump .elfRead).bump .pageFaultDisk, _,
        run_bind_eq_ok.mpr ⟨(), s1, hensure, ?_⟩, hown2.trans hown, hpte2.trans hpte⟩
      refine run_bind_eq_ok.mpr ⟨_, _, getPte_eq_ok.mpr ⟨hpte, rfl⟩, ?_⟩
      refine run_bind_eq_ok.mpr ⟨_, _, hload, ?_⟩
      refine run_bind_eq_ok.mpr ⟨(), _, vmStatsInc_run hstats2, ?_⟩
      exact vmStatsInc_run hstats2

theorem vmFault_fresh_returns {e : PtEntry} {as : Addrspace} {seg : Segment} {last : Bool}
    {ty : FaultType} {fa np f : Nat} (hl : ∀ l, s.owner l = none)
    (hact : s.coremapActive = true) (hty : ty = .read ∨ ty = .write) (hcur : s.cur = some a)
    (has : s.as a = some as)
    (hwalk : walkSegments (pageFrame fa) as.asSegment 0 = some (seg, np, last))
    (hbound : np + seg.npages ≤ as.pt.length)
    (hscan : scanSlice as.pt (pageFrame fa) np seg.npages = some i) (he : as.pt[i]? = some e)
    (hm : e.inMem = false) (hsw : e.inSwap = false) (hz : e.paddr = 0)
    (hfree : firstFree s.coremap = some f) :
    ∃ r s', (vmFault ty fa).run t s = .ok (r, s') := by
  -- the state in which the page is looked at, with `pt_lock` held
  let s1 := (s.bump .tlbFault).take t (.pt a)
  have hpte1 : s1.pte a i = some e := by
    have hp : s.pte a i = some e := by rw [Sys.pte, has]; exact he
    exact hp
  have hl1 : ∀ l, l ≠ .pt a → s1.owner l = none := by
    intro l hne
    rw [Sys.take_owner_of_ne hne]
    exact hl l
  obtain ⟨s2, e2, hin, hown, hpte2⟩ : ∃ s' e',
      (pageInFresh a i seg last (pageFrame fa)).run t s1 = .ok ((), s') ∧ s'.owner = s1.owner ∧
        s'.pte a i = some e' :=
    pageInFresh_returns hl1 Sys.take_owner_self hact has hpte1 hz hfree
  have hpage : (pageIn a i seg last (pageFrame fa)).run t s1 =
      .ok ((), s2.modPte a i fun e => { e with inMem := true }) := by
    refine run_bind_eq_ok.mpr ⟨e, s1, getPte_eq_ok.mpr ⟨hpte1, rfl⟩, ?_⟩
    rw [if_neg (by simp [hm])]
    refine run_bind_eq_ok.mpr ⟨(), s2, ?_, updPte_eq_ok.mpr ⟨by rw [hpte2]; rfl, rfl⟩⟩
    rw [fetch, if_neg (by simp [hsw])]
    exact hin
  have hpte3 : (s2.modPte a i fun e => { e with inMem := true }).pte a i =
      some { e2 with inMem := true } := by rw [Sys.pte_modPte_self, hpte2]; rfl
  -- the TLB is loaded and `pt_lock` given up
  obtain ⟨r, s3, hat⟩ : ∃ r s3,
      (faultAt a i seg last (pageFrame fa)).run t s1 = .ok (r, s3) := by
    let entry : TlbEntry := ⟨pageFrame fa, tlbLo e2.paddr (!e2.writable)⟩
    obtain ⟨st, s3, hload⟩ : ∃ st s3,
        tlbLoad (s2.modPte a i fun e => { e with inMem := true }) entry = (st, s3) := ⟨_, _, rfl⟩
    have hown3 : s3.owner = s1.owner := by
      have ho := @tlbLoad_owner (s2.modPte a i fun e => { e with inMem := true }) entry
      rw [hload] at ho
      exact ho.trans hown
    refine ⟨none, (s3.bump st).drop (.pt a), run_bind_eq_ok.mpr ⟨(), _, hpage, ?_⟩⟩
    refine run_bind_eq_ok.mpr ⟨_, _, getPte_eq_ok.mpr ⟨hpte3, rfl⟩, ?_⟩
    refine run_bind_eq_ok.mpr ⟨none, s3.bump st, run_bind_eq_ok.mpr ⟨st, s3,
      (run_exec ..).trans (congrArg Outcome.ok hload),
      run_bind_eq_ok.mpr ⟨(), _, vmStatsInc_run ?_, rfl⟩⟩, ?_⟩
    · rw [hown3]
      exact hl1 _ (by simp)
    refine run_bind_eq_ok.mpr ⟨(), _, lockRelease_eq_ok.mpr ⟨?_, rfl⟩, rfl⟩
    exact (congrFun hown3 _).trans Sys.take_owner_self
  refine ⟨r, s3, run_bind_eq_ok.mpr ⟨(), _, vmStatsInc_run (hl _), ?_⟩⟩
  refine run_bind_eq_ok.mpr ⟨_, _, gets_eq_ok.mpr ⟨hcur.symm, rfl⟩, ?_⟩
  refine run_bind_eq_ok.mpr ⟨_, _, findSegment_eq_ok.mpr ⟨⟨as, has, hwalk⟩, rfl⟩, ?_⟩
  refine run_bind_eq_ok.mpr ⟨(), _, lockAcquire_eq_ok.mpr ⟨hl _, rfl⟩, ?_⟩
  refine run_bind_eq_ok.mpr ⟨_, _, findPage_eq_ok.mpr ⟨⟨as, has, hbound, hscan.symm⟩, rfl⟩, ?_⟩
  rcases hty with rfl | rfl
  · exact hat
  · exact hat

/-! ## On-demand loading against loading at once -/

/-- An empty region at the very end of the address space. -/
def topRegion : Region := ⟨0xfffff000, 0, 0, pfR, 0, 0, 0, by decide⟩

def program (g : Region) (v : File) : Addrspace :=
  let segs := [g.segment, topRegion.segment, stackSegment]
  ⟨some pageSize, freshPt segs, segs, v, some (totalPages segs)⟩

def running (g : Region) (v : File) : Sys :=
  { oneFrame with as := fun _ => some (program g v), cur := some 0 }

theorem running_fault {g : Region} {v : File} {k : Nat} (hk : k < g.segment.npages) :
    ∃ F : FreshFault (running g v) .read (g.segment.start + k * pageSize),
      F.region = g ∧ F.last = false ∧ F.k = k ∧ F.as.v = v ∧
      ∀ t m, ∃ r s', (vmFault .read (g.segment.start + k * pageSize)).run t
        ((running g v).withRam m) = .ok (r, s') := by
  have hb := g.segment_bound
  have hal := g.segment_aligned
  have hsize : (k + 1) * 4096 ≤ g.segment.size := by
    rw [Region.segment_npages] at hk
    rw [Region.segment_size]
    exact Nat.mul_le_mul_right _ hk
  have hfa : pageFrame (g.segment.start + k * pageSize) = g.segment.start + k * pageSize := by
    rw [pageFrame, pageSize_eq]
    omega
  have hwalk : walkSegments (pageFrame (g.segment.start + k * pageSize))
      (program g v).asSegment 0 = some (g.segment, 0, false) := by
    have htop : topRegion.segment.start = 0xfffff000 := by decide
    have hlt : g.segment.start + k * pageSize < topRegion.segment.start := by
      rw [htop, pageSize_eq]
      omega
    simp only [program, walkSegments, hfa, hlt, if_true]
  obtain ⟨e0, he0, hv0⟩ : ∃ e, (program g v).pt[k]? = some e ∧
      e.vaddr = wrap (g.segment.start + k * pageSize) := by
    obtain ⟨e, he, hv, -⟩ := freshPt_entry [] [topRegion.segment, stackSegment] hk
    exact ⟨e, by simpa [program] using he, hv⟩
  have hwrap : wrap (g.segment.start + k * pageSize) =
      pageFrame (g.segment.start + k * pageSize) := by
    rw [hfa, wrap, pageSize_eq]
    omega
  obtain ⟨i, hscan⟩ := Option.ne_none_iff_exists'.mp
    (scanSlice_ne_none (n := g.segment.npages) (Nat.zero_le k) (by omega) he0 (hv0.trans hwrap))
  obtain ⟨-, -, e, he, -⟩ := scanSlice_eq_some hscan
  obtain ⟨hm, hsw, hz⟩ := mem_freshPt (List.mem_of_getElem? he)
  have hlook : (program g v).lookup (pageFrame (g.segment.start + k * pageSize)) =
      some (i, g.segment, false) := by
    rw [Addrspace.lookup, hwalk]
    simp only [hscan, Option.map_some]
  have hlen : 0 + g.segment.npages ≤ (program g v).pt.length := by
    simp [program, freshPt, Segment.entries]
  refine ⟨⟨0, program g v, i, e, g, false, k, oneFrame_geometry.congr rfl rfl rfl, .inl rfl, rfl,
    rfl, hlook, hk, hfa, he, hm, hsw, hz⟩, rfl, rfl, rfl, rfl, fun t m => ?_⟩
  have hfree : firstFree oneFrame.coremap = some 0 := by decide
  exact vmFault_fresh_returns (s := (running g v).withRam m) (a := 0) (fun _ => rfl) rfl (.inl rfl)
    rfl rfl hwalk hlen hscan he hm hsw hz hfree

/-- After any fault on a page of the region, each byte of its file part is the byte
of the file that loading the whole region would put there. -/
def Region.LoadsAsWhole (g : Region) : Prop :=
  ∀ (t : Tid) (s s' : Sys) (ty : FaultType) (fa va : Nat) (F : FreshFault s ty fa)
    (r : Option Errno) (e : PtEntry), F.region = g → F.last = false →
    s.world.elfRead s.elfReads = none → g.offset + g.filesize ≤ F.as.v.size →
    (vmFault ty fa).run t s = .ok (r, s') → s'.pte F.a F.i = some e →
    pageFrame va = pageFrame fa → g.vaddr ≤ va → va < g.vaddr + g.filesize →
    s'.ram (e.paddr + pageOffset va) = F.as.v.byte (g.offset + (va - g.vaddr))

namespace Region

variable {g : Region}

/-- The byte of an aligned region, or of one that lies in a single page. -/
theorem loadsAsWhole_of_aligned (h : g.shift = 0 ∨ g.shift + g.filesize ≤ pageSize) :
    g.LoadsAsWhole := by
  rintro t s s' ty fa va F r e rfl hlast hread hsize hrun he hpage hlo hhi
  have hoff : pageOffset va < pageSize := Nat.mod_lt _ (by decide)
  have hva : va = F.region.segment.start + F.k * pageSize + pageOffset va := by
    have := F.address
    have hdiv : pageFrame va + pageOffset va = va := Nat.sub_add_cancel (Nat.mod_le _ _)
    omega
  have hst := F.region.segment_start
  have hle : F.region.shift ≤ F.region.vaddr := Nat.mod_le _ _
  rw [FreshFault.byte_eq (m := s.ram) hrun he hoff, FreshFault.source, if_neg (by simp [hlast]),
    if_neg (not_not.mpr hread)]
  generalize pageOffset va = o at *
  by_cases hk : F.k = 0
  · have ho : F.region.shift ≤ o ∧
        o - F.region.shift < F.as.v.avail F.region.offset (pageSize - F.region.shift) := by
      rw [File.avail]
      rw [hk] at hva
      omega
    rw [if_pos hk, if_pos ho, Option.getD_some]
    rw [hk] at hva
    congr 1
    omega
  · have hsh : F.region.shift = 0 := by
      have hpos : 1 * pageSize ≤ F.k * pageSize := Nat.mul_le_mul_right _ (by omega)
      omega
    have ho : o < F.as.v.avail (F.region.offset + F.k * pageSize)
        (min (F.region.filesize - F.k * pageSize) pageSize) := by
      rw [File.avail]
      omega
    rw [if_neg hk, if_pos ho, Option.getD_some]
    congr 1
    omega

/-- A misaligned region that reaches into a second page does not get the byte at the
start of that page right. -/
theorem not_loadsAsWhole (hfs : g.filesize ≤ g.memsize) (hsh : g.shift ≠ 0)
    (hlong : pageSize < g.shift + g.filesize) : ¬ g.LoadsAsWhole := by
  intro hload
  have hlt := g.shift_lt
  have hk : 1 < g.segment.npages := by
    rw [segment_npages]
    rw [pageSize_eq] at hlong
    omega
  -- a file with a single nonzero byte, the one that belongs there
  let v : File := ⟨g.offset + g.filesize, fun x => if x = g.offset + (4096 - g.shift) then 1 else 0⟩
  obtain ⟨F, hreg, hlast, hFk, hFv, hret⟩ := running_fault (v := v) hk
  obtain ⟨r, s', hrun⟩ := hret (.proc 0) (running g v).ram
  obtain ⟨hm, hsw, hz⟩ := F.untouched
  obtain ⟨-, e, -, he, -⟩ := vmFault_fresh (s := running g v) F.geometry.active F.type F.cur
    F.has F.lookup F.entry hm hsw hz hrun
  have hst := g.segment_start
  have hle : g.shift ≤ g.vaddr := Nat.mod_le _ _
  have hal := g.segment_aligned
  have hoff : pageOffset (g.segment.start + 1 * pageSize) = 0 := by
    rw [pageOffset, pageSize_eq]
    omega
  have hbyte := hload (.proc 0) (running g v) s' .read _ (g.segment.start + 1 * pageSize) F r e
    hreg hlast rfl (by rw [hFv]) hrun he rfl (by rw [hst, pageSize_eq]; omega)
    (by rw [hst]; omega)
  rw [hoff, FreshFault.byte_eq (m := (running g v).ram) hrun he (by decide), hFv] at hbyte
  have hexp : g.segment.start + 1 * pageSize - g.vaddr = 4096 - g.shift := by
    rw [hst, pageSize_eq]
    omega
  have hread : (running g v).world.elfRead (running g v).elfReads = none := rfl
  rw [hexp, FreshFault.source, if_neg (by simp [hlast]), if_neg (not_not.mpr hread),
    if_neg (by omega), hFv, hFk, hreg] at hbyte
  have hne : ¬ g.offset + 1 * pageSize + 0 = g.offset + (4096 - g.shift) := by
    rw [pageSize_eq]
    omega
  simp only [v, if_true, if_neg hne] at hbyte
  have h01 : (0 : Byte) ≠ 1 := by decide
  split at hbyte <;> exact h01 hbyte

end Region

/-- **On-demand loading agrees with loading the whole region exactly when the region
is page-aligned or its file part fits in one page.** -/
theorem region_loadsAsWhole_iff {g : Region} (hfs : g.filesize ≤ g.memsize) :
    g.LoadsAsWhole ↔ g.vaddr % pageSize = 0 ∨ g.vaddr % pageSize + g.filesize ≤ pageSize := by
  constructor
  · intro h
    by_contra hno
    rw [not_or] at hno
    exact Region.not_loadsAsWhole hfs hno.1 (Nat.lt_of_not_le hno.2) h
  · exact Region.loadsAsWhole_of_aligned

/-- The code of a program: two pages, the second one half in the file. -/
def codeRegion : Region := ⟨0x400000, 0x2000, 0x1800, pfR, 0, pfX, 0x1000, by decide⟩

theorem codeRegion_loadsAsWhole : codeRegion.LoadsAsWhole :=
  (region_loadsAsWhole_iff (by decide)).mpr (.inl (by decide))

def shiftedRegion : Region := ⟨0x400010, 0x2000, 0x1800, pfR, 0, pfX, 0x1010, by decide⟩

theorem shiftedRegion_not_loadsAsWhole : ¬ shiftedRegion.LoadsAsWhole :=
  Region.not_loadsAsWhole (by decide) (by decide) (by decide)

/-- **A fresh page reveals nothing exactly when every byte of it is written.** There is
no zero fill in `load_elf_ondemand`, so for any other page the old contents of
the frame show through. -/
theorem freshFault_revealsNothing_iff {ty : FaultType} {fa : Nat} (F : FreshFault s ty fa)
    (hret : ∀ m, ∃ r s', (vmFault ty fa).run t (s.withRam m) = .ok (r, s')) :
    F.RevealsNothing t ↔ F.Determined :=
  ⟨FreshFault.determined_of_revealsNothing hret, FreshFault.revealsNothing_of_determined⟩

def zeroFile : File := ⟨0x3000, fun _ => 0⟩

/-- The first page of the code is read whole. -/
theorem codeRegion_first_page_revealsNothing :
    ∃ F : FreshFault (running codeRegion zeroFile) .read 0x400000,
      F.RevealsNothing (.proc 0) := by
  obtain ⟨F, hreg, -, hk, hv, hret⟩ :=
    running_fault (g := codeRegion) (v := zeroFile) (k := 0) (by decide)
  refine ⟨F, (freshFault_revealsNothing_iff F (hret _)).mpr (.inr ⟨rfl, .inl ⟨hk, ?_, ?_, ?_⟩⟩)⟩
  · rw [hreg]
    decide
  · rw [hreg, hv]
    decide
  · intro o _ _
    rw [hv]
    rfl

/-- The second page is not: the half of it that is not in the file shows what the frame
held before. -/
theorem codeRegion_second_page_reveals :
    ∃ F : FreshFault (running codeRegion zeroFile) .read 0x401000,
      ¬ F.RevealsNothing (.proc 0) := by
  obtain ⟨F, hreg, hlast, hk, -, hret⟩ :=
    running_fault (g := codeRegion) (v := zeroFile) (k := 1) (by decide)
  refine ⟨F, fun hN => ?_⟩
  obtain h | ⟨-, ⟨h, -⟩ | ⟨-, h, -⟩⟩ := FreshFault.determined_of_revealsNothing (hret _) hN
  · rw [hlast] at h
    cases h
  · omega
  · rw [hk, hreg] at h
    exact absurd h (by decide)

end Os161Paging
