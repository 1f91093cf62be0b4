import Mathlib.Order.CompletePartialOrder
import Mathlib.Order.Interval.Set.Disjoint
import Os161Paging.Blocks
import Os161Paging.Pages

/-!
# Words that do not wrap around

Two computations on 32-bit words decide which bytes the kernel writes to.
`coremap_init` carves the array that describes the RAM out of the RAM it
describes; `load_elf_ondemand` computes from a segment and the address of
one of its pages which part of a frame is filled. Here their steps are
written down in exact arithmetic, and compared with what fits in a word.
-/

namespace Os161Paging

/-- The exact result of an operation is a 32-bit word. -/
def Fits (x : Int) : Prop := 0 ≤ x ∧ x < 2 ^ 32

instance (x : Int) : Decidable (Fits x) := inferInstanceAs (Decidable (_ ∧ _))

/-! ## coremap_init -/

section

variable {w : World} {ram disk : Mem} {lastpaddr firstfree swapFileSize : Nat}

/-- The pages `coremap_init` sets aside for the array. -/
def csize (lastpaddr firstfree : Nat) : Nat :=
  divRoundUp (wrap (wrap (lastpaddr + 2 ^ 32 - allignNextAddr firstfree) / pageSize * sizeofCEntry))
    pageSize

/-- The results of the operations of `coremap_init`, from `ALLIGN_NEXT_ADDR` to the last
assignment to `firstpaddr`, in exact arithmetic. -/
def coremapInitValues (lastpaddr firstfree : Nat) : List Int :=
  let firstpaddr : Int :=
    if firstfree % pageSize = 0 then firstfree else (firstfree / pageSize + 1) * pageSize
  let coremapSize := (lastpaddr - firstpaddr) / pageSize
  let bytes := coremapSize * sizeofCEntry
  let csize := (bytes + (pageSize - 1)) / pageSize
  [firstpaddr, lastpaddr - firstpaddr, bytes, bytes + (pageSize - 1), coremapSize - csize,
    sizeofCEntry * (coremapSize - csize), csize * pageSize, firstpaddr + csize * pageSize]

/-- How the RAM is divided after `coremap_init`. -/
structure Carved (lastpaddr firstfree : Nat) (s : Sys) : Prop where
  array : s.coremapSize * sizeofCEntry ≤ csize lastpaddr firstfree * pageSize
  aligned : s.firstpaddr % pageSize = 0
  below : s.firstpaddr + s.coremapSize * pageSize ≤ lastpaddr
  apart : Disjoint (Set.Ico s.firstpaddr (s.firstpaddr + s.coremapSize * pageSize))
    (Set.Ico (allignNextAddr firstfree)
      (allignNextAddr firstfree + csize lastpaddr firstfree * pageSize))
  above : Disjoint (Set.Ico s.firstpaddr (s.firstpaddr + s.coremapSize * pageSize))
    (Set.Iio firstfree)
  address : ∀ i < s.coremapSize, s.frameAddr i = i * pageSize + s.firstpaddr
  index : ∀ i < s.coremapSize, Blocks.entryOf s (s.frameAddr i) = i
  distinct : ∀ i < s.coremapSize, ∀ j < s.coremapSize, i ≠ j →
    Disjoint (Set.Ico (s.frameAddr i) (s.frameAddr i + pageSize))
      (Set.Ico (s.frameAddr j) (s.frameAddr j + pageSize))

theorem csize_eq (hlast : lastpaddr < 2 ^ 32) (hfirst : alignUp firstfree ≤ lastpaddr) :
    csize lastpaddr firstfree = coremapPages lastpaddr firstfree := by
  rw [csize, allignNextAddr_eq (Nat.lt_of_le_of_lt hfirst hlast), ramPages_word hfirst hlast,
    coremapPages_word hfirst hlast]

theorem coremapInitValues_eq (hfirst : alignUp firstfree ≤ lastpaddr) :
    coremapInitValues lastpaddr firstfree =
      ([alignUp firstfree, lastpaddr - alignUp firstfree,
        ramPages lastpaddr firstfree * sizeofCEntry,
        ramPages lastpaddr firstfree * sizeofCEntry + (pageSize - 1),
        ramPages lastpaddr firstfree - coremapPages lastpaddr firstfree,
        sizeofCEntry * (ramPages lastpaddr firstfree - coremapPages lastpaddr firstfree),
        coremapPages lastpaddr firstfree * pageSize,
        alignUp firstfree + coremapPages lastpaddr firstfree * pageSize] : List Nat).map
          Int.ofNat := by
  have hc := @coremapPages_le lastpaddr firstfree
  have hal : (if firstfree % pageSize = 0 then (firstfree : Int)
      else (firstfree / pageSize + 1) * pageSize) = (alignUp firstfree : Nat) := by
    rw [alignUp, pageSize_eq]
    split <;> omega
  have hpages : ((lastpaddr : Int) - alignUp firstfree) / pageSize = ramPages lastpaddr firstfree := by
    rw [ramPages, pageSize_eq]
    omega
  have hcore : ((ramPages lastpaddr firstfree : Int) * sizeofCEntry + (pageSize - 1)) / pageSize =
      coremapPages lastpaddr firstfree := by
    rw [coremapPages, sizeofCEntry, pageSize_eq]
    omega
  simp only [coremapInitValues, hal, hpages, hcore, List.map_cons, List.map_nil, Int.ofNat_eq_natCast]
  push_cast [Int.ofNat_sub hfirst, Int.ofNat_sub hc]
  rfl

theorem boot_carved (hlast : lastpaddr < 2 ^ 32) (hfirst : alignUp firstfree ≤ lastpaddr) :
    Carved lastpaddr firstfree (boot w ram disk lastpaddr firstfree swapFileSize) := by
  have hge := le_alignUp firstfree
  have hmod := alignUp_mod firstfree
  have hle := ramPages_le hfirst
  have hc := @coremapPages_le lastpaddr firstfree
  have henough := @le_coremapPages lastpaddr firstfree
  have hg := coremapGeometry_eq hfirst hlast
  set s := boot w ram disk lastpaddr firstfree swapFileSize with hs
  have hsize : s.coremapSize = ramPages lastpaddr firstfree - coremapPages lastpaddr firstfree := by
    rw [hs, Sys.coremapSize, boot, List.length_replicate, hg]
  have hfp : s.firstpaddr = alignUp firstfree + coremapPages lastpaddr firstfree * pageSize := by
    rw [hs, boot, hg]
  have hend : s.firstpaddr + s.coremapSize * pageSize ≤ lastpaddr := by
    rw [hsize, hfp, pageSize_eq] at *
    omega
  have haddr : ∀ i < s.coremapSize, s.frameAddr i = i * pageSize + s.firstpaddr := by
    intro i hi
    rw [Sys.frameAddr, wrap, Nat.mod_eq_of_lt]
    rw [pageSize_eq] at *
    omega
  refine ⟨?_, ?_, hend, ?_, ?_, haddr, fun i hi => ?_, fun i hi j hj hij => ?_⟩
  · rw [csize_eq hlast hfirst, hsize]
    refine Nat.le_trans (Nat.mul_le_mul_right _ (Nat.sub_le ..)) henough
  · rw [hfp, Nat.add_mul_mod_self_right, hmod]
  · rw [csize_eq hlast hfirst, allignNextAddr_eq (Nat.lt_of_le_of_lt hfirst hlast), ← hfp]
    exact (Set.Ico_disjoint_Ico_same).symm
  · refine Set.disjoint_left.mpr fun x hx hx' => ?_
    have := hx.1
    have : x < firstfree := hx'
    omega
  · rw [Blocks.entryOf, haddr i hi, Nat.add_sub_cancel, Nat.mul_div_cancel _ (by decide)]
  · rw [haddr i hi, haddr j hj]
    refine Set.disjoint_left.mpr fun x hx hx' => ?_
    simp only [Set.mem_Ico, pageSize_eq] at hx hx'
    omega

/-- **The coremap and the frames it manages do not overlap**, whatever the size of the RAM and
wherever its free part begins. No step of the computation wraps around, with the
exception of the address of the array in the kernel's window on physical memory: that does
exactly if the free part begins above the first 2 GiB. -/
theorem coremap_geometry (hlast : lastpaddr < 2 ^ 32) (hfirst : alignUp firstfree ≤ lastpaddr) :
    (∀ x ∈ coremapInitValues lastpaddr firstfree, Fits x) ∧
      (Fits (allignNextAddr firstfree + kseg0) ↔ alignUp firstfree < 2 ^ 31) ∧
      Carved lastpaddr firstfree (boot w ram disk lastpaddr firstfree swapFileSize) := by
  have hle := ramPages_le hfirst
  have hc := @coremapPages_le lastpaddr firstfree
  refine ⟨fun x hx => ?_, ?_, boot_carved hlast hfirst⟩
  · rw [coremapInitValues_eq hfirst] at hx
    obtain ⟨n, hn, rfl⟩ := List.mem_map.mp hx
    have hword : n < 2 ^ 32 → Fits (Int.ofNat n) := fun h =>
      ⟨Int.natCast_nonneg n, Int.ofNat_lt.mpr h⟩
    refine hword ?_
    simp only [List.mem_cons, List.not_mem_nil, or_false, sizeofCEntry, pageSize_eq] at hn hle
    omega
  · rw [allignNextAddr_eq (Nat.lt_of_le_of_lt hfirst hlast), Fits, kseg0]
    omega

/-- A machine with 64 MiB, of which the kernel image takes the first 200 KiB or so. -/
theorem coremap_geometry_small :
    Fits (allignNextAddr 0x33a28 + kseg0) ∧
      Carved 0x4000000 0x33a28 (boot .calm (fun _ => 0) (fun _ => 0) 0x4000000 0x33a28 0) := by
  obtain ⟨-, haddr, hcarved⟩ := @coremap_geometry .calm (fun _ => 0) (fun _ => 0) 0x4000000 0x33a28 0
    (by decide) (by decide)
  exact ⟨haddr.mpr (by decide), hcarved⟩

/-- Where the free RAM begins at 2 GiB, the kernel address of the array is 0. -/
theorem coremap_address_wraps :
    alignUp 0x80000000 ≤ 0x80010000 ∧ ¬ Fits (allignNextAddr 0x80000000 + kseg0) ∧
      paddrToKvaddr (allignNextAddr 0x80000000) = 0 := by
  decide

end

/-! ## load_elf_ondemand -/

/-- `amt`: how far the page at `vaddr` is from the start of the segment. -/
def ondemandAmt (seg : Segment) (vaddr : Nat) : Nat :=
  pageFrame (wrap (pageFrame vaddr + 2 ^ 32 - seg.start))

/-- The differences `load_elf_ondemand` computes for the page at `vaddr` are what they are
written as, and what it passes to `load_segment` concerns the frame at `paddr` only. -/
structure LoadsWithin (seg : Segment) (paddr vaddr : Nat) : Prop where
  size : (wrap (seg.size + 2 ^ 32 - ondemandAmt seg vaddr) : Int) =
    seg.size - ondemandAmt seg vaddr
  filesize : ¬ seg.filesize < ondemandAmt seg vaddr →
    (wrap (seg.filesize + 2 ^ 32 - ondemandAmt seg vaddr) : Int) =
      seg.filesize - ondemandAmt seg vaddr
  memsize : ((ondemandArgs seg paddr vaddr).memsize : Int) =
    min (pageSize : Int) (seg.size - ondemandAmt seg vaddr) -
      if ondemandAmt seg vaddr = 0 then (seg.initoffset : Int) else 0
  passed : ((ondemandArgs seg paddr vaddr).filesize : Int) =
    if ondemandAmt seg vaddr = 0 then ((ondemandArgs seg paddr vaddr).memsize : Int)
    else max 0 (min (pageSize : Int) (seg.filesize - ondemandAmt seg vaddr))
  le : (ondemandArgs seg paddr vaddr).filesize ≤ (ondemandArgs seg paddr vaddr).memsize
  inside : Set.Ico (ondemandArgs seg paddr vaddr).paddr
      ((ondemandArgs seg paddr vaddr).paddr + (ondemandArgs seg paddr vaddr).memsize) ⊆
    Set.Ico paddr (paddr + pageSize)

/-- **The on-demand loader stays inside of its frame**, for every page of every segment that
`as_define_region` can make. -/
theorem ondemand_loads_within {vaddr memsize filesize rd wr ex offset paddr : Nat} {e : PtEntry}
    (hva : vaddr < 2 ^ 32) (hfile : filesize < 2 ^ 32)
    (he : e ∈ (Segment.define vaddr memsize filesize rd wr ex offset).entries)
    (hframe : paddr % pageSize = 0) (hpa : paddr < 2 ^ 32) :
    LoadsWithin (Segment.define vaddr memsize filesize rd wr ex offset) paddr e.vaddr := by
  have hwf : (Segment.define vaddr memsize filesize rd wr ex offset).Wf := Segment.define_wf hva
  have hfs : (Segment.define vaddr memsize filesize rd wr ex offset).filesize < 2 ^ 32 := hfile
  generalize Segment.define vaddr memsize filesize rd wr ex offset = seg at *
  obtain ⟨k, hk, rfl⟩ := List.mem_map.mp he
  rw [List.mem_range] at hk
  have hamt : ondemandAmt seg (wrap (seg.start + k * pageSize)) = k * pageSize :=
    ondemand_amt hwf hk rfl
  obtain ⟨hsize, hleft⟩ := ondemand_left hwf hk
  have hinit := hwf.initoffset_lt
  have hroom : paddr + pageSize ≤ 2 ^ 32 := by
    rw [pageSize_eq] at *
    omega
  obtain ⟨hlo, hhi, hle⟩ := ondemandArgs_within hwf hk rfl hroom
  refine ⟨?_, fun htaken => ?_, ?_, ?_, hle, Set.Ico_subset_Ico hlo hhi⟩
  · rw [hamt, hleft]
    omega
  · rw [hamt] at htaken ⊢
    rw [wrap]
    omega
  · rw [hamt, ondemandArgs_eq hwf hk rfl hroom]
    split
    · dsimp only
      omega
    · dsimp only
      omega
  · rw [hamt, ondemandArgs_eq hwf hk rfl hroom]
    split
    · rfl
    · dsimp only
      omega

/-- The second page of a data segment that starts in the middle of a page. -/
theorem ondemand_loads_within_data :
    LoadsWithin (.define 0x10000ff0 0x20 0x10 4 2 0 0x2ff0) 0x5000 0x10001000 :=
  ondemand_loads_within (e := ⟨0, 0x10001000, false, false, 6⟩) (by decide) (by decide) (by decide)
    (by decide) (by decide)

end Os161Paging
