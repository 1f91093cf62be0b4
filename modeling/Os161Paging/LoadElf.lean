import Mathlib.Data.List.Flatten
import Mathlib.Data.List.Nodup
import Os161Paging.Startup

/-!
# Where an image may lie

`load_elf` passes the fields of every `PT_LOAD` header on to
`as_define_region` as they are, and nothing on the way to the page table
looks at where the segment lies. The page table that comes out is right
for some images and wrong for others; the theorem at the end says for
which, as a condition on the headers alone.
-/

namespace Os161Paging

open Prog

def stackBase : Nat := userStack - stackPages * pageSize

namespace Phdr

variable (ph : Phdr)

/-- The header is read from the file as 32-bit words. -/
structure Words : Prop where
  vaddr : ph.vaddr < 2 ^ 32
  memsz : ph.memsz < 2 ^ 32

instance : Decidable ph.Words :=
  decidable_of_iff (ph.vaddr < 2 ^ 32 ∧ ph.memsz < 2 ^ 32)
    ⟨fun h => ⟨h.1, h.2⟩, fun h => ⟨h.vaddr, h.memsz⟩⟩

/-- Numbers of the virtual pages from the one of `p_vaddr` to the one of the last
byte, counted without a bound on addresses. -/
def pages : List Nat :=
  List.range' (ph.vaddr / pageSize)
    ((ph.vaddr + ph.memsz + (pageSize - 1)) / pageSize - ph.vaddr / pageSize)

/-- The pages of `seg` cover the header's addresses, none of which is past the end
of the 32-bit range. -/
def Covered (seg : Segment) : Prop :=
  ∀ x, ph.vaddr ≤ x → x < ph.vaddr + ph.memsz →
    x < 2 ^ 32 ∧ ∃ e ∈ seg.entries, e.vaddr = pageFrame x

/-- No sum that `as_define_region` or the loop of `as_prepare_load` forms overflows. -/
def NoWrap : Prop := ph.vaddr + ph.memsz + pageSize ≤ 2 ^ 32

variable {ph}

theorem mem_pages {p : Nat} :
    p ∈ ph.pages ↔
      ph.vaddr / pageSize ≤ p ∧ p < (ph.vaddr + ph.memsz + (pageSize - 1)) / pageSize := by
  rw [pages, List.mem_range'_1]
  omega

theorem nodup_pages : ph.pages.Nodup := List.nodup_range' ..

/-- Without overflow the page-table entries are those of the header's pages. -/
theorem entries_vaddr (h : ph.NoWrap) :
    ph.segment.entries.map (·.vaddr) = ph.pages.map (· * pageSize) := by
  have hn : ph.segment.npages =
      (ph.vaddr + ph.memsz + (pageSize - 1)) / pageSize - ph.vaddr / pageSize := by
    simp only [NoWrap, segment, Segment.define, wrap, pageFrame, pageOffset, pageSize_eq] at *
    omega
  rw [Segment.entries, pages, List.range'_eq_map_range, List.map_map, List.map_map, hn]
  refine List.map_congr_left fun k hk => ?_
  rw [List.mem_range] at hk
  simp only [Function.comp_apply, NoWrap, segment, Segment.define, wrap, pageFrame,
    pageSize_eq] at *
  omega

/-- An image whose pages lie below a user address does not overflow. -/
theorem noWrap_of_pages (hw : ph.Words) (h : ∀ p ∈ ph.pages, p < userStack / pageSize) :
    ph.NoWrap := by
  have hv := hw.vaddr
  simp only [mem_pages, NoWrap, userStack, kseg0, pageSize_eq] at *
  by_contra hno
  have := h ((ph.vaddr + ph.memsz + 4095) / 4096 - 1) (by omega)
  omega

theorem noWrap_of_covered (hw : ph.Words) (hc : ph.Covered ph.segment)
    (hu : ∀ e ∈ ph.segment.entries, e.vaddr < userStack) : ph.NoWrap := by
  have hv := hw.vaddr
  rw [NoWrap, pageSize_eq]
  by_cases hz : ph.memsz = 0
  · -- only an unaligned empty segment has a page, the one of its address
    by_cases hal : ph.vaddr % 4096 = 0
    · omega
    · have hn : ph.segment.npages = 1 := by
        simp only [segment, Segment.define, wrap, pageFrame, pageOffset, pageSize_eq, hz]
        omega
      have := hu _ (List.mem_map_of_mem (List.mem_range.mpr (hn ▸ Nat.one_pos)))
      simp only [segment, Segment.define, wrap, pageFrame, pageSize_eq, userStack, kseg0] at this
      omega
  · obtain ⟨-, e, he, hlast⟩ := hc (ph.vaddr + ph.memsz - 1) (by omega) (by omega)
    have := hu e he
    rw [hlast] at this
    simp only [pageFrame, pageSize_eq, userStack, kseg0] at this
    omega

theorem covered_of_noWrap (h : ph.NoWrap) : ph.Covered ph.segment := by
  intro x hlo hhi
  rw [NoWrap, pageSize_eq] at h
  have hp : x / pageSize ∈ ph.pages := by
    rw [mem_pages, pageSize_eq]
    omega
  have hx : pageFrame x ∈ ph.segment.entries.map (·.vaddr) := by
    rw [entries_vaddr h]
    refine List.mem_map.mpr ⟨_, hp, ?_⟩
    simp only [pageFrame, pageSize_eq]
    omega
  exact ⟨by omega, List.mem_map.mp hx⟩

end Phdr

/-- The address space is one that the image may have: the pages of the segment of
each header cover it, the page table has only addresses of user space, and none
of them twice. -/
structure Elf.WellPlaced (h : Elf) (as : Addrspace) : Prop where
  covers : ∀ (i : Nat) (ph : Phdr), (loads h.phdrs)[i]? = some ph →
    ∃ seg, as.asSegment[i]? = some seg ∧ ph.Covered seg
  user : ∀ e ∈ as.pt, e.vaddr < userStack
  nodup : (as.pt.map (·.vaddr)).Nodup

/-- The headers leave the stack alone and each other. -/
structure Elf.Fits (h : Elf) : Prop where
  below : ∀ ph ∈ loads h.phdrs, ∀ p ∈ ph.pages, p < stackBase / pageSize
  apart : (loads h.phdrs).Pairwise fun ph ph' => ∀ p ∈ ph.pages, p ∉ ph'.pages

namespace Elf

variable {h : Elf} {as : Addrspace}

/-- Numbers of all pages of the image and of the stack. -/
def pages (h : Elf) : List Nat :=
  (loads h.phdrs).flatMap Phdr.pages ++ List.range' (stackBase / pageSize) stackPages

theorem pt_vaddr (hno : ∀ ph ∈ loads h.phdrs, ph.NoWrap) :
    (freshPt ((loads h.phdrs).map Phdr.segment ++ [stackSegment])).map (·.vaddr) =
      h.pages.map (· * pageSize) := by
  have hstack : stackSegment.entries.map (·.vaddr) =
      (List.range' (stackBase / pageSize) stackPages).map (· * pageSize) := by decide
  rw [freshPt, List.flatMap_append, List.map_append, pages, List.map_append, List.flatMap_singleton,
    hstack, List.flatMap_map, List.map_flatMap, List.map_flatMap]
  congr 1
  exact List.flatMap_congr fun ph hph => Phdr.entries_vaddr (hno ph hph)

/-- The table of an image has no page twice exactly when its headers have none. -/
theorem nodup_pages_iff (hu : ∀ p ∈ h.pages, p < userStack / pageSize) :
    h.pages.Nodup ↔ h.Fits := by
  have hmul : userStack / pageSize = stackBase / pageSize + stackPages := by decide
  rw [pages, List.nodup_append', List.nodup_flatMap]
  constructor
  · rintro ⟨⟨-, hdis⟩, -, hstack⟩
    refine ⟨fun ph hph p hp => ?_, hdis.imp fun h p => h (a := p)⟩
    by_contra hge
    have hall : p ∈ (loads h.phdrs).flatMap Phdr.pages := List.mem_flatMap.mpr ⟨ph, hph, hp⟩
    have := hu p (List.mem_append_left _ hall)
    exact hstack hall (List.mem_range'_1.mpr ⟨by omega, by omega⟩)
  · intro hf
    refine ⟨⟨fun ph _ => ph.nodup_pages, hf.apart.imp fun h p => h p⟩, List.nodup_range' .., fun p hp hs => ?_⟩
    obtain ⟨ph, hph, hp⟩ := List.mem_flatMap.mp hp
    have := hf.below ph hph p hp
    have := List.mem_range'_1.mp hs
    omega

/-- The headers of a well-placed image do not overflow. -/
theorem WellPlaced.noWrap {segs : List Segment} (hw : ∀ ph ∈ loads h.phdrs, ph.Words)
    (hseg : as.asSegment = (loads h.phdrs).map Phdr.segment ++ segs)
    (hpt : as.pt = freshPt as.asSegment) (hp : h.WellPlaced as) :
    ∀ ph ∈ loads h.phdrs, ph.NoWrap := by
  intro ph hph
  obtain ⟨i, hi⟩ := List.mem_iff_getElem?.mp hph
  obtain ⟨seg, hs, hc⟩ := hp.covers i ph hi
  have hlt : i < ((loads h.phdrs).map Phdr.segment).length := by
    rw [List.length_map]
    exact (List.getElem?_eq_some_iff.mp hi).1
  rw [hseg, List.getElem?_append_left hlt, List.getElem?_map, hi] at hs
  obtain rfl := Option.some.inj hs
  refine Phdr.noWrap_of_covered (hw ph hph) hc fun e he => hp.user e ?_
  rw [hpt, hseg, freshPt, List.flatMap_append]
  exact List.mem_append_left _
    (List.mem_flatMap.mpr ⟨_, List.mem_map_of_mem hph, he⟩)

/-- An address space laid out from the headers is well placed exactly when they fit. -/
theorem wellPlaced_iff (hw : ∀ ph ∈ loads h.phdrs, ph.Words)
    (hseg : as.asSegment = (loads h.phdrs).map Phdr.segment ++ [stackSegment])
    (hpt : as.pt = freshPt as.asSegment) : h.WellPlaced as ↔ h.Fits := by
  have hmul : Function.Injective (· * pageSize) := 
    fun p q hpq => Nat.eq_of_mul_eq_mul_right (by decide) hpq
  have hkseg : userStack = userStack / pageSize * pageSize := by decide
  constructor
  · intro hp
    have hv := pt_vaddr (hp.noWrap hw hseg hpt)
    rw [← hseg, ← hpt] at hv
    refine (nodup_pages_iff fun p hpg => ?_).mp ((List.nodup_map_iff hmul).mp (hv ▸ hp.nodup))
    obtain ⟨e, he, hep⟩ := List.mem_map.mp (hv ▸ List.mem_map_of_mem hpg)
    have := hp.user e he
    rw [hep, hkseg] at this
    exact Nat.lt_of_mul_lt_mul_right this
  · intro hf
    have hbelow : stackBase / pageSize < userStack / pageSize := by decide
    have hno : ∀ ph ∈ loads h.phdrs, ph.NoWrap := fun ph hph =>
      Phdr.noWrap_of_pages (hw ph hph) fun p hp => (hf.below ph hph p hp).trans hbelow
    have hu : ∀ p ∈ h.pages, p < userStack / pageSize := by
      intro p hp
      rcases List.mem_append.mp hp with hp | hp
      · obtain ⟨ph, hph, hp⟩ := List.mem_flatMap.mp hp
        exact (hf.below ph hph p hp).trans hbelow
      · exact (List.mem_range'_1.mp hp).2
    have hv := pt_vaddr hno
    rw [← hseg, ← hpt] at hv
    refine ⟨fun i ph hi => ⟨ph.segment, ?_, Phdr.covered_of_noWrap (hno ph
      (List.mem_of_getElem? hi))⟩, fun e he => ?_, ?_⟩
    · have hlt : i < ((loads h.phdrs).map Phdr.segment).length := by
        rw [List.length_map]
        exact (List.getElem?_eq_some_iff.mp hi).1
      rw [hseg, List.getElem?_append_left hlt, List.getElem?_map, hi, Option.map_some]
    · obtain ⟨p, hp, hpe⟩ := List.mem_map.mp (hv ▸ List.mem_map_of_mem (f := PtEntry.vaddr) he)
      rw [← hpe, hkseg]
      exact Nat.mul_lt_mul_of_pos_right (hu p hp) (by decide)
    · rw [hv]
      exact (List.nodup_map_iff hmul).mpr ((nodup_pages_iff hu).mpr hf)

end Elf

variable {t : Tid} {s s' : Sys} {a : AsId}

/-- **What `load_elf` accepts is well placed exactly when the headers fit**: their pages
lie below the stack region and no page belongs to two of them. -/
theorem loadElf_wellPlaced_iff {h : Elf} {entry : Nat} {x : Addrspace}
    (hw : ∀ ph ∈ h.phdrs, ph.Words) (hx : s.as a = some x) (hfresh : x.asSegment = [])
    (hret : (loadElf a h).run t s = .ok (.ok entry, s')) :
    ∃ as, s'.as a = some as ∧ (h.WellPlaced as ↔ h.Fits) := by
  obtain ⟨loc, has⟩ := loadElf_eq_ok hx hret
  rw [hfresh, List.nil_append] at has
  exact ⟨_, has, Elf.wellPlaced_iff (fun ph hph => hw ph (List.mem_of_mem_filter hph)) rfl rfl⟩

def image (phdrs : List Phdr) : Elf :=
  ⟨[0x7f, 0x45, 0x4c, 0x46, 1, 2, 1], 1, 2, 8, 52, 32, 0x400000, phdrs⟩

/-- A process about to call `load_elf` on a file of three pages, on a machine with six
free frames. -/
def starting : Sys :=
  { (boot .calm (fun _ => 0) (fun _ => 0) (8 * pageSize) pageSize (4 * pageSize)).createAs 0
      ⟨0x3000, fun _ => 0⟩ with cur := some 0 }

def linked : Elf := image
  [⟨.mipsReginfo, 0x94, 0x400094, 0x18, 0x18, 4⟩, ⟨.load, 0, 0x400000, 0x1800, 0x1800, 5⟩,
    ⟨.load, 0x2000, 0x10000000, 0x10, 0x2010, 6⟩]

/-- A single page of the kernel's own window on physical memory. -/
def kernelImage : Elf := image [⟨.load, 0, 0x80001000, 0x1000, 0x1000, 6⟩]

theorem loadElf_starting {h : Elf} (hh : h = linked ∨ h = kernelImage) :
    ∃ s', (loadElf 0 h).run (.proc 0) starting = .ok (.ok 0x400000, s') := by
  have hsat : ((loadElf 0 h).run (.proc 0) starting).Sat (·.1.toOption = some 0x400000) := by
    rcases hh with rfl | rfl <;> decide +kernel
  obtain ⟨⟨_ | entry, s'⟩, hrun, hr⟩ := hsat
  · cases hr
  · cases hr
    exact ⟨s', hrun⟩

theorem linked_wellPlaced :
    ∃ s' as, (loadElf 0 linked).run (.proc 0) starting = .ok (.ok 0x400000, s') ∧
      s'.as 0 = some as ∧ linked.WellPlaced as := by
  obtain ⟨s', hrun⟩ := loadElf_starting (.inl rfl)
  obtain ⟨as, has, hiff⟩ := loadElf_wellPlaced_iff (by decide) rfl rfl hrun
  exact ⟨s', as, hrun, has, hiff.mpr ⟨by decide, by decide⟩⟩

/-- The kernel address is accepted, and a page-table entry has it. -/
theorem kernelImage_not_wellPlaced :
    ∃ s' as, (loadElf 0 kernelImage).run (.proc 0) starting = .ok (.ok 0x400000, s') ∧
      s'.as 0 = some as ∧ ¬ kernelImage.WellPlaced as := by
  obtain ⟨s', hrun⟩ := loadElf_starting (.inr rfl)
  obtain ⟨loc, has⟩ := loadElf_eq_ok rfl hrun
  refine ⟨s', _, hrun, has, fun hp => ?_⟩
  have hmem : ⟨0, 0x80001000, false, false, 6⟩ ∈
      freshPt ((loads kernelImage.phdrs).map Phdr.segment ++ [stackSegment]) := by decide
  have := hp.user _ hmem
  exact absurd this (by decide)

end Os161Paging
