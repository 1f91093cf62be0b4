import Mathlib.Data.List.Chain
import Os161Paging.Faults
import Os161Paging.Startup

/-!
# The lookup of a page

`vm_fault` does not search the page table: it walks the list of segments,
counting their pages, and scans only the slice of the table where it expects
the entries of the segment it stopped at. For segments in ascending order
that do not overlap, as the ELF format prescribes them, this finds what a
search of the whole table would find.
-/

namespace Os161Paging

open Prog

/-! ## The layout of the table -/

/-- A page table that fits in its block has no more entries than a word can count. -/
theorem length_lt_of_fits {n : Nat} (h : sizeofPtEntry * n ≤ ptBytes (wrap n)) : n < 2 ^ 32 := by
  simp only [sizeofPtEntry, ptBytes, ptFrames, divRoundUp, wrap, pageSize_eq] at h
  omega

theorem freshPt_length (segs : List Segment) :
    (freshPt segs).length = (segs.map Segment.npages).sum := by
  simp [freshPt, List.length_flatMap, Segment.entries]

/-- The entries `as_prepare_load` writes for a segment stand after those of the
segments before it. -/
theorem freshPt_entry (before after : List Segment) {seg : Segment} {k : Nat}
    (hk : k < seg.npages) :
    ∃ e, (freshPt (before ++ seg :: after))[(before.map Segment.npages).sum + k]? = some e ∧
      e.vaddr = wrap (seg.start + k * pageSize) ∧ e.rwx = seg.rwx := by
  have hlen : k < seg.entries.length := by simpa [Segment.entries] using hk
  have happ : freshPt (before ++ seg :: after) =
      freshPt before ++ (seg.entries ++ freshPt after) := by simp [freshPt]
  rw [happ, ← freshPt_length, List.getElem?_append_right (by omega), Nat.add_sub_cancel_left,
    List.getElem?_append_left hlen]
  exact ⟨_, by simp [Segment.entries, hk]; rfl, rfl, rfl⟩

/-- The walk of `vm_fault` stops at one of the segments, with the pages before it
counted: the last one that starts at or below the address, or the first of all. -/
theorem walkSegments_split {fa np : Nat} {segs : List Segment} {r : Segment × Nat × Bool}
    (h : walkSegments fa segs np = some r) :
    ∃ before after, segs = before ++ r.1 :: after ∧
      r.2.1 = np + (before.map Segment.npages).sum ∧ (r.2.2 = true ↔ after = []) ∧
      (before ≠ [] → r.1.start ≤ fa) ∧ ∀ next ∈ after.head?, fa < next.start := by
  induction segs generalizing np with
  | nil => cases h
  | cons seg segs ih =>
      cases segs with
      | nil =>
          cases h
          exact ⟨[], [], rfl, rfl, by simp, nofun, nofun⟩
      | cons seg' rest =>
          rw [walkSegments] at h
          split at h
          · next hlt =>
              cases h
              exact ⟨[], seg' :: rest, rfl, rfl, by simp, nofun, by simpa using hlt⟩
          · next hge =>
              obtain ⟨before, after, hsegs, hnp, hlast, hle, hnext⟩ := ih h
              refine ⟨seg :: before, after, by rw [hsegs, List.cons_append], ?_, hlast,
                fun _ => ?_, hnext⟩
              · rw [hnp, List.map_cons, List.sum_cons, Nat.add_assoc]
              · cases before with
                | nil =>
                    obtain ⟨rfl, -⟩ := List.cons.inj hsegs
                    exact Nat.le_of_not_lt hge
                | cons _ _ => exact hle (List.cons_ne_nil _ _)

/-- The slice that `vm_fault` scans is part of the page table. -/
theorem walkSegments_slice_le {fa np : Nat} {segs : List Segment} {seg : Segment} {last : Bool}
    (h : walkSegments fa segs 0 = some (seg, np, last)) :
    np + seg.npages ≤ (freshPt segs).length := by
  obtain ⟨before, after, hsegs, hnp, -⟩ := walkSegments_split h
  simp only [Nat.zero_add] at hsegs hnp
  rw [freshPt_length, hsegs, hnp, List.map_append, List.sum_append, List.map_cons, List.sum_cons]
  omega

theorem walkSegments_ne_none (fa np : Nat) {segs : List Segment} (h : segs ≠ []) :
    walkSegments fa segs np ≠ none := by
  induction segs generalizing np with
  | nil => exact absurd rfl h
  | cons seg segs ih =>
      cases segs with
      | nil => exact nofun
      | cons seg' rest =>
          rw [walkSegments]
          split
          · exact nofun
          · exact ih _ (List.cons_ne_nil _ _)

theorem scanSlice_eq_some {pt : List PtEntry} {fa np n i : Nat}
    (h : scanSlice pt fa np n = some i) :
    np ≤ i ∧ i < np + n ∧ ∃ e, pt[i]? = some e ∧ e.vaddr = fa := by
  have hmem := List.mem_range'_1.mp (List.mem_of_find?_eq_some h)
  have hany := List.find?_some h
  refine ⟨hmem.1, hmem.2, ?_⟩
  cases he : pt[i]? with
  | none => simp [he] at hany
  | some e => exact ⟨e, rfl, by simpa [he] using hany⟩

theorem scanSlice_ne_none {pt : List PtEntry} {fa np n i : Nat} {e : PtEntry} (hi : np ≤ i)
    (hlt : i < np + n) (he : pt[i]? = some e) (hv : e.vaddr = fa) :
    scanSlice pt fa np n ≠ none := by
  rw [scanSlice, ne_eq, List.find?_eq_none, not_forall]
  exact ⟨i, by simp [List.mem_range'_1, hi, hlt, he, hv]⟩

/-! ## Segments in ascending order -/

/-- The pages of `seg` end at or before the start of `next`. -/
def Segment.Before (seg next : Segment) : Prop :=
  seg.start + seg.npages * pageSize ≤ next.start

instance : DecidableRel Segment.Before := fun _ _ => inferInstanceAs (Decidable (_ ≤ _))

instance : IsTrans Segment Segment.Before where
  trans _ _ _ h1 h2 := by
    simp only [Segment.Before] at *
    omega

/-- Each segment ends at or before the start of the next one, the last one before
the stack. -/
def Ascending (segs : List Segment) : Prop := (segs ++ [stackSegment]).IsChain Segment.Before

instance (segs : List Segment) : Decidable (Ascending segs) :=
  inferInstanceAs (Decidable (List.IsChain ..))

theorem stackSegment_start : stackSegment.start = userStack - stackPages * pageSize := by decide

namespace Ascending

variable {segs : List Segment} (h : Ascending segs)
include h

theorem pairwise : (segs ++ [stackSegment]).Pairwise Segment.Before :=
  List.isChain_iff_pairwise.mp h

theorem le_userStack {seg : Segment} (hseg : seg ∈ segs ++ [stackSegment]) :
    seg.start + seg.npages * pageSize ≤ userStack := by
  have hstack : stackSegment.start + stackSegment.npages * pageSize = userStack := by decide
  rcases List.mem_append.mp hseg with hmem | hmem
  · have hbefore : seg.Before stackSegment :=
      (List.pairwise_append.mp h.pairwise).2.2 seg hmem _ (List.mem_singleton_self _)
    rw [Segment.Before] at hbefore
    omega
  · rw [List.mem_singleton.mp hmem]
    exact hstack.le

/-- The addresses in the table do not wrap around. -/
theorem mem_freshPt_vaddr {e : PtEntry} {part : List Segment}
    (hsub : ∀ seg ∈ part, seg ∈ segs ++ [stackSegment]) (he : e ∈ freshPt part) :
    ∃ seg ∈ part, seg.start ≤ e.vaddr ∧ e.vaddr < seg.start + seg.npages * pageSize := by
  simp only [freshPt, List.mem_flatMap, Segment.entries, List.mem_map, List.mem_range] at he
  obtain ⟨seg, hseg, k, hk, rfl⟩ := he
  have hle := h.le_userStack (hsub seg hseg)
  refine ⟨seg, hseg, ?_⟩
  simp only [wrap, userStack, kseg0, pageSize_eq] at *
  omega

end Ascending

/-! ## The lookup against the table -/

/-- The lookup of the page at `va` in the address space `as`, with the outcome
`found` in the segment `seg`, agrees with a search of the whole table. -/
structure LookupExact (as : Addrspace) (va : Nat) (seg : Segment) (last : Bool)
    (found : Option Nat) : Prop where
  /-- it finds the only index of an entry for the page, if there is one -/
  index : ∀ i, found = some i ↔ ∃ e, as.pt[i]? = some e ∧ e.vaddr = va
  /-- which is one of the table -/
  bound : ∀ i, found = some i → ∃ n, as.npages = some n ∧ i < n
  /-- the segment is the one that contains the page -/
  segment : found ≠ none →
    seg ∈ as.asSegment ∧ seg.start ≤ va ∧ va < seg.start + seg.npages * pageSize
  /-- and it is the last one exactly for the pages of the stack -/
  stack : found ≠ none → (last = true ↔ userStack - stackPages * pageSize ≤ va)

section

variable {segs : List Segment} {as : Addrspace} {va np : Nat} {seg : Segment} {last : Bool}
  {before after : List Segment}

/-- Every entry for the page is in the slice, at the page's place in the segment. -/
theorem Ascending.entry_in_slice (h : Ascending segs)
    (hsplit : segs ++ [stackSegment] = before ++ seg :: after)
    (hle : before ≠ [] → seg.start ≤ va) (hnext : ∀ next ∈ after.head?, va < next.start)
    {i : Nat} {e : PtEntry} (he : (freshPt (before ++ seg :: after))[i]? = some e)
    (hva : e.vaddr = va) :
    ∃ k < seg.npages, i = (before.map Segment.npages).sum + k ∧ va = seg.start + k * pageSize := by
  have hpair := h.pairwise
  have hle_stack := h.le_userStack (show seg ∈ segs ++ [stackSegment] by rw [hsplit]; simp)
  rw [hsplit] at hpair
  obtain ⟨-, hafter, hcross⟩ := List.pairwise_append.mp hpair
  have happ : freshPt (before ++ seg :: after) =
      freshPt before ++ (seg.entries ++ freshPt after) := by simp [freshPt]
  rw [happ] at he
  rcases Nat.lt_or_ge i (freshPt before).length with hlt | hge
  · -- the segments before it end at or below its start
    rw [List.getElem?_append_left hlt] at he
    obtain ⟨g, hg, -, hend⟩ := h.mem_freshPt_vaddr
      (fun g (hg : g ∈ before) => by rw [hsplit]; simp [hg]) (List.mem_of_getElem? he)
    have hbefore : g.Before seg := hcross g hg seg List.mem_cons_self
    have := hle (List.ne_nil_of_mem hg)
    rw [Segment.Before] at hbefore
    omega
  · rw [List.getElem?_append_right hge, freshPt_length] at he
    rw [freshPt_length] at hge
    rcases Nat.lt_or_ge (i - (before.map Segment.npages).sum) seg.entries.length with hlt | hge'
    · rw [List.getElem?_append_left hlt] at he
      have hk : i - (before.map Segment.npages).sum < seg.npages := by
        simpa [Segment.entries] using hlt
      refine ⟨_, hk, by omega, ?_⟩
      simp only [Segment.entries, List.getElem?_map, List.getElem?_range hk, Option.map_some,
        Option.some.injEq] at he
      rw [← hva, ← he]
      simp only [wrap, userStack, kseg0, pageSize_eq] at *
      omega
    · -- those after it start above the page
      rw [List.getElem?_append_right hge'] at he
      obtain ⟨g, hg, hstart, -⟩ := h.mem_freshPt_vaddr
        (fun g (hg : g ∈ after) => by rw [hsplit]; simp [hg]) (List.mem_of_getElem? he)
      cases after with
      | nil => cases hg
      | cons next rest =>
          have := hnext next rfl
          rcases List.mem_cons.mp hg with rfl | hg
          · omega
          · have hbefore : next.Before g :=
              (List.pairwise_cons.mp (List.pairwise_cons.mp hafter).2).1 g hg
            rw [Segment.Before] at hbefore
            omega

/-- A page of one of the segments belongs to the last of them, `stack`, exactly if it
does not lie below it. -/
theorem last_segment_iff {stack : Segment} {k : Nat}
    (hsplit : segs ++ [stack] = before ++ seg :: after)
    (hpair : (segs ++ [stack]).Pairwise Segment.Before) (hk : k < seg.npages) :
    after = [] ↔ stack.start ≤ seg.start + k * pageSize := by
  constructor
  · rintro rfl
    rw [List.singleton_inj.mp (List.append_inj' hsplit rfl).2]
    exact Nat.le_add_right _ _
  · intro hbase
    by_contra hne
    have hmem : stack ∈ after := by
      have hlast := hsplit
      rw [← List.dropLast_append_getLast hne, ← List.cons_append, ← List.append_assoc] at hlast
      rw [List.singleton_inj.mp (List.append_inj' hlast rfl).2]
      exact List.getLast_mem hne
    rw [hsplit] at hpair
    have hbefore : seg.Before stack :=
      (List.pairwise_cons.mp (List.pairwise_append.mp hpair).2.1).1 _ hmem
    rw [Segment.Before, pageSize_eq] at hbefore
    rw [pageSize_eq] at hbase
    omega

/-- The lookup is exact in every table that has the addresses `as_prepare_load`
wrote, whatever has become of the pages since. -/
theorem Ascending.lookupExact (h : Ascending segs) (hsegs : as.asSegment = segs ++ [stackSegment])
    (hpt : as.pt.map (·.vaddr) = (freshPt as.asSegment).map (·.vaddr))
    (hnpages : as.npages = some as.pt.length)
    (hwalk : walkSegments va as.asSegment 0 = some (seg, np, last)) :
    LookupExact as va seg last (scanSlice as.pt va np seg.npages) := by
  obtain ⟨before, after, hsplit, hnp, hlast, hle, hnext⟩ := walkSegments_split hwalk
  simp only [Nat.zero_add] at hsplit hnp hlast hle
  have hsplit' := hsegs.symm.trans hsplit
  -- an entry of the table stands where the layout puts it
  have hplace : ∀ (i : Nat) e, as.pt[i]? = some e → e.vaddr = va →
      ∃ k < seg.npages, i = np + k ∧ va = seg.start + k * pageSize := by
    intro i e he hva
    have hget := congrArg (·[i]?) hpt
    simp only [List.getElem?_map, he, Option.map_some] at hget
    obtain ⟨e', he', hv'⟩ := Option.map_eq_some_iff.mp hget.symm
    rw [hnp]
    exact h.entry_in_slice hsplit' hle hnext (hsplit ▸ he') (hv'.trans hva)
  have hfound : ∀ i, scanSlice as.pt va np seg.npages = some i →
      ∃ k < seg.npages, i = np + k ∧ va = seg.start + k * pageSize := by
    intro i hi
    obtain ⟨-, -, e, he, hva⟩ := scanSlice_eq_some hi
    exact hplace i e he hva
  constructor
  · intro i
    constructor
    · intro hi
      exact (scanSlice_eq_some hi).2.2
    · rintro ⟨e, he, hva⟩
      obtain ⟨k, hk, rfl, hvk⟩ := hplace i e he hva
      obtain ⟨i', hi'⟩ := Option.ne_none_iff_exists'.mp
        (scanSlice_ne_none (n := seg.npages) (Nat.le_add_right np k) (by omega) he hva)
      obtain ⟨k', hk', rfl, hvk'⟩ := hfound i' hi'
      have hkk : k' = k := by
        rw [hvk, pageSize_eq] at hvk'
        omega
      rw [hi', hkk]
  · intro i hi
    obtain ⟨-, -, e, he, -⟩ := scanSlice_eq_some hi
    exact ⟨_, hnpages, (List.getElem?_eq_some_iff.mp he).1⟩
  · intro hne
    obtain ⟨i, hi⟩ := Option.ne_none_iff_exists'.mp hne
    obtain ⟨k, hk, -, hvk⟩ := hfound i hi
    refine ⟨by rw [hsplit]; simp, ?_⟩
    simp only [pageSize_eq] at *
    omega
  · intro hne
    obtain ⟨i, hi⟩ := Option.ne_none_iff_exists'.mp hne
    obtain ⟨k, hk, -, hvk⟩ := hfound i hi
    rw [hlast, hvk, last_segment_iff hsplit' h.pairwise hk, stackSegment_start]

end

section

variable {t : Tid} {s s1 s' : Sys} {a : AsId} {x : Addrspace} {gs : List RegionArgs}

/-- The address space that `as_define_region` calls and `as_prepare_load` build. -/
theorem asPrepareLoad_built (hx : s.as a = some x) (hempty : x.asSegment = [])
    (hdef : (defineRegions a gs).run t s = .ok (none, s1))
    (hprep : (asPrepareLoad a).run t s1 = .ok (none, s')) :
    ∃ as, s'.as a = some as ∧ as.asSegment = gs.map RegionArgs.segment ++ [stackSegment] ∧
      as.pt = freshPt as.asSegment ∧ as.npages = some as.pt.length := by
  have hs1 := defineRegions_eq_none hx hdef
  obtain ⟨hr, -⟩ | ⟨y, loc, s2, hy, -, -, ⟨-, hr, -⟩ | ⟨-, -, hfits, rfl⟩⟩ :=
    asPrepareLoad_cases hprep
  · cases hr
  · cases hr
  · rw [hs1] at hy
    simp only [Function.update_self, Option.some.injEq, hempty, List.nil_append] at hy
    obtain rfl := hy
    refine ⟨_, Function.update_self .., rfl, rfl, ?_⟩
    simp only [Addrspace.prepared, Addrspace.withStack, totalPages, ← freshPt_length] at hfits ⊢
    rw [wrap, Nat.mod_eq_of_lt (length_lt_of_fits hfits)]

/-- **The two-step lookup equals a search of the whole table**: in an address space
built by `as_define_region` calls and `as_prepare_load`, with its segments in
ascending order and below the stack, the segment walk and the scan of the slice
find, for every fault address, the only entry there is. -/
theorem lookup_exact (hx : s.as a = some x) (hempty : x.asSegment = [])
    (hdef : (defineRegions a gs).run t s = .ok (none, s1))
    (hprep : (asPrepareLoad a).run t s1 = .ok (none, s'))
    (hasc : Ascending (gs.map RegionArgs.segment)) (fa : Nat) :
    ∃ as seg np last found, s'.as a = some as ∧
      (findSegment a (pageFrame fa)).run t s' = .ok ((seg, np, last), s') ∧
      (findPage a (pageFrame fa) np seg.npages).run t s' = .ok (found, s') ∧
      LookupExact as (pageFrame fa) seg last found := by
  obtain ⟨as, has, hsegs, hpt, hn⟩ := asPrepareLoad_built hx hempty hdef hprep
  have hne : as.asSegment ≠ [] := by simp [hsegs]
  obtain ⟨⟨seg, np, last⟩, hwalk⟩ :=
    Option.ne_none_iff_exists'.mp (walkSegments_ne_none (pageFrame fa) 0 hne)
  have hslice : np + seg.npages ≤ as.pt.length := by
    rw [hpt]
    exact walkSegments_slice_le hwalk
  exact ⟨as, seg, np, last, _, has, findSegment_eq_ok.mpr ⟨⟨as, has, hwalk⟩, rfl⟩,
    findPage_eq_ok.mpr ⟨⟨as, has, hslice, rfl⟩, rfl⟩,
    hasc.lookupExact hsegs (congrArg _ hpt) hn hwalk⟩

/-- A machine with six frames and a new address space. -/
def blank : Sys :=
  (boot .calm (fun _ => 0) (fun _ => 0) (8 * pageSize) pageSize 0).createAs 0 ⟨0, fun _ => 0⟩

def regions : List RegionArgs :=
  [⟨0x400000, 0x1800, 0x1800, pfR, 0, pfX, 0⟩, ⟨0x10000000, 0x2010, 0x10, pfR, pfW, 0, 0x2000⟩,
    ⟨0x10004000, 0, 0, pfR, pfW, 0, 0x3000⟩]

theorem lookup_exact_blank :
    ∃ s1 s' as seg np last found, (defineRegions 0 regions).run .kernel blank = .ok (none, s1) ∧
      (asPrepareLoad 0).run .kernel s1 = .ok (none, s') ∧ s'.as 0 = some as ∧
      (findSegment 0 (pageFrame 0x10001234)).run .kernel s' = .ok ((seg, np, last), s') ∧
      (findPage 0 (pageFrame 0x10001234) np seg.npages).run .kernel s' = .ok (found, s') ∧
      LookupExact as (pageFrame 0x10001234) seg last found := by
  have hsat : ((defineRegions 0 regions).run .kernel blank).Sat fun x => x.1 = none ∧
      ((asPrepareLoad 0).run .kernel x.2).Sat fun y => y.1 = none := by decide +kernel
  obtain ⟨⟨r, s1⟩, hdef, rfl, ⟨r', s'⟩, hprep, rfl⟩ := hsat
  obtain ⟨as, seg, np, last, found, h⟩ := lookup_exact rfl rfl hdef hprep
    (by decide) 0x10001234
  exact ⟨s1, s', as, seg, np, last, found, hdef, hprep, h⟩

end

end Os161Paging
