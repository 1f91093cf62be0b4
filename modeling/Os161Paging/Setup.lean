import Os161Paging.KernelPages
import Os161Paging.Service
import Os161Paging.Startup
import Os161Paging.Teardown

/-!
# Setting an address space up

What `as_create`, `as_define_region` and `as_prepare_load` do to the share
of the address space they set up, and `alloc_kpages` and `free_kpages` to
the blocks of the kernel. None of them sleeps, so they are followed as
whole calls.
-/

namespace Os161Paging

open Prog

variable {P : Layout} {a : AsId} {t : Tid} {g g' g1 : Ghost} {s s' s1 : Sys}

/-! ## Calls that others do not notice -/

/-- A call on behalf of `a` keeps the invariant, every other share and the blocks
of the kernel, and leaves the TLB alone. -/
structure Apart (P : Layout) (a : AsId) (g : Ghost) (s : Sys) (g' : Ghost) (s' : Sys) : Prop where
  inv : Inv P g' s'
  others : ∀ b, b ≠ a → own b g' s' = own b g s
  cur : s'.cur = s.cur
  tlb : s'.tlb = s.tlb
  keeps : g.Keeps g'

theorem Move.apart (h : Move P a g s g' s') : Apart P a g s g' s' :=
  ⟨h.inv, h.others, h.cur, h.tlb, h.keeps⟩

theorem Apart.trans (h1 : Apart P a g s g1 s1) (h2 : Apart P a g1 s1 g' s') :
    Apart P a g s g' s' where
  inv := h2.inv
  others b hb := (h2.others b hb).trans (h1.others b hb)
  cur := h2.cur.trans h1.cur
  tlb := h2.tlb.trans h1.tlb
  keeps k h hk := h2.keeps k h (h1.keeps k h hk)

theorem Apart.core_congr (h : Apart P a g s g' s1) (hc : s'.core = s1.core) :
    Apart P a g s g' s' where
  inv := h.inv.core_congr hc
  others b hb := (own_core_congr hc).trans (h.others b hb)
  cur := (congrArg Sys.cur hc).trans h.cur
  tlb := (congrArg Sys.tlb hc).trans h.tlb
  keeps := h.keeps

/-! ## Blocks of the kernel -/

/-- An allocation changes nothing but the coremap. -/
theorem getPages_coremap {n : Int} {p j : Nat} (hact : s.coremapActive = true)
    (hj : firstFree s.coremap = some j) (h : (getPages n 0 none).run t s = .ok (p, s')) :
    ∃ i m, p = s.frameAddr i ∧ Blocks.Takes s s' i m none ∧ s' = { s with coremap := s'.coremap } := by
  rw [getPages] at h
  split at h
  · next hn =>
      obtain ⟨i, hp, htakes⟩ := Blocks.getMultiplePages_takes (by omega) hact h
      obtain ⟨_, _, h1, -⟩ := run_bind_eq_ok.mp h
      have hl := (spinlockAcquire_eq_ok.mp h1).1
      cases hf : multiScan s.coremap n.toNat s.coremapSize 0 0 with
      | none =>
          rw [getMultiplePages_run_none hact hl hf] at h
          cases h
      | some first =>
          rw [getMultiplePages_run_some hact hl hf] at h
          cases h
          exact ⟨i, _, hp, htakes, rfl⟩
  · obtain ⟨_, _, h1, -⟩ := run_bind_eq_ok.mp h
    have hl := (spinlockAcquire_eq_ok.mp h1).1
    rw [getPage_run_some hact hl hj] at h
    cases h
    exact ⟨j, 1, rfl, Blocks.takes_claim (by decide) hj, rfl⟩

/-- A block taken from free frames, for the page table of `x` if that is an
address space. -/
theorem Inv.takes (hi : Inv P g s) {i n : Nat} (h : Blocks.Takes s s' i n none) (x : Option AsId)
    (hs : s' = { s with coremap := s'.coremap }) :
    Inv P (g.takeBlock i n x) s' ∧ g.Keeps (g.takeBlock i n x) ∧
      ∀ b, own b (g.takeBlock i n x) s' =
        { own b g s with
          table := if x = some b then insert i (own b g s).table else (own b g s).table } := by
  have hin : ∀ k : Nat, i ≤ k → k < i + n →
      ∃ e, s'.coremap[k]? = some e ∧ e.as = none ∧ e.isFree = false := by
    intro k hk hlt
    obtain ⟨e, he, hused, hnone, -⟩ := h.taken k hk hlt
    exact ⟨e, he, hnone, e.not_isFree hused⟩
  obtain ⟨hinv, hown⟩ := hi.takeBlock (x := x) h.pos h.size h.free hin h.head h.rest
  rw [← hs] at hinv hown
  refine ⟨hinv, fun k h' hk => ?_, hown⟩
  rw [Ghost.takeBlock]
  refine (if_neg fun hr => ?_).trans hk
  rw [hi.home_free (h.free k hr.1 hr.2)] at hk
  cases hk

/-- `alloc_kpages`, while there is a free frame: a block of the kernel. -/
theorem allocKpages_takes {n p : Nat} (hi : Inv P g s) (hfree : firstFree s.coremap ≠ none)
    (h : (allocKpages n).run t s = .ok (p, s')) :
    ∃ i m, p = paddrToKvaddr (P.addr i) ∧ Blocks.Takes s s' i m none ∧
      s' = { s with coremap := s'.coremap } := by
  obtain ⟨j, hj⟩ := Option.ne_none_iff_exists'.mp hfree
  obtain ⟨_, _, h1, h⟩ := run_bind_eq_ok.mp h
  rw [(canSleep_eq_ok.mp h1).2] at h
  obtain ⟨pa, s1, h2, h⟩ := run_bind_eq_ok.mp h
  obtain ⟨addr, s2, h3, h2⟩ := run_bind_eq_ok.mp h2
  obtain ⟨i, m, rfl, htakes, hs2⟩ := getPages_coremap hi.geometry.active hj h3
  have haddr : s.frameAddr i = P.addr i := hi.frameAddr_eq (hi.frames ▸ htakes.lt)
  have hne : s.frameAddr i ≠ 0 := hi.geometry.frameAddr_ne_zero htakes.lt.le
  rw [if_neg hne] at h2
  obtain ⟨rfl, rfl⟩ := pure_eq_ok.mp h2
  rw [if_neg hne, haddr] at h
  obtain ⟨hp, hs'⟩ := pure_eq_ok.mp h
  rw [hs']
  exact ⟨i, m, hp, htakes, hs2⟩

theorem Inv.freeKpages {h : Nat} {u : Unit} (hi : Inv P g s) (hh : g.home h = some (h, none))
    (hrun : (freeKpages (paddrToKvaddr (P.addr h))).run t s = .ok (u, s')) :
    ∃ e, s.coremap[h]? = some e ∧ s' = s.emptyRun h e.allocpages ∧ s.cur = none ∧
      Inv P (g.dropBlock h none) s' ∧ ∀ b, own b (g.dropBlock h none) s' = own b g s := by
  obtain ⟨hcur, hfree⟩ := freeKpages_of_active hi.geometry.active hrun
  obtain ⟨e, he, -, -⟩ := hi.kernel h h none hh
  have hlt : h < P.frames := hi.frames ▸ (List.getElem?_eq_some_iff.mp he).1
  have hP := hi.layout_wf
  have haddr : wrap (paddrToKvaddr (P.addr h) + 2 ^ 32 - kseg0) = P.addr h := by
    have := hP.fits
    simp only [paddrToKvaddr, wrap, kseg0, Layout.addr, pageSize_eq] at *
    omega
  have hix : (P.addr h - s.firstpaddr) / pageSize = h := by
    rw [hi.firstpaddr, Layout.addr, Nat.add_sub_cancel_left, Nat.mul_div_cancel _ (by decide)]
  rw [haddr] at hfree
  obtain ⟨hbelow, -⟩ | ⟨-, e', he', rfl⟩ := freepages_eq_ok hfree
  · rw [hi.firstpaddr, Layout.addr] at hbelow
    omega
  · rw [hix] at he' ⊢
    obtain rfl := Option.some.inj (he.symm.trans he')
    obtain ⟨-, hinv, hown⟩ := hi.emptyRun hh he
    exact ⟨e, he, rfl, hcur, hinv, fun b => (hown b).trans (by simp)⟩

/-- The addresses `alloc_kpages` has returned and not got back, as blocks of the kernel. -/
structure Kpages (P : Layout) (g : Ghost) (ks : List Nat) : Prop where
  kernel : ∀ p ∈ ks, ∃ h, p = paddrToKvaddr (P.addr h) ∧ g.home h = some (h, none)
  nodup : ks.Nodup

namespace Kpages

variable {ks : List Nat}

theorem keep (h : Kpages P g ks) (hk : g.Keeps g') : Kpages P g' ks := by
  refine ⟨fun p hp => ?_, h.nodup⟩
  obtain ⟨k, hpk, hhome⟩ := h.kernel p hp
  exact ⟨k, hpk, hk k k hhome⟩

/-- The kernel's view of memory keeps the addresses of frames apart. -/
theorem kvaddr_inj {i k : Nat} {x : Nat × Option AsId} (hi : Inv P g s) (hlt : i < P.frames)
    (hk : g.home k = some x) (h : paddrToKvaddr (P.addr i) = paddrToKvaddr (P.addr k)) : i = k := by
  obtain ⟨e, he, -⟩ := hi.kernel k x.1 x.2 hk
  have hklt : k < P.frames := hi.frames ▸ (List.getElem?_eq_some_iff.mp he).1
  have := hi.layout_wf.fits
  simp only [paddrToKvaddr, wrap, kseg0, Layout.addr, pageSize_eq] at *
  omega

theorem alloc {i n : Nat} (h : Kpages P g ks) (hi : Inv P g s) (htakes : Blocks.Takes s s' i n none) :
    Kpages P (g.takeBlock i n none) (paddrToKvaddr (P.addr i) :: ks) := by
  have hfresh : ∀ k x, g.home k = some x → ¬ (i ≤ k ∧ k < i + n) := by
    intro k x hk hr
    rw [hi.home_free (htakes.free k hr.1 hr.2)] at hk
    cases hk
  refine ⟨fun q hq => ?_, List.nodup_cons.mpr ⟨fun hmem => ?_, h.nodup⟩⟩
  · rcases List.mem_cons.mp hq with hq | hq
    · exact ⟨i, hq, by simp [Ghost.takeBlock, htakes.pos]⟩
    · obtain ⟨k, hk, hhome⟩ := h.kernel q hq
      exact ⟨k, hk, (if_neg (hfresh k _ hhome)).trans hhome⟩
  · obtain ⟨k, hk, hhome⟩ := h.kernel _ hmem
    obtain rfl := kvaddr_inj hi (hi.frames ▸ htakes.lt) hhome hk
    exact hfresh i _ hhome ⟨Nat.le_refl i, by have := htakes.pos; omega⟩

theorem free {k : Nat} (h : Kpages P g ks) :
    Kpages P (g.dropBlock k none) (ks.erase (paddrToKvaddr (P.addr k))) := by
  refine ⟨fun p hp => ?_, h.nodup.erase _⟩
  obtain ⟨hne, hp⟩ := (List.Nodup.mem_erase_iff h.nodup).mp hp
  obtain ⟨i, hpi, hi⟩ := h.kernel p hp
  refine ⟨i, hpi, ?_⟩
  have hik : i ≠ k := fun hik => hne (hik ▸ hpi)
  simpa [Ghost.dropBlock, hi] using hik

end Kpages

/-! ## A new address space -/

/-- The share of an address space whose regions are being defined. -/
structure Loading (o : Own) : Prop where
  as : ∃ x, o.as = some x ∧ x.asPt = none ∧ x.pt = [] ∧ x.npages = none ∧
    ∀ seg ∈ x.asSegment, seg.Wf
  val : ∀ z, o.val z = none
  table : o.table = ∅
  mem : ∀ j, o.mem j = none

namespace Loading

variable {o : Own}

theorem not_backed {tlb : Set TlbEntry} {e : TlbEntry} (hl : Loading o) (hb : Backed o tlb)
    (he : e ∈ tlb) : False := by
  obtain ⟨x, hx, -, hnil, -⟩ := hl.as
  obtain ⟨j, e', he', -⟩ := hb e he
  simp [Own.pte, hx, hnil] at he'

theorem lookup_ne {x : Addrspace} {fa : Nat} {r : Nat × Segment × Bool} (hl : Loading o)
    (hx : o.as = some x) : x.lookup fa ≠ some r := by
  intro hlook
  obtain ⟨y, hy, -, hnil, -⟩ := hl.as
  obtain rfl := Option.some.inj (hx.symm.trans hy)
  rw [Addrspace.lookup] at hlook
  split at hlook
  · obtain ⟨i, hs, -⟩ := Option.map_eq_some_iff.mp hlook
    obtain ⟨-, -, e, he, -⟩ := scanSlice_eq_some hs
    simp [hnil] at he
  · cases hlook

end Loading

/-- `as_create` fails without effect, or a new address space is there to be loaded. -/
theorem asCreate_apart {p : Option AsId} {f : Option File} {r : Except Errno AsId}
    (hi : Inv P g s) (hgone : ∀ a, p = some a → s.as a = none → Does.Gone (own a g s))
    (h : (asCreate p f).run t s = .ok (r, s')) :
    s'.core = s.core ∨
      ∃ a, p = some a ∧ s.as a = none ∧ Apart P a g s g s' ∧ Loading (own a g s') := by
  obtain ⟨-, -, n, rfl⟩ | ⟨a, v, rfl, -, -, -, hnone, rfl⟩ := asCreate_cases h
  · exact .inl rfl
  · obtain ⟨hmove, hown⟩ := hi.setAs (a := a) (x := ⟨none, [], [], v, none⟩) nofun
    obtain ⟨-, hval, htable, hmem⟩ := hgone a rfl hnone
    have hcore : ({ s with kmallocs := s.kmallocs + 1 }.createAs a v).core =
        (s.setAs a ⟨none, [], [], v, none⟩).core := rfl
    refine .inr ⟨a, rfl, hnone, hmove.apart.core_congr hcore, ?_⟩
    rw [own_core_congr hcore, hown]
    exact ⟨⟨_, rfl, rfl, rfl, rfl, nofun⟩, hval, htable, hmem⟩

theorem asDefineRegion_apart {vaddr memsize filesize rd wr ex offset : Nat} {r : Option Errno}
    (hi : Inv P g s) (hl : Loading (own a g s)) (hva : vaddr < 2 ^ 32)
    (h : (asDefineRegion a vaddr memsize filesize rd wr ex offset).run t s = .ok (r, s')) :
    Apart P a g s g s' ∧ Loading (own a g s') := by
  obtain ⟨-, -, rfl⟩ | ⟨-, -, x, hx, rfl⟩ := asDefineRegion_cases h
  · exact ⟨(Move.refl hi).apart.core_congr rfl, hl⟩
  · obtain ⟨⟨x', hx', hpt, hnil, hn, hsegs⟩, hval, htable, hmem⟩ := hl
    obtain rfl := Option.some.inj (hx.symm.trans hx')
    obtain ⟨hmove, hown⟩ := hi.setAs (a := a) (x := { x with asSegment :=
      x.asSegment ++ [.define vaddr memsize filesize rd wr ex offset] }) (by simp [hnil])
    refine ⟨hmove.apart.core_congr rfl, ?_⟩
    change Loading (own a g (s.setAs a _))
    rw [hown]
    refine ⟨⟨_, rfl, hpt, hnil, hn, fun seg hseg => ?_⟩, hval, htable, hmem⟩
    rcases List.mem_append.mp hseg with hseg | hseg
    · exact hsegs seg hseg
    · rw [List.mem_singleton.mp hseg]
      exact Segment.define_wf hva

/-- What `as_prepare_load` leaves behind, wherever the page table is. -/
theorem Addrspace.Laid.prepared {x : Addrspace} {loc : Nat} (hsegs : ∀ seg ∈ x.asSegment, seg.Wf)
    (hfits : sizeofPtEntry * (freshPt (x.asSegment ++ [stackSegment])).length ≤
      ptBytes (totalPages (x.asSegment ++ [stackSegment]))) : (x.prepared loc).Laid := by
  refine ⟨fun seg hseg => ?_, by simp [Addrspace.prepared, Addrspace.withStack], rfl, ?_⟩
  · rcases List.mem_append.mp hseg with hseg | hseg
    · exact hsegs seg hseg
    · rw [List.mem_singleton.mp hseg]
      exact Segment.define_wf (by decide)
  · change some (totalPages _) = some (freshPt _).length
    rw [totalPages, ← freshPt_length] at hfits ⊢
    rw [wrap, Nat.mod_eq_of_lt (length_lt_of_fits hfits)]

theorem Good.prepared {x : Addrspace} {i : Nat} (hsegs : ∀ seg ∈ x.asSegment, seg.Wf)
    (hfits : sizeofPtEntry * (freshPt (x.asSegment ++ [stackSegment])).length ≤
      ptBytes (totalPages (x.asSegment ++ [stackSegment]))) :
    Good P ⟨some (x.prepared (P.addr i)), fun _ => none, {i}, fun _ => none⟩ ∅ := by
  have hfresh : ∀ (k : Nat) e, (x.prepared (P.addr i)).pt[k]? = some e →
      e.inMem = false ∧ e.inSwap = false ∧ e.paddr = 0 :=
    fun k e hk => mem_freshPt (List.mem_of_getElem? hk)
  have hnone : ∀ (k : Nat) e, (x.prepared (P.addr i)).pt[k]? = some e → e.place = none := by
    intro k e hk
    obtain ⟨h1, h2, -⟩ := hfresh k e hk
    simp [PtEntry.place, h1, h2]
  have hplace : (Own.mk (some (x.prepared (P.addr i))) (fun _ => none) {i} fun _ => none).placeOf =
      fun _ => none := by
    funext k
    rw [Own.placeOf, Own.pte, Option.bind_some]
    cases hk : (x.prepared (P.addr i)).pt[k]? with
    | none => rfl
    | some e => exact hnone k e hk
  refine ⟨⟨_, rfl, .prepared hsegs hfits⟩, ⟨i, rfl, rfl⟩, fun k e hk => ?_, hplace ▸ .empty,
    fun k e hk hpl => absurd (hnone k e hk) hpl⟩
  obtain ⟨h1, h2, h3⟩ := hfresh k e hk
  exact ⟨by simp [h1], by simp [h2], fun _ _ => h3⟩

/-- What `as_prepare_load` has made of an address space that was to be loaded: it has
a page table of its own, in a block of the size `ptAlloc` was asked for, and no page
yet. -/
structure Prepared (P : Layout) (a : AsId) (g : Ghost) (s : Sys) (g' : Ghost) (s' : Sys) : Prop where
  apart : Apart P a g s g' s'
  good : Good P (own a g' s') ∅
  bare : (∀ x, (own a g' s').val x = none) ∧ ∀ j, (own a g' s').mem j = none
  block : ∃ x n i, s'.as a = some x ∧ x.npages = some n ∧ x.asPt = some (P.addr i) ∧
    Blocks.Takes s s' i (max 1 (ptFrames n)) none

/-- `as_prepare_load`, while there is a free frame. -/
theorem asPrepareLoad_apart {r : Option Errno} (hi : Inv P g s) (hl : Loading (own a g s))
    (hfree : firstFree s.coremap ≠ none) (h : (asPrepareLoad a).run t s = .ok (r, s')) :
    (r ≠ none ∧ s'.core = s.core) ∨ r = none ∧ ∃ g', Prepared P a g s g' s' := by
  obtain ⟨hr, rfl⟩ | ⟨x, loc, s2, hx, -, h2, hend⟩ := asPrepareLoad_cases h
  · exact .inl ⟨by rw [hr]; exact nofun, rfl⟩
  obtain ⟨⟨x', hx', -, hnil, -, hsegs⟩, hval, htable, hmem⟩ := hl
  obtain rfl := Option.some.inj (hx.symm.trans hx')
  set segs := x.asSegment ++ [stackSegment] with hsegs'
  -- the structure gets its stack
  obtain ⟨hmove1, hown1⟩ := hi.setAs (a := a) (x := x.withStack) (by simp [Addrspace.withStack, hnil])
  have hcore1 : (s.beforeTable t a x).core = (s.setAs a x.withStack).core := rfl
  have hi1 : Inv P g (s.beforeTable t a x) := hmove1.inv.core_congr hcore1
  -- the block is taken
  obtain ⟨j, hj⟩ := Option.ne_none_iff_exists'.mp hfree
  have hj1 : firstFree (s.beforeTable t a x).coremap = some j := hj
  obtain ⟨i, hloc, htakes⟩ := Blocks.ptAlloc_takes hi1.geometry.active hj1 h2
  have hs2 := Blocks.ptAlloc_coremap hi1.geometry.active hj1 h2
  have hlt : i < P.frames := hi1.frames ▸ htakes.lt
  have haddr : (s.beforeTable t a x).frameAddr i = P.addr i := hi1.frameAddr_eq hlt
  obtain ⟨hi2, hkeeps, hown2⟩ := hi1.takes htakes (some a) hs2
  have hne : loc ≠ 0 := hloc ▸ hi1.geometry.frameAddr_ne_zero htakes.lt.le
  obtain ⟨h0, -⟩ | ⟨-, rfl, hfits, rfl⟩ := hend
  · exact absurd h0 hne
  rw [haddr] at hloc
  subst hloc
  -- the page table is put there
  obtain ⟨hmove3, hown3⟩ := hi2.setAs (a := a) (x := x.prepared (P.addr i)) fun k e hk hin => by
    rw [(mem_freshPt (List.mem_of_getElem? hk)).1] at hin
    cases hin
  have hown : own a (g.takeBlock i (max 1 (ptFrames (totalPages segs))) (some a))
      (s2.setAs a (x.prepared (P.addr i))) =
        ⟨some (x.prepared (P.addr i)), fun _ => none, {i}, fun _ => none⟩ := by
    rw [hown3, hown2, own_core_congr hcore1, hown1]
    refine Own.ext rfl (funext hval) ?_ (funext hmem)
    simp only [if_true, htable]
    exact insert_empty_eq i
  have hapart : Apart P a g s (g.takeBlock i (max 1 (ptFrames (totalPages segs))) (some a)) s2 := by
    refine ⟨hi2, fun b hb => ?_, by rw [hs2]; rfl, by rw [hs2]; rfl, hkeeps⟩
    rw [hown2, if_neg fun h => hb (Option.some.inj h).symm, own_core_congr hcore1]
    exact hmove1.others b hb
  refine .inr ⟨rfl, g.takeBlock i (max 1 (ptFrames (totalPages segs))) (some a),
    (hapart.trans hmove3.apart).core_congr rfl, ?_, ?_, ?_⟩
  · change Good P (own a _ (s2.setAs a (x.prepared (P.addr i)))) ∅
    rw [hown]
    exact .prepared hsegs hfits
  · change (∀ z, (own a _ (s2.setAs a (x.prepared (P.addr i)))).val z = none) ∧
      ∀ j, (own a _ (s2.setAs a (x.prepared (P.addr i)))).mem j = none
    rw [hown]
    exact ⟨fun _ => rfl, fun _ => rfl⟩
  · refine ⟨_, _, i, Function.update_self .., rfl, rfl, ?_⟩
    exact ⟨htakes.pos, htakes.firstpaddr, htakes.active, htakes.size, htakes.cursor, htakes.free,
      htakes.taken, htakes.head, htakes.rest⟩

/-! ## as_activate -/

def validTlb (s : Sys) : Set TlbEntry := { e | e ∈ s.tlb ∧ e.valid = true }

/-- The state once `as_activate` has been called with `x` as the current address space:
if there is one, the TLB is empty. -/
def Sys.activate (s : Sys) : Option AsId → Sys
  | none => { s with cur := none }
  | some a => { s with cur := some a, tlb := emptyTlb }.bump .tlbInvalidation

theorem asActivate_eq_ok {x : Option AsId} {u : Unit}
    (h : asActivate.run t { s with cur := x } = .ok (u, s')) : s' = s.activate x := by
  obtain ⟨cur, s1, h1, h⟩ := run_bind_eq_ok.mp h
  obtain ⟨hcur, hs1⟩ := gets_eq_ok.mp h1
  rw [hs1, hcur] at h
  cases x with
  | none => exact (pure_eq_ok.mp h).2
  | some a =>
      obtain ⟨_, s2, h2, h⟩ := run_bind_eq_ok.mp h
      rw [modify_eq_ok.mp h2] at h
      exact (vmStatsInc_eq_ok.mp h).2

theorem tlbWf_emptyTlb : TlbWf emptyTlb := by
  have hout : ∀ e ∈ emptyTlb, e.valid = false ∧ kseg0 ≤ e.vpage := by
    intro e he
    obtain ⟨i, -, rfl⟩ := List.mem_map.mp he
    exact ⟨TlbEntry.invalid_valid i, TlbEntry.invalid_vpage i⟩
  refine ⟨fun e he => ?_, fun i j e e' hi _ _ hlt => ?_⟩
  · obtain ⟨hv, hle⟩ := hout e he
    exact iff_of_false (by simp [hv]) (Nat.not_lt.mpr hle)
  · exact absurd hlt (Nat.not_lt.mpr (hout e (List.mem_of_getElem? hi)).2)

/-- `as_activate` touches nobody's share, and the TLB translates nothing any more if
there is a current address space. -/
structure Activated (P : Layout) (x : Option AsId) (g : Ghost) (s s' : Sys) : Prop where
  inv : Inv P g s'
  cur : s'.cur = x
  as : s'.as = s.as
  coremap : s'.coremap = s.coremap
  own : ∀ b, own b g s' = own b g s
  tlb : ∀ b, s'.cur = some b → validTlb s' = ∅

theorem Inv.activate (hi : Inv P g s) (x : Option AsId) : Activated P x g s (s.activate x) := by
  have hi' : Inv P g { s with cur := x } :=
    { hi with
      geometry := hi.geometry.congr rfl rfl rfl
      observed := Sys.observe_of_as_eq hi.observed rfl }
  cases x with
  | none => exact ⟨hi', rfl, rfl, rfl, fun _ => rfl, nofun⟩
  | some a =>
      refine ⟨(hi'.setTlb tlbWf_emptyTlb).core_congr rfl, rfl, rfl, rfl, fun _ => rfl, fun b _ => ?_⟩
      refine Set.eq_empty_iff_forall_notMem.mpr fun e he => ?_
      obtain ⟨i, -, rfl⟩ := List.mem_map.mp he.1
      exact absurd he.2 (by simp [TlbEntry.invalid_valid])

end Os161Paging
