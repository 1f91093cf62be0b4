import Os161Paging.Copying
import Os161Paging.Demand
import Os161Paging.Transparency

/-!
# When a copy is exact

`as_copy` reads a page of the original that is in the swap file with
`swap_in(&tmp->paddr, ..)`, where `tmp` is the entry of the new table, to
whose `paddr` nothing has been assigned. What the copy gets is the slot
whose number the frame of the table happened to hold.

In every state that processes and copies of processes can get the machine
into, a copy that returns 0 is exact if and only if

- there was a free frame for its page table;
- these slots hold what the pages of the original hold;
- the read-only pages that were evicted from the copy before it was complete
  held what the executable supplies, whatever frame they are loaded into.
-/

namespace Os161Paging

open Prog

/-! ## Reading a page -/

namespace Sys

/-- The contents of page `j`, if it is in memory or in the swap file. -/
def stored (s : Sys) (a : AsId) (j : Nat) : Option Page :=
  (s.pte a j).bind fun e =>
    if e.inMem then some (s.ram.page e.paddr)
    else if e.inSwap then some (s.slotPage e.paddr) else none

/-- A fault on the untouched page `j` may leave `d` in the frame it is given, for some
previous contents `m` of the memory. -/
def Loads (s : Sys) (a : AsId) (j : Nat) (d : Page) : Prop :=
  ∃ x e seg last f m, s.as a = some x ∧ x.pt[j]? = some e ∧
    x.lookup e.vaddr = some (j, seg, last) ∧ f < s.coremapSize ∧
    d = ((s.withRam m).filledRam x.v seg last e.vaddr (s.frameAddr f)).page (s.frameAddr f)

/-- Who reads page `j` of `a` may find `d` there. -/
def Yields (s : Sys) (a : AsId) (j : Nat) (d : Page) : Prop :=
  s.stored a j = some d ∨ s.stored a j = none ∧ s.Loads a j d

end Sys

/-- `new` in the state `s'` is an exact copy of `old` in the state `s`, and the copying
has not touched `old`. -/
structure ExactCopy (old new : AsId) (s s' : Sys) : Prop where
  table : ∃ y x, s.as old = some y ∧ s'.as new = some x ∧ x.asSegment = y.asSegment ∧
    x.npages = y.npages ∧
    x.pt.map (fun e => (e.vaddr, e.rwx)) = y.pt.map fun e => (e.vaddr, e.rwx)
  contents : ∀ j d, s'.Yields new j d ↔ s.Yields old j d
  disjoint : ∀ i j e e', s'.pte old i = some e → s'.pte new j = some e' → e.inMem = true →
    e'.inMem = true → e.paddr ≠ e'.paddr
  original : s'.as old = s.as old
  frames : ∀ j e, s.pte old j = some e → e.inMem = true →
    s'.frameOwner e.paddr = some old ∧ s'.ram.page e.paddr = s.ram.page e.paddr
  slots : ∀ j e, s.pte old j = some e → e.inSwap = true →
    s'.swapMap[e.paddr]? = some true ∧ s'.slotPage e.paddr = s.slotPage e.paddr
  /-- the page table has been put where nothing was -/
  home : ∃ x n h, s'.as new = some x ∧ x.npages = some n ∧ x.asPt = some (s.frameAddr h) ∧
    ∀ k < max 1 (ptFrames n), freeAt s.coremap (h + k) = true

/-- The slots that the uninitialised entries of the new table name hold what the pages in
the swap file should contain. -/
def SlotsAgree (old : AsId) (junk : Nat → PtEntry) (s s' : Sys) : Prop :=
  ∀ j e, s.pte old j = some e → e.inSwap = true →
    s'.slotPage (junk j).paddr = s.slotPage e.paddr

/-- The resident read-only pages that the copy has not kept can be loaded again. -/
def Reloadable (old new : AsId) (s s' : Sys) : Prop :=
  ∀ j e, s.pte old j = some e → e.inMem = true → e.writable = false → s'.stored new j = none →
    ∀ d, s.Loads old j d ↔ d = s.ram.page e.paddr

section

variable {P : Layout} {y : Addrspace} {old new a b : AsId} {junk : Nat → PtEntry} {i j loc : Nat}
  {g g' : Ghost} {s s' : Sys} {t : Tid} {e : PtEntry} {d : Page} {spare : Set Place}

/-! ## What the shares say -/

theorem Good.stored_own (hg : Good P (own a g s) spare) : (own a g s).stored j = s.stored a j := by
  cases he : s.pte a j with
  | none =>
      have hp : (own a g s).pte j = none := he
      rw [Own.stored, Own.placeOf, hp, Sys.stored, he]
      rfl
  | some e =>
      have hp : (own a g s).pte j = some e := he
      rw [Own.stored_eq hp, Sys.stored, he, Option.bind_some]
      cases hpl : e.place with
      | none =>
          rw [PtEntry.place] at hpl
          split at hpl
          · cases hpl
          · split at hpl
            · cases hpl
            · simp [*]
      | some x =>
          obtain ⟨c, hc⟩ := Option.ne_none_iff_exists'.mp
            (hg.tenancy.housed j x (by rw [Own.placeOf_eq hp, hpl]))
          rw [Option.bind_some, hc]
          cases x with
          | frame q =>
              obtain ⟨hin, rfl⟩ := PtEntry.place_eq_frame.mp hpl
              rw [if_pos hin, (Does.frame_of_own rfl hc).2]
          | slot k =>
              obtain ⟨hout, hin, rfl⟩ := PtEntry.place_eq_slot.mp hpl
              rw [hout, if_neg Bool.false_ne_true, if_pos hin, (Does.slot_of_own rfl hc).2]

theorem Good.frame_of_pte (hg : Good P (own a g s) spare) (he : s.pte a j = some e)
    (hin : e.inMem = true) : (own a g s).val (.frame e.paddr) = some (s.ram.page e.paddr) := by
  obtain ⟨c, hc⟩ := Option.ne_none_iff_exists'.mp (hg.tenancy.housed j (.frame e.paddr)
    (by rw [Own.placeOf_eq (o := own a g s) he, PtEntry.place_inMem hin]))
  rw [hc, (Does.frame_of_own rfl hc).2]

theorem Good.slot_of_pte (hg : Good P (own a g s) spare) (he : s.pte a j = some e)
    (hin : e.inSwap = true) : (own a g s).val (.slot e.paddr) = some (s.slotPage e.paddr) := by
  obtain ⟨c, hc⟩ := Option.ne_none_iff_exists'.mp (hg.tenancy.housed j (.slot e.paddr)
    (hg.placeOf_of_inSwap he hin))
  rw [hc, (Does.slot_of_own rfl hc).2]

/-- What is loaded for a page depends on the segments, the file and the addresses only. -/
theorem loads_of_same {x : Addrspace} (hx : s.as a = some x) (hy : s'.as b = some y)
    (hseg : x.asSegment = y.asSegment) (hv : x.v = y.v)
    (hpt : x.pt.map (·.vaddr) = y.pt.map (·.vaddr)) (hsize : s'.coremapSize = s.coremapSize)
    (haddr : ∀ f < s.coremapSize, s'.frameAddr f = s.frameAddr f)
    (hworld : (s'.elfReads, s'.world) = (s.elfReads, s.world)) (h : s'.Loads b j d) :
    s.Loads a j d := by
  obtain ⟨_, e, seg, last, f, m, hy', he, hlook, hf, rfl⟩ := h
  obtain rfl := Option.some.inj (hy.symm.trans hy')
  have hj := congrArg (fun l => l[j]?) hpt
  simp only [List.getElem?_map, he, Option.map_some, Option.map_eq_some_iff] at hj
  obtain ⟨e', he', hva⟩ := hj
  obtain ⟨helf, hw⟩ := Prod.mk.inj hworld
  refine ⟨x, e', seg, last, f, m, hx, he', ?_, hsize ▸ hf, ?_⟩
  · rw [Addrspace.lookup_congr hseg hpt, hva, hlook]
  · rw [haddr f (hsize ▸ hf), hva, hv]
    have helf' : s'.world.elfRead s'.elfReads = s.world.elfRead s.elfReads := by rw [helf, hw]
    simp only [Sys.filledRam, Sys.readElf, Sys.withRam]
    congr 3
    rw [helf']

/-! ## Copying reads nothing of the executable -/

theorem unaffected_elf : Unaffected a fun s => (s.elfReads, s.world) := by
  refine ⟨?_, fun _ _ => rfl, fun _ _ _ _ _ => rfl⟩
  constructor <;> intros <;> rfl

theorem copyPage_leaves : (copyPage old new i).Leaves (fun s => (s.elfReads, s.world)) t := by
  have hupd : ∀ f, (updPte new i f).Leaves (fun s => (s.elfReads, s.world)) t :=
    fun f => updPte_leaves fun _ => rfl
  refine .bind getPte_leaves fun o => .bind (hupd _) fun _ => .ite ?_ (.ite ?_ ?_)
  · refine .bind unaffected_elf.getPage fun q => .bind (swapIn_leaves (fun _ _ => rfl)
      (fun _ _ _ _ => rfl) (fun _ _ => rfl) fun _ _ => rfl) fun err => .ite (.pure _) ?_
    exact .bind (hupd _) fun _ => .pure _
  · exact .bind unaffected_elf.getPage fun q => .bind (.modify fun _ => rfl) fun _ =>
      .bind (hupd _) fun _ => .pure _
  · exact .bind (hupd _) fun _ => .pure _

theorem copyPages_leaves {n : Nat} :
    (copyPages old new n i).Leaves (fun s => (s.elfReads, s.world)) t := by
  induction n generalizing i with
  | zero => exact .pure _
  | succ n ih =>
      refine .bind copyPage_leaves fun r => ?_
      cases r with
      | some e => exact .pure _
      | none => exact ih

theorem ptAlloc_leaves {n : Nat} : (ptAlloc n).Leaves (fun s => (s.elfReads, s.world)) t := by
  intro s p s' h
  obtain ⟨-, ⟨-, -, rfl⟩ | ⟨-, -, first, -, -, rfl⟩ | ⟨-, -, i, -, -, rfl⟩ | ⟨-, -, -, -, rfl⟩⟩ :=
    ptAlloc_cases h <;> rfl

theorem copyTable_leaves {n : Nat} :
    (copyTable old new n junk).Leaves (fun s => (s.elfReads, s.world)) t := by
  refine .bind (fun s _ s' h => ?_) fun _ => .bind ptAlloc_leaves fun loc => .ite (.pure _) ?_
  · obtain ⟨x, -, rfl⟩ := copyNpages_eq_ok.mp h
    rfl
  · refine .bind (fun s _ s' h => ?_) fun _ => .bind copyPages_leaves fun r => ?_
    · obtain ⟨x, -, -, rfl⟩ := installPt_eq_ok.mp h
      rfl
    · cases r with
      | some e => exact .pure _
      | none =>
          refine .bind (fun s _ s' h => ?_) fun _ => .pure _
          obtain ⟨-, rfl⟩ := lockRelease_eq_ok.mp h
          rfl

theorem asCopy_leaves {p : Option AsId} {f : Option File} :
    (asCopy old p f junk).Leaves (fun s => (s.elfReads, s.world)) t := by
  intro s r s' h
  obtain ⟨-, -, n, rfl⟩ | ⟨new, o, s1, -, -, -, -, -, -, hs1, -, hrest⟩ := asCopy_cases h
  · rfl
  have h1 : (s1.elfReads, s1.world) = (s.elfReads, s.world) := by rw [hs1]; rfl
  obtain ⟨-, -, rfl⟩ | ⟨n, -, -, htab, -⟩ := hrest
  · exact h1
  · exact (copyTable_leaves _ _ _ htab).trans h1

/-! ## The comparison -/

namespace InLoop

variable (h : InLoop P y loc old new junk y.pt.length g' s')
include h

theorem good_new : Good P (own new g' s') ∅ := h.half.finish

theorem table_eq : ∃ x, s'.as new = some x ∧ x.asSegment = y.asSegment ∧ x.v = y.v ∧
    x.npages = y.npages ∧ x.asPt = some loc ∧
    x.pt.map (fun e => (e.vaddr, e.rwx)) = y.pt.map fun e => (e.vaddr, e.rwx) := by
  obtain ⟨x, hx, hseg, hv, hloc, hlen⟩ := h.half.as
  obtain ⟨x', hx', hlaid⟩ := h.good_new.laid
  obtain rfl := Option.some.inj (hx.symm.trans hx')
  refine ⟨x, hx, hseg, hv, ?_, hloc, ?_⟩
  · rw [hlaid.npages, h.laid.npages, hlen]
  · rw [hlaid.pages, h.laid.pages, hseg]

theorem stored_new (he : y.pt[j]? = some e) : Copied s' junk j e (s'.stored new j) := by
  obtain ⟨x, hx, -, -, -, hlen⟩ := h.half.as
  have hc := h.copied j e (List.getElem?_eq_some_iff.mp he).1 he
  rwa [Own.mend_all hx hlen, h.good_new.stored_own] at hc

end InLoop

theorem Sys.yields_of_some {c : Page} (h : s.stored a j = some c) : s.Yields a j d ↔ d = c := by
  simp [Yields, h, eq_comm]

theorem Sys.yields_of_none (h : s.stored a j = none) : s.Yields a j d ↔ s.Loads a j d := by
  simp [Yields, h]

/-- An entry of an address space at rest, and what is stored for it. -/
theorem Good.stored_of_pte (hg : Good P (own a g s) spare) (he : s.pte a j = some e) :
    s.stored a j = if e.inSwap then some (s.slotPage e.paddr)
      else if e.inMem then some (s.ram.page e.paddr) else none := by
  have hshape := (hg.shaped j e he).1
  rw [Sys.stored, he, Option.bind_some]
  cases hin : e.inMem with
  | true => simp [hshape hin]
  | false => simp

/-- `as_copy` has returned 0, with the page table of the copy from frame `i` on. -/
structure CopyMade (P : Layout) (y : Addrspace) (old new : AsId) (junk : Nat → PtEntry) (i : Nat)
    (g : Ghost) (s : Sys) (g' : Ghost) (s' : Sys) : Prop where
  inv : Inv P g s
  as : s.as old = some y
  good : Good P (own old g s) ∅
  ne : old ≠ new
  beside : Beside P new g s g' s'
  loop : InLoop P y (P.addr i) old new junk y.pt.length g' s'
  elf : (s'.elfReads, s'.world) = (s.elfReads, s.world)
  lt : i < P.frames
  block : ∀ k < max 1 (ptFrames y.pt.length), freeAt s.coremap (i + k) = true

namespace CopyMade

variable (h : CopyMade P y old new junk i g s g' s')
include h

theorem pte : s.pte old j = y.pt[j]? := by rw [Sys.pte, h.as, Option.bind_some]

theorem own_old : own old g' s' = own old g s := h.beside.others h.ne

theorem frames_kept (he : s.pte old j = some e) (hin : e.inMem = true) :
    s'.frameOwner e.paddr = some old ∧ s'.ram.page e.paddr = s.ram.page e.paddr :=
  Does.frame_of_own h.own_old (h.good.frame_of_pte he hin)

theorem slots_kept (he : s.pte old j = some e) (hin : e.inSwap = true) :
    s'.swapMap[e.paddr]? = some true ∧ s'.slotPage e.paddr = s.slotPage e.paddr := by
  obtain ⟨howner, hpage⟩ := Does.slot_of_own h.own_old (h.good.slot_of_pte he hin)
  exact ⟨(h.beside.inv.marked _).mpr (by rw [howner]; simp), hpage⟩

theorem disjoint {k : Nat} {e' : PtEntry} (he : s'.pte old j = some e)
    (he' : s'.pte new k = some e') (hin : e.inMem = true) (hin' : e'.inMem = true) :
    e.paddr ≠ e'.paddr := by
  intro heq
  have h1 := (Does.frame_of_own rfl ((h.own_old ▸ h.good).frame_of_pte he hin)).1
  have h2 := (Does.frame_of_own rfl (h.loop.good_new.frame_of_pte he' hin')).1
  rw [heq, h2] at h1
  exact h.ne (Option.some.inj h1).symm

/-- The same is loaded for a page of the copy as for the page of the original. -/
theorem loads_iff : s'.Loads new j d ↔ s.Loads old j d := by
  obtain ⟨x, hx, hseg, hv, -, -, hpages⟩ := h.loop.table_eq
  have hpt := congrArg (List.map Prod.fst) hpages
  rw [List.map_map, List.map_map] at hpt
  have hsize : s'.coremapSize = s.coremapSize := h.beside.inv.frames.trans h.inv.frames.symm
  have haddr : ∀ f < s.coremapSize, s'.frameAddr f = s.frameAddr f := by
    intro f hf
    rw [h.inv.frames] at hf
    rw [h.beside.inv.frameAddr_eq hf, h.inv.frameAddr_eq hf]
  constructor
  · exact loads_of_same h.as hx hseg.symm hv.symm hpt.symm hsize haddr h.elf
  · exact loads_of_same hx h.as hseg hv hpt hsize.symm
      (fun f hf => (haddr f (hsize ▸ hf)).symm) h.elf.symm

/-- One page of the copy reads as the page of the original does. -/
theorem yields_iff (he : y.pt[j]? = some e) : (∀ d, s'.Yields new j d ↔ s.Yields old j d) ↔
    (e.inSwap = true → s'.slotPage (junk j).paddr = s.slotPage e.paddr) ∧
    (e.inMem = true → e.writable = false → s'.stored new j = none →
      ∀ d, s.Loads old j d ↔ d = s.ram.page e.paddr) := by
  have hpte : s.pte old j = some e := h.pte.trans he
  have hshape := h.good.shaped j e hpte
  have hstored := h.good.stored_of_pte hpte
  obtain ⟨-, hcopied⟩ := h.loop.stored_new he
  rw [Sys.copySource] at hcopied
  by_cases hswap : e.inSwap = true
  · -- a page in the swap file is writable, so its copy has been kept
    have hout : e.inMem = false := by
      by_contra hin
      rw [hshape.1 (by simpa using hin)] at hswap
      cases hswap
    have hw := hshape.2.1 hswap
    rw [if_pos hswap] at hstored hcopied
    have hnew : s'.stored new j = some (s'.slotPage (junk j).paddr) := by
      rcases hcopied with hnew | ⟨-, hro⟩
      · exact hnew
      · rw [hw] at hro
        cases hro
    simp only [Sys.yields_of_some hnew, Sys.yields_of_some hstored]
    refine ⟨fun hall => ⟨fun _ => (hall _).mp rfl, fun hin => ?_⟩, fun hall d => by rw [hall.1 hswap]⟩
    rw [hout] at hin
    cases hin
  rw [if_neg hswap] at hstored hcopied
  by_cases hin : e.inMem = true
  · rw [if_pos hin, (h.frames_kept hpte hin).2] at hcopied
    rw [if_pos hin] at hstored
    rcases hcopied with hnew | ⟨hnew, hw⟩
    · refine iff_of_true (fun d => ?_) ⟨fun hs => absurd hs hswap, fun _ _ hno => ?_⟩
      · rw [Sys.yields_of_some hnew, Sys.yields_of_some hstored]
      · rw [hnew] at hno
        cases hno
    · simp only [Sys.yields_of_none hnew, Sys.yields_of_some hstored, h.loads_iff]
      exact ⟨fun hall => ⟨fun hs => absurd hs hswap, fun _ _ _ => hall⟩,
        fun hall => hall.2 hin hw hnew⟩
  · rw [if_neg hin] at hstored hcopied
    have hnew : s'.stored new j = none := hcopied.elim id And.left
    refine iff_of_true (fun d => ?_) ⟨fun hs => absurd hs hswap, fun hm => absurd hm hin⟩
    rw [Sys.yields_of_none hnew, Sys.yields_of_none hstored, h.loads_iff]

/-- **A copy that has been made is exact if it has read the right slots and can load
again what it has discarded.** -/
theorem exact_iff :
    ExactCopy old new s s' ↔ SlotsAgree old junk s s' ∧ Reloadable old new s s' := by
  constructor
  · intro hex
    have hyields := fun j e (he : s.pte old j = some e) =>
      (h.yields_iff (h.pte ▸ he)).mp (hex.contents j)
    exact ⟨fun j e he => (hyields j e he).1, fun j e he => (hyields j e he).2⟩
  · rintro ⟨hslots, hreload⟩
    obtain ⟨x, hx, hseg, -, hn, hloc, hpages⟩ := h.loop.table_eq
    refine ⟨⟨y, x, h.as, hx, hseg, hn, hpages⟩, fun j => ?_, fun _ _ _ _ => h.disjoint,
      congrArg Own.as h.own_old, fun _ _ => h.frames_kept, fun _ _ => h.slots_kept, ?_⟩
    · cases he : y.pt[j]? with
      | some e =>
          have hj : s.pte old j = some e := h.pte.trans he
          exact (h.yields_iff he).mpr ⟨hslots j e hj, hreload j e hj⟩
      | none =>
          -- there is no such page in either
          have hlen : x.pt.length = y.pt.length := by simpa using congrArg List.length hpages
          have hnone : s'.pte new j = none := by
            rw [Sys.pte, hx, Option.bind_some, List.getElem?_eq_none_iff, hlen]
            exact List.getElem?_eq_none_iff.mp he
          intro d
          rw [Sys.yields_of_none (by rw [Sys.stored, hnone]; rfl),
            Sys.yields_of_none (by rw [Sys.stored, h.pte, he]; rfl), h.loads_iff]
    · refine ⟨x, y.pt.length, i, hx, hn.trans h.loop.laid.npages, ?_, h.block⟩
      rw [hloc, h.inv.frameAddr_eq h.lt]

end CopyMade

/-- `as_copy` of an address space at rest, while there is a free frame. -/
theorem copyMade_of_asCopy {r : AsId} (hi : Inv P g s) (hold : s.as old = some y)
    (hgood : Good P (own old g s) ∅) (hgone : s.as new = none → Does.Gone (own new g s))
    (hfree : firstFree s.coremap ≠ none) (hP : P.slots ≤ P.firstpaddr) (hslots : P.slots ≤ 2 ^ 20)
    (h : (asCopy old (some new) (some y.v) junk).run t s = .ok (.ok r, s')) :
    ∃ g' i, CopyMade P y old new junk i g s g' s' := by
  obtain ⟨hne, g', i, hb, hloop, hlt, hblock⟩ := asCopy_made hi hold hgood hgone hfree hP hslots h
  exact ⟨g', i, hi, hold, hgood, hne, hb, hloop, asCopy_leaves _ _ _ h, hlt, hblock⟩

/-- A copy is not exact if its table was put where something else is. -/
theorem ExactCopy.free (h : ExactCopy old new s s') : firstFree s.coremap ≠ none := by
  obtain ⟨x, n, k, -, -, -, hfree⟩ := h.home
  intro hnone
  have h0 := hfree 0 (by omega)
  obtain ⟨e, he, hef⟩ := (Option.any_eq_true _ _).mp h0
  exact absurd hef (by simp [firstFree_eq_none.mp hnone e (List.mem_of_getElem? he)])

end

/-! ## Processes that copy themselves -/

namespace Processes

open Calls

variable {P : Layout} {g g' : Ghost} {m m' : Machine} {old new a : AsId} {junk : Nat → PtEntry}
  {y : Addrspace} {s s' : Sys} {t : Tid} {r : AsId} {i : Nat}

/-- The record once the pages of `a` are known from what is stored for them. -/
def Record.enter (r : Record) (a : AsId) (s : Sys) : Record :=
  Function.update r a (s.stored a)

/-- A step of the machine, or a copy that the running process has made of its address
space, taken as one step. -/
inductive ForkStep (m : Machine) : Machine → Prop where
  | step {m' : Machine} (h : Step m m') : ForkStep m m'
  | copy {old new r : AsId} {junk : Nat → PtEntry} {y : Addrspace} {s : Sys} (hu : m.InUser old)
      (hbusy : ¬ m.Busy new) (hroom : firstFree m.sys.coremap ≠ none) (hold : m.sys.as old = some y)
      (hrun : (asCopy old (some new) (some y.v) junk).run m.running m.sys = .ok (.ok r, s)) :
      ForkStep m { m with sys := s, record := Record.enter m.record new s }

/-- Runs from boot of the machines of `steady`, with copies. -/
def forking : Transitions Machine where
  start := steady.start
  step := ForkStep

/-- What the record says of a copy is what is stored for it. -/
theorem enter_observed {mem : Record} (hi : Inv P g' s') (hnew : s'.as new ≠ none)
    (hmem : ∀ b, b ≠ new → g'.mem b = mem b) :
    Inv P { g' with mem := Record.enter mem new s' } s' := by
  have hother : ∀ b, b ≠ new → Record.enter mem new s' b = g'.mem b := fun b hb =>
    (Function.update_of_ne hb ..).trans (hmem b hb).symm
  obtain ⟨hnone, hin⟩ := Sys.observe_eq_self.mp hi.observed
  refine { hi with observed := Sys.observe_eq_self.mpr ⟨fun b hb => ?_, fun b j e he hm => ?_⟩ }
  · have hbn : b ≠ new := fun h => hnew (h ▸ hb)
    exact (hother b hbn).trans (hnone b hb)
  · by_cases hbn : b = new
    · subst hbn
      have hself : Record.enter mem b s' b j = s'.stored b j := congrFun (Function.update_self ..) j
      rw [Sys.stored, he, Option.bind_some, if_pos hm] at hself
      exact fun hno => absurd (hself.symm.trans hno) (by simp)
    · exact fun hno => hin b j e he hm ((congrFun (hother b hbn) j).symm.trans hno)

namespace Transparent

theorem copied (hm : Transparent P g m) (hbusy : ¬ m.Busy new)
    (h : CopyMade P y old new junk i g m.sys g' s') :
    ∃ g2, Transparent P g2 { m with sys := s', record := Record.enter m.record new s' } := by
  obtain ⟨x, hx, -⟩ := h.loop.table_eq
  have hmem : ∀ b, b ≠ new → g'.mem b = m.record b := fun b hb => by
    rw [hm.record]
    exact congrArg Own.mem (h.beside.others hb)
  have hinv := enter_observed h.beside.inv (by rw [hx]; simp) hmem
  set g2 : Ghost := { g' with mem := Record.enter m.record new s' } with hg2
  have hown : ∀ b, b ≠ new → own b g2 s' = own b g' s' := fun b hb =>
    Own.ext rfl rfl rfl ((Function.update_of_ne hb ..).trans (hmem b hb).symm)
  have hs := hm.sound.scheduled
  have hserved : ¬ m.Served new := fun h => hbusy (.inr h)
  refine ⟨g2, hm.sound.pass ⟨h.beside.cur.trans hs.cur, hs.present, hs.kthread, hs.apart, hs.tended⟩
    hinv (fun _ _ _ => Iff.rfl) fun b => ?_, rfl, hm.kpages.keep h.beside.keeps⟩
  by_cases hb : b = new
  · subst hb
    have hgood : Good P (own b g2 s') ∅ := h.loop.good_new.congr rfl rfl rfl
    refine .inr ⟨?_, Resting.rests ⟨.good hgood, fun j _ => ?_, fun hcur => ?_⟩ hinv⟩
    · rintro ⟨t, _, p, hjob, rfl⟩
      exact hserved ⟨t, p, hjob⟩
    · refine Eq.trans ?_ hgood.stored_own.symm
      exact congrFun (Function.update_self ..) j
    · rw [h.beside.cur] at hcur
      exact absurd hcur (hs.cur_ne hbusy)
  · refine .inl ⟨fun _ => hinv, fun v hv => ?_⟩
    obtain ⟨hseen, htlb⟩ := (h.beside.rely b hb).2 v hv
    exact ⟨(hown b hb).trans hseen, htlb⟩

theorem copyMade (hm : Transparent P g m) (hP : P.slots ≤ P.firstpaddr) (hslots : P.slots ≤ 2 ^ 20)
    (hs : ¬ m.Served old) (htab : hasTable m.sys old = true) (hbusy : ¬ m.Busy new)
    (hroom : firstFree m.sys.coremap ≠ none) (hold : m.sys.as old = some y)
    (hrun : (asCopy old (some new) (some y.v) junk).run t m.sys = .ok (.ok r, s')) :
    ∃ g' i, CopyMade P y old new junk i g m.sys g' s' := by
  refine copyMade_of_asCopy hm.inv hold (hm.good hs htab) (fun hnone => ?_) hroom hP hslots hrun
  exact (hm.rest fun h => hbusy (.inr h)).phase.gone_of_none hnone

end Transparent

/-- The bookkeeping is in order in every state that processes and their copies can get
the machine into. -/
theorem transparent_of_forking (h : forking.Reachable m) :
    ∃ P g, P.slots ≤ P.firstpaddr ∧ P.slots ≤ 2 ^ 20 ∧ Transparent P g m := by
  refine h.invariant (I := fun m => ∃ P g, P.slots ≤ P.firstpaddr ∧ P.slots ≤ 2 ^ 20 ∧
    Transparent P g m) ?_ ?_
  · rintro m ⟨hstart, hreads, hslots, hfirst⟩
    obtain ⟨g, hm⟩ := transparent_of_start hstart hreads
    exact ⟨_, g, hfirst.le, Nat.le_trans hslots (by decide), hm⟩
  · rintro m m' ⟨P, g, hP, hslots, hm⟩ hstep
    cases hstep with
    | step hs =>
        obtain ⟨g', hm'⟩ := hm.step hP hslots hs
        exact ⟨P, g', hP, hslots, hm'⟩
    | copy hu hbusy hroom hold hrun =>
        have hs := hm.sound.scheduled.not_served hu.2.1
        obtain ⟨g', i, hmade⟩ := hm.copyMade hP hslots hs hu.2.2 hbusy hroom hold hrun
        obtain ⟨g2, hm'⟩ := hm.copied hbusy hmade
        exact ⟨P, g2, hP, hslots, hm'⟩

/-- **When `as_copy` makes an exact copy.** In every state that processes and their
copies can get the machine into, of every address space that no thread is at work on. -/
theorem copy_exact_iff (h : forking.Reachable m) (hs : ¬ m.Served old)
    (htab : hasTable m.sys old = true) (hbusy : ¬ m.Busy new) (hold : m.sys.as old = some y)
    (hrun : (asCopy old (some new) (some y.v) junk).run t m.sys = .ok (.ok r, s')) :
    ExactCopy old new m.sys s' ↔ firstFree m.sys.coremap ≠ none ∧
      SlotsAgree old junk m.sys s' ∧ Reloadable old new m.sys s' := by
  obtain ⟨P, g, hP, hslots, hm⟩ := transparent_of_forking h
  by_cases hroom : firstFree m.sys.coremap = none
  · exact iff_of_false (fun hex => hex.free hroom) fun hall => hall.1 hroom
  · obtain ⟨g', i, hmade⟩ := hm.copyMade hP hslots hs htab hbusy hroom hold hrun
    rw [hmade.exact_iff]
    exact ⟨fun hall => ⟨hroom, hall⟩, And.right⟩

/-- Five frames behind the coremap, and a swap file of eight slots. -/
def fiveFrames : Config :=
  ⟨boot .calm (fun _ => 0) (fun _ => 0) (7 * pageSize) pageSize (8 * pageSize), []⟩

theorem forkStep_of_step (m m' : Machine) (h : Step m m') : forking.step m m' := .step h

theorem atBoot_fiveFrames : At forking fiveFrames .kernel atBoot :=
  ⟨_, .init ⟨start_atBoot (fresh_boot (by decide) (by decide) (by decide)), fun _ => rfl, by decide,
    by decide⟩⟩

/-- Process 0 copies its address space; what was it, and the state after that. -/
def forked (junk : Nat → PtEntry) (c : Config) : Option (Addrspace × Sys) :=
  (c.sys.as 0).bind fun y =>
    match (asCopy 0 (some 1) (some y.v) junk).run (.proc 0) c.sys with
    | .ok (.ok _, s) => some (y, s)
    | _ => none

theorem forked_eq_some {c : Config} (h : forked junk c = some (y, s)) : c.sys.as 0 = some y ∧
    ∃ r, (asCopy 0 (some 1) (some y.v) junk).run (.proc 0) c.sys = .ok (.ok r, s) := by
  obtain ⟨x, hx, h⟩ := Option.bind_eq_some_iff.mp h
  split at h
  · next r s1 hrun =>
      cases h
      exact ⟨hx, r, hrun⟩
  · cases h

/-- A process with two pages of its stack in memory; the page tables, these pages and one
page of the copy fill the memory. -/
def twoPages : Option Config :=
  (launch .kernel 0 fiveFrames).bind fun c =>
    [Call.fault .write (stackPage 0), .fault .write (stackPage 1)].foldlM (perform (.proc 0)) c

theorem launched_idle (t : Tid) (a : AsId) (p : VM Unit) :
    Function.update atBoot (.proc 0) .free t ≠ .work a p := by
  by_cases ht : t = .proc 0
  · rw [ht, Function.update_self]
    simp
  · rw [Function.update_of_ne ht]
    exact atBoot_idle t a p

theorem launched_not_busy {m : Machine} (h : m.job = Function.update atBoot (.proc 0) .free) :
    ¬ m.Served 0 ∧ ¬ m.Busy 1 := by
  have hidle : ∀ t a p, m.job t ≠ .work a p := fun t a p => by rw [h]; exact launched_idle t a p
  refine ⟨fun ⟨t, p, ht⟩ => hidle t 0 p ht, ?_⟩
  rintro (habs | ⟨t, p, ht⟩)
  · rw [h, Function.update_of_ne (by simp)] at habs
    exact habs rfl
  · exact hidle t 1 p ht

set_option maxRecDepth 100000 in
/-- Process 0 copies itself; the first page of the copy is evicted to make room for the
second. -/
theorem twoPages_copied : ∃ m s' y r, forking.Reachable m ∧ ¬ m.Served 0 ∧
    hasTable m.sys 0 = true ∧ ¬ m.Busy 1 ∧ m.sys.as 0 = some y ∧
    firstFree m.sys.coremap ≠ none ∧
    (asCopy 0 (some 1) (some y.v) fun _ => ⟨0, 0, false, false, 0⟩).run (.proc 0) m.sys =
      .ok (.ok r, s') ∧
    (∀ j e, m.sys.pte 0 j = some e → e.inSwap = false ∧ (e.inMem = true → e.writable = true)) ∧
    (s'.pte 1 0).map (·.inSwap) = some true := by
  have hrun : twoPages.any (fun c => hasTable c.sys 0 && ((firstFree c.sys.coremap).isSome &&
      (forked (fun _ => ⟨0, 0, false, false, 0⟩) c).any fun r =>
        r.1.pt.all (fun e => !e.inSwap && (!e.inMem || e.writable)) &&
          (r.2.pte 1 0).map (·.inSwap) == some true)) = true := by
    decide +kernel
  obtain ⟨c, hc, hcheck⟩ := (Option.any_eq_true _ _).mp hrun
  simp only [Bool.and_eq_true, beq_iff_eq, Option.any_eq_true, List.all_eq_true] at hcheck
  obtain ⟨htab, hfree, ⟨y, s'⟩, hfork, hall, hswap⟩ := hcheck
  obtain ⟨hold, r, hcopy⟩ := forked_eq_some hfork
  obtain ⟨c1, h1, hc⟩ := Option.bind_eq_some_iff.mp hc
  have hM : ∀ m m', Step m m' → True → forking.step m m' :=
    fun m m' hs _ => forkStep_of_step m m' hs
  obtain ⟨hat, htab1⟩ := atBoot_fiveFrames.launch (C := fun _ _ => True) hM rfl atBoot_idle rfl
    (fun _ _ _ => trivial) h1
  obtain ⟨⟨rd, hr⟩, -⟩ := hat.faults (C := fun _ _ => True) hM _ (by simp)
    (Function.update_self ..) htab1 (fun _ => trivial) hc
  obtain ⟨hserved, hbusy⟩ := launched_not_busy (m := ⟨c.sys, c.kpages, .proc 0, _, rd⟩) rfl
  refine ⟨_, s', y, r, hr, hserved, htab, hbusy, hold, Option.isSome_iff_ne_none.mp hfree, hcopy,
    ?_, hswap⟩
  intro j e he
  replace he : (c.sys.as 0).bind (·.pt[j]?) = some e := he
  rw [hold, Option.bind_some] at he
  have hcheck := hall e (List.mem_of_getElem? he)
  simp only [Bool.or_eq_true, Bool.not_eq_true'] at hcheck
  refine ⟨hcheck.1, fun hin => hcheck.2.resolve_left ?_⟩
  simp [hin]

theorem copy_exact_twoPages : ∃ m s', forking.Reachable m ∧ ExactCopy 0 1 m.sys s' ∧
    (s'.pte 1 0).map (·.inSwap) = some true := by
  obtain ⟨m, s', y, r, hr, hserved, htab, hbusy, hold, hroom, hcopy, hpage, hswap⟩ := twoPages_copied
  refine ⟨m, s', hr, (copy_exact_iff hr hserved htab hbusy hold hcopy).mpr ⟨hroom, ?_, ?_⟩, hswap⟩
  · intro j e he hin
    rw [(hpage j e he).1] at hin
    cases hin
  · intro j e he hin hw
    rw [(hpage j e he).2 hin] at hw
    cases hw

end Processes

end Os161Paging
