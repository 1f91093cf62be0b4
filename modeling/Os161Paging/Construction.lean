import Os161Paging.Blocks
import Os161Paging.Startup
import Os161Paging.Teardown

/-!
# Destroying what is not finished

An address space is built in steps: `as_create`, any number of calls of
`as_define_region`, `as_prepare_load`. When `load_elf` fails on the way, the
structure stays with the process and `as_destroy` meets it later in whatever
stage it was left. Only the last step sets the fields that `as_destroy` reads.
-/

namespace Os161Paging

open Prog

variable {t : Tid} {s s1 s2 s3 s' : Sys} {a : AsId}

/-! ## as_destroy of pages that were never touched -/

theorem clearSlots_run_fresh {pt : List PtEntry} (h : ∀ e ∈ pt, e.inSwap = false) :
    (clearSlots pt).run t s = .ok ((), s) := by
  induction pt with
  | nil => rfl
  | cons e pt ih =>
      have he : (clearSlot e).run t s = .ok ((), s) := by
        rw [clearSlot, h e List.mem_cons_self]
        rfl
      rw [clearSlots, run_bind, he, Outcome.bind_ok]
      exact ih fun e' he' => h e' (List.mem_cons_of_mem _ he')

/-- `as_destroy` of an address space that has its page table in the block at `i` and
no page in the swap file. -/
theorem asDestroy_run_fresh {x : Addrspace} {n i : Nat} {e : CEntry} (hgeo : s.Geometry)
    (hsleep : s.spinning t = false) (hpt : s.owner (.pt a) = none)
    (hl : s.owner .coremap = none) (hx : s.as a = some x) (hn : x.npages = some n)
    (hloc : x.asPt = some (s.frameAddr i)) (hfresh : ∀ e ∈ x.pt, e.inSwap = false)
    (he : s.coremap[i]? = some e) (hle : i + e.allocpages ≤ s.coremapSize) :
    (asDestroy a).run t s = .ok ((), (s.emptyRun i e.allocpages).withoutAs a) := by
  have h1 : canSleep.run t s = .ok ((), s) := canSleep_eq_ok.mpr ⟨hsleep, rfl⟩
  have h2 : (lockAcquire (.pt a)).run t s = .ok ((), s.take t (.pt a)) :=
    lockAcquire_eq_ok.mpr ⟨hpt, rfl⟩
  have h3 : (getAs a).run t (s.take t (.pt a)) = .ok (x, s.take t (.pt a)) :=
    getAs_eq_ok.mpr ⟨hx, rfl⟩
  have h4 : (clearSlots (x.pt.take n)).run t (s.take t (.pt a)) = .ok ((), s.take t (.pt a)) :=
    clearSlots_run_fresh fun e he => hfresh e (List.mem_of_mem_take he)
  have h5 : (lockRelease (.pt a)).run t (s.take t (.pt a)) = .ok ((), s) :=
    lockRelease_eq_ok.mpr ⟨Sys.take_owner_self, (Sys.take_drop hpt).symm⟩
  have h6 : (freepages x.ptPaddr).run t s = .ok ((), s.emptyRun i e.allocpages) := by
    rw [Addrspace.ptPaddr, hloc, Option.getD_some]
    exact Blocks.freepages_run hgeo hl he hle
  have h7 := freeAs_eq_ok (t := t) (a := a) (s := s.emptyRun i e.allocpages) (u := ()) |>.mpr
    ⟨hl, rfl⟩
  simp only [asDestroy, run_bind, h1, h2, h3, hn, h4, h5, h6, h7, Outcome.bind_ok]
  rfl

/-- Before `npages` is set, `as_destroy` does not return. -/
theorem asDestroy_npages {u : Unit} {x : Addrspace} (h : (asDestroy a).run t s = .ok (u, s'))
    (hx : s.as a = some x) : x.npages ≠ none := by
  obtain ⟨x', n, -, hx', hn, -⟩ := asDestroy_eq_ok h
  obtain rfl := Option.some.inj (hx.symm.trans hx')
  rw [hn]
  exact nofun

/-! ## The stages -/

/-- How far the construction got after the last `as_define_region`. -/
inductive Stage where
  | defined
  | prepared (r : Option Errno)

def Stage.Leads (a : AsId) (t : Tid) (s s' : Sys) : Stage → Prop
  | .defined => s' = s
  | .prepared r => (asPrepareLoad a).run t s = .ok (r, s')

/-- The frame `k` is held by `a`: its entry says so, or it is part of the block at
`as_pt`. -/
def Sys.Holds (s : Sys) (a : AsId) (k : Nat) : Prop :=
  (∃ e, s.coremap[k]? = some e ∧ e.as = some a) ∨
    ∃ x i e, s.as a = some x ∧ x.asPt = some (s.frameAddr i) ∧ s.coremap[i]? = some e ∧
      i ≤ k ∧ k < i + e.allocpages

/-- `as_destroy` of `a` in the state `s` reads nothing it should not, gives back the
frames that `a` holds and changes nothing else. In the state `s0`, all regions had
been defined. -/
structure DestroyedSafely (t : Tid) (a : AsId) (s0 s s' : Sys) : Prop where
  returns : (asDestroy a).run t s = .ok ((), s')
  gone : s'.as = Function.update s.as a none
  released : ∀ k, s.Holds a k → ∃ e, s'.coremap[k]? = some e ∧ e.isFree = true ∧ e.as = none
  kept : ∀ k, ¬ s.Holds a k → s'.coremap[k]? = s.coremap[k]?
  others : ∀ (k : Nat) e, s0.coremap[k]? = some e → e.isFree = false → e.as ≠ some a →
    s'.coremap[k]? = some e
  slots : s'.swapMap = s.swapMap ∧ s'.used = s.used

theorem withoutAs_getElem {k : Nat} :
    (s.withoutAs a).coremap[k]? = s.coremap[k]?.map (CEntry.without a) := List.getElem?_map ..

theorem without_of_ne {e : CEntry} (h : e.as ≠ some a) : e.without a = e := if_neg h

/-- A page table in a block of its own, and no page yet: `as_destroy` does what it
should. -/
theorem destroyedSafely_of_prepared {j : Nat} (hgeo : s2.Geometry)
    (hsleep : s2.spinning t = false) (hj : firstFree s2.coremap = some j)
    (h : (asPrepareLoad a).run t s2 = .ok (none, s3)) :
    ∃ s', DestroyedSafely t a s2 s3 s' := by
  obtain ⟨hr, -⟩ | ⟨x, loc, sT, hx, hpt, hT, ⟨-, hr, -⟩ | ⟨-, -, -, hs3⟩⟩ := asPrepareLoad_cases h
  · cases hr
  · cases hr
  have hj1 : firstFree (s2.beforeTable t a x).coremap = some j := hj
  have hact1 : (s2.beforeTable t a x).coremapActive = true := hgeo.active
  obtain ⟨i, hloc, htakes⟩ := Blocks.ptAlloc_takes hact1 hj1 hT
  have hsT := Blocks.ptAlloc_coremap hact1 hj1 hT
  have hl : s2.owner .coremap = none := by simpa [Sys.beforeTable] using (ptAlloc_cases hT).1
  generalize max 1 (ptFrames (totalPages (x.asSegment ++ [stackSegment]))) = m at htakes
  -- what `as_prepare_load` has left of the state
  have hcm : s3.coremap = sT.coremap := by rw [hs3]; rfl
  have hfirst : s3.firstpaddr = s2.firstpaddr := by rw [hs3, hsT]; rfl
  have hact : s3.coremapActive = s2.coremapActive := by rw [hs3, hsT]; rfl
  have hsize : s3.coremapSize = s2.coremapSize := by
    rw [Sys.coremapSize, hcm]
    exact htakes.size
  have howner : s3.owner = s2.owner := by
    rw [hs3, hsT]
    funext l
    by_cases hla : l = .pt a
    · simp [Sys.drop, hla, hpt]
    · simp [Sys.drop, Sys.setAs, Sys.beforeTable, Sys.take, hla]
  have hgeo3 : s3.Geometry := hgeo.congr hact hfirst hsize
  have haddr : s3.frameAddr = s2.frameAddr := Blocks.frameAddr_congr hfirst
  have hx3 : s3.as a = some (x.prepared loc) := by rw [hs3]; exact Function.update_self ..
  have hloc3 : (x.prepared loc).asPt = some (s3.frameAddr i) := by rw [haddr, hloc]; rfl
  obtain ⟨e, he, hlen⟩ := htakes.head
  rw [← hcm] at he
  have hend := freeAt_lt (htakes.free (i + m - 1) (by have := htakes.pos; omega)
    (by have := htakes.pos; omega))
  have hle : i + e.allocpages ≤ s3.coremapSize := by
    have := htakes.pos
    rw [hlen, hsize, Sys.coremapSize]
    change i + m - 1 < s2.coremap.length at hend
    omega
  have hrun := asDestroy_run_fresh (t := t) hgeo3 (by rw [Sys.spinning, howner]; exact hsleep)
    (by rw [howner, hpt]) (by rw [howner, hl]) hx3 rfl hloc3
    (fun e he => (mem_freshPt he).2.1) he hle
  rw [hlen] at hrun
  -- the block is what the address space holds beyond the entries with its name
  have hblock : ∀ k, (i ≤ k ∧ k < i + m) → ∃ e', s3.coremap[k]? = some e' ∧ e'.as = none := by
    intro k hk
    obtain ⟨e', he', -, has, -⟩ := htakes.taken k hk.1 hk.2
    exact ⟨e', by rw [hcm, he'], has⟩
  have hout : ∀ k e', ¬ (i ≤ k ∧ k < i + m) → s3.coremap[k]? = some e' → e'.as ≠ some a →
      ((s3.emptyRun i m).withoutAs a).coremap[k]? = some e' := by
    intro k e' hk he' hne
    rw [withoutAs_getElem, emptyRun_getElem hk htakes.pos, he', Option.map_some, without_of_ne hne]
  refine ⟨_, hrun, rfl, fun k hk => ?_, fun k hk => ?_, fun k e' he' hused hne => ?_, rfl, rfl⟩
  · rcases hk with ⟨e', he', has⟩ | ⟨x', i', e', hx', hi', he', hk⟩
    · have hk : ¬ (i ≤ k ∧ k < i + m) := by
        intro hk
        obtain ⟨e2, he2, hnone⟩ := hblock k hk
        obtain rfl := Option.some.inj (he'.symm.trans he2)
        rw [hnone] at has
        cases has
      refine ⟨e'.setEmpty, ?_, CEntry.setEmpty_isFree _, rfl⟩
      rw [withoutAs_getElem, emptyRun_getElem hk htakes.pos, he', Option.map_some, CEntry.without,
        if_pos has]
    · obtain rfl := Option.some.inj (hx3.symm.trans hx')
      have hii : i' = i := hgeo3.frameAddr_inj (List.getElem?_eq_some_iff.mp he').1.le
        (List.getElem?_eq_some_iff.mp he).1.le (Option.some.inj (hi'.symm.trans hloc3))
      subst hii
      obtain rfl := Option.some.inj (he.symm.trans he')
      rw [hlen] at hk
      obtain ⟨e2, he2, -⟩ := hblock k hk
      obtain ⟨e3, he3, hfree, has⟩ := emptyRun_isFree hk he2
      refine ⟨e3, ?_, hfree, has⟩
      rw [withoutAs_getElem, he3, Option.map_some, without_of_ne (by simp [has])]
  · have hkb : ¬ (i ≤ k ∧ k < i + m) :=
      fun hin => hk (.inr ⟨_, i, e, hx3, hloc3, he, hin.1, by rw [hlen]; exact hin.2⟩)
    cases he' : s3.coremap[k]? with
    | none => rw [withoutAs_getElem, emptyRun_getElem hkb htakes.pos, he', Option.map_none]
    | some e' => exact hout k e' hkb he' fun has => hk (.inl ⟨e', he', has⟩)
  · have hkb : ¬ (i ≤ k ∧ k < i + m) := by
      intro hin
      obtain ⟨e2, he2, hfree⟩ := freeAt_eq_true.mp (htakes.free k hin.1 hin.2)
      obtain rfl := Option.some.inj (he'.symm.trans he2)
      rw [hused] at hfree
      cases hfree
    exact hout k e' hkb (by rw [hcm, htakes.rest k hkb]; exact he') hne

/-- Without a frame to be had, `as_prepare_load` returns with `coremap_lock` held. -/
theorem asPrepareLoad_full (hgeo : s2.Geometry) (hfull : firstFree s2.coremap = none)
    (h : (asPrepareLoad a).run t s2 = .ok (none, s3)) : s3.spinning t = true := by
  obtain ⟨hr, -⟩ | ⟨x, loc, sT, -, -, hT, ⟨-, hr, -⟩ | ⟨-, -, -, rfl⟩⟩ := asPrepareLoad_cases h
  · cases hr
  · cases hr
  obtain ⟨-, ⟨hin, -⟩ | ⟨-, hn, first, hf, -, rfl⟩ | ⟨-, -, i, hi, -, rfl⟩ | ⟨-, -, -, -, rfl⟩⟩ :=
    ptAlloc_cases hT
  · change s2.coremapActive = false at hin
    rw [hgeo.active] at hin
    cases hin
  · have hfree := multiScan_free hf (Nat.le_refl 0) (by omega) first (Nat.le_refl _) (by omega)
    obtain ⟨e, he, hef⟩ := freeAt_eq_true.mp hfree
    rw [firstFree_eq_none.mp hfull e (List.mem_of_getElem? he)] at hef
    cases hef
  · change firstFree s2.coremap = some i at hi
    rw [hfull] at hi
    cases hi
  · simp [Sys.spinning, Sys.drop, Sys.setAs, Sys.take]

/-- If `as_prepare_load` reports an error, it has not set `npages`. -/
theorem asPrepareLoad_error {r : Errno} {x : Addrspace} (hgeo : s2.Geometry)
    (hx : s2.as a = some x) (h : (asPrepareLoad a).run t s2 = .ok (some r, s3)) :
    s3.as a = some x := by
  obtain ⟨-, rfl⟩ | ⟨y, loc, sT, -, -, hT, ⟨hz, -, -⟩ | ⟨-, hr, -⟩⟩ := asPrepareLoad_cases h
  · exact hx
  · have hgeo1 : (s2.beforeTable t a y).Geometry := hgeo.congr rfl rfl rfl
    have hin := (ptAlloc_owner (fun _ => hgeo1) hT).2.2.1.mp hz
    rw [hgeo1.active] at hin
    cases hin
  · cases hr

/-- **An address space can be destroyed only when it is finished**: after `as_create`
and any successful calls of `as_define_region`, `as_destroy` reads only what was
initialised, gives back exactly what the address space holds and leaves everything
else alone, if and only if `as_prepare_load` was reached, succeeded and had a free
frame to put the page table in. -/
theorem destroy_safe_iff {p : Option AsId} {f : Option File} {gs : List RegionArgs} {stage : Stage}
    (hgeo : s.Geometry) (hc : (asCreate p f).run t s = .ok (.ok a, s1))
    (hd : (defineRegions a gs).run t s1 = .ok (none, s2)) (hs : stage.Leads a t s2 s3) :
    (∃ s', DestroyedSafely t a s2 s3 s') ↔
      stage = .prepared none ∧ ∃ e ∈ s2.coremap, e.isFree = true := by
  obtain ⟨-, ⟨e, he⟩, -⟩ | ⟨a', v, -, -, -, hr, -, hs1⟩ := asCreate_cases hc
  · cases he
  cases hr
  have hx1 : s1.as a = some ⟨none, [], [], v, none⟩ := by rw [hs1]; exact Function.update_self ..
  have hs2 := defineRegions_eq_none hx1 hd
  have hx2 : s2.as a = some ⟨none, [], gs.map RegionArgs.segment, v, none⟩ := by
    rw [hs2]
    simp
  have hgeo2 : s2.Geometry := hgeo.congr (by rw [hs2, hs1]; rfl) (by rw [hs2, hs1]; rfl)
    (by rw [hs2, hs1]; rfl)
  have hsleep : s2.spinning t = false := by
    obtain ⟨_, _, h1, -⟩ := run_bind_eq_ok.mp hc
    rw [hs2, hs1]
    exact (canSleep_eq_ok.mp h1).1
  constructor
  · rintro ⟨s', hsafe⟩
    cases stage with
    | defined =>
        obtain rfl := hs
        exact absurd rfl (asDestroy_npages hsafe.returns hx2)
    | prepared r =>
        cases r with
        | some r =>
            exact absurd rfl (asDestroy_npages hsafe.returns (asPrepareLoad_error hgeo2 hx2 hs))
        | none =>
            refine ⟨rfl, ?_⟩
            cases hfree : firstFree s2.coremap with
            | some j =>
                obtain ⟨e, he, hef⟩ := freeAt_eq_true.mp (firstFree_eq_some hfree)
                exact ⟨e, List.mem_of_getElem? he, hef⟩
            | none =>
                obtain ⟨_, _, h1, -⟩ := run_bind_eq_ok.mp hsafe.returns
                have := (canSleep_eq_ok.mp h1).1
                rw [asPrepareLoad_full hgeo2 hfree hs] at this
                cases this
  · rintro ⟨rfl, e, he, hef⟩
    cases hfree : firstFree s2.coremap with
    | some j => exact destroyedSafely_of_prepared hgeo2 hsleep hfree hs
    | none =>
        rw [firstFree_eq_none.mp hfree e he] at hef
        cases hef

def twoFrames : Sys := boot .calm (fun _ => 0) (fun _ => 0) (4 * pageSize) pageSize 0

def onePageFile : File := ⟨pageSize, fun _ => 0⟩

def notElf : Elf := ⟨[], 1, 2, 8, 52, 32, 0x400000, []⟩

/-- `load_elf` refuses the file, and `as_destroy` then reads fields that were never
set. -/
theorem destroy_after_failed_load :
    ∃ s1 s2, (asCreate (some 7) (some onePageFile)).run .kernel twoFrames = .ok (.ok 7, s1) ∧
      (loadElf 7 notElf).run .kernel s1 = .ok (.error .ENOEXEC, s2) ∧
      (asDestroy 7).run .kernel s2 = .undefined :=
  ⟨_, _, rfl, rfl, rfl⟩

theorem destroy_safe_twoFrames :
    ∃ s1 s2 s3 s', (asCreate (some 7) (some onePageFile)).run .kernel twoFrames = .ok (.ok 7, s1) ∧
      (defineRegions 7 [⟨0x400000, 0x1000, 0x1000, pfR, 0, pfX, 0⟩]).run .kernel s1 =
        .ok (none, s2) ∧
      (asPrepareLoad 7).run .kernel s2 = .ok (none, s3) ∧
      DestroyedSafely .kernel 7 s2 s3 s' := by
  have hsat : ((asCreate (some 7) (some onePageFile)).run .kernel twoFrames).Sat fun x =>
      x.1.toOption = some 7 ∧
      ((defineRegions 7 [⟨0x400000, 0x1000, 0x1000, pfR, 0, pfX, 0⟩]).run .kernel x.2).Sat fun y =>
        y.1 = none ∧ (∃ e ∈ y.2.coremap, e.isFree = true) ∧
        ((asPrepareLoad 7).run .kernel y.2).Sat fun z => z.1 = none := by decide +kernel
  obtain ⟨⟨_ | _, s1⟩, hc, hr, ⟨_, s2⟩, hd, rfl, hfree, ⟨_, s3⟩, hp, rfl⟩ := hsat
  · cases hr
  · cases hr
    have hgeo : twoFrames.Geometry := boot_geometry (by decide) (by decide) (by decide)
    have hs : (Stage.prepared none).Leads 7 .kernel s2 s3 := hp
    obtain ⟨s', h⟩ := (destroy_safe_iff hgeo hc hd hs).mpr ⟨rfl, hfree⟩
    exact ⟨s1, s2, s3, s', hc, hd, hp, h⟩

end Os161Paging
