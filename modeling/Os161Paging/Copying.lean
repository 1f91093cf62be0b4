import Os161Paging.Balance
import Os161Paging.Setup

/-!
# Copying an address space

The page loop of `as_copy` works on a page table whose entries from some
index on are whatever the frames held before. An eviction in the middle of
the loop searches that table. What carries the proof is the share *as if*
the rest of the table were untouched (`Own.mend`): it is the share of an
address space between two faults, and one round of the loop is a fault on
the next page of it.

- `Half.finds`: the search for a frame of the copy finds its page, before
  it comes to what is not yet filled in;
- `Half.taken`: a frame for the copy leaves the pages copied so far as they
  are, read-only ones apart, which may be gone;
- `Half.fill`, `Half.skip`: the two ways a round ends;
- `copyPages_half`: the loop.
-/

namespace Os161Paging

open Prog

/-! ## What a share stores -/

def Own.stored (o : Own) (j : Nat) : Option Page := (o.placeOf j).bind o.val

section Stored

variable {P : Layout} {o : Own} {spare : Set Place} {i j k q : Nat} {e : PtEntry} {d : Page}

theorem Own.stored_eq (he : o.pte j = some e) : o.stored j = e.place.bind o.val := by
  rw [stored, placeOf_eq he]

/-- A value in a place that no page has is not seen. -/
theorem Own.stored_set {x : Place} {c : Option Page} (hx : ∀ i, o.placeOf i ≠ some x) :
    (o.set x c).stored = o.stored := by
  funext i
  rw [stored, stored, placeOf_set]
  cases hy : o.placeOf i with
  | none => rfl
  | some y => exact Own.val_set_of_ne fun h => hx i (h ▸ hy)

theorem Own.stored_modPte {f : PtEntry → PtEntry} (he : o.pte j = some e) :
    (o.modPte j f).stored = Function.update o.stored j ((f e).place.bind o.val) := by
  funext i
  rw [stored, placeOf_modPte he]
  by_cases hi : i = j
  · rw [hi, Function.update_self, Function.update_self]
    rfl
  · rw [Function.update_of_ne hi, Function.update_of_ne hi]
    rfl

namespace Good

theorem stored_swapOut (hg : Good P o ∅) (he : o.pte j = some e) (hin : e.inMem = true)
    (hk : o.val (.slot k) = none) (hd : o.val (.frame e.paddr) = some d) :
    (o.swapOut j k d).stored = o.stored := by
  have hfree : ∀ i, o.placeOf i ≠ some (.slot k) := fun i hi => hg.tenancy.housed i _ hi hk
  rw [Own.swapOut, Own.stored_modPte (o := o.set (.slot k) (some d)) he, Own.stored_set hfree]
  refine Function.update_eq_self_iff.mpr ?_
  rw [Own.stored_eq he, PtEntry.place_inMem hin, Option.bind_some, hd]
  exact Own.val_set_self

theorem stored_discard (hg : Good P o ∅) (he : o.pte j = some e) (hin : e.inMem = true) :
    (o.discard j).stored = Function.update o.stored j none := by
  rw [Own.discard, Own.stored_modPte he]
  simp [PtEntry.place, (hg.shaped j e he).1 hin]

theorem stored_fillIn (hg : Good P o {.frame q}) (he : o.pte j = some e) :
    (o.fillIn j q d).stored = Function.update o.stored j (some d) := by
  have hset := Own.stored_set (c := some d) (hg.tenancy.vacant (.frame q) rfl)
  rw [← hset]
  refine (Own.stored_modPte (o := o.set (.frame q) (some d)) he).trans ?_
  rw [PtEntry.place_inMem rfl, Option.bind_some, Own.val_set_self]

theorem congr {o' : Own} (hg : Good P o spare) (has : o'.as = o.as) (hval : o'.val = o.val)
    (htab : o'.table = o.table) : Good P o' spare := by
  obtain ⟨as, val, table, mem⟩ := o'
  subst has hval htab
  exact ⟨hg.laid, hg.table, hg.shaped, hg.tenancy, hg.found⟩

end Good

end Stored

/-! ## Two address spaces with the same pages -/

/-- The lookup of `vm_fault` depends on the segments and the virtual addresses only. -/
theorem Addrspace.lookup_congr {x y : Addrspace} (hseg : x.asSegment = y.asSegment)
    (hpt : x.pt.map (·.vaddr) = y.pt.map (·.vaddr)) (fa : Nat) : x.lookup fa = y.lookup fa := by
  have hany : ∀ (pt : List PtEntry) (i : Nat),
      pt[i]?.any (·.vaddr == fa) = (pt.map (·.vaddr))[i]?.any (· == fa) := by
    intro pt i
    rw [List.getElem?_map, Option.any_map]
  have hscan : ∀ np n, scanSlice x.pt fa np n = scanSlice y.pt fa np n := by
    intro np n
    simp only [scanSlice, hany, hpt]
  simp only [lookup, hseg, hscan]

def PtEntry.blank (e : PtEntry) : PtEntry := { e with paddr := 0, inMem := false, inSwap := false }

def PtEntry.residentAt (e : PtEntry) (q : Nat) : PtEntry :=
  { e with paddr := q, inMem := true, inSwap := false }

def Own.noting (o : Own) (mem : Nat → Option Page) : Own := { o with mem := mem }

/-- The share as if the pages from `i` on were the untouched ones of `pt`. -/
def Own.mend (o : Own) (i : Nat) (pt : List PtEntry) : Own :=
  { o with as := o.as.map fun x => { x with pt := x.pt.take i ++ (pt.drop i).map PtEntry.blank } }

namespace Own

variable {o : Own} {i j : Nat} {x : Addrspace} {pt : List PtEntry} {f : PtEntry → PtEntry}

theorem pte_eq (hx : o.as = some x) : o.pte j = x.pt[j]? := by rw [pte, hx, Option.bind_some]

theorem mend_getElem {l : List PtEntry} (hlen : l.length = pt.length) (hi : i ≤ pt.length) :
    (l.take i ++ (pt.drop i).map PtEntry.blank)[j]? =
      if j < i then l[j]? else pt[j]?.map PtEntry.blank := by
  have htake : (l.take i).length = i := by rw [List.length_take]; omega
  rw [List.getElem?_append, htake]
  split
  · rename_i hj
    rw [List.getElem?_take_of_lt hj]
  · rename_i hj
    rw [List.getElem?_map, List.getElem?_drop]
    congr 2
    omega

theorem pte_mend (hx : o.as = some x) (hlen : x.pt.length = pt.length) (hi : i ≤ pt.length) :
    (o.mend i pt).pte j = if j < i then o.pte j else pt[j]?.map PtEntry.blank := by
  rw [mend, pte, hx, Option.map_some, Option.bind_some, mend_getElem hlen hi, pte_eq hx]

/-- A change to a page that is filled in is one of the mended share. -/
theorem mend_modPte_of_lt (hx : o.as = some x) (hlen : x.pt.length = pt.length)
    (hi : i ≤ pt.length) (hj : j < i) : (o.modPte j f).mend i pt = (o.mend i pt).modPte j f := by
  refine Own.ext ?_ rfl rfl rfl
  simp only [mend, modPte, hx, Option.map_some, Option.some.injEq, Addrspace.modifyPte,
    Addrspace.mk.injEq, and_true, true_and]
  refine List.ext_getElem? fun k => ?_
  rw [mend_getElem ((List.length_modify ..).trans hlen) hi, List.getElem?_modify,
    List.getElem?_modify, mend_getElem hlen hi]
  by_cases hk : k < i
  · simp [hk]
  · have hne : j ≠ k := by omega
    simp [hk, hne]

/-- A change to a page that is not filled in does not show. -/
theorem mend_modPte_of_le (hx : o.as = some x) (hj : i ≤ j) :
    (o.modPte j f).mend i pt = o.mend i pt := by
  refine Own.ext ?_ rfl rfl rfl
  simp only [mend, modPte, hx, Option.map_some, Option.some.injEq, Addrspace.modifyPte,
    Addrspace.mk.injEq, and_true, true_and]
  congr 1
  refine List.ext_getElem? fun k => ?_
  by_cases hk : k < i
  · have hne : j ≠ k := by omega
    simp [List.getElem?_take_of_lt hk, hne]
  · simp [hk]

theorem mend_succ {e b : PtEntry} (hx : o.as = some x) (hlen : x.pt.length = pt.length)
    (hb : pt[i]? = some b) (he : o.pte i = some e) (hf : f b.blank = e) :
    o.mend (i + 1) pt = (o.mend i pt).modPte i f := by
  have hi : i < pt.length := (List.getElem?_eq_some_iff.mp hb).1
  have he : x.pt[i]? = some e := (pte_eq hx).symm.trans he
  refine Own.ext ?_ rfl rfl rfl
  simp only [mend, modPte, hx, Option.map_some, Option.some.injEq, Addrspace.modifyPte,
    Addrspace.mk.injEq, and_true, true_and]
  refine List.ext_getElem? fun k => ?_
  rw [mend_getElem hlen hi, List.getElem?_modify, mend_getElem hlen hi.le]
  obtain hk | rfl | hk := Nat.lt_trichotomy k i
  · have hne : i ≠ k := by omega
    simp [hk, hne, Nat.lt_succ_of_lt hk]
  · simp [hb, he, hf]
  · have hne : i ≠ k := by omega
    simp [hne, Nat.not_lt.mpr hk.le, Nat.not_lt.mpr hk]

/-- A table that is filled in needs no mending. -/
theorem mend_all (hx : o.as = some x) (hlen : x.pt.length = pt.length) :
    o.mend pt.length pt = o := by
  refine Own.ext ?_ rfl rfl rfl
  rw [mend, hx, Option.map_some, ← hlen, List.take_length, List.drop_eq_nil_of_le hlen.ge,
    List.map_nil, List.append_nil]

end Own

/-! ## The table in the middle of the loop -/

/-- The copy of `y` with its first `i` pages filled in. The other entries have the
`paddr` the frames of the table held before. -/
structure Half (P : Layout) (y : Addrspace) (loc : Nat) (junk : Nat → PtEntry) (i : Nat)
    (spare : Set Place) (o : Own) : Prop where
  as : ∃ x, o.as = some x ∧ x.asSegment = y.asSegment ∧ x.v = y.v ∧ x.asPt = some loc ∧
    x.pt.length = y.pt.length
  le : i ≤ y.pt.length
  rest : ∀ j e, i ≤ j → o.pte j = some e → e.paddr = (junk j).paddr
  good : Good P (o.mend i y.pt) spare

/-- What a frame may cost a copy with `i` pages filled in: a read-only page. -/
structure Costs (y : Addrspace) (i : Nat) (o o' : Own) : Prop where
  pte : ∀ j, i ≤ j → o'.pte j = o.pte j
  slots : ∀ k d, o.val (.slot k) = some d → o'.val (.slot k) = some d
  stored : ∀ j, (o'.mend i y.pt).stored j = (o.mend i y.pt).stored j ∨
    (o'.mend i y.pt).stored j = none ∧ ∃ e, y.pt[j]? = some e ∧ e.writable = false

theorem Finds.index_eq {o : Own} {q j j' : Nat} {e e' : PtEntry} (h : Finds o q j e)
    (h' : Finds o q j' e') : j = j' := by
  obtain ⟨x, n, hx, hn, hj, -⟩ := h
  obtain ⟨x', n', hx', hn', hj', -⟩ := h'
  obtain rfl := Option.some.inj (hx.symm.trans hx')
  obtain rfl := Option.some.inj (hn.symm.trans hn')
  exact Option.some.inj (hj.symm.trans hj')

/-- A search that succeeds in the first `i` elements does not look at the others. -/
theorem findIdx_of_take {α : Type} {l r : List α} {p : α → Bool} {i j : Nat} (hi : i ≤ l.length)
    (hj : j < i) (h : (l.take i ++ r).findIdx? p = some j) : l.findIdx? p = some j := by
  rw [List.findIdx?_append] at h
  rw [← List.take_append_drop i l, List.findIdx?_append]
  cases hfind : (l.take i).findIdx? p with
  | some k =>
      rw [hfind, Option.some_or] at h
      rw [Option.some_or, h]
  | none =>
      rw [hfind, Option.none_or, Option.map_eq_some_iff] at h
      obtain ⟨k, -, hk⟩ := h
      rw [List.length_take] at hk
      omega

namespace Half

variable {P : Layout} {y : Addrspace} {junk : Nat → PtEntry} {i j q loc : Nat} {spare : Set Place}
  {o : Own} {b e : PtEntry} {d : Page}

theorem pte_mend (h : Half P y loc junk i spare o) :
    (o.mend i y.pt).pte j = if j < i then o.pte j else y.pt[j]?.map PtEntry.blank := by
  obtain ⟨x, hx, -, -, -, hlen⟩ := h.as
  exact Own.pte_mend hx hlen h.le

theorem pages (h : Half P y loc junk i spare o) (hy : y.Laid) :
    ∃ x, (o.mend i y.pt).as = some x ∧ x.asSegment = y.asSegment ∧
      x.pt.map (fun e => (e.vaddr, e.rwx)) = y.pt.map fun e => (e.vaddr, e.rwx) := by
  obtain ⟨x, hx, hseg, -⟩ := h.as
  obtain ⟨x', hx', hlaid⟩ := h.good.laid
  have hseg' : x'.asSegment = y.asSegment := by
    rw [Own.mend, hx, Option.map_some, Option.some.injEq] at hx'
    rw [← hx', ← hseg]
  exact ⟨x', hx', hseg', by rw [hlaid.pages, hy.pages, hseg']⟩

theorem entry (h : Half P y loc junk i spare o) (hy : y.Laid) (he : (o.mend i y.pt).pte j = some e) :
    ∃ e', y.pt[j]? = some e' ∧ e'.vaddr = e.vaddr ∧ e'.rwx = e.rwx := by
  obtain ⟨x, hx, -, hpages⟩ := h.pages hy
  have hj := congrArg (fun l => l[j]?) hpages
  simp only [List.getElem?_map] at hj
  rw [Own.pte_eq hx] at he
  rw [he, Option.map_some, eq_comm, Option.map_eq_some_iff] at hj
  obtain ⟨e', he', heq⟩ := hj
  exact ⟨e', he', congrArg Prod.fst heq, congrArg Prod.snd heq⟩

/-- The frame of a page that has been copied is found at that page. -/
theorem finds (h : Half P y loc junk i ∅ o) (hal : NoAlias o) (hq : o.val (.frame q) ≠ none)
    (hpos : q ≠ 0) : ∃ j e, j < i ∧ Finds o q j e := by
  obtain ⟨j, e, x', n, hx', hn, hj, he, hin, hpa, hva⟩ := h.good.finds hal hq hpos
  obtain ⟨x, hx, -, -, -, hlen⟩ := h.as
  obtain ⟨_, hx'', hlaid⟩ := h.good.laid
  obtain rfl := Option.some.inj (hx'.symm.trans hx'')
  obtain rfl := Option.some.inj (hn.symm.trans hlaid.npages)
  rw [List.take_length] at hj
  have hlt : j < i := by
    by_contra hnot
    rw [h.pte_mend, if_neg hnot, Option.map_eq_some_iff] at he
    obtain ⟨b, -, rfl⟩ := he
    cases hin
  rw [h.pte_mend, if_pos hlt] at he
  rw [Own.mend, hx, Option.map_some, Option.some.injEq] at hx'
  subst hx'
  have hall : (x.pt.take i ++ (y.pt.drop i).map PtEntry.blank).length = x.pt.length := by
    have := h.le
    simp only [List.length_append, List.length_take, List.length_map, List.length_drop]
    omega
  refine ⟨j, e, hlt, x, _, hx, hn, ?_, he, hin, hpa, hva⟩
  rw [hall, List.take_length]
  exact findIdx_of_take (hlen ▸ h.le) hlt hj

theorem changed {f : PtEntry → PtEntry} {o' : Own} {spare' : Set Place}
    (h : Half P y loc junk i spare o) (hj : j < i) (has : o'.as = (o.modPte j f).as)
    (hgood : Good P (o'.mend i y.pt) spare') :
    Half P y loc junk i spare' o' ∧ ∀ k, i ≤ k → o'.pte k = o.pte k := by
  obtain ⟨x, hx, hseg, hv, hloc, hlen⟩ := h.as
  have hpte : ∀ k, i ≤ k → o'.pte k = o.pte k := by
    intro k hk
    rw [Own.pte, has]
    exact Own.pte_modPte.trans (if_neg (by omega))
  refine ⟨⟨⟨x.modifyPte j f, ?_, hseg, hv, hloc, ?_⟩, h.le, fun k e hk he => ?_, hgood⟩, hpte⟩
  · rw [has, Own.modPte, hx, Option.map_some]
  · rw [Addrspace.modifyPte, List.length_modify, hlen]
  · exact h.rest k e hk ((hpte k hk).symm.trans he)

/-- **A frame for the copy.** It was free, or the page in it has been evicted, which
is a page that has been copied. -/
theorem taken {tlb : Set TlbEntry} {v' : View} (h : Half P y loc junk i ∅ o) (hy : y.Laid)
    (hal : NoAlias o) (hpos : o.val (.frame q) ≠ none → q ≠ 0) (hslots : P.slots ≤ 2 ^ 20)
    (ht : Taken P ⟨o, tlb⟩ q v') :
    Half P y loc junk i {.frame q} v'.own ∧ Costs y i o v'.own := by
  obtain ⟨x, hx, hseg, hv, hloc, hlen⟩ := h.as
  have hg := h.good
  obtain ⟨hnone, d, rfl⟩ | ⟨j, e, d, hfinds, hd, hev, -⟩ := ht
  · -- the frame was free
    have hfree : ∀ k, (o.mend i y.pt).placeOf k ≠ some (.frame q) :=
      fun k hk => hg.tenancy.housed k _ hk hnone
    refine ⟨⟨⟨x, hx, hseg, hv, hloc, hlen⟩, h.le, h.rest, hg.laid, hg.table, hg.shaped, ?_, hg.found⟩,
      fun _ _ => rfl, fun k c hk => ?_, fun k => .inl ?_⟩
    · have hten := hg.tenancy.acquire (c := d) hnone
      rw [insert_empty_eq] at hten
      exact hten
    · exact (Own.val_set_of_ne (by simp)).trans hk
    · exact congrFun (Own.stored_set hfree) k
  · -- page `j` has been evicted, one of those that are filled in
    have hq : o.val (.frame q) ≠ none := by rw [hd]; simp
    obtain ⟨j', e', hlt, hfinds'⟩ := h.finds hal hq (hpos hq)
    obtain rfl := hfinds.index_eq hfinds'
    obtain ⟨_, _, -, -, -, he, hin, rfl, -⟩ := hfinds
    have hemend : (o.mend i y.pt).pte j = some e := by rw [h.pte_mend, if_pos hlt]; exact he
    rcases hev with ⟨hw, k, d', hk, hd', ho⟩ | ⟨hw, ho⟩
    · obtain rfl := hd' hslots
      have hmend : v'.own.mend i y.pt = (o.mend i y.pt).swapOut j k d' := by
        rw [ho, Own.swapOut, ← Own.set_modPte]
        exact congrArg (Own.set · (.slot k) (some d')) (Own.mend_modPte_of_lt hx hlen h.le hlt)
      have hgood := hg.swapOut (d := d') hemend hin hw hk
      rw [← hmend] at hgood
      obtain ⟨hhalf, hpte⟩ := h.changed
        (f := fun e => { e with paddr := k, inSwap := true, inMem := false }) hlt
        (by rw [ho]; rfl) hgood
      refine ⟨hhalf, hpte, fun k' c hk' => ?_, fun k => .inl ?_⟩
      · rw [ho]
        refine (Own.val_set_of_ne fun hkk => ?_).trans hk'
        rw [hkk] at hk'
        exact absurd (hk.symm.trans hk') (by simp)
      · rw [hmend]
        exact congrFun (hg.stored_swapOut hemend hin hk hd) k
    · have hmend : v'.own.mend i y.pt = (o.mend i y.pt).discard j := by
        rw [ho]
        exact Own.mend_modPte_of_lt hx hlen h.le hlt
      have hgood := hg.discard hemend hin
      rw [← hmend] at hgood
      obtain ⟨hhalf, hpte⟩ := h.changed hlt (congrArg Own.as ho) hgood
      refine ⟨hhalf, hpte, fun k c hk => ?_, fun k => ?_⟩
      · rw [ho]
        exact hk
      · rw [hmend, hg.stored_discard hemend hin]
        by_cases hkj : k = j
        · subst hkj
          obtain ⟨e', he', -, hrwx⟩ := h.entry hy hemend
          exact .inr ⟨Function.update_self .., e', he', by rw [PtEntry.writable, hrwx]; exact hw⟩
        · exact .inl (Function.update_of_ne hkj ..)

/-! ## The rounds -/

theorem start {x : Addrspace} {h : Nat} {mem : Nat → Option Page} (hy : y.Laid)
    (hseg : x.asSegment = y.asSegment) (hv : x.v = y.v) (hn : x.npages = some y.pt.length)
    (hpt : x.pt = (List.range y.pt.length).map junk) (hloc : x.asPt = some (P.addr h)) :
    Half P y (P.addr h) junk 0 ∅ ⟨some x, fun _ => none, {h}, mem⟩ := by
  set o : Own := ⟨some x, fun _ => none, {h}, mem⟩ with ho
  have hlen : x.pt.length = y.pt.length := by rw [hpt, List.length_map, List.length_range]
  have hpte : ∀ j, (o.mend 0 y.pt).pte j = y.pt[j]?.map PtEntry.blank := fun j =>
    Own.pte_mend (x := x) rfl hlen (Nat.zero_le _)
  have hblank : ∀ j e, (o.mend 0 y.pt).pte j = some e →
      e.inMem = false ∧ e.inSwap = false ∧ e.paddr = 0 := by
    intro j e he
    rw [hpte, Option.map_eq_some_iff] at he
    obtain ⟨b, -, rfl⟩ := he
    exact ⟨rfl, rfl, rfl⟩
  have hnone : ∀ j e, (o.mend 0 y.pt).pte j = some e → e.place = none := by
    intro j e he
    obtain ⟨h1, h2, -⟩ := hblank j e he
    simp [PtEntry.place, h1, h2]
  have hplace : (o.mend 0 y.pt).placeOf = fun _ => none := by
    funext j
    rw [Own.placeOf, Option.bind_eq_none_iff]
    exact hnone j
  refine ⟨⟨x, rfl, hseg, hv, hloc, hlen⟩, Nat.zero_le _, fun j e _ he => ?_, ⟨_, rfl, ?_⟩, ⟨h, hloc, rfl⟩,
    fun j e he => ?_, hplace ▸ .empty, fun j e he hpl => absurd (hnone j e he) hpl⟩
  · have hj : x.pt[j]? = some e := he
    rw [hpt, List.getElem?_map, Option.map_eq_some_iff] at hj
    obtain ⟨k, hk, rfl⟩ := hj
    rw [(List.getElem?_eq_some_iff.mp hk).2.symm, List.getElem_range]
  · have hmap : ((y.pt.drop 0).map PtEntry.blank).map (fun e => (e.vaddr, e.rwx)) =
        y.pt.map fun e => (e.vaddr, e.rwx) := by
      rw [List.drop_zero, List.map_map]
      rfl
    refine ⟨hseg ▸ hy.segs, hseg ▸ hy.nonempty, ?_, ?_⟩
    · exact hmap.trans (hy.pages.trans (by rw [hseg]))
    · simp [hn]
  · obtain ⟨h1, h2, h3⟩ := hblank j e he
    exact ⟨by simp [h1], by simp [h2], fun _ _ => h3⟩

/-- A change to an entry that is not filled in, apart from its `paddr`. -/
theorem touch {f : PtEntry → PtEntry} (h : Half P y loc junk i spare o) (hj : i ≤ j)
    (hf : ∀ e, (f e).paddr = e.paddr) : Half P y loc junk i spare (o.modPte j f) := by
  obtain ⟨x, hx, hseg, hv, hloc, hlen⟩ := h.as
  refine ⟨⟨x.modifyPte j f, ?_, hseg, hv, hloc, ?_⟩, h.le, fun k e hk he => ?_, ?_⟩
  · rw [Own.modPte, hx, Option.map_some]
  · rw [Addrspace.modifyPte, List.length_modify, hlen]
  · rw [Own.pte_modPte] at he
    split at he
    · obtain ⟨e', he', rfl⟩ := Option.map_eq_some_iff.mp he
      rw [hf]
      exact h.rest k e' hk he'
    · exact h.rest k e hk he
  · rw [Own.mend_modPte_of_le hx hj]
    exact h.good

/-- Entry `i` has been written, which makes one more page that is filled in. -/
theorem advance {f : PtEntry → PtEntry} {o' : Own} (h : Half P y loc junk i spare o)
    (hi : i < y.pt.length) (has : o'.as = (o.modPte i f).as)
    (hgood : Good P (o'.mend (i + 1) y.pt) ∅) : Half P y loc junk (i + 1) ∅ o' := by
  obtain ⟨x, hx, hseg, hv, hloc, hlen⟩ := h.as
  refine ⟨⟨x.modifyPte i f, ?_, hseg, hv, hloc, ?_⟩, hi, fun j e hj he => ?_, hgood⟩
  · rw [has, Own.modPte, hx, Option.map_some]
  · rw [Addrspace.modifyPte, List.length_modify, hlen]
  · rw [Own.pte, has] at he
    refine h.rest j e (Nat.le_of_succ_le hj) (Eq.trans ?_ he)
    exact (Own.pte_modPte.trans (if_neg (by omega))).symm

theorem mend_written {f : PtEntry → PtEntry} (f' : PtEntry → PtEntry)
    (h : Half P y loc junk i spare o) (hb : y.pt[i]? = some b) (he : o.pte i = some e)
    (hf : f' b.blank = f e) :
    (o.modPte i f).mend (i + 1) y.pt = (o.mend i y.pt).modPte i f' := by
  obtain ⟨x, hx, -, -, -, hlen⟩ := h.as
  have hx' : (o.modPte i f).as = some (x.modifyPte i f) := by rw [Own.modPte, hx, Option.map_some]
  have hlen' : (x.modifyPte i f).pt.length = y.pt.length := by
    rw [Addrspace.modifyPte, List.length_modify, hlen]
  rw [Own.mend_succ hx' hlen' hb (Own.pte_modPte_self he) hf, Own.mend_modPte_of_le hx le_rfl]

/-- Page `i` is filled in, as one that is resident in the frame at `q`. -/
theorem fill {f : PtEntry → PtEntry} (mem : Nat → Option Page) (h : Half P y loc junk i {.frame q} o)
    (hy : y.Laid) (hb : y.pt[i]? = some b) (he : o.pte i = some e)
    (hf : f e = b.residentAt q)
    (hr : b.vaddr < kseg0 ∧ (y.lookup b.vaddr).map (·.1) = some i) :
    Half P y loc junk (i + 1) ∅ (((o.set (.frame q) (some d)).modPte i f).noting mem) ∧
      ((((o.set (.frame q) (some d)).modPte i f).noting mem).mend (i + 1) y.pt).stored =
        Function.update (o.mend i y.pt).stored i (some d) := by
  have hbmend : (o.mend i y.pt).pte i = some b.blank := by
    rw [h.pte_mend, if_neg (Nat.lt_irrefl i), hb, Option.map_some]
  have hreach : Good.Reachable (o.mend i y.pt) i b.blank := by
    obtain ⟨x, hx, hseg, hpages⟩ := h.pages hy
    have hva := congrArg (List.map Prod.fst) hpages
    rw [List.map_map, List.map_map] at hva
    exact ⟨hr.1, x, hx, (Addrspace.lookup_congr hseg hva _).symm ▸ hr.2⟩
  have hwritten := h.mend_written (fun e => { e with paddr := q, inMem := true }) hb he hf.symm
  have hfill : (o.mend i y.pt).fillIn i q d =
      { (o.mend i y.pt).fillIn i q d with as := ((o.modPte i f).mend (i + 1) y.pt).as } := by
    rw [hwritten]
    rfl
  have hgood := h.good.fillIn (d := d) hbmend rfl rfl hreach
  have hstored := h.good.stored_fillIn (d := d) hbmend
  rw [hfill] at hgood hstored
  exact ⟨h.advance (f := f) (List.getElem?_eq_some_iff.mp hb).1 rfl
    (hgood.congr rfl rfl rfl), hstored⟩

theorem skip {f : PtEntry → PtEntry} (mem : Nat → Option Page) (h : Half P y loc junk i ∅ o)
    (hb : y.pt[i]? = some b) (he : o.pte i = some e) (hf : f e = b.blank) :
    Half P y loc junk (i + 1) ∅ ((o.modPte i f).noting mem) ∧
      (((o.modPte i f).noting mem).mend (i + 1) y.pt).stored = (o.mend i y.pt).stored := by
  obtain ⟨x, hx, -⟩ := h.as
  have hsame : (o.mend i y.pt).modPte i id = o.mend i y.pt := by
    refine Own.ext ?_ rfl rfl rfl
    rw [Own.modPte, Own.mend, hx, Option.map_some, Option.map_some, Addrspace.modifyPte,
      List.modify_id]
  have hwritten := (h.mend_written id hb he hf.symm).trans hsame
  have hgood := h.good
  rw [← hwritten] at hgood ⊢
  exact ⟨h.advance (f := f) (List.getElem?_eq_some_iff.mp hb).1 rfl
    (hgood.congr rfl rfl rfl), rfl⟩

theorem finish (h : Half P y loc junk y.pt.length ∅ o) : Good P o ∅ := by
  obtain ⟨x, hx, -, -, -, hlen⟩ := h.as
  have hgood := h.good
  rwa [Own.mend_all hx hlen] at hgood

end Half

/-! ## Work beside the other address spaces -/

/-- Work for `a` that the others do not notice and that gives up no slot of `a`. -/
structure Beside (P : Layout) (a : AsId) (g : Ghost) (s : Sys) (g' : Ghost) (s' : Sys) : Prop where
  inv : Inv P g' s'
  cur : s'.cur = s.cur
  rely : ∀ b, b ≠ a → (shares P).Rely b g s g' s'
  keeps : g.Keeps g'
  slots : ∀ k d, (own a g s).val (.slot k) = some d → (own a g' s').val (.slot k) = some d

namespace Beside

variable {P : Layout} {a b : AsId} {g g' g1 : Ghost} {s s' s1 : Sys} {t : Tid}

theorem trans (h1 : Beside P a g s g1 s1) (h2 : Beside P a g1 s1 g' s') : Beside P a g s g' s' where
  inv := h2.inv
  cur := h2.cur.trans h1.cur
  rely b hb := (h1.rely b hb).trans (h2.rely b hb)
  keeps k h hk := h2.keeps k h (h1.keeps k h hk)
  slots k d hk := h2.slots k d (h1.slots k d hk)

theorem of_apart (h : Apart P a g s g' s')
    (hslots : ∀ k, (own a g' s').val (.slot k) = (own a g s).val (.slot k)) :
    Beside P a g s g' s' where
  inv := h.inv
  cur := h.cur
  rely b hb := by
    refine ⟨fun _ => h.inv, fun v hv => ⟨(h.others b hb).trans hv.1, ?_⟩⟩
    rw [h.cur, h.tlb]
    exact hv.2
  keeps := h.keeps
  slots k d hk := (hslots k).trans hk

theorem core_congr (h : Beside P a g s g' s1) (hc : s'.core = s1.core) : Beside P a g s g' s' where
  inv := h.inv.core_congr hc
  cur := (congrArg Sys.cur hc).trans h.cur
  rely b hb := by
    have htlb : s'.tlb = s1.tlb := (congrArg Sys.tlb hc :)
    have hcur : s'.cur = s1.cur := (congrArg Sys.cur hc :)
    refine ⟨fun _ => h.inv.core_congr hc, fun v hv => ?_⟩
    obtain ⟨hown, hv'⟩ := (h.rely b hb).2 v hv
    refine ⟨(own_core_congr hc).trans hown, ?_⟩
    rw [htlb, hcur]
    exact hv'
  keeps := h.keeps
  slots k d hk := by
    rw [own_core_congr hc]
    exact h.slots k d hk

theorem others (h : Beside P a g s g' s') (hb : b ≠ a) : own b g' s' = own b g s :=
  Does.own_of_rely (h.rely b hb)

/-- A slot in use stays in use and keeps its contents, whoever it belongs to. -/
theorem slotPage {k : Nat} (h : Beside P a g s g' s') (hi : Inv P g s)
    (hk : s.swapMap[k]? = some true) :
    s'.swapMap[k]? = some true ∧ s'.slotPage k = s.slotPage k := by
  obtain ⟨b, hb⟩ := Option.ne_none_iff_exists'.mp ((hi.marked k).mp hk)
  have hval : (own b g s).val (.slot k) = some (s.slotPage k) := if_pos hb
  have hval' : (own b g' s').val (.slot k) = some (s.slotPage k) := by
    by_cases hba : b = a
    · subst hba
      exact h.slots k _ hval
    · rw [h.others hba]
      exact hval
  obtain ⟨howner, hpage⟩ := Does.slot_of_own rfl hval'
  exact ⟨(h.inv.marked k).mpr (by rw [howner]; simp), hpage⟩

end Beside

/-! ## One round -/

section Round

variable {P : Layout} {y : Addrspace} {old new : AsId} {junk : Nat → PtEntry} {i j q loc : Nat}
  {g g' g1 : Ghost} {s s' s1 : Sys} {t : Tid} {b e : PtEntry} {f : PtEntry → PtEntry}

/-- The structure is replaced, whatever its pages are; the record takes notice. -/
theorem Inv.putAs {a : AsId} (hi : Inv P g s) (x : Addrspace) :
    ∃ g' mem, Move P a g s g' (s.setAs a x) ∧
      own a g' (s.setAs a x) = { own a g s with as := some x }.noting mem := by
  have hb : ∀ b, b ≠ a → (s.setAs a x).as b = s.as b := fun b hb => Function.update_of_ne hb ..
  refine ⟨{ g with mem := (s.setAs a x).observe g.mem }, (s.setAs a x).observe g.mem a, ⟨{ hi with
      geometry := hi.geometry.congr rfl rfl rfl
      observed := Sys.observe_observe }, rfl, fun b hba => ?_, rfl, rfl, fun _ _ h => h⟩, ?_⟩
  · refine Own.ext (hb b hba) rfl rfl (funext fun k => ?_)
    refine Eq.trans ?_ (congrFun (congrFun hi.observed b) k)
    change (s.setAs a x).observe g.mem b k = _
    rw [Sys.observe, hb b hba, Sys.observe]
    rfl
  · exact Own.ext (Function.update_self ..) rfl rfl rfl

theorem Inv.putPte {a : AsId} {x : Addrspace} (hi : Inv P g s) (hx : s.as a = some x) :
    ∃ g' mem, Move P a g s g' (s.modPte a j f) ∧
      own a g' (s.modPte a j f) = ((own a g s).modPte j f).noting mem := by
  obtain ⟨g', mem, hmove, hown⟩ := hi.putAs (a := a) (x.modifyPte j f)
  rw [← Sys.modPte_eq_setAs hx] at hmove hown
  refine ⟨g', mem, hmove, hown.trans ?_⟩
  rw [Own.modPte, own, hx, Option.map_some]

theorem Sys.modPte_modPte {a : AsId} {f' : PtEntry → PtEntry} :
    (s.modPte a j f).modPte a j f' = s.modPte a j (f' ∘ f) := by
  simp only [modPte, Function.update_self, Function.update_idem, Option.map_map]
  congr 3
  funext x
  simp [Addrspace.modifyPte, List.modify_modify_eq]

theorem Half.getPages {va : Nat} (hhalf : Half P y loc junk i ∅ (own new g s)) (hi : Inv P g s)
    (hy : y.Laid) (hP : P.slots ≤ P.firstpaddr) (hslots : P.slots ≤ 2 ^ 20)
    (hva : va.testBit 0 = false) (h : (getPages 1 va (some new)).run t s = .ok (q, s')) :
    ∃ g', Beside P new g s g' s' ∧ Half P y loc junk i {.frame q} (own new g' s') ∧
      Costs y i (own new g s) (own new g' s') := by
  have hal := hi.placed (a := new).noAlias hP
  have hpos : ∀ q, (own new g s).val (.frame q) ≠ none → q ≠ 0 :=
    fun q hq => ((hi.placed.frame q hq).spec hi.layout_wf).1
  have hdoes : Does P new t s.cur ⟨own new g s, Set.univ⟩ (getPage false va (some new))
      fun q v' => Taken P ⟨own new g s, Set.univ⟩ q v' := by
    refine Does.getPage_taken (fun q hq => ?_) hva
    obtain ⟨j, e, -, hfinds⟩ := hhalf.finds hal hq (hpos q hq)
    exact ⟨j, e, hfinds⟩
  obtain ⟨g', v', hcall, htaken⟩ := hdoes.call hi ⟨rfl, fun _ _ _ _ => trivial⟩ rfl h
  obtain ⟨hhalf', hcosts⟩ := hhalf.taken hy hal (hpos q) hslots htaken
  rw [← hcall.own] at hhalf' hcosts
  exact ⟨g', ⟨hcall.inv, hcall.cur, hcall.rely, hcall.keeps, hcosts.slots⟩, hhalf', hcosts⟩

theorem Mem.copy_outside {m src : Mem} {o z : Nat} (hz : z < q ∨ q + pageSize ≤ z) :
    m.copy q src o pageSize z = m z :=
  if_neg (by omega)

theorem Mem.page_copy {m src : Mem} {o : Nat} : (m.copy q src o pageSize).page q = src.page o := by
  funext k
  have hk := k.isLt
  rw [page, copy, if_pos (by omega), Nat.add_sub_cancel_left]
  rfl

/-- A page is copied to the frame at `q` and page `i` entered as resident there. -/
theorem Half.install {src : Mem} {c : Nat} (hhalf : Half P y loc junk i {.frame q} (own new g s)) (hi : Inv P g s)
    (hy : y.Laid) (hb : y.pt[i]? = some b) (he : s.pte new i = some e)
    (hf : f e = b.residentAt q)
    (hr : b.vaddr < kseg0 ∧ (y.lookup b.vaddr).map (·.1) = some i)
    (hs' : s'.core = ({ s with ram := s.ram.copy q src c pageSize }.modPte new i f).core) :
    ∃ g', Beside P new g s g' s' ∧ Half P y loc junk (i + 1) ∅ (own new g' s') ∧
      ((own new g' s').mend (i + 1) y.pt).stored =
        Function.update ((own new g s).mend i y.pt).stored i (some (src.page c)) := by
  obtain ⟨x, hx, -⟩ := hhalf.as
  have hx : s.as new = some x := hx
  obtain ⟨d, hd⟩ := Option.ne_none_iff_exists'.mp (hhalf.good.tenancy.owned _ rfl)
  have howner : s.frameOwner q = some new := (Does.frame_of_own (g := g) rfl hd).1
  obtain ⟨hmove1, hown1⟩ := hi.setRam (m := s.ram.copy q src c pageSize) howner
    fun _ => Mem.copy_outside
  rw [Mem.page_copy] at hown1
  obtain ⟨g', mem, hmove2, hown2⟩ := hmove1.inv.putPte (j := i) (f := f) hx
  have hapart := (hmove1.apart.trans hmove2.apart).core_congr hs'
  have hown : own new g' s' =
      (((own new g s).set (.frame q) (some (src.page c))).modPte i f).noting mem := by
    rw [own_core_congr hs', hown2, hown1]
  obtain ⟨hhalf', hstored⟩ := hhalf.fill (d := src.page c) mem hy hb he hf hr
  rw [← hown] at hhalf' hstored
  refine ⟨g', .of_apart hapart fun k => ?_, hhalf', hstored⟩
  rw [hown]
  change ((own new g s).set (.frame q) (some (src.page c))).val (.slot k) = _
  exact Own.val_set_of_ne (by simp)

/-- What `as_copy` takes for the contents of page `j`, where the entry of the original is
`e`: a page in the swap file is read from the slot whose number the frame of the new table
happened to hold. -/
def Sys.copySource (s : Sys) (junk : Nat → PtEntry) (j : Nat) (e : PtEntry) : Option Page :=
  if e.inSwap then some (s.slotPage (junk j).paddr)
  else if e.inMem then some (s.ram.page e.paddr) else none

/-- The copy has stored `c` for page `j`: what it has read, or nothing, once the page has
been discarded. -/
structure Copied (s : Sys) (junk : Nat → PtEntry) (j : Nat) (e : PtEntry) (c : Option Page) :
    Prop where
  marked : e.inSwap = true → s.swapMap[(junk j).paddr]? = some true
  stored : c = s.copySource junk j e ∨ c = none ∧ e.writable = false

/-- What has been copied stays, read-only pages apart. -/
theorem Copied.keep {c c' : Option Page} (h : Copied s junk j e c) (hb : Beside P new g s g' s')
    (hi : Inv P g s) (hne : old ≠ new) (hg : Good P (own old g s) ∅) (he : s.pte old j = some e)
    (hc : c' = c ∨ c' = none ∧ e.writable = false) : Copied s' junk j e c' := by
  have hsource : s'.copySource junk j e = s.copySource junk j e := by
    rw [Sys.copySource, Sys.copySource]
    split
    · rename_i hswap
      rw [(hb.slotPage hi (h.marked hswap)).2]
    · split
      · rename_i hin
        have hplace : (own old g s).placeOf j = some (.frame e.paddr) := by
          rw [Own.placeOf_eq (o := own old g s) he, PtEntry.place_inMem hin]
        obtain ⟨d, hd⟩ := Option.ne_none_iff_exists'.mp (hg.tenancy.housed j _ hplace)
        have hd' : (own old g' s').val (.frame e.paddr) = some d := by rw [hb.others hne, hd]
        rw [(Does.frame_of_own rfl hd).2, (Does.frame_of_own rfl hd').2]
      · rfl
  refine ⟨fun hswap => (hb.slotPage hi (h.marked hswap)).1, ?_⟩
  rw [hsource]
  rcases hc with rfl | hc
  · exact h.stored
  · exact .inr hc

/-- What one round does: page `i` is copied, the pages before it stay. -/
structure Round (P : Layout) (y : Addrspace) (loc : Nat) (new : AsId) (junk : Nat → PtEntry)
    (i : Nat) (b : PtEntry) (g : Ghost) (s : Sys) (g' : Ghost) (s' : Sys) : Prop where
  beside : Beside P new g s g' s'
  half : Half P y loc junk (i + 1) ∅ (own new g' s')
  kept : ∀ j, j ≠ i → ((own new g' s').mend (i + 1) y.pt).stored j =
      ((own new g s).mend i y.pt).stored j ∨
    ((own new g' s').mend (i + 1) y.pt).stored j = none ∧ ∃ e, y.pt[j]? = some e ∧ e.writable = false
  copied : Copied s' junk i b (((own new g' s').mend (i + 1) y.pt).stored i)

/-- `swap_in` that leaves the slot in use, as far as the shares are concerned. -/
theorem swapIn_keeps {a : AsId} {r : Option Errno} (hi : Inv P g s) (he : s.pte a j = some e)
    (h : (swapIn a j q false).run t s = .ok (r, s')) :
    r = none ∧ s.swapMap[e.paddr]? = some true ∧
      s'.core = ({ s with ram := s.ram.copy q s.disk (wrap (e.paddr * pageSize)) pageSize }.modPte a j
        fun e => { e with paddr := q }).core := by
  obtain ⟨_, _, h1, h⟩ := run_bind_eq_ok.mp h
  obtain ⟨-, rfl⟩ := lockAcquire_eq_ok.mp h1
  obtain ⟨e', _, h2, h⟩ := run_bind_eq_ok.mp h
  obtain ⟨he', rfl⟩ := getPte_eq_ok.mp h2
  obtain rfl := Option.some.inj (he.symm.trans he')
  obtain ⟨err, _, h3, h⟩ := run_bind_eq_ok.mp h
  obtain ⟨herr, rfl⟩ := loadSegment_swap_eq_ok.mp h3
  have hread : s.world.swapRead s.swapReads = none := hi.reads _
  obtain rfl := herr.trans hread
  obtain ⟨_, _, h4, h⟩ := run_bind_eq_ok.mp h
  obtain ⟨hmark, rfl⟩ := leaveSlot_eq_ok.mp h4
  obtain ⟨_, _, h5, h⟩ := run_bind_eq_ok.mp h
  obtain ⟨-, rfl⟩ := updPte_eq_ok.mp h5
  obtain ⟨_, _, h6, h⟩ := run_bind_eq_ok.mp h
  obtain ⟨-, rfl⟩ := lockRelease_eq_ok.mp h6
  obtain ⟨rfl, rfl⟩ := pure_eq_ok.mp h
  refine ⟨rfl, hmark, ?_⟩
  have hram : (s.take t .swap).world.swapRead (s.take t .swap).swapReads = none := hread
  simp only [Sys.readSwap, hram, if_true]
  rfl

/-- The state of the loop when its first `i` rounds are done. -/
structure InLoop (P : Layout) (y : Addrspace) (loc : Nat) (old new : AsId) (junk : Nat → PtEntry)
    (i : Nat) (g : Ghost) (s : Sys) : Prop where
  inv : Inv P g s
  as : s.as old = some y
  good : Good P (own old g s) ∅
  half : Half P y loc junk i ∅ (own new g s)
  copied : ∀ j e, j < i → y.pt[j]? = some e →
    Copied s junk j e (((own new g s).mend i y.pt).stored j)

namespace InLoop

theorem laid (h : InLoop P y loc old new junk i g s) : y.Laid := by
  obtain ⟨x, hx, hlaid⟩ := h.good.laid
  obtain rfl := Option.some.inj (h.as.symm.trans hx)
  exact hlaid

theorem pte (h : InLoop P y loc old new junk i g s) : s.pte old j = y.pt[j]? := by
  rw [Sys.pte, h.as, Option.bind_some]

theorem reachable (h : InLoop P y loc old new junk i g s) (hb : y.pt[i]? = some b)
    (huse : b.place ≠ none) :
    (b.vaddr < kseg0 ∧ (y.lookup b.vaddr).map (·.1) = some i) ∧ b.vaddr.testBit 0 = false := by
  have hr : Good.Reachable (own old g s) i b := h.good.found i b (h.pte.trans hb) huse
  have haligned := hr.aligned h.good.laid
  obtain ⟨hlt, x, hx, hlook⟩ := hr
  obtain rfl := Option.some.inj (h.as.symm.trans hx)
  refine ⟨⟨hlt, hlook⟩, Blocks.testBit_of_page ?_⟩
  rw [pageOffset]
  rw [pageFrame] at haligned
  have := Nat.mod_le b.vaddr pageSize
  omega

/-- A round after which nothing is known to have changed but page `i`. -/
theorem next (h : InLoop P y loc old new junk i g s) (hne : old ≠ new) (hb : y.pt[i]? = some b)
    (hr : Round P y loc new junk i b g s g' s') : InLoop P y loc old new junk (i + 1) g' s' := by
  have hold : own old g' s' = own old g s := hr.beside.others hne
  have has : s'.as old = s.as old := congrArg Own.as hold
  refine ⟨hr.beside.inv, has.trans h.as, hold ▸ h.good, hr.half, fun j e hj he => ?_⟩
  by_cases hji : j = i
  · subst hji
    obtain rfl := Option.some.inj (hb.symm.trans he)
    exact hr.copied
  · refine (h.copied j e (by omega) he).keep hr.beside h.inv hne h.good (h.pte.trans he) ?_
    refine (hr.kept j hji).imp_right fun ⟨hnone, e', he', hw⟩ => ⟨hnone, ?_⟩
    obtain rfl := Option.some.inj (he.symm.trans he')
    exact hw

/-- The entry of the next page gets its address and rights. -/
theorem opened {u : Unit} (h : InLoop P y loc old new junk i g s)
    (hrun : (updPte new i fun e => { e with
      inMem := false, inSwap := false, rwx := b.rwx, vaddr := b.vaddr }).run t s = .ok (u, s1)) :
    Beside P new g s g s1 ∧ Half P y loc junk i ∅ (own new g s1) ∧
      s1.pte new i = some { b with paddr := (junk i).paddr, inMem := false, inSwap := false } ∧
      (own new g s1).mend i y.pt = (own new g s).mend i y.pt := by
  obtain ⟨hsome, rfl⟩ := updPte_eq_ok.mp hrun
  obtain ⟨e, he⟩ := Option.isSome_iff_exists.mp hsome
  obtain ⟨x, hx, -⟩ := h.half.as
  obtain ⟨hmove, hown⟩ := h.inv.modPte (j := i) (f := fun e => { e with
    inMem := false, inSwap := false, rwx := b.rwx, vaddr := b.vaddr }) (by simp) hx
  have hpte : (own new g s).pte i = some e := he
  refine ⟨.of_apart hmove.apart fun k => ?_, ?_, ?_, ?_⟩
  · rw [hown]
    rfl
  · rw [hown]
    exact h.half.touch le_rfl fun _ => rfl
  · change (own new g (s.modPte new i _)).pte i = _
    rw [hown, Own.pte_modPte_self hpte, ← h.half.rest i e le_rfl hpte]
  · rw [hown, Own.mend_modPte_of_le hx le_rfl]

theorem filled {g2 : Ghost} {s2 : Sys} (h : InLoop P y loc old new junk i g s) (src : Mem) (c : Nat)
    (hb : y.pt[i]? = some b) (huse : b.place ≠ none) (hb1 : Beside P new g s g s1)
    (hmend : (own new g s1).mend i y.pt = (own new g s).mend i y.pt)
    (hb2 : Beside P new g s1 g2 s2) (hhalf : Half P y loc junk i {.frame q} (own new g2 s2))
    (hcosts : Costs y i (own new g s1) (own new g2 s2)) (he : s2.pte new i = some e)
    (hf : f e = b.residentAt q)
    (hs' : s'.core = ({ s2 with ram := s2.ram.copy q src c pageSize }.modPte new i f).core)
    (hcopied : ∀ g', Beside P new g2 s2 g' s' → Copied s' junk i b (some (src.page c))) :
    ∃ g', Round P y loc new junk i b g s g' s' := by
  obtain ⟨g', hb3, hhalf', hstored⟩ :=
    hhalf.install hb2.inv h.laid hb he hf (h.reachable hb huse).1 hs'
  refine ⟨g', hb1.trans (hb2.trans hb3), hhalf', fun j hj => ?_, ?_⟩
  · rw [hstored, Function.update_of_ne hj, ← hmend]
    exact hcosts.stored j
  · rw [hstored, Function.update_self]
    exact hcopied g' hb3

/-- **One round of the loop of `as_copy`.** -/
theorem round (h : InLoop P y loc old new junk i g s) (hne : old ≠ new) (hP : P.slots ≤ P.firstpaddr)
    (hslots : P.slots ≤ 2 ^ 20) (hrun : (copyPage old new i).run t s = .ok (none, s')) :
    ∃ b, y.pt[i]? = some b ∧ ∃ g', Round P y loc new junk i b g s g' s' := by
  obtain ⟨b, _, h1, hrun⟩ := run_bind_eq_ok.mp hrun
  obtain ⟨hb, hs⟩ := getPte_eq_ok.mp h1
  rw [hs] at hrun
  rw [h.pte] at hb
  obtain ⟨_, s1, h2, hrun⟩ := run_bind_eq_ok.mp hrun
  obtain ⟨hb1, hhalf1, he1, hmend⟩ := h.opened h2
  have hold : ∀ {g2 s2}, Beside P new g s1 g2 s2 → own old g2 s2 = own old g s :=
    fun hb2 => (hb2.others hne).trans (hb1.others hne)
  refine ⟨b, hb, ?_⟩
  by_cases hswap : b.inSwap = true
  · -- the page is read from the slot that the new entry names
    have huse : b.place ≠ none := by
      rw [PtEntry.place, if_pos hswap]
      split <;> simp
    rw [if_pos hswap] at hrun
    obtain ⟨q, s2, h3, hrun⟩ := run_bind_eq_ok.mp hrun
    obtain ⟨g2, hb2, hhalf2, hcosts⟩ :=
      hhalf1.getPages hb1.inv h.laid hP hslots (h.reachable hb huse).2 h3
    have he2 : s2.pte new i = _ := (hcosts.pte i le_rfl).trans he1
    obtain ⟨r, s3, h4, hrun⟩ := run_bind_eq_ok.mp hrun
    obtain ⟨rfl, hmark, hs3⟩ := swapIn_keeps hb2.inv he2 h4
    rw [if_neg (by simp)] at hrun
    obtain ⟨_, s4, h5, hrun⟩ := run_bind_eq_ok.mp hrun
    obtain ⟨-, rfl⟩ := updPte_eq_ok.mp h5
    obtain ⟨-, rfl⟩ := pure_eq_ok.mp hrun
    refine h.filled s2.disk (wrap ((junk i).paddr * pageSize)) hb huse hb1 hmend hb2 hhalf2 hcosts he2
      (f := (fun e => { e with inSwap := false, inMem := true }) ∘ fun e => { e with paddr := q })
      rfl ?_ fun g' hb3 => ?_
    · rw [← Sys.modPte_modPte]
      exact congrArg (Sys.modPte · new i fun e => { e with inSwap := false, inMem := true }) hs3
    · obtain ⟨hmark', hpage⟩ := hb3.slotPage hb2.inv hmark
      refine ⟨fun _ => hmark', .inl ?_⟩
      have hlt : (junk i).paddr < P.slots := by
        rw [← hb2.inv.slots]
        exact (List.getElem?_eq_some_iff.mp hmark).1
      have hoff : (junk i).paddr * pageSize < 2 ^ 32 := by rw [pageSize_eq]; omega
      rw [Sys.copySource, if_pos hswap, hpage, Sys.slotPage,
        if_pos (by rw [hb2.inv.slots]; exact hslots), wrap, Nat.mod_eq_of_lt hoff]
  · rw [if_neg hswap] at hrun
    by_cases hin : b.inMem = true
    · -- the page is copied from the frame of the original
      have hplace := PtEntry.place_inMem hin
      have huse : b.place ≠ none := by simp [hplace]
      rw [if_pos hin] at hrun
      obtain ⟨q, s2, h3, hrun⟩ := run_bind_eq_ok.mp hrun
      obtain ⟨g2, hb2, hhalf2, hcosts⟩ :=
        hhalf1.getPages hb1.inv h.laid hP hslots (h.reachable hb huse).2 h3
      have he2 : s2.pte new i = _ := (hcosts.pte i le_rfl).trans he1
      obtain ⟨_, s3, h4, hrun⟩ := run_bind_eq_ok.mp hrun
      rw [modify_eq_ok.mp h4] at hrun
      obtain ⟨_, s4, h5, hrun⟩ := run_bind_eq_ok.mp hrun
      obtain ⟨-, rfl⟩ := updPte_eq_ok.mp h5
      obtain ⟨-, rfl⟩ := pure_eq_ok.mp hrun
      refine h.filled s2.ram b.paddr hb huse hb1 hmend hb2 hhalf2 hcosts he2
        (f := fun e => { e with paddr := q, inMem := true }) rfl rfl fun g' hb3 => ?_
      have hj : (own old g s).placeOf i = some (.frame b.paddr) := by
        rw [Own.placeOf_eq (o := own old g s) (h.pte.trans hb), hplace]
      obtain ⟨d, hd⟩ := Option.ne_none_iff_exists'.mp (h.good.tenancy.housed i _ hj)
      have hd2 := (Does.frame_of_own (hold hb2) hd).2
      have hd3 := (Does.frame_of_own (hold (hb2.trans hb3)) hd).2
      refine ⟨fun hs => absurd hs hswap, .inl ?_⟩
      rw [Sys.copySource, if_neg hswap, if_pos hin, hd3, hd2]
    · -- the page is untouched in the copy as well
      rw [if_neg hin] at hrun
      obtain ⟨_, s2, h3, hrun⟩ := run_bind_eq_ok.mp hrun
      obtain ⟨-, rfl⟩ := updPte_eq_ok.mp h3
      obtain ⟨-, rfl⟩ := pure_eq_ok.mp hrun
      obtain ⟨x, hx, -⟩ := hhalf1.as
      obtain ⟨g', mem, hmove, hown⟩ := hb1.inv.putPte (j := i) (f := fun e => { e with paddr := 0 }) hx
      obtain ⟨hhalf', hstored⟩ := hhalf1.skip (f := fun e => { e with paddr := 0 }) mem hb he1 rfl
      rw [← hown] at hhalf' hstored
      rw [hmend] at hstored
      refine ⟨g', hb1.trans (.of_apart hmove.apart fun k => ?_), hhalf', fun j _ => .inl ?_, ?_⟩
      · rw [hown]
        rfl
      · rw [hstored]
      · refine ⟨fun hs => absurd hs hswap, .inl ?_⟩
        have hblank : ((own new g s).mend i y.pt).pte i = some b.blank := by
          rw [h.half.pte_mend, if_neg (Nat.lt_irrefl i), hb, Option.map_some]
        rw [hstored, Own.stored_eq hblank, Sys.copySource, if_neg hswap, if_neg hin]
        rfl

theorem core_congr (h : InLoop P y loc old new junk i g s1) (hc : s'.core = s1.core) :
    InLoop P y loc old new junk i g s' := by
  have hown : ∀ a, own a g s' = own a g s1 := fun a => own_core_congr hc
  refine ⟨h.inv.core_congr hc, (congrArg (·.as old) hc).trans h.as, hown old ▸ h.good,
    hown new ▸ h.half, fun j e hj he => ?_⟩
  rw [hown new]
  obtain ⟨hmark, hstored⟩ := h.copied j e hj he
  have hmap : s'.swapMap = s1.swapMap := (congrArg Sys.swapMap hc :)
  refine ⟨hmap ▸ hmark, ?_⟩
  have hsource : s'.core.copySource junk j e = s1.core.copySource junk j e := by rw [hc]
  exact hstored.imp_left fun h => h.trans hsource.symm

/-- **The loop of `as_copy`.** -/
theorem loop {n : Nat} (h : InLoop P y loc old new junk i g s) (hne : old ≠ new)
    (hP : P.slots ≤ P.firstpaddr) (hslots : P.slots ≤ 2 ^ 20)
    (hrun : (copyPages old new n i).run t s = .ok (none, s')) :
    ∃ g', Beside P new g s g' s' ∧ InLoop P y loc old new junk (i + n) g' s' := by
  induction n generalizing i g s with
  | zero =>
      obtain ⟨-, rfl⟩ := pure_eq_ok.mp hrun
      exact ⟨g, .of_apart (Move.refl h.inv).apart fun _ => rfl, h⟩
  | succ n ih =>
      obtain ⟨r, s1, h1, hrun⟩ := run_bind_eq_ok.mp hrun
      cases r with
      | some e => exact absurd (pure_eq_ok.mp hrun).1 (by simp)
      | none =>
          obtain ⟨b, hb, g1, hround⟩ := h.round hne hP hslots h1
          obtain ⟨g', hbeside, hloop⟩ := ih (h.next hne hb hround) hrun
          refine ⟨g', hround.beside.trans hbeside, ?_⟩
          rwa [Nat.add_assoc, Nat.add_comm 1 n] at hloop

end InLoop

/-! ## The whole of as_copy -/

/-- The table is allocated and filled, in frames that were free. -/
theorem copyTable_made {r : AsId} {x : Addrspace} (hi : Inv P g s) (hne : old ≠ new)
    (hold : s.as old = some y) (hgood : Good P (own old g s) ∅) (hnew : s.as new = some x)
    (hseg : x.asSegment = y.asSegment) (hv : x.v = y.v) (hval : ∀ z, (own new g s).val z = none)
    (htab : (own new g s).table = ∅) (hfree : firstFree s.coremap ≠ none)
    (hP : P.slots ≤ P.firstpaddr) (hslots : P.slots ≤ 2 ^ 20)
    (h : (copyTable old new y.pt.length junk).run t s = .ok (.ok r, s')) :
    ∃ g' i, Beside P new g s g' s' ∧ InLoop P y (P.addr i) old new junk y.pt.length g' s' ∧
      i < P.frames ∧ ∀ k < max 1 (ptFrames y.pt.length), freeAt s.coremap (i + k) = true := by
  -- the table is allocated
  obtain ⟨_, s1, h1, h⟩ := run_bind_eq_ok.mp h
  obtain ⟨x', hx', hs1⟩ := copyNpages_eq_ok.mp h1
  obtain rfl := Option.some.inj (hnew.symm.trans hx')
  obtain ⟨g1, mem1, hmove1, hown1⟩ := hi.putAs (a := new) { x with npages := some y.pt.length }
  rw [← hs1] at hmove1 hown1
  have hcm : s1.coremap = s.coremap := by rw [hs1]; rfl
  obtain ⟨j, hj⟩ := Option.ne_none_iff_exists'.mp hfree
  rw [← hcm] at hj
  obtain ⟨loc, s2, h2, h⟩ := run_bind_eq_ok.mp h
  have hi1 := hmove1.inv
  obtain ⟨i, hloc, htakes⟩ := Blocks.ptAlloc_takes hi1.geometry.active hj h2
  have hs2 := Blocks.ptAlloc_coremap hi1.geometry.active hj h2
  obtain ⟨hi2, hkeeps, hown2⟩ := hi1.takes htakes (some new) hs2
  have hapart2 : Apart P new g1 s1 (g1.takeBlock i (max 1 (ptFrames y.pt.length)) (some new)) s2 := by
    refine ⟨hi2, fun b hb => ?_, by rw [hs2], by rw [hs2], hkeeps⟩
    rw [hown2, if_neg fun h => hb (Option.some.inj h).symm]
  have hlt : i < P.frames := hi1.frames ▸ htakes.lt
  have hframe : P.IsFrame (P.addr i) := ⟨i, hlt, rfl⟩
  rw [hi1.frameAddr_eq hlt] at hloc
  rw [if_neg (hloc ▸ (hframe.spec hi1.layout_wf).1)] at h
  -- it is installed as it is
  obtain ⟨_, s3, h3, h⟩ := run_bind_eq_ok.mp h
  obtain ⟨x2, hx2, -, hs3⟩ := installPt_eq_ok.mp h3
  have has2 : s2.as new = some { x with npages := some y.pt.length } := by
    rw [hs2]
    change s1.as new = _
    rw [hs1]
    exact Function.update_self ..
  obtain rfl := Option.some.inj (has2.symm.trans hx2)
  obtain ⟨g3, mem3, hmove3, hown3⟩ := hi2.putAs (a := new) { x with
    npages := some y.pt.length, asPt := some loc, pt := (List.range y.pt.length).map junk }
  rw [← hs3] at hmove3 hown3
  have hapart := (hmove1.apart.trans hapart2).trans hmove3.apart
  have hown : own new g3 s3 = ⟨some { x with
      npages := some y.pt.length, asPt := some loc, pt := (List.range y.pt.length).map junk },
      fun _ => none, {i}, mem3⟩ := by
    rw [hown3, hown2, hown1]
    refine Own.ext rfl (funext hval) ?_ rfl
    simp only [Own.noting, if_true, htab]
    exact insert_empty_eq i
  have hothers : own old g3 s3 = own old g s := hapart.others old hne
  -- the loop fills it in
  have hbeside : Beside P new g s g3 s3 := .of_apart hapart fun k => by rw [hown, hval]
  have hloop : InLoop P y (P.addr i) old new junk 0 g3 s3 := by
    refine ⟨hapart.inv, (congrArg Own.as hothers).trans hold, hothers ▸ hgood, ?_, by simp⟩
    rw [hown]
    refine .start ?_ hseg hv rfl rfl (by rw [hloc])
    obtain ⟨z, hz, hlaid⟩ := hgood.laid
    obtain rfl := Option.some.inj (hold.symm.trans hz)
    exact hlaid
  obtain ⟨err, s4, h4, h⟩ := run_bind_eq_ok.mp h
  cases err with
  | some e => exact absurd (pure_eq_ok.mp h).1 (by simp)
  | none =>
      obtain ⟨_, s5, h5, h⟩ := run_bind_eq_ok.mp h
      obtain ⟨-, rfl⟩ := lockRelease_eq_ok.mp h5
      obtain ⟨-, rfl⟩ := pure_eq_ok.mp h
      obtain ⟨g', hb4, hloop'⟩ := hloop.loop hne hP hslots h4
      rw [Nat.zero_add] at hloop'
      have hcore : (s4.drop (.pt old)).core = s4.core := rfl
      refine ⟨g', i, hbeside.trans (hb4.core_congr hcore), hloop'.core_congr hcore, hlt, fun k hk => ?_⟩
      rw [← hcm]
      exact htakes.free (i + k) (Nat.le_add_right ..) (by omega)

/-- **`as_copy` of an address space at rest, while there is a free frame.** -/
theorem asCopy_made {r : AsId} (hi : Inv P g s) (hold : s.as old = some y)
    (hgood : Good P (own old g s) ∅) (hgone : s.as new = none → Does.Gone (own new g s))
    (hfree : firstFree s.coremap ≠ none) (hP : P.slots ≤ P.firstpaddr) (hslots : P.slots ≤ 2 ^ 20)
    (h : (asCopy old (some new) (some y.v) junk).run t s = .ok (.ok r, s')) :
    old ≠ new ∧ ∃ g' i, Beside P new g s g' s' ∧
      InLoop P y (P.addr i) old new junk y.pt.length g' s' ∧
      i < P.frames ∧ ∀ k < max 1 (ptFrames y.pt.length), freeAt s.coremap (i + k) = true := by
  obtain ⟨-, ⟨e, he⟩, -⟩ | ⟨new', o, s1, hnew, -, -, hne, ho, -, hs1, -, hrest⟩ := asCopy_cases h
  · cases he
  obtain rfl := Option.some.inj hnew
  obtain rfl := Option.some.inj (hold.symm.trans ho)
  obtain ⟨-, ⟨e, he⟩, -⟩ | ⟨n, hn, -, htab, hnone, v, hv, has⟩ := hrest
  · cases he
  obtain rfl := Option.some.inj hv
  obtain ⟨x, hx, hlaid⟩ := hgood.laid
  obtain rfl := Option.some.inj (hold.symm.trans hx)
  obtain rfl := Option.some.inj (hlaid.npages.symm.trans hn)
  -- the structure of the new address space is there, with the segments of the old one
  obtain ⟨hmove, hown⟩ := hi.setAs (a := new) (x := ⟨none, [], y.asSegment, y.v, none⟩) nofun
  have hcore : s1.core = (s.setAs new ⟨none, [], y.asSegment, y.v, none⟩).core := by
    rw [hs1]
    simp only [Sys.core, has]
    rfl
  have hapart := hmove.apart.core_congr hcore
  rw [← own_core_congr (a := new) hcore] at hown
  have hothers : own old g s1 = own old g s := hapart.others old hne
  obtain ⟨-, hval, htable, -⟩ := hgone hnone
  have hbeside : Beside P new g s g s1 := .of_apart hapart fun k => by rw [hown]
  have hcm : s1.coremap = s.coremap := by rw [hs1]; rfl
  obtain ⟨g', i, hb', hloop, hlt, hblock⟩ := copyTable_made hapart.inv hne
    ((congrArg Own.as hothers).trans hold) (hothers ▸ hgood) (congrArg Own.as hown) rfl rfl
    (fun z => by rw [hown]; exact hval z) (by rw [hown]; exact htable) (hcm ▸ hfree) hP hslots htab
  exact ⟨hne, g', i, hbeside.trans hb', hloop, hlt, hcm ▸ hblock⟩

end Round

end Os161Paging
