import Os161Paging.Actions
import Os161Paging.Lookup
import Os161Paging.Tenancy

/-!
# Pages and their places

What a share looks like between two faults. A page is untouched, swapped or
resident, as the flags of its entry say; the place its `paddr` field
stands for is one of the places of the share, no two pages have the same
one, and every place is taken. This is `Tenancy` with the pages as tenants
of frames and slots, and the cases of `vm_fault` are moves of a tenant.
-/

namespace Os161Paging

/-! ## Entries -/

namespace PtEntry

/-- Where the entry says the page is. -/
def place (e : PtEntry) : Option Place :=
  if e.inMem then some (.frame e.paddr) else if e.inSwap then some (.slot e.paddr) else none

def Shaped (e : PtEntry) : Prop :=
  (e.inMem = true → e.inSwap = false) ∧ (e.inSwap = true → e.writable = true) ∧
    (e.inMem = false → e.inSwap = false → e.paddr = 0)

variable {e : PtEntry}

theorem place_inMem (h : e.inMem = true) : e.place = some (.frame e.paddr) := if_pos h

theorem place_inSwap (h : e.inMem = false) (hs : e.inSwap = true) :
    e.place = some (.slot e.paddr) := by
  simp [place, h, hs]

theorem place_eq_frame {q : Nat} : e.place = some (.frame q) ↔ e.inMem = true ∧ e.paddr = q := by
  unfold place
  split
  · simp [*]
  · split <;> simp [*]

theorem place_eq_slot {k : Nat} :
    e.place = some (.slot k) ↔ e.inMem = false ∧ e.inSwap = true ∧ e.paddr = k := by
  unfold place
  split
  · simp [*]
  · split <;> simp_all

end PtEntry

namespace Own

variable {o : Own} {j k : Nat} {e : PtEntry} {f f' : PtEntry → PtEntry} {x : Place}
  {d d' : Option Page}

def placeOf (o : Own) (j : Nat) : Option Place := (o.pte j).bind PtEntry.place

def writable (o : Own) : Set Nat := { j | ∃ e, o.pte j = some e ∧ e.writable = true }

theorem pte_modPte : (o.modPte j f).pte k = if k = j then (o.pte k).map f else o.pte k := by
  cases hx : o.as with
  | none => simp [pte, modPte, hx]
  | some x => simp [pte, modPte, hx, Addrspace.modifyPte_getElem]

@[simp] theorem val_set_self : (o.set x d).val x = d := Function.update_self ..

@[simp] theorem val_set_of_ne {y : Place} (h : y ≠ x) : (o.set x d).val y = o.val y :=
  Function.update_of_ne h ..

@[simp] theorem pte_set : (o.set x d).pte = o.pte := rfl

@[simp] theorem placeOf_set : (o.set x d).placeOf = o.placeOf := rfl

@[simp] theorem val_modPte : (o.modPte j f).val = o.val := rfl

theorem pte_modPte_self (he : o.pte j = some e) : (o.modPte j f).pte j = some (f e) := by
  rw [pte_modPte, if_pos rfl, he, Option.map_some]

theorem placeOf_modPte (he : o.pte j = some e) :
    (o.modPte j f).placeOf = Function.update o.placeOf j (f e).place := by
  funext k
  by_cases hk : k = j
  · subst hk
    rw [Function.update_self, placeOf, pte_modPte_self he, Option.bind_some]
  · rw [Function.update_of_ne hk, placeOf, pte_modPte, if_neg hk, placeOf]

theorem modPte_modPte : (o.modPte j f).modPte j f' = o.modPte j (f' ∘ f) := by
  cases hx : o.as with
  | none => simp [modPte, hx]
  | some x => simp [modPte, hx, Addrspace.modifyPte, List.modify_modify_eq]

theorem placeOf_eq (he : o.pte j = some e) : o.placeOf j = e.place := by
  rw [placeOf, he, Option.bind_some]

theorem set_modPte : (o.modPte j f).set x d = (o.set x d).modPte j f := rfl

theorem set_set : (o.set x d).set x d' = o.set x d' := by
  simp [set]

end Own

/-! ## The layout of an address space -/

/-- What `as_define_region` makes of a segment. -/
structure Segment.Wf (seg : Segment) : Prop where
  aligned : seg.start % pageSize = 0
  start_lt : seg.start < 2 ^ 32
  size_eq : seg.size = seg.npages * pageSize
  size_lt : seg.size < 2 ^ 32
  initoffset_lt : seg.initoffset < pageSize

/-- The page table as `as_prepare_load` lays it out. -/
structure Addrspace.Laid (x : Addrspace) : Prop where
  segs : ∀ seg ∈ x.asSegment, seg.Wf
  nonempty : x.asSegment ≠ []
  pages : x.pt.map (fun e => (e.vaddr, e.rwx)) =
    (freshPt x.asSegment).map fun e => (e.vaddr, e.rwx)
  npages : x.npages = some x.pt.length

/-- An address space between two faults. The places in `spare` belong to it but
to none of its pages. -/
structure Good (P : Layout) (o : Own) (spare : Set Place) : Prop where
  laid : ∃ x, o.as = some x ∧ x.Laid
  table : ∃ h, (o.as.bind (·.asPt)) = some (P.addr h) ∧ o.table = {h}
  shaped : ∀ j e, o.pte j = some e → e.Shaped
  tenancy : Tenancy o.placeOf o.val spare
  found : ∀ j e, o.pte j = some e → e.place ≠ none →
    e.vaddr < kseg0 ∧ ∃ x, o.as = some x ∧ (x.lookup e.vaddr).map (·.1) = some j

/-- Every entry the TLB may hold translates a resident page to its frame, and is
writable exactly if the page is. -/
def Backed (o : Own) (tlb : Set TlbEntry) : Prop :=
  ∀ t ∈ tlb, ∃ j e, o.pte j = some e ∧ e.inMem = true ∧ e.vaddr = t.vpage ∧ e.paddr = t.ppage ∧
    t.dirty = e.writable

/-- The writable pages contain what the record says. -/
def Faithful (o : Own) : Prop := Remembers o.mem o.placeOf o.val o.writable

/-! ## Changing an entry -/

namespace Addrspace

variable {x : Addrspace} {j : Nat} {f : PtEntry → PtEntry}

/-- The lookup of `vm_fault` depends on the virtual addresses only. -/
theorem lookup_modifyPte (hf : ∀ e, (f e).vaddr = e.vaddr) (fa : Nat) :
    (x.modifyPte j f).lookup fa = x.lookup fa := by
  have hscan : ∀ np n, scanSlice (x.modifyPte j f).pt fa np n = scanSlice x.pt fa np n := by
    intro np n
    rw [scanSlice, scanSlice]
    congr 1
    funext i
    rw [modifyPte_getElem]
    split
    · cases x.pt[i]? with
      | none => rfl
      | some e => simp [hf]
    · rfl
  simp only [lookup, hscan]
  rfl

theorem Laid.modifyPte (h : x.Laid) (hf : ∀ e, (f e).vaddr = e.vaddr ∧ (f e).rwx = e.rwx) :
    (x.modifyPte j f).Laid where
  segs := h.segs
  nonempty := h.nonempty
  pages := by
    refine Eq.trans (List.ext_getElem? fun i => ?_) h.pages
    rw [List.getElem?_map, List.getElem?_map, modifyPte_getElem]
    split
    · cases x.pt[i]? with
      | none => rfl
      | some e => simp [hf e]
    · rfl
  npages := by
    rw [Addrspace.modifyPte, List.length_modify]
    exact h.npages

end Addrspace

namespace Good

variable {P : Layout} {o : Own} {spare spare' : Set Place} {j k q : Nat} {e : PtEntry}
  {f : PtEntry → PtEntry} {val : Place → Option Page} {d : Page}

/-- An entry changes together with the places of the share. -/
theorem update (hg : Good P o spare) (he : o.pte j = some e)
    (hf : ∀ e, (f e).vaddr = e.vaddr ∧ (f e).rwx = e.rwx) (hshape : (f e).Shaped)
    (hten : Tenancy (Function.update o.placeOf j (f e).place) val spare')
    (hfound : (f e).place ≠ none →
      e.vaddr < kseg0 ∧ ∃ x, o.as = some x ∧ (x.lookup e.vaddr).map (·.1) = some j) :
    Good P { o.modPte j f with val := val } spare' := by
  have hpte : ∀ i, ({ o.modPte j f with val := val } : Own).pte i =
      if i = j then (o.pte i).map f else o.pte i := fun i => Own.pte_modPte
  obtain ⟨x, hx, hlaid⟩ := hg.laid
  have hx' : (o.modPte j f).as = some (x.modifyPte j f) := by rw [Own.modPte, hx, Option.map_some]
  refine ⟨⟨_, hx', hlaid.modifyPte hf⟩, ?_, fun i e' hi => ?_, ?_, fun i e' hi hpl => ?_⟩
  · obtain ⟨h, hpt, hin⟩ := hg.table
    refine ⟨h, ?_, hin⟩
    rw [hx, Option.bind_some] at hpt
    simp only [hx', Option.bind_some]
    exact hpt
  · rw [hpte] at hi
    split at hi
    · rename_i hij
      rw [hij, he, Option.map_some, Option.some.injEq] at hi
      exact hi ▸ hshape
    · exact hg.shaped i e' hi
  · have := Own.placeOf_modPte (f := f) he
    rw [← this] at hten
    exact hten
  · have hold : e'.vaddr < kseg0 ∧ ∃ x, o.as = some x ∧ (x.lookup e'.vaddr).map (·.1) = some i := by
      rw [hpte] at hi
      split at hi
      · rename_i hij
        subst hij
        rw [he, Option.map_some, Option.some.injEq] at hi
        subst hi
        rw [(hf e).1]
        exact hfound hpl
      · exact hg.found i e' hi hpl
    obtain ⟨hlt, y, hy, hlook⟩ := hold
    obtain rfl := Option.some.inj (hy.symm.trans hx)
    exact ⟨hlt, _, hx', by rw [Addrspace.lookup_modifyPte fun e => (hf e).1]; exact hlook⟩

end Good

theorem Good.placeOf_of_inSwap {P : Layout} {o : Own} {spare : Set Place} {j : Nat} {e : PtEntry}
    (hg : Good P o spare) (he : o.pte j = some e) (hin : e.inSwap = true) :
    o.placeOf j = some (.slot e.paddr) := by
  have hout : e.inMem = false := by
    by_contra hne
    rw [(hg.shaped j e he).1 (by simpa using hne)] at hin
    cases hin
  rw [Own.placeOf_eq he, PtEntry.place_inSwap hout hin]

/-! ## The four moves of a page -/

namespace Own

def swapOut (o : Own) (j k : Nat) (d : Page) : Own :=
  (o.set (.slot k) (some d)).modPte j fun e =>
    { e with paddr := k, inSwap := true, inMem := false }

def discard (o : Own) (j : Nat) : Own :=
  o.modPte j fun e => { e with paddr := 0, inMem := false }

def swapIn (o : Own) (j q k : Nat) (d : Page) : Own :=
  (((o.set (.frame q) (some d)).set (.slot k) none).modPte j fun e =>
    { e with paddr := q, inSwap := false, inMem := true }).see j d

/-- Page `j` gets its first contents `d`, in the frame at `q`. -/
def fillIn (o : Own) (j q : Nat) (d : Page) : Own :=
  ((o.set (.frame q) (some d)).modPte j fun e => { e with paddr := q, inMem := true }).see j d

end Own

namespace Good

variable {P : Layout} {o : Own} {j k q : Nat} {e : PtEntry} {d : Page}

/-- Where an entry leads, once the page is in use. -/
def Reachable (o : Own) (j : Nat) (e : PtEntry) : Prop :=
  e.vaddr < kseg0 ∧ ∃ x, o.as = some x ∧ (x.lookup e.vaddr).map (·.1) = some j

theorem see {spare : Set Place} (hg : Good P o spare) : Good P (o.see j d) spare :=
  ⟨hg.laid, hg.table, hg.shaped, hg.tenancy, hg.found⟩

theorem swapOut (hg : Good P o ∅) (he : o.pte j = some e) (hin : e.inMem = true)
    (hw : e.writable = true) (hk : o.val (.slot k) = none) :
    Good P (o.swapOut j k d) {.frame e.paddr} := by
  refine hg.update he (fun _ => ⟨rfl, rfl⟩) ⟨nofun, fun _ => hw, nofun⟩ ?_ fun _ =>
    hg.found j e he (by simp [PtEntry.place_inMem hin])
  have hj : o.placeOf j = some (.frame e.paddr) := by
    rw [Own.placeOf_eq he, PtEntry.place_inMem hin]
  have h := (hg.tenancy.acquire (c := d) hk).relocate (y := .slot k) hj (.inl rfl)
  simpa [Own.set, PtEntry.place] using h

theorem discard (hg : Good P o ∅) (he : o.pte j = some e) (hin : e.inMem = true) :
    Good P (o.discard j) {.frame e.paddr} := by
  have hout := (hg.shaped j e he).1 hin
  refine hg.update he (fun _ => ⟨rfl, rfl⟩) ⟨nofun, ?_, fun _ _ => rfl⟩ ?_ fun h => ?_
  · rw [hout]
    exact nofun
  · have hj : o.placeOf j = some (.frame e.paddr) := by
      rw [Own.placeOf_eq he, PtEntry.place_inMem hin]
    simpa [PtEntry.place, hout] using hg.tenancy.vacate hj
  · simp [PtEntry.place, hout] at h

theorem swapIn (hg : Good P o {.frame q}) (he : o.pte j = some e) (hout : e.inMem = false)
    (hin : e.inSwap = true) : Good P (o.swapIn j q e.paddr d) ∅ := by
  have hpl := PtEntry.place_inSwap hout hin
  have hj : o.placeOf j = some (.slot e.paddr) := by rw [Own.placeOf_eq he, hpl]
  refine see (hg.update he (fun _ => ⟨rfl, rfl⟩) ⟨fun _ => rfl, nofun, nofun⟩ ?_ fun _ =>
    hg.found j e he (by simp [hpl]))
  have h := ((hg.tenancy.refill (c := d) (hg.tenancy.owned _ rfl)).relocate (y := .frame q) hj
    rfl).release (x := .slot e.paddr) (.inl rfl)
  simpa [Own.set, PtEntry.place] using h

theorem fillIn (hg : Good P o {.frame q}) (he : o.pte j = some e) (hout : e.inMem = false)
    (hswap : e.inSwap = false) (hr : Reachable o j e) : Good P (o.fillIn j q d) ∅ := by
  have hj : o.placeOf j = none := by
    rw [Own.placeOf_eq he]
    simp [PtEntry.place, hout, hswap]
  refine see (hg.update he (fun _ => ⟨rfl, rfl⟩) ⟨fun _ => hswap, ?_, nofun⟩ ?_ fun _ => hr)
  · exact fun h => absurd h (by simp [hswap])
  · have h := (hg.tenancy.refill (c := d) (hg.tenancy.owned _ rfl)).occupy (x := .frame q) hj rfl
    simpa [Own.set, PtEntry.place] using h

end Good

/-! ## The record stays true -/

namespace Own

variable {o : Own} {j : Nat} {f : PtEntry → PtEntry}

theorem writable_modPte (hf : ∀ e, (f e).rwx = e.rwx) : (o.modPte j f).writable = o.writable := by
  ext i
  simp only [writable, Set.mem_ofPred_eq, pte_modPte]
  split
  · cases o.pte i with
    | none => simp
    | some e => simp [PtEntry.writable, hf]
  · rfl

end Own

namespace Faithful

variable {P : Layout} {o : Own} {j k q : Nat} {e : PtEntry} {d : Page}

/-- Page `j` has moved; the other writable pages find their places as they were. -/
theorem update {f : PtEntry → PtEntry} {val : Place → Option Page} {mem : Nat → Option Page}
    (h : Faithful o) (he : o.pte j = some e) (hf : ∀ e, (f e).rwx = e.rwx)
    (hj : e.writable = true → mem j = (f e).place.bind val)
    (hmem : ∀ i, i ≠ j → mem i = o.mem i)
    (hval : ∀ i x, i ≠ j → o.placeOf i = some x → val x = o.val x) :
    Faithful { o.modPte j f with val := val, mem := mem } := by
  intro i hi
  have hw : i ∈ o.writable := by
    rw [← Own.writable_modPte (j := j) hf]
    exact hi
  change mem i = ((o.modPte j f).placeOf i).bind val
  rw [Own.placeOf_modPte he]
  by_cases hij : i = j
  · subst hij
    obtain ⟨e', he', hwr⟩ := hw
    obtain rfl := Option.some.inj (he.symm.trans he')
    rw [Function.update_self]
    exact hj hwr
  · rw [Function.update_of_ne hij, hmem i hij, h i hw]
    cases hx : o.placeOf i with
    | none => rfl
    | some x => exact (hval i x hij hx).symm

theorem mem_eq (h : Faithful o) (he : o.pte j = some e) (hw : e.writable = true) :
    o.mem j = e.place.bind o.val := by
  rw [h j ⟨e, he, hw⟩, Own.placeOf_eq he]

theorem swapOut (h : Faithful o) (hg : Good P o ∅) (he : o.pte j = some e)
    (hin : e.inMem = true) (hk : o.val (.slot k) = none)
    (hd : o.val (.frame e.paddr) = some d) : Faithful (o.swapOut j k d) := by
  refine h.update he (fun _ => rfl) (fun hw => ?_) (fun _ _ => rfl) fun i x _ hx => ?_
  · change o.mem j = _
    rw [h.mem_eq he hw, PtEntry.place_inMem hin, Option.bind_some, hd]
    simp [PtEntry.place, Own.set]
  · have hne : x ≠ .slot k := by
      rintro rfl
      exact hg.tenancy.housed i _ hx hk
    exact Function.update_of_ne hne ..

theorem discard (h : Faithful o) (he : o.pte j = some e) (hw : e.writable = false) :
    Faithful (o.discard j) := by
  refine h.update he (fun _ => rfl) (fun hw' => ?_) (fun _ _ => rfl) fun _ _ _ _ => rfl
  rw [hw] at hw'
  cases hw'

theorem swapIn (h : Faithful o) (hg : Good P o {.frame q}) (he : o.pte j = some e)
    (hout : e.inMem = false) (hin : e.inSwap = true) (hd : o.val (.slot e.paddr) = some d) :
    Faithful (o.swapIn j q e.paddr d) := by
  have hpl := PtEntry.place_inSwap hout hin
  refine h.update he (fun _ => rfl) (fun hw => ?_) (fun i hi => Function.update_of_ne hi ..)
    fun i x hi hx => ?_
  · have hmem : o.mem j = some d := by rw [h.mem_eq he hw, hpl, Option.bind_some, hd]
    simp [Own.set, Own.modPte, PtEntry.place, hmem]
  · have hslot : x ≠ .slot e.paddr := by
      rintro rfl
      exact hi (hg.tenancy.alone i j _ hx (by rw [Own.placeOf_eq he, hpl]))
    have hframe : x ≠ .frame q := by
      rintro rfl
      exact hg.tenancy.vacant _ rfl i hx
    simp [Own.set, Own.modPte, hslot, hframe]

theorem fillIn (h : Faithful o) (hg : Good P o {.frame q}) (he : o.pte j = some e)
    (hout : e.inMem = false) (hswap : e.inSwap = false) : Faithful (o.fillIn j q d) := by
  refine h.update he (fun _ => rfl) (fun hw => ?_) (fun i hi => Function.update_of_ne hi ..)
    fun i x hi hx => ?_
  · have hmem : o.mem j = none := by
      rw [h.mem_eq he hw]
      simp [PtEntry.place, hout, hswap]
    simp [Own.set, Own.modPte, PtEntry.place, hmem]
  · have hframe : x ≠ .frame q := by
      rintro rfl
      exact hg.tenancy.vacant _ rfl i hx
    simp [Own.set, Own.modPte, hframe]

end Faithful

/-! ## The TLB stays backed -/

/-- The entry `tlb_loadentry` writes for an aligned address. -/
theorem tlbLo_spec (fa : Nat) (ro : Bool) {q : Nat} (hq : q % pageSize = 0) :
    (TlbEntry.mk fa (tlbLo q ro)).valid = true ∧ (TlbEntry.mk fa (tlbLo q ro)).dirty = !ro ∧
      (TlbEntry.mk fa (tlbLo q ro)).ppage = q := by
  obtain ⟨n, rfl⟩ : ∃ n, q = 2 ^ 12 * n := ⟨q / 4096, by rw [pageSize_eq] at hq; omega⟩
  cases ro with
  | true =>
      have hlo : tlbLo (2 ^ 12 * n) true = 2 ^ 12 * n + 512 := by
        rw [tlbLo, if_pos rfl, Nat.or_zero]
        exact (Nat.two_pow_add_eq_or_of_lt (i := 12) (b := 512) (by decide) n).symm
      simp only [TlbEntry.valid, TlbEntry.dirty, TlbEntry.ppage, hlo, pageFrame, pageSize_eq,
        Nat.testBit_eq_decide_div_mod_eq]
      simp
      omega
  | false =>
      have hlo : tlbLo (2 ^ 12 * n) false = 2 ^ 12 * n + 1536 := by
        rw [tlbLo, if_neg Bool.false_ne_true, Nat.or_assoc]
        exact (Nat.two_pow_add_eq_or_of_lt (i := 12) (b := 1536) (by decide) n).symm
      simp only [TlbEntry.valid, TlbEntry.dirty, TlbEntry.ppage, hlo, pageFrame, pageSize_eq,
        Nat.testBit_eq_decide_div_mod_eq]
      simp
      omega

namespace Backed

variable {o o' : Own} {tlb : Set TlbEntry} {j : Nat} {e : PtEntry}

theorem forget (h : Backed o tlb) (he : o.pte j = some e) (ho : ∀ i, i ≠ j → o'.pte i = o.pte i) :
    Backed o' { t ∈ tlb | t.vpage ≠ e.vaddr } := by
  rintro t ⟨ht, hne⟩
  obtain ⟨i, e', hi, hrest⟩ := h t ht
  have hij : i ≠ j := by
    rintro rfl
    obtain rfl := Option.some.inj (he.symm.trans hi)
    exact hne hrest.2.1.symm
  exact ⟨i, e', (ho i hij).trans hi, hrest⟩

theorem keep (h : Backed o tlb) (he : o.pte j = some e) (hout : e.inMem = false)
    (ho : ∀ i, i ≠ j → o'.pte i = o.pte i) : Backed o' tlb := by
  intro t ht
  obtain ⟨i, e', hi, hin, hrest⟩ := h t ht
  have hij : i ≠ j := by
    rintro rfl
    obtain rfl := Option.some.inj (he.symm.trans hi)
    rw [hout] at hin
    cases hin
  exact ⟨i, e', (ho i hij).trans hi, hin, hrest⟩

theorem insert (h : Backed o tlb) (he : o.pte j = some e) (hin : e.inMem = true)
    (hq : e.paddr % pageSize = 0) (hva : pageFrame e.vaddr = e.vaddr) :
    Backed o (Insert.insert ⟨e.vaddr, tlbLo e.paddr (!e.writable)⟩ tlb) := by
  intro t ht
  rcases ht with rfl | ht
  · obtain ⟨-, hdirty, hpp⟩ := tlbLo_spec e.vaddr (!e.writable) hq
    exact ⟨j, e, he, hin, hva.symm, hpp.symm, by rw [hdirty, Bool.not_not]⟩
  · exact h t ht

end Backed

/-! ## Finding the page in a frame -/

/-- No slot number of the share is the address of one of its frames. -/
def NoAlias (o : Own) : Prop := ∀ n, o.val (.slot n) ≠ none → o.val (.frame n) = none

structure Placed (P : Layout) (o : Own) : Prop where
  frame : ∀ q, o.val (.frame q) ≠ none → P.IsFrame q
  slot : ∀ k, o.val (.slot k) ≠ none → k < P.slots

theorem Inv.placed {P : Layout} {a : AsId} {g : Ghost} {s : Sys} (hi : Inv P g s) :
    Placed P (own a g s) where
  frame q hq := by
    refine hi.isFrame (a := a) ?_
    by_contra hne
    exact hq (if_neg hne)
  slot k hk := by
    refine hi.slot_lt (a := a) ?_
    by_contra hne
    exact hk (if_neg hne)

/-- Frames are pages of physical memory above address 0. -/
structure Layout.Wf (P : Layout) : Prop where
  pos : 0 < P.firstpaddr
  aligned : P.firstpaddr % pageSize = 0
  fits : P.firstpaddr + P.frames * pageSize < 2 ^ 32

theorem Inv.layout_wf {P : Layout} {g : Ghost} {s : Sys} (hi : Inv P g s) : P.Wf := by
  have hg := hi.geometry
  exact ⟨hi.firstpaddr ▸ hg.pos, hi.firstpaddr ▸ hg.aligned, by
    rw [← hi.firstpaddr, ← hi.frames]; exact hg.fits⟩

theorem Layout.IsFrame.spec {P : Layout} {q : Nat} (h : P.IsFrame q) (hP : P.Wf) :
    q ≠ 0 ∧ q % pageSize = 0 ∧ q + pageSize ≤ 2 ^ 32 := by
  obtain ⟨i, hi, rfl⟩ := h
  have := hP.pos
  have := hP.aligned
  have := hP.fits
  simp only [Layout.addr, pageSize_eq] at *
  omega

/-- On a swap file with fewer slots than there are bytes below the first frame,
no slot number is an address. -/
theorem Placed.noAlias {P : Layout} {o : Own} (h : Placed P o) (hP : P.slots ≤ P.firstpaddr) :
    NoAlias o := by
  intro n hn
  by_contra hf
  obtain ⟨i, -, hi⟩ := h.frame n hf
  have := h.slot n hn
  rw [Layout.addr] at hi
  omega

/-- **The scan of `getPage` finds the page that lives in the frame.** -/
theorem Good.findIdx {P : Layout} {o : Own} {x : Addrspace} {q : Nat} (hg : Good P o ∅)
    (hx : o.as = some x) (hal : NoAlias o) (hq : o.val (.frame q) ≠ none) (hpos : q ≠ 0) :
    ∃ j e, (x.pt.findIdx? fun e => e.paddr == q) = some j ∧ o.pte j = some e ∧
      e.inMem = true ∧ e.paddr = q := by
  have hpte : ∀ i, o.pte i = x.pt[i]? := fun i => by rw [Own.pte, hx, Option.bind_some]
  obtain ⟨i, hi⟩ := hg.tenancy.tenanted _ hq (Set.notMem_empty _)
  obtain ⟨e, he, hpl⟩ := Option.bind_eq_some_iff.mp hi
  cases hj : x.pt.findIdx? fun e => e.paddr == q with
  | none =>
      have := List.findIdx?_eq_none_iff.mp hj e (List.mem_of_getElem? ((hpte i).symm.trans he))
      rw [(PtEntry.place_eq_frame.mp hpl).2] at this
      simp at this
  | some j =>
      obtain ⟨hlt, hmatch, -⟩ := List.findIdx?_eq_some_iff_getElem.mp hj
      have hpaddr : x.pt[j].paddr = q := by simpa using hmatch
      have hej : o.pte j = some x.pt[j] := (hpte j).trans (List.getElem?_eq_getElem hlt)
      refine ⟨j, x.pt[j], rfl, hej, ?_, hpaddr⟩
      -- a swapped page would show a slot number, an untouched one zero
      by_contra hout
      rw [Bool.not_eq_true] at hout
      cases hswap : x.pt[j].inSwap with
      | true =>
          have hslot : o.placeOf j = some (.slot q) := by
            rw [Own.placeOf_eq hej, PtEntry.place_inSwap hout hswap, hpaddr]
          exact hq (hal q (hg.tenancy.housed j _ hslot))
      | false => exact hpos (hpaddr.symm.trans ((hg.shaped j _ hej).2.2 hout hswap))

/-! ## Where a fault leads -/

theorem Segment.define_wf {vaddr memsize filesize r w x offset : Nat} (h : vaddr < 2 ^ 32) :
    (Segment.define vaddr memsize filesize r w x offset).Wf := by
  constructor
  · simp only [Segment.define, pageFrame, pageSize_eq]
    omega
  · simp only [Segment.define, pageFrame, pageSize_eq]
    omega
  · simp only [Segment.define, pageFrame, pageSize_eq]
    omega
  · simp only [Segment.define, pageFrame, wrap, pageSize_eq]
    omega
  · simp only [Segment.define, pageOffset, pageSize_eq]
    omega

section

variable {seg : Segment} (h : seg.Wf) {k fa q : Nat} (hk : k < seg.npages)
  (hfa : fa = wrap (seg.start + k * pageSize))
include h hk hfa

/-- The address of a page is as far from the start of its segment as its number says, even
where the segment wraps around. -/
theorem ondemand_amt : pageFrame (wrap (pageFrame fa + 2 ^ 32 - seg.start)) = k * pageSize := by
  have hsize := h.size_eq
  have hslt := h.size_lt
  have hlt := h.start_lt
  have hal := h.aligned
  simp only [hfa, wrap, pageFrame, pageSize_eq] at *
  omega

omit hfa in
theorem ondemand_left :
    k * pageSize + pageSize ≤ seg.size ∧
      wrap (seg.size + 2 ^ 32 - k * pageSize) = seg.size - k * pageSize := by
  have hsize := h.size_eq
  have hslt := h.size_lt
  rw [wrap, pageSize_eq] at *
  omega

/-- The first page is loaded from the offset of the segment in it on, up to its end; the others
are loaded with what is left of the file part. -/
theorem ondemandArgs_eq (hq : q + pageSize ≤ 2 ^ 32) :
    ondemandArgs seg q fa =
      if k * pageSize = 0 then
        ⟨seg.offset, q + seg.initoffset, pageSize - seg.initoffset, pageSize - seg.initoffset⟩
      else ⟨seg.offset + k * pageSize, q, pageSize, min (seg.filesize - k * pageSize) pageSize⟩ := by
  have hinit := h.initoffset_lt
  have hamt := ondemand_amt h hk hfa
  obtain ⟨hsize, hleft⟩ := ondemand_left h hk
  have hmem : (if seg.size - k * pageSize > pageSize then pageSize
      else seg.size - k * pageSize) = pageSize := by
    split <;> omega
  simp only [ondemandArgs, hamt, hleft, hmem]
  by_cases h0 : k * pageSize = 0
  · rw [if_pos h0, if_pos h0]
    simp only [wrap, pageSize_eq, OndemandArgs.mk.injEq] at *
    omega
  · rw [if_neg h0, if_neg h0]
    simp only [OndemandArgs.mk.injEq, true_and]
    split
    · omega
    · split <;> omega

/-- **On-demand loading stays within the frame it is given**, and reads no more than it has
room for. -/
theorem ondemandArgs_within (hq : q + pageSize ≤ 2 ^ 32) :
    q ≤ (ondemandArgs seg q fa).paddr ∧
      (ondemandArgs seg q fa).paddr + (ondemandArgs seg q fa).memsize ≤ q + pageSize ∧
      (ondemandArgs seg q fa).filesize ≤ (ondemandArgs seg q fa).memsize := by
  have hinit := h.initoffset_lt
  rw [ondemandArgs_eq h hk hfa hq]
  split
  · dsimp only
    omega
  · exact ⟨Nat.le_refl _, Nat.le_refl _, Nat.min_le_right ..⟩

end

namespace Addrspace.Laid

variable {x : Addrspace} (h : x.Laid) {fa np : Nat} {seg : Segment} {last : Bool}
include h

theorem slice_le (hw : walkSegments fa x.asSegment 0 = some (seg, np, last)) :
    np + seg.npages ≤ x.pt.length := by
  have hlen : x.pt.length = (freshPt x.asSegment).length := by
    simpa using congrArg List.length h.pages
  rw [hlen]
  exact walkSegments_slice_le hw

/-- The page that `vm_fault` finds is one of its segment. -/
theorem scan_page (hw : walkSegments fa x.asSegment 0 = some (seg, np, last)) {i : Nat}
    (hs : scanSlice x.pt fa np seg.npages = some i) :
    seg ∈ x.asSegment ∧ (∃ e, x.pt[i]? = some e ∧ e.vaddr = fa) ∧
      ∃ k < seg.npages, fa = wrap (seg.start + k * pageSize) := by
  obtain ⟨before, after, hsegs, hnp, -⟩ := walkSegments_split hw
  simp only [Nat.zero_add] at hnp hsegs
  obtain ⟨hle, hlt, e, he, hfa⟩ := scanSlice_eq_some hs
  obtain ⟨k, rfl⟩ := Nat.exists_eq_add_of_le hle
  have hk : k < seg.npages := by omega
  refine ⟨by simp [hsegs], ⟨e, he, hfa⟩, k, hk, ?_⟩
  obtain ⟨e', he', hva, -⟩ := freshPt_entry before after hk
  have hget := congrArg (·[np + k]?) h.pages
  rw [← hnp] at he'
  simp only [List.getElem?_map, he, hsegs, he', Option.map_some, Option.some.injEq,
    Prod.mk.injEq] at hget
  rw [← hfa, hget.1, hva]

end Addrspace.Laid

end Os161Paging
