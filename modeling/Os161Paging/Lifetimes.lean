import Mathlib.Data.Set.Card
import Os161Paging.Holdings

/-!
# The life of a program

What a program has taken by the time `as_destroy` is called has all been
taken by its own page faults and by `as_prepare_load`: free frames, which
the coremap then names it for, and free slots, which its page table then
names. Hence what `as_destroy` gives back is what there was at the start.

That the page table names every slot it was given is where a slot number
taken for the address of a frame does its harm: the slot is never given
back.
-/

namespace Os161Paging

open Prog

namespace Calls

variable {P : Layout} {t : Tid} {a b : AsId} {g g' : Ghost} {s s0 s' : Sys} {c c' : Config}
  {i k n : Nat}

/-! ## What there is and who has it -/

def freeFrames (s : Sys) : Set Nat := { i | ∃ e, s.coremap[i]? = some e ∧ e.isFree = true }

def markedSlots (s : Sys) : Set Nat := { k | s.swapMap[k]? = some true }

def tableFrames (s : Sys) (a : AsId) : Set Nat :=
  { i | ∃ p n, tableOf s a = some (some p, some n) ∧ (p - s.firstpaddr) / pageSize ≤ i ∧
    i < (p - s.firstpaddr) / pageSize + max 1 (ptFrames n) }

def framesOf (s : Sys) (a : AsId) : Set Nat :=
  { i | i ∈ tableFrames s a ∨ ∃ e, s.coremap[i]? = some e ∧ e.as = some a }

def slotsOf (s : Sys) (a : AsId) : Set Nat :=
  { k | ∃ j e, s.pte a j = some e ∧ e.inSwap = true ∧ e.paddr = k }

theorem mem_slotsOf {x : Addrspace} (hx : s.as a = some x) :
    k ∈ slotsOf s a ↔ ∃ e ∈ x.pt, e.inSwap = true ∧ e.paddr = k := by
  have hpte : ∀ j, s.pte a j = x.pt[j]? := fun j => by rw [Sys.pte, hx, Option.bind_some]
  constructor
  · rintro ⟨j, e, he, hin⟩
    exact ⟨e, List.mem_of_getElem? ((hpte j).symm.trans he), hin⟩
  · rintro ⟨e, he, hin⟩
    obtain ⟨j, hj⟩ := List.mem_iff_getElem?.mp he
    exact ⟨j, e, (hpte j).trans hj, hin⟩

theorem Ok.mem_tableFrames {h : Nat} (hc : Ok P g c)
    (ht : tableOf c.sys a = some (some (P.addr h), some n)) :
    i ∈ tableFrames c.sys a ↔ h ≤ i ∧ i < h + max 1 (ptFrames n) := by
  have hix : (P.addr h - c.sys.firstpaddr) / pageSize = h := by
    rw [hc.inv.firstpaddr, Layout.addr, Nat.add_sub_cancel_left, Nat.mul_div_cancel _ (by decide)]
  constructor
  · rintro ⟨p, m, hp, hi⟩
    obtain ⟨rfl, rfl⟩ : P.addr h = p ∧ n = m := by simpa [ht] using hp
    rwa [hix] at hi
  · intro hi
    exact ⟨_, n, ht, by rwa [hix]⟩

/-- The slots in use that are not those of `a` are those of the others. -/
theorem Ok.marked_diff (hc : Ok P g c) :
    markedSlots c.sys \ slotsOf c.sys a = { k | ∃ b, b ≠ a ∧ k ∈ slotsOf c.sys b } := by
  ext k
  constructor
  · rintro ⟨hk, hno⟩
    obtain ⟨b, j, e, he, hin, hp⟩ := hc.marked_iff.mp hk
    exact ⟨b, fun hba => hno (hba ▸ ⟨j, e, he, hin, hp⟩), j, e, he, hin, hp⟩
  · rintro ⟨b, hba, j, e, he, hin, hp⟩
    refine ⟨hc.marked_iff.mpr ⟨b, j, e, he, hin, hp⟩, ?_⟩
    rintro ⟨j', e', he', hin', hp'⟩
    exact hba (hc.slot_unshared he he' hin hin' (hp.trans hp'.symm)).1

/-- The page table of `a` names as many slots as it has entries in the swap file. -/
theorem Ok.ncard_slotsOf {x : Addrspace} (hc : Ok P g c) (hx : c.sys.as a = some x) :
    (slotsOf c.sys a).ncard = x.pt.countP (·.inSwap) := by
  have hpte : ∀ j, c.sys.pte a j = x.pt[j]? := fun j => by rw [Sys.pte, hx, Option.bind_some]
  have hnodup : ((x.pt.filter (·.inSwap)).map (·.paddr)).Nodup := by
    rw [List.Nodup, List.pairwise_map, List.pairwise_filter, List.pairwise_iff_getElem]
    intro i j hi hj hij hin hin' hp
    have h := hc.slot_unshared (a := a) (b := a) ((hpte i).trans (List.getElem?_eq_getElem hi))
      ((hpte j).trans (List.getElem?_eq_getElem hj)) hin hin' hp
    omega
  have hset : slotsOf c.sys a = ((x.pt.filter (·.inSwap)).map (·.paddr)).toFinset := by
    ext k
    rw [mem_slotsOf hx]
    simp [and_assoc]
  rw [hset, Set.ncard_coe_finset, List.toFinset_card_of_nodup hnodup, List.length_map,
    List.countP_eq_length_filter]

/-! ## as_destroy -/

structure Released (a : AsId) (s s' : Sys) : Prop where
  unowned : ∀ (i : Nat) e, s'.coremap[i]? = some e → e.as ≠ some a
  freed : framesOf s a ⊆ freeFrames s'
  unmarked : ∀ k ∈ slotsOf s a, s'.swapMap[k]? = some false
  used : (s'.used + (slotsOf s a).ncard) % 2 ^ 16 = s.used % 2 ^ 16
  frames : ∀ i ∉ framesOf s a, s'.coremap[i]? = s.coremap[i]?
  slots : ∀ k ∉ slotsOf s a, s'.swapMap[k]? = s.swapMap[k]?
  others : ∀ b, b ≠ a → s'.as b = s.as b
  contents : s'.ram = s.ram ∧ s'.disk = s.disk

theorem Ok.released {u : Unit} (hc : Ok P g c) (hrun : (asDestroy a).run t c.sys = .ok (u, s')) :
    Released a c.sys s' := by
  obtain ⟨x, h, e, hx, htab, he, hlen, hs'⟩ := hc.destroy_eq hrun
  have hpos : 0 < e.allocpages := by omega
  have htable : ∀ i, i ∈ tableFrames c.sys a ↔ h ≤ i ∧ i < h + e.allocpages := by
    intro i
    rw [hc.mem_tableFrames htab, hlen]
  have hcm : ∀ i : Nat, s'.coremap[i]? =
      (((c.sys.cleared x.pt).emptyRun h e.allocpages).coremap[i]?).map (CEntry.without a) := by
    intro i
    rw [hs', Sys.withoutAs, List.getElem?_map]
  have hmap : ∀ k : Nat, s'.swapMap[k]? = (clearMarks x.pt c.sys.swapMap)[k]? := by
    intro k
    rw [hs']
    rfl
  refine ⟨fun i e1 hi => ?_, fun i hi => ?_, fun k hk => ?_, ?_, fun i hi => ?_, fun k hk => ?_,
    fun b hb => ?_, ?_⟩
  · rw [hcm] at hi
    obtain ⟨e2, -, rfl⟩ := Option.map_eq_some_iff.mp hi
    rw [CEntry.without]
    split
    · simp [CEntry.setEmpty]
    · assumption
  · by_cases hr : h ≤ i ∧ i < h + e.allocpages
    · obtain ⟨e0, he0, -, hblk⟩ := hc.inv.block h h _ (hc.home htab)
      obtain rfl := Option.some.inj (he.symm.trans he0)
      obtain ⟨e1, he1, -⟩ := hc.inv.kernel i h _ ((hblk i).mpr hr)
      obtain ⟨e2, he2, hfree, hnone⟩ := emptyRun_isFree (s := c.sys.cleared x.pt) hr he1
      exact ⟨e2, by rw [hcm, he2, Option.map_some, CEntry.without, hnone, if_neg (by simp)], hfree⟩
    · obtain hi | ⟨e1, he1, ha⟩ := hi
      · exact absurd ((htable i).mp hi) hr
      · refine ⟨e1.setEmpty, ?_, CEntry.setEmpty_isFree _⟩
        rw [hcm, emptyRun_getElem hr hpos]
        change (c.sys.coremap[i]?).map _ = _
        rw [he1, Option.map_some, CEntry.without, if_pos ha]
  · rw [hmap, clearMarks_getElem, if_pos ((mem_slotsOf hx).mp hk)]
    obtain ⟨j, e1, he1, hin, rfl⟩ := hk
    rw [hc.marked_iff.mpr ⟨a, j, e1, he1, hin, rfl⟩]
    rfl
  · rw [hc.ncard_slotsOf hx, hs']
    exact clearUsed_add x.pt c.sys.used
  · obtain ⟨htab', hown⟩ := not_or.mp hi
    rw [hcm, emptyRun_getElem (mt (htable i).mpr htab') hpos]
    change (c.sys.coremap[i]?).map _ = _
    cases he1 : c.sys.coremap[i]? with
    | none => rfl
    | some e1 =>
        rw [Option.map_some, CEntry.without, if_neg fun ha => hown ⟨e1, he1, ha⟩]
  · rw [hmap, clearMarks_getElem, if_neg (mt (mem_slotsOf hx).mpr hk)]
  · rw [hs']
    exact Function.update_of_ne hb ..
  · rw [hs']
    exact ⟨rfl, rfl⟩

/-! ## From as_prepare_load on -/

/-- What `a` has, counted to what is free, is what was free in `s0`. -/
structure Held (a : AsId) (s0 s : Sys) : Prop where
  frames : freeFrames s ∪ framesOf s a = freeFrames s0
  slots : markedSlots s \ slotsOf s a = markedSlots s0

/-- Just loaded, a program has the frames of its page table. -/
theorem Ok.held_of_prepare (hc : Ok P g c) (hall : allowed c (.prepare a) = true)
    (h : (asPrepareLoad a).run t c.sys = .ok (none, s')) :
    (∃ g', Ok P g' { c with sys := s' }) ∧ hasTable s' a = true ∧ Held a c.sys s' := by
  simp only [allowed, Bool.and_eq_true, Option.all_eq_true, Option.isNone_iff_eq_none] at hall
  have hfree := Option.ne_none_iff_isSome.mpr hall.2
  obtain ⟨g', hc', -⟩ := hc.prepare hall.1 hfree h
  obtain ⟨hr, -⟩ | ⟨x, loc, s2, hx, -, -, ⟨-, hr, -⟩ | ⟨-, -, -, hs'⟩⟩ := asPrepareLoad_cases h
  · cases hr
  · cases hr
  have hl := (hc.phase a).loading_of_npages hx (hall.1 x hx)
  obtain ⟨hr, -⟩ | ⟨-, g1, hp⟩ := asPrepareLoad_apart hc.inv hl hfree h
  · exact absurd rfl hr
  obtain ⟨y, n, i, hy, hyn, hypt, htakes⟩ := hp.block
  have htab : tableOf s' a = some (some (P.addr i), some n) := by
    rw [tableOf, hy, Option.map_some, hypt, hyn]
  have hblock : ∀ k, k ∈ tableFrames s' a ↔ i ≤ k ∧ k < i + max 1 (ptFrames n) :=
    fun k => hc'.mem_tableFrames htab
  have hnone : ∀ (k : Nat) e, c.sys.coremap[k]? = some e → e.as ≠ some a := by
    intro k e he ha
    have hown := Sys.frameOwner_eq_some.mpr ⟨k, e, he, ha, rfl⟩
    exact Option.some_ne_none _ ((if_pos hown).symm.trans (hl.val (.frame _)))
  have hslots : ∀ k, k ∉ slotsOf s' a := by
    intro k hk
    have hx' : s'.as a = some (x.prepared loc) := by
      rw [hs']
      exact Function.update_self ..
    obtain ⟨e, he, hin, -⟩ := (mem_slotsOf hx').mp hk
    rw [(mem_freshPt he).2.1] at hin
    cases hin
  have hmap : s'.swapMap = c.sys.swapMap := by
    have hledger := asPrepareLoad_ledger h
    simp only [ledger, Prod.mk.injEq] at hledger
    exact hledger.2.1
  refine ⟨⟨g', hc'⟩, hasTable_iff.mpr ⟨y, n, hy, hyn⟩, Set.ext fun k => ?_, Set.ext fun k => ?_⟩
  · by_cases hk : i ≤ k ∧ k < i + max 1 (ptFrames n)
    · obtain ⟨e, he, hf⟩ := freeAt_eq_true.mp (htakes.free k hk.1 hk.2)
      exact iff_of_true (.inr (.inl ((hblock k).mpr hk))) ⟨e, he, hf⟩
    · have hrest := htakes.rest k hk
      constructor
      · rintro (⟨e, he, hf⟩ | htf | ⟨e, he, ha⟩)
        · exact ⟨e, hrest.symm.trans he, hf⟩
        · exact absurd ((hblock k).mp htf) hk
        · exact absurd ha (hnone k e (hrest.symm.trans he))
      · rintro ⟨e, he, hf⟩
        exact .inl ⟨e, hrest.trans he, hf⟩
  · simp only [markedSlots, hmap]
    exact and_iff_left (hslots k)

/-- An entry of the coremap was there before, or was taken from the free ones. -/
theorem Grows.was_free {e : CEntry} (h : Grows a s s') (he : s'.coremap[i]? = some e) :
    s.coremap[i]? = some e ∨ i ∈ freeFrames s := by
  have hlt : i < s.coremapSize := h.size ▸ (List.getElem?_eq_some_iff.mp he).1
  obtain ⟨e0, he0⟩ : ∃ e0, s.coremap[i]? = some e0 := ⟨_, List.getElem?_eq_getElem hlt⟩
  rcases h.entry i e0 he0 with he1 | ⟨hfree, -⟩
  · obtain rfl := Option.some.inj (he1.symm.trans he)
    exact .inl he0
  · exact .inr ⟨e0, he0, hfree⟩

theorem Grows.frames (h : Grows a s s') :
    freeFrames s' ∪ framesOf s' a = freeFrames s ∪ framesOf s a := by
  have htab : tableFrames s' a = tableFrames s a := by
    simp only [tableFrames, h.tables, h.firstpaddr]
  ext i
  constructor
  · rintro (⟨e, he, hf⟩ | hi | ⟨e, he, ha⟩)
    · rcases h.was_free he with he' | hfree
      · exact .inl ⟨e, he', hf⟩
      · exact .inl hfree
    · exact .inr (.inl (htab ▸ hi))
    · rcases h.was_free he with he' | hfree
      · exact .inr (.inr ⟨e, he', ha⟩)
      · exact .inl hfree
  · rintro (⟨e, he, hf⟩ | hi | ⟨e, he, ha⟩)
    · rcases h.entry i e he with he' | ⟨-, e', he', ha', -⟩
      · exact .inl ⟨e, he', hf⟩
      · exact .inr (.inr ⟨e', he', ha'⟩)
    · exact .inr (.inl (htab ▸ hi))
    · rcases h.entry i e he with he' | ⟨-, e', he', ha', -⟩
      · exact .inr (.inr ⟨e, he', ha⟩)
      · exact .inr (.inr ⟨e', he', ha'⟩)

/-- A fault of `a` takes what is free. -/
theorem Held.fault {ty : FaultType} {fa : Nat} (hc : Ok P g c) (hu : Unambiguous c.sys)
    (hcur : c.sys.cur = some a) (hcall : perform t c (.fault ty fa) = some c')
    (h : Held a s0 c.sys) : Held a s0 c'.sys := by
  obtain ⟨g', hc', hothers⟩ := hc.leads hu hcall
  have hgrow : fixtures c'.sys = fixtures c.sys ∨ ∃ a', c.sys.cur = some a' ∧ Grows a' c.sys c'.sys := by
    cases performed hcall with
    | fault _ _ h1 => exact vmFault_grows h1
  constructor
  · refine Eq.trans ?_ h.frames
    obtain hfix | ⟨a', ha', hgrows⟩ := hgrow
    · exact (Grows.of_fixtures _ _ hfix).frames
    · obtain rfl := Option.some.inj (hcur.symm.trans ha')
      exact hgrows.frames
  · refine Eq.trans ?_ h.slots
    have has : ∀ b, b ≠ a → c'.sys.as b = c.sys.as b := fun b hb =>
      congrArg Own.as (hothers b fun hb' => hb (Option.some.inj (hb'.symm.trans hcur)))
    rw [hc.marked_diff, hc'.marked_diff]
    ext k
    refine exists_congr fun b => and_congr_right fun hb => ?_
    simp only [slotsOf, Sys.pte, has b hb]

/-- The step is a fault of `a`, or nothing is taken or given back in it. -/
def Undisturbed (a : AsId) (c c' : Config) : Prop :=
  (∃ t ty fa, c.sys.cur = some a ∧ perform t c (.fault ty fa) = some c') ∨
    c'.sys.coremap = c.sys.coremap ∧ c'.sys.swapMap = c.sys.swapMap

/-- While nothing is taken or given back, only its own faults change the page table of
an address space. -/
theorem Ok.as_of_step (hc : Ok P g c) (hu : Unambiguous c.sys) (htab : hasTable c.sys a = true)
    (hs : system.step c c') (hcm : c'.sys.coremap = c.sys.coremap) :
    c'.sys.as a = c.sys.as a ∨
      ∃ t ty fa, c.sys.cur = some a ∧ perform t c (.fault ty fa) = some c' := by
  obtain ⟨x, n, hx, hn⟩ := hasTable_iff.mp htab
  rcases hs with ⟨t, call, hcall⟩ | ⟨_, _, rfl⟩
  · by_cases hsub : subject c call = some a
    · cases performed hcall with
      | switch _ => cases hsub
      | create h =>
          obtain ⟨-, -, n, rfl⟩ | ⟨a', v, hp, -, -, -, hnone, -⟩ := asCreate_cases h
          · exact .inl rfl
          · obtain rfl : a' = a := Option.some.inj (hp.symm.trans hsub)
            rw [hnone] at hx
            cases hx
      | @define a' _ _ _ _ _ _ _ _ _ hnone _ _ =>
          obtain rfl : a' = a := Option.some.inj hsub
          exact absurd (hnone x hx) (by simp [hn])
      | @prepare a' _ _ hnone _ _ =>
          obtain rfl : a' = a := Option.some.inj hsub
          exact absurd (hnone x hx) (by simp [hn])
      | @fault ty fa _ _ _ _ _ => exact .inr ⟨t, ty, fa, hsub, hcall⟩
      | @destroy a' _ _ _ h1 =>
          -- the frames of the page table would have become free
          obtain rfl : a' = a := Option.some.inj hsub
          obtain ⟨x, h, e, -, ht, -⟩ := hc.destroy_eq h1
          have hmem := (hc.mem_tableFrames ht).mpr ⟨Nat.le_refl h, by omega⟩
          obtain ⟨e1, he1, hfree⟩ := (hc.released h1).freed (.inl hmem)
          obtain ⟨e2, he2, -, hused⟩ := hc.inv.kernel h h _ (hc.home ht)
          rw [hcm] at he1
          obtain rfl := Option.some.inj (he1.symm.trans he2)
          rw [hfree] at hused
          cases hused
      | alloc _ _ => cases hsub
      | free _ _ => cases hsub
    · obtain ⟨g', -, hothers⟩ := hc.leads hu hcall
      exact .inl (congrArg Own.as (hothers a hsub))
  · exact .inl rfl

theorem Held.step (hc : Ok P g c) (hu : Unambiguous c.sys) (htab : hasTable c.sys a = true)
    (hs : system.step c c') (hund : Undisturbed a c c') (h : Held a s0 c.sys) :
    hasTable c'.sys a = true ∧ Held a s0 c'.sys := by
  have hfault : (∃ t ty fa, c.sys.cur = some a ∧ perform t c (.fault ty fa) = some c') →
      hasTable c'.sys a = true ∧ Held a s0 c'.sys := by
    rintro ⟨t, ty, fa, hcur, hcall⟩
    refine ⟨?_, h.fault hc hu hcur hcall⟩
    cases performed hcall with
    | fault _ _ h1 => rwa [hasTable, vmFault_tableOf h1]
  rcases hund with hown | ⟨hcm, hmap⟩
  · exact hfault hown
  · obtain has | hown := hc.as_of_step hu htab hs hcm
    · obtain ⟨g', hc'⟩ := hc.step hu hs
      have hfirst : c'.sys.firstpaddr = c.sys.firstpaddr :=
        hc'.inv.firstpaddr.trans hc.inv.firstpaddr.symm
      refine ⟨by rwa [hasTable, tableOf, has], Eq.trans ?_ h.frames, Eq.trans ?_ h.slots⟩
      · simp only [freeFrames, framesOf, tableFrames, tableOf, hcm, has, hfirst]
      · simp only [markedSlots, slotsOf, Sys.pte, hmap, has]
    · exact hfault hown

theorem Ok.run (hc : Ok P g c) (hrun : Relation.ReflTransGen unaliased.step c c') :
    ∃ g', Ok P g' c' := by
  induction hrun with
  | refl => exact ⟨g, hc⟩
  | tail _ hs ih =>
      obtain ⟨g1, hc1⟩ := ih
      exact hc1.step hs.2 hs.1

theorem Held.run (hc : Ok P g c) (htab : hasTable c.sys a = true) (h : Held a s0 c.sys)
    (hrun : Relation.ReflTransGen (fun c c' => unaliased.step c c' ∧ Undisturbed a c c') c c') :
    Held a s0 c'.sys := by
  suffices hall : (∃ g', Ok P g' c') ∧ hasTable c'.sys a = true ∧ Held a s0 c'.sys from hall.2.2
  induction hrun with
  | refl => exact ⟨⟨g, hc⟩, htab, h⟩
  | tail _ hs ih =>
      obtain ⟨⟨g1, hc1⟩, htab1, h1⟩ := ih
      obtain ⟨⟨hs, hu⟩, hund⟩ := hs
      exact ⟨hc1.step hu hs, h1.step hc1 hu htab1 hs hund⟩

/-! ## The whole life -/

/-- What the address space had is free again. -/
theorem Released.balance (h : Released a s s') (hheld : Held a s0 s) :
    freeFrames s' = freeFrames s0 ∧ markedSlots s' = markedSlots s0 := by
  constructor
  · rw [← hheld.frames]
    ext i
    by_cases hi : i ∈ framesOf s a
    · exact iff_of_true (h.freed hi) (.inr hi)
    · have hsame : i ∈ freeFrames s' ↔ i ∈ freeFrames s := by
        rw [freeFrames, Set.mem_ofPred_eq, h.frames i hi]
        rfl
      exact hsame.trans (or_iff_left hi).symm
  · rw [← hheld.slots]
    ext k
    by_cases hk : k ∈ slotsOf s a
    · refine iff_of_false (fun hm => ?_) fun hm => hm.2 hk
      rw [markedSlots, Set.mem_ofPred_eq, h.unmarked k hk] at hm
      cases hm
    · have hsame : k ∈ markedSlots s' ↔ k ∈ markedSlots s := by
        rw [markedSlots, Set.mem_ofPred_eq, h.slots k hk]
        rfl
      exact hsame.trans (and_iff_left hk).symm

/-- **A program leaks nothing.** `as_destroy` gives back the frames and the slots of
the address space and leaves everything else as it is; if since `as_prepare_load`
nothing else was taken or given back, what is free then is what was free before. -/
theorem life_leaks_nothing {c0 : Config} {s1 : Sys} {t0 : Tid} (h0 : unaliased.Reachable c0)
    (hall : allowed c0 (.prepare a) = true)
    (hload : (asPrepareLoad a).run t0 c0.sys = .ok (none, s1))
    (hrun : Relation.ReflTransGen unaliased.step { c0 with sys := s1 } c)
    (hend : perform t c (.destroy a) = some c') :
    Released a c.sys c'.sys ∧
      (Relation.ReflTransGen (fun c c' => unaliased.step c c' ∧ Undisturbed a c c')
          { c0 with sys := s1 } c →
        freeFrames c'.sys = freeFrames c0.sys ∧ markedSlots c'.sys = markedSlots c0.sys) := by
  obtain ⟨P, g0, hc0⟩ := ok_of_reachable h0
  obtain ⟨⟨g1, hc1⟩, htab, hheld⟩ := hc0.held_of_prepare hall hload
  obtain ⟨g, hc⟩ := hc1.run hrun
  have hrel : Released a c.sys c'.sys := by
    cases performed hend with
    | destroy _ h2 => exact hc.released h2
  exact ⟨hrel, fun hlife => hrel.balance (hheld.run hc1 htab hlife)⟩

/-! ## On the machine with three frames -/

def performFor (a : AsId) (c : Config) : Call → Option Config
  | .fault ty fa => if c.sys.cur = some a then perform (.proc 0) c (.fault ty fa) else none
  | .switch x => perform (.proc 0) c (.switch x)
  | _ => none

theorem undisturbed_of_performFor {call : Call} (h : performFor a c call = some c') :
    system.step c c' ∧ Undisturbed a c c' := by
  cases call with
  | fault ty fa =>
      rw [performFor] at h
      split at h
      · next hcur => exact ⟨.inl ⟨_, _, h⟩, .inl ⟨_, ty, fa, hcur, h⟩⟩
      · cases h
  | switch x =>
      refine ⟨.inl ⟨_, _, h⟩, .inr ?_⟩
      cases performed h with
      | switch _ =>
          cases x with
          | none => exact ⟨rfl, rfl⟩
          | some a' => exact ⟨rfl, rfl⟩
  | _ => cases h

def writeFive : List Call := .switch (some 0) :: touchFive ++ [.switch none]

/-- The program is loaded, runs and is destroyed: the states after each of these. -/
def lifeOf (c0 : Config) : Option (Config × Config × Config) :=
  match (asPrepareLoad 0).run (.proc 0) c0.sys with
  | .ok (none, s1) => do
      let c ← writeFive.foldlM (performFor 0) { c0 with sys := s1 }
      let c' ← perform (.proc 0) c (.destroy 0)
      return ({ c0 with sys := s1 }, c, c')
  | _ => none

theorem lifeOf_eq_some {c0 c1 : Config} (h : lifeOf c0 = some (c1, c, c')) :
    ∃ s1, c1 = { c0 with sys := s1 } ∧ (asPrepareLoad 0).run (.proc 0) c0.sys = .ok (none, s1) ∧
      writeFive.foldlM (performFor 0) c1 = some c ∧ perform (.proc 0) c (.destroy 0) = some c' := by
  rw [lifeOf] at h
  split at h
  · next s1 hload =>
      obtain ⟨c2, hc, h⟩ := Option.bind_eq_some_iff.mp h
      obtain ⟨c3, hc', h⟩ := Option.bind_eq_some_iff.mp h
      obtain ⟨rfl, rfl, rfl⟩ : { c0 with sys := s1 } = c1 ∧ c2 = c ∧ c3 = c' := by
        simpa using h
      exact ⟨s1, rfl, hload, hc, hc'⟩
  · cases h

def oneProgram (w : World) (slots : Nat) : Option Config :=
  perform (.proc 0) (threeFrames w slots) (.create (some 0) (some ⟨0, fun _ => 0⟩))

theorem roomy_oneProgram {c0 : Config} (h : oneProgram .calm 4 = some c0) : roomy.Reachable c0 := by
  refine roomy_threeFrames [.create (some 0) (some ⟨0, fun _ => 0⟩)] ?_
  rw [performAll, List.foldlM_cons, ← oneProgram, h]
  rfl

theorem perform_prepare {r : Option Errno} (hall : allowed c (.prepare a) = true)
    (h : (asPrepareLoad a).run t c.sys = .ok (r, s')) :
    perform t c (.prepare a) = some { c with sys := s' } :=
  perform_eq_some.mpr ⟨hall, run_bind_eq_ok.mpr ⟨r, s', h, rfl⟩⟩

/-- A program that runs alone on a machine whose slots are below its frames. -/
theorem undisturbed_roomy {calls : List Call} (h : roomy.Reachable c)
    (hfold : calls.foldlM (performFor a) c = some c') :
    Relation.ReflTransGen (fun c c' => unaliased.step c c' ∧ Undisturbed a c c') c c' := by
  refine (Transitions.foldlM_invariant (I := fun c2 => roomy.Reachable c2 ∧
    Relation.ReflTransGen (fun c c' => unaliased.step c c' ∧ Undisturbed a c c') c c2) calls
    ?_ ⟨h, .refl⟩ hfold).2
  rintro call - c1 c2 ⟨hr, hrun⟩ hcall
  obtain ⟨hs, hund⟩ := undisturbed_of_performFor hcall
  exact ⟨hr.next hs, hrun.tail ⟨⟨hs, unambiguous_of_roomy hr⟩, hund⟩⟩

/-- Three slots are in use when the program exits, and none afterwards. -/
theorem life_leaks_nothing_threeFrames :
    ∃ c0 c1 c c', oneProgram .calm 4 = some c0 ∧ lifeOf c0 = some (c1, c, c') ∧
      c.sys.marked = 3 ∧ freeFrames c'.sys = freeFrames c0.sys ∧
      markedSlots c'.sys = markedSlots c0.sys := by
  have hrun : ((oneProgram .calm 4).bind fun c0 => (lifeOf c0).map fun r => (c0, r)).any
      (fun r => allowed r.1 (.prepare 0) && r.2.2.1.sys.marked == 3) = true := by
    decide +kernel
  obtain ⟨⟨c0, c1, c, c'⟩, hc, hcheck⟩ := (Option.any_eq_true _ _).mp hrun
  obtain ⟨hall, hthree⟩ := Bool.and_eq_true_iff.mp hcheck
  obtain ⟨c2, h0, hc⟩ := Option.bind_eq_some_iff.mp hc
  obtain ⟨r, hlife, hr⟩ := Option.map_eq_some_iff.mp hc
  obtain ⟨rfl, rfl⟩ := Prod.mk.inj hr
  obtain ⟨s1, rfl, hload, hfold, hend⟩ := lifeOf_eq_some hlife
  have hroomy := roomy_oneProgram h0
  have hlived := undisturbed_roomy (hroomy.next (.inl ⟨_, _, perform_prepare hall hload⟩)) hfold
  have h := life_leaks_nothing (ok_of_roomy hroomy).1 hall hload
    (Relation.ReflTransGen.mono (fun _ _ hs => hs.1) _ _ hlived) hend
  exact ⟨c2, _, c, c', h0, hlife, beq_iff_eq.mp hthree, h.2 hlived⟩

set_option maxRecDepth 100000 in
/-- **A leaked slot**: where the slot of its first page is taken for the frame of its
third one, the program is gone and the slot is still in use. -/
theorem life_leaks_slot :
    ∃ c0 s1 c c', system.Reachable c0 ∧ allowed c0 (.prepare 0) = true ∧
      (asPrepareLoad 0).run (.proc 0) c0.sys = .ok (none, s1) ∧
      Relation.ReflTransGen (fun c c' => system.step c c' ∧ Undisturbed 0 c c')
        { c0 with sys := s1 } c ∧
      perform (.proc 0) c (.destroy 0) = some c' ∧ markedSlots c'.sys ≠ markedSlots c0.sys := by
  have hrun : ((oneProgram (World.preferring aliased) (aliased + 1)).bind fun c0 =>
      (lifeOf c0).map fun r => (c0, r)).any (fun r => allowed r.1 (.prepare 0) &&
        (r.1.sys.swapMap[aliased]? == some false && r.2.2.2.sys.swapMap[aliased]? == some true)) =
          true := by
    decide +kernel
  obtain ⟨⟨c0, c1, c, c'⟩, hc, hcheck⟩ := (Option.any_eq_true _ _).mp hrun
  obtain ⟨hall, hmarks⟩ := Bool.and_eq_true_iff.mp hcheck
  obtain ⟨hbefore, hafter⟩ := Bool.and_eq_true_iff.mp hmarks
  obtain ⟨c2, h0, hc⟩ := Option.bind_eq_some_iff.mp hc
  obtain ⟨r, hlife, hr⟩ := Option.map_eq_some_iff.mp hc
  obtain ⟨rfl, rfl⟩ := Prod.mk.inj hr
  obtain ⟨s1, rfl, hload, hfold, hend⟩ := lifeOf_eq_some hlife
  have hstart := threeFrames_start (World.preferring aliased) (aliased + 1) fun _ => rfl
  have hlived := Transitions.foldlM_invariant (I := Relation.ReflTransGen (fun c c' =>
    system.step c c' ∧ Undisturbed 0 c c') _) _
    (fun call _ c c' hr hcall => hr.tail (undisturbed_of_performFor hcall)) .refl hfold
  refine ⟨c2, s1, c, c', (Transitions.Reachable.init hstart).next (.inl ⟨_, _, h0⟩), hall, hload,
    hlived, hend, fun heq => ?_⟩
  have hmem : aliased ∈ markedSlots c'.sys := beq_iff_eq.mp hafter
  rw [heq] at hmem
  exact nomatch (beq_iff_eq.mp hbefore).symm.trans hmem

end Calls

end Os161Paging
