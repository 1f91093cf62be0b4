import Os161Paging.Ownership

/-!
# What one action does to the shares

One lemma per kind of update the kernel makes: what becomes of the share of
the address space it is made for, that every other share stays as it is,
and that the invariant is kept. `Move` collects the last two.
-/

namespace Os161Paging

namespace Own

def set (o : Own) (x : Place) (c : Option Page) : Own :=
  { o with val := Function.update o.val x c }

def modPte (o : Own) (j : Nat) (f : PtEntry → PtEntry) : Own :=
  { o with as := o.as.map (·.modifyPte j f) }

def pte (o : Own) (j : Nat) : Option PtEntry := o.as.bind (·.pt[j]?)

end Own

namespace Sys

/-- The state without what no share and no part of the invariant depends on. -/
def core (s : Sys) : Sys :=
  { s with
    nextSvic := 0, ramUsed := 0, used := 0, swapFileSize := 0, tlbFull := false, nextVictim := 0,
    counters := fun _ => 0, owner := fun _ => none, swapReads := 0, swapWrites := 0, elfReads := 0,
    kmallocs := 0 }

theorem core_decUsed (s : Sys) : s.decUsed.core = s.core := by
  simp only [core, decUsed]

theorem core_incUsed (s : Sys) : s.incUsed.core = s.core := by
  simp only [core, incUsed]

end Sys

/-- A step on behalf of `a` that keeps the invariant, every other share and the
blocks of the kernel, and leaves the TLB alone. -/
structure Move (P : Layout) (a : AsId) (g : Ghost) (s : Sys) (g' : Ghost) (s' : Sys) : Prop where
  inv : Inv P g' s'
  law : g'.mem = s'.observe g.mem
  others : ∀ b, b ≠ a → own b g' s' = own b g s
  cur : s'.cur = s.cur
  tlb : s'.tlb = s.tlb
  keeps : g.Keeps g'

variable {P : Layout} {a b : AsId} {g g' : Ghost} {s s' s1 : Sys}

theorem own_core_congr (h : s'.core = s.core) : own a g s' = own a g s := by
  change own a g s'.core = own a g s.core
  rw [h]

theorem Inv.core_congr (hi : Inv P g s) (h : s'.core = s.core) : Inv P g s' := by
  have hc : Inv P g s.core := ⟨hi.geometry.congr rfl rfl rfl, hi.firstpaddr, hi.frames, hi.slots,
    hi.marked, hi.owned, hi.block, hi.kernel, hi.tlb, hi.observed, hi.reads⟩
  rw [← h] at hc
  exact ⟨hc.geometry.congr rfl rfl rfl, hc.firstpaddr, hc.frames, hc.slots, hc.marked, hc.owned,
    hc.block, hc.kernel, hc.tlb, hc.observed, hc.reads⟩

/-- A move ends as well in any state with the same core. -/
theorem Move.core_congr (h : Move P a g s g' s1) (hc : s'.core = s1.core) :
    Move P a g s g' s' where
  inv := h.inv.core_congr hc
  law := by
    change g'.mem = s'.core.observe g.mem
    rw [hc]
    exact h.law
  others b hb := (own_core_congr hc).trans (h.others b hb)
  cur := by
    change s'.core.cur = s.cur
    rw [hc]
    exact h.cur
  tlb := by
    change s'.core.tlb = s.tlb
    rw [hc]
    exact h.tlb
  keeps := h.keeps

theorem Move.refl (hi : Inv P g s) : Move P a g s g s where
  inv := hi
  law := hi.observed.symm
  others _ _ := rfl
  cur := rfl
  tlb := rfl
  keeps _ _ h := h

/-! ## Memory -/

theorem Mem.page_congr {m m' : Mem} {p : Nat} (h : ∀ x, p ≤ x → x < p + pageSize → m' x = m x) :
    m'.page p = m.page p := by
  funext o
  exact h _ (Nat.le_add_right ..) (Nat.add_lt_add_left o.isLt p)

theorem Mem.page_store {m : Mem} {p : Nat} {o : Fin pageSize} {x : Byte} :
    (m.store (p + o) x).page p = Function.update (m.page p) o x := by
  funext o'
  by_cases h : o' = o
  · simp [Mem.page, Mem.store, h]
  · rw [Function.update_of_ne h]
    exact if_neg fun he => h (Fin.ext (by omega))

/-- Two frames that share a byte are the same. -/
theorem Layout.IsFrame.eq_of_overlap {p q x : Nat} (hp : P.IsFrame p) (hq : P.IsFrame q)
    (hpx : p ≤ x) (hxp : x < p + pageSize) (hqx : q ≤ x) (hxq : x < q + pageSize) : p = q := by
  obtain ⟨i, -, rfl⟩ := hp
  obtain ⟨j, -, rfl⟩ := hq
  simp only [Layout.addr, pageSize_eq] at *
  omega

theorem Inv.frameAddr_eq (hi : Inv P g s) {i : Nat} (h : i < P.frames) :
    s.frameAddr i = P.addr i := by
  rw [hi.geometry.frameAddr_eq (hi.frames.symm ▸ h.le), hi.firstpaddr, Layout.addr]

theorem Inv.isFrame (hi : Inv P g s) {p : Nat} (h : s.frameOwner p = some a) : P.IsFrame p := by
  obtain ⟨i, e, he, -, rfl⟩ := Sys.frameOwner_eq_some.mp h
  refine ⟨i, ?_, by rw [hi.firstpaddr, Layout.addr]⟩
  rw [← hi.frames]
  exact (List.getElem?_eq_some_iff.mp he).1

/-! ## Comparing places -/

theorem placeVal_frame_congr (g g' : Ghost) {p : Nat}
    (ho : s'.frameOwner p = some a ↔ s.frameOwner p = some a)
    (hr : s.frameOwner p = some a → s'.ram.page p = s.ram.page p) :
    placeVal a g' s' (.frame p) = placeVal a g s (.frame p) := by
  by_cases h : s.frameOwner p = some a
  · simp only [placeVal, if_pos h, if_pos (ho.mpr h), hr h]
  · simp only [placeVal, if_neg h, if_neg fun h' => h (ho.mp h')]

theorem placeVal_slot_congr (s s' : Sys) {k : Nat}
    (ho : g'.slotOwner k = some a ↔ g.slotOwner k = some a)
    (hd : g.slotOwner k = some a → s'.slotPage k = s.slotPage k) :
    placeVal a g' s' (.slot k) = placeVal a g s (.slot k) := by
  by_cases h : g.slotOwner k = some a
  · simp only [placeVal, if_pos h, if_pos (ho.mpr h), hd h]
  · simp only [placeVal, if_neg h, if_neg fun h' => h (ho.mp h')]

theorem own_eq_set {x : Place} {c : Option Page} (has : s'.as a = s.as a)
    (htable : ∀ h, g'.home h = some (h, some a) ↔ g.home h = some (h, some a))
    (hmem : g'.mem a = g.mem a) (hx : placeVal a g' s' x = c)
    (hne : ∀ y, y ≠ x → placeVal a g' s' y = placeVal a g s y) :
    own a g' s' = (own a g s).set x c :=
  Own.ext has (Function.eq_update_iff.mpr ⟨hx, hne⟩) (Set.ext htable) hmem

/-! ## Frames -/

theorem Inv.setRam (hi : Inv P g s) {p : Nat} {m : Mem} (hp : s.frameOwner p = some a)
    (hm : ∀ x, (x < p ∨ p + pageSize ≤ x) → m x = s.ram x) :
    Move P a g s g { s with ram := m } ∧
      own a g { s with ram := m } = (own a g s).set (.frame p) (some (m.page p)) := by
  have hpage : ∀ b q, q ≠ p → s.frameOwner q = some b → m.page q = s.ram.page q := by
    intro b q hne hq
    refine Mem.page_congr fun x hx hxq => hm x ?_
    by_contra hin
    exact hne ((hi.isFrame hq).eq_of_overlap (hi.isFrame hp) hx hxq (by omega) (by omega))
  have hobs : ({ s with ram := m } : Sys).observe g.mem = g.mem :=
    Sys.observe_of_as_eq hi.observed rfl
  refine ⟨⟨?_, hobs.symm, fun b hb => ?_, rfl, rfl, fun _ _ h => h⟩, ?_⟩
  · exact { hi with geometry := hi.geometry.congr rfl rfl rfl, observed := hobs }
  · refine Own.ext rfl (funext fun x => ?_) rfl rfl
    cases x with
    | slot k => rfl
    | frame q =>
        refine placeVal_frame_congr g g Iff.rfl fun hq => hpage b q ?_ hq
        rintro rfl
        exact hb (Option.some.inj (hq.symm.trans hp))
  · refine own_eq_set rfl (fun _ => Iff.rfl) rfl (if_pos hp) fun y hy => ?_
    cases y with
    | slot k => rfl
    | frame q => exact placeVal_frame_congr g g Iff.rfl (hpage a q fun h => hy (by rw [h]))

/-! ## The coremap -/

def ownerIx (cm : List CEntry) (i : Nat) : Option AsId := cm[i]?.bind (·.as)

theorem ownerIx_eq_some {cm : List CEntry} {i : Nat} :
    ownerIx cm i = some a ↔ ∃ e, cm[i]? = some e ∧ e.as = some a := Option.bind_eq_some_iff

theorem frameOwner_setCoremap {cm : List CEntry} {Q : Option AsId → Option AsId → Prop}
    (hnone : Q none none) (h : ∀ i, Q (ownerIx cm i) (ownerIx s.coremap i)) (p : Nat) :
    Q (Sys.frameOwner { s with coremap := cm } p) (s.frameOwner p) := by
  simp only [Sys.frameOwner]
  split
  · exact h _
  · exact hnone

theorem frameOwner_setCoremap_of_ne {cm : List CEntry} {i p : Nat}
    (h : ∀ k, k ≠ i → ownerIx cm k = ownerIx s.coremap k) (hp : p ≠ s.firstpaddr + i * pageSize) :
    Sys.frameOwner { s with coremap := cm } p = s.frameOwner p := by
  simp only [Sys.frameOwner]
  by_cases hq : s.firstpaddr ≤ p ∧ (p - s.firstpaddr) % pageSize = 0
  · rw [if_pos hq, if_pos hq]
    refine h _ ?_
    rintro rfl
    rw [pageSize_eq] at hp hq
    omega
  · rw [if_neg hq, if_neg hq]

theorem Inv.frameOwner_frameAddr (hi : Inv P g s) {i : Nat} (h : i < s.coremapSize) :
    s.frameOwner (s.frameAddr i) = ownerIx s.coremap i := by
  rw [hi.geometry.frameAddr_eq h.le, Sys.frameOwner, if_pos (by rw [pageSize_eq]; omega),
    Nat.add_sub_cancel_left, Nat.mul_div_cancel _ (by decide), ownerIx]

theorem Inv.ownerIx_free (hi : Inv P g s) {i : Nat} (h : freeAt s.coremap i = true) :
    ownerIx s.coremap i = none := by
  obtain ⟨e, he, hef⟩ := freeAt_eq_true.mp h
  rw [ownerIx, he, Option.bind_some]
  cases hea : e.as with
  | none => rfl
  | some b =>
      rw [CEntry.not_isFree (hi.owned i e b he hea).1] at hef
      cases hef

theorem Inv.home_free (hi : Inv P g s) {i : Nat} (h : freeAt s.coremap i = true) :
    g.home i = none := by
  obtain ⟨e, he, hef⟩ := freeAt_eq_true.mp h
  cases hh : g.home i with
  | none => rfl
  | some hx =>
      obtain ⟨e', he', -, hne⟩ := hi.kernel i hx.1 hx.2 hh
      rw [he] at he'
      cases he'
      rw [hne] at hef
      cases hef

theorem Inv.home_head (hi : Inv P g s) {i h : Nat} {x : Option AsId}
    (hh : g.home i = some (h, x)) : g.home h = some (h, x) := by
  obtain ⟨e, -, -, hblk⟩ := hi.block i h x hh
  have := (hblk i).mp hh
  exact (hblk h).mpr (by omega)

/-- The coremap changes outside of the blocks of kernel memory. -/
theorem Inv.setCoremap (hi : Inv P g s) {cm : List CEntry} (hlen : cm.length = s.coremapSize)
    (howned : ∀ (i : Nat) (e : CEntry) b, cm[i]? = some e → e.as = some b →
      e.cused = true ∧ e.reserved = false)
    (hblock : ∀ k : Nat, g.home k ≠ none → cm[k]? = s.coremap[k]?) :
    Inv P g { s with coremap := cm } where
  __ := hi
  geometry := hi.geometry.congr rfl rfl hlen
  frames := hlen.trans hi.frames
  owned := howned
  block i h x hh := by
    obtain ⟨e, he, hrest⟩ := hi.block i h x hh
    exact ⟨e, (hblock h (by simp [hi.home_head hh])).trans he, hrest⟩
  kernel i h x hh := by
    obtain ⟨e, he, hrest⟩ := hi.kernel i h x hh
    exact ⟨e, (hblock i (by simp [hh])).trans he, hrest⟩
  observed := Sys.observe_of_as_eq hi.observed rfl

/-- A change of the coremap, seen from an address space whose entries it keeps. -/
theorem own_setCoremap {cm : List CEntry}
    (h : ∀ i, ownerIx cm i = some b ↔ ownerIx s.coremap i = some b)
    (htable : ∀ h, g'.home h = some (h, some b) ↔ g.home h = some (h, some b))
    (hslot : g'.slotOwner = g.slotOwner) (hmem : g'.mem = g.mem) :
    own b g' { s with coremap := cm } = own b g s := by
  refine Own.ext rfl (funext fun x => ?_) (Set.ext htable) (by rw [own, hmem, own])
  cases x with
  | slot k => exact placeVal_slot_congr s _ (by rw [hslot]) fun _ => rfl
  | frame q =>
      exact placeVal_frame_congr g g'
        (frameOwner_setCoremap (Q := fun x y => x = some b ↔ y = some b) Iff.rfl h q) fun _ => rfl

theorem Inv.claim (hi : Inv P g s) {i v : Nat} (hfree : freeAt s.coremap i = true)
    (hv : v.testBit 0 = false) :
    (own a g s).val (.frame (s.frameAddr i)) = none ∧
      Move P a g s g (s.claim i false v (some a)) ∧
      own a g (s.claim i false v (some a)) =
        (own a g s).set (.frame (s.frameAddr i)) (some (s.ram.page (s.frameAddr i))) := by
  obtain ⟨e, he, -⟩ := freeAt_eq_true.mp hfree
  have hlt : i < s.coremapSize := freeAt_lt hfree
  have hcm : ∀ k, (s.coremap.modify i (·.setOne v false (some a)))[k]? =
      if k = i then some (e.setOne v false (some a)) else s.coremap[k]? := by
    intro k
    by_cases hk : k = i
    · simp [hk, he]
    · simp [hk, Ne.symm hk]
  have hix : ∀ k, ownerIx (s.coremap.modify i (·.setOne v false (some a))) k =
      if k = i then some a else ownerIx s.coremap k := by
    intro k
    rw [ownerIx, hcm]
    by_cases hk : k = i
    · rw [if_pos hk, if_pos hk]
      rfl
    · rw [if_neg hk, if_neg hk, ownerIx]
  have hnone := hi.ownerIx_free hfree
  have hinv : Inv P g (s.claim i false v (some a)) := by
    refine hi.setCoremap (List.length_modify ..) (fun k e' b hk hb => ?_) fun k hk => ?_
    · rw [hcm] at hk
      by_cases hki : k = i
      · rw [if_pos hki] at hk
        cases hk
        exact ⟨CEntry.setOne_cused .., by simp [hv]⟩
      · rw [if_neg hki] at hk
        exact hi.owned k e' b hk hb
    · rw [hcm, if_neg]
      rintro rfl
      exact hk (hi.home_free hfree)
  refine ⟨?_, ⟨hinv, hinv.observed.symm, fun b hb => ?_, rfl, rfl, fun _ _ h => h⟩, ?_⟩
  · change (if s.frameOwner (s.frameAddr i) = some a then _ else none) = none
    rw [hi.frameOwner_frameAddr hlt, hnone, if_neg (by simp)]
  · refine own_setCoremap (fun k => ?_) (fun _ => Iff.rfl) rfl rfl
    rw [hix]
    by_cases hk : k = i
    · simp [hk, hnone, Ne.symm hb]
    · rw [if_neg hk]
  · have hlt' : i < (s.claim i false v (some a)).coremapSize := by
      rw [hinv.frames, ← hi.frames]
      exact hlt
    have hown : (s.claim i false v (some a)).frameOwner (s.frameAddr i) = some a :=
      (hinv.frameOwner_frameAddr hlt').trans ((hix i).trans (if_pos rfl))
    refine own_eq_set rfl (fun _ => Iff.rfl) rfl (if_pos hown) fun y hy => ?_
    · cases y with
      | slot k => rfl
      | frame q =>
          have hne : q ≠ s.firstpaddr + i * pageSize := by
            rintro rfl
            exact hy (by rw [hi.geometry.frameAddr_eq hlt.le])
          have hq := frameOwner_setCoremap_of_ne (fun k hk => (hix k).trans (if_neg hk)) hne
          exact placeVal_frame_congr g g (iff_of_eq (congrArg (· = some a) hq)) fun _ => rfl

def Own.dropFrames (o : Own) : Own :=
  { o with
    val := fun x =>
      match x with
      | .frame _ => none
      | .slot k => o.val (.slot k) }

theorem Inv.freeAs (hi : Inv P g s) {cm : List CEntry}
    (hcm : cm = s.coremap.map fun e => if e.as = some a then e.setEmpty else e) :
    Move P a g s g { s with coremap := cm } ∧
      own a g { s with coremap := cm } = (own a g s).dropFrames := by
  have hget : ∀ k : Nat, cm[k]? =
      s.coremap[k]?.map fun e => if e.as = some a then e.setEmpty else e := by
    intro k
    rw [hcm, List.getElem?_map]
  have hix : ∀ k b, ownerIx cm k = some b ↔ b ≠ a ∧ ownerIx s.coremap k = some b := by
    intro k b
    rw [ownerIx, hget, ownerIx]
    cases s.coremap[k]? with
    | none => simp
    | some e => by_cases he : e.as = some a <;> simp [he] <;> grind
  have hinv : Inv P g { s with coremap := cm } := by
    refine hi.setCoremap (by rw [hcm, List.length_map]; rfl) (fun k e' b hk hb => ?_) fun k hk => ?_
    · rw [hget] at hk
      obtain ⟨e, he, hee⟩ := Option.map_eq_some_iff.mp hk
      by_cases hea : e.as = some a
      · rw [if_pos hea] at hee
        subst hee
        cases hb
      · rw [if_neg hea] at hee
        subst hee
        exact hi.owned k e b he hb
    · obtain ⟨hx, hhome⟩ := Option.ne_none_iff_exists'.mp hk
      obtain ⟨e, he, hnone, -⟩ := hi.kernel k hx.1 hx.2 hhome
      rw [hget, he, Option.map_some, if_neg (by simp [hnone])]
  refine ⟨⟨hinv, hinv.observed.symm, fun b hb => ?_, rfl, rfl, fun _ _ h => h⟩, ?_⟩
  · exact own_setCoremap (fun k => by simp [hix, hb]) (fun _ => Iff.rfl) rfl rfl
  · refine Own.ext rfl (funext fun x => ?_) rfl rfl
    cases x with
    | slot k => rfl
    | frame q =>
        have hq := frameOwner_setCoremap (s := s) (Q := fun x _ => x ≠ some a) (by simp)
          (fun k h => ((hix k a).mp h).1 rfl) q
        exact if_neg hq

/-! ## Blocks of kernel memory -/

/-- The ghost state after the block of `n` frames at `h` has been taken, for the
page table of `x` if that is an address space. -/
def Ghost.takeBlock (g : Ghost) (h n : Nat) (x : Option AsId) : Ghost :=
  { g with home := fun k => if h ≤ k ∧ k < h + n then some (h, x) else g.home k }

theorem Inv.takeBlock (hi : Inv P g s) {cm : List CEntry} {h n : Nat} {x : Option AsId}
    (hn : 0 < n) (hlen : cm.length = s.coremapSize)
    (hfree : ∀ k, h ≤ k → k < h + n → freeAt s.coremap k = true)
    (hin : ∀ k : Nat, h ≤ k → k < h + n → ∃ e, cm[k]? = some e ∧ e.as = none ∧ e.isFree = false)
    (hhead : ∃ e, cm[h]? = some e ∧ e.allocpages = n)
    (hout : ∀ k : Nat, ¬ (h ≤ k ∧ k < h + n) → cm[k]? = s.coremap[k]?) :
    Inv P (g.takeBlock h n x) { s with coremap := cm } ∧
      ∀ b, own b (g.takeBlock h n x) { s with coremap := cm } =
        { own b g s with
          table := if x = some b then insert h (own b g s).table else (own b g s).table } := by
  have hix : ∀ k, ownerIx cm k = ownerIx s.coremap k := by
    intro k
    by_cases hk : h ≤ k ∧ k < h + n
    · obtain ⟨e, he, hnone, -⟩ := hin k hk.1 hk.2
      rw [hi.ownerIx_free (hfree k hk.1 hk.2), ownerIx, he, Option.bind_some, hnone]
    · rw [ownerIx, hout k hk, ownerIx]
  have hkeep : ∀ k y, (g.takeBlock h n x).home k = some y →
      (h ≤ k ∧ k < h + n) ∧ y = (h, x) ∨ ¬ (h ≤ k ∧ k < h + n) ∧ g.home k = some y := by
    intro k y hy
    by_cases hk : h ≤ k ∧ k < h + n
    · exact .inl ⟨hk, by simpa [Ghost.takeBlock, hk] using hy.symm⟩
    · exact .inr ⟨hk, by simpa [Ghost.takeBlock, hk] using hy⟩
  -- no block taken before reaches into the new one
  have hfresh : ∀ k y, g.home k = some y → ¬ (h ≤ k ∧ k < h + n) := by
    intro k y hy hk
    rw [hi.home_free (hfree k hk.1 hk.2)] at hy
    cases hy
  have hend : h + n ≤ P.frames := by
    have := freeAt_lt (hfree (h + n - 1) (by omega) (by omega))
    rw [← hi.frames]
    change _ < s.coremapSize at this
    omega
  refine ⟨{ hi with
    geometry := hi.geometry.congr rfl rfl hlen
    frames := hlen.trans hi.frames
    owned := fun k e b hk hb => ?_
    block := fun i h' y hy => ?_
    kernel := fun i h' y hy => ?_
    observed := Sys.observe_of_as_eq hi.observed rfl }, fun b => ?_⟩
  · have hb' : ownerIx s.coremap k = some b := by
      rw [← hix, ownerIx_eq_some]
      exact ⟨e, hk, hb⟩
    obtain ⟨e', he', heb⟩ := ownerIx_eq_some.mp hb'
    have hnk : ¬ (h ≤ k ∧ k < h + n) := by
      intro hk'
      rw [hi.ownerIx_free (hfree k hk'.1 hk'.2)] at hb'
      cases hb'
    exact hi.owned k e b ((hout k hnk).symm.trans hk) hb
  · rcases hkeep i _ hy with ⟨-, hxy⟩ | ⟨hni, hy⟩
    · obtain ⟨rfl, rfl⟩ := Prod.mk.inj hxy
      obtain ⟨e, he, rfl⟩ := hhead
      refine ⟨e, he, hend, fun k => ⟨fun hk => ?_, fun hk => by simp [Ghost.takeBlock, hk]⟩⟩
      rcases hkeep k _ hk with ⟨hk, -⟩ | ⟨-, hk⟩
      · exact hk
      · exact absurd ⟨Nat.le_refl _, by omega⟩ (hfresh _ _ (hi.home_head hk))
    · have hh := hi.home_head hy
      obtain ⟨e, he, hle, hblk⟩ := hi.block i h' y hy
      refine ⟨e, (hout h' (hfresh h' _ hh)).trans he, hle, fun k => ?_⟩
      rw [← hblk k]
      constructor
      · intro hk
        rcases hkeep k _ hk with ⟨-, hxy⟩ | ⟨-, hk⟩
        · obtain ⟨rfl, rfl⟩ := Prod.mk.inj hxy
          exact absurd ⟨Nat.le_refl _, by omega⟩ (hfresh _ _ hh)
        · exact hk
      · intro hk
        simpa [Ghost.takeBlock, hfresh k _ hk] using hk
  · rcases hkeep i _ hy with ⟨hi', -⟩ | ⟨hni, hy⟩
    · exact hin i hi'.1 hi'.2
    · obtain ⟨e, he, hrest⟩ := hi.kernel i h' y hy
      exact ⟨e, (hout i hni).trans he, hrest⟩
  · refine Own.ext rfl (funext fun z => ?_) (Set.ext fun k => ?_) rfl
    · cases z with
      | slot k => rfl
      | frame q =>
          exact placeVal_frame_congr g g (frameOwner_setCoremap
            (Q := fun x y => x = some b ↔ y = some b) Iff.rfl (fun k => by rw [hix]) q) fun _ => rfl
    · change (g.takeBlock h n x).home k = some (k, some b) ↔ _
      constructor
      · intro hk
        rcases hkeep k _ hk with ⟨-, hxy⟩ | ⟨-, hk⟩
        · obtain ⟨rfl, rfl⟩ := Prod.mk.inj hxy
          rw [if_pos rfl]
          exact .inl rfl
        · split
          · exact .inr hk
          · exact hk
      · have hold : g.home k = some (k, some b) →
            (g.takeBlock h n x).home k = some (k, some b) :=
          fun hk => (if_neg (hfresh k _ hk)).trans hk
        intro hk
        split at hk
        · rename_i hxb
          rcases hk with rfl | hk
          · simp [Ghost.takeBlock, hxb, hn]
          · exact hold hk
        · exact hold hk

def Ghost.dropBlock (g : Ghost) (h : Nat) (x : Option AsId) : Ghost :=
  { g with home := fun k => if g.home k = some (h, x) then none else g.home k }

theorem Inv.emptyRun (hi : Inv P g s) {h : Nat} {x : Option AsId} {e : CEntry}
    (hh : g.home h = some (h, x)) (he : s.coremap[h]? = some e) :
    h + e.allocpages ≤ s.coremapSize ∧ Inv P (g.dropBlock h x) (s.emptyRun h e.allocpages) ∧
      ∀ b, own b (g.dropBlock h x) (s.emptyRun h e.allocpages) =
        { own b g s with
          table := if x = some b then (own b g s).table \ {h} else (own b g s).table } := by
  obtain ⟨e', he', hle, hblk⟩ := hi.block h h x hh
  obtain rfl : e = e' := Option.some.inj (he.symm.trans he')
  have hn : 0 < e.allocpages := by
    have := (hblk h).mp hh
    omega
  have hout : ∀ k, g.home k ≠ some (h, x) →
      (s.emptyRun h e.allocpages).coremap[k]? = s.coremap[k]? :=
    fun k hk => emptyRun_getElem (fun hr => hk ((hblk k).mpr hr)) hn
  have hix : ∀ k, ownerIx (s.emptyRun h e.allocpages).coremap k = ownerIx s.coremap k := by
    intro k
    by_cases hk : g.home k = some (h, x)
    · obtain ⟨e1, he1, hnone, -⟩ := hi.kernel k h x hk
      have hr := (hblk k).mp hk
      obtain ⟨e2, he2, -, hnone2⟩ := emptyRun_isFree hr he1
      rw [ownerIx, ownerIx, he1, he2, Option.bind_some, Option.bind_some, hnone, hnone2]
    · rw [ownerIx, hout k hk, ownerIx]
  have hkeep : ∀ k y, (g.dropBlock h x).home k = some y ↔ g.home k = some y ∧ y ≠ (h, x) := by
    intro k y
    by_cases hk : g.home k = some (h, x)
    · simp [Ghost.dropBlock, hk, eq_comm]
    · simp only [Ghost.dropBlock, if_neg hk]
      exact ⟨fun hy => ⟨hy, fun hyx => hk (hyx ▸ hy)⟩, And.left⟩
  refine ⟨hi.frames ▸ hle, { hi with
    geometry := hi.geometry.congr rfl rfl emptyRun_size
    frames := emptyRun_size.trans hi.frames
    owned := fun k e1 b hk hb => ?_
    block := fun i h' y hy => ?_
    kernel := fun i h' y hy => ?_
    observed := Sys.observe_of_as_eq hi.observed rfl }, fun b => ?_⟩
  · have hb' : ownerIx s.coremap k = some b := by
      rw [← hix, ownerIx_eq_some]
      exact ⟨e1, hk, hb⟩
    have hnk : g.home k ≠ some (h, x) := by
      intro hk'
      obtain ⟨e2, he2, hnone, -⟩ := hi.kernel k h x hk'
      rw [ownerIx, he2, Option.bind_some, hnone] at hb'
      cases hb'
    exact hi.owned k e1 b ((hout k hnk).symm.trans hk) hb
  · obtain ⟨hy, hne⟩ := (hkeep i _).mp hy
    obtain ⟨e1, he1, hle1, hblk1⟩ := hi.block i h' y hy
    refine ⟨e1, (hout h' ?_).trans he1, hle1, fun k => ?_⟩
    · rw [hi.home_head hy]
      exact fun hc => hne (Option.some.inj hc)
    · rw [hkeep, ← hblk1 k]
      exact and_iff_left hne
  · obtain ⟨hy, hne⟩ := (hkeep i _).mp hy
    obtain ⟨e1, he1, hrest⟩ := hi.kernel i h' y hy
    exact ⟨e1, (hout i (by rw [hy]; exact fun hc => hne (Option.some.inj hc))).trans he1, hrest⟩
  · refine Own.ext rfl (funext fun z => ?_) (Set.ext fun k => ?_) rfl
    · cases z with
      | slot k => rfl
      | frame q =>
          exact placeVal_frame_congr g g (frameOwner_setCoremap
            (Q := fun x y => x = some b ↔ y = some b) Iff.rfl
            (fun k => iff_of_eq (congrArg (· = some b) (hix k))) q) fun _ => rfl
    · change (g.dropBlock h x).home k = some (k, some b) ↔ _
      rw [hkeep]
      by_cases hxb : x = some b
      · simp only [ne_eq, Prod.mk.injEq, hxb, and_true]
        rfl
      · simp only [if_neg hxb, ne_eq, Prod.mk.injEq, Ne.symm hxb, and_false, not_false_eq_true,
          and_true]
        rfl

/-! ## Slots of the swap file -/

theorem Inv.slot_lt (hi : Inv P g s) {k : Nat} (h : g.slotOwner k = some a) : k < P.slots := by
  have := (hi.marked k).mpr (by simp [h])
  rw [← hi.slots]
  exact (List.getElem?_eq_some_iff.mp this).1

def Ghost.setSlot (g : Ghost) (k : Nat) (o : Option AsId) : Ghost :=
  { g with slotOwner := Function.update g.slotOwner k o }

/-- A slot that belongs to `a` or to nobody changes hands between the two. -/
theorem Inv.setSlot (hi : Inv P g s) {k : Nat} {o : Option AsId} (hlt : k < P.slots)
    (hk : ∀ b, g.slotOwner k = some b → b = a) (ho : ∀ b, o = some b → b = a) :
    Move P a g s (g.setSlot k o) (s.setSlot k o.isSome) ∧
      own a (g.setSlot k o) (s.setSlot k o.isSome) =
        (own a g s).set (.slot k) (o.map fun _ => s.slotPage k) := by
  have hlen : (s.setSlot k o.isSome).nslots = s.nslots := List.length_set ..
  have hlt' : k < s.nslots := hi.slots.symm ▸ hlt
  rw [Sys.nslots] at hlt'
  have hpage : ∀ k', (s.setSlot k o.isSome).slotPage k' = s.slotPage k' := by
    intro k'
    rw [Sys.slotPage, hlen, Sys.slotPage]
    rfl
  have hobs : (s.setSlot k o.isSome).observe g.mem = g.mem :=
    Sys.observe_of_as_eq hi.observed rfl
  refine ⟨⟨{ hi with
      geometry := hi.geometry.congr rfl rfl rfl
      slots := hlen.trans hi.slots
      marked := fun k' => ?_
      observed := hobs }, hobs.symm, fun b hb => ?_, rfl, rfl, fun _ _ h => h⟩, ?_⟩
  · by_cases hkk : k' = k
    · cases o <;> simp [Sys.setSlot, Ghost.setSlot, hkk, hlt']
    · simpa [Sys.setSlot, Ghost.setSlot, hkk, Ne.symm hkk] using hi.marked k'
  · refine Own.ext rfl (funext fun z => ?_) rfl rfl
    cases z with
    | frame q => rfl
    | slot k' =>
        refine placeVal_slot_congr s _ ?_ fun _ => hpage k'
        by_cases hkk : k' = k
        · subst hkk
          simp only [Ghost.setSlot, Function.update_self]
          exact iff_of_false (fun h => hb (ho b h)) fun h => hb (hk b h)
        · simp [Ghost.setSlot, hkk]
  · refine own_eq_set rfl (fun _ => Iff.rfl) rfl ?_ fun z hz => ?_
    · simp only [placeVal, Ghost.setSlot, Function.update_self, hpage]
      cases o with
      | none => rfl
      | some b => rw [ho b rfl, if_pos rfl, Option.map_some]
    · cases z with
      | frame q => rfl
      | slot k' =>
          have hkk : k' ≠ k := fun h => hz (by rw [h])
          exact placeVal_slot_congr s _ (by simp [Ghost.setSlot, hkk]) fun _ => hpage k'

theorem Inv.writeSlot (hi : Inv P g s) {k p : Nat} (hk : g.slotOwner k = some a) :
    ∃ c, Move P a g s g (s.writeSwap p (wrap (k * pageSize))) ∧
      own a g (s.writeSwap p (wrap (k * pageSize))) = (own a g s).set (.slot k) (some c) ∧
      (P.slots ≤ 2 ^ 20 → c = s.ram.page p) := by
  have hlen : (s.writeSwap p (wrap (k * pageSize))).nslots = s.nslots := rfl
  have hoff : s.nslots ≤ 2 ^ 20 → wrap (k * pageSize) = k * pageSize := by
    intro hsmall
    have := hi.slot_lt hk
    rw [hi.slots] at hsmall
    rw [wrap, Nat.mod_eq_of_lt (by rw [pageSize_eq]; omega)]
  have hpage : ∀ k', k' ≠ k →
      (s.writeSwap p (wrap (k * pageSize))).slotPage k' = s.slotPage k' := by
    intro k' hne
    rw [Sys.slotPage, hlen, Sys.slotPage]
    split
    · rename_i hsmall
      refine Mem.page_congr fun x hx hxk => ?_
      rw [Sys.writeSwap, hoff hsmall]
      refine if_neg ?_
      rw [pageSize_eq] at *
      omega
    · rfl
  have hobs : (s.writeSwap p (wrap (k * pageSize))).observe g.mem = g.mem :=
    Sys.observe_of_as_eq hi.observed rfl
  refine ⟨(s.writeSwap p (wrap (k * pageSize))).slotPage k, ⟨{ hi with
      geometry := hi.geometry.congr rfl rfl rfl
      observed := hobs }, hobs.symm, fun b hb => ?_, rfl, rfl, fun _ _ h => h⟩, ?_, fun hsmall => ?_⟩
  · refine Own.ext rfl (funext fun z => ?_) rfl rfl
    cases z with
    | frame q => rfl
    | slot k' =>
        refine placeVal_slot_congr s _ Iff.rfl fun hk' => hpage k' ?_
        rintro rfl
        exact hb (Option.some.inj (hk'.symm.trans hk))
  · refine own_eq_set rfl (fun _ => Iff.rfl) rfl (if_pos hk) fun z hz => ?_
    cases z with
    | frame q => rfl
    | slot k' => exact placeVal_slot_congr s _ Iff.rfl fun _ => hpage k' fun h => hz (by rw [h])
  · rw [← hi.slots] at hsmall
    rw [Sys.slotPage, hlen, if_pos hsmall]
    funext o
    have ho := o.isLt
    simp only [Mem.page, Sys.writeSwap, Mem.copy, hoff hsmall]
    rw [if_pos (by omega)]
    congr 1
    omega

/-! ## Address spaces -/

/-- The structure of `a` is replaced by one in which no page is resident that was
never seen. -/
theorem Inv.setAs (hi : Inv P g s) {x : Addrspace}
    (hx : ∀ j e, x.pt[j]? = some e → e.inMem = true → g.mem a j ≠ none) :
    Move P a g s g (s.setAs a x) ∧ own a g (s.setAs a x) = { own a g s with as := some x } := by
  have hobs : (s.setAs a x).observe g.mem = g.mem := by
    obtain ⟨hnone, hin⟩ := Sys.observe_eq_self.mp hi.observed
    refine Sys.observe_eq_self.mpr ⟨fun b hb => ?_, fun b j e he => ?_⟩
    · by_cases hba : b = a
      · simp [Sys.setAs, hba] at hb
      · exact hnone b (by simpa [Sys.setAs, hba] using hb)
    · by_cases hba : b = a
      · subst hba
        exact hx j e (by simpa [Sys.setAs, Sys.pte] using he)
      · exact hin b j e (by simpa [Sys.setAs, Sys.pte, hba] using he)
  refine ⟨⟨{ hi with
      geometry := hi.geometry.congr rfl rfl rfl
      observed := hobs }, hobs.symm, fun b hb => ?_, rfl, rfl, fun _ _ h => h⟩, ?_⟩
  · exact Own.ext (Function.update_of_ne hb ..) rfl rfl rfl
  · exact Own.ext (Function.update_self ..) rfl rfl rfl

theorem Addrspace.modifyPte_getElem {x : Addrspace} {j k : Nat} {f : PtEntry → PtEntry} :
    (x.modifyPte j f).pt[k]? = if k = j then x.pt[k]?.map f else x.pt[k]? := by
  rw [Addrspace.modifyPte, List.getElem?_modify]
  by_cases hk : k = j
  · simp [hk]
  · simp [hk, Ne.symm hk]

theorem Sys.modPte_eq_setAs {x : Addrspace} {j : Nat} {f : PtEntry → PtEntry}
    (hx : s.as a = some x) : s.modPte a j f = s.setAs a (x.modifyPte j f) := by
  rw [Sys.modPte, hx, Sys.setAs, Option.map_some]

/-- An entry of the page table of `a` changes, without becoming resident. -/
theorem Inv.modPte (hi : Inv P g s) {j : Nat} {f : PtEntry → PtEntry}
    (hf : ∀ e, (f e).inMem = true → e.inMem = true) {x : Addrspace} (hx : s.as a = some x) :
    Move P a g s g (s.modPte a j f) ∧ own a g (s.modPte a j f) = (own a g s).modPte j f := by
  have hin := (Sys.observe_eq_self.mp hi.observed).2
  rw [Sys.modPte_eq_setAs hx]
  refine (hi.setAs (a := a) (x := x.modifyPte j f) fun k e hk => ?_).imp_right fun h => h.trans ?_
  · have hpte : s.pte a k = x.pt[k]? := by rw [Sys.pte, hx, Option.bind_some]
    rw [Addrspace.modifyPte_getElem, ← hpte] at hk
    split at hk
    · obtain ⟨e', he', rfl⟩ := Option.map_eq_some_iff.mp hk
      exact fun h => hin a k e' he' (hf e' h)
    · exact hin a k e hk
  · rw [Own.modPte, own, hx, Option.map_some]

/-- The record after page `j` of the share has been made resident. -/
def Own.see (o : Own) (j : Nat) (c : Page) : Own :=
  { o with mem := Function.update o.mem j (some ((o.mem j).getD c)) }

theorem Sys.observe_observe {m : AsId → Nat → Option Page} :
    s.observe (s.observe m) = s.observe m := by
  funext a j
  simp only [Sys.observe]
  cases s.as a with
  | none => rfl
  | some x =>
      simp only
      rw [Option.or_assoc, Option.or_self]

/-- A page of `a` becomes resident, and is entered in the record if it never was. -/
theorem Inv.makeResident (hi : Inv P g s) {j : Nat} {e : PtEntry} (he : s.pte a j = some e) :
    ∃ g', Move P a g s g' (s.modPte a j fun e => { e with inMem := true }) ∧
      own a g' (s.modPte a j fun e => { e with inMem := true }) =
        ((own a g s).modPte j fun e => { e with inMem := true }).see j (s.ram.page e.paddr) := by
  obtain ⟨x, hx, hj⟩ := Option.bind_eq_some_iff.mp he
  set s' := s.modPte a j fun e => { e with inMem := true } with hs'
  have hx' : s'.as a = some (x.modifyPte j fun e => { e with inMem := true }) := by
    rw [hs', Sys.modPte_eq_setAs hx]
    exact Function.update_self ..
  have hb' : ∀ b, b ≠ a → s'.as b = s.as b := fun b hb => Function.update_of_ne hb ..
  have hobs : ∀ b k, s'.observe g.mem b k =
      if b = a ∧ k = j then some ((g.mem a j).getD (s.ram.page e.paddr)) else g.mem b k := by
    intro b k
    have hold : s.observe g.mem b k = g.mem b k := by rw [hi.observed]
    by_cases hb : b = a
    · subst hb
      rw [Sys.observe, hx] at hold
      rw [Sys.observe, hx']
      simp only [Addrspace.modifyPte_getElem]
      by_cases hk : k = j
      · subst hk
        simp only [hj, and_self, if_true]
        cases g.mem b k <;> rfl
      · simp only [hk, and_false, if_false]
        exact hold
    · rw [if_neg (by simp [hb]), ← hold, Sys.observe, hb' b hb, Sys.observe]
      rfl
  refine ⟨{ g with mem := s'.observe g.mem }, ⟨{ hi with
      geometry := hi.geometry.congr rfl rfl rfl
      observed := Sys.observe_observe }, rfl, fun b hb => ?_, rfl, rfl, fun _ _ h => h⟩, ?_⟩
  · refine Own.ext (hb' b hb) rfl rfl (funext fun k => ?_)
    exact (hobs b k).trans (if_neg (by simp [hb]))
  · refine Own.ext ?_ rfl rfl (funext fun k => (hobs a k).trans ?_)
    · change s'.as a = (s.as a).map _
      rw [hx', hx, Option.map_some]
    · by_cases hk : k = j
      · subst hk
        simp [Own.see, Own.modPte, own]
      · simp [Own.see, Own.modPte, own, hk]

theorem Inv.removeAs (hi : Inv P g s) :
    ∃ g', Move P a g s g' { s with as := Function.update s.as a none } ∧
      own a g' { s with as := Function.update s.as a none } =
        { own a g s with as := none, mem := fun _ => none } := by
  set s' : Sys := { s with as := Function.update s.as a none } with hs'
  have hobs : s'.observe g.mem = Function.update g.mem a fun _ => none := by
    funext b k
    have hold : s.observe g.mem b k = g.mem b k := by rw [hi.observed]
    by_cases hb : b = a
    · subst hb
      simp [Sys.observe, hs']
    · rw [Function.update_of_ne hb, ← hold, Sys.observe, Sys.observe, hs']
      simp only [Function.update_of_ne hb]
  refine ⟨{ g with mem := Function.update g.mem a fun _ => none }, ⟨{ hi with
      geometry := hi.geometry.congr rfl rfl rfl
      observed := by rw [← hobs, Sys.observe_observe] }, hobs.symm, fun b hb => ?_, rfl, rfl, fun _ _ h => h⟩, ?_⟩
  · exact Own.ext (Function.update_of_ne hb ..) rfl rfl (Function.update_of_ne hb ..)
  · exact Own.ext (Function.update_self ..) rfl rfl (Function.update_self ..)

/-! ## The TLB -/

theorem TlbEntry.invalid_vpage (i : Nat) : kseg0 ≤ (TlbEntry.invalid i).vpage := by
  simp only [TlbEntry.vpage, TlbEntry.invalid, pageFrame, kseg0, pageSize_eq]
  omega

theorem TlbEntry.invalid_valid (i : Nat) : (TlbEntry.invalid i).valid = false :=
  Nat.zero_testBit 9

namespace TlbWf

variable {tlb : List TlbEntry} {i : Nat} {e e' : TlbEntry}

theorem set_invalid (h : TlbWf tlb) : TlbWf (tlb.set i (.invalid i)) where
  tags e he := by
    rcases List.mem_or_eq_of_mem_set he with he | rfl
    · exact h.tags e he
    · rw [TlbEntry.invalid_valid]
      exact iff_of_false nofun (Nat.not_lt.mpr (TlbEntry.invalid_vpage i))
  unique j k e e' he he' hv hlt := by
    have hne : ∀ (l : Nat) e, (tlb.set i (.invalid i))[l]? = some e → e.vpage < kseg0 →
        tlb[l]? = some e := by
      intro l e hl hlt
      rw [List.getElem?_set] at hl
      split at hl
      · split at hl
        · cases hl
          exact absurd hlt (Nat.not_lt.mpr (TlbEntry.invalid_vpage i))
        · cases hl
      · exact hl
    exact h.unique j k e e' (hne j e he hlt) (hne k e' he' (hv ▸ hlt)) hv hlt

theorem set_valid (h : TlbWf tlb) (he : e.valid = true) (hlt : e.vpage < kseg0)
    (hnew : ∀ e' ∈ tlb, e'.valid = true → e'.vpage ≠ e.vpage) : TlbWf (tlb.set i e) where
  tags e' he' := by
    rcases List.mem_or_eq_of_mem_set he' with he' | rfl
    · exact h.tags e' he'
    · exact iff_of_true he hlt
  unique j k e1 e2 h1 h2 hv hlt1 := by
    have hnew' : ∀ (l : Nat) e', tlb[l]? = some e' → e'.vpage ≠ e.vpage := by
      intro l e' hl hv
      have hm := List.mem_of_getElem? hl
      exact hnew e' hm ((h.tags e' hm).mpr (hv ▸ hlt)) hv
    rw [List.getElem?_set] at h1 h2
    by_cases hj : i = j <;> by_cases hk : i = k
    · rw [← hj, ← hk]
    · rw [if_pos hj] at h1
      rw [if_neg hk] at h2
      split at h1
      · cases h1
        exact absurd hv.symm (hnew' k e2 h2)
      · cases h1
    · rw [if_neg hj] at h1
      rw [if_pos hk] at h2
      split at h2
      · cases h2
        exact absurd hv (hnew' j e1 h1)
      · cases h2
    · rw [if_neg hj] at h1
      rw [if_neg hk] at h2
      exact h.unique j k e1 e2 h1 h2 hv hlt1

end TlbWf

/-- `tlb_invalidate_vaddr` removes the only entry for a page. -/
theorem TlbWf.tlbDrop {va : Nat} (h : TlbWf s.tlb) (hva : pageFrame va < kseg0) :
    TlbWf (s.tlbDrop va).tlb ∧ ∀ e ∈ (s.tlbDrop va).tlb, e.valid = true →
      e ∈ s.tlb ∧ e.vpage ≠ pageFrame va := by
  rw [Sys.tlbDrop]
  cases hp : tlbProbe s.tlb va with
  | none =>
      refine ⟨h, fun e he _ => ⟨he, fun hv => ?_⟩⟩
      have := List.findIdx?_eq_none_iff.mp hp e he
      simp [hv] at this
  | some i =>
      obtain ⟨hi, hmatch, -⟩ := List.findIdx?_eq_some_iff_getElem.mp hp
      rw [beq_iff_eq] at hmatch
      refine ⟨h.set_invalid, fun e he hval => ?_⟩
      obtain ⟨k, hk⟩ := List.mem_iff_getElem?.mp he
      simp only [Sys.tlbWrite, List.getElem?_set] at hk
      split at hk
      · obtain rfl := Option.some.inj hk
        rw [TlbEntry.invalid_valid] at hval
        cases hval
      · rename_i hki
        refine ⟨List.mem_of_getElem? hk, fun hv => hki ?_⟩
        exact h.unique i k _ e (List.getElem?_eq_getElem hi) hk (hmatch.trans hv.symm)
          (hmatch ▸ hva)

/-- `tlb_loadentry` adds one entry, in the place of another if need be. -/
theorem TlbWf.tlbLoad {e : TlbEntry} (h : TlbWf s.tlb) (he : e.valid = true) (hlt : e.vpage < kseg0)
    (hnew : ∀ e' ∈ s.tlb, e'.valid = true → e'.vpage ≠ e.vpage) :
    TlbWf (tlbLoad s e).2.tlb ∧ ∀ e' ∈ (tlbLoad s e).2.tlb, e' ∈ s.tlb ∨ e' = e := by
  rw [Os161Paging.tlbLoad]
  split
  · exact ⟨h.set_valid he hlt hnew, fun e' => List.mem_or_eq_of_mem_set⟩
  · exact ⟨h.set_valid he hlt hnew, fun e' => List.mem_or_eq_of_mem_set⟩

/-- The invariant does not depend on what is in the TLB beyond its shape. -/
theorem Inv.setTlb (hi : Inv P g s) {tlb : List TlbEntry} (h : TlbWf tlb) :
    Inv P g { s with tlb := tlb } :=
  { hi with
    geometry := hi.geometry.congr rfl rfl rfl
    tlb := h
    observed := Sys.observe_of_as_eq hi.observed rfl }

end Os161Paging
