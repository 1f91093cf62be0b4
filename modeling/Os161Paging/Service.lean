import Os161Paging.Pages

/-!
# What the kernel's calls do to a share

Triples for the functions of the paging code, from `swap_out` up to
`vm_fault` and `as_destroy`. Each starts from an address space at rest and
ends with one; in between a page is in none of the three shapes, and what
carries the proof over that stretch is that nobody else can see the share.
-/

namespace Os161Paging

open Prog
open Views.Triple (andThen knowing reading)

variable {P : Layout} {a : AsId} {t : Tid} {cur : Option AsId} {v : View} {j : Nat} {e : PtEntry} {d : Page}

namespace Does

/-! ## swap_out and the eviction of a page -/

/-- `swap_out`: if it returns 0, the page has been written to a slot of its own. -/
theorem swapOut (he : v.own.pte j = some e) (hd : v.own.val (.frame e.paddr) = some d) :
    Does P a t cur v (swapOut a j) fun r v' => r = none → ∃ k d', v.own.val (.slot k) = none ∧
      (P.slots ≤ 2 ^ 20 → d' = d) ∧
      v' = ⟨(v.own.set (.slot k) (some d')).modPte j fun e => { e with paddr := k }, v.tlb⟩ := by
  refine andThen lockAcquire fun _ => knowing (Q := fun _ => True)
    (gets fun _ _ _ _ _ => trivial) fun full _ => Views.Triple.ite (fun _ => ?_) fun _ => ?_
  · exact Views.Triple.pure fun h => nomatch h
  refine Views.Triple.bind bitmapAlloc ?_
  rintro r v1 (⟨rfl, rfl⟩ | ⟨k, d0, rfl, hk, -, rfl⟩)
  · exact andThen lockRelease fun _ => Views.Triple.pure fun h => nomatch h
  have hframe : (v.own.set (.slot k) (some d0)).val (.frame e.paddr) = some d :=
    (Own.val_set_of_ne (by simp)).trans hd
  have hslot : (v.own.set (.slot k) (some d0)).val (.slot k) = some d0 := Own.val_set_self
  refine reading (getPte he) ?_
  refine Views.Triple.bind (vopWrite hframe hslot) ?_
  rintro _ _ ⟨d1, rfl, hd1⟩
  rw [Own.set_set]
  refine Views.Triple.bind (updPte he fun _ => id) ?_
  rintro _ _ rfl
  refine andThen (modify_core Sys.core_incUsed) fun _ => andThen lockRelease fun _ =>
    Views.Triple.pure fun _ => ?_
  exact ⟨k, d1, hk, hd1, rfl⟩

def Evicted (P : Layout) (o : Own) (j : Nat) (e : PtEntry) (d : Page) (o' : Own) : Prop :=
  e.writable = true ∧ (∃ k d', o.val (.slot k) = none ∧ (P.slots ≤ 2 ^ 20 → d' = d) ∧
    o' = o.swapOut j k d') ∨ e.writable = false ∧ o' = o.discard j

theorem evict (he : v.own.pte j = some e) (hva : pageFrame e.vaddr < kseg0)
    (hd : v.own.val (.frame e.paddr) = some d) :
    Does P a t cur v (evict a j) fun _ v' => Evicted P v.own j e d v'.own ∧
      v'.tlb = { t ∈ v.tlb | t.vpage ≠ pageFrame e.vaddr } := by
  refine reading (getPte he) ?_
  refine Views.Triple.bind (Φ := fun _ v' => ∃ o', v' = ⟨o', v.tlb⟩ ∧
    (∃ e1, o'.pte j = some e1) ∧
    Evicted P v.own j e d (o'.modPte j fun e => { e with inMem := false })) ?_ ?_
  · refine Views.Triple.ite (fun hw => ?_) fun hw => ?_
    · refine Views.Triple.bind (swapOut he hd) fun r v1 hr => ?_
      cases r with
      | some err =>
          exact Views.Triple.bind (Φ := fun _ _ => False)
            (Views.Triple.fail fun _ => by simp [shares, Tolerated]) (by simp)
      | none =>
          obtain ⟨k, d', hk, hd', rfl⟩ := hr rfl
          refine Views.Triple.bind (Φ := fun _ v' => v' = _) (Views.Triple.pure rfl) ?_
          rintro _ _ rfl
          refine andThen vmStatsInc fun _ => ?_
          have he1 := Own.pte_modPte_self (o := v.own.set (.slot k) (some d'))
            (f := fun e => { e with paddr := k }) he
          refine Views.Triple.mono (updPte he1 fun _ => id) ?_
          rintro _ _ rfl
          refine ⟨_, rfl, ⟨_, Own.pte_modPte_self he1⟩, .inl ⟨hw, k, d', hk, hd', ?_⟩⟩
          rw [Own.modPte_modPte, Own.modPte_modPte]
          rfl
    · refine Views.Triple.mono (updPte he fun _ => id) ?_
      rintro _ _ rfl
      refine ⟨_, rfl, ⟨_, Own.pte_modPte_self he⟩, .inr ⟨by simpa using hw, ?_⟩⟩
      rw [Own.modPte_modPte]
      rfl
  · rintro _ _ ⟨o', rfl, ⟨e1, he1⟩, hev⟩
    refine Views.Triple.bind (updPte he1 (by simp)) ?_
    rintro _ _ rfl
    refine Views.Triple.mono (tlbInvalidateVaddr hva) ?_
    rintro _ _ rfl
    exact ⟨hev, rfl⟩

end Does

/-! ## A share at rest -/

/-- An address space between two faults, the places in `spare` apart. -/
structure Rest (P : Layout) (v : View) (spare : Set Place) : Prop where
  good : Good P v.own spare
  backed : Backed v.own v.tlb

/-- What every step of a fault keeps: the record stays true, the TLB only loses
entries, and pages that are not resident are left alone. -/
structure Follows (P : Layout) (v v' : View) : Prop where
  faithful : P.slots ≤ 2 ^ 20 → Faithful v.own → Faithful v'.own
  tlb : v'.tlb ⊆ v.tlb
  absent : ∀ i e, v.own.pte i = some e → e.inMem = false → v'.own.pte i = some e
  reach : ∀ i e, Good.Reachable v.own i e → Good.Reachable v'.own i e

theorem Good.Reachable.modPte {o : Own} {i : Nat} {f : PtEntry → PtEntry}
    (hf : ∀ e, (f e).vaddr = e.vaddr) (h : Good.Reachable o i e) :
    Good.Reachable (o.modPte j f) i e := by
  obtain ⟨hlt, x, hx, hl⟩ := h
  exact ⟨hlt, x.modifyPte j f, by rw [Own.modPte, hx, Option.map_some], by
    rw [Addrspace.lookup_modifyPte hf, hl]⟩

theorem Good.Reachable.aligned {o : Own} (h : Good.Reachable o j e)
    (hlaid : ∃ x, o.as = some x ∧ x.Laid) : pageFrame e.vaddr = e.vaddr := by
  obtain ⟨-, x, hx, hl⟩ := h
  obtain ⟨x', hx', hlaid⟩ := hlaid
  obtain rfl := Option.some.inj (hx.symm.trans hx')
  obtain ⟨⟨i, seg, last⟩, hlook, -⟩ := Option.map_eq_some_iff.mp hl
  rw [Addrspace.lookup] at hlook
  split at hlook
  · rename_i seg' np last' hw
    obtain ⟨i', hs, -⟩ := Option.map_eq_some_iff.mp hlook
    obtain ⟨hmem, -, k, -, hfa⟩ := hlaid.scan_page hw hs
    have hal := (hlaid.segs _ hmem).aligned
    rw [hfa]
    simp only [wrap, pageFrame, pageSize_eq] at *
    omega
  · cases hlook

namespace Rest

theorem claimed {q : Nat} (h : Rest P v ∅) (hq : v.own.val (.frame q) = none) :
    Rest P ⟨v.own.set (.frame q) (some d), v.tlb⟩ {.frame q} ∧
      Follows P v ⟨v.own.set (.frame q) (some d), v.tlb⟩ := by
  have hg := h.good
  refine ⟨⟨⟨hg.laid, hg.table, hg.shaped, ?_, hg.found⟩, h.backed⟩,
    fun _ hf i hi => ?_, subset_rfl, fun _ _ he _ => he, fun _ _ hr => hr⟩
  · have hten := hg.tenancy.acquire (c := d) hq
    rw [insert_empty_eq] at hten
    exact hten
  · change v.own.mem i = (v.own.placeOf i).bind _
    rw [hf i hi]
    cases hx : v.own.placeOf i with
    | none => rfl
    | some x =>
        have hne : x ≠ .frame q := by
          rintro rfl
          exact hg.tenancy.housed i _ hx hq
        exact (Own.val_set_of_ne hne).symm

/-- A page has been evicted; its frame is spare. -/
theorem evicted {v' : View} (h : Rest P v ∅) (he : v.own.pte j = some e) (hin : e.inMem = true)
    (hd : v.own.val (.frame e.paddr) = some d) (hev : Does.Evicted P v.own j e d v'.own)
    (htlb : v'.tlb = { t ∈ v.tlb | t.vpage ≠ pageFrame e.vaddr }) :
    Rest P v' {.frame e.paddr} ∧ Follows P v v' := by
  have hg := h.good
  have hr : Good.Reachable v.own j e := hg.found j e he (by simp [PtEntry.place_inMem hin])
  -- both ways of eviction are a change of the one entry
  obtain ⟨hgood, hfaith, val, f, hf, ho⟩ : Good P v'.own {.frame e.paddr} ∧
      (P.slots ≤ 2 ^ 20 → Faithful v.own → Faithful v'.own) ∧
      ∃ val f, (∀ e, (f e : PtEntry).vaddr = e.vaddr) ∧
        v'.own = { v.own.modPte j f with val := val } := by
    rcases hev with ⟨hw, k, d', hk, hd', ho⟩ | ⟨hw, ho⟩
    · rw [ho]
      refine ⟨hg.swapOut he hin hw hk, fun hsmall hf => ?_, _, _, ?_, rfl⟩
      · rw [hd' hsmall]
        exact hf.swapOut hg he hin hk hd
      · exact fun _ => rfl
    · rw [ho]
      refine ⟨hg.discard he hin, fun _ hf => hf.discard he hw, _, _, ?_, rfl⟩
      exact fun _ => rfl
  have hpte : ∀ i, i ≠ j → v'.own.pte i = v.own.pte i := by
    intro i hi
    rw [ho]
    exact (Own.pte_modPte (o := v.own)).trans (if_neg hi)
  refine ⟨⟨hgood, ?_⟩, hfaith, ?_, fun i e' hi hout => ?_, fun i e' hi => ?_⟩
  · rw [htlb, hr.aligned hg.laid]
    exact h.backed.forget he hpte
  · rw [htlb]
    exact fun _ ht => ht.1
  · refine (hpte i ?_).trans hi
    rintro rfl
    obtain rfl := Option.some.inj (he.symm.trans hi)
    rw [hin] at hout
    cases hout
  · rw [ho]
    exact hi.modPte hf

end Rest

/-! ## getPage -/

/-- The search of the page table for the frame at `q` finds the page `j`, which is
resident there. -/
def Finds (o : Own) (q j : Nat) (e : PtEntry) : Prop :=
  ∃ x n, o.as = some x ∧ x.npages = some n ∧
    (x.pt.take n).findIdx? (fun e => e.paddr == q) = some j ∧ o.pte j = some e ∧
    e.inMem = true ∧ e.paddr = q ∧ pageFrame e.vaddr < kseg0

/-- What a frame costs: it was free, or the page that was found in it has been evicted. -/
def Taken (P : Layout) (v : View) (q : Nat) (v' : View) : Prop :=
  (v.own.val (.frame q) = none ∧ ∃ d, v' = ⟨v.own.set (.frame q) (some d), v.tlb⟩) ∨
    ∃ j e d, Finds v.own q j e ∧ v.own.val (.frame q) = some d ∧
      Does.Evicted P v.own j e d v'.own ∧ v'.tlb = { t ∈ v.tlb | t.vpage ≠ pageFrame e.vaddr }

theorem Rest.taken {q : Nat} {v' : View} (h : Rest P v ∅) (ht : Taken P v q v') :
    Rest P v' {.frame q} ∧ Follows P v v' := by
  obtain ⟨hnone, d, rfl⟩ | ⟨j, e, d, ⟨x, n, -, -, -, he, hin, rfl, -⟩, hd, hev, htlb⟩ := ht
  · exact h.claimed hnone
  · exact h.evicted he hin hd hev htlb

theorem Good.finds {o : Own} {q : Nat} (hg : Good P o ∅) (hal : NoAlias o)
    (hq : o.val (.frame q) ≠ none) (hpos : q ≠ 0) : ∃ j e, Finds o q j e := by
  obtain ⟨x, hx, hlaid⟩ := hg.laid
  obtain ⟨j, e, hj, he, hin, hpa⟩ := hg.findIdx hx hal hq hpos
  have hr : Good.Reachable o j e := hg.found j e he (by simp [PtEntry.place_inMem hin])
  refine ⟨j, e, x, x.pt.length, hx, hlaid.npages, by rw [List.take_length, hj], he, hin, hpa, ?_⟩
  rw [hr.aligned hg.laid]
  exact hr.1

namespace Does

theorem placed {α : Type} {p : VM α} {Φ : α → View → Prop}
    (h : P.Wf → Placed P v.own → Does P a t cur v p Φ) : Does P a t cur v p Φ :=
  Views.Triple.assume (Q := P.Wf ∧ Placed P v.own)
    (fun _ _ hi hs => ⟨hi.layout_wf, hs.1 ▸ hi.placed⟩) fun hQ => h hQ.1 hQ.2

/-- The eviction from the victim frame `i` frees that frame. -/
theorem evictFrom {i : Nat} (hi : i < P.frames) (hq : v.own.val (.frame (P.addr i)) ≠ none)
    (hfind : ∃ j e, Finds v.own (P.addr i) j e) :
    Does P a t cur v (evictFrom a i) fun r v' => r = i ∧ Taken P v (P.addr i) v' := by
  obtain ⟨j, e, hfind⟩ := hfind
  obtain ⟨x, n, hx, hn, hj, he, hin, hpa, hva⟩ := id hfind
  obtain ⟨d, hd⟩ := Option.ne_none_iff_exists'.mp hq
  refine reading (frameAddr hi) (reading (findPaddr hx hn) ?_)
  rw [hj]
  refine Views.Triple.bind (evict he hva (hpa.symm ▸ hd)) ?_
  rintro _ v' ⟨hev, htlb⟩
  exact Views.Triple.pure ⟨rfl, .inr ⟨j, e, d, hfind, hd, hev, htlb⟩⟩

/-- **`getPage`**: a frame is added to the share, or taken from one of its pages. -/
theorem getPage_taken {fa : Nat}
    (hfind : ∀ q, v.own.val (.frame q) ≠ none → ∃ j e, Finds v.own q j e)
    (hfa : fa.testBit 0 = false) :
    Does P a t cur v (getPage false fa (some a)) fun q v' => Taken P v q v' := by
  refine andThen spinlockAcquire fun _ =>
    reading (x := true) (gets fun _ _ hi _ _ => hi.geometry.active) ?_
  refine Views.Triple.bind (claimFree hfa) ?_
  rintro r v1 (⟨rfl, rfl⟩ | ⟨i, d, rfl, hi, hnone, rfl⟩)
  · refine andThen getAvailableSwap fun avail => Views.Triple.ite (fun _ => ?_) fun _ => ?_
    · refine knowing findVictim ?_
      rintro i ⟨hi, hq⟩
      refine andThen spinlockRelease fun _ => andThen lockAcquire fun _ => ?_
      refine Views.Triple.bind (evictFrom hi hq (hfind _ hq)) ?_
      rintro r v' ⟨rfl, htaken⟩
      refine andThen lockRelease fun _ => Views.Triple.mono (frameAddr hi) ?_
      rintro _ _ ⟨rfl, rfl⟩
      exact htaken
    · exact Views.Triple.fail fun _ => by simp [shares, Tolerated]
  · refine andThen spinlockRelease fun _ => Views.Triple.mono (frameAddr hi) ?_
    rintro _ _ ⟨rfl, rfl⟩
    exact .inl ⟨hnone, d, rfl⟩

theorem getPage {fa : Nat} (hv : Rest P v ∅) (hal : NoAlias v.own) (hfa : fa.testBit 0 = false) :
    Does P a t cur v (getPage false fa (some a)) fun q v' =>
      Rest P v' {.frame q} ∧ Follows P v v' := by
  refine placed fun hP hpl => Views.Triple.mono (getPage_taken (fun q hq => ?_) hfa)
    fun q v' htaken => hv.taken htaken
  exact hv.good.finds hal hq ((hpl.frame _ hq).spec hP).1

/-! ## swap_in and the three ways to bring a page in -/

theorem swapIn {q : Nat} {d0 : Page} (he : v.own.pte j = some e)
    (hq : v.own.val (.frame q) = some d0) (hk : v.own.val (.slot e.paddr) = some d) :
    Does P a t cur v (swapIn a j q true) fun _ v' => ∃ d', (P.slots ≤ 2 ^ 20 → d' = d) ∧
      v' = ⟨((v.own.set (.frame q) (some d')).set (.slot e.paddr) none).modPte j
        fun e => { e with paddr := q }, v.tlb⟩ := by
  refine andThen lockAcquire fun _ => reading (getPte he) ?_
  refine Views.Triple.bind (loadSegment_swap hq hk) ?_
  rintro r _ ⟨d', rfl, rfl, hd'⟩
  have hk' : (v.own.set (.frame q) (some d')).val (.slot e.paddr) = some d := by
    rw [Own.val_set_of_ne (by simp), hk]
  refine Views.Triple.bind (leaveSlot hk') ?_
  rintro _ _ rfl
  refine Views.Triple.bind (updPte he fun _ => id) ?_
  rintro _ _ rfl
  exact andThen lockRelease fun _ => Views.Triple.pure ⟨d', hd', rfl⟩

/-- The outcome of bringing page `j` in: it is resident, and all else at rest. -/
def PagedIn (P : Layout) (v : View) (j : Nat) (e : PtEntry) (v' : View) : Prop :=
  Rest P v' ∅ ∧ (P.slots ≤ 2 ^ 20 → Faithful v.own → Faithful v'.own) ∧ v'.tlb ⊆ v.tlb ∧
    ∃ q, v'.own.pte j = some { e with paddr := q, inSwap := false, inMem := true }

/-- All that is missing for page `j` to be in is the flag. -/
def Fetched (P : Layout) (v : View) (j : Nat) (e : PtEntry) (v' : View) : Prop :=
  ∃ e' d, v'.own.pte j = some e' ∧ v'.own.val (.frame e'.paddr) = some d ∧
    PagedIn P v j e ⟨(v'.own.modPte j fun e => { e with inMem := true }).see j d, v'.tlb⟩

theorem testBit_of_aligned {fa : Nat} (h : pageFrame fa = fa) : fa.testBit 0 = false := by
  simp only [pageFrame, pageSize_eq] at h
  rw [Nat.testBit_zero]
  simp
  omega

theorem pageInSwap {fa : Nat} (hv : Rest P v ∅) (hal : NoAlias v.own)
    (hfa : pageFrame fa = fa) (he : v.own.pte j = some e) (hout : e.inMem = false)
    (hswap : e.inSwap = true) :
    Does P a t cur v (pageInSwap a j fa) fun _ v' => Fetched P v j e v' := by
  refine andThen lockRelease fun _ => ?_
  refine Views.Triple.bind (getPage hv hal (testBit_of_aligned hfa)) ?_
  rintro q v1 ⟨hrest, hfol⟩
  have hg := hrest.good
  have he1 := hfol.absent j e he hout
  have hpl := PtEntry.place_inSwap hout hswap
  obtain ⟨d0, hq⟩ := Option.ne_none_iff_exists'.mp (hg.tenancy.owned (.frame q) rfl)
  obtain ⟨d, hd⟩ := Option.ne_none_iff_exists'.mp
    (hg.tenancy.housed j (.slot e.paddr) (by rw [Own.placeOf_eq he1, hpl]))
  refine andThen lockAcquire fun _ => Views.Triple.bind (swapIn he1 hq hd) ?_
  rintro _ _ ⟨d', hd', rfl⟩
  have he2 : (((v1.own.set (.frame q) (some d')).set (.slot e.paddr) none).modPte j
      fun e => { e with paddr := q }).pte j = some { e with paddr := q } :=
    Own.pte_modPte_self he1
  refine Views.Triple.bind (updPte he2 fun _ => id) ?_
  rintro _ _ rfl
  refine andThen vmStatsInc fun _ => Views.Triple.mono vmStatsInc ?_
  rintro _ _ rfl
  refine ⟨_, d', Own.pte_modPte_self he2, by simp, ?_⟩
  -- the three writes to the entry and the flag are the one of `Own.swapIn`
  rw [Own.modPte_modPte, Own.modPte_modPte]
  change PagedIn P v j e ⟨v1.own.swapIn j q e.paddr d', v1.tlb⟩
  have hpte : ∀ i, (v1.own.swapIn j q e.paddr d').pte i =
      if i = j then (v1.own.pte i).map fun e => { e with paddr := q, inSwap := false, inMem := true }
      else v1.own.pte i := fun i => Own.pte_modPte (o := v1.own)
  refine ⟨⟨hg.swapIn he1 hout hswap, ?_⟩, fun hsmall hf => ?_, hfol.tlb, q, ?_⟩
  · exact hrest.backed.keep he1 hout fun i hi => (hpte i).trans (if_neg hi)
  · obtain rfl := hd' hsmall
    exact (hfol.faithful hsmall hf).swapIn hg he1 hout hswap hd
  · exact (hpte j).trans (by rw [if_pos rfl, he1, Option.map_some])

theorem pageInFresh {fa k : Nat} {seg : Segment} {last : Bool} (hv : Rest P v ∅)
    (hal : NoAlias v.own) (hfa : pageFrame fa = fa) (he : v.own.pte j = some e)
    (hout : e.inMem = false) (hswap : e.inSwap = false) (hr : Good.Reachable v.own j e)
    (hseg : seg.Wf) (hk : k < seg.npages) (hpage : fa = wrap (seg.start + k * pageSize)) :
    Does P a t cur v (pageInFresh a j seg last fa) fun _ v' => Fetched P v j e v' := by
  refine Views.Triple.bind (Φ := fun _ v' => ∃ v1 q, Rest P v1 {.frame q} ∧ Follows P v v1 ∧
    v' = ⟨v1.own.modPte j fun e => { e with paddr := q }, v1.tlb⟩) ?_ ?_
  · refine reading (getPte he) (Views.Triple.ite (fun _ => ?_) fun hne => ?_)
    · refine andThen lockRelease fun _ => ?_
      refine Views.Triple.bind (getPage hv hal (testBit_of_aligned hfa)) ?_
      rintro q v1 ⟨hrest, hfol⟩
      refine Views.Triple.bind (updPte (hfol.absent j e he hout) fun _ => id) ?_
      rintro _ _ rfl
      refine Views.Triple.mono lockAcquire ?_
      rintro _ _ rfl
      exact ⟨v1, q, hrest, hfol, rfl⟩
    · exact absurd ((hv.good.shaped j e he).2.2 hout hswap) hne
  rintro _ _ ⟨v1, q, hrest, hfol, rfl⟩
  have hg := hrest.good
  have he1 := hfol.absent j e he hout
  obtain ⟨d0, hq⟩ := Option.ne_none_iff_exists'.mp (hg.tenancy.owned (.frame q) rfl)
  have he2 : (v1.own.modPte j fun e => { e with paddr := q }).pte j = some { e with paddr := q } :=
    Own.pte_modPte_self he1
  -- whatever fills the frame, the page is then as `Own.fillIn` says
  have hdone : ∀ d, Fetched P v j e
      ⟨(v1.own.modPte j fun e => { e with paddr := q }).set (.frame q) (some d), v1.tlb⟩ := by
    intro d
    refine ⟨_, d, he2, by simp, ?_⟩
    rw [Own.set_modPte, Own.modPte_modPte]
    change PagedIn P v j e ⟨v1.own.fillIn j q d, v1.tlb⟩
    have hpte : ∀ i, (v1.own.fillIn j q d).pte i =
        if i = j then (v1.own.pte i).map fun e => { e with paddr := q, inMem := true }
        else v1.own.pte i := fun i => Own.pte_modPte (o := v1.own)
    refine ⟨⟨hg.fillIn he1 hout hswap (hfol.reach j e hr), ?_⟩, fun hsmall hf => ?_, hfol.tlb, q,
      ?_⟩
    · exact hrest.backed.keep he1 hout fun i hi => (hpte i).trans (if_neg hi)
    · exact (hfol.faithful hsmall hf).fillIn hg he1 hout hswap
    · refine (hpte j).trans ?_
      rw [if_pos rfl, he1, Option.map_some, ← hswap]
  refine reading (getPte he2) (Views.Triple.ite (fun _ => ?_) fun _ => ?_)
  · refine Views.Triple.bind (bzero hq) ?_
    rintro _ _ ⟨d, rfl, -⟩
    refine Views.Triple.mono vmStatsInc ?_
    rintro _ _ rfl
    exact hdone d
  · refine placed fun hP hpl => ?_
    have hframe : P.IsFrame q := hpl.frame q (by simp [hq])
    obtain ⟨hlo, hhi, -⟩ := ondemandArgs_within hseg hk hpage (hframe.spec hP).2.2
    obtain ⟨x, hx, -⟩ := hg.laid
    have hx' : (v1.own.modPte j fun e => { e with paddr := q }).as =
        some (x.modifyPte j fun e => { e with paddr := q }) := by
      rw [Own.modPte, hx, Option.map_some]
    refine Views.Triple.bind (loadElfOndemand hx' hq hlo
      (Nat.le_trans (Nat.add_le_add_left (Nat.min_le_right ..) _) hhi)) ?_
    rintro _ _ ⟨d, rfl, -⟩
    refine andThen vmStatsInc fun _ => Views.Triple.mono vmStatsInc ?_
    rintro _ _ rfl
    exact hdone d

/-! ## vm_fault -/

/-- The hypotheses on a fault at the page `j`: the entry that was looked up. -/
structure FaultOn (v : View) (fa j : Nat) (seg : Segment) (e : PtEntry) : Prop where
  pte : v.own.pte j = some e
  vaddr : e.vaddr = fa
  reach : Good.Reachable v.own j e
  wf : seg.Wf
  inSeg : ∃ k < seg.npages, fa = wrap (seg.start + k * pageSize)

variable {fa : Nat} {seg : Segment} {last : Bool}

theorem faultOn {x : Addrspace} {np i : Nat} (hx : v.own.as = some x) (hlaid : x.Laid)
    (hw : walkSegments fa x.asSegment 0 = some (seg, np, last))
    (hs : scanSlice x.pt fa np seg.npages = some i) (hfa : fa < kseg0) :
    ∃ e, FaultOn v fa i seg e := by
  obtain ⟨hmem, ⟨e, he, hva⟩, hin⟩ := hlaid.scan_page hw hs
  have hpte : v.own.pte i = some e := by rw [Own.pte, hx, Option.bind_some, he]
  have hlook : (x.lookup e.vaddr).map (·.1) = some i := by
    rw [hva, Addrspace.lookup, hw]
    simp [hs]
  exact ⟨e, hpte, hva, ⟨hva ▸ hfa, x, hx, hlook⟩, hlaid.segs seg hmem, hin⟩

theorem pageIn (hv : Rest P v ∅) (hal : NoAlias v.own) (hf : FaultOn v fa j seg e) :
    Does P a t cur v (pageIn a j seg last fa) fun _ v' => Rest P v' ∅ ∧
      (P.slots ≤ 2 ^ 20 → Faithful v.own → Faithful v'.own) ∧ v'.tlb ⊆ v.tlb ∧
      ∃ e', v'.own.pte j = some e' ∧ e'.inMem = true ∧ e'.vaddr = fa := by
  have hfa : pageFrame fa = fa := hf.vaddr ▸ hf.reach.aligned hv.good.laid
  obtain ⟨k, hk, hpage⟩ := hf.inSeg
  refine reading (getPte hf.pte) (Views.Triple.ite (fun hin => ?_) fun hout => ?_)
  · refine Views.Triple.mono vmStatsInc ?_
    rintro _ _ rfl
    exact ⟨hv, fun _ h => h, subset_rfl, e, hf.pte, hin, hf.vaddr⟩
  · rw [Bool.not_eq_true] at hout
    refine Views.Triple.bind (Φ := fun _ v' => Fetched P v j e v') ?_ ?_
    · refine Views.Triple.ite (fun hswap => ?_) fun hswap => ?_
      · exact pageInSwap hv hal hfa hf.pte hout hswap
      · exact pageInFresh hv hal hfa hf.pte hout (by simpa using hswap) hf.reach hf.wf hk hpage
    · rintro _ v' ⟨e', d, he', hd, hin⟩
      refine Views.Triple.mono (updPte_inMem he' hd) ?_
      rintro _ _ rfl
      obtain ⟨hrest, hfaith, htlb, q, hq⟩ := hin
      exact ⟨hrest, hfaith, htlb, _, hq, rfl, hf.vaddr⟩

def Misses (v : View) (fa : Nat) : Prop := ∀ e ∈ v.tlb, e.vpage ≠ fa

/-- The outcome of a fault: the share is at rest again. -/
def Served (P : Layout) (v v' : View) : Prop :=
  Rest P v' ∅ ∧ (P.slots ≤ 2 ^ 20 → Faithful v.own → Faithful v'.own)

theorem faultAt (hc : cur = some a) (hv : Rest P v ∅) (hal : NoAlias v.own) (hf : FaultOn v fa j seg e)
    (hmiss : Misses v fa) :
    Does P a t cur v (faultAt a j seg last fa) fun _ v' => Served P v v' := by
  refine Views.Triple.bind (pageIn hv hal hf) ?_
  rintro _ v1 ⟨hrest, hfaith, htlb, e', he', hin, hva⟩
  refine reading (getPte he') (placed fun hP hpl => ?_)
  have hreach := hrest.good.found j e' he' (by simp [PtEntry.place_inMem hin])
  have hal' : pageFrame e'.vaddr = e'.vaddr := Good.Reachable.aligned hreach hrest.good.laid
  have hown : v1.own.val (.frame e'.paddr) ≠ none :=
    hrest.good.tenancy.housed j _ (by rw [Own.placeOf_eq he', PtEntry.place_inMem hin])
  obtain ⟨-, hq, -⟩ := (hpl.frame _ hown).spec hP
  subst hva
  have hvp : (TlbEntry.mk e'.vaddr (tlbLo e'.paddr (!e'.writable))).vpage = e'.vaddr := hal'
  refine Views.Triple.bind (tlbLoadentry hc (tlbLo_spec _ _ hq).1 ?_ fun t ht => ?_) ?_
  · rw [hvp]
    exact hreach.1
  · rw [hvp]
    exact hmiss t (htlb ht)
  · rintro _ _ ⟨rfl, rfl⟩
    refine andThen lockRelease fun _ => Views.Triple.pure ⟨⟨hrest.good, ?_⟩, hfaith⟩
    exact hrest.backed.insert he' hin hq hal'

/-- **`vm_fault`** on a page the TLB does not have: whatever it returns, the
address space is at rest again and its writable pages contain what they should. -/
theorem vmFault {ty : FaultType} (hc : cur = some a) (hv : Rest P v ∅) (hal : NoAlias v.own)
    (hmiss : Misses v (pageFrame fa)) (hfa : pageFrame fa < kseg0) :
    Does P a t cur v (vmFault ty fa) fun _ v' => Served P v v' := by
  have hsame : Served P v v := ⟨hv, fun _ h => h⟩
  refine andThen vmStatsInc fun _ =>
    reading (x := some a) (gets fun _ _ _ _ hcur => hcur.trans hc) ?_
  obtain ⟨x, hx, hlaid⟩ := hv.good.laid
  obtain ⟨⟨seg, np, last⟩, hw⟩ := Option.ne_none_iff_exists'.mp
    (walkSegments_ne_none (pageFrame fa) 0 hlaid.nonempty)
  refine reading (findSegment hx hw) (andThen lockAcquire fun _ =>
    reading (findPage hx (hlaid.slice_le hw)) ?_)
  cases hs : scanSlice x.pt (pageFrame fa) np seg.npages with
  | none =>
      exact andThen lockRelease fun _ => Views.Triple.fail fun _ => by simp [shares, Tolerated]
  | some i =>
      obtain ⟨e, hf⟩ := faultOn hx hlaid hw hs hfa
      cases ty with
      | readonly =>
          exact andThen lockRelease fun _ => Views.Triple.fail fun _ => by simp [shares, Tolerated]
      | other code => exact andThen lockRelease fun _ => Views.Triple.pure hsame
      | read => exact faultAt hc hv hal hf hmiss
      | write => exact faultAt hc hv hal hf hmiss

/-! ## as_destroy -/

theorem clearSwap {k : Nat} (hk : v.own.val (.slot k) = some d) :
    Does P a t cur v (clearSwap k) fun _ v' => v' = ⟨v.own.set (.slot k) none, v.tlb⟩ := by
  refine andThen lockAcquire fun _ => Views.Triple.bind (bitmapUnmark hk) ?_
  rintro _ _ rfl
  exact andThen (modify_core Sys.core_decUsed) fun _ => lockRelease

theorem clearSlots {pt : List PtEntry}
    (hown : ∀ e ∈ pt, e.inSwap = true → v.own.val (.slot e.paddr) ≠ none)
    (hdist : pt.Pairwise fun e e' => e.inSwap = true → e'.inSwap = true → e.paddr ≠ e'.paddr) :
    Does P a t cur v (clearSlots pt) fun _ v' => ∃ val, v' = ⟨{ v.own with val := val }, v.tlb⟩ ∧
      (∀ q, val (.frame q) = v.own.val (.frame q)) ∧
      ∀ k, val (.slot k) ≠ none → v.own.val (.slot k) ≠ none ∧
        ∀ e ∈ pt, e.inSwap = true → e.paddr ≠ k := by
  induction pt generalizing v with
  | nil => exact Views.Triple.pure ⟨v.own.val, rfl, fun _ => rfl, fun k hk => ⟨hk, by simp⟩⟩
  | cons e pt ih =>
      obtain ⟨hfirst, hrest⟩ := List.pairwise_cons.mp hdist
      have hown' : ∀ e' ∈ pt, e'.inSwap = true → v.own.val (.slot e'.paddr) ≠ none :=
        fun e' he' => hown e' (List.mem_cons_of_mem _ he')
      cases hin : e.inSwap with
      | false =>
          refine Views.Triple.bind (Φ := fun _ v' => v' = v) ?_ ?_
          · rw [clearSlot, if_neg (by simp [hin])]
            exact Views.Triple.pure rfl
          · rintro _ _ rfl
            refine Views.Triple.mono (ih hown' hrest) ?_
            rintro _ _ ⟨val, rfl, hf, hs⟩
            refine ⟨val, rfl, hf, fun k hk => ⟨(hs k hk).1, ?_⟩⟩
            simp only [List.mem_cons, forall_eq_or_imp, hin, Bool.false_eq_true, false_imp_iff,
              true_and]
            exact (hs k hk).2
      | true =>
          obtain ⟨d, hd⟩ := Option.ne_none_iff_exists'.mp (hown e (List.mem_cons_self ..) hin)
          refine Views.Triple.bind (Φ := fun _ v' =>
            v' = ⟨v.own.set (.slot e.paddr) none, v.tlb⟩) ?_ ?_
          · rw [clearSlot, if_pos hin]
            exact clearSwap hd
          · rintro _ _ rfl
            refine Views.Triple.mono (ih (fun e' he' hin' => ?_) hrest) ?_
            · rw [Own.val_set_of_ne (by simpa using (hfirst e' he' hin hin').symm)]
              exact hown' e' he' hin'
            · rintro _ _ ⟨val, rfl, hf, hs⟩
              refine ⟨val, rfl, fun q => (hf q).trans (Own.val_set_of_ne (by simp)), fun k hk => ?_⟩
              obtain ⟨hval, hne⟩ := hs k hk
              have hke : k ≠ e.paddr := by
                rintro rfl
                exact hval Own.val_set_self
              rw [Own.val_set_of_ne (by simpa using hke)] at hval
              refine ⟨hval, fun e' he' hin' => ?_⟩
              rcases List.mem_cons.mp he' with rfl | he'
              · exact hke.symm
              · exact hne e' he' hin'

theorem freepages {h : Nat} (hh : h ∈ v.own.table) :
    Does P a t cur v (freepages (P.addr h)) fun _ v' =>
      v' = ⟨{ v.own with table := v.own.table \ {h} }, v.tlb⟩ := by
  refine reading (x := P.firstpaddr) (gets fun _ _ hi _ _ => hi.firstpaddr)
    (Views.Triple.ite (fun hbelow => ?_) fun _ => andThen spinlockAcquire fun _ => ?_)
  · rw [Layout.addr] at hbelow
    omega
  · have hix : (P.addr h - P.firstpaddr) / pageSize = h := by
      rw [Layout.addr, Nat.add_sub_cancel_left, Nat.mul_div_cancel _ (by decide)]
    rw [hix]
    refine Views.Triple.bind (emptyBlock hh) ?_
    rintro _ _ rfl
    exact spinlockRelease

/-- The share of an address space that does not exist. -/
def Gone (o : Own) : Prop :=
  o.as = none ∧ (∀ x, o.val x = none) ∧ o.table = ∅ ∧ ∀ j, o.mem j = none

/-- **`as_destroy`** gives back everything an address space at rest owns. -/
theorem asDestroy (hg : Good P v.own ∅) :
    Does P a t cur v (asDestroy a) fun _ v' => Gone v'.own ∧ v'.tlb = v.tlb := by
  obtain ⟨x, hx, hlaid⟩ := hg.laid
  have hpte : ∀ i, v.own.pte i = x.pt[i]? := fun i => by rw [Own.pte, hx, Option.bind_some]
  have hplace : ∀ (i : Nat) e, x.pt[i]? = some e → e.inSwap = true →
      v.own.placeOf i = some (.slot e.paddr) := by
    intro i e he hin
    exact hg.placeOf_of_inSwap ((hpte i).trans he) hin
  refine andThen canSleep fun _ => andThen lockAcquire fun _ => reading (getAs hx) ?_
  simp only [hlaid.npages]
  rw [List.take_length]
  refine Views.Triple.bind (clearSlots (fun e he hin => ?_) ?_) ?_
  · obtain ⟨i, hi⟩ := List.mem_iff_getElem?.mp he
    exact hg.tenancy.housed i _ (hplace i e hi hin)
  · refine List.pairwise_iff_getElem.mpr fun i k hi hk hik hin hin' heq => ?_
    have h1 := hplace i _ (List.getElem?_eq_getElem hi) hin
    have h2 := hplace k _ (List.getElem?_eq_getElem hk) hin'
    rw [heq] at h1
    have := hg.tenancy.alone i k _ h1 h2
    omega
  rintro _ _ ⟨val, rfl, hframe, hslot⟩
  refine andThen lockRelease fun _ => ?_
  obtain ⟨h, hpt, hin⟩ := hg.table
  have hptp : x.ptPaddr = P.addr h := by
    rw [hx, Option.bind_some] at hpt
    rw [Addrspace.ptPaddr, hpt, Option.getD_some]
  rw [hptp]
  refine Views.Triple.bind (freepages (h := h) (hin ▸ rfl)) ?_
  rintro _ _ rfl
  refine Views.Triple.bind freeAs ?_
  rintro _ _ rfl
  refine Views.Triple.mono removeAs ?_
  rintro _ _ rfl
  refine ⟨⟨rfl, fun z => ?_, Set.sdiff_eq_empty.mpr hin.subset, fun _ => rfl⟩, rfl⟩
  cases z with
  | frame q => rfl
  | slot k =>
      change val (.slot k) = none
      by_contra hk
      obtain ⟨hown, hne⟩ := hslot k hk
      -- a slot is only owned for a swapped page, and that was cleared
      obtain ⟨i, hi⟩ := hg.tenancy.tenanted _ hown (Set.notMem_empty _)
      obtain ⟨e, he, hpl⟩ := Option.bind_eq_some_iff.mp hi
      obtain ⟨-, hsw, hpa⟩ := PtEntry.place_eq_slot.mp hpl
      exact hne e (List.mem_of_getElem? ((hpte i).symm.trans he)) hsw hpa

end Does

end Os161Paging
