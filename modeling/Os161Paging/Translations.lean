import Os161Paging.Idle
import Os161Paging.Service

/-!
# The kernel's calls and the TLB

What a fault does to the translations of the process it is for, with nothing
assumed about who owns which frame or slot. An address space sees its
`struct addrspace` and the entries the TLB may hold while it runs; nearly
everything the kernel does is unnoticed at this level, and what is left are
the writes to page-table entries and to the TLB. The slot of a page can be
mistaken for the address of a frame here, and two pages can be resident in
one frame: the TLB agrees with the page table all the same.
-/

namespace Os161Paging

open Prog
open Views.Triple (andThen knowing reading)

/-! ## The instance -/

/-- What every action keeps: the geometry of a coremap with `n` entries, a TLB without
double entries, and a swap device that can be read. -/
structure Mmu (n : Nat) (s : Sys) : Prop where
  geometry : s.Geometry
  frames : s.coremapSize = n
  tlb : TlbWf s.tlb
  reads : ∀ k, s.world.swapRead k = none

/-- The logic of translations. Of a share only the address space matters. -/
def translations (n : Nat) : Views AsId Tid Sys Lock Unit View where
  inv _ s := Mmu n s
  sees a v _ s := s.as a = v.own.as ∧ (s.cur = some a → ∀ e ∈ s.tlb, e.valid = true → e ∈ v.tlb)
  law _ _ _ := True
  stops _ _ _ := True

abbrev Maps (n : Nat) (a : AsId) (t : Tid) (cur : Option AsId) {α : Type} (v : View) (p : VM α)
    (Φ : α → View → Prop) : Prop :=
  (translations n).Triple (worker a t cur) v p Φ

/-- What stays as it was at boot, and the current address space. -/
structure Fixed (s s' : Sys) : Prop where
  cur : s'.cur = s.cur
  size : s'.coremap.length = s.coremap.length
  firstpaddr : s'.firstpaddr = s.firstpaddr
  active : s'.coremapActive = s.coremapActive
  world : s'.world = s.world

/-- A step at which no page-table entry and no entry of the TLB is written. -/
structure Unseen (s s' : Sys) : Prop extends Fixed s s' where
  as : s'.as = s.as
  tlb : s'.tlb = s.tlb

variable {n : Nat} {a : AsId} {t : Tid} {cur : Option AsId} {α : Type} {v : View} {p : VM α}
  {s s' : Sys} {j : Nat} {e : PtEntry}

theorem Fixed.mmu (h : Fixed s s') (hs : Mmu n s) (htlb : TlbWf s'.tlb) : Mmu n s' where
  geometry := by
    obtain ⟨hact, hpos, hal, hfits⟩ := hs.geometry
    exact ⟨h.active.trans hact, h.firstpaddr ▸ hpos, h.firstpaddr ▸ hal, by
      rw [h.firstpaddr, Sys.coremapSize, h.size]; exact hfits⟩
  frames := h.size.trans hs.frames
  tlb := htlb
  reads := h.world ▸ hs.reads

namespace Unseen

theorem refl (s : Sys) : Unseen s s := ⟨⟨rfl, rfl, rfl, rfl, rfl⟩, rfl, rfl⟩

theorem trans (s s1 s' : Sys) (h1 : Unseen s s1) (h2 : Unseen s1 s') : Unseen s s' :=
  ⟨⟨h2.cur.trans h1.cur, h2.size.trans h1.size, h2.firstpaddr.trans h1.firstpaddr,
    h2.active.trans h1.active, h2.world.trans h1.world⟩, h2.as.trans h1.as, h2.tlb.trans h1.tlb⟩

theorem mmu (h : Unseen s s') (hs : Mmu n s) : Mmu n s' := h.toFixed.mmu hs (h.tlb ▸ hs.tlb)

theorem sees (h : Unseen s s') {b : AsId} {w : View} (hs : (translations n).sees b w () s) :
    (translations n).sees b w () s' :=
  ⟨(congrFun h.as b).trans hs.1, by rw [h.cur, h.tlb]; exact hs.2⟩

end Unseen

namespace Maps

theorem unseen (hp : p.Steps Unseen t) : Maps n a t cur v p fun _ v' => v' = v :=
  .unnoticed (fun _ _ _ h hi _ hc =>
    ⟨h.cur.trans hc, (), trivial, h.mmu hi, fun _ _ => h.sees⟩) (fun _ _ _ _ => trivial) hp

theorem look {Q : α → Prop} (hp : p.IsAction)
    (h : ∀ s x s', Mmu n s → s.as a = v.own.as → s.cur = cur → p.run t s = .ok (x, s') →
      Unseen s s' ∧ Q x) :
    Maps n a t cur v p fun x v' => v' = v ∧ Q x := by
  refine .action hp fun g s hi hs hc => ⟨.of_all fun _ => trivial, fun x s' hrun => ?_⟩
  obtain ⟨hun, hQ⟩ := h s x s' hi hs.1 hc hrun
  exact ⟨hun.cur.trans hc, (), v, trivial, ⟨hun.mmu hi, fun b _ w => hun.sees⟩, hun.sees hs,
    rfl, hQ⟩

/-! ## What is not noticed -/

theorem idle_unseen : Idle Unseen where
  refl := .refl
  sleepLock _ _ _ _ := ⟨⟨rfl, rfl, rfl, rfl, rfl⟩, rfl, rfl⟩
  counters _ _ := ⟨⟨rfl, rfl, rfl, rfl, rfl⟩, rfl, rfl⟩
  slots _ _ _ := ⟨⟨rfl, rfl, rfl, rfl, rfl⟩, rfl, rfl⟩
  contents _ _ _ _ _ _ := ⟨⟨rfl, rfl, rfl, rfl, rfl⟩, rfl, rfl⟩

theorem grab {l : Lock} {m : String} : (grab l m).Steps Unseen t := by
  refine .action (isAction_exec _) fun s x s' h => ?_
  rw [(grab_eq_ok.mp h).2]
  exact ⟨⟨rfl, rfl, rfl, rfl, rfl⟩, rfl, rfl⟩

theorem letGo {l : Lock} {m : String} : (letGo l m).Steps Unseen t := by
  refine .action (isAction_exec _) fun s x s' h => ?_
  rw [(letGo_eq_ok.mp h).2]
  exact ⟨⟨rfl, rfl, rfl, rfl, rfl⟩, rfl, rfl⟩

theorem emptyRun {i k : Nat} : Unseen s (s.emptyRun i k) :=
  ⟨⟨rfl, by simp [Sys.emptyRun, modifyRange], rfl, rfl, rfl⟩, rfl, rfl⟩

theorem freepages {paddr : Nat} : (freepages paddr).Steps Unseen t := by
  refine .bind (.gets .refl) fun _ => .ite (.pure _) (.bind grab fun _ => .bind
    (.action (isAction_exec _) fun s x s' h => ?_) fun _ => letGo)
  obtain ⟨e, -, -, rfl⟩ := emptyBlock_eq_ok.mp h
  exact emptyRun

theorem freeAs : (freeAs a).Steps Unseen t :=
  .bind grab fun _ => .bind (.modify fun _ =>
    ⟨⟨rfl, List.length_map _, rfl, rfl, rfl⟩, rfl, rfl⟩) fun _ => letGo

theorem claimFree_steps {r : Bool} {fa : Nat} {x : Option AsId} :
    (claimFree r fa x).Steps Unseen t := by
  refine .action (isAction_exec _) fun s i s' h => ?_
  obtain ⟨-, rfl⟩ := claimFree_eq_ok.mp h
  cases i with
  | none => exact .refl s
  | some i => exact ⟨⟨rfl, List.length_modify .., rfl, rfl, rfl⟩, rfl, rfl⟩

theorem getMultiplePages {k : Nat} {r : Bool} {x : Option AsId} :
    (getMultiplePages k r x).Steps Unseen t := by
  refine .bind grab fun _ => .bind (.gets .refl) fun _ => .ite (.bind
    (.action (isAction_exec _) fun s i s' h => ?_) fun _ => .bind letGo fun _ => .gets .refl)
    (.bind letGo fun _ => .pure _)
  obtain ⟨-, rfl⟩ := claimRun_eq_ok.mp h
  exact ⟨⟨rfl, by simp [Sys.takeRun, modifyRange], rfl, rfl, rfl⟩, rfl, rfl⟩

theorem getPage_none {r : Bool} {fa : Nat} : (Os161Paging.getPage r fa none).Steps Unseen t := by
  refine .bind grab fun _ => .bind (.gets .refl) fun _ => .ite (.bind claimFree_steps fun i => ?_)
    (.bind letGo fun _ => .pure _)
  cases i with
  | some i => exact .bind letGo fun _ => .gets .refl
  | none => exact .gets .refl

theorem ptAlloc {k : Nat} : (ptAlloc k).Steps Unseen t :=
  .bind (.bind grab fun _ => .bind (.gets .refl) fun _ => .bind letGo fun _ => .pure _) fun _ =>
    .ite (.ite getMultiplePages getPage_none) (.fail _)

theorem allocKpages {k : Nat} : (allocKpages k).Steps Unseen t := by
  refine .bind idle_unseen.canSleep fun _ => .bind ?_ fun _ => .ite (.pure _) (.pure _)
  refine .bind (.ite getMultiplePages getPage_none) fun _ => .ite ?_ (.pure _)
  exact .bind grab fun _ => .bind (.gets .refl) fun _ => .bind letGo fun _ => .pure _

theorem freeKpages {addr : Nat} : (freeKpages addr).Steps Unseen t := by
  refine .bind grab fun _ => .bind (.gets .refl) fun _ => .bind letGo fun _ => .ite ?_ (.pure _)
  refine .bind (.bind (.gets .refl) fun cur => ?_) fun r =>
    .ite ?_ (.ite freepages (.fail _))
  · cases cur with
    | none => exact .pure _
    | some a =>
        exact .bind idle_unseen.canLock fun _ => .ite
          (.bind grab fun _ => .bind idle_unseen.findVaddr fun _ => .bind letGo fun _ => .pure _)
          (.bind idle_unseen.findVaddr fun _ => .pure _)
  · cases r.2 with
    | some p => exact freepages
    | none => exact .action (isAction_exec _) fun s x s' h => by cases h

/-! ## What is found out -/

theorem gets {ρ : Type} {f : Sys → ρ} {Q : ρ → Prop}
    (hQ : ∀ s, Mmu n s → s.as a = v.own.as → s.cur = cur → Q (f s)) :
    Maps n a t cur v (Prog.gets f) fun x v' => v' = v ∧ Q x := by
  refine look (isAction_exec _) fun s x s' hi hs hc h => ?_
  obtain ⟨rfl, rfl⟩ := gets_eq_ok.mp h
  exact ⟨.refl _, hQ _ hi hs hc⟩

theorem pte_of_as (hs : s.as a = v.own.as) : s.pte a j = v.own.pte j := by
  rw [Sys.pte, hs, Own.pte]

theorem getPte (he : v.own.pte j = some e) :
    Maps n a t cur v (getPte a j) fun y v' => v' = v ∧ y = e := by
  refine look (isAction_exec _) fun s y s' hi hs _ h => ?_
  obtain ⟨hy, rfl⟩ := getPte_eq_ok.mp h
  exact ⟨.refl _, Option.some.inj (hy.symm.trans ((pte_of_as hs).trans he))⟩

variable {x : Addrspace}

theorem findSegment {fa : Nat} {r : Segment × Nat × Bool} (hx : v.own.as = some x)
    (hr : walkSegments fa x.asSegment 0 = some r) :
    Maps n a t cur v (findSegment a fa) fun y v' => v' = v ∧ y = r := by
  refine look (isAction_exec _) fun s y s' hi hs _ h => ?_
  obtain ⟨⟨x', hx', hy⟩, rfl⟩ := findSegment_eq_ok.mp h
  obtain rfl := Option.some.inj (hx'.symm.trans (hs.trans hx))
  exact ⟨.refl _, Option.some.inj (hy.symm.trans hr)⟩

theorem findPage {fa np k : Nat} (hx : v.own.as = some x) :
    Maps n a t cur v (findPage a fa np k) fun y v' => v' = v ∧ y = scanSlice x.pt fa np k := by
  refine look (isAction_exec _) fun s y s' hi hs _ h => ?_
  obtain ⟨⟨x', hx', -, hy⟩, rfl⟩ := findPage_eq_ok.mp h
  obtain rfl := Option.some.inj (hx'.symm.trans (hs.trans hx))
  exact ⟨.refl _, hy⟩

theorem findPaddr {q : Nat} :
    Maps n a t cur v (findPaddr a q) fun y v' => v' = v ∧
      ∀ j, y = some j → ∃ e, v.own.pte j = some e ∧ e.paddr = q := by
  refine look (isAction_exec _) fun s y s' hi hs _ h => ?_
  obtain ⟨⟨x, k, hx, -, hy⟩, rfl⟩ := findPaddr_eq_ok.mp h
  refine ⟨.refl _, fun j hj => ?_⟩
  obtain ⟨hlt, hmatch, -⟩ := List.findIdx?_eq_some_iff_getElem.mp (hy.symm.trans hj)
  rw [List.length_take] at hlt
  refine ⟨x.pt[j], ?_, by simpa using hmatch⟩
  rw [Own.pte, ← hs, hx, Option.bind_some, List.getElem?_eq_getElem (by omega)]

theorem frameAddr {i : Nat} (hi : i < n) :
    Maps n a t cur v (Prog.gets (·.frameAddr i)) fun q v' =>
      v' = v ∧ q % pageSize = 0 ∧ q ≠ 0 := by
  refine gets fun s hs _ _ => ?_
  have hle : i ≤ s.coremapSize := hs.frames ▸ hi.le
  refine ⟨?_, hs.geometry.frameAddr_ne_zero hle⟩
  have hal := hs.geometry.aligned
  rw [hs.geometry.frameAddr_eq hle]
  simp only [pageSize_eq] at hal ⊢
  omega

theorem claimFree {fa : Nat} :
    Maps n a t cur v (claimFree false fa (some a)) fun r v' => v' = v ∧ ∀ i, r = some i → i < n := by
  refine look (isAction_exec _) fun s r s' hi _ _ h => ?_
  obtain ⟨hr, rfl⟩ := claimFree_eq_ok.mp h
  cases r with
  | none => exact ⟨.refl s, nofun⟩
  | some i =>
      refine ⟨⟨⟨rfl, List.length_modify .., rfl, rfl, rfl⟩, rfl, rfl⟩, ?_⟩
      rintro _ ⟨⟩
      exact hi.frames ▸ freeAt_lt (firstFree_eq_some hr.symm)

theorem findVictim :
    Maps n a t cur v (findVictim a) fun i v' => v' = v ∧ i < n := by
  refine look (isAction_exec _) fun s i s' hi _ _ h => ?_
  obtain ⟨next, hv, rfl⟩ := findVictim_eq_ok.mp h
  obtain ⟨e, he, -⟩ := victimLoop_evictable hv
  exact ⟨⟨⟨rfl, rfl, rfl, rfl, rfl⟩, rfl, rfl⟩, hi.frames ▸ (List.getElem?_eq_some_iff.mp he).1⟩

theorem loadSegment_swap {offset q k : Nat} :
    Maps n a t cur v (loadSegment .swapFile offset q k k) fun r v' => v' = v ∧ r = none := by
  refine look Does.loadSegment_isAction fun s r s' hi _ _ h => ?_
  obtain ⟨hr, rfl⟩ := loadSegment_swap_eq_ok.mp h
  exact ⟨⟨⟨rfl, rfl, rfl, rfl, rfl⟩, rfl, rfl⟩, hr.trans (hi.reads _)⟩

/-! ## What is written -/

theorem write {w : View} (hp : p.IsAction)
    (h : ∀ s x s', Mmu n s → (translations n).sees a v () s → s.cur = cur →
      p.run t s = .ok (x, s') → Fixed s s' ∧ TlbWf s'.tlb ∧ (translations n).sees a w () s' ∧
        ∀ b, b ≠ a → s'.as b = s.as b ∧ (s.cur = some b → s'.tlb = s.tlb)) :
    Maps n a t cur v p fun _ v' => v' = w := by
  refine .action hp fun g s hi hs hc => ⟨.of_all fun _ => trivial, fun x s' hrun => ?_⟩
  obtain ⟨hfix, hwf, hs', hothers⟩ := h s x s' hi hs hc hrun
  refine ⟨hfix.cur.trans hc, (), w, trivial, ⟨hfix.mmu hi hwf, fun b hb u hw => ?_⟩, hs', rfl⟩
  obtain ⟨has, htlb⟩ := hothers b hb
  refine ⟨has.trans hw.1, fun hcur => ?_⟩
  rw [hfix.cur] at hcur
  rw [htlb hcur]
  exact hw.2 hcur

theorem updPte {f : PtEntry → PtEntry} :
    Maps n a t cur v (updPte a j f) fun _ v' => v' = ⟨v.own.modPte j f, v.tlb⟩ := by
  refine write (isAction_exec _) fun s x s' hi hs _ h => ?_
  obtain ⟨-, rfl⟩ := updPte_eq_ok.mp h
  refine ⟨⟨rfl, rfl, rfl, rfl, rfl⟩, hi.tlb, ⟨?_, hs.2⟩, fun b hb => ⟨?_, fun _ => rfl⟩⟩
  · simp [Sys.modPte, Own.modPte, hs.1]
  · simp [Sys.modPte, hb]

theorem removeAs :
    Maps n a t cur v (Prog.modify fun s => { s with as := Function.update s.as a none }) fun _ v' =>
      v' = ⟨{ v.own with as := none }, v.tlb⟩ := by
  refine write (isAction_exec _) fun s x s' hi hs _ h => ?_
  rw [modify_eq_ok.mp h]
  refine ⟨⟨rfl, rfl, rfl, rfl, rfl⟩, hi.tlb, ⟨?_, hs.2⟩, fun b hb => ⟨?_, fun _ => rfl⟩⟩
  · simp
  · simp [hb]

theorem tlbInvalidateVaddr {va : Nat} (hc : cur = some a) (hva : pageFrame va < kseg0) :
    Maps n a t cur v (tlbInvalidateVaddr va) fun _ v' =>
      v' = ⟨v.own, { e ∈ v.tlb | e.vpage ≠ pageFrame va }⟩ := by
  refine write (isAction_exec _) fun s x s' hi hs hcur h => ?_
  rw [modify_eq_ok.mp h]
  obtain ⟨hwf, hmem⟩ := hi.tlb.tlbDrop hva
  have hdrop : ∃ tlb, s.tlbDrop va = { s with tlb := tlb } := by
    rw [Sys.tlbDrop]
    split
    · exact ⟨_, rfl⟩
    · exact ⟨s.tlb, rfl⟩
  have hcur : s.cur = some a := hcur.trans hc
  refine ⟨?_, hwf, ⟨?_, fun _ e he hval => ?_⟩, fun b hb => ⟨?_, fun hcb => ?_⟩⟩
  · obtain ⟨tlb, heq⟩ := hdrop
    rw [heq]
    exact ⟨rfl, rfl, rfl, rfl, rfl⟩
  · obtain ⟨tlb, heq⟩ := hdrop
    rw [heq]
    exact hs.1
  · obtain ⟨hin, hne⟩ := hmem e he hval
    exact ⟨hs.2 hcur e hin hval, hne⟩
  · obtain ⟨tlb, heq⟩ := hdrop
    rw [heq]
  · rw [hcur] at hcb
    exact absurd (Option.some.inj hcb).symm hb

theorem tlbLoadentry {fa q : Nat} {ro : Bool} (hc : cur = some a)
    (hval : (TlbEntry.mk fa (tlbLo q ro)).valid = true)
    (hfa : (TlbEntry.mk fa (tlbLo q ro)).vpage < kseg0)
    (hnew : ∀ e ∈ v.tlb, e.vpage ≠ (TlbEntry.mk fa (tlbLo q ro)).vpage) :
    Maps n a t cur v (tlbLoadentry fa q ro) fun _ v' =>
      v' = ⟨v.own, insert ⟨fa, tlbLo q ro⟩ v.tlb⟩ := by
  refine .bind (write (w := ⟨v.own, insert ⟨fa, tlbLo q ro⟩ v.tlb⟩) (isAction_exec _)
    fun s x s' hi hs hcur h => ?_) ?_
  · obtain ⟨-, rfl⟩ := tlbLoad_eq_ok.mp h
    have hcur : s.cur = some a := hcur.trans hc
    obtain ⟨hwf, hmem⟩ := hi.tlb.tlbLoad hval hfa fun e he hv => hnew e (hs.2 hcur e he hv)
    obtain ⟨hfix, has⟩ : Fixed s (tlbLoad s ⟨fa, tlbLo q ro⟩).2 ∧
        (tlbLoad s ⟨fa, tlbLo q ro⟩).2.as = s.as := by
      rw [tlbLoad]
      split <;> exact ⟨⟨rfl, rfl, rfl, rfl, rfl⟩, rfl⟩
    refine ⟨hfix, hwf, ⟨(congrFun has a).trans hs.1, fun _ e he hv => ?_⟩,
      fun b hb => ⟨congrFun has b, fun hcb => ?_⟩⟩
    · rcases hmem e he with he | rfl
      · exact .inr (hs.2 hcur e he hv)
      · exact .inl rfl
    · rw [hcur] at hcb
      exact absurd (Option.some.inj hcb).symm hb
  · rintro i _ rfl
    exact andThen (unseen idle_unseen.vmStatsInc) fun _ => .pure rfl

end Maps

/-! ## Page tables between two faults -/

/-- What is known of a page table: a resident page is in a frame, an untouched one shows
the address 0, and a page that was ever brought in is the one a fault would find. -/
structure Paged (o : Own) : Prop where
  laid : ∃ x, o.as = some x ∧ x.Laid
  aligned : ∀ j e, o.pte j = some e → e.inMem = true → e.paddr % pageSize = 0
  fresh : ∀ j e, o.pte j = some e → e.inMem = false → e.inSwap = false → e.paddr = 0
  found : ∀ j e, o.pte j = some e → e.inMem = true ∨ e.paddr ≠ 0 → Good.Reachable o j e

/-- A write to a page-table entry of a page that a fault would find. -/
theorem Paged.modPte {o : Own} {f : PtEntry → PtEntry} (h : Paged o) (he : o.pte j = some e)
    (hf : ∀ e, (f e).vaddr = e.vaddr ∧ (f e).rwx = e.rwx)
    (hal : (f e).inMem = true → (f e).paddr % pageSize = 0)
    (hfresh : (f e).inMem = false → (f e).inSwap = false → (f e).paddr = 0)
    (hr : Good.Reachable o j e) : Paged (o.modPte j f) := by
  -- the entry `j` is the new one, every other the old one
  have hpte : ∀ i e', (o.modPte j f).pte i = some e' → i = j ∧ e' = f e ∨ o.pte i = some e' := by
    intro i e' hi
    rw [Own.pte_modPte] at hi
    split at hi
    · next hij =>
        rw [hij, he, Option.map_some, Option.some.injEq] at hi
        exact .inl ⟨hij, hi.symm⟩
    · exact .inr hi
  refine ⟨?_, fun i e' hi => ?_, fun i e' hi => ?_, fun i e' hi hin => ?_⟩
  · obtain ⟨x, hx, hlaid⟩ := h.laid
    exact ⟨_, by rw [Own.modPte, hx, Option.map_some], hlaid.modifyPte hf⟩
  · rcases hpte i e' hi with ⟨-, rfl⟩ | hi
    · exact hal
    · exact h.aligned i e' hi
  · rcases hpte i e' hi with ⟨-, rfl⟩ | hi
    · exact hfresh
    · exact h.fresh i e' hi
  · rcases hpte i e' hi with ⟨rfl, rfl⟩ | hi
    · obtain ⟨hlt, x, hx, hl⟩ := hr.modPte (j := i) fun e => (hf e).1
      rw [← (hf e).1] at hlt hl
      exact ⟨hlt, x, hx, hl⟩
    · exact (h.found i e' hi hin).modPte fun e => (hf e).1

/-- What the search for a frame keeps: the TLB agrees with the page table, no page
becomes resident, and every page is found where it was. -/
structure Carries (v v' : View) : Prop where
  paged : Paged v'.own
  backed : Backed v'.own v'.tlb
  tlb : v'.tlb ⊆ v.tlb
  absent : ∀ i e, v.own.pte i = some e → e.inMem = false →
    ∃ e', v'.own.pte i = some e' ∧ e'.inMem = false ∧ e'.vaddr = e.vaddr
  reach : ∀ i e, Good.Reachable v.own i e → Good.Reachable v'.own i e

theorem Carries.refl (hp : Paged v.own) (hb : Backed v.own v.tlb) : Carries v v :=
  ⟨hp, hb, subset_rfl, fun _ e he hout => ⟨e, he, hout, rfl⟩, fun _ _ h => h⟩

/-- A page loses its frame, and the TLB forgets it. -/
theorem Carries.evicted {f : PtEntry → PtEntry} (hp : Paged v.own) (hb : Backed v.own v.tlb)
    (he : v.own.pte j = some e) (hr : Good.Reachable v.own j e)
    (hf : ∀ e, (f e).vaddr = e.vaddr ∧ (f e).rwx = e.rwx) (hout : (f e).inMem = false)
    (hfresh : (f e).inSwap = false → (f e).paddr = 0) :
    Carries v ⟨v.own.modPte j f, { t ∈ v.tlb | t.vpage ≠ pageFrame e.vaddr }⟩ := by
  have hpte : ∀ i, i ≠ j → (v.own.modPte j f).pte i = v.own.pte i := fun i hi =>
    Own.pte_modPte.trans (if_neg hi)
  refine ⟨hp.modPte he hf ?_ (fun _ => hfresh) hr, ?_, fun _ ht => ht.1, fun i e' hi hout' => ?_,
    fun i e' h => h.modPte fun e => (hf e).1⟩
  · rw [hout]
    exact nofun
  · rw [hr.aligned hp.laid]
    exact hb.forget he hpte
  · by_cases hij : i = j
    · subst hij
      obtain rfl := Option.some.inj (he.symm.trans hi)
      exact ⟨f e, Own.pte_modPte_self he, hout, (hf e).1⟩
    · exact ⟨e', (hpte i hij).trans hi, hout', rfl⟩

namespace Maps

/-! ## getPage -/

theorem swapOut : Maps n a t cur v (swapOut a j) fun r v' =>
    r = none → ∃ k, v' = ⟨v.own.modPte j fun e => { e with paddr := k }, v.tlb⟩ := by
  refine andThen (unseen grab) fun _ => andThen (unseen (.gets .refl)) fun full =>
    .ite (fun _ => .pure (by simp)) fun _ => andThen (unseen idle_unseen.bitmapAlloc) fun slot => ?_
  cases slot with
  | none => exact andThen (unseen letGo) fun _ => .pure (by simp)
  | some k =>
      refine andThen (unseen idle_unseen.getPte) fun e => andThen (unseen idle_unseen.vopWrite) fun _ =>
        .bind updPte ?_
      rintro _ _ rfl
      refine andThen (unseen (.modify fun s => ?_)) fun _ => andThen (unseen letGo) fun _ =>
        .pure fun _ => ⟨k, rfl⟩
      unfold Sys.incUsed
      exact ⟨⟨rfl, rfl, rfl, rfl, rfl⟩, rfl, rfl⟩

theorem saveVictim {w : Bool} : Maps n a t cur v (saveVictim a j w) fun _ v' =>
    ∃ f, v' = ⟨v.own.modPte j f, v.tlb⟩ ∧ ∀ e, (f e).vaddr = e.vaddr ∧ (f e).rwx = e.rwx ∧
      ((f e).inSwap = false → (f e).paddr = 0) := by
  refine .ite (fun _ => .bind swapOut fun r v1 hr => ?_) fun _ => ?_
  · cases r with
    | some err => exact .bind (Φ := fun _ _ => False) (.fail fun _ => trivial) (by simp)
    | none =>
        obtain ⟨k, rfl⟩ := hr rfl
        refine .bind (Φ := fun _ v' => v' = _) (.pure rfl) ?_
        rintro _ _ rfl
        refine andThen (unseen idle_unseen.vmStatsInc) fun _ => .mono updPte ?_
        rintro _ _ rfl
        rw [Own.modPte_modPte]
        exact ⟨_, rfl, fun _ => ⟨rfl, rfl, by simp⟩⟩
  · refine .mono updPte ?_
    rintro _ _ rfl
    exact ⟨_, rfl, fun _ => ⟨rfl, rfl, fun _ => rfl⟩⟩

theorem evict (hc : cur = some a) (hp : Paged v.own) (hb : Backed v.own v.tlb)
    (he : v.own.pte j = some e) (hr : Good.Reachable v.own j e) :
    Maps n a t cur v (evict a j) fun _ v' => Carries v v' := by
  have hva : pageFrame e.vaddr < kseg0 := by
    rw [hr.aligned hp.laid]
    exact hr.1
  refine reading (getPte he) (.bind saveVictim ?_)
  rintro _ _ ⟨f, rfl, hf⟩
  refine .bind updPte ?_
  rintro _ _ rfl
  refine .mono (tlbInvalidateVaddr hc hva) ?_
  rintro _ _ rfl
  rw [Own.modPte_modPte]
  exact .evicted hp hb he hr (fun e => ⟨(hf e).1, (hf e).2.1⟩) rfl (hf e).2.2

theorem evictFrom {i : Nat} (hc : cur = some a) (hp : Paged v.own) (hb : Backed v.own v.tlb)
    (hi : i < n) :
    Maps n a t cur v (evictFrom a i) fun r v' => r < n ∧ Carries v v' := by
  refine knowing (frameAddr hi) fun q hq => knowing findPaddr fun found hfound => ?_
  cases found with
  | none => exact .pure ⟨Nat.lt_of_le_of_lt (Nat.zero_le i) hi, .refl hp hb⟩
  | some j =>
      obtain ⟨e, he, hpa⟩ := hfound j rfl
      have hr : Good.Reachable v.own j e := hp.found j e he (.inr (hpa ▸ hq.2))
      exact .bind (evict hc hp hb he hr) fun _ v' hv' => .pure ⟨hi, hv'⟩

/-- **`getPage`** returns a frame, whatever it had to take it from. -/
theorem getPage {fa : Nat} (hc : cur = some a) (hp : Paged v.own) (hb : Backed v.own v.tlb) :
    Maps n a t cur v (getPage false fa (some a)) fun q v' =>
      q % pageSize = 0 ∧ Carries v v' := by
  refine andThen (unseen grab) fun _ =>
    reading (x := true) (gets fun s hs _ _ => hs.geometry.active) ?_
  refine knowing claimFree fun r hr => ?_
  cases r with
  | some i =>
      refine andThen (unseen letGo) fun _ => .mono (frameAddr (hr i rfl)) ?_
      rintro q _ ⟨rfl, hq, -⟩
      exact ⟨hq, .refl hp hb⟩
  | none =>
      refine andThen (unseen idle_unseen.getAvailableSwap) fun avail =>
        .ite (fun _ => ?_) fun _ => .fail fun _ => trivial
      refine knowing findVictim fun i hi => andThen (unseen letGo) fun _ =>
        andThen (unseen grab) fun _ => .bind (evictFrom hc hp hb hi) ?_
      rintro r v' ⟨hlt, hv'⟩
      refine andThen (unseen letGo) fun _ => .mono (frameAddr hlt) ?_
      rintro q _ ⟨rfl, hq, -⟩
      exact ⟨hq, hv'⟩

/-! ## vm_fault -/

/-- The outcome of bringing page `j` in: it is resident, and the TLB agrees with the page
table. -/
structure Brought (v : View) (j fa : Nat) (v' : View) : Prop where
  paged : Paged v'.own
  backed : Backed v'.own v'.tlb
  tlb : v'.tlb ⊆ v.tlb
  entry : ∃ e, v'.own.pte j = some e ∧ e.inMem = true ∧ e.vaddr = fa

/-- The page gets the frame at `q` and is marked resident. -/
theorem brought {v1 : View} {q fa : Nat} {f : PtEntry → PtEntry} (h : Carries v v1)
    (he : v.own.pte j = some e) (hout : e.inMem = false) (hr : Good.Reachable v.own j e)
    (hva : e.vaddr = fa) (hq : q % pageSize = 0)
    (hf : ∀ e, (f e).vaddr = e.vaddr ∧ (f e).rwx = e.rwx ∧ (f e).paddr = q ∧ (f e).inMem = true) :
    Brought v j fa ⟨v1.own.modPte j f, v1.tlb⟩ := by
  obtain ⟨e1, he1, hout1, hva1⟩ := h.absent j e he hout
  have hr1 : Good.Reachable v1.own j e1 := by
    obtain ⟨hlt, x, hx, hl⟩ := h.reach j e hr
    rw [← hva1] at hlt hl
    exact ⟨hlt, x, hx, hl⟩
  refine ⟨h.paged.modPte he1 (fun e => ⟨(hf e).1, (hf e).2.1⟩) (fun _ => ?_) ?_ hr1, ?_, h.tlb,
    f e1, Own.pte_modPte_self he1, (hf e1).2.2.2, (hf e1).1.trans (hva1.trans hva)⟩
  · rw [(hf e1).2.2.1]
    exact hq
  · rw [(hf e1).2.2.2]
    exact nofun
  · exact h.backed.keep he1 hout1 fun i hi => Own.pte_modPte.trans (if_neg hi)

section

variable {fa : Nat} {seg : Segment} {last : Bool} (hc : cur = some a) (hp : Paged v.own)
  (hb : Backed v.own v.tlb)
include hc hp hb

theorem pageInSwap : Maps n a t cur v (pageInSwap a j fa) fun _ v' =>
    ∃ v1 q, Carries v v1 ∧ q % pageSize = 0 ∧
      v' = ⟨v1.own.modPte j fun e => { e with paddr := q, inSwap := false }, v1.tlb⟩ := by
  refine andThen (unseen letGo) fun _ => .bind (getPage hc hp hb) ?_
  rintro q v1 ⟨hq, hv1⟩
  refine andThen (unseen grab) fun _ => .bind (Φ := fun _ v' =>
    v' = ⟨v1.own.modPte j fun e => { e with paddr := q }, v1.tlb⟩) ?_ ?_
  · refine andThen (unseen grab) fun _ => andThen (unseen idle_unseen.getPte) fun e =>
      reading loadSegment_swap (andThen (unseen idle_unseen.leaveSlot) fun _ => .bind updPte ?_)
    rintro _ _ rfl
    exact andThen (unseen letGo) fun _ => .pure rfl
  · rintro _ _ rfl
    refine .bind updPte ?_
    rintro _ _ rfl
    refine andThen (unseen idle_unseen.vmStatsInc) fun _ => .mono (unseen idle_unseen.vmStatsInc) ?_
    rintro _ _ rfl
    exact ⟨v1, q, hv1, hq, by rw [Own.modPte_modPte]; rfl⟩

theorem pageInFresh (he : v.own.pte j = some e) (hout : e.inMem = false)
    (hswap : e.inSwap = false) :
    Maps n a t cur v (pageInFresh a j seg last fa) fun _ v' =>
      ∃ v1 q, Carries v v1 ∧ q % pageSize = 0 ∧
        v' = ⟨v1.own.modPte j fun e => { e with paddr := q }, v1.tlb⟩ := by
  refine .bind (Φ := fun _ v' => ∃ v1 q, Carries v v1 ∧ q % pageSize = 0 ∧
    v' = ⟨v1.own.modPte j fun e => { e with paddr := q }, v1.tlb⟩) ?_ ?_
  · refine reading (getPte he) (.ite (fun _ => ?_) fun hne => ?_)
    · refine andThen (unseen letGo) fun _ => .bind (getPage hc hp hb) ?_
      rintro q v1 ⟨hq, hv1⟩
      refine .bind updPte ?_
      rintro _ _ rfl
      refine .mono (unseen grab) ?_
      rintro _ _ rfl
      exact ⟨v1, q, hv1, hq, rfl⟩
    · exact absurd (hp.fresh j e he hout hswap) hne
  · intro _ v' hv'
    refine andThen (unseen idle_unseen.getPte) fun e => .ite (fun _ => ?_) fun _ => ?_
    · refine .mono (andThen (unseen (.modify fun _ => ⟨⟨rfl, rfl, rfl, rfl, rfl⟩, rfl, rfl⟩))
        fun _ => unseen idle_unseen.vmStatsInc) ?_
      rintro _ _ rfl
      exact hv'
    · refine .mono (andThen (unseen idle_unseen.loadElfOndemand) fun _ =>
        andThen (unseen idle_unseen.vmStatsInc) fun _ => unseen idle_unseen.vmStatsInc) ?_
      rintro _ _ rfl
      exact hv'

theorem pageIn (hf : Does.FaultOn v fa j seg e) :
    Maps n a t cur v (pageIn a j seg last fa) fun _ v' => Brought v j fa v' := by
  refine reading (getPte hf.pte) (.ite (fun hin => ?_) fun hout => ?_)
  · refine .mono (unseen idle_unseen.vmStatsInc) ?_
    rintro _ _ rfl
    exact ⟨hp, hb, subset_rfl, e, hf.pte, hin, hf.vaddr⟩
  rw [Bool.not_eq_true] at hout
  refine .bind (Φ := fun _ v' => ∃ v1 q f, v' = ⟨v1.own.modPte j f, v1.tlb⟩ ∧ Carries v v1 ∧
    q % pageSize = 0 ∧ ∀ e, (f e).vaddr = e.vaddr ∧ (f e).rwx = e.rwx ∧ (f e).paddr = q) ?_ ?_
  · refine .ite (fun hswap => ?_) fun hswap => ?_
    · refine .mono (pageInSwap hc hp hb) ?_
      rintro _ _ ⟨v1, q, hv1, hq, rfl⟩
      exact ⟨v1, q, _, rfl, hv1, hq, fun _ => ⟨rfl, rfl, rfl⟩⟩
    · refine .mono (pageInFresh hc hp hb hf.pte hout (by simpa using hswap)) ?_
      rintro _ _ ⟨v1, q, hv1, hq, rfl⟩
      exact ⟨v1, q, _, rfl, hv1, hq, fun _ => ⟨rfl, rfl, rfl⟩⟩
  · rintro _ _ ⟨v1, q, f, rfl, hv1, hq, hfe⟩
    refine .mono updPte ?_
    rintro _ _ rfl
    rw [Own.modPte_modPte]
    exact brought hv1 hf.pte hout hf.reach hf.vaddr hq fun e =>
      ⟨(hfe e).1, (hfe e).2.1, (hfe e).2.2, rfl⟩

theorem faultAt (hf : Does.FaultOn v fa j seg e) (hmiss : Does.Misses v fa) :
    Maps n a t cur v (faultAt a j seg last fa) fun _ v' =>
      Paged v'.own ∧ Backed v'.own v'.tlb := by
  refine .bind (pageIn hc hp hb hf) ?_
  rintro _ v1 ⟨hp1, hb1, htlb, e', he', hin, hva⟩
  refine reading (getPte he') ?_
  have hr := hp1.found j e' he' (.inl hin)
  have hal : pageFrame e'.vaddr = e'.vaddr := hr.aligned hp1.laid
  have hq := hp1.aligned j e' he' hin
  subst hva
  have hvp : (TlbEntry.mk e'.vaddr (tlbLo e'.paddr (!e'.writable))).vpage = e'.vaddr := hal
  refine .bind (tlbLoadentry hc (tlbLo_spec _ _ hq).1 ?_ fun t ht => ?_) ?_
  · rw [hvp]
    exact hr.1
  · rw [hvp]
    exact hmiss t (htlb ht)
  · rintro _ _ rfl
    exact andThen (unseen letGo) fun _ => .pure ⟨hp1, hb1.insert he' hin hq hal⟩

/-- **`vm_fault`** on a page the TLB does not have. -/
theorem vmFault {ty : FaultType} (hmiss : Does.Misses v (pageFrame fa))
    (hfa : pageFrame fa < kseg0) :
    Maps n a t cur v (vmFault ty fa) fun _ v' => Paged v'.own ∧ Backed v'.own v'.tlb := by
  refine andThen (unseen idle_unseen.vmStatsInc) fun _ =>
    reading (x := some a) (gets fun _ _ _ hcur => hcur.trans hc) ?_
  obtain ⟨x, hx, hlaid⟩ := hp.laid
  obtain ⟨⟨seg, np, last⟩, hw⟩ := Option.ne_none_iff_exists'.mp
    (walkSegments_ne_none (pageFrame fa) 0 hlaid.nonempty)
  refine reading (findSegment hx hw) (andThen (unseen grab) fun _ => reading (findPage hx) ?_)
  cases hs : scanSlice x.pt (pageFrame fa) np seg.npages with
  | none => exact andThen (unseen letGo) fun _ => .fail fun _ => trivial
  | some i =>
      obtain ⟨e, hf⟩ := Does.faultOn hx hlaid hw hs hfa
      cases ty with
      | readonly => exact andThen (unseen letGo) fun _ => .fail fun _ => trivial
      | other code => exact andThen (unseen letGo) fun _ => .pure ⟨hp, hb⟩
      | read => exact faultAt hc hp hb hf hmiss
      | write => exact faultAt hc hp hb hf hmiss

end

theorem asDestroy : Maps n a t cur v (asDestroy a) fun _ v' =>
    v'.own.as = none ∧ v'.tlb = v.tlb := by
  refine andThen (unseen idle_unseen.canSleep) fun _ => andThen (unseen grab) fun _ =>
    andThen (unseen (.action (isAction_exec _) fun s x s' h => ?_)) fun x => ?_
  · rw [(getAs_eq_ok.mp h).2]
    exact .refl s
  · cases x.npages with
    | none => exact .action (isAction_exec _) fun _ _ _ _ _ => ⟨trivial, nofun⟩
    | some k =>
        refine andThen (unseen idle_unseen.clearSlots) fun _ => andThen (unseen letGo) fun _ =>
          andThen (unseen freepages) fun _ => andThen (unseen freeAs) fun _ => .mono removeAs ?_
        rintro _ _ rfl
        exact ⟨rfl, rfl⟩

end Maps

end Os161Paging
