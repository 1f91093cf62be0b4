import Os161Paging.Holdings
import Os161Paging.Processes
import Os161Paging.Statistics
import Os161Paging.Translations

/-!
# The TLB and the page table

In every run of the machine in which the swap device can be read, the TLB
says what the page table of the running process says: each valid entry
translates a resident page to the address in its page-table entry, and may
be written through exactly if the page may. Evictions, context switches and
the death of other processes are all allowed for, and so is a swap file so
large that slot numbers look like addresses.

A read of the swap device that fails is not: the page is marked resident
with its slot number where the address should be.
-/

namespace Os161Paging

open Prog

namespace Processes

open Calls

variable {n : Nat} {m m' : Machine} {a b : AsId} {t : Tid} {s s' : Sys} {o : Own}

/-! ## The invariant -/

/-- An address space at rest: it does not exist, its regions are being defined, or its
page table is as the faults leave it. -/
inductive Settled (o : Own) : Prop where
  | gone (h : o.as = none)
  | loading {x : Addrspace} (hx : o.as = some x) (hpt : x.pt = []) (hn : x.npages = none)
      (hsegs : ∀ seg ∈ x.asSegment, seg.Wf)
  | paged (h : Paged o)

theorem Settled.loading_of_npages {x : Addrspace} (h : Settled o) (hx : o.as = some x)
    (hn : x.npages = none) : x.pt = [] ∧ ∀ seg ∈ x.asSegment, seg.Wf := by
  cases h with
  | gone h =>
      rw [hx] at h
      cases h
  | loading hx' hpt _ hsegs =>
      obtain rfl := Option.some.inj (hx.symm.trans hx')
      exact ⟨hpt, hsegs⟩
  | paged h =>
      obtain ⟨x', hx', hlaid⟩ := h.laid
      obtain rfl := Option.some.inj (hx.symm.trans hx')
      cases hlaid.npages.symm.trans hn

theorem Settled.paged_of_npages {x : Addrspace} {k : Nat} (h : Settled o) (hx : o.as = some x)
    (hn : x.npages = some k) : Paged o := by
  cases h with
  | gone h =>
      rw [hx] at h
      cases h
  | loading hx' _ hn' _ =>
      obtain rfl := Option.some.inj (hx.symm.trans hx')
      rw [hn] at hn'
      cases hn'
  | paged h => exact h

/-- Threads act for address spaces, which rest with every translation backed. -/
def coherence (n : Nat) : Regime AsId Unit View where
  logic := translations n
  agent _ a := a
  calm _ v := Settled v.own ∧ Backed v.own v.tlb

/-- What an address space at rest sees, read off the state. -/
def bare (s : Sys) (a : AsId) : Own := ⟨s.as a, fun _ => none, ∅, fun _ => none⟩

theorem rests_of (hi : Mmu n s) (hset : Settled (bare s a))
    (hb : s.cur = some a → Backed (bare s a) (validTlb s)) : (coherence n).Rests a () s :=
  ⟨hi, ⟨bare s a, { e | s.cur = some a ∧ e ∈ validTlb s }⟩,
    ⟨rfl, fun hcur _ he hv => ⟨hcur, he, hv⟩⟩, hset, fun e he => hb he.1 e he.2⟩

abbrev Coherent (n : Nat) (m : Machine) : Prop := (coherence n).Sound () m

namespace Coherent

theorem mmu (hm : Coherent n m) : Mmu n m.sys := hm.inv

theorem acting_iff : (coherence n).Acting m a ↔ m.Served a :=
  ⟨fun ⟨t, _, p, hjob, hb⟩ => ⟨t, p, hb ▸ hjob⟩, fun ⟨t, p, hjob⟩ => ⟨t, a, p, hjob, rfl⟩⟩

theorem rest (hm : Coherent n m) (hs : ¬ m.Served a) :
    ∃ v : View, m.sys.as a = v.own.as ∧ Settled v.own ∧ Backed v.own v.tlb ∧
      (m.sys.cur = some a → validTlb m.sys ⊆ v.tlb) := by
  obtain ⟨-, v, ⟨has, htlb⟩, hset, hb⟩ := Regime.Sound.rest hm a fun h => hs (acting_iff.mp h)
  exact ⟨v, has, hset, hb, fun hcur e he => htlb hcur e he.1 he.2⟩

/-! ## Steps that leave the threads alone -/

/-- The state changes, on behalf of the resting `x` if that is an address space. -/
theorem set {x : Option AsId} {r : Record} {ks : List Nat} (hm : Coherent n m)
    (hfix : Fixed m.sys s') (htlb : s'.tlb = m.sys.tlb)
    (hothers : ∀ b, x ≠ some b → s'.as b = m.sys.as b)
    (hx : ∀ a, x = some a → ¬ m.Served a ∧ (coherence n).Rests a () s') :
    Coherent n { m with sys := s', kpages := ks, record := r } := by
  have hs := hm.scheduled
  have hmmu : Mmu n s' := hfix.mmu hm.mmu (htlb ▸ hm.mmu.tlb)
  refine hm.pass ⟨hfix.cur.trans hs.cur, hs.present, hs.kthread, hs.apart, hs.tended⟩ hmmu
    (fun _ _ _ => Iff.rfl) fun b => ?_
  by_cases hxb : x = some b
  · obtain ⟨hserved, hrest⟩ := hx b hxb
    exact .inr ⟨fun h => hserved (acting_iff.mp h), hrest⟩
  · refine .inl ⟨fun _ => hmmu, fun v hv => ⟨(hothers b hxb).trans hv.1, ?_⟩⟩
    rw [hfix.cur, htlb]
    exact hv.2

theorem unseen {r : Record} {ks : List Nat} (hm : Coherent n m) (h : Unseen m.sys s') :
    Coherent n { m with sys := s', kpages := ks, record := r } :=
  hm.set (x := none) h.toFixed h.tlb (fun b _ => congrFun h.as b) nofun

theorem create {p : Option AsId} {f : Option File} {r : Except Errno AsId} (hm : Coherent n m)
    (hbusy : ∀ a, p = some a → ¬ m.Busy a) (h : (asCreate p f).run t m.sys = .ok (r, s')) :
    Coherent n (m.put s') := by
  obtain ⟨-, -, k, rfl⟩ | ⟨a, v, rfl, -, -, -, -, rfl⟩ := asCreate_cases h
  · exact hm.unseen ⟨⟨rfl, rfl, rfl, rfl, rfl⟩, rfl, rfl⟩
  · have hfix : Fixed m.sys ({ m.sys with kmallocs := m.sys.kmallocs + 1 }.createAs a v) :=
      ⟨rfl, rfl, rfl, rfl, rfl⟩
    refine hm.set (x := some a) hfix rfl (fun b hb => ?_) ?_
    · exact Function.update_of_ne (fun hba : b = a => hb (hba ▸ rfl)) ..
    · rintro _ ⟨⟩
      have hb := hbusy a rfl
      refine ⟨fun hs => hb (.inr hs), rests_of (hfix.mmu hm.mmu hm.mmu.tlb) ?_ fun hcur => ?_⟩
      · exact .loading (Function.update_self ..) rfl rfl (by simp)
      · exact absurd hcur (hm.scheduled.cur_ne hb)

/-- While its regions are being defined, an address space has no translations. -/
theorem loading {x : Addrspace} (hm : Coherent n m) (hs : ¬ m.Served a)
    (hx : m.sys.as a = some x) (hn : x.npages = none) :
    x.pt = [] ∧ (∀ seg ∈ x.asSegment, seg.Wf) ∧
      ∀ o : Own, m.sys.cur = some a → Backed o (validTlb m.sys) := by
  obtain ⟨v, has, hset, hb, hsub⟩ := hm.rest hs
  have hx' : v.own.as = some x := has.symm.trans hx
  obtain ⟨hpt, hsegs⟩ := hset.loading_of_npages hx' hn
  refine ⟨hpt, hsegs, fun o hcur e he => ?_⟩
  obtain ⟨j, pe, hpe, -⟩ := hb e (hsub hcur he)
  simp [Own.pte, hx', hpt] at hpe

theorem define {vaddr memsize filesize rd wr ex offset : Nat} {r : Option Errno}
    (hm : Coherent n m) (hs : ¬ m.Served a)
    (hn : ∀ x, m.sys.as a = some x → x.npages = none) (hva : vaddr < 2 ^ 32)
    (h : (asDefineRegion a vaddr memsize filesize rd wr ex offset).run t m.sys = .ok (r, s')) :
    Coherent n (m.put s') := by
  obtain ⟨-, -, rfl⟩ | ⟨-, -, x, hx, rfl⟩ := asDefineRegion_cases h
  · exact hm.unseen ⟨⟨rfl, rfl, rfl, rfl, rfl⟩, rfl, rfl⟩
  · obtain ⟨hpt, hsegs, hnone⟩ := hm.loading hs hx (hn x hx)
    have hfix : Fixed m.sys ({ m.sys with kmallocs := m.sys.kmallocs + 1 }.setAs a { x with
        asSegment := x.asSegment ++
          [Segment.define vaddr memsize filesize rd wr ex offset] }) := ⟨rfl, rfl, rfl, rfl, rfl⟩
    refine hm.set (x := some a) hfix rfl (fun b hb => ?_) ?_
    · exact Function.update_of_ne (fun hba : b = a => hb (hba ▸ rfl)) ..
    · rintro _ ⟨⟩
      refine ⟨hs, rests_of (hfix.mmu hm.mmu hm.mmu.tlb) ?_ (hnone _)⟩
      refine .loading (Function.update_self ..) hpt (hn x hx) fun seg hseg => ?_
      rcases List.mem_append.mp hseg with hseg | hseg
      · exact hsegs seg hseg
      · rw [List.mem_singleton.mp hseg]
        exact Segment.define_wf hva

theorem paged_of_prepared {x : Addrspace} {l : Nat} (has : o.as = some (x.prepared l))
    (hlaid : (x.prepared l).Laid) : Paged o := by
  have hfresh : ∀ j e, o.pte j = some e → e.inMem = false ∧ e.inSwap = false ∧ e.paddr = 0 := by
    intro j e he
    rw [Own.pte, has, Option.bind_some] at he
    exact mem_freshPt (List.mem_of_getElem? he)
  refine ⟨⟨_, has, hlaid⟩, fun j e he hin => ?_, fun j e he _ _ => (hfresh j e he).2.2,
    fun j e he hor => ?_⟩
  · rw [(hfresh j e he).1] at hin
    cases hin
  · obtain ⟨hout, -, hzero⟩ := hfresh j e he
    simp [hout, hzero] at hor

theorem prepare {r : Option Errno} (hm : Coherent n m) (hs : ¬ m.Served a)
    (hn : ∀ x, m.sys.as a = some x → x.npages = none)
    (h : (asPrepareLoad a).run t m.sys = .ok (r, s')) : Coherent n (m.put s') := by
  obtain ⟨-, rfl⟩ | ⟨x, loc, s2, hx, -, h2, hend⟩ := asPrepareLoad_cases h
  · exact hm.unseen ⟨⟨rfl, rfl, rfl, rfl, rfl⟩, rfl, rfl⟩
  obtain ⟨-, hsegs, hnone⟩ := hm.loading hs hx (hn x hx)
  have hgeo : (m.sys.beforeTable t a x).Geometry := hm.mmu.geometry.congr rfl rfl rfl
  have hun : Unseen (m.sys.beforeTable t a x) s2 := Maps.ptAlloc.within .refl .trans _ _ _ h2
  obtain ⟨h0, -⟩ | ⟨-, -, hfits, rfl⟩ := hend
  · have hact := (ptAlloc_owner (fun _ => hgeo) h2).2.2.1.mp h0
    rw [hgeo.active] at hact
    cases hact
  · have hfix : Fixed m.sys ((s2.setAs a (x.prepared loc)).drop (.pt a)) :=
      ⟨hun.cur, hun.size, hun.firstpaddr, hun.active, hun.world⟩
    refine hm.set (x := some a) hfix hun.tlb (fun b hb => ?_) ?_
    · have hba : b ≠ a := fun hba => hb (hba ▸ rfl)
      refine (Function.update_of_ne hba ..).trans ((congrFun hun.as b).trans ?_)
      exact Function.update_of_ne hba ..
    · rintro _ ⟨⟩
      refine ⟨hs, rests_of (hfix.mmu hm.mmu (hun.tlb ▸ hm.mmu.tlb)) ?_ fun hcur => ?_⟩
      · exact .paged (paged_of_prepared (x := x) (l := loc) (Function.update_self ..)
          (.prepared hsegs hfits))
      · have htlb : validTlb ((s2.setAs a (x.prepared loc)).drop (.pt a)) = validTlb m.sys := by
          rw [validTlb, validTlb]
          exact congrArg (fun l => { e | e ∈ l ∧ e.valid = true }) hun.tlb
        rw [htlb]
        exact hnone _ (hfix.cur.symm.trans hcur)

/-- The calls that are taken as one step. -/
theorem call {call : Call} {c : Config} (hm : Coherent n m) (hfree : m.job m.running = .free)
    (hadmits : m.Admits call) (hcall : perform m.running ⟨m.sys, m.kpages⟩ call = some c) :
    Coherent n { m.put c.sys with kpages := c.kpages } := by
  have hserved : ∀ a, m.running = .proc a ∨ ¬ m.Busy a → ¬ m.Served a := by
    rintro a (hrun | hbusy)
    · exact hm.scheduled.not_served (hrun ▸ hfree)
    · exact fun hs => hbusy (.inr hs)
  cases performed hcall with
  | switch _ => exact hadmits.elim
  | create h => exact hm.create hadmits h
  | define hn hva h => exact hm.define (hserved _ hadmits) hn hva h
  | prepare hn _ h => exact hm.prepare (hserved _ hadmits) hn h
  | fault _ _ _ => exact hadmits.elim
  | destroy _ _ => exact hadmits.elim
  | alloc _ h => exact hm.unseen (Maps.allocKpages.within .refl .trans _ _ _ h)
  | free _ h => exact hm.unseen (Maps.freeKpages.within .refl .trans _ _ _ h)

/-! ## Threads -/

theorem activate_rely (hi : Mmu n s) (x : Option AsId) :
    (coherence n).logic.inv () (s.activate x) ∧
      ∀ b, (coherence n).logic.Rely b () s () (s.activate x) := by
  cases x with
  | none =>
      have hi' : Mmu n (s.activate none) := ⟨hi.geometry.congr rfl rfl rfl, hi.frames, hi.tlb, hi.reads⟩
      exact ⟨hi', fun b => ⟨fun _ => hi', fun v hv => ⟨hv.1, nofun⟩⟩⟩
  | some a =>
      have hi' : Mmu n (s.activate (some a)) :=
        ⟨hi.geometry.congr rfl rfl rfl, hi.frames, tlbWf_emptyTlb, hi.reads⟩
      refine ⟨hi', fun b => ⟨fun _ => hi', fun v hv => ⟨hv.1, fun _ e he hval => ?_⟩⟩⟩
      obtain ⟨i, -, rfl⟩ := List.mem_map.mp he
      rw [TlbEntry.invalid_valid] at hval
      cases hval

theorem miss {ty : FaultType} {va : Nat} (hm : Coherent n m) (hu : m.InUser a)
    (hmiss : allowed ⟨m.sys, m.kpages⟩ (.fault ty va) = true) :
    Coherent n (m.doing (.proc a) (.work a (vmFault ty va >>= fun _ => pure ()))) := by
  obtain ⟨hrun, hfree, htab⟩ := hu
  obtain ⟨hout, hva⟩ := allowed_fault.mp hmiss
  have hs := hm.scheduled.not_served hfree
  obtain ⟨v, has, hset, hb, hsub⟩ := hm.rest hs
  obtain ⟨x, k, hx, hk⟩ := hasTable_iff.mp htab
  have hcur : m.sys.cur = some a := by rw [hm.scheduled.cur, hrun]; rfl
  have hp : Paged v.own := hset.paged_of_npages (has.symm.trans hx) hk
  have hb' : Backed v.own (validTlb m.sys) := fun e he => hb e (hsub hcur he)
  have hmaps : Maps n a (.proc a) (some a) ⟨v.own, validTlb m.sys⟩
      (vmFault ty va >>= fun _ => pure ()) fun _ => (coherence n).calm a := by
    refine .bind (Maps.vmFault (v := ⟨v.own, validTlb m.sys⟩) rfl hp hb' hout hva) ?_
    rintro _ v ⟨hp, hb⟩
    exact .pure ⟨.paged hp, hb⟩
  rw [← hrun] at hfree ⊢
  refine hm.begin hfree (fun h => hs (acting_iff.mp h)) hs (.inl hrun) ?_
  rw [hrun]
  exact hmaps () m.sys hm.mmu ⟨has, fun _ e he hv => ⟨he, hv⟩⟩

/-- The destruction of an address space nobody else has to do with. -/
theorem destroy (hm : Coherent n m) (hfree : m.job m.running = .free) (hbusy : ¬ m.Busy a) :
    Coherent n (m.doing m.running (.work a (asDestroy a))) := by
  have hs : ¬ m.Served a := fun hs => hbusy (.inr hs)
  have hmaps : Maps n a m.running m.running.as ⟨bare m.sys a, ∅⟩ (asDestroy a)
      fun _ => (coherence n).calm a := by
    refine .mono Maps.asDestroy ?_
    rintro _ v ⟨hgone, htlb⟩
    refine ⟨.gone hgone, ?_⟩
    rw [htlb]
    exact fun e he => he.elim
  refine hm.begin hfree (fun h => hs (acting_iff.mp h)) hs
    (.inr (not_not.mp fun h => hbusy (.inl h))) (hmaps () m.sys hm.mmu ⟨rfl, fun hcur => ?_⟩)
  exact absurd hcur (hm.scheduled.cur_ne hbusy)

/-- **Every step of the machine keeps it.** -/
theorem step (hm : Coherent n m) (hs : Step m m') : Coherent n m' := by
  have hact := fun x => activate_rely hm.mmu x
  cases hs with
  | switch hjob _ => exact hm.switch hact hjob
  | start _ _ hbusy _ => exact hm.start hact hbusy
  | exit _ hfree _ => exact hm.exit hact hfree
  | call hfree hadmits hcall => exact hm.call hfree hadmits hcall
  | background => exact hm.unseen ⟨⟨rfl, rfl, rfl, rfl, rfl⟩, rfl, rfl⟩
  | store x _ _ _ => exact hm.unseen ⟨⟨rfl, rfl, rfl, rfl, rfl⟩, rfl, rfl⟩
  | miss hu hmiss => exact hm.miss hu hmiss
  | destroy hfree hbusy _ => exact hm.destroy hfree hbusy
  | act hjob hf =>
      obtain ⟨_, -, hsound⟩ := Regime.Sound.act hm hjob hf
      exact hsound
  | done hjob => exact hm.done hjob

end Coherent

/-! ## Runs -/

/-- The machines whose swap device can be read. -/
def readable : Transitions Machine := machine.restrict fun m => ∀ k, m.sys.world.swapRead k = none

theorem coherent_of_reachable (h : readable.Reachable m) : ∃ n, Coherent n m := by
  refine h.invariant (I := fun m => ∃ n, Coherent n m) ?_ ?_
  · rintro m ⟨hstart, hreads⟩
    obtain ⟨hfresh, -⟩ := id hstart
    have hmmu : Mmu m.sys.coremapSize m.sys :=
      ⟨hfresh.geometry, rfl, hfresh.tlb ▸ tlbWf_emptyTlb, hreads⟩
    refine ⟨m.sys.coremapSize, .of_start hstart hmmu fun a => ?_⟩
    refine rests_of hmmu (.gone (hfresh.as a)) fun hcur => ?_
    rw [hfresh.cur] at hcur
    cases hcur
  · rintro m m' ⟨n, hm⟩ hs
    exact ⟨n, hm.step hs⟩

/-- The TLB agrees with the page table of `a`: every valid entry translates a resident page
to the address in its page-table entry, may be written through exactly if the page is
writable, and no page is translated twice. -/
structure Agrees (s : Sys) (a : AsId) : Prop where
  mapped : ∀ e ∈ s.tlb, e.valid = true → ∃ j pe, s.pte a j = some pe ∧ pe.inMem = true ∧
    pe.vaddr = e.vpage ∧ pe.paddr = e.ppage ∧ e.dirty = pe.writable
  unique : ∀ (i j : Nat) (e e' : TlbEntry), s.tlb[i]? = some e → s.tlb[j]? = some e' →
    e.valid = true → e'.valid = true → e.vpage = e'.vpage → i = j

/-- **The TLB agrees with the page table of the running process**, whatever the processes
do and however they are interleaved, as long as the swap device can be read. -/
theorem tlb_agrees (h : readable.Reachable m) (hrun : m.running = .proc a)
    (hfree : m.job (.proc a) = .free) : Agrees m.sys a := by
  obtain ⟨n, hm⟩ := coherent_of_reachable h
  obtain ⟨v, has, -, hb, hsub⟩ := hm.rest (hm.scheduled.not_served hfree)
  have hcur : m.sys.cur = some a := by rw [hm.scheduled.cur, hrun]; rfl
  constructor
  · intro e he hval
    obtain ⟨j, pe, hpe, hrest⟩ := hb e (hsub hcur ⟨he, hval⟩)
    exact ⟨j, pe, by rw [Maps.pte_of_as has, hpe], hrest⟩
  · intro i j e e' hi hj hval _ heq
    exact hm.mmu.tlb.unique i j e e' hi hj heq
      ((hm.mmu.tlb.tags e (List.mem_of_getElem? hi)).mp hval)

/-! ## On the machine with three frames -/

/-- The first program of the machine is started and takes some faults. -/
def startAndTouch (calls : List Call) (c : Config) : Option Config :=
  (launch .kernel 0 c).bind fun c => calls.foldlM (perform (.proc 0)) c

theorem startAndTouch_at {M : Transitions Machine} {c c' : Config} {calls : List Call}
    (hM : ∀ m m', Step m m' → M.step m m') (h : At M c .kernel atBoot)
    (hfaults : ∀ call ∈ calls, ∃ ty va, call = .fault ty va)
    (hrun : startAndTouch calls c = some c') :
    ∃ m, M.Reachable m ∧ m.sys = c'.sys ∧ m.running = .proc 0 ∧ m.job (.proc 0) = .free := by
  obtain ⟨c1, h1, hrun⟩ := Option.bind_eq_some_iff.mp hrun
  obtain ⟨hat, htab⟩ := h.launch (C := fun _ _ => True) (fun m m' hs _ => hM m m' hs) rfl
    atBoot_idle rfl (fun _ _ _ => trivial) h1
  have hfree : Function.update atBoot (.proc 0) .free (.proc 0) = .free := Function.update_self ..
  obtain ⟨⟨r, hr⟩, -⟩ := hat.faults (C := fun _ _ => True) (fun m m' hs _ => hM m m' hs) calls
    hfaults hfree htab (fun _ => trivial) hrun
  exact ⟨_, hr, rfl, rfl, hfree⟩

/-- A page comes back from the swap file: first five pages are written to, for which there
are two frames, and then the second one is read again. -/
def touchAgain : List Call := touchFive ++ [.fault .read (stackPage 1)]

theorem touchAgain_faults : ∀ call ∈ touchAgain, ∃ ty va, call = .fault ty va := by
  simp [touchAgain, touchFive, List.range_succ]

set_option maxRecDepth 100000 in
/-- The TLB agrees with the page table after a page has come back from the swap file. -/
theorem tlb_agrees_threeFrames :
    ∃ m, readable.Reachable m ∧ (m.sys.tlb.any (·.valid) = true) ∧ Agrees m.sys 0 := by
  have hrun : (startAndTouch touchAgain (threeFrames .calm 4)).any
      (fun c => c.sys.tlb.any (·.valid)) = true := by
    decide +kernel
  obtain ⟨c, hc, hvalid⟩ := (Option.any_eq_true _ _).mp hrun
  have hboot : At readable (threeFrames .calm 4) .kernel atBoot :=
    ⟨_, .init ⟨start_atBoot (threeFrames_start .calm 4 fun _ => rfl).1, fun _ => rfl⟩⟩
  obtain ⟨m, hr, hsys, hproc, hfree⟩ :=
    startAndTouch_at (fun _ _ hs => hs) hboot touchAgain_faults hc
  exact ⟨m, hr, by rw [hsys]; exact hvalid, tlb_agrees hr hproc hfree⟩

set_option maxRecDepth 100000 in
/-- If the swap device cannot be read, the page is marked resident at an address that is
the number of its slot, and the TLB translates it to physical address 0. -/
theorem tlb_disagrees_deadDisk :
    ∃ m e, machine.Reachable m ∧ m.running = .proc 0 ∧ m.job (.proc 0) = .free ∧
      e ∈ m.sys.tlb ∧ e.valid = true ∧ e.vpage = stackPage 1 ∧ e.ppage = 0 ∧
      (m.sys.pte 0 1).map (fun pe => (pe.vaddr, pe.inMem, pe.paddr)) =
        some (stackPage 1, true, 1) ∧
      ¬ Agrees m.sys 0 := by
  have hrun : (startAndTouch touchAgain (threeFrames Statistics.deadDisk 4)).any (fun c =>
      (c.sys.tlb.any fun e => e.valid && (e.vpage == stackPage 1 && (e.ppage == 0 &&
        ((c.sys.as 0).any fun x => x.pt.all fun pe =>
          !(pe.vaddr == e.vpage && pe.paddr == e.ppage))))) &&
      (c.sys.pte 0 1).map (fun pe => (pe.vaddr, pe.inMem, pe.paddr)) ==
        some (stackPage 1, true, 1)) = true := by
    decide +kernel
  obtain ⟨c, hc, hcheck⟩ := (Option.any_eq_true _ _).mp hrun
  simp only [Bool.and_eq_true, beq_iff_eq, List.any_eq_true, Option.any_eq_true] at hcheck
  obtain ⟨⟨e, he, hval, hvp, hpp, x, hx, hall⟩, hpte⟩ := hcheck
  have hboot : At machine (threeFrames Statistics.deadDisk 4) .kernel atBoot :=
    ⟨_, .init (start_atBoot (fresh_boot (by decide) (by decide) (by decide)))⟩
  obtain ⟨m, hr, hsys, hproc, hfree⟩ :=
    startAndTouch_at (fun _ _ hs => hs) hboot touchAgain_faults hc
  refine ⟨m, e, hr, hproc, hfree, hsys ▸ he, hval, hvp, hpp, hsys ▸ hpte, fun hagrees => ?_⟩
  obtain ⟨j, pe, hpe, -, hva, hpa, -⟩ := hagrees.mapped e (hsys ▸ he) hval
  rw [hsys, Sys.pte, hx, Option.bind_some] at hpe
  have hnot := List.all_eq_true.mp hall pe (List.mem_of_getElem? hpe)
  simp [hva, hpa] at hnot

end Processes

end Os161Paging
