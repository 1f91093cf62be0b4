import Os161Paging.Holdings

/-!
# The reverse map

Besides its owner, an entry of the coremap records the virtual address of the
page in the frame. `getPage` writes it when it takes a free entry, and not
when it takes a frame away from another page. As long as no frame is taken
away the recorded address is right; nothing in this kernel reads it.
-/

namespace Os161Paging

open Prog

namespace Calls

variable {P : Layout} {t : Tid} {a b : AsId} {g g' : Ghost} {s s' : Sys} {c c' : Config} {j k : Nat}
  {e : PtEntry}

/-- The address recorded for a frame, without the flags in its low bits, is that of
the page in it. -/
def ReverseMap (s : Sys) : Prop :=
  ∀ (i : Nat) ce a, s.coremap[i]? = some ce → ce.as = some a →
    ∃ j e, s.pte a j = some e ∧ e.inMem = true ∧ e.paddr = i * pageSize + s.firstpaddr ∧
      pageFrame ce.vaddr = e.vaddr

def Unswapped (s : Sys) : Prop := ∀ a j e, s.pte a j = some e → e.inSwap = false

theorem Unswapped.unambiguous (h : Unswapped s) : Unambiguous s := by
  intro a j e _ he hin
  rw [h a j e he] at hin
  cases hin

/-- A fault at `fa` takes no frame away: the page is in memory, or a frame is free. -/
def NoEviction (s : Sys) (fa : Nat) : Prop :=
  ∀ e, s.faultEntry fa = some e → e.inMem = true ∨ firstFree s.coremap ≠ none

/-- The runs in which no fault takes a frame away. -/
def uncrowded : Transitions Config :=
  system.cut fun c c' => ∀ t ty fa, perform t c (.fault ty fa) = some c' → NoEviction c.sys fa

/-! ## A fault that finds a free frame -/

def mapped (s : Sys) : List CEntry × Nat × (AsId → Nat → Option PtEntry) :=
  (s.coremap, s.firstpaddr, s.pte)

theorem ensureFrame_free {i fa : Nat} {u : Unit} (hact : s.coremapActive = true)
    (hi : firstFree s.coremap = some i) (he : s.pte a j = some e) (hz : e.paddr = 0)
    (h : (ensureFrame a j fa).run t s = .ok (u, s')) :
    mapped s' = mapped ((s.claim i false fa (some a)).modPte a j
      fun e => { e with paddr := s.frameAddr i }) := by
  obtain ⟨e0, _, h2, h⟩ := run_bind_eq_ok.mp h
  obtain ⟨he0, hs2⟩ := getPte_eq_ok.mp h2
  obtain rfl := Option.some.inj (he.symm.trans he0)
  rw [hs2, if_pos hz] at h
  obtain ⟨_, _, h3, h⟩ := run_bind_eq_ok.mp h
  obtain ⟨-, rfl⟩ := lockRelease_eq_ok.mp h3
  obtain ⟨p, s3, h4, h⟩ := run_bind_eq_ok.mp h
  obtain ⟨_, _, h5, h⟩ := run_bind_eq_ok.mp h
  obtain ⟨-, rfl⟩ := updPte_eq_ok.mp h5
  obtain ⟨-, rfl⟩ := lockAcquire_eq_ok.mp h
  have hget : (getPage false fa (some a)).run t (s.drop (.pt a)) = .ok (p, s3) := h4
  obtain ⟨_, _, h6, -⟩ := run_bind_eq_ok.mp h4
  rw [getPage_run_some (s := s.drop (.pt a)) hact (spinlockAcquire_eq_ok.mp h6).1 hi] at hget
  cases hget
  rfl

/-- The page gets the free frame `i`, whose entry records its address. -/
theorem pageInFresh_free {i fa : Nat} {seg : Segment} {last : Bool} {u : Unit}
    (hact : s.coremapActive = true) (hi : firstFree s.coremap = some i)
    (he : s.pte a j = some e) (hz : e.paddr = 0)
    (h : (pageInFresh a j seg last fa).run t s = .ok (u, s')) :
    mapped s' = mapped ((s.claim i false fa (some a)).modPte a j
      fun e => { e with paddr := s.frameAddr i }) := by
  obtain ⟨_, s1, h1, h⟩ := run_bind_eq_ok.mp h
  rw [← ensureFrame_free hact hi he hz h1]
  refine Leaves.bind (f := mapped) getPte_leaves (fun e => .ite ?_ ?_) s1 _ _ h
  · exact .bind (.modify fun _ => rfl) fun _ => vmStatsInc_leaves fun _ => rfl
  · exact .bind (loadElfOndemand_leaves fun _ _ _ _ _ => rfl) fun _ =>
      .bind (vmStatsInc_leaves fun _ => rfl) fun _ => vmStatsInc_leaves fun _ => rfl

theorem mapped_modPte {f : PtEntry → PtEntry} (h : mapped s' = mapped s) :
    mapped (s'.modPte a j f) = mapped (s.modPte a j f) := by
  simp only [mapped, Prod.mk.injEq] at h ⊢
  refine ⟨h.1, h.2.1, ?_⟩
  funext b k
  rw [Sys.pte_modPte, Sys.pte_modPte, h.2.2]

theorem mapped_modPte_modPte {f f' : PtEntry → PtEntry} :
    mapped ((s.modPte a j f).modPte a j f') = mapped (s.modPte a j (f' ∘ f)) := by
  simp only [mapped, Prod.mk.injEq]
  refine ⟨rfl, rfl, ?_⟩
  funext b k
  simp only [Sys.pte_modPte]
  split <;> simp

/-- A fault that takes no frame away, while no page is in the swap file: nothing is
mapped, or the page of the fault in a frame that was free. -/
theorem Ok.vmFault_mapped {ty : FaultType} {fa : Nat} {r : Option Errno} (hc : Ok P g c)
    (hu : Unswapped c.sys) (hne : NoEviction c.sys fa)
    (h : (vmFault ty fa).run t c.sys = .ok (r, s')) :
    mapped s' = mapped c.sys ∨
      ∃ a j e i, c.sys.cur = some a ∧ c.sys.pte a j = some e ∧ e.inMem = false ∧
        e.vaddr = pageFrame fa ∧ firstFree c.sys.coremap = some i ∧
        mapped s' = mapped ((c.sys.claim i false (pageFrame fa) (some a)).modPte a j
          fun e => { e with paddr := c.sys.frameAddr i, inMem := true }) := by
  obtain ⟨-, -, rfl⟩ | ⟨a, x, j, seg, last, hcur, hx, hlook, -, ⟨-, -, rfl⟩ | ⟨-, h⟩⟩ :=
    vmFault_cases h
  · exact .inl rfl
  · exact .inl rfl
  obtain ⟨_, s1, h1, h⟩ := run_bind_eq_ok.mp h
  have hrest : mapped s' = mapped s1 :=
    Leaves.bind (f := mapped) getPte_leaves (fun e => .bind (tlbLoadentry_leaves (fun _ _ => rfl)
      fun _ _ _ _ => rfl) fun _ => .bind (fun s r s' h => by
        rw [(lockRelease_eq_ok.mp h).2]; rfl) fun _ => .pure _) s1 _ _ h
  rw [hrest]
  -- the entry of the page
  obtain ⟨e, s2, h2, h1⟩ := run_bind_eq_ok.mp h1
  obtain ⟨he0, hs2⟩ := getPte_eq_ok.mp h2
  rw [hs2] at h1
  have he : c.sys.pte a j = some e := he0
  have hj : x.pt[j]? = some e := by rwa [Sys.pte, hx] at he
  have hentry : c.sys.faultEntry fa = some e := by
    simp only [Sys.faultEntry, hcur, hx, hlook, hj]
  cases hm : e.inMem with
  | true =>
      rw [hm, if_pos rfl] at h1
      have hsame : mapped s1 = mapped ((c.sys.bump .tlbFault).take t (.pt a)) :=
        vmStatsInc_leaves (f := mapped) (fun _ => rfl) _ _ _ h1
      exact .inl hsame
  | false =>
      have hsw := hu a j e he
      have hz : e.paddr = 0 := by
        have := hc.hasShape he
        simpa only [HasShape, hm, hsw] using this
      have hfree := (hne e hentry).resolve_left (by simp [hm])
      obtain ⟨i, hi⟩ := Option.ne_none_iff_exists'.mp hfree
      have hva : e.vaddr = pageFrame fa := by
        rw [Addrspace.lookup] at hlook
        split at hlook
        · obtain ⟨j', hscan, hpair⟩ := Option.map_eq_some_iff.mp hlook
          obtain ⟨rfl, -⟩ := Prod.mk.inj hpair
          obtain ⟨-, -, e', he', hv⟩ := scanSlice_eq_some hscan
          rw [← hv, Option.some.inj (hj.symm.trans he')]
        · cases hlook
      simp only [hm, Bool.false_eq_true, if_false, fetch, hsw] at h1
      obtain ⟨_, s3, h3, h1⟩ := run_bind_eq_ok.mp h1
      obtain ⟨-, rfl⟩ := updPte_eq_ok.mp h1
      have hfresh := pageInFresh_free (s := (c.sys.bump .tlbFault).take t (.pt a))
        hc.inv.geometry.active hi he hz h3
      refine .inr ⟨a, j, e, i, hcur, he, hm, hva, hi, ?_⟩
      rw [mapped_modPte hfresh, mapped_modPte_modPte]
      rfl

theorem pageFrame_or_two (v : Nat) : pageFrame (pageFrame v ||| 2) = pageFrame v := by
  have hor : pageFrame v ||| 2 = pageFrame v + 2 := by
    have hmul : pageFrame v = 2 ^ 12 * (v / 2 ^ 12) := by
      rw [pageFrame, pageSize_eq]
      omega
    rw [hmul]
    exact (Nat.two_pow_add_eq_or_of_lt (by decide) _).symm
  rw [hor]
  simp only [pageFrame, pageSize_eq]
  omega

/-- The reverse map, and an empty swap file, survive such a fault. -/
theorem Ok.fault_reverseMap {ty : FaultType} {fa : Nat} {r : Option Errno} (hc : Ok P g c)
    (hu : Unswapped c.sys) (hr : ReverseMap c.sys) (hne : NoEviction c.sys fa)
    (h : (vmFault ty fa).run t c.sys = .ok (r, s')) : Unswapped s' ∧ ReverseMap s' := by
  obtain hsame | ⟨a, j, e, i, -, he, hm, hva, hi, hmapped⟩ := hc.vmFault_mapped hu hne h
  · simp only [mapped, Prod.mk.injEq] at hsame
    obtain ⟨hcm, hfirst, hpte⟩ := hsame
    rw [Unswapped, ReverseMap, hcm, hfirst, hpte]
    exact ⟨hu, hr⟩
  simp only [mapped, Prod.mk.injEq] at hmapped
  obtain ⟨hcm, hfirst, hpte⟩ := hmapped
  -- the entry of the page, and all others
  have hnew : s'.pte a j = some { e with paddr := c.sys.frameAddr i, inMem := true } := by
    have hclaim : (c.sys.claim i false (pageFrame fa) (some a)).pte a j = some e := he
    rw [hpte, Sys.pte_modPte_self, hclaim, Option.map_some]
  have hold : ∀ b k, ¬ (b = a ∧ k = j) → s'.pte b k = c.sys.pte b k := by
    intro b k hbk
    rw [hpte, Sys.pte_modPte, if_neg hbk]
    rfl
  constructor
  · intro b k e' he'
    by_cases hbk : b = a ∧ k = j
    · obtain ⟨rfl, rfl⟩ := hbk
      obtain rfl := Option.some.inj (hnew.symm.trans he')
      exact hu b k e he
    · exact hu b k e' ((hold b k hbk).symm.trans he')
  · intro m ce b hce hb
    obtain ⟨ce0, hce0, hfree⟩ := freeAt_eq_true.mp (firstFree_eq_some hi)
    have hcm' : s'.coremap = c.sys.coremap.modify i (·.setOne (pageFrame fa) false (some a)) := hcm
    rw [hcm', List.getElem?_modify] at hce
    by_cases him : i = m
    · subst him
      simp only [hce0, if_true] at hce
      obtain rfl : ce0.setOne (pageFrame fa) false (some a) = ce := Option.some.inj hce
      obtain rfl : a = b := Option.some.inj hb
      refine ⟨j, _, hnew, rfl, ?_, ?_⟩
      · change c.sys.frameAddr i = i * pageSize + s'.firstpaddr
        have hlt : i < c.sys.coremapSize := (List.getElem?_eq_some_iff.mp hce0).1
        rw [hfirst, hc.inv.geometry.frameAddr_eq hlt.le]
        exact Nat.add_comm _ _
      · change pageFrame (pageFrame fa ||| 2) = e.vaddr
        rw [pageFrame_or_two, hva]
    · simp only [him, if_false, id_map'] at hce
      obtain ⟨k, e', he', hin, hp, hv⟩ := hr m ce b hce hb
      have hbk : ¬ (b = a ∧ k = j) := by
        rintro ⟨rfl, rfl⟩
        rw [Option.some.inj (he.symm.trans he'), hin] at hm
        cases hm
      exact ⟨k, e', (hold b k hbk).trans he', hin, by rw [hp, hfirst]; rfl, hv⟩

/-! ## The other calls -/

/-- No call but a fault gives a frame to an address space or brings a page in: owned
entries of the coremap are what they were, and so is every address space that is not
new, new to its page table, or gone. -/
structure Uneventful (s s' : Sys) : Prop where
  firstpaddr : s'.firstpaddr = s.firstpaddr
  entry : ∀ (k : Nat) ce b, s'.coremap[k]? = some ce → ce.as = some b → s.coremap[k]? = some ce
  space : ∀ b, s'.as b = s.as b ∨
    ∀ j e, s'.pte b j = some e → e.inMem = false ∧ e.inSwap = false

theorem Uneventful.of_eq (hfirst : s'.firstpaddr = s.firstpaddr) (hcm : s'.coremap = s.coremap)
    (has : s'.as = s.as) : Uneventful s s' :=
  ⟨hfirst, fun _ _ _ h _ => hcm ▸ h, fun _ => .inl (by rw [has])⟩

theorem space_of_update {x : Addrspace} (has : s'.as = Function.update s.as a (some x))
    (hx : ∀ e ∈ x.pt, e.inMem = false ∧ e.inSwap = false) (b : AsId) :
    s'.as b = s.as b ∨ ∀ j e, s'.pte b j = some e → e.inMem = false ∧ e.inSwap = false := by
  by_cases hb : b = a
  · subst hb
    refine .inr fun j e he => hx e ?_
    rw [Sys.pte, has, Function.update_self, Option.bind_some] at he
    exact List.mem_of_getElem? he
  · exact .inl (by rw [has, Function.update_of_ne hb])

theorem entry_of_takes {i n : Nat} (h : Blocks.Takes s s' i n none) (k : Nat) (ce : CEntry)
    (b : AsId) (hce : s'.coremap[k]? = some ce) (hb : ce.as = some b) :
    s.coremap[k]? = some ce := by
  by_cases hk : i ≤ k ∧ k < i + n
  · obtain ⟨ce', hce', -, hnone, -⟩ := h.taken k hk.1 hk.2
    rw [Option.some.inj (hce.symm.trans hce'), hnone] at hb
    cases hb
  · exact (h.rest k hk).symm.trans hce

theorem entry_of_emptyRun {i n : Nat} (hn : 0 < n) (k : Nat) (ce : CEntry) (b : AsId)
    (hce : (s.emptyRun i n).coremap[k]? = some ce) (hb : ce.as = some b) :
    s.coremap[k]? = some ce := by
  by_cases hk : i ≤ k ∧ k < i + n
  · cases he : s.coremap[k]? with
    | none => simp [Sys.emptyRun, modifyRange_getElem, hk, List.getElem?_modify, he] at hce
    | some e =>
        obtain ⟨e', he', -, hnone⟩ := emptyRun_isFree hk he
        rw [Option.some.inj (hce.symm.trans he'), hnone] at hb
        cases hb
  · rwa [emptyRun_getElem hk hn] at hce

theorem Ok.uneventful {call : Call} (hc : Ok P g c) (hf : ∀ ty fa, call ≠ .fault ty fa)
    (h : perform t c call = some c') : Uneventful c.sys c'.sys := by
  cases performed h with
  | @switch x _ =>
      cases x with
      | none => exact .of_eq rfl rfl rfl
      | some a => exact .of_eq rfl rfl rfl
  | create h1 =>
      obtain ⟨-, -, n, rfl⟩ | ⟨a, v, -, -, -, -, -, rfl⟩ := asCreate_cases h1
      · exact .of_eq rfl rfl rfl
      · exact ⟨rfl, fun _ _ _ h _ => h, space_of_update rfl nofun⟩
  | @define a _ _ _ _ _ _ _ _ _ hn _ h1 =>
      obtain ⟨-, -, rfl⟩ | ⟨-, -, x, hx, rfl⟩ := asDefineRegion_cases h1
      · exact .of_eq rfl rfl rfl
      · obtain ⟨y, hy, -, hnil, -⟩ := ((hc.phase a).loading_of_npages hx (hn x hx)).as
        obtain rfl := Option.some.inj (hx.symm.trans hy)
        exact ⟨rfl, fun _ _ _ h _ => h, space_of_update rfl (by simp [hnil])⟩
  | @prepare a _ _ hn hfree h1 =>
      obtain ⟨i, hi⟩ := Option.ne_none_iff_exists'.mp hfree
      obtain ⟨-, rfl⟩ | ⟨x, loc, s2, hx, -, h2, hend⟩ := asPrepareLoad_cases h1
      · exact .of_eq rfl rfl rfl
      have hact : (c.sys.beforeTable t a x).coremapActive = true := hc.inv.geometry.active
      obtain ⟨k, hloc, htakes⟩ := Blocks.ptAlloc_takes hact hi h2
      have hs2 := Blocks.ptAlloc_coremap hact hi h2
      have hne : loc ≠ 0 := by
        have hgeo : (c.sys.beforeTable t a x).Geometry := hc.inv.geometry.congr rfl rfl rfl
        exact hloc ▸ hgeo.frameAddr_ne_zero htakes.lt.le
      obtain ⟨h0, -⟩ | ⟨-, -, -, rfl⟩ := hend
      · exact absurd h0 hne
      · have has : ((s2.setAs a (x.prepared loc)).drop (.pt a)).as =
            Function.update c.sys.as a (some (x.prepared loc)) := by
          rw [hs2]
          simp only [Sys.drop, Sys.setAs, Sys.beforeTable, Sys.take, Function.update_idem]
        have hentry := entry_of_takes htakes
        exact ⟨htakes.firstpaddr, hentry,
          space_of_update has fun e he => ⟨(mem_freshPt he).1, (mem_freshPt he).2.1⟩⟩
  | @fault ty fa _ _ _ _ _ => exact absurd rfl (hf ty fa)
  | @destroy a _ _ _ h1 =>
      obtain ⟨x, h, e, -, -, -, hlen, rfl⟩ := hc.destroy_eq h1
      refine ⟨rfl, fun k ce b hce hb => ?_, fun b => ?_⟩
      · rw [Sys.withoutAs, List.getElem?_map] at hce
        obtain ⟨ce', hce', rfl⟩ := Option.map_eq_some_iff.mp hce
        have hne : ce'.as ≠ some a := by
          intro hca
          rw [CEntry.without, if_pos hca] at hb
          cases hb
        rw [CEntry.without, if_neg hne] at hb ⊢
        exact entry_of_emptyRun (by omega) k ce' b hce' hb
      · by_cases hb : b = a
        · subst hb
          refine .inr fun j e he => ?_
          simp [Sys.pte, Sys.withoutAs] at he
        · exact .inl (Function.update_of_ne hb ..)
  | alloc hfree h1 =>
      obtain ⟨i, m, -, htakes, hs'⟩ := allocKpages_takes hc.inv hfree h1
      exact ⟨htakes.firstpaddr, entry_of_takes htakes, fun b => .inl (by rw [hs'])⟩
  | free hmem h1 =>
      obtain ⟨k, hk, hhome⟩ := hc.kernel _ hmem
      rw [hk] at h1
      obtain ⟨e, he, rfl, -⟩ := hc.inv.freeKpages hhome h1
      obtain ⟨e1, he1, -, hblk⟩ := hc.inv.block k k none hhome
      obtain rfl := Option.some.inj (he.symm.trans he1)
      have hpos : 0 < e.allocpages := by
        have := (hblk k).mp hhome
        omega
      exact ⟨rfl, entry_of_emptyRun hpos, fun _ => .inl rfl⟩

theorem Ok.uneventful_reverseMap (hc : Ok P g' c') (h : Uneventful c.sys c'.sys)
    (hu : Unswapped c.sys) (hr : ReverseMap c.sys) : Unswapped c'.sys ∧ ReverseMap c'.sys := by
  have hpte : ∀ b, c'.sys.as b = c.sys.as b → ∀ j, c'.sys.pte b j = c.sys.pte b j := by
    intro b hb j
    rw [Sys.pte, hb, Sys.pte]
  constructor
  · intro b j e he
    rcases h.space b with hsame | hnone
    · exact hu b j e ((hpte b hsame j).symm.trans he)
    · exact (hnone j e he).2
  · intro i ce b hce hb
    rcases h.space b with hsame | hnone
    · obtain ⟨j, e, he, hin, hp, hv⟩ := hr i ce b (h.entry i ce b hce hb) hb
      exact ⟨j, e, (hpte b hsame j).trans he, hin, by rw [hp, h.firstpaddr], hv⟩
    · obtain ⟨j, ⟨e, he, hin, -⟩, -⟩ := hc.frameOwnership.noOrphan i ce b hce hb
      rw [(hnone j e he).1] at hin
      cases hin

/-! ## Runs -/

/-- What the runs in which no frame is taken away keep. -/
structure Accurate (c : Config) : Prop where
  ok : ∃ P g, Ok P g c
  unswapped : Unswapped c.sys
  map : ReverseMap c.sys

theorem accurate_of_start (h : system.start c) : Accurate c := by
  refine ⟨⟨_, ok_of_start h⟩, fun a j e he => ?_, fun i ce a hce ha => ?_⟩
  · simp [Sys.pte, h.1.as] at he
  · rw [h.1.coremap ce (List.mem_of_getElem? hce)] at ha
    cases ha

theorem Accurate.step (h : Accurate c) (hs : uncrowded.step c c') : Accurate c' := by
  obtain ⟨⟨P, g, hc⟩, hu, hr⟩ := h
  obtain ⟨hs, hne⟩ := hs
  obtain ⟨g', hc'⟩ := hc.step hu.unambiguous hs
  rcases hs with ⟨t, call, hcall⟩ | ⟨n, m, rfl⟩
  · have hkept : Unswapped c'.sys ∧ ReverseMap c'.sys := by
      by_cases hf : ∃ ty fa, call = .fault ty fa
      · obtain ⟨ty, fa, rfl⟩ := hf
        cases performed hcall with
        | fault _ _ h1 => exact hc.fault_reverseMap hu hr (hne t ty fa hcall) h1
      · exact hc'.uneventful_reverseMap (hc.uneventful (fun ty fa h => hf ⟨ty, fa, h⟩) hcall) hu hr
    exact ⟨⟨P, g', hc'⟩, hkept.1, hkept.2⟩
  · exact ⟨⟨P, g', hc'⟩, hu, hr⟩

/-- **The reverse map is accurate as long as no frame is taken away**: in every run in
which each fault on a page that is not in memory finds a free frame, the address
recorded for every frame with an owner is that of the page in it. -/
theorem reverse_map_accurate (h : uncrowded.Reachable c) : ReverseMap c.sys :=
  (h.invariant (fun _ => accurate_of_start) fun _ _ => Accurate.step).map

def performFree (c : Config) (call : Call) : Option Config :=
  if (firstFree c.sys.coremap).isSome then perform (.proc 0) c call else none

theorem uncrowded_threeFrames (calls : List Call)
    (h : calls.foldlM performFree (threeFrames .calm 4) = some c) : uncrowded.Reachable c := by
  refine Transitions.foldlM_invariant calls (fun call _ c c' hr hs => hr.next ?_)
    (.init (threeFrames_start .calm 4 fun _ => rfl)) h
  rw [performFree] at hs
  split at hs
  · next hfree =>
      exact ⟨.inl ⟨_, call, hs⟩, fun _ _ _ _ _ _ => .inr (Option.ne_none_iff_isSome.mpr hfree)⟩
  · cases hs

/-- The program touches two pages, for which there are two frames. -/
theorem reverse_map_threeFrames :
    ∃ c, (loadProgram ++ touchFive.take 2).foldlM performFree (threeFrames .calm 4) = some c ∧
      c.sys.coremap.countP (fun ce => ce.as == some 0) = 2 ∧ ReverseMap c.sys := by
  have hrun : ((loadProgram ++ touchFive.take 2).foldlM performFree (threeFrames .calm 4)).any
      (fun c => c.sys.coremap.countP (fun ce => ce.as == some 0) == 2) = true := by decide +kernel
  obtain ⟨c, hc, htwo⟩ := (Option.any_eq_true _ _).mp hrun
  exact ⟨c, hc, beq_iff_eq.mp htwo, reverse_map_accurate (uncrowded_threeFrames _ hc)⟩

/-- When the program touches a third page, the first one loses its frame to it, and the
entry of the frame still has the address of the first. -/
theorem reverse_map_stale : ∃ c, system.Reachable c ∧ ¬ ReverseMap c.sys := by
  have hrun : (performAll (threeFrames .calm 4) (loadProgram ++ touchFive.take 3)).any (fun c =>
      c.sys.coremap[1]?.any fun ce => ce.as == some 0 && (c.sys.as 0).all fun x =>
        x.pt.all fun e => !(e.inMem && e.paddr == 1 * pageSize + c.sys.firstpaddr &&
          pageFrame ce.vaddr == e.vaddr)) = true := by decide +kernel
  obtain ⟨c, hc, hcheck⟩ := (Option.any_eq_true _ _).mp hrun
  obtain ⟨ce, hce, hcheck⟩ := (Option.any_eq_true _ _).mp hcheck
  obtain ⟨hown, hno⟩ := Bool.and_eq_true_iff.mp hcheck
  have hreach : system.Reachable c := Transitions.foldlM_invariant _
    (fun call _ c c' hr hs => hr.next (.inl ⟨_, call, hs⟩))
    (.init (threeFrames_start .calm 4 fun _ => rfl)) hc
  refine ⟨c, hreach, fun h => ?_⟩
  obtain ⟨j, e, he, hin, hp, hv⟩ := h 1 ce 0 hce (beq_iff_eq.mp hown)
  obtain ⟨x, hx, hj⟩ := Option.bind_eq_some_iff.mp he
  rw [hx] at hno
  have := List.all_eq_true.mp hno e (List.mem_of_getElem? hj)
  simp [hin, hp, hv] at this

end Calls

end Os161Paging
