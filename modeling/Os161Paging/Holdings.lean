import Os161Paging.Calls
import Os161Paging.Meters

/-!
# Who holds which frame and which slot

The two sides of the books of the paging code. Page tables name frames and
slots; the coremap names an owner for every frame, and the bitmap of the
swap file says which slots are in use. Here both are read off the state,
without ghost state, and shown to agree in every run of calls.

The `paddr` field of an entry holds the address of a frame or the number of
a slot, and the scan of `getPage` for the page in a frame does not tell
them apart. The agreement thus rests on no slot number being the address of
a frame of the same address space; a run in which one is shows what breaks.
-/

namespace Os161Paging

open Prog

namespace Calls

variable {P : Layout} {t : Tid} {a b : AsId} {g : Ghost} {s s' : Sys} {c c' : Config} {j k : Nat}
  {e e' : PtEntry}

/-! ## Entries and what they name -/

theorem Ok.frame_of_pte (hc : Ok P g c) (he : c.sys.pte a j = some e) (hin : e.inMem = true) :
    c.sys.frameOwner e.paddr = some a := by
  have hg := (hc.phase a).good_of_pte he
  have hpte : (own a g c.sys).pte j = some e := he
  have hown := hg.tenancy.housed j (.frame e.paddr)
    (by rw [Own.placeOf_eq hpte, PtEntry.place_inMem hin])
  by_contra hne
  exact hown (if_neg hne)

theorem Ok.slot_of_pte (hc : Ok P g c) (he : c.sys.pte a j = some e) (hin : e.inSwap = true) :
    g.slotOwner e.paddr = some a := by
  have hg := (hc.phase a).good_of_pte he
  have hown := hg.tenancy.housed j _ (hg.placeOf_of_inSwap he hin)
  by_contra hne
  exact hown (if_neg hne)

/-- Whatever place an address space owns, exactly one of its pages is there. -/
theorem Ok.tenant (hc : Ok P g c) {x : Place} (hx : (own a g c.sys).val x ≠ none) :
    ∃ j e, c.sys.pte a j = some e ∧ e.place = some x ∧
      ∀ i e', c.sys.pte a i = some e' → e'.place = some x → i = j := by
  have hg : Good P (own a g c.sys) ∅ := by
    cases hc.phase a with
    | gone h => exact absurd (h.2.1 x) hx
    | loading h => exact absurd (h.val x) hx
    | good h => exact h
  obtain ⟨j, hj⟩ := hg.tenancy.tenanted x hx (Set.notMem_empty _)
  obtain ⟨e, he, hpl⟩ := Option.bind_eq_some_iff.mp hj
  refine ⟨j, e, he, hpl, fun i e' hi hpl' => hg.tenancy.alone i j x ?_ hj⟩
  have hpte : (own a g c.sys).pte i = some e' := hi
  rw [Own.placeOf_eq hpte, hpl']

/-- Two entries that name the same place are one. -/
theorem Ok.alone (hc : Ok P g c) {x : Place} (he : c.sys.pte a j = some e)
    (he' : c.sys.pte a k = some e') (hx : e.place = some x) (hx' : e'.place = some x) : j = k := by
  have hg := (hc.phase a).good_of_pte he
  have hpte : (own a g c.sys).pte j = some e := he
  have hpte' : (own a g c.sys).pte k = some e' := he'
  exact hg.tenancy.alone j k x (by rw [Own.placeOf_eq hpte, hx]) (by rw [Own.placeOf_eq hpte', hx'])

/-! ## Frames -/

/-- What an entry of the page table of `a` can look like: untouched, swapped or
resident. -/
def HasShape (s : Sys) (a : AsId) (e : PtEntry) : Prop :=
  match e.inMem, e.inSwap with
  | false, false => e.paddr = 0
  | false, true => e.writable = true ∧ e.paddr < s.nslots
  | true, false => ∃ i ce, s.coremap[i]? = some ce ∧ ce.cused = true ∧ ce.reserved = false ∧
      ce.as = some a ∧ e.paddr = i * pageSize + s.firstpaddr
  | true, true => False

/-- Page tables and coremap agree. -/
structure FrameOwnership (s : Sys) : Prop where
  shape : ∀ a j e, s.pte a j = some e → HasShape s a e
  unshared : ∀ a b j k e e', s.pte a j = some e → s.pte b k = some e' → e.inMem = true →
    e'.inMem = true → e.paddr = e'.paddr → a = b ∧ j = k
  noOrphan : ∀ (i : Nat) ce a, s.coremap[i]? = some ce → ce.as = some a →
    ∃! j, ∃ e, s.pte a j = some e ∧ e.inMem = true ∧ e.paddr = i * pageSize + s.firstpaddr

theorem Ok.hasShape (hc : Ok P g c) (he : c.sys.pte a j = some e) : HasShape c.sys a e := by
  have hg := (hc.phase a).good_of_pte he
  obtain ⟨hexcl, hwr, hzero⟩ := hg.shaped j e he
  unfold HasShape
  cases hm : e.inMem with
  | false =>
      cases hs : e.inSwap with
      | false => exact hzero hm hs
      | true =>
          refine ⟨hwr hs, ?_⟩
          rw [hc.inv.slots]
          exact hc.inv.slot_lt (hc.slot_of_pte he hs)
  | true =>
      rw [hexcl hm]
      obtain ⟨i, ce, hi, hce, hp⟩ := Sys.frameOwner_eq_some.mp (hc.frame_of_pte he hm)
      obtain ⟨hused, hres⟩ := hc.inv.owned i ce a hi hce
      exact ⟨i, ce, hi, hused, hres, hce, hp.trans (Nat.add_comm _ _)⟩

theorem Ok.frameOwnership (hc : Ok P g c) : FrameOwnership c.sys := by
  refine ⟨fun a j e => hc.hasShape, fun a b j k e e' he he' hin hin' hp => ?_,
    fun i ce a hi hce => ?_⟩
  · have hab : a = b := by
      have h1 := hc.frame_of_pte he hin
      rw [hp, hc.frame_of_pte he' hin'] at h1
      exact (Option.some.inj h1).symm
    subst hab
    exact ⟨rfl, hc.alone he he' (PtEntry.place_eq_frame.mpr ⟨hin, hp⟩)
      (PtEntry.place_eq_frame.mpr ⟨hin', rfl⟩)⟩
  · have hown : c.sys.frameOwner (i * pageSize + c.sys.firstpaddr) = some a :=
      Sys.frameOwner_eq_some.mpr ⟨i, ce, hi, hce, Nat.add_comm _ _⟩
    obtain ⟨j, e, he, hpl, huniq⟩ := hc.tenant (a := a)
      (x := .frame (i * pageSize + c.sys.firstpaddr))
      fun h => Option.some_ne_none _ ((if_pos hown).symm.trans h)
    obtain ⟨hin, hp⟩ := PtEntry.place_eq_frame.mp hpl
    refine ⟨j, ⟨e, he, hin, hp⟩, ?_⟩
    rintro k ⟨e', he', hin', hp'⟩
    exact huniq k e' he' (PtEntry.place_eq_frame.mpr ⟨hin', hp'⟩)

/-! ## A machine with three frames -/

def threeFrames (w : World) (slots : Nat) : Config :=
  ⟨boot w (fun _ => 0) (fun _ => 0) (5 * pageSize) pageSize (slots * pageSize), []⟩

theorem threeFrames_start (w : World) (slots : Nat) (hw : ∀ n, w.swapRead n = none) :
    system.start (threeFrames w slots) :=
  ⟨fresh_boot (by decide) (by decide) (by decide), hw, rfl⟩

def stackPage (k : Nat) : Nat := userStack - (stackPages - k) * pageSize

def loadProgram : List Call :=
  [.create (some 0) (some ⟨0, fun _ => 0⟩), .prepare 0, .switch (some 0)]

/-- The program writes to five pages of its stack in turn, for which there are two
frames. -/
def touchFive : List Call := (List.range 5).map fun k => .fault .write (stackPage k)

def performAll (c : Config) (calls : List Call) : Option Config :=
  calls.foldlM (perform (.proc 0)) c

theorem roomy_threeFrames (calls : List Call)
    (h : performAll (threeFrames .calm 4) calls = some c) : roomy.Reachable c := by
  have hstart : roomy.start (threeFrames .calm 4) := ⟨threeFrames_start _ _ fun _ => rfl, by decide⟩
  exact Transitions.foldlM_invariant calls
    (fun call _ c c' hr hs => hr.next (.inl ⟨_, call, hs⟩)) (.init hstart) h

/-- **Frame ownership**: in every run on a machine whose slots are numbered below its
first frame, page tables and coremap agree. -/
theorem frame_ownership (h : roomy.Reachable c) : FrameOwnership c.sys := by
  obtain ⟨P, g, hc⟩ := ok_of_reachable (ok_of_roomy h).1
  exact hc.frameOwnership

/-- Three of the five pages have been evicted. -/
theorem frame_ownership_threeFrames :
    ∃ c, performAll (threeFrames .calm 4) (loadProgram ++ touchFive) = some c ∧
      (c.sys.as 0).map (fun x => x.pt.countP (·.inSwap)) = some 3 ∧ FrameOwnership c.sys := by
  have hrun : (performAll (threeFrames .calm 4) (loadProgram ++ touchFive)).any
      (fun c => (c.sys.as 0).map (fun x => x.pt.countP (·.inSwap)) == some 3) = true := by
    decide +kernel
  obtain ⟨c, hc, hthree⟩ := (Option.any_eq_true _ _).mp hrun
  exact ⟨c, hc, beq_iff_eq.mp hthree, frame_ownership (roomy_threeFrames _ hc)⟩

/-! ## Slots -/

/-- Page tables and the bitmap of the swap file agree. -/
structure SlotOwnership (s : Sys) : Prop where
  marked : ∀ k : Nat, s.swapMap[k]? = some true ↔
    ∃ a j e, s.pte a j = some e ∧ e.inSwap = true ∧ e.paddr = k
  unshared : ∀ a b j k e e', s.pte a j = some e → s.pte b k = some e' → e.inSwap = true →
    e'.inSwap = true → e.paddr = e'.paddr → a = b ∧ j = k
  used : s.used % 2 ^ 16 = s.marked % 2 ^ 16

theorem Ok.place_of_inSwap (hc : Ok P g c) (he : c.sys.pte a j = some e) (hin : e.inSwap = true) :
    e.place = some (.slot e.paddr) := by
  have hpte : (own a g c.sys).pte j = some e := he
  rw [← Own.placeOf_eq hpte]
  exact ((hc.phase a).good_of_pte he).placeOf_of_inSwap he hin

theorem Ok.marked_iff (hc : Ok P g c) : c.sys.swapMap[k]? = some true ↔
    ∃ a j e, c.sys.pte a j = some e ∧ e.inSwap = true ∧ e.paddr = k := by
  constructor
  · intro hk
    obtain ⟨a, ha⟩ := Option.ne_none_iff_exists'.mp ((hc.inv.marked k).mp hk)
    obtain ⟨j, e, he, hpl, -⟩ := hc.tenant (a := a) (x := .slot k)
      fun h => Option.some_ne_none _ ((if_pos ha).symm.trans h)
    obtain ⟨-, hin, hp⟩ := PtEntry.place_eq_slot.mp hpl
    exact ⟨a, j, e, he, hin, hp⟩
  · rintro ⟨a, j, e, he, hin, rfl⟩
    exact (hc.inv.marked e.paddr).mpr (by simp [hc.slot_of_pte he hin])

theorem Ok.slot_unshared (hc : Ok P g c) (he : c.sys.pte a j = some e)
    (he' : c.sys.pte b k = some e') (hin : e.inSwap = true) (hin' : e'.inSwap = true)
    (hp : e.paddr = e'.paddr) : a = b ∧ j = k := by
  have hab : a = b := by
    have h1 := hc.slot_of_pte he hin
    rw [hp, hc.slot_of_pte he' hin'] at h1
    exact (Option.some.inj h1).symm
  subst hab
  have hpl := hc.place_of_inSwap he hin
  rw [hp] at hpl
  exact ⟨rfl, hc.alone he he' hpl (hc.place_of_inSwap he' hin')⟩

theorem Ok.slotOwnership (hc : Ok P g c) (hu : Meter.usage.val c.sys = 0) :
    SlotOwnership c.sys where
  marked _ := hc.marked_iff
  unshared _ _ _ _ _ _ := hc.slot_unshared
  used := (ZMod.natCast_eq_natCast_iff' _ _ _).mp (sub_eq_zero.mp hu)

theorem asPrepareLoad_ledger {r : Option Errno} (h : (asPrepareLoad a).run t s = .ok (r, s')) :
    ledger s' = ledger s := by
  obtain ⟨-, rfl⟩ | ⟨x, loc, s2, -, -, h2, ⟨-, -, rfl⟩ | ⟨-, -, -, rfl⟩⟩ := asPrepareLoad_cases h
  · rfl
  · obtain ⟨cm, o, rfl⟩ := ptAlloc_eq h2
    rfl
  · obtain ⟨cm, o, rfl⟩ := ptAlloc_eq h2
    rfl

/-- No call changes `used` without the bitmap. -/
theorem Ok.usage_step (hc : Ok P g c) (hs : system.step c c') :
    Meter.usage.val c'.sys = Meter.usage.val c.sys := by
  rcases hs with ⟨t, call, hcall⟩ | ⟨n, m, rfl⟩
  · cases performed hcall with
    | @switch x _ =>
        cases x with
        | none => rfl
        | some a => rfl
    | create h =>
        obtain ⟨-, -, n, rfl⟩ | ⟨a, v, -, -, -, -, -, rfl⟩ := asCreate_cases h
        · rfl
        · rfl
    | define _ _ h =>
        obtain ⟨-, -, rfl⟩ | ⟨-, -, x, -, rfl⟩ := asDefineRegion_cases h
        · rfl
        · rfl
    | prepare _ _ h => exact Meter.usage.congr c.sys _ (asPrepareLoad_ledger h)
    | fault _ _ h =>
        obtain ⟨-, hsame⟩ | ⟨-, hsame⟩ := Meter.usage.vmFault h
        · exact hsame
        · exact hsame.trans (add_zero _)
    | destroy _ h =>
        obtain ⟨x, -, -, hx, -⟩ := asDestroy_eq_ok h
        refine (Meter.usage.asDestroy hx h).trans ?_
        change _ + _ • -(0 : ZMod 65536) = _
        rw [neg_zero, smul_zero, add_zero]
    | alloc hfree h =>
        obtain ⟨-, -, -, -, hs'⟩ := allocKpages_takes hc.inv hfree h
        rw [hs']
        rfl
    | free hmem h =>
        obtain ⟨k, hk, hhome⟩ := hc.kernel _ hmem
        rw [hk] at h
        obtain ⟨e, -, hs', -⟩ := hc.inv.freeKpages hhome h
        rw [hs']
        rfl
  · rfl

/-- The bitmap of a machine that has just started has no marks, and nothing is used. -/
theorem usage_start (h : system.start c) : Meter.usage.val c.sys = 0 := by
  obtain ⟨hfresh, -⟩ := h
  have hm : c.sys.marked = 0 := by
    refine List.count_eq_zero.mpr fun htrue => ?_
    exact absurd (hfresh.swapMap _ htrue) nofun
  change ((c.sys.used : ZMod 65536) - c.sys.marked) = 0
  rw [hfresh.used, hm, sub_self]

theorem usage_of_reachable (h : unaliased.Reachable c) : Meter.usage.val c.sys = 0 := by
  refine (h.invariant (I := fun c => Meter.usage.val c.sys = 0 ∧ ∃ P g, Ok P g c)
    (fun c hc => ⟨usage_start hc, _, ok_of_start hc⟩) ?_).1
  rintro c c' ⟨hval, P, g, hc⟩ ⟨hs, hu⟩
  exact ⟨(hc.usage_step hs).trans hval, P, hc.step hu hs⟩

theorem Ok.good_of_hasTable (hc : Ok P g c) (h : hasTable c.sys a = true) :
    Good P (own a g c.sys) ∅ := by
  obtain ⟨x, n, hx, hn⟩ := hasTable_iff.mp h
  exact (hc.phase a).good_of_npages hx hn

/-- **Slot ownership**: in every run in which slots and frames are told apart, page
tables and bitmap agree, and neither the next fault nor the next `as_destroy` fails
one of the two assertions on the bitmap. -/
theorem slot_ownership (h : unaliased.Reachable c) :
    SlotOwnership c.sys ∧
      (∀ ty fa, allowed c (.fault ty fa) = true → c.sys.cur = some a → hasTable c.sys a = true →
        Unambiguous c.sys → ((vmFault ty fa).run t c.sys).StopsIn Tolerated) ∧
      (hasTable c.sys a = true → ((asDestroy a).run t c.sys).StopsIn Tolerated) := by
  obtain ⟨P, g, hc⟩ := ok_of_reachable h
  refine ⟨hc.slotOwnership (usage_of_reachable h), fun ty fa hall hcur htab hu => ?_, fun htab => ?_⟩
  · obtain ⟨hmiss, hfa⟩ := allowed_fault.mp hall
    have hg := hc.good_of_hasTable htab
    have hdoes : Does P a t c.sys.cur ⟨own a g c.sys, validTlb c.sys⟩ (vmFault ty fa) _ :=
      Does.vmFault hcur ⟨hg, hc.backed a hcur⟩ (hu.noAlias hcur hg) hmiss hfa
    exact hdoes.stopsIn hc.inv ⟨rfl, fun _ e he hv => ⟨he, hv⟩⟩ rfl
  · have hdoes : Does P a t c.sys.cur ⟨own a g c.sys, Set.univ⟩ (asDestroy a) _ :=
      Does.asDestroy (hc.good_of_hasTable htab)
    exact hdoes.stopsIn hc.inv ⟨rfl, fun _ _ _ _ => trivial⟩ rfl

theorem slot_ownership_threeFrames :
    ∃ c, performAll (threeFrames .calm 4) (loadProgram ++ touchFive) = some c ∧
      c.sys.marked = 3 ∧ SlotOwnership c.sys := by
  have hrun : (performAll (threeFrames .calm 4) (loadProgram ++ touchFive)).any
      (fun c => c.sys.marked == 3) = true := by
    decide +kernel
  obtain ⟨c, hc, hthree⟩ := (Option.any_eq_true _ _).mp hrun
  have h := slot_ownership (a := 0) (t := .proc 0) (ok_of_roomy (roomy_threeFrames _ hc)).1
  exact ⟨c, hc, beq_iff_eq.mp hthree, h.1⟩

/-! ## A slot number taken for the address of a frame -/

/-- A world in which slot `k` is handed out whenever it is free. -/
def World.preferring (k : Nat) : World :=
  { World.calm with
    bitmapAlloc := fun m => if m[k]? = some false then some k else firstClear m
    alloc_clear := by
      intro m i h
      split at h
      · cases h
        assumption
      · exact World.calm.alloc_clear m i h
    alloc_none := by
      intro m h
      split at h
      · cases h
      · exact World.calm.alloc_none m h }

/-- The call makes, loads or destroys no other address space than `a`. -/
def Call.spares (a : AsId) : Call → Bool
  | .create p _ => p == some a
  | .define b .. | .prepare b | .destroy b => b == a
  | .switch _ | .fault .. => true
  | .alloc _ | .free _ => false

theorem perform_as_none {call : Call} (hcall : call.spares a = true) (hb : b ≠ a)
    (hnone : c.sys.as b = none) (h : perform t c call = some c') : c'.sys.as b = none := by
  cases performed h with
  | @switch x _ =>
      cases x with
      | none => exact hnone
      | some a' => exact hnone
  | create h1 =>
      obtain ⟨-, -, n, rfl⟩ | ⟨a', v, rfl, -, -, -, -, rfl⟩ := asCreate_cases h1
      · exact hnone
      · obtain rfl : a' = a := by simpa [Call.spares] using hcall
        exact (Function.update_of_ne hb ..).trans hnone
  | @define a' _ _ _ _ _ _ _ _ _ _ _ h1 =>
      obtain rfl : a' = a := by simpa [Call.spares] using hcall
      obtain ⟨-, -, rfl⟩ | ⟨-, -, x, -, rfl⟩ := asDefineRegion_cases h1
      · exact hnone
      · exact (Function.update_of_ne hb ..).trans hnone
  | @prepare a' _ _ _ _ h1 =>
      obtain rfl : a' = a := by simpa [Call.spares] using hcall
      have hbefore : ∀ x, (c.sys.beforeTable t a' x).as b = none := fun x =>
        (Function.update_of_ne hb ..).trans hnone
      obtain ⟨-, rfl⟩ | ⟨x, loc, s2, -, -, h2, ⟨-, -, rfl⟩ | ⟨-, -, -, rfl⟩⟩ :=
        asPrepareLoad_cases h1
      · exact hnone
      · obtain ⟨cm, o, rfl⟩ := ptAlloc_eq h2
        exact hbefore x
      · obtain ⟨cm, o, rfl⟩ := ptAlloc_eq h2
        exact (Function.update_of_ne hb ..).trans (hbefore x)
  | fault _ _ h1 => simpa [tableOf, hnone] using congrFun (vmFault_tableOf h1) b
  | @destroy a' _ _ _ h1 =>
      obtain rfl : a' = a := by simpa [Call.spares] using hcall
      obtain ⟨x, n, s2, -, -, h2, rfl⟩ := asDestroy_eq_ok h1
      refine (Function.update_of_ne hb ..).trans ?_
      obtain ⟨-, rfl⟩ | ⟨-, e, -, rfl⟩ := freepages_eq_ok h2
      · exact hnone
      · exact hnone
  | alloc _ _ => cases hcall
  | free _ _ => cases hcall

/-- The second frame of the machine with three frames is at this address. -/
def aliased : Nat := 3 * pageSize

set_option maxRecDepth 100000 in
/-- **Slots and frames confused**: the first page goes to the slot whose number is the
address of the second frame, where the third page then lives. When that frame is
evicted, the scan of `getPage` finds the first page instead, and its slot is lost. -/
theorem slot_number_taken_for_frame : ∃ c, system.Reachable c ∧ ¬ SlotOwnership c.sys := by
  have hrun : (performAll (threeFrames (World.preferring aliased) (aliased + 1))
      (loadProgram ++ touchFive)).any (fun c => c.sys.swapMap[aliased]? == some true &&
        (c.sys.as 0).all fun x => x.pt.all fun e => !(e.inSwap && e.paddr == aliased)) = true := by
    decide +kernel
  obtain ⟨c, hc, hcheck⟩ := (Option.any_eq_true _ _).mp hrun
  obtain ⟨hmark, hno⟩ := Bool.and_eq_true_iff.mp hcheck
  have hstart := threeFrames_start (World.preferring aliased) (aliased + 1) fun _ => rfl
  have hreach : system.Reachable c := Transitions.foldlM_invariant _
    (fun call _ c c' hr hs => hr.next (.inl ⟨_, call, hs⟩)) (.init hstart) hc
  have hothers : ∀ b, b ≠ 0 → c.sys.as b = none := by
    intro b hb
    refine Transitions.foldlM_invariant (I := fun c => c.sys.as b = none) _
      (fun call hcall c c' hn hs => perform_as_none (a := 0) ?_ hb hn hs) rfl hc
    exact List.all_eq_true.mp (by decide : (loadProgram ++ touchFive).all (·.spares 0) = true)
      call hcall
  refine ⟨c, hreach, fun h => ?_⟩
  obtain ⟨a, j, e, he, hin, hp⟩ := (h.marked aliased).mp (beq_iff_eq.mp hmark)
  obtain ⟨x, hx, hj⟩ := Option.bind_eq_some_iff.mp he
  by_cases ha : a = 0
  · subst ha
    rw [hx] at hno
    have := List.all_eq_true.mp hno e (List.mem_of_getElem? hj)
    simp [hin, hp] at this
  · rw [hothers a ha] at hx
    cases hx

end Calls

end Os161Paging
