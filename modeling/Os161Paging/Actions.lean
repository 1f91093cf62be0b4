import Os161Paging.Footprint
import Os161Paging.Moves

/-!
# The actions of the kernel in the logic of shares

The rely-guarantee logic of `Views`, with the address spaces as agents. An
address space sees its share, and, while it is the one that runs, that the
valid entries of the TLB are among those it knows of. There is one triple
per action of the kernel; what is proved about programs from here on
mentions shares only.
-/

namespace Os161Paging

open Prog

/-! ## The instance -/

/-- What an address space knows: its share, and which entries the TLB may hold
while it runs. -/
structure View where
  own : Own
  tlb : Set TlbEntry

/-- The ways an action may fail to return: anything but an undefined operation
and the two assertions on the bitmap of the swap file. -/
def Tolerated : Outcome Lock Empty → Prop
  | .undefined => False
  | .panic m => m ≠ "KASSERT: bitmap_isset(swapMap, *swap_paddr) != 0" ∧
      m ≠ "KASSERT: bitmap_unmark"
  | _ => True

def shares (P : Layout) : Views AsId Tid Sys Lock Ghost View where
  inv := Inv P
  sees a v g s := own a g s = v.own ∧ (s.cur = some a → ∀ e ∈ s.tlb, e.valid = true → e ∈ v.tlb)
  law g s g' := g'.mem = s.observe g.mem ∧ g.Keeps g'
  stops _ _ := Tolerated

/-- The thread `t` working on the address space `a` while `cur` is the current one. -/
def worker (a : AsId) (t : Tid) (cur : Option AsId) : Role AsId Tid Sys := ⟨a, t, (·.cur = cur)⟩

abbrev Does (P : Layout) (a : AsId) (t : Tid) (cur : Option AsId) {α : Type} (v : View) (p : VM α)
    (Φ : α → View → Prop) : Prop :=
  (shares P).Triple (worker a t cur) v p Φ

namespace Does

open Views.Triple (andThen knowing reading)

variable {P : Layout} {a : AsId} {t : Tid} {cur : Option AsId} {α : Type} {v : View} {p : VM α}
  {Φ : α → View → Prop}

/-- The outcome of a call for `a` with nobody else running. -/
structure Called (P : Layout) (a : AsId) (g : Ghost) (s : Sys) (g' : Ghost) (s' : Sys) (v : View) :
    Prop where
  inv : Inv P g' s'
  cur : s'.cur = s.cur
  rely : ∀ b, b ≠ a → (shares P).Rely b g s g' s'
  keeps : g.Keeps g'
  own : own a g' s' = v.own
  tlb : s'.cur = some a → ∀ e ∈ s'.tlb, e.valid = true → e ∈ v.tlb

theorem own_of_rely {b : AsId} {g g' : Ghost} {s s' : Sys} (h : (shares P).Rely b g s g' s') :
    own b g' s' = own b g s :=
  (h.2 ⟨own b g s, Set.univ⟩ ⟨rfl, fun _ _ _ _ => trivial⟩).1

theorem Called.others {g g' : Ghost} {s s' : Sys} (h : Called P a g s g' s' v) (b : AsId)
    (hb : b ≠ a) : Os161Paging.own b g' s' = Os161Paging.own b g s :=
  own_of_rely (h.rely b hb)

/-- Work on an address space leaves the blocks of the kernel alone. -/
theorem keeps_of_lawful {g g' : Ghost} (h : (shares P).Lawful g g') : g.Keeps g' := by
  induction h with
  | refl => exact fun _ _ hk => hk
  | tail _ hs ih =>
      obtain ⟨s, -, hkeeps⟩ := hs
      exact fun k h hk => hkeeps k h (ih k h hk)

theorem call {g : Ghost} {s s' : Sys} {x : α} (h : Does P a t cur v p Φ) (hi : Inv P g s)
    (hs : (shares P).sees a v g s) (hc : s.cur = cur) (hrun : p.run t s = .ok (x, s')) :
    ∃ g' v', Called P a g s g' s' v' ∧ Φ x v' := by
  obtain ⟨g', v', hc', hguar, hlaw, ⟨hown, htlb⟩, hΦ⟩ := h.run hi hs hc hrun
  exact ⟨g', v', ⟨hguar.1, hc'.trans hc.symm, fun b hb => hguar.rely hb, keeps_of_lawful hlaw, hown,
    htlb⟩, hΦ⟩

theorem stopsIn {g : Ghost} {s : Sys} (h : Does P a t cur v p Φ) (hi : Inv P g s)
    (hs : (shares P).sees a v g s) (hc : s.cur = cur) : (p.run t s).StopsIn Tolerated :=
  Views.wp_run_stops (r := worker a t cur) (fun _ _ ho => ho) (h g s hi hs) hc

/-- An action that leaves the TLB alone. -/
theorem move (hp : p.IsAction)
    (hstop : ∀ g s, Inv P g s → own a g s = v.own → (p.run t s).StopsIn Tolerated)
    (h : ∀ g s x s', Inv P g s → own a g s = v.own → s.cur = cur →
      p.run t s = .ok (x, s') → ∃ g', Move P a g s g' s' ∧ Φ x ⟨own a g' s', v.tlb⟩) :
    Does P a t cur v p Φ := by
  refine Views.Triple.action hp fun g s hi hs hc => ⟨hstop g s hi hs.1, fun x s' hrun => ?_⟩
  obtain ⟨g', hm, hΦ⟩ := h g s x s' hi hs.1 hc hrun
  refine ⟨hm.cur.trans hc, g', _, ⟨hm.law, hm.keeps⟩, ⟨hm.inv, fun b hb w hw => ?_⟩,
    ⟨rfl, ?_⟩, hΦ⟩
  · refine ⟨(hm.others b hb).trans hw.1, ?_⟩
    rw [hm.cur, hm.tlb]
    exact hw.2
  · rw [hm.cur, hm.tlb]
    exact hs.2

/-- An action that the shares do not notice. -/
theorem silent (hp : p.IsAction)
    (hstop : ∀ g s, Inv P g s → own a g s = v.own → (p.run t s).StopsIn Tolerated)
    (h : ∀ g s x s', Inv P g s → own a g s = v.own → s.cur = cur →
      p.run t s = .ok (x, s') → s'.core = s.core ∧ Φ x v) :
    Does P a t cur v p Φ := by
  refine move hp hstop fun g s x s' hi hs hc hrun => ?_
  obtain ⟨hcore, hΦ⟩ := h g s x s' hi hs hc hrun
  refine ⟨g, (Move.refl hi).core_congr hcore, ?_⟩
  rw [own_core_congr hcore, hs]
  exact hΦ

/-! ## Locks and counters -/

theorem grab {l : Lock} {m : String} (hm : Tolerated (.panic m)) :
    Does P a t cur v (grab l m) fun _ v' => v' = v := by
  refine silent (isAction_exec _) (fun g s _ _ => ?_) fun g s x s' _ _ _ h => ?_
  · rw [Os161Paging.grab, run_exec]
    split
    · trivial
    · split
      · exact hm
      · trivial
  · rw [(grab_eq_ok.mp h).2]
    exact ⟨rfl, rfl⟩

theorem letGo {l : Lock} {m : String} (hm : Tolerated (.panic m)) :
    Does P a t cur v (letGo l m) fun _ v' => v' = v := by
  refine silent (isAction_exec _) (fun g s _ _ => ?_) fun g s x s' _ _ _ h => ?_
  · rw [Os161Paging.letGo, run_exec]
    split
    · trivial
    · exact hm
  · rw [(letGo_eq_ok.mp h).2]
    exact ⟨rfl, rfl⟩

theorem lockAcquire {l : Lock} : Does P a t cur v (lockAcquire l) fun _ v' => v' = v :=
  grab (by simp [Tolerated])

theorem lockRelease {l : Lock} : Does P a t cur v (lockRelease l) fun _ v' => v' = v :=
  letGo (by simp [Tolerated])

theorem spinlockAcquire {l : Lock} : Does P a t cur v (spinlockAcquire l) fun _ v' => v' = v :=
  grab (by simp [Tolerated])

theorem spinlockRelease {l : Lock} : Does P a t cur v (spinlockRelease l) fun _ v' => v' = v :=
  letGo (by simp [Tolerated])

theorem canSleep : Does P a t cur v canSleep fun _ v' => v' = v := by
  refine silent (isAction_exec _) (fun g s _ _ => ?_) fun g s x s' _ _ _ h => ?_
  · rw [Os161Paging.canSleep, run_exec]
    split
    · simp [Outcome.StopsIn, Tolerated]
    · trivial
  · rw [(canSleep_eq_ok.mp h).2]
    exact ⟨rfl, rfl⟩

theorem gets {ρ : Type} {f : Sys → ρ} {Q : ρ → Prop}
    (hQ : ∀ g s, Inv P g s → own a g s = v.own → s.cur = cur → Q (f s)) :
    Does P a t cur v (Prog.gets f) fun x v' => v' = v ∧ Q x := by
  refine silent (isAction_exec _) (fun _ _ _ _ => trivial) fun g s x s' hi hs hc h => ?_
  obtain ⟨rfl, hs'⟩ := gets_eq_ok.mp h
  rw [hs']
  exact ⟨rfl, rfl, hQ g s hi hs hc⟩

theorem modify_core {f : Sys → Sys} (hf : ∀ s, (f s).core = s.core) :
    Does P a t cur v (Prog.modify f) fun _ v' => v' = v := by
  refine silent (isAction_exec _) (fun _ _ _ _ => trivial) fun g s x s' _ _ _ h => ?_
  rw [modify_eq_ok.mp h]
  exact ⟨hf s, rfl⟩

theorem vmStatsInc {i : Stat} : Does P a t cur v (vmStatsInc i) fun _ v' => v' = v := by
  refine andThen ?_ fun can => ?_
  · refine silent (isAction_exec _) (fun _ _ _ _ => trivial) fun g s x s' _ _ _ h => ?_
    rw [(canLock_eq_ok.mp h).2]
    exact ⟨rfl, rfl⟩
  · refine Views.Triple.ite (fun _ => ?_) fun _ => modify_core fun _ => rfl
    exact andThen lockAcquire fun _ => andThen (modify_core fun _ => rfl) fun _ => lockRelease

theorem getAvailableSwap : Does P a t cur v getAvailableSwap fun _ v' => v' = v :=
  andThen lockAcquire fun _ => knowing (Q := fun _ => True) (gets fun _ _ _ _ _ => trivial)
    fun _ _ => andThen lockRelease fun _ => Views.Triple.pure rfl

/-! ## From a share to the state -/

section

variable {g : Ghost} {s : Sys} {o : Own} (hs : own a g s = o)
include hs

theorem as_of_own {x : Addrspace} (hx : o.as = some x) : s.as a = some x := by
  subst hs
  exact hx

theorem pte_of_own {j : Nat} {e : PtEntry} (he : o.pte j = some e) : s.pte a j = some e := by
  subst hs
  exact he

theorem frame_of_own {q : Nat} {d : Page} (hd : o.val (.frame q) = some d) :
    s.frameOwner q = some a ∧ s.ram.page q = d := by
  subst hs
  exact Option.ite_none_right_eq_some.mp hd |>.imp_right Option.some.inj

theorem slot_of_own {k : Nat} {d : Page} (hd : o.val (.slot k) = some d) :
    g.slotOwner k = some a ∧ s.slotPage k = d := by
  subst hs
  exact Option.ite_none_right_eq_some.mp hd |>.imp_right Option.some.inj

end

/-! ## The page table -/

variable {x : Addrspace} {j : Nat} {e : PtEntry}

theorem getAs (hx : v.own.as = some x) :
    Does P a t cur v (getAs a) fun y v' => v' = v ∧ y = x := by
  refine silent (isAction_exec _) (fun g s _ hs => ?_) fun g s y s' _ hs _ h => ?_
  · rw [Os161Paging.getAs, run_exec, as_of_own hs hx]
    trivial
  · obtain ⟨hy, hs'⟩ := getAs_eq_ok.mp h
    rw [hs']
    exact ⟨rfl, rfl, Option.some.inj (hy.symm.trans (as_of_own hs hx))⟩

theorem getPte (he : v.own.pte j = some e) :
    Does P a t cur v (getPte a j) fun y v' => v' = v ∧ y = e := by
  refine silent (isAction_exec _) (fun g s _ hs => ?_) fun g s y s' _ hs _ h => ?_
  · rw [Os161Paging.getPte, run_exec, pte_of_own hs he]
    trivial
  · obtain ⟨hy, hs'⟩ := getPte_eq_ok.mp h
    rw [hs']
    exact ⟨rfl, rfl, Option.some.inj (hy.symm.trans (pte_of_own hs he))⟩

theorem findSegment {fa : Nat} {r : Segment × Nat × Bool} (hx : v.own.as = some x)
    (hr : walkSegments fa x.asSegment 0 = some r) :
    Does P a t cur v (findSegment a fa) fun y v' => v' = v ∧ y = r := by
  refine silent (isAction_exec _) (fun g s _ hs => ?_) fun g s y s' _ hs _ h => ?_
  · rw [Os161Paging.findSegment, run_exec, as_of_own hs hx]
    simp only [hr]
    trivial
  · obtain ⟨⟨x', hx', hy⟩, hs'⟩ := findSegment_eq_ok.mp h
    obtain rfl := Option.some.inj (hx'.symm.trans (as_of_own hs hx))
    rw [hs']
    exact ⟨rfl, rfl, Option.some.inj (hy.symm.trans hr)⟩

theorem findPage {fa np n : Nat} (hx : v.own.as = some x) (hn : np + n ≤ x.pt.length) :
    Does P a t cur v (findPage a fa np n) fun y v' => v' = v ∧ y = scanSlice x.pt fa np n := by
  refine silent (isAction_exec _) (fun g s _ hs => ?_) fun g s y s' _ hs _ h => ?_
  · rw [Os161Paging.findPage, run_exec, as_of_own hs hx]
    simp only [if_pos hn]
    trivial
  · obtain ⟨⟨x', hx', -, hy⟩, hs'⟩ := findPage_eq_ok.mp h
    obtain rfl := Option.some.inj (hx'.symm.trans (as_of_own hs hx))
    rw [hs']
    exact ⟨rfl, rfl, hy⟩

theorem findPaddr {q n : Nat} (hx : v.own.as = some x) (hn : x.npages = some n) :
    Does P a t cur v (findPaddr a q) fun y v' =>
      v' = v ∧ y = (x.pt.take n).findIdx? fun e => e.paddr == q := by
  refine silent (isAction_exec _) (fun g s _ hs => ?_) fun g s y s' _ hs _ h => ?_
  · rw [Os161Paging.findPaddr, run_exec, as_of_own hs hx]
    simp only [hn]
    trivial
  · obtain ⟨⟨x', n', hx', hn', hy⟩, hs'⟩ := findPaddr_eq_ok.mp h
    obtain rfl := Option.some.inj (hx'.symm.trans (as_of_own hs hx))
    obtain rfl := Option.some.inj (hn'.symm.trans hn)
    rw [hs']
    exact ⟨rfl, rfl, hy⟩

/-- A write to a page-table entry that does not make the page resident. -/
theorem updPte {f : PtEntry → PtEntry} (he : v.own.pte j = some e)
    (hf : ∀ e, (f e).inMem = true → e.inMem = true) :
    Does P a t cur v (updPte a j f) fun _ v' => v' = ⟨v.own.modPte j f, v.tlb⟩ := by
  refine move (isAction_exec _) (fun g s _ hs => ?_) fun g s y s' hi hs _ h => ?_
  · rw [Os161Paging.updPte, run_exec, pte_of_own hs he]
    trivial
  · obtain ⟨-, rfl⟩ := updPte_eq_ok.mp h
    obtain ⟨x, hx, -⟩ := Option.bind_eq_some_iff.mp (pte_of_own hs he)
    obtain ⟨hm, ho⟩ := hi.modPte hf hx
    exact ⟨g, hm, by rw [ho, hs]⟩

/-- The write that makes a page resident, with its contents in a frame of `a`. -/
theorem updPte_inMem {d : Page} (he : v.own.pte j = some e)
    (hd : v.own.val (.frame e.paddr) = some d) :
    Does P a t cur v (Os161Paging.updPte a j fun e => { e with inMem := true }) fun _ v' =>
      v' = ⟨(v.own.modPte j fun e => { e with inMem := true }).see j d, v.tlb⟩ := by
  refine move (isAction_exec _) (fun g s _ hs => ?_) fun g s y s' hi hs _ h => ?_
  · rw [Os161Paging.updPte, run_exec, pte_of_own hs he]
    trivial
  · obtain ⟨-, rfl⟩ := updPte_eq_ok.mp h
    obtain ⟨g', hm, ho⟩ := hi.makeResident (pte_of_own hs he)
    exact ⟨g', hm, by rw [ho, hs, (frame_of_own hs hd).2]⟩

/-! ## Contents of frames -/

variable {q : Nat} {d : Page}

/-- An action whose whole effect is on the contents of the frame at `q`. -/
theorem fill (hp : p.IsAction) (hd : v.own.val (.frame q) = some d) {Q : α → Page → Prop}
    (hstop : ∀ g s, Inv P g s → own a g s = v.own → (p.run t s).StopsIn Tolerated)
    (h : ∀ g s y s', Inv P g s → own a g s = v.own → p.run t s = .ok (y, s') →
      ∃ m, s'.core = { s.core with ram := m } ∧
        (∀ z, (z < q ∨ q + pageSize ≤ z) → m z = s.ram z) ∧ Q y (m.page q)) :
    Does P a t cur v p fun y v' => ∃ d', v' = ⟨v.own.set (.frame q) (some d'), v.tlb⟩ ∧ Q y d' := by
  refine move hp hstop fun g s y s' hi hs _ hrun => ?_
  obtain ⟨m, hcore, hm, hQ⟩ := h g s y s' hi hs hrun
  obtain ⟨hmove, ho⟩ := hi.setRam (frame_of_own hs hd).1 hm
  refine ⟨g, hmove.core_congr hcore, m.page q, ?_, hQ⟩
  rw [own_core_congr (s := { s with ram := m }) hcore, ho, hs]

theorem bzero (hd : v.own.val (.frame q) = some d) :
    Does P a t cur v (Prog.modify fun s => { s with ram := s.ram.bzero q pageSize }) fun _ v' =>
      ∃ d', v' = ⟨v.own.set (.frame q) (some d'), v.tlb⟩ ∧ True := by
  refine fill (isAction_exec _) hd (fun _ _ _ _ => trivial) fun g s y s' _ _ h => ?_
  rw [modify_eq_ok.mp h]
  exact ⟨_, rfl, fun z hz => if_neg (by omega), trivial⟩

theorem loadSegment_isAction {vn : Vnode} {offset paddr m n : Nat} :
    (loadSegment vn offset paddr m n).IsAction := by
  refine (isAction_exec _).bind fun r => ?_
  cases r with
  | error err => exact ⟨_, rfl⟩
  | ok resid => exact ⟨_, rfl⟩

theorem loadSegment_swap {k : Nat} {d' : Page} (hd : v.own.val (.frame q) = some d)
    (hk : v.own.val (.slot k) = some d') :
    Does P a t cur v (loadSegment .swapFile (wrap (k * pageSize)) q pageSize pageSize) fun r v' =>
      ∃ d1, v' = ⟨v.own.set (.frame q) (some d1), v.tlb⟩ ∧
        r = none ∧ (P.slots ≤ 2 ^ 20 → d1 = d') := by
  refine fill loadSegment_isAction hd (fun g s hi hs => ?_) fun g s r s' hi hs h => ?_
  · exact .of_ok (loadSegment_swap_eq_ok.mpr ⟨rfl, rfl⟩)
  · obtain ⟨hr, rfl⟩ := loadSegment_swap_eq_ok.mp h
    obtain ⟨hown, hpage⟩ := slot_of_own hs hk
    have hlt := hi.slot_lt hown
    rw [hi.reads] at hr
    refine ⟨s.ram.copy q s.disk (wrap (k * pageSize)) pageSize, ?_, fun z hz => if_neg (by omega),
      hr, fun hsmall => ?_⟩
    · simp only [Sys.core, Sys.readSwap, hi.reads, if_true]
    · rw [← hpage, Sys.slotPage, if_pos (by rw [hi.slots]; exact hsmall)]
      funext o
      have ho := o.isLt
      have hoff : wrap (k * pageSize) = k * pageSize := by
        rw [wrap, Nat.mod_eq_of_lt (by rw [pageSize_eq]; omega)]
      simp only [Mem.page, Mem.copy, hoff]
      rw [if_pos (by omega)]
      congr 1
      omega

theorem loadElfOndemand {seg : Segment} {fa : Nat} (hx : v.own.as = some x)
    (hd : v.own.val (.frame q) = some d) (hlo : q ≤ (ondemandArgs seg q fa).paddr)
    (hhi : (ondemandArgs seg q fa).paddr +
      min (ondemandArgs seg q fa).filesize (ondemandArgs seg q fa).memsize ≤ q + pageSize) :
    Does P a t cur v (loadElfOndemand a seg q fa) fun _ v' =>
      ∃ d', v' = ⟨v.own.set (.frame q) (some d'), v.tlb⟩ ∧ True := by
  refine fill loadSegment_isAction hd (fun g s hi hs => ?_) fun g s r s' hi hs h => ?_
  · exact .of_ok (loadSegment_exe_eq_ok.mpr ⟨x, as_of_own hs hx, rfl, rfl⟩)
  · obtain ⟨x', -, -, rfl⟩ := loadSegment_exe_eq_ok.mp h
    generalize ondemandArgs seg q fa = args at hlo hhi
    refine ⟨(s.readElf x'.v args.offset args.paddr (min args.filesize args.memsize)).ram, rfl,
      fun z hz => ?_, trivial⟩
    simp only [Sys.readElf]
    split
    · have : x'.v.avail args.offset (min args.filesize args.memsize) ≤
          min args.filesize args.memsize := Nat.min_le_left ..
      exact if_neg (by omega)
    · rfl

/-! ## Slots -/

variable {k : Nat}

theorem freeSlot (hp : p.IsAction) (hk : v.own.val (.slot k) = some d)
    (hok : ∀ s, s.swapMap[k]? = some true →
      ∃ x s', p.run t s = .ok (x, s') ∧ s'.core = (s.setSlot k false).core) :
    Does P a t cur v p fun _ v' => v' = ⟨v.own.set (.slot k) none, v.tlb⟩ := by
  have hmarked : ∀ g s, Inv P g s → own a g s = v.own → s.swapMap[k]? = some true := by
    intro g s hi hs
    exact (hi.marked k).mpr (by simp [(slot_of_own hs hk).1])
  refine move hp (fun g s hi hs => ?_) fun g s x s' hi hs _ h => ?_
  · obtain ⟨x, s', hrun, -⟩ := hok s (hmarked g s hi hs)
    exact .of_ok hrun
  · obtain ⟨y, s1, hrun, hcore⟩ := hok s (hmarked g s hi hs)
    cases hrun.symm.trans h
    have hown := (slot_of_own hs hk).1
    obtain ⟨hm, ho⟩ := hi.setSlot (a := a) (o := none) (hi.slot_lt hown)
      (fun b hb => Option.some.inj (hb.symm.trans hown)) nofun
    refine ⟨_, hm.core_congr hcore, ?_⟩
    rw [own_core_congr hcore, ← hs]
    exact congrArg (View.mk · v.tlb) ho

theorem leaveSlot (hk : v.own.val (.slot k) = some d) :
    Does P a t cur v (leaveSlot k true) fun _ v' => v' = ⟨v.own.set (.slot k) none, v.tlb⟩ :=
  freeSlot (isAction_exec _) hk fun _ hm =>
    ⟨(), _, leaveSlot_eq_ok.mpr ⟨hm, rfl⟩, Sys.core_decUsed _⟩

theorem bitmapUnmark (hk : v.own.val (.slot k) = some d) :
    Does P a t cur v (bitmapUnmark k) fun _ v' => v' = ⟨v.own.set (.slot k) none, v.tlb⟩ :=
  freeSlot (isAction_exec _) hk fun _ hm => ⟨(), _, bitmapUnmark_eq_ok.mpr ⟨hm, rfl⟩, rfl⟩

theorem bitmapAlloc :
    Does P a t cur v bitmapAlloc fun r v' => r = none ∧ v' = v ∨
      ∃ k d, r = some k ∧ v.own.val (.slot k) = none ∧ k < P.slots ∧
        v' = ⟨v.own.set (.slot k) (some d), v.tlb⟩ := by
  refine move (isAction_exec _) (fun g s hi hs => ?_) fun g s r s' hi hs _ h => ?_
  · exact .of_ok (bitmapAlloc_eq_ok.mpr ⟨rfl, rfl⟩)
  · obtain ⟨hr, rfl⟩ := bitmapAlloc_eq_ok.mp h
    cases r with
    | none => exact ⟨g, .refl hi, .inl ⟨rfl, by rw [Option.elim_none, hs]⟩⟩
    | some k =>
        have hclear := s.world.alloc_clear s.swapMap k hr.symm
        have hnone : g.slotOwner k = none := by
          by_contra hne
          rw [(hi.marked k).mpr hne] at hclear
          cases hclear
        have hlt : k < P.slots := by
          rw [← hi.slots]
          exact (List.getElem?_eq_some_iff.mp hclear).1
        obtain ⟨hm, ho⟩ := hi.setSlot (a := a) (o := some a) hlt (by simp [hnone]) (by simp)
        refine ⟨_, hm, .inr ⟨k, s.slotPage k, rfl, ?_, hlt, ?_⟩⟩
        · rw [← hs]
          exact if_neg (by simp [hnone])
        · rw [← hs]
          exact congrArg (View.mk · v.tlb) ho

theorem vopWrite {d' : Page} (hq : v.own.val (.frame q) = some d')
    (hk : v.own.val (.slot k) = some d) :
    Does P a t cur v (vopWrite q (wrap (k * pageSize))) fun _ v' =>
      ∃ d1, v' = ⟨v.own.set (.slot k) (some d1), v.tlb⟩ ∧ (P.slots ≤ 2 ^ 20 → d1 = d') := by
  refine move (isAction_exec _) (fun g s hi hs => ?_) fun g s _ s' hi hs _ h => ?_
  · rw [Os161Paging.vopWrite, run_exec]
    split
    · simp [Outcome.StopsIn, Tolerated]
    · trivial
  · obtain ⟨-, rfl⟩ := vopWrite_eq_ok.mp h
    obtain ⟨d1, hm, ho, hd1⟩ := hi.writeSlot (p := q) (slot_of_own hs hk).1
    refine ⟨g, hm, d1, by rw [ho, hs], fun hsmall => ?_⟩
    rw [hd1 hsmall, (frame_of_own hs hq).2]

/-! ## Frames -/

theorem frameAddr {i : Nat} (h : i < P.frames) :
    Does P a t cur v (Prog.gets (·.frameAddr i)) fun r v' => v' = v ∧ r = P.addr i :=
  gets fun _ _ hi _ _ => hi.frameAddr_eq h

theorem claimFree {fa : Nat} (hfa : fa.testBit 0 = false) :
    Does P a t cur v (claimFree false fa (some a)) fun r v' => r = none ∧ v' = v ∨
      ∃ i d, r = some i ∧ i < P.frames ∧ v.own.val (.frame (P.addr i)) = none ∧
        v' = ⟨v.own.set (.frame (P.addr i)) (some d), v.tlb⟩ := by
  refine move (isAction_exec _) (fun g s hi hs => ?_) fun g s r s' hi hs _ h => ?_
  · exact .of_ok (claimFree_eq_ok.mpr ⟨rfl, rfl⟩)
  · obtain ⟨hr, rfl⟩ := claimFree_eq_ok.mp h
    cases r with
    | none => exact ⟨g, .refl hi, .inl ⟨rfl, by rw [Option.elim_none, hs]⟩⟩
    | some i =>
        have hfree := firstFree_eq_some hr.symm
        have hlt : i < P.frames := hi.frames ▸ freeAt_lt hfree
        obtain ⟨hnone, hm, ho⟩ := hi.claim (a := a) hfree hfa
        rw [hi.frameAddr_eq hlt] at hnone ho
        refine ⟨g, hm, .inr ⟨i, s.ram.page (P.addr i), rfl, hlt, ?_, ?_⟩⟩
        · rw [← hs]
          exact hnone
        · rw [← hs]
          exact congrArg (View.mk · v.tlb) ho

theorem findVictim :
    Does P a t cur v (findVictim a) fun i v' =>
      v' = v ∧ i < P.frames ∧ v.own.val (.frame (P.addr i)) ≠ none := by
  refine silent (isAction_exec _) (fun g s hi hs => ?_) fun g s i s' hi hs _ h => ?_
  · rw [Os161Paging.findVictim, run_exec]
    split <;> trivial
  · obtain ⟨next, hv, rfl⟩ := findVictim_eq_ok.mp h
    obtain ⟨e, he, hev⟩ := victimLoop_evictable hv
    have hlt : i < P.frames := hi.frames ▸ (List.getElem?_eq_some_iff.mp he).1
    simp only [CEntry.evictable, Bool.and_eq_true, beq_iff_eq] at hev
    refine ⟨rfl, rfl, hlt, ?_⟩
    have hown : s.frameOwner (P.addr i) = some a := Sys.frameOwner_eq_some.mpr
      ⟨i, e, he, hev.2, by rw [Layout.addr, hi.firstpaddr]⟩
    rw [← hs]
    change (if s.frameOwner (P.addr i) = some a then _ else none) ≠ none
    rw [if_pos hown]
    exact Option.some_ne_none _

theorem emptyBlock {h : Nat} (hh : h ∈ v.own.table) :
    Does P a t cur v (emptyBlock h) fun _ v' =>
      v' = ⟨{ v.own with table := v.own.table \ {h} }, v.tlb⟩ := by
  have hhome : ∀ g s, own a g s = v.own → g.home h = some (h, some a) := by
    intro g s hs
    rw [← hs] at hh
    exact hh
  refine move (isAction_exec _) (fun g s hi hs => ?_) fun g s _ s' hi hs _ hrun => ?_
  · obtain ⟨e, he, -⟩ := hi.block h h _ (hhome g s hs)
    obtain ⟨hle, -⟩ := hi.emptyRun (hhome g s hs) he
    exact .of_ok (emptyBlock_eq_ok (u := ()) |>.mpr ⟨e, he, hle, rfl⟩)
  · obtain ⟨e, he, -, rfl⟩ := emptyBlock_eq_ok.mp hrun
    obtain ⟨-, hinv, ho⟩ := hi.emptyRun (hhome g s hs) he
    refine ⟨_, ⟨hinv, hinv.observed.symm, fun b hb => ?_, rfl, rfl, fun k h' hk => ?_⟩, ?_⟩
    · rw [ho, if_neg fun h => hb (Option.some.inj h).symm]
    · simp [Ghost.dropBlock, hk]
    · rw [ho, if_pos rfl, hs]

theorem freeAs :
    Does P a t cur v (freeAs a) fun _ v' => v' = ⟨v.own.dropFrames, v.tlb⟩ := by
  refine andThen spinlockAcquire fun _ => Views.Triple.bind
    (Φ := fun _ v' => v' = ⟨v.own.dropFrames, v.tlb⟩) ?_ ?_
  · refine move (isAction_exec _) (fun _ _ _ _ => trivial) fun g s _ s' hi hs _ hrun => ?_
    obtain ⟨hm, ho⟩ := hi.freeAs (a := a) rfl
    rw [modify_eq_ok.mp hrun]
    exact ⟨g, hm, by rw [ho, hs]⟩
  · rintro _ _ rfl
    exact spinlockRelease

theorem removeAs :
    Does P a t cur v (Prog.modify fun s => { s with as := Function.update s.as a none }) fun _ v' =>
      v' = ⟨{ v.own with as := none, mem := fun _ => none }, v.tlb⟩ := by
  refine move (isAction_exec _) (fun _ _ _ _ => trivial) fun g s _ s' hi hs _ hrun => ?_
  obtain ⟨g', hm, ho⟩ := hi.removeAs (a := a)
  rw [modify_eq_ok.mp hrun]
  exact ⟨g', hm, by rw [ho, hs]⟩

/-! ## The TLB -/

/-- An action on the TLB: if `a` runs, its valid entries are afterwards among those in
`T`, and otherwise there is none that was not there before. -/
theorem setTlb (hp : p.IsAction) {T : Set TlbEntry} (hstop : ∀ s, (p.run t s).StopsIn Tolerated)
    (h : ∀ s x s', TlbWf s.tlb → s.cur = cur →
      (s.cur = some a → ∀ e ∈ s.tlb, e.valid = true → e ∈ v.tlb) →
      p.run t s = .ok (x, s') → ∃ tlb, s'.core = { s.core with tlb := tlb } ∧ TlbWf tlb ∧
        (s.cur = some a → ∀ e ∈ tlb, e.valid = true → e ∈ T) ∧
        (s.cur ≠ some a → ∀ e ∈ tlb, e.valid = true → e ∈ s.tlb)) :
    Does P a t cur v p fun _ v' => v' = ⟨v.own, T⟩ := by
  refine Views.Triple.action hp fun g s hi hs hcur => ⟨hstop s, fun x s' hrun => ?_⟩
  obtain ⟨tlb, hcore, hwf, hmine, hothers⟩ := h s x s' hi.tlb hcur hs.2 hrun
  have hcur' : s'.cur = s.cur := by
    change s'.core.cur = s.cur
    rw [hcore]
    rfl
  have htlb : s'.tlb = tlb := by
    change s'.core.tlb = tlb
    rw [hcore]
  have hown : ∀ b, own b g s' = own b g s := fun b =>
    own_core_congr (s := { s with tlb := tlb }) hcore
  have hinv : Inv P g s' := (hi.setTlb hwf).core_congr hcore
  refine ⟨hcur'.trans hcur, g, ⟨v.own, T⟩, ⟨hinv.observed.symm, fun _ _ h => h⟩,
    ⟨hinv, fun b hb w hw => ⟨(hown b).trans hw.1, fun hb' => ?_⟩⟩,
    ⟨(hown a).trans hs.1, by rw [hcur', htlb]; exact hmine⟩, rfl⟩
  rw [hcur'] at hb'
  rw [htlb]
  refine fun e he hval => hw.2 hb' e (hothers (fun ha => ?_) e he hval) hval
  exact hb (Option.some.inj (hb'.symm.trans ha))

theorem tlbInvalidateVaddr {va : Nat} (hva : pageFrame va < kseg0) :
    Does P a t cur v (tlbInvalidateVaddr va) fun _ v' =>
      v' = ⟨v.own, { e ∈ v.tlb | e.vpage ≠ pageFrame va }⟩ := by
  refine setTlb (isAction_exec _) (fun _ => trivial) fun s x s' hwf _ hsub h => ?_
  rw [modify_eq_ok.mp h]
  obtain ⟨hwf', hmem⟩ := hwf.tlbDrop hva
  refine ⟨(s.tlbDrop va).tlb, ?_, hwf', fun hcur e he hval => ?_, fun _ e he hval =>
    (hmem e he hval).1⟩
  · rw [Sys.tlbDrop]
    split <;> rfl
  · obtain ⟨hin, hne⟩ := hmem e he hval
    exact ⟨hsub hcur e hin hval, hne⟩

theorem tlbLoadentry {fa : Nat} {ro : Bool} (hc : cur = some a)
    (hval : (TlbEntry.mk fa (tlbLo q ro)).valid = true)
    (hfa : (TlbEntry.mk fa (tlbLo q ro)).vpage < kseg0)
    (hnew : ∀ e ∈ v.tlb, e.vpage ≠ (TlbEntry.mk fa (tlbLo q ro)).vpage) :
    Does P a t cur v (tlbLoadentry fa q ro) fun r v' =>
      r = none ∧ v' = ⟨v.own, insert ⟨fa, tlbLo q ro⟩ v.tlb⟩ := by
  refine Views.Triple.bind (setTlb (T := insert ⟨fa, tlbLo q ro⟩ v.tlb) (isAction_exec _)
    (fun _ => trivial) fun s x s' hwf hcur hsub h => ?_) ?_
  · obtain ⟨-, rfl⟩ := tlbLoad_eq_ok.mp h
    have hcur : s.cur = some a := hcur.trans hc
    obtain ⟨hwf', hmem⟩ := hwf.tlbLoad hval hfa fun e he hv => hnew e (hsub hcur e he hv)
    refine ⟨_, ?_, hwf', fun _ e he hv => ?_, fun hne => absurd hcur hne⟩
    · rw [tlbLoad]
      split <;> rfl
    · rcases hmem e he with he | rfl
      · exact .inr (hsub hcur e he hv)
      · exact .inl rfl
  · rintro i _ rfl
    exact andThen vmStatsInc fun _ => Views.Triple.pure ⟨rfl, rfl⟩

end Does

end Os161Paging
