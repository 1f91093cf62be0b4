import Os161Paging.Setup

/-!
# Runs of calls on address spaces

Any number of address spaces are created, loaded, run and destroyed, while
the kernel takes and gives back blocks of its own. What is true between
any two calls is said by shares: each address space is gone, being
loaded, or at rest; the running one is what the TLB translates to; and
every block the kernel was given is still its own.
-/

namespace Os161Paging

open Prog

namespace Calls

/-! ## The calls -/

/-- The state, and the addresses `alloc_kpages` has returned and `free_kpages` not
got back. -/
structure Config where
  sys : Sys
  kpages : List Nat

inductive Call where
  | switch (x : Option AsId)
  | create (p : Option AsId) (f : Option File)
  | define (a : AsId) (vaddr memsize filesize readable writeable executable offset : Nat)
  | prepare (a : AsId)
  | fault (ty : FaultType) (fa : Nat)
  | destroy (a : AsId)
  | alloc (npages : Nat)
  | free (addr : Nat)

def misses (s : Sys) (fa : Nat) : Bool := s.tlb.all fun e => !(e.valid && e.vpage == pageFrame fa)

/-- When a call is made: regions are defined before the page table is laid out, and
that is done once; the MMU raises a fault for a user address it has no entry for; an
address space is destroyed while it is not the current one; the kernel's requests find
a free frame, and it gives back only what it was given. -/
def allowed (c : Config) : Call → Bool
  | .switch x => x.all fun a => (c.sys.as a).isSome
  | .create _ _ => true
  | .define a vaddr .. => (c.sys.as a).all (·.npages.isNone) && decide (vaddr < 2 ^ 32)
  | .prepare a => (c.sys.as a).all (·.npages.isNone) && (firstFree c.sys.coremap).isSome
  | .fault _ fa => misses c.sys fa && decide (pageFrame fa < kseg0)
  | .destroy a => c.sys.cur != some a
  | .alloc _ => (firstFree c.sys.coremap).isSome
  | .free addr => c.kpages.contains addr

def subject (c : Config) : Call → Option AsId
  | .create p _ => p
  | .define a .. | .prepare a | .destroy a => some a
  | .fault _ _ => c.sys.cur
  | .switch _ | .alloc _ | .free _ => none

/-- The code behind a call. It returns the new list of the kernel's pages. -/
def code (ks : List Nat) : Call → VM (List Nat)
  | .switch x => do
      Prog.modify fun s => { s with cur := x }
      asActivate
      return ks
  | .create p f => do
      let _ ← asCreate p f
      return ks
  | .define a vaddr memsize filesize readable writeable executable offset => do
      let _ ← asDefineRegion a vaddr memsize filesize readable writeable executable offset
      return ks
  | .prepare a => do
      let _ ← asPrepareLoad a
      return ks
  | .fault ty fa => do
      let _ ← vmFault ty fa
      return ks
  | .destroy a => do
      asDestroy a
      return ks
  | .alloc npages => do
      let p ← allocKpages npages
      return p :: ks
  | .free addr => do
      freeKpages addr
      return ks.erase addr

def perform (t : Tid) (c : Config) (call : Call) : Option Config :=
  if allowed c call then
    match (code c.kpages call).run t c.sys with
    | .ok (ks, s) => some ⟨s, ks⟩
    | _ => none
  else none

theorem perform_eq_some {t : Tid} {c c' : Config} {call : Call} :
    perform t c call = some c' ↔
      allowed c call = true ∧ (code c.kpages call).run t c.sys = .ok (c'.kpages, c'.sys) := by
  rw [perform]
  split
  · next ha =>
      split
      · next ks s hrun =>
          obtain ⟨s', ks'⟩ := c'
          simp [ha, hrun, and_comm]
      · next hno => exact iff_of_false nofun fun h => hno _ _ h.2
  · next ha => exact iff_of_false nofun fun h => ha h.1

inductive Performed (t : Tid) (c : Config) : Call → Config → Prop where
  | switch {x : Option AsId} (hlive : ∀ a, x = some a → c.sys.as a ≠ none) :
      Performed t c (.switch x) ⟨c.sys.activate x, c.kpages⟩
  | create {p : Option AsId} {f : Option File} {r : Except Errno AsId} {s : Sys}
      (h : (asCreate p f).run t c.sys = .ok (r, s)) : Performed t c (.create p f) ⟨s, c.kpages⟩
  | define {a : AsId} {vaddr memsize filesize rd wr ex offset : Nat} {r : Option Errno} {s : Sys}
      (hn : ∀ x, c.sys.as a = some x → x.npages = none) (hva : vaddr < 2 ^ 32)
      (h : (asDefineRegion a vaddr memsize filesize rd wr ex offset).run t c.sys = .ok (r, s)) :
      Performed t c (.define a vaddr memsize filesize rd wr ex offset) ⟨s, c.kpages⟩
  | prepare {a : AsId} {r : Option Errno} {s : Sys}
      (hn : ∀ x, c.sys.as a = some x → x.npages = none) (hfree : firstFree c.sys.coremap ≠ none)
      (h : (asPrepareLoad a).run t c.sys = .ok (r, s)) : Performed t c (.prepare a) ⟨s, c.kpages⟩
  | fault {ty : FaultType} {fa : Nat} {r : Option Errno} {s : Sys}
      (hmiss : ∀ e ∈ validTlb c.sys, e.vpage ≠ pageFrame fa) (hfa : pageFrame fa < kseg0)
      (h : (vmFault ty fa).run t c.sys = .ok (r, s)) : Performed t c (.fault ty fa) ⟨s, c.kpages⟩
  | destroy {a : AsId} {u : Unit} {s : Sys} (hcur : c.sys.cur ≠ some a)
      (h : (asDestroy a).run t c.sys = .ok (u, s)) : Performed t c (.destroy a) ⟨s, c.kpages⟩
  | alloc {n p : Nat} {s : Sys} (hfree : firstFree c.sys.coremap ≠ none)
      (h : (allocKpages n).run t c.sys = .ok (p, s)) : Performed t c (.alloc n) ⟨s, p :: c.kpages⟩
  | free {addr : Nat} {u : Unit} {s : Sys} (hmem : addr ∈ c.kpages)
      (h : (freeKpages addr).run t c.sys = .ok (u, s)) :
      Performed t c (.free addr) ⟨s, c.kpages.erase addr⟩

theorem allowed_fault {c : Config} {ty : FaultType} {fa : Nat} : allowed c (.fault ty fa) = true ↔
    (∀ e ∈ validTlb c.sys, e.vpage ≠ pageFrame fa) ∧ pageFrame fa < kseg0 := by
  simp only [allowed, misses, Bool.and_eq_true, decide_eq_true_eq, List.all_eq_true,
    Bool.not_eq_true', Bool.and_eq_false_imp, beq_eq_false_iff_ne]
  exact and_congr_left fun _ => ⟨fun h e he => h e he.1 he.2, fun h e he hv => h e ⟨he, hv⟩⟩

theorem performed {t : Tid} {c c' : Config} {call : Call} (h : perform t c call = some c') :
    Performed t c call c' := by
  obtain ⟨hall, hrun⟩ := perform_eq_some.mp h
  obtain ⟨s', ks⟩ := c'
  cases call with
  | switch x =>
      obtain ⟨_, s1, h1, hrun⟩ := run_bind_eq_ok.mp hrun
      obtain ⟨_, s2, h2, hrun⟩ := run_bind_eq_ok.mp hrun
      obtain ⟨rfl, rfl⟩ := pure_eq_ok.mp hrun
      rw [modify_eq_ok.mp h1] at h2
      obtain rfl := asActivate_eq_ok h2
      refine .switch fun a hx => ?_
      subst hx
      exact Option.ne_none_iff_isSome.mpr hall
  | create p f =>
      obtain ⟨_, s1, h1, hrun⟩ := run_bind_eq_ok.mp hrun
      obtain ⟨rfl, rfl⟩ := pure_eq_ok.mp hrun
      exact .create h1
  | define a vaddr memsize filesize rd wr ex offset =>
      obtain ⟨_, s1, h1, hrun⟩ := run_bind_eq_ok.mp hrun
      obtain ⟨rfl, rfl⟩ := pure_eq_ok.mp hrun
      simp only [allowed, Bool.and_eq_true, decide_eq_true_eq, Option.all_eq_true,
        Option.isNone_iff_eq_none] at hall
      exact .define hall.1 hall.2 h1
  | prepare a =>
      obtain ⟨_, s1, h1, hrun⟩ := run_bind_eq_ok.mp hrun
      obtain ⟨rfl, rfl⟩ := pure_eq_ok.mp hrun
      simp only [allowed, Bool.and_eq_true, Option.all_eq_true, Option.isNone_iff_eq_none] at hall
      exact .prepare hall.1 (Option.ne_none_iff_isSome.mpr hall.2) h1
  | fault ty fa =>
      obtain ⟨_, s1, h1, hrun⟩ := run_bind_eq_ok.mp hrun
      obtain ⟨rfl, rfl⟩ := pure_eq_ok.mp hrun
      obtain ⟨hmiss, hfa⟩ := allowed_fault.mp hall
      exact .fault hmiss hfa h1
  | destroy a =>
      obtain ⟨_, s1, h1, hrun⟩ := run_bind_eq_ok.mp hrun
      obtain ⟨rfl, rfl⟩ := pure_eq_ok.mp hrun
      exact .destroy (by simpa [allowed] using hall) h1
  | alloc npages =>
      obtain ⟨p, s1, h1, hrun⟩ := run_bind_eq_ok.mp hrun
      obtain ⟨rfl, rfl⟩ := pure_eq_ok.mp hrun
      exact .alloc (Option.ne_none_iff_isSome.mpr hall) h1
  | free addr =>
      obtain ⟨_, s1, h1, hrun⟩ := run_bind_eq_ok.mp hrun
      obtain ⟨rfl, rfl⟩ := pure_eq_ok.mp hrun
      exact .free (by simpa [allowed] using hall) h1

structure Fresh (s : Sys) : Prop where
  geometry : s.Geometry
  coremap : ∀ e ∈ s.coremap, e = .zero
  as : ∀ a, s.as a = none
  swapMap : ∀ b ∈ s.swapMap, b = false
  used : s.used = 0
  tlb : s.tlb = emptyTlb
  cur : s.cur = none

theorem fresh_boot {w : World} {ram disk : Mem} {lastpaddr firstfree swapFileSize : Nat}
    (hlast : lastpaddr < 2 ^ 32) (hpos : 0 < firstfree) (hfirst : firstfree + pageSize ≤ lastpaddr) :
    Fresh (boot w ram disk lastpaddr firstfree swapFileSize) :=
  ⟨boot_geometry hlast hpos hfirst, fun _ => List.eq_of_mem_replicate, fun _ => rfl,
    fun _ => List.eq_of_mem_replicate, rfl, rfl, rfl⟩

/-- Calls one after the other, on a machine whose swap device can be read; other code
of the kernel allocates small structures and reads executables in between. -/
def system : Transitions Config where
  start c := Fresh c.sys ∧ (∀ n, c.sys.world.swapRead n = none) ∧ c.kpages = []
  step c c' := (∃ t call, perform t c call = some c') ∨
    ∃ n m, c' = { c with sys := { c.sys with kmallocs := n, elfReads := m } }

/-! ## What a fault does to the coremap -/

def tableOf (s : Sys) (b : AsId) : Option (Option Nat × Option Nat) :=
  (s.as b).map fun x => (x.asPt, x.npages)

def hasTable (s : Sys) (a : AsId) : Bool := (tableOf s a).any (·.2.isSome)

theorem hasTable_iff {s : Sys} {a : AsId} :
    hasTable s a = true ↔ ∃ x n, s.as a = some x ∧ x.npages = some n := by
  cases hx : s.as a with
  | none => simp [hasTable, tableOf, hx]
  | some x => simp [hasTable, tableOf, hx, Option.isSome_iff_exists]

/-- The coremap, and what a fault leaves alone anyway. -/
def fixtures (s : Sys) : List CEntry × Nat × (AsId → Option (Option Nat × Option Nat)) :=
  (s.coremap, s.firstpaddr, tableOf s)

/-- Free entries of the coremap are taken for `a`; nothing else happens to it, nor to
where the page tables are. -/
structure Grows (a : AsId) (s s' : Sys) : Prop where
  size : s'.coremapSize = s.coremapSize
  firstpaddr : s'.firstpaddr = s.firstpaddr
  tables : tableOf s' = tableOf s
  entry : ∀ (k : Nat) e, s.coremap[k]? = some e → s'.coremap[k]? = some e ∨
    e.isFree = true ∧ ∃ e', s'.coremap[k]? = some e' ∧ e'.as = some a ∧ e'.isFree = false

variable {P : Layout} {t : Tid} {a b : AsId} {g g' : Ghost} {s s' s1 : Sys} {c c' : Config}

theorem Grows.of_fixtures (s s' : Sys) (h : fixtures s' = fixtures s) : Grows a s s' := by
  simp only [fixtures, Prod.mk.injEq] at h
  obtain ⟨hcm, hfirst, htables⟩ := h
  exact ⟨congrArg List.length hcm, hfirst, htables, fun k e he => .inl (hcm ▸ he)⟩

theorem Grows.trans (s s1 s' : Sys) (h1 : Grows a s s1) (h2 : Grows a s1 s') : Grows a s s' where
  size := h2.size.trans h1.size
  firstpaddr := h2.firstpaddr.trans h1.firstpaddr
  tables := h2.tables.trans h1.tables
  entry k e he := by
    rcases h1.entry k e he with he1 | ⟨hfree, e1, he1, ha1, hused1⟩
    · exact h2.entry k e he1
    · rcases h2.entry k e1 he1 with he2 | ⟨hfree1, -⟩
      · exact .inr ⟨hfree, e1, he2, ha1, hused1⟩
      · rw [hused1] at hfree1
        cases hfree1

theorem Grows.claim {i v : Nat} (h : firstFree s.coremap = some i) :
    Grows a s (s.claim i false v (some a)) := by
  refine ⟨List.length_modify .., rfl, rfl, fun k e he => ?_⟩
  obtain ⟨e0, he0, hfree⟩ := freeAt_eq_true.mp (firstFree_eq_some h)
  by_cases hk : i = k
  · subst hk
    obtain rfl := Option.some.inj (he.symm.trans he0)
    exact .inr ⟨hfree, _, by simp [Sys.claim, he]; rfl, CEntry.setOne_as ..,
      CEntry.not_isFree (CEntry.setOne_cused ..)⟩
  · exact .inl (by simpa [Sys.claim, hk] using he)

theorem tableOf_modPte {j : Nat} {f : PtEntry → PtEntry} : tableOf (s.modPte a j f) = tableOf s := by
  funext b
  by_cases hb : b = a
  · subst hb
    cases hx : s.as b with
    | none => simp [tableOf, Sys.modPte, hx]
    | some x => simp [tableOf, Sys.modPte, hx, Addrspace.modifyPte]
  · simp [tableOf, Sys.modPte, hb]

theorem spared_fixtures : Spared a fixtures := by
  refine ⟨fun _ _ => rfl, fun _ _ => rfl, fun _ => rfl, fun _ _ _ => rfl, fun s j f => ?_,
    fun _ _ => rfl, fun _ _ => rfl⟩
  rw [fixtures, tableOf_modPte]
  rfl

/-- Bringing a page in takes at most free entries. -/
theorem pageIn_grows {i fa : Nat} {seg : Segment} {last : Bool} :
    (pageIn a i seg last fa).Within (Grows a) t := by
  have hsp : Spared a fixtures := spared_fixtures
  have hL : ∀ {α : Type} {p : VM α}, p.Leaves fixtures t → p.Within (Grows a) t :=
    fun h => .of_leaves Grows.of_fixtures h
  have hpage : (getPages 1 fa (some a)).Within (Grows a) t :=
    hsp.getPage (fun _ _ => rfl) Grows.trans Grows.of_fixtures fun _ _ => Grows.claim
  have hupd : ∀ f, (updPte a i f).Leaves fixtures t := fun f => updPte_leaves (hsp.modPte · i f)
  have hstat : ∀ st, (vmStatsInc st).Leaves fixtures t := fun _ => vmStatsInc_leaves fun _ => rfl
  have hswap : (pageInSwap a i fa).Within (Grows a) t := by
    refine .bind Grows.trans (hL hsp.letGo) fun _ => .bind Grows.trans hpage fun p =>
      hL (.bind hsp.grab fun _ => .bind ?_ fun _ => .bind (hupd _) fun _ => .bind (hstat _)
        fun _ => hstat _)
    exact swapIn_leaves (fun _ _ => rfl) (fun _ _ _ _ => rfl) (fun _ _ => rfl) (hsp.modPte · i)
  have hframe : (ensureFrame a i fa).Within (Grows a) t := by
    refine .bind Grows.trans (hL getPte_leaves) fun e => .ite ?_ (hL (.pure _))
    exact .bind Grows.trans (hL hsp.letGo) fun _ => .bind Grows.trans hpage fun p =>
      hL (.bind (hupd _) fun _ => hsp.grab)
  have hfresh : (pageInFresh a i seg last fa).Within (Grows a) t := by
    refine .bind Grows.trans hframe fun _ => hL (.bind getPte_leaves fun e => .ite ?_ ?_)
    · exact .bind (.modify fun _ => rfl) fun _ => hstat _
    · exact .bind (loadElfOndemand_leaves fun _ _ _ _ _ => rfl) fun _ =>
        .bind (hstat _) fun _ => hstat _
  refine .bind Grows.trans (hL getPte_leaves) fun e => .ite (hL (hstat _)) ?_
  exact .bind Grows.trans (.ite hswap hfresh) fun _ => hL (hupd _)

/-- **A fault takes free entries for the running address space** and leaves all
others as they are. -/
theorem vmFault_grows {ty : FaultType} {fa : Nat} {r : Option Errno}
    (h : (vmFault ty fa).run t s = .ok (r, s')) :
    fixtures s' = fixtures s ∨ ∃ a, s.cur = some a ∧ Grows a s s' := by
  obtain ⟨-, -, rfl⟩ | ⟨a, x, i, seg, last, hcur, -, -, -, ⟨-, -, rfl⟩ | ⟨-, h⟩⟩ := vmFault_cases h
  · exact .inl rfl
  · exact .inl rfl
  · have hrun : (faultAt a i seg last (pageFrame fa)).Within (Grows a) t :=
      .bind Grows.trans pageIn_grows fun _ => .of_leaves Grows.of_fixtures
        (.bind getPte_leaves fun e => .bind (tlbLoadentry_leaves (fun _ _ => rfl)
          fun _ _ _ _ => rfl) fun _ => .bind (spared_fixtures (a := a)).letGo fun _ => .pure _)
    have hgrows := hrun _ _ _ h
    exact .inr ⟨a, hcur, hgrows.size, hgrows.firstpaddr, hgrows.tables, hgrows.entry⟩

theorem vmFault_tableOf {ty : FaultType} {fa : Nat} {r : Option Errno}
    (h : (vmFault ty fa).run t s = .ok (r, s')) : tableOf s' = tableOf s := by
  obtain hfix | ⟨_, -, hgrows⟩ := vmFault_grows h
  · simp only [fixtures, Prod.mk.injEq] at hfix
    exact hfix.2.2
  · exact hgrows.tables

/-! ## What holds between two calls -/

/-- What an address space can be between two calls. -/
inductive Phase (P : Layout) (o : Own) : Prop where
  | gone (h : Does.Gone o)
  | loading (h : Loading o)
  | good (h : Good P o ∅)

structure Ok (P : Layout) (g : Ghost) (c : Config) : Prop where
  inv : Inv P g c.sys
  phase : ∀ a, Phase P (own a g c.sys)
  live : ∀ a, c.sys.cur = some a → c.sys.as a ≠ none
  backed : ∀ a, c.sys.cur = some a → Backed (own a g c.sys) (validTlb c.sys)
  table : ∀ a h n, tableOf c.sys a = some (some (P.addr h), some n) →
    ∃ e, c.sys.coremap[h]? = some e ∧ e.allocpages = max 1 (ptFrames n)
  kernel : ∀ p ∈ c.kpages, ∃ h, p = paddrToKvaddr (P.addr h) ∧ g.home h = some (h, none)
  nodup : c.kpages.Nodup

/-- No slot number in the page table of the running address space is the address of
one of its frames. -/
def Unambiguous (s : Sys) : Prop :=
  ∀ a j e, s.cur = some a → s.pte a j = some e → e.inSwap = true → s.frameOwner e.paddr ≠ some a

/-- No slot is taken for a frame in the page table of the running address space. -/
theorem Unambiguous.noAlias (hu : Unambiguous s) (hcur : s.cur = some a) (hg : Good P (own a g s) ∅) :
    NoAlias (own a g s) := by
  intro n hn
  obtain ⟨j, hj⟩ := hg.tenancy.tenanted _ hn (Set.notMem_empty _)
  obtain ⟨e, he, hpl⟩ := Option.bind_eq_some_iff.mp hj
  obtain ⟨-, hin, rfl⟩ := PtEntry.place_eq_slot.mp hpl
  exact if_neg (hu a j e hcur he hin)

theorem Layout.addr_inj {h h' : Nat} (heq : P.addr h = P.addr h') : h = h' := by
  simp only [Layout.addr, pageSize_eq] at heq
  omega

namespace Phase

variable {o : Own} {x : Addrspace}

theorem good_of_npages {n : Nat} (h : Phase P o) (hx : o.as = some x) (hn : x.npages = some n) :
    Good P o ∅ := by
  cases h with
  | gone h =>
      rw [h.1] at hx
      cases hx
  | loading h =>
      obtain ⟨y, hy, -, -, hnone, -⟩ := h.as
      obtain rfl := Option.some.inj (hx.symm.trans hy)
      rw [hnone] at hn
      cases hn
  | good h => exact h

theorem good_of_pte {j : Nat} {e : PtEntry} (h : Phase P o) (he : o.pte j = some e) :
    Good P o ∅ := by
  cases h with
  | gone h =>
      rw [Own.pte, h.1] at he
      cases he
  | loading h =>
      obtain ⟨y, hy, -, hnil, -⟩ := h.as
      simp [Own.pte, hy, hnil] at he
  | good h => exact h

theorem loading_of_npages (h : Phase P o) (hx : o.as = some x) (hn : x.npages = none) :
    Loading o := by
  cases h with
  | gone h =>
      rw [h.1] at hx
      cases hx
  | loading h => exact h
  | good h =>
      obtain ⟨y, hy, hlaid⟩ := h.laid
      obtain rfl := Option.some.inj (hx.symm.trans hy)
      rw [hlaid.npages] at hn
      cases hn

theorem gone_of_none (h : Phase P o) (hx : o.as = none) : Does.Gone o := by
  cases h with
  | gone h => exact h
  | loading h =>
      obtain ⟨y, hy, -⟩ := h.as
      rw [hx] at hy
      cases hy
  | good h =>
      obtain ⟨y, hy, -⟩ := h.laid
      rw [hx] at hy
      cases hy

end Phase

namespace Ok

/-- The first frame of a page table belongs to the block of that page table. -/
theorem home (hc : Ok P g c) {h n : Nat} (ht : tableOf c.sys a = some (some (P.addr h), some n)) :
    g.home h = some (h, some a) := by
  obtain ⟨x, hx, hxt⟩ := Option.map_eq_some_iff.mp ht
  obtain ⟨hpt, hn⟩ := Prod.mk.inj hxt
  obtain ⟨h', hpt', htab⟩ := ((hc.phase a).good_of_npages hx hn).table
  have hown : (own a g c.sys).as = some x := hx
  rw [hown, Option.bind_some, hpt, Option.some.injEq] at hpt'
  obtain rfl := Layout.addr_inj hpt'
  have hmem : h ∈ (own a g c.sys).table := by rw [htab]; rfl
  exact hmem

theorem kpages (hc : Ok P g c) : Kpages P g c.kpages := ⟨hc.kernel, hc.nodup⟩

/-- Nothing that matters has changed. -/
theorem of_core (hc : Ok P g c) (hcore : s'.core = c.sys.core) : Ok P g { c with sys := s' } := by
  have has : s'.core.as = c.sys.core.as := congrArg Sys.as hcore
  have hcur : s'.core.cur = c.sys.core.cur := congrArg Sys.cur hcore
  have hcm : s'.core.coremap = c.sys.core.coremap := congrArg Sys.coremap hcore
  have htlb : validTlb s'.core = validTlb c.sys.core := congrArg validTlb hcore
  simp only [Sys.core] at has hcur hcm
  refine ⟨hc.inv.core_congr hcore, fun a => ?_, fun a ha => ?_, fun a ha => ?_, fun a h n ht => ?_,
    hc.kernel, hc.nodup⟩
  · rw [own_core_congr hcore]
    exact hc.phase a
  · rw [has]
    exact hc.live a (hcur ▸ ha)
  · rw [own_core_congr hcore, show validTlb s' = validTlb c.sys from htlb]
    exact hc.backed a (hcur ▸ ha)
  · rw [hcm]
    exact hc.table a h n (by rw [tableOf, ← has]; exact ht)

/-! ## Each call keeps it

And what the other address spaces have, it leaves as it is. -/

/-- A call that works on `x` at most leads to `c'`. -/
structure Leads (P : Layout) (x : Option AsId) (g : Ghost) (s : Sys) (g' : Ghost) (c' : Config) :
    Prop where
  ok : Ok P g' c'
  others : ∀ b, x ≠ some b → own b g' c'.sys = own b g s

theorem leads_of_core {x : Option AsId} (hc : Ok P g c) (hcore : s'.core = c.sys.core) :
    Leads P x g c.sys g { c with sys := s' } :=
  ⟨hc.of_core hcore, fun _ _ => own_core_congr hcore⟩

/-- A call on behalf of `a` that others do not notice. -/
theorem leads_of_apart (hc : Ok P g c) (h : Apart P a g c.sys g' s') (hphase : Phase P (own a g' s'))
    (hlive : c.sys.cur = some a → s'.as a ≠ none)
    (hbacked : c.sys.cur = some a → Backed (own a g' s') (validTlb c.sys))
    (hcm : ∀ b (k : Nat) e, g.home k = some (k, some b) → c.sys.coremap[k]? = some e →
      s'.coremap[k]? = some e)
    (htable : ∀ h n, tableOf s' a = some (some (P.addr h), some n) →
      ∃ e, s'.coremap[h]? = some e ∧ e.allocpages = max 1 (ptFrames n)) :
    Leads P (some a) g c.sys g' { c with sys := s' } := by
  have htlb : validTlb s' = validTlb c.sys := by rw [validTlb, h.tlb, validTlb]
  have has : ∀ b, b ≠ a → s'.as b = c.sys.as b := fun b hb => congrArg Own.as (h.others b hb)
  refine ⟨⟨h.inv, fun b => ?_, fun b hb => ?_, fun b hb => ?_, fun b k n ht => ?_, fun p hp => ?_,
    hc.nodup⟩, fun b hb => h.others b fun hba => hb (hba ▸ rfl)⟩
  · by_cases hba : b = a
    · exact hba ▸ hphase
    · rw [h.others b hba]
      exact hc.phase b
  · rw [h.cur] at hb
    by_cases hba : b = a
    · subst hba
      exact hlive hb
    · exact (has b hba).symm ▸ hc.live b hb
  · rw [h.cur] at hb
    rw [htlb]
    by_cases hba : b = a
    · subst hba
      exact hbacked hb
    · rw [h.others b hba]
      exact hc.backed b hb
  · by_cases hba : b = a
    · subst hba
      exact htable k n ht
    · have ht' : tableOf c.sys b = some (some (P.addr k), some n) := by
        rw [tableOf, ← has b hba]
        exact ht
      obtain ⟨e, he, hlen⟩ := hc.table b k n ht'
      exact ⟨e, hcm b k e (hc.home ht') he, hlen⟩
  · obtain ⟨k, hk, hhome⟩ := hc.kernel p hp
    exact ⟨k, hk, h.keeps k k hhome⟩

theorem switch {x : Option AsId} (hc : Ok P g c) (hx : ∀ a, x = some a → c.sys.as a ≠ none) :
    Leads P none g c.sys g { c with sys := c.sys.activate x } := by
  have hact := hc.inv.activate x
  refine ⟨⟨hact.inv, fun b => ?_, fun b hb => ?_, fun b hb e he => ?_, fun b k n ht => ?_,
    hc.kernel, hc.nodup⟩, fun b _ => hact.own b⟩
  · rw [hact.own]
    exact hc.phase b
  · rw [hact.as]
    exact hx b (hact.cur.symm.trans hb)
  · rw [hact.tlb b hb] at he
    exact he.elim
  · rw [tableOf, hact.as] at ht
    rw [hact.coremap]
    exact hc.table b k n ht

theorem create {p : Option AsId} {f : Option File} {r : Except Errno AsId} (hc : Ok P g c)
    (h : (asCreate p f).run t c.sys = .ok (r, s')) : Leads P p g c.sys g { c with sys := s' } := by
  obtain hcore | ⟨a, rfl, hnone, hapart, hl⟩ :=
    asCreate_apart hc.inv (fun a _ ha => (hc.phase a).gone_of_none ha) h
  · exact hc.leads_of_core hcore
  have hcm : s'.coremap = c.sys.coremap := by
    obtain ⟨-, -, n, rfl⟩ | ⟨a, v, -, -, -, -, -, rfl⟩ := asCreate_cases h
    · rfl
    · rfl
  have hcur : c.sys.cur ≠ some a := fun hcur => hc.live a hcur hnone
  refine hc.leads_of_apart hapart (.loading hl) (fun h => absurd h hcur) (fun h => absurd h hcur)
    (fun b k e _ he => hcm ▸ he) fun k n ht => ?_
  obtain ⟨x, hx, -, -, hn, -⟩ := hl.as
  have hx' : s'.as a = some x := hx
  simp [tableOf, hx', hn] at ht

theorem define {vaddr memsize filesize rd wr ex offset : Nat} {r : Option Errno} (hc : Ok P g c)
    (hn : ∀ x, c.sys.as a = some x → x.npages = none) (hva : vaddr < 2 ^ 32)
    (h : (asDefineRegion a vaddr memsize filesize rd wr ex offset).run t c.sys = .ok (r, s')) :
    Leads P (some a) g c.sys g { c with sys := s' } := by
  obtain ⟨-, -, rfl⟩ | ⟨-, -, x, hx, hs'⟩ := asDefineRegion_cases h
  · exact hc.leads_of_core rfl
  have hl := (hc.phase a).loading_of_npages hx (hn x hx)
  obtain ⟨hapart, hl'⟩ := asDefineRegion_apart hc.inv hl hva h
  refine hc.leads_of_apart hapart (.loading hl') (fun _ => ?_) (fun hcur => ?_) (fun b k e _ he => ?_)
    fun k n ht => ?_
  · rw [hs']
    exact fun h => nomatch (Function.update_self (β := fun _ => Option Addrspace) ..).symm.trans h
  · exact fun e he => (hl.not_backed (hc.backed a hcur) he).elim
  · rw [hs']
    exact he
  · obtain ⟨y, hy, -, -, hnone, -⟩ := hl'.as
    have hy' : s'.as a = some y := hy
    simp [tableOf, hy', hnone] at ht

theorem prepare {r : Option Errno} (hc : Ok P g c)
    (hn : ∀ x, c.sys.as a = some x → x.npages = none) (hfree : firstFree c.sys.coremap ≠ none)
    (h : (asPrepareLoad a).run t c.sys = .ok (r, s')) :
    ∃ g', Leads P (some a) g c.sys g' { c with sys := s' } := by
  obtain ⟨-, rfl⟩ | ⟨x, -, -, hx, -⟩ := asPrepareLoad_cases h
  · exact ⟨g, hc.leads_of_core rfl⟩
  have hl := (hc.phase a).loading_of_npages hx (hn x hx)
  obtain ⟨-, hcore⟩ | ⟨-, g', hp⟩ := asPrepareLoad_apart hc.inv hl hfree h
  · exact ⟨g, hc.leads_of_core hcore⟩
  obtain ⟨y, n, i, hy, hyn, hypt, htakes⟩ := hp.block
  refine ⟨g', hc.leads_of_apart hp.apart (.good hp.good) (fun _ => by simp [hy]) (fun hcur => ?_)
    (fun b k e hk he => ?_) fun k m ht => ?_⟩
  · exact fun e he => (hl.not_backed (hc.backed a hcur) he).elim
  · refine (htakes.rest k fun hr => ?_).trans he
    rw [hc.inv.home_free (htakes.free k hr.1 hr.2)] at hk
    cases hk
  · simp only [tableOf, hy, Option.map_some, hypt, hyn, Option.some.injEq, Prod.mk.injEq] at ht
    obtain ⟨haddr, rfl⟩ := ht
    obtain rfl := Layout.addr_inj haddr
    exact htakes.head

theorem fault {ty : FaultType} {fa : Nat} {r : Option Errno} (hc : Ok P g c)
    (hu : Unambiguous c.sys) (hmiss : ∀ e ∈ validTlb c.sys, e.vpage ≠ pageFrame fa)
    (hfa : pageFrame fa < kseg0) (h : (vmFault ty fa).run t c.sys = .ok (r, s')) :
    ∃ g', Leads P c.sys.cur g c.sys g' { c with sys := s' } := by
  obtain ⟨-, -, rfl⟩ | ⟨a, x, i, seg, last, hcur, hx, hlook, -⟩ := vmFault_cases h
  · exact ⟨g, hc.leads_of_core rfl⟩
  have hg : Good P (own a g c.sys) ∅ := by
    cases hc.phase a with
    | gone hgone => exact absurd hgone.1 (hc.live a hcur)
    | loading hl => exact absurd hlook (hl.lookup_ne hx)
    | good hg => exact hg
  have hdoes : Does P a t c.sys.cur ⟨own a g c.sys, validTlb c.sys⟩ (vmFault ty fa) _ :=
    Does.vmFault hcur ⟨hg, hc.backed a hcur⟩ (hu.noAlias hcur hg) hmiss hfa
  obtain ⟨g', v', hcall, hserved⟩ :=
    hdoes.call hc.inv ⟨rfl, fun _ e he hv => ⟨he, hv⟩⟩ rfl h
  have hcur' := hcall.cur.trans hcur
  have hgrows : Grows a c.sys s' := by
    rcases vmFault_grows h with hfix | ⟨a', ha', hgrows⟩
    · exact .of_fixtures _ _ hfix
    · obtain rfl := Option.some.inj (hcur.symm.trans ha')
      exact hgrows
  have hgood : Good P (own a g' s') ∅ := hcall.own ▸ hserved.1.good
  have hbacked : Backed (own a g' s') (validTlb s') := by
    rw [hcall.own]
    exact fun e he => hserved.1.backed e (hcall.tlb hcur' e he.1 he.2)
  refine ⟨g', ⟨hcall.inv, fun b => ?_, fun b hb => ?_, fun b hb => ?_, fun b k n ht => ?_,
    fun p hp => ?_, hc.nodup⟩, fun b hb => hcall.others b fun hba => hb (hba ▸ hcur)⟩
  · by_cases hba : b = a
    · exact .good (hba ▸ hgood)
    · rw [hcall.others b hba]
      exact hc.phase b
  · obtain rfl := Option.some.inj (hb.symm.trans hcur')
    obtain ⟨y, hy, -⟩ := hgood.laid
    exact fun hnone => nomatch hnone.symm.trans hy
  · obtain rfl := Option.some.inj (hb.symm.trans hcur')
    exact hbacked
  · rw [hgrows.tables] at ht
    obtain ⟨e, he, hlen⟩ := hc.table b k n ht
    obtain ⟨e', he', -, hused⟩ := hc.inv.kernel k k _ (hc.home ht)
    obtain rfl := Option.some.inj (he.symm.trans he')
    rcases hgrows.entry k e he with he' | ⟨hfree, -⟩
    · exact ⟨e, he', hlen⟩
    · rw [hused] at hfree
      cases hfree
  · obtain ⟨k, hk, hhome⟩ := hc.kernel p hp
    exact ⟨k, hk, hcall.keeps k k hhome⟩

theorem destroy_eq {u : Unit} (hc : Ok P g c) (hrun : (asDestroy a).run t c.sys = .ok (u, s')) :
    ∃ x h e, c.sys.as a = some x ∧ tableOf c.sys a = some (some (P.addr h), some x.pt.length) ∧
      c.sys.coremap[h]? = some e ∧ e.allocpages = max 1 (ptFrames x.pt.length) ∧
      s' = ((c.sys.cleared x.pt).emptyRun h e.allocpages).withoutAs a := by
  obtain ⟨x, n, s1, hx, hn, hfree, rfl⟩ := asDestroy_eq_ok hrun
  have hg := (hc.phase a).good_of_npages hx hn
  obtain ⟨y, hy, hlaid⟩ := hg.laid
  obtain rfl := Option.some.inj (hx.symm.trans hy)
  obtain ⟨h, hpt, -⟩ := hg.table
  rw [hy, Option.bind_some] at hpt
  obtain rfl : n = x.pt.length := Option.some.inj (hn.symm.trans hlaid.npages)
  rw [List.take_length, Addrspace.ptPaddr, hpt, Option.getD_some] at hfree
  have htab : tableOf c.sys a = some (some (P.addr h), some x.pt.length) := by
    rw [tableOf, hx, Option.map_some, hpt, hn]
  have hfirst : (c.sys.cleared x.pt).firstpaddr = P.firstpaddr := hc.inv.firstpaddr
  have hix : (P.addr h - (c.sys.cleared x.pt).firstpaddr) / pageSize = h := by
    rw [hfirst, Layout.addr, Nat.add_sub_cancel_left, Nat.mul_div_cancel _ (by decide)]
  obtain ⟨e, he, hlen⟩ := hc.table a h _ htab
  obtain ⟨hbelow, -⟩ | ⟨-, e', he', rfl⟩ := freepages_eq_ok hfree
  · rw [hfirst, Layout.addr] at hbelow
    omega
  · rw [hix] at he' ⊢
    obtain rfl : e' = e := Option.some.inj (he'.symm.trans he)
    exact ⟨x, h, e', hx, htab, he', hlen, rfl⟩

/-- An entry of the coremap that is neither in the block that is given back nor owned
by `a` stays as it is. -/
theorem emptyRun_withoutAs {h k n : Nat} {e : CEntry} (hk : ¬ (h ≤ k ∧ k < h + n)) (hn : 0 < n)
    (he : s.coremap[k]? = some e) (ha : e.as ≠ some a) :
    ((s.emptyRun h n).withoutAs a).coremap[k]? = some e := by
  rw [Sys.withoutAs, List.getElem?_map, emptyRun_getElem hk hn, he, Option.map_some,
    CEntry.without, if_neg ha]

theorem destroy {u : Unit} (hc : Ok P g c) (hcur : c.sys.cur ≠ some a)
    (h : (asDestroy a).run t c.sys = .ok (u, s')) :
    ∃ g', Leads P (some a) g c.sys g' { c with sys := s' } := by
  obtain ⟨x, k, e, hx, htab, he, hlen, hs'⟩ := hc.destroy_eq h
  have hg : Good P (own a g c.sys) ∅ := by
    obtain ⟨y, hy, hyt⟩ := Option.map_eq_some_iff.mp htab
    exact (hc.phase a).good_of_npages hy (Prod.mk.inj hyt).2
  have hdoes : Does P a t c.sys.cur ⟨own a g c.sys, Set.univ⟩ (asDestroy a) _ := Does.asDestroy hg
  obtain ⟨g', v', hcall, hgone, -⟩ := hdoes.call hc.inv ⟨rfl, fun _ _ _ _ => trivial⟩ rfl h
  have hc' : s'.cur = c.sys.cur := by rw [hs']; rfl
  have htlb : validTlb s' = validTlb c.sys := by rw [hs']; rfl
  have has : ∀ b, b ≠ a → s'.as b = c.sys.as b := fun b hb => congrArg Own.as (hcall.others b hb)
  have hne : ∀ b, s'.cur = some b → b ≠ a := fun b hb hba => hcur (by rw [← hc', hb, hba])
  refine ⟨g', ⟨hcall.inv, fun b => ?_, fun b hb => ?_, fun b hb => ?_, fun b k' n ht => ?_,
    fun p hp => ?_, hc.nodup⟩, fun b hb => hcall.others b fun hba => hb (hba ▸ rfl)⟩
  · by_cases hba : b = a
    · rw [hba, hcall.own]
      exact .gone hgone
    · rw [hcall.others b hba]
      exact hc.phase b
  · rw [has b (hne b hb)]
    exact hc.live b (hc' ▸ hb)
  · rw [hcall.others b (hne b hb), htlb]
    exact hc.backed b (hc' ▸ hb)
  · have hba : b ≠ a := by
      rintro rfl
      have hnone : s'.as b = none := (congrArg Own.as hcall.own).trans hgone.1
      rw [tableOf, hnone] at ht
      cases ht
    rw [tableOf, has b hba] at ht
    obtain ⟨e', he', hlen'⟩ := hc.table b k' n ht
    obtain ⟨e1, he1, hnone, -⟩ := hc.inv.kernel k' k' _ (hc.home ht)
    obtain rfl := Option.some.inj (he'.symm.trans he1)
    refine ⟨e', ?_, hlen'⟩
    rw [hs']
    refine emptyRun_withoutAs (s := c.sys.cleared x.pt) (fun hr => ?_) (by omega) he' (by simp [hnone])
    -- the blocks of two page tables do not overlap
    obtain ⟨e2, he2, -, hblk⟩ := hc.inv.block k k _ (hc.home htab)
    obtain rfl := Option.some.inj (he.symm.trans he2)
    have := (hblk k').mpr hr
    rw [hc.home ht] at this
    simp only [Option.some.injEq, Prod.mk.injEq] at this
    exact hba this.2
  · obtain ⟨k', hk', hhome⟩ := hc.kernel p hp
    exact ⟨k', hk', hcall.keeps k' k' hhome⟩

theorem alloc {n p : Nat} (hc : Ok P g c) (hfree : firstFree c.sys.coremap ≠ none)
    (h : (allocKpages n).run t c.sys = .ok (p, s')) :
    ∃ g', Leads P none g c.sys g' ⟨s', p :: c.kpages⟩ := by
  obtain ⟨i, m, hp, htakes, hs'⟩ := allocKpages_takes hc.inv hfree h
  obtain ⟨hinv, hkeeps, hown⟩ := hc.inv.takes htakes none hs'
  have hsame : ∀ b, own b (g.takeBlock i m none) s' = own b g c.sys := fun b => (hown b).trans (by simp)
  have hks : Kpages P (g.takeBlock i m none) (p :: c.kpages) := hp ▸ hc.kpages.alloc hc.inv htakes
  refine ⟨g.takeBlock i m none, ⟨hinv, fun b => ?_, fun b hb => ?_, fun b hb => ?_,
    fun b k n ht => ?_, hks.kernel, hks.nodup⟩, fun b _ => hsame b⟩
  · rw [hsame]
    exact hc.phase b
  · rw [hs'] at hb ⊢
    exact hc.live b hb
  · rw [hsame, hs']
    rw [hs'] at hb
    exact hc.backed b hb
  · rw [hs'] at ht
    obtain ⟨e, he, hlen⟩ := hc.table b k n ht
    refine ⟨e, (htakes.rest k fun hr => ?_).trans he, hlen⟩
    have := hc.home ht
    rw [hc.inv.home_free (htakes.free k hr.1 hr.2)] at this
    cases this

theorem free {addr : Nat} {u : Unit} (hc : Ok P g c) (hmem : addr ∈ c.kpages)
    (h : (freeKpages addr).run t c.sys = .ok (u, s')) :
    ∃ g', Leads P none g c.sys g' ⟨s', c.kpages.erase addr⟩ := by
  obtain ⟨k, hk, hhome⟩ := hc.kernel addr hmem
  rw [hk] at h
  obtain ⟨e, he, hs', hcur, hinv, hown⟩ := hc.inv.freeKpages hhome h
  have hcur' : s'.cur = none := by rw [hs']; exact hcur
  obtain ⟨e1, he1, -, hblk⟩ := hc.inv.block k k none hhome
  obtain rfl := Option.some.inj (he.symm.trans he1)
  have hpos : 0 < e.allocpages := by
    have := (hblk k).mp hhome
    omega
  have hks : Kpages P (g.dropBlock k none) (c.kpages.erase addr) := hk ▸ hc.kpages.free
  refine ⟨g.dropBlock k none, ⟨hinv, fun b => ?_, by simp [hcur'], by simp [hcur'],
    fun b i n ht => ?_, hks.kernel, hks.nodup⟩, fun b _ => hown b⟩
  · rw [hown]
    exact hc.phase b
  · rw [hs'] at ht ⊢
    obtain ⟨e', he', hlen⟩ := hc.table b i n ht
    refine ⟨e', (emptyRun_getElem (fun hr => ?_) hpos).trans he', hlen⟩
    have := (hblk i).mpr hr
    rw [hc.home ht] at this
    simp at this

/-! ## Runs -/

/-- **Every call keeps it**, as long as the running address space is unambiguous. -/
theorem leads {call : Call} (hc : Ok P g c) (hu : Unambiguous c.sys)
    (hcall : perform t c call = some c') : ∃ g', Leads P (subject c call) g c.sys g' c' := by
  cases performed hcall with
  | switch hlive => exact ⟨g, hc.switch hlive⟩
  | create h => exact ⟨g, hc.create h⟩
  | define hn hva h => exact ⟨g, hc.define hn hva h⟩
  | prepare hn hfree h => exact hc.prepare hn hfree h
  | fault hmiss hfa h => exact hc.fault hu hmiss hfa h
  | destroy hcur h => exact hc.destroy hcur h
  | alloc hfree h => exact hc.alloc hfree h
  | free hmem h => exact hc.free hmem h

theorem step (hc : Ok P g c) (hu : Unambiguous c.sys) (hs : system.step c c') :
    ∃ g', Ok P g' c' := by
  rcases hs with ⟨t, call, hcall⟩ | ⟨n, m, rfl⟩
  · obtain ⟨g', h⟩ := hc.leads hu hcall
    exact ⟨g', h.ok⟩
  · exact ⟨g, hc.of_core rfl⟩

end Ok

def layout (s : Sys) : Layout := ⟨s.firstpaddr, s.coremapSize, s.nslots⟩

theorem ok_of_start (h : system.start c) : ∃ g, Ok (layout c.sys) g c := by
  obtain ⟨hf, hreads, hk⟩ := h
  have hgone : ∀ a, Does.Gone (own a ⟨fun _ => none, fun _ => none, fun _ _ => none⟩ c.sys) := by
    intro a
    refine ⟨hf.as a, fun x => ?_, by simp [own], fun _ => rfl⟩
    cases x with
    | slot k => rfl
    | frame q =>
        refine if_neg fun ho => ?_
        obtain ⟨i, e, he, hea, -⟩ := Sys.frameOwner_eq_some.mp ho
        rw [hf.coremap e (List.mem_of_getElem? he)] at hea
        cases hea
  have hinv : Inv (layout c.sys) ⟨fun _ => none, fun _ => none, fun _ _ => none⟩ c.sys := by
    refine ⟨hf.geometry, rfl, rfl, rfl, fun k => ?_, fun i e a he hea => ?_, by simp, by simp,
      hf.tlb ▸ tlbWf_emptyTlb, ?_, hreads⟩
    · simp only [ne_eq, not_true_eq_false, iff_false]
      exact fun hm => Bool.noConfusion (hf.swapMap true (List.mem_of_getElem? hm))
    · rw [hf.coremap e (List.mem_of_getElem? he)] at hea
      cases hea
    · exact Sys.observe_eq_self.mpr ⟨fun _ _ => rfl, fun a j e he => by simp [Sys.pte, hf.as] at he⟩
  exact ⟨_, hinv, fun a => .gone (hgone a), by simp [hf.cur], by simp [hf.cur],
    by simp [tableOf, hf.as], by simp [hk], by simp [hk]⟩

/-- The runs in which slots and frames are told apart. -/
def unaliased : Transitions Config := system.cut fun c _ => Unambiguous c.sys

theorem ok_of_reachable (h : unaliased.Reachable c) : ∃ P g, Ok P g c := by
  refine h.invariant (I := fun c => ∃ P g, Ok P g c) (fun c hc => ⟨_, ok_of_start hc⟩) ?_
  rintro c c' ⟨P, g, hc⟩ ⟨hs, hu⟩
  exact ⟨P, hc.step hu hs⟩

/-- The runs of machines whose slots are numbered below the address of the first frame. -/
def roomy : Transitions Config := system.restrict fun c => c.sys.nslots ≤ c.sys.firstpaddr

theorem Ok.unambiguous (hc : Ok P g c) (hP : P.slots ≤ P.firstpaddr) : Unambiguous c.sys := by
  intro a j e hcur he hin ho
  have hg := (hc.phase a).good_of_pte he
  have hslot := hg.tenancy.housed j _ (hg.placeOf_of_inSwap he hin)
  have hframe := hc.inv.placed.noAlias hP e.paddr hslot
  exact Option.some_ne_none _ ((if_pos ho).symm.trans hframe)

/-- On such machines slots and frames are always told apart. -/
theorem ok_of_roomy (h : roomy.Reachable c) :
    unaliased.Reachable c ∧ ∃ P g, P.slots ≤ P.firstpaddr ∧ Ok P g c := by
  refine h.invariant (I := fun c => unaliased.Reachable c ∧
    ∃ P g, P.slots ≤ P.firstpaddr ∧ Ok P g c) ?_ ?_
  · rintro c ⟨hstart, hslots⟩
    obtain ⟨g, hc⟩ := ok_of_start hstart
    exact ⟨.init hstart, _, g, hslots, hc⟩
  · rintro c c' ⟨hreach, P, g, hP, hc⟩ hs
    have hu := hc.unambiguous hP
    obtain ⟨g', hc'⟩ := hc.step hu hs
    exact ⟨hreach.next ⟨hs, hu⟩, P, g', hP, hc'⟩

theorem unambiguous_of_roomy (h : roomy.Reachable c) : Unambiguous c.sys := by
  obtain ⟨-, P, g, hP, hc⟩ := ok_of_roomy h
  exact hc.unambiguous hP

end Calls

end Os161Paging
