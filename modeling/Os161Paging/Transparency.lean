import Os161Paging.Holdings
import Os161Paging.Processes

/-!
# Paging is transparent

In every run of the machine, user code that reads a writable page finds
there what the record says: what the process has stored last, or what the
page contained when it first became resident.

The logic of shares is the regime in which this is proved. An address space no
thread is at work on is at rest: its writable pages contain what the record
says, and if it has the CPU, the TLB translates resident pages of it only.
A fault and a destruction bring it back there; every other step is one
that the logic expects of the others.
-/

namespace Os161Paging

open Prog

namespace Processes

open Calls

variable {P : Layout} {g g' : Ghost} {m m' : Machine} {a b : AsId} {t u : Tid} {s s' : Sys}
  {ks : List Nat}

/-! ## The invariant -/

/-- Threads act for address spaces, which rest with their record true and with every
translation backed. -/
def bookkeeping (P : Layout) : Regime AsId Ghost View where
  logic := shares P
  agent _ a := a
  calm _ v := Phase P v.own ∧ Faithful v.own ∧ Backed v.own v.tlb

/-- An address space at rest, as seen from the state. -/
structure Resting (P : Layout) (a : AsId) (g : Ghost) (s : Sys) : Prop where
  phase : Phase P (own a g s)
  faithful : Faithful (own a g s)
  backed : s.cur = some a → Backed (own a g s) (validTlb s)

theorem Resting.rests (h : Resting P a g s) (hi : Inv P g s) : (bookkeeping P).Rests a g s :=
  ⟨hi, ⟨own a g s, { e | s.cur = some a ∧ e ∈ validTlb s }⟩,
    ⟨rfl, fun hcur _ he hv => ⟨hcur, he, hv⟩⟩, h.phase, h.faithful,
    fun e he => h.backed he.1 e he.2⟩

theorem resting_of_rests (h : (bookkeeping P).Rests a g s) : Resting P a g s := by
  obtain ⟨-, ⟨o, tlb⟩, ⟨rfl, htlb⟩, hphase, hfaith, hbacked⟩ := h
  exact ⟨hphase, hfaith, fun hcur e he => hbacked e (htlb hcur e he.1 he.2)⟩

/-- Nothing is recorded of an address space that owns nothing. -/
theorem faithful_of_bare {o : Own} (hval : ∀ x, o.val x = none) (hmem : ∀ j, o.mem j = none) :
    Faithful o := by
  intro j _
  rw [hmem j, Option.bind_eq_none_iff.mpr fun x _ => hval x]

theorem rely_of_own (hinv : Inv P g' s') (hown : own b g' s' = own b g s)
    (htlb : s'.cur = some b → ∀ e ∈ validTlb s', s.cur = some b ∧ e ∈ validTlb s) :
    (shares P).Rely b g s g' s' := by
  refine ⟨fun _ => hinv, fun v hv => ⟨hown.trans hv.1, fun hcur e he hval => ?_⟩⟩
  obtain ⟨hcur', he'⟩ := htlb hcur e ⟨he, hval⟩
  exact hv.2 hcur' e he'.1 he'.2

structure Transparent (P : Layout) (g : Ghost) (m : Machine) : Prop where
  sound : (bookkeeping P).Sound g m
  record : m.record = g.mem
  kpages : Kpages P g m.kpages

namespace Transparent

theorem inv (hm : Transparent P g m) : Inv P g m.sys := hm.sound.inv

theorem rest (hm : Transparent P g m) (hs : ¬ m.Served a) : Resting P a g m.sys := by
  refine resting_of_rests (hm.sound.rest a ?_)
  rintro ⟨t, b, p, hjob, rfl⟩
  exact hs ⟨t, p, hjob⟩

theorem good (hm : Transparent P g m) (hs : ¬ m.Served a) (htab : hasTable m.sys a = true) :
    Good P (own a g m.sys) ∅ := by
  obtain ⟨x, n, hx, hn⟩ := hasTable_iff.mp htab
  exact (hm.rest hs).phase.good_of_npages hx hn

theorem backed (hm : Transparent P g m) (hrun : m.running = .proc a) (hs : ¬ m.Served a) :
    Backed (own a g m.sys) (validTlb m.sys) :=
  (hm.rest hs).backed (by rw [hm.sound.scheduled.cur, hrun]; rfl)

/-! ## Steps that leave the threads alone -/

/-- The state changes, on behalf of the resting `x` if that is an address space. -/
theorem set {x : Option AsId} {r : Record} (hm : Transparent P g m) (hinv : Inv P g' s')
    (hr : r = g'.mem) (hcur : s'.cur = m.sys.cur) (htlb : s'.tlb = m.sys.tlb)
    (hks : Kpages P g' ks) (hothers : ∀ b, x ≠ some b → own b g' s' = own b g m.sys)
    (hx : ∀ a, x = some a → ¬ m.Served a ∧ Resting P a g' s') :
    Transparent P g' { m with sys := s', kpages := ks, record := r } := by
  have hvalid : validTlb s' = validTlb m.sys := by rw [validTlb, htlb, validTlb]
  have hs := hm.sound.scheduled
  refine ⟨hm.sound.pass ⟨hcur.trans hs.cur, hs.present, hs.kthread, hs.apart, hs.tended⟩ hinv
    (fun _ _ _ => Iff.rfl) fun b => ?_, hr, hks⟩
  by_cases hxb : x = some b
  · obtain ⟨hserved, hrest⟩ := hx b hxb
    refine .inr ⟨?_, hrest.rests hinv⟩
    rintro ⟨t, _, p, hjob, rfl⟩
    exact hserved ⟨t, p, hjob⟩
  · exact .inl (rely_of_own hinv (hothers b hxb) fun hc e he => ⟨hcur.symm.trans hc, hvalid ▸ he⟩)

/-- A call for the resting `a` that others do not notice. -/
theorem of_apart (hm : Transparent P g m) (h : Apart P a g m.sys g' s') (hs : ¬ m.Served a)
    (hmem : (own a g' s').mem = (own a g m.sys).mem) (hrest : Resting P a g' s') :
    Transparent P g' (m.put s') := by
  have hsame : g'.mem = g.mem := by
    funext b
    by_cases hb : b = a
    · exact hb ▸ hmem
    · exact congrArg Own.mem (h.others b hb)
  refine hm.set (x := some a) h.inv ?_ h.cur h.tlb (hm.kpages.keep h.keeps) (fun b hb => ?_) ?_
  · change s'.observe m.record = g'.mem
    rw [hm.record, ← hsame]
    exact h.inv.observed
  · exact h.others b fun hba => hb (hba ▸ rfl)
  · rintro _ ⟨⟩
    exact ⟨hs, hrest⟩

theorem unseen (hm : Transparent P g m) (hinv : Inv P g' s') (hcur : s'.cur = m.sys.cur)
    (htlb : s'.tlb = m.sys.tlb) (hks : Kpages P g' ks) (hown : ∀ b, own b g' s' = own b g m.sys) :
    Transparent P g' { m.put s' with kpages := ks } := by
  have hsame : g'.mem = g.mem := funext fun b => congrArg Own.mem (hown b)
  refine hm.set (x := none) hinv ?_ hcur htlb hks (fun b _ => hown b) nofun
  change s'.observe m.record = g'.mem
  rw [hm.record, ← hsame]
  exact hinv.observed

theorem of_core (hm : Transparent P g m) (hcore : s'.core = m.sys.core) :
    Transparent P g (m.put s') := by
  have hcur : s'.core.cur = m.sys.core.cur := congrArg Sys.cur hcore
  have htlb : s'.core.tlb = m.sys.core.tlb := congrArg Sys.tlb hcore
  exact hm.unseen (hm.inv.core_congr hcore) hcur htlb hm.kpages fun b => own_core_congr hcore

/-- No entry of the TLB translates a page of an address space that is being loaded. -/
theorem backed_of_loading {o : Own} (hm : Transparent P g m) (hs : ¬ m.Served a)
    (hl : Loading (own a g m.sys)) (hcur : m.sys.cur = some a) : Backed o (validTlb m.sys) :=
  fun _ he => (hl.not_backed ((hm.rest hs).backed hcur) he).elim

theorem create {p : Option AsId} {f : Option File} {r : Except Errno AsId} (hm : Transparent P g m)
    (hbusy : ∀ a, p = some a → ¬ m.Busy a) (h : (asCreate p f).run t m.sys = .ok (r, s')) :
    Transparent P g (m.put s') := by
  have hserved : ∀ a, p = some a → ¬ m.Served a := fun a ha hs => hbusy a ha (.inr hs)
  obtain hcore | ⟨a, rfl, hnone, hapart, hl⟩ := asCreate_apart hm.inv
    (fun a ha hnone => (hm.rest (hserved a ha)).phase.gone_of_none hnone) h
  · exact hm.of_core hcore
  · refine hm.of_apart hapart (hserved a rfl) rfl
      ⟨.loading hl, faithful_of_bare hl.val hl.mem, fun hcur => ?_⟩
    rw [hapart.cur] at hcur
    exact absurd hcur (hm.sound.scheduled.cur_ne (hbusy a rfl))

theorem define {vaddr memsize filesize rd wr ex offset : Nat} {r : Option Errno}
    (hm : Transparent P g m) (hs : ¬ m.Served a)
    (hn : ∀ x, m.sys.as a = some x → x.npages = none) (hva : vaddr < 2 ^ 32)
    (h : (asDefineRegion a vaddr memsize filesize rd wr ex offset).run t m.sys = .ok (r, s')) :
    Transparent P g (m.put s') := by
  obtain ⟨-, -, rfl⟩ | ⟨-, -, x, hx, -⟩ := asDefineRegion_cases h
  · exact hm.of_core rfl
  · have hl := (hm.rest hs).phase.loading_of_npages hx (hn x hx)
    obtain ⟨hapart, hl'⟩ := asDefineRegion_apart hm.inv hl hva h
    refine hm.of_apart hapart hs rfl
      ⟨.loading hl', faithful_of_bare hl'.val hl'.mem, fun hcur => ?_⟩
    rw [validTlb, hapart.tlb]
    exact hm.backed_of_loading hs hl (hapart.cur.symm.trans hcur)

theorem prepare {r : Option Errno} (hm : Transparent P g m) (hs : ¬ m.Served a)
    (hn : ∀ x, m.sys.as a = some x → x.npages = none) (hfree : firstFree m.sys.coremap ≠ none)
    (h : (asPrepareLoad a).run t m.sys = .ok (r, s')) : ∃ g', Transparent P g' (m.put s') := by
  obtain ⟨-, rfl⟩ | ⟨x, -, -, hx, -⟩ := asPrepareLoad_cases h
  · exact ⟨g, hm.of_core rfl⟩
  have hl := (hm.rest hs).phase.loading_of_npages hx (hn x hx)
  obtain ⟨-, hcore⟩ | ⟨-, g', hp⟩ := asPrepareLoad_apart hm.inv hl hfree h
  · exact ⟨g, hm.of_core hcore⟩
  · obtain ⟨hval, hmem⟩ := hp.bare
    refine ⟨g', hm.of_apart hp.apart hs (funext fun j => ?_)
      ⟨.good hp.good, faithful_of_bare hval hmem, fun hcur => ?_⟩⟩
    · rw [hmem, hl.mem]
    · rw [validTlb, hp.apart.tlb]
      exact hm.backed_of_loading hs hl (hp.apart.cur.symm.trans hcur)

theorem alloc {n p : Nat} (hm : Transparent P g m) (hfree : firstFree m.sys.coremap ≠ none)
    (h : (allocKpages n).run t m.sys = .ok (p, s')) :
    ∃ g', Transparent P g' { m.put s' with kpages := p :: m.kpages } := by
  obtain ⟨i, n, hp, htakes, hs'⟩ := allocKpages_takes hm.inv hfree h
  obtain ⟨hinv, -, hown⟩ := hm.inv.takes htakes none hs'
  have hcur : s'.cur = m.sys.cur := by rw [hs']
  have htlb : s'.tlb = m.sys.tlb := by rw [hs']
  exact ⟨g.takeBlock i n none, hm.unseen hinv hcur htlb (hp ▸ hm.kpages.alloc hm.inv htakes)
    fun b => (hown b).trans (by simp)⟩

theorem free {addr : Nat} {u : Unit} (hm : Transparent P g m) (hmem : addr ∈ m.kpages)
    (h : (freeKpages addr).run t m.sys = .ok (u, s')) :
    ∃ g', Transparent P g' { m.put s' with kpages := m.kpages.erase addr } := by
  obtain ⟨k, hk, hhome⟩ := hm.kpages.kernel addr hmem
  rw [hk] at h
  obtain ⟨e, -, hs', -, hinv, hown⟩ := hm.inv.freeKpages hhome h
  have hcur : s'.cur = m.sys.cur := by rw [hs']; rfl
  have htlb : s'.tlb = m.sys.tlb := by rw [hs']; rfl
  exact ⟨g.dropBlock k none, hm.unseen hinv hcur htlb (hk ▸ hm.kpages.free) hown⟩

/-- The calls that are taken as one step. -/
theorem call {call : Call} {c : Config} (hm : Transparent P g m) (hfree : m.job m.running = .free)
    (hadmits : m.Admits call) (hcall : perform m.running ⟨m.sys, m.kpages⟩ call = some c) :
    ∃ g', Transparent P g' { m.put c.sys with kpages := c.kpages } := by
  have hserved : ∀ a, m.running = .proc a ∨ ¬ m.Busy a → ¬ m.Served a := by
    rintro a (hrun | hbusy)
    · exact hm.sound.scheduled.not_served (hrun ▸ hfree)
    · exact fun hs => hbusy (.inr hs)
  cases performed hcall with
  | switch _ => exact hadmits.elim
  | create h => exact ⟨g, hm.create hadmits h⟩
  | define hn hva h => exact ⟨g, hm.define (hserved _ hadmits) hn hva h⟩
  | prepare hn hroom h => exact hm.prepare (hserved _ hadmits) hn hroom h
  | fault _ _ _ => exact hadmits.elim
  | destroy _ _ => exact hadmits.elim
  | alloc hroom h => exact hm.alloc hroom h
  | free hmem h => exact hm.free hmem h

/-! ## Threads -/

theorem activate_rely (hi : Inv P g s) (x : Option AsId) :
    Inv P g (s.activate x) ∧ ∀ b, (shares P).Rely b g s g (s.activate x) := by
  have hact := hi.activate x
  refine ⟨hact.inv, fun b => rely_of_own hact.inv (hact.own b) fun hcur e he => ?_⟩
  rw [hact.tlb b hcur] at he
  exact he.elim

theorem activate_record (hm : Transparent P g m) (x : Option AsId) :
    (m.sys.activate x).observe m.record = g.mem := by
  rw [hm.record]
  exact (hm.inv.activate x).inv.observed

theorem miss {ty : FaultType} {va : Nat} (hm : Transparent P g m) (hP : P.slots ≤ P.firstpaddr)
    (hslots : P.slots ≤ 2 ^ 20) (hu : m.InUser a)
    (hmiss : allowed ⟨m.sys, m.kpages⟩ (.fault ty va) = true) :
    Transparent P g (m.doing (.proc a) (.work a (vmFault ty va >>= fun _ => pure ()))) := by
  obtain ⟨hrun, hfree, htab⟩ := hu
  obtain ⟨hout, hva⟩ := allowed_fault.mp hmiss
  have hs := hm.sound.scheduled.not_served hfree
  have hrest : Rest P ⟨own a g m.sys, validTlb m.sys⟩ ∅ := ⟨hm.good hs htab, hm.backed hrun hs⟩
  have hdoes : Does P a (.proc a) (some a) ⟨own a g m.sys, validTlb m.sys⟩
      (vmFault ty va >>= fun _ => pure ()) fun _ => (bookkeeping P).calm a := by
    refine Views.Triple.bind (Does.vmFault rfl hrest (hm.inv.placed.noAlias hP) hout hva) ?_
    rintro _ v ⟨hv, hfaith⟩
    exact Views.Triple.pure ⟨.good hv.good, hfaith hslots (hm.rest hs).faithful, hv.backed⟩
  rw [← hrun] at hfree ⊢
  refine ⟨hm.sound.begin hfree ?_ hs (.inl hrun) ?_, hm.record, hm.kpages⟩
  · rintro ⟨t, _, p, hjob, rfl⟩
    exact hs ⟨t, p, hjob⟩
  · rw [hrun]
    exact hdoes g m.sys hm.inv ⟨rfl, fun _ e he hv => ⟨he, hv⟩⟩

/-- The destruction of an address space nobody else has to do with. -/
theorem destroy (hm : Transparent P g m) (hfree : m.job m.running = .free) (hbusy : ¬ m.Busy a)
    (htab : hasTable m.sys a = true) :
    Transparent P g (m.doing m.running (.work a (asDestroy a))) := by
  have hs : ¬ m.Served a := fun hs => hbusy (.inr hs)
  have hdoes : Does P a m.running m.running.as ⟨own a g m.sys, ∅⟩ (asDestroy a)
      fun _ => (bookkeeping P).calm a := by
    refine Views.Triple.mono (Does.asDestroy (hm.good hs htab)) ?_
    rintro _ v ⟨hgone, htlb⟩
    refine ⟨.gone hgone, faithful_of_bare hgone.2.1 hgone.2.2.2, ?_⟩
    rw [htlb]
    exact fun e he => he.elim
  refine ⟨hm.sound.begin hfree ?_ hs (.inr (not_not.mp fun h => hbusy (.inl h)))
    (hdoes g m.sys hm.inv ⟨rfl, fun hcur => ?_⟩), hm.record, hm.kpages⟩
  · rintro ⟨t, _, p, hjob, rfl⟩
    exact hs ⟨t, p, hjob⟩
  · exact absurd hcur (hm.sound.scheduled.cur_ne hbusy)

/-! ## User code -/

/-- The page an entry of the TLB stands for. -/
structure Behind (a : AsId) (g : Ghost) (s : Sys) (va : Nat) (e : TlbEntry) (j : Nat) (pe : PtEntry) :
    Prop where
  pte : s.pte a j = some pe
  page : pageOf s a va = some j
  place : (own a g s).placeOf j = some (.frame pe.paddr)
  owner : s.frameOwner pe.paddr = some a
  paddr : physical e va = pe.paddr + offset va
  dirty : e.dirty = pe.writable

/-- **The TLB translates an address of the running process to where its page is.** -/
theorem behind {va : Nat} {e : TlbEntry} (hm : Transparent P g m) (hu : m.InUser a)
    (hhit : Hits m.sys va e) : ∃ j pe, Behind a g m.sys va e j pe := by
  obtain ⟨hrun, hfree, htab⟩ := hu
  have hs := hm.sound.scheduled.not_served hfree
  have hg := hm.good hs htab
  obtain ⟨j, pe, hpte, hin, hva, hpa, hdirty⟩ := hm.backed hrun hs e hhit.1
  have hplace : (own a g m.sys).placeOf j = some (.frame pe.paddr) := by
    rw [Own.placeOf_eq hpte, PtEntry.place_inMem hin]
  obtain ⟨d, hd⟩ := Option.ne_none_iff_exists'.mp (hg.tenancy.housed j _ hplace)
  obtain ⟨-, x, hx, hlook⟩ := hg.found j pe hpte (by simp [PtEntry.place_inMem hin])
  refine ⟨j, pe, hpte, ?_, hplace, (Does.frame_of_own rfl hd).1, by rw [hpa]; rfl, hdirty⟩
  have hx : m.sys.as a = some x := hx
  rw [pageOf, hx, Option.bind_some, ← hhit.2, ← hva, hlook]

/-- Storing to a page does not make it known or unknown. -/
theorem observe_store {j : Option Nat} {o : Fin pageSize} {x : Byte} {ram : Mem} (hi : Inv P g s) :
    Sys.observe { s with ram := ram } (Record.store g.mem a j o x) = Record.store g.mem a j o x := by
  obtain ⟨hnone, hsome⟩ := Sys.observe_eq_self.mp hi.observed
  have hiff : ∀ b i, Record.store g.mem a j o x b i = none ↔ g.mem b i = none := by
    intro b i
    rw [Record.store]
    split
    · exact Option.map_eq_none_iff
    · exact Iff.rfl
  refine Sys.observe_eq_self.mpr ⟨fun b hb => funext fun i => ?_, fun b i e he hin h => ?_⟩
  · exact (hiff b i).mpr (congrFun (hnone b hb) i)
  · exact hsome b i e he hin ((hiff b i).mp h)

/-- A store through the TLB, and its entry in the record. -/
theorem store {va : Nat} {e : TlbEntry} {x : Byte} (hm : Transparent P g m) (hu : m.InUser a)
    (hhit : Hits m.sys va e) :
    ∃ g', Transparent P g' { m with
      sys := { m.sys with ram := m.sys.ram.store (physical e va) x }
      record := m.record.store a (pageOf m.sys a va) (offset va) x } := by
  obtain ⟨j, pe, hb⟩ := hm.behind hu hhit
  have hs := hm.sound.scheduled.not_served hu.2.1
  have hg := hm.good hs hu.2.2
  have hval : (own a g m.sys).val (.frame pe.paddr) = some (m.sys.ram.page pe.paddr) :=
    if_pos hb.owner
  have hpage : (m.sys.ram.store (physical e va) x).page pe.paddr =
      Function.update (m.sys.ram.page pe.paddr) (offset va) x := by
    rw [hb.paddr]
    exact Mem.page_store
  obtain ⟨hmove, hown⟩ := hm.inv.setRam (m := m.sys.ram.store (physical e va) x) hb.owner
    fun z hz => if_neg (by have := (offset va).isLt; rw [hb.paddr]; omega)
  rw [hpage] at hown
  set s' := { m.sys with ram := m.sys.ram.store (physical e va) x } with hs'
  set r : Record := Record.store g.mem a (some j) (offset va) x with hr
  have hmem : r a = Function.update (g.mem a) j ((g.mem a j).map fun d =>
      Function.update d (offset va) x) := by
    funext i
    by_cases hij : i = j
    · simp [hr, Record.store, hij]
    · simp [hr, Record.store, hij]
  have hown' : own a { g with mem := r } s' =
      { (own a g m.sys).set (.frame pe.paddr)
          (some (Function.update (m.sys.ram.page pe.paddr) (offset va) x)) with mem := r a } := by
    rw [← hown]
    rfl
  refine ⟨{ g with mem := r }, hm.set (x := some a) ?_ ?_ rfl rfl
    ⟨hm.kpages.kernel, hm.kpages.nodup⟩ (fun b hba => ?_) ?_⟩
  · exact { hmove.inv with observed := observe_store hm.inv }
  · rw [hm.record, hb.page]
  · have hba : b ≠ a := fun h => hba (h ▸ rfl)
    refine Eq.trans ?_ (hmove.others b hba)
    refine Own.ext rfl rfl rfl (funext fun i => ?_)
    simp [own, hr, Record.store, hba]
  · rintro _ ⟨⟩
    have hrest := hm.rest hs
    refine ⟨hs, hown' ▸ .good ⟨hg.laid, hg.table, hg.shaped, hg.tenancy.refill (by simp [hval]),
      hg.found⟩, ?_, fun hcur => hown' ▸ hrest.backed hcur⟩
    have hfaith := hrest.faithful.modify (fun d => Function.update d (offset va) x)
      hg.tenancy hb.place hval
    rw [hown']
    change Remembers (r a) _ _ _
    rw [hmem]
    exact hfaith

/-- **Every step of the machine keeps it.** -/
theorem step (hm : Transparent P g m) (hP : P.slots ≤ P.firstpaddr) (hslots : P.slots ≤ 2 ^ 20)
    (hs : Step m m') : ∃ g', Transparent P g' m' := by
  have hact := fun x => activate_rely hm.inv x
  cases hs with
  | switch hjob _ => exact ⟨g, hm.sound.switch hact hjob, hm.activate_record _, hm.kpages⟩
  | start _ _ hbusy _ => exact ⟨g, hm.sound.start hact hbusy, hm.activate_record _, hm.kpages⟩
  | exit _ hfree _ => exact ⟨g, hm.sound.exit hact hfree, hm.activate_record _, hm.kpages⟩
  | call hfree hadmits hcall => exact hm.call hfree hadmits hcall
  | background => exact ⟨g, hm.of_core rfl⟩
  | store x hu hhit _ => exact hm.store hu hhit
  | miss hu hmiss => exact ⟨g, hm.miss hP hslots hu hmiss⟩
  | destroy hfree hbusy htab => exact ⟨g, hm.destroy hfree hbusy htab⟩
  | act hjob hf =>
      obtain ⟨g', ⟨hmem, hkeeps⟩, hsound⟩ := hm.sound.act hjob hf
      refine ⟨g', hsound, ?_, hm.kpages.keep hkeeps⟩
      rw [hmem, ← hm.record]
      rfl
  | done hjob => exact ⟨g, hm.sound.done hjob, hm.record, hm.kpages⟩

end Transparent

/-! ## Runs -/

theorem transparent_of_start (h : machine.start m) (hreads : ∀ n, m.sys.world.swapRead n = none) :
    ∃ g, Transparent (layout m.sys) g m := by
  obtain ⟨hfresh, hks, -, -, -, hrec⟩ := id h
  obtain ⟨g, hok⟩ := ok_of_start (c := ⟨m.sys, m.kpages⟩) ⟨hfresh, hreads, hks⟩
  have hmem : g.mem = fun _ _ => none := funext fun a =>
    (Sys.observe_eq_self.mp hok.inv.observed).1 a (hfresh.as a)
  refine ⟨g, .of_start h hok.inv fun a => ?_, hrec.trans hmem.symm, hok.kpages⟩
  have hgone := (hok.phase a).gone_of_none (hfresh.as a)
  exact Resting.rests ⟨hok.phase a, faithful_of_bare hgone.2.1 hgone.2.2.2, hok.backed a⟩ hok.inv

/-- The machines whose swap device can be read and has at most 65535 slots, numbered
below the address of the first frame. -/
def steady : Transitions Machine := machine.restrict fun m =>
  (∀ n, m.sys.world.swapRead n = none) ∧ m.sys.nslots ≤ 65535 ∧ m.sys.nslots < m.sys.firstpaddr

theorem transparent_of_reachable (h : steady.Reachable m) : ∃ P g, Transparent P g m := by
  have hall : ∃ P g, P.slots ≤ P.firstpaddr ∧ P.slots ≤ 2 ^ 20 ∧ Transparent P g m := by
    refine h.invariant (I := fun m => ∃ P g, P.slots ≤ P.firstpaddr ∧ P.slots ≤ 2 ^ 20 ∧
      Transparent P g m) ?_ ?_
    · rintro m ⟨hstart, hreads, hslots, hfirst⟩
      obtain ⟨g, hm⟩ := transparent_of_start hstart hreads
      exact ⟨_, g, hfirst.le, Nat.le_trans hslots (by decide), hm⟩
    · rintro m m' ⟨P, g, hP, hslots, hm⟩ hs
      obtain ⟨g', hm'⟩ := hm.step hP hslots hs
      exact ⟨P, g', hP, hslots, hm'⟩
  obtain ⟨P, g, -, -, hm⟩ := hall
  exact ⟨P, g, hm⟩

/-- **Paging is transparent.** Whatever the processes do and however they are
interleaved, what user code reads in a writable page of its address space is what the
record says of it: what the same process has stored there last, or what the page
contained when it first became resident. -/
theorem user_reads_record {va j : Nat} {e : TlbEntry} {pe : PtEntry} (h : steady.Reachable m)
    (hu : m.InUser a) (hhit : Hits m.sys va e) (hpage : pageOf m.sys a va = some j)
    (hpte : m.sys.pte a j = some pe) (hw : pe.writable = true) :
    ∃ d, m.record a j = some d ∧ m.sys.ram (physical e va) = d (offset va) := by
  obtain ⟨P, g, hm⟩ := transparent_of_reachable h
  obtain ⟨j', pe', hb⟩ := hm.behind hu hhit
  obtain rfl := Option.some.inj (hb.page.symm.trans hpage)
  have hfaith := (hm.rest (hm.sound.scheduled.not_served hu.2.1)).faithful j' ⟨pe, hpte, hw⟩
  refine ⟨m.sys.ram.page pe'.paddr, ?_, by rw [hb.paddr]; rfl⟩
  have hval : (own a g m.sys).val (.frame pe'.paddr) = some (m.sys.ram.page pe'.paddr) :=
    if_pos hb.owner
  rw [hm.record]
  refine hfaith.trans ?_
  rw [hb.place, Option.bind_some, hval]

/-! ## On the machine with three frames -/

def writeByte (va : Nat) (x : Byte) (c : Config) : Option Config :=
  (c.sys.tlb.find? fun e => e.valid && e.vpage == pageFrame va && e.dirty).map fun e =>
    { c with sys := { c.sys with ram := c.sys.ram.store (physical e va) x } }

/-- A program writes to the first page of its stack and then to four others, for which
there are two frames; the first page has to come back from the swap file to be read. -/
def writeAndReadBack : Option Config :=
  (launch .kernel 0 (threeFrames .calm 4)).bind fun c =>
    ([Call.fault .write (stackPage 0)].foldlM (perform (.proc 0)) c).bind fun c =>
      (writeByte (stackPage 0) 7 c).bind fun c =>
        (touchFive.drop 1 ++ [Call.fault .read (stackPage 0)]).foldlM (perform (.proc 0)) c

theorem atBoot_threeFrames : At steady (threeFrames .calm 4) .kernel atBoot :=
  ⟨_, .init ⟨start_atBoot (threeFrames_start .calm 4 fun _ => rfl).1, fun _ => rfl, by decide,
    by decide⟩⟩

theorem writeByte_at {M : Transitions Machine} {c c' : Config} {va : Nat} {x : Byte}
    {job : Tid → Job} (hM : ∀ m m', Step m m' → M.step m m') (h : At M c (.proc a) job)
    (hfree : job (.proc a) = .free) (htab : hasTable c.sys a = true)
    (hw : writeByte va x c = some c') : At M c' (.proc a) job ∧ hasTable c'.sys a = true := by
  obtain ⟨e, he, rfl⟩ := Option.map_eq_some_iff.mp hw
  have hcheck := List.find?_some he
  simp only [Bool.and_eq_true, beq_iff_eq] at hcheck
  exact ⟨h.store (C := fun _ _ => True) (fun m m' hs _ => hM m m' hs) hfree htab
    ⟨⟨List.mem_of_find?_eq_some he, hcheck.1.1⟩, hcheck.1.2⟩ hcheck.2 trivial, htab⟩

set_option maxRecDepth 100000 in
/-- The byte that was stored is read after its page has been in the swap file. -/
theorem user_reads_record_threeFrames :
    ∃ m e d, steady.Reachable m ∧ Hits m.sys (stackPage 0) e ∧ m.record 0 0 = some d ∧
      m.sys.ram (physical e (stackPage 0)) = d (offset (stackPage 0)) ∧
      d (offset (stackPage 0)) = 7 := by
  have hrun : writeAndReadBack.any (fun c =>
      pageOf c.sys 0 (stackPage 0) == some 0 && ((c.sys.pte 0 0).any (·.writable) &&
        c.sys.tlb.any fun e => e.valid && (e.vpage == pageFrame (stackPage 0) &&
          c.sys.ram (physical e (stackPage 0)) == 7))) = true := by
    decide +kernel
  obtain ⟨c, hc, hcheck⟩ := (Option.any_eq_true _ _).mp hrun
  simp only [Bool.and_eq_true, beq_iff_eq, List.any_eq_true, Option.any_eq_true] at hcheck
  obtain ⟨hpage, ⟨pe, hpte, hw⟩, e, he, hval, hvp, hseven⟩ := hcheck
  obtain ⟨c1, h1, hc⟩ := Option.bind_eq_some_iff.mp hc
  obtain ⟨c2, h2, hc⟩ := Option.bind_eq_some_iff.mp hc
  obtain ⟨c3, h3, hc⟩ := Option.bind_eq_some_iff.mp hc
  obtain ⟨hat, htab⟩ := atBoot_threeFrames.launch (C := fun _ _ => True) (fun _ _ hs _ => hs) rfl
    atBoot_idle rfl (fun _ _ _ => trivial) h1
  have hfree : Function.update atBoot (.proc 0) .free (.proc 0) = .free := Function.update_self ..
  obtain ⟨hat, htab⟩ := hat.faults (C := fun _ _ => True) (fun _ _ hs _ => hs) _ (by simp) hfree htab
    (fun _ => trivial) h2
  obtain ⟨hat, htab⟩ := writeByte_at (fun _ _ hs => hs) hat hfree htab h3
  obtain ⟨⟨r, hr⟩, htab⟩ := hat.faults (C := fun _ _ => True) (fun _ _ hs _ => hs) _
    (by simp [touchFive, List.range_succ]) hfree htab (fun _ => trivial) hc
  obtain ⟨d, hd, hread⟩ := user_reads_record hr ⟨rfl, hfree, htab⟩ ⟨⟨he, hval⟩, hvp⟩ hpage hpte hw
  exact ⟨_, e, d, hr, ⟨⟨he, hval⟩, hvp⟩, hd, hread, hread.symm.trans hseven⟩

end Processes

end Os161Paging
