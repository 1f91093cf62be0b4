import Os161Paging.Addrspace

/-!
# How the actions of the kernel run

One lemma per action: when it returns, and with what state. A call is
taken apart with these and `Prog.run_bind_eq_ok`; no later proof unfolds
an action again.
-/

namespace Os161Paging

open Prog

variable {t : Tid} {s s' : Sys} {l : Lock} {u : Unit} {a : AsId} {j k : Nat} {e : PtEntry}
  {as : Addrspace}

/-! ## Locks -/

theorem grab_eq_ok {msg : String} :
    (grab l msg).run t s = .ok (u, s') ↔ s.owner l = none ∧ s' = s.take t l := by
  rw [grab, run_exec]
  cases h : s.owner l with
  | none => simp [eq_comm]
  | some w => by_cases hw : w = t <;> simp [hw]

theorem letGo_eq_ok {msg : String} :
    (letGo l msg).run t s = .ok (u, s') ↔ s.owner l = some t ∧ s' = s.drop l := by
  rw [letGo, run_exec]
  by_cases h : s.owner l = some t <;> simp [h, eq_comm]

theorem lockAcquire_eq_ok :
    (lockAcquire l).run t s = .ok (u, s') ↔ s.owner l = none ∧ s' = s.take t l := grab_eq_ok

theorem lockRelease_eq_ok :
    (lockRelease l).run t s = .ok (u, s') ↔ s.owner l = some t ∧ s' = s.drop l := letGo_eq_ok

theorem spinlockAcquire_eq_ok :
    (spinlockAcquire l).run t s = .ok (u, s') ↔ s.owner l = none ∧ s' = s.take t l := grab_eq_ok

theorem spinlockRelease_eq_ok :
    (spinlockRelease l).run t s = .ok (u, s') ↔ s.owner l = some t ∧ s' = s.drop l := letGo_eq_ok

theorem canLock_eq_ok {b : Bool} :
    canLock.run t s = .ok (b, s') ↔ b = !s.spinning t ∧ s' = s := by
  simp [canLock, eq_comm]

theorem canSleep_eq_ok :
    canSleep.run t s = .ok (u, s') ↔ s.spinning t = false ∧ s' = s := by
  rw [canSleep, run_exec]
  cases s.spinning t <;> simp [eq_comm]

/-! ## Reading and changing the state -/

theorem gets_eq_ok {ρ : Type} {f : Sys → ρ} {r : ρ} :
    (gets f : VM ρ).run t s = .ok (r, s') ↔ r = f s ∧ s' = s := by
  simp [eq_comm]

theorem modify_eq_ok {f : Sys → Sys} :
    (modify f : VM Unit).run t s = .ok (u, s') ↔ s' = f s := by
  simp [eq_comm]

theorem pure_eq_ok {α : Type} {x y : α} :
    (pure x : VM α).run t s = .ok (y, s') ↔ y = x ∧ s' = s := by
  simp [eq_comm]

theorem fail_eq_ok {α : Type} {m : String} {x : α} :
    (Prog.fail m : VM α).run t s = .ok (x, s') ↔ False := by
  simp

/-! ## Page-table entries -/

theorem getAs_eq_ok : (getAs a).run t s = .ok (as, s') ↔ s.as a = some as ∧ s' = s := by
  rw [getAs, run_exec]
  cases s.as a <;> simp [eq_comm]

theorem getPte_eq_ok : (getPte a j).run t s = .ok (e, s') ↔ s.pte a j = some e ∧ s' = s := by
  rw [getPte, run_exec]
  cases s.pte a j <;> simp [eq_comm]

theorem updPte_eq_ok {f : PtEntry → PtEntry} :
    (updPte a j f).run t s = .ok (u, s') ↔ (s.pte a j).isSome ∧ s' = s.modPte a j f := by
  rw [updPte, run_exec]
  cases s.pte a j <;> simp [eq_comm]

theorem Sys.pte_modPte {b : AsId} {f : PtEntry → PtEntry} :
    (s.modPte a j f).pte b k =
      if b = a ∧ k = j then (s.pte b k).map f else s.pte b k := by
  by_cases hb : b = a
  · subst hb
    rw [Sys.pte, Sys.modPte]
    simp only [Function.update_self, true_and]
    cases h : s.as b with
    | none => simp [Sys.pte, h]
    | some as =>
        simp only [Option.map_some, Option.bind_some, Addrspace.modifyPte, List.getElem?_modify,
          Sys.pte, h]
        by_cases hk : k = j
        · simp [hk]
        · simp [hk, Ne.symm hk]
  · simp [Sys.pte, Sys.modPte, hb]

@[simp] theorem Sys.pte_modPte_self {f : PtEntry → PtEntry} :
    (s.modPte a j f).pte a j = (s.pte a j).map f := by
  simp [Sys.pte_modPte]

/-! ## Devices -/

/-- What `load_segment` returns after a read of `n` bytes of the executable `f`. -/
def Sys.elfResult (s : Sys) (f : File) (offset n : Nat) : Option Errno :=
  (s.world.elfRead s.elfReads).or (if f.avail offset n < n then some .ENOEXEC else none)

theorem loadSegment_swap_eq_ok {offset paddr n : Nat} {r : Option Errno} :
    (loadSegment .swapFile offset paddr n n).run t s = .ok (r, s') ↔
      r = s.world.swapRead s.swapReads ∧ s' = s.readSwap offset paddr n := by
  simp only [loadSegment, vopRead, run_bind, run_exec, gt_iff_lt, Nat.lt_irrefl,
    if_false]
  cases s.world.swapRead s.swapReads <;> simp [eq_comm]

theorem loadSegment_exe_eq_ok {offset paddr m n : Nat} {r : Option Errno} :
    (loadSegment (.exe a) offset paddr m n).run t s = .ok (r, s') ↔
      ∃ as, s.as a = some as ∧ r = s.elfResult as.v offset (min n m) ∧
        s' = s.readElf as.v offset paddr (min n m) := by
  have hmin : (if n > m then m else n) = min n m := by
    split <;> omega
  simp only [loadSegment, vopRead, run_bind, run_exec, hmin]
  cases s.as a with
  | none => simp
  | some as =>
      cases hw : s.world.elfRead s.elfReads with
      | some err => simp [Sys.elfResult, hw, eq_comm]
      | none =>
          have hres : (min n m - as.v.avail offset (min n m) ≠ 0) =
              (as.v.avail offset (min n m) < min n m) := by
            simp only [ne_eq, Nat.sub_eq_zero_iff_le, Nat.not_le]
          simp only [Outcome.bind_ok, run_pure, hres, Sys.elfResult, hw, Option.none_or]
          simp [eq_comm]

theorem leaveSlot_eq_ok {toRemove : Bool} :
    (leaveSlot k toRemove).run t s = .ok (u, s') ↔
      s.swapMap[k]? = some true ∧ s' = if toRemove then (s.setSlot k false).decUsed else s := by
  rw [leaveSlot, run_exec]
  rcases s.swapMap[k]? with _ | _ | _ <;> simp [eq_comm]

theorem bitmapAlloc_eq_ok {r : Option Nat} :
    bitmapAlloc.run t s = .ok (r, s') ↔
      r = s.world.bitmapAlloc s.swapMap ∧ s' = r.elim s (s.setSlot · true) := by
  rw [bitmapAlloc, run_exec]
  cases s.world.bitmapAlloc s.swapMap <;> grind

theorem vopWrite_eq_ok {paddr offset : Nat} :
    (vopWrite paddr offset).run t s = .ok (u, s') ↔
      s.world.swapWrite s.swapWrites = none ∧ s' = s.writeSwap paddr offset := by
  rw [vopWrite, run_exec]
  cases s.world.swapWrite s.swapWrites <;> simp [eq_comm]

theorem bitmapUnmark_eq_ok :
    (bitmapUnmark k).run t s = .ok (u, s') ↔
      s.swapMap[k]? = some true ∧ s' = s.setSlot k false := by
  rw [bitmapUnmark, run_exec]
  rcases s.swapMap[k]? with _ | _ | _ <;> simp [eq_comm]

theorem kmalloc_eq_ok {b : Bool} :
    kmalloc.run t s = .ok (b, s') ↔
      b = s.world.kmalloc s.kmallocs ∧ s' = { s with kmallocs := s.kmallocs + 1 } := by
  simp [kmalloc, eq_comm]

/-! ## The coremap -/

theorem claimFree_eq_ok {isReserved : Bool} {vaddr : Nat} {as : Option AsId} {r : Option Nat} :
    (claimFree isReserved vaddr as).run t s = .ok (r, s') ↔
      r = firstFree s.coremap ∧ s' = r.elim s (s.claim · isReserved vaddr as) := by
  rw [claimFree, run_exec]
  cases firstFree s.coremap <;> grind

theorem findVictim_eq_ok {i : Nat} :
    (findVictim a).run t s = .ok (i, s') ↔
      ∃ next, victimLoop s.coremap a s.coremapSize s.nextSvic = some (i, next) ∧
        s' = { s with nextSvic := next } := by
  rw [findVictim, run_exec]
  rcases victimLoop s.coremap a s.coremapSize s.nextSvic with _ | ⟨i', next⟩
  · simp
  · grind

theorem findPaddr_eq_ok {paddr : Nat} {r : Option Nat} :
    (findPaddr a paddr).run t s = .ok (r, s') ↔
      (∃ as n, s.as a = some as ∧ as.npages = some n ∧
        r = (as.pt.take n).findIdx? fun e => e.paddr == paddr) ∧ s' = s := by
  rw [findPaddr, run_exec]
  cases s.as a with
  | none => simp
  | some as => cases hn : as.npages <;> simp [hn, eq_comm]

theorem findVaddr_eq_ok {vaddr : Nat} {r : Option Nat} :
    (findVaddr a vaddr).run t s = .ok (r, s') ↔
      (∃ as n, s.as a = some as ∧ as.npages = some n ∧
        r = ((as.pt.take n).find? fun e => e.vaddr == vaddr).map (·.paddr)) ∧ s' = s := by
  rw [findVaddr, run_exec]
  cases s.as a with
  | none => simp
  | some as => cases hn : as.npages <;> simp [hn, eq_comm]

theorem claimRun_eq_ok {npages first : Nat} {isReserved : Bool} {as : Option AsId} :
    (claimRun npages isReserved as).run t s = .ok (first, s') ↔
      multiScan s.coremap npages s.coremapSize 0 0 = some first ∧
        s' = s.takeRun first npages isReserved as := by
  rw [claimRun, run_exec]
  cases multiScan s.coremap npages s.coremapSize 0 0 <;> grind

theorem emptyBlock_eq_ok {i : Nat} :
    (emptyBlock i).run t s = .ok (u, s') ↔
      ∃ e, s.coremap[i]? = some e ∧ i + e.allocpages ≤ s.coremapSize ∧
        s' = s.emptyRun i e.allocpages := by
  rw [emptyBlock, run_exec]
  cases s.coremap[i]? with
  | none => simp
  | some e => by_cases h : i + e.allocpages ≤ s.coremapSize <;> simp [h, eq_comm]

/-! ## Address spaces -/

theorem initAs_eq_ok {v : File} :
    (initAs a v).run t s = .ok (u, s') ↔
      (s.as a = none ∧ s.owner (.pt a) = none) ∧ s' = s.createAs a v := by
  simp only [initAs, run_exec, Option.isNone_iff_eq_none]
  split <;> grind

theorem addSegment_eq_ok {seg : Segment} :
    (addSegment a seg).run t s = .ok (u, s') ↔
      ∃ as, s.as a = some as ∧ s' = s.setAs a { as with asSegment := as.asSegment ++ [seg] } := by
  rw [addSegment, run_exec]
  cases s.as a <;> simp [eq_comm]

theorem setNpages_eq_ok {n : Nat} :
    (setNpages a).run t s = .ok (n, s') ↔
      ∃ as, s.as a = some as ∧ n = totalPages as.asSegment ∧
        s' = s.setAs a { as with npages := some n } := by
  rw [setNpages, run_exec]
  cases s.as a <;> grind

theorem installPt_eq_ok {n ptloc : Nat} {pt : Addrspace → List PtEntry} :
    (installPt a n ptloc pt).run t s = .ok (u, s') ↔
      ∃ as, s.as a = some as ∧ sizeofPtEntry * (pt as).length ≤ ptBytes n ∧
        s' = s.setAs a { as with asPt := some ptloc, pt := pt as } := by
  rw [installPt, run_exec]
  cases s.as a with
  | none => simp
  | some as =>
      by_cases h : sizeofPtEntry * (pt as).length ≤ ptBytes n <;> simp [h, eq_comm]

theorem copyNpages_eq_ok {n : Nat} :
    (copyNpages a n).run t s = .ok (u, s') ↔
      ∃ as, s.as a = some as ∧ s' = s.setAs a { as with npages := some n } := by
  rw [copyNpages, run_exec]
  cases s.as a <;> simp [eq_comm]

theorem findSegment_eq_ok {fa : Nat} {r : Segment × Nat × Bool} :
    (findSegment a fa).run t s = .ok (r, s') ↔
      (∃ as, s.as a = some as ∧ walkSegments fa as.asSegment 0 = some r) ∧ s' = s := by
  rw [findSegment, run_exec]
  cases s.as a with
  | none => simp
  | some as => cases h : walkSegments fa as.asSegment 0 <;> simp [h, eq_comm]

theorem findPage_eq_ok {fa np n : Nat} {r : Option Nat} :
    (findPage a fa np n).run t s = .ok (r, s') ↔
      (∃ as, s.as a = some as ∧ np + n ≤ as.pt.length ∧ r = scanSlice as.pt fa np n) ∧
        s' = s := by
  rw [findPage, run_exec]
  cases s.as a with
  | none => simp
  | some as => by_cases h : np + n ≤ as.pt.length <;> simp [h, eq_comm]

theorem tlbLoad_eq_ok {entry : TlbEntry} {i : Stat} :
    (Prog.exec fun _ s => .ok (tlbLoad s entry) : VM Stat).run t s = .ok (i, s') ↔
      i = (tlbLoad s entry).1 ∧ s' = (tlbLoad s entry).2 := by
  rw [run_exec, Outcome.ok.injEq, Prod.ext_iff]
  exact ⟨fun h => ⟨h.1.symm, h.2.symm⟩, fun h => ⟨h.1.symm, h.2.symm⟩⟩

theorem tlbLoad_owner {entry : TlbEntry} : (tlbLoad s entry).2.owner = s.owner := by
  rw [tlbLoad]
  split <;> rfl

/-! ## Short sequences -/

/-- Taking a free lock and giving it up again changes nothing. -/
@[simp] theorem Sys.take_drop (h : s.owner l = none) : (s.take t l).drop l = s := by
  simp [Sys.take, Sys.drop, ← h]

theorem locked_gets_eq_ok {ρ : Type} {f : Sys → ρ} {r : ρ} {m m' : String}
    (hf : f (s.take t l) = f s) :
    (do grab l m; let x ← Prog.gets f; letGo l m'; return x : VM ρ).run t s =
        .ok (r, s') ↔ s.owner l = none ∧ r = f s ∧ s' = s := by
  simp only [run_bind_eq_ok, grab_eq_ok, gets_eq_ok, letGo_eq_ok, pure_eq_ok]
  constructor
  · rintro ⟨-, _, ⟨h, rfl⟩, _, _, ⟨rfl, rfl⟩, -, _, ⟨-, rfl⟩, rfl, rfl⟩
    exact ⟨h, hf, Sys.take_drop h⟩
  · rintro ⟨h, rfl, rfl⟩
    exact ⟨(), _, ⟨h, rfl⟩, _, _, ⟨rfl, rfl⟩, (), _, ⟨by simp [Sys.take], rfl⟩, hf.symm,
      (Sys.take_drop h).symm⟩

theorem locked_modify_eq_ok {f : Sys → Sys} {m m' : String}
    (hf : ∀ s o, f { s with owner := o } = { f s with owner := o }) :
    (do grab l m; Prog.modify f; letGo l m' : VM Unit).run t s = .ok (u, s') ↔
      s.owner l = none ∧ s' = f s := by
  have ho : (f s).owner = s.owner := by
    have h : f s = { f s with owner := s.owner } := hf s s.owner
    rw [h]
  have htake : f (s.take t l) = (f s).take t l := by rw [Sys.take, hf, Sys.take, ho]
  simp only [run_bind_eq_ok, grab_eq_ok, modify_eq_ok, letGo_eq_ok]
  constructor
  · rintro ⟨-, _, ⟨h, rfl⟩, -, _, rfl, -, rfl⟩
    rw [htake]
    exact ⟨h, Sys.take_drop (by rw [ho, h])⟩
  · rintro ⟨h, rfl⟩
    refine ⟨(), _, ⟨h, rfl⟩, (), _, rfl, ?_⟩
    rw [htake, Sys.take_drop (by rw [ho, h])]
    exact ⟨by simp [Sys.take], rfl⟩

theorem getAvailableSwap_eq_ok {r : Nat} :
    getAvailableSwap.run t s = .ok (r, s') ↔
      s.owner .swap = none ∧ r = s.availableSwap ∧ s' = s :=
  locked_gets_eq_ok rfl

theorem getAvailableRam_eq_ok {r : Nat} :
    getAvailableRam.run t s = .ok (r, s') ↔
      s.owner .coremap = none ∧ r = s.availableRam ∧ s' = s :=
  locked_gets_eq_ok rfl

theorem vmStatsInc_eq_ok {i : Stat} :
    (vmStatsInc i).run t s = .ok (u, s') ↔
      (s.spinning t = true ∨ s.owner .stats = none) ∧ s' = s.bump i := by
  rw [vmStatsInc, run_bind, canLock, run_exec, Outcome.bind_ok]
  cases s.spinning t with
  | true => exact modify_eq_ok.trans (by simp)
  | false => exact (locked_modify_eq_ok fun _ _ => rfl).trans (by simp)

theorem freeAs_eq_ok :
    (freeAs a).run t s = .ok (u, s') ↔
      s.owner .coremap = none ∧
        s' = { s with
          coremap := s.coremap.map fun e => if e.as = some a then e.setEmpty else e } :=
  locked_modify_eq_ok fun _ _ => rfl

/-! ## What the actions leave alone -/

section Leaves

variable {φ : Type} {f : Sys → φ}

theorem getPte_leaves : (getPte a j).Leaves f t := by
  intro s r s' h
  rw [(getPte_eq_ok.mp h).2]

theorem findPaddr_leaves {p : Nat} : (findPaddr a p).Leaves f t := by
  intro s r s' h
  rw [(findPaddr_eq_ok.mp h).2]

theorem getAvailableSwap_leaves : getAvailableSwap.Leaves f t := by
  intro s r s' h
  rw [(getAvailableSwap_eq_ok.mp h).2.2]

theorem updPte_leaves {g : PtEntry → PtEntry} (hf : ∀ s, f (s.modPte a j g) = f s) :
    (updPte a j g).Leaves f t := by
  intro s r s' h
  rw [(updPte_eq_ok.mp h).2, hf]

theorem vmStatsInc_leaves {i : Stat} (hf : ∀ s, f (s.bump i) = f s) :
    (vmStatsInc i).Leaves f t := by
  intro s r s' h
  rw [(vmStatsInc_eq_ok.mp h).2, hf]

theorem loadElfOndemand_leaves {seg : Segment} {p v : Nat}
    (hf : ∀ s x offset paddr n, f (s.readElf x offset paddr n) = f s) :
    (loadElfOndemand a seg p v).Leaves f t := by
  intro s r s' h
  obtain ⟨as, -, -, rfl⟩ := loadSegment_exe_eq_ok.mp h
  rw [hf]

theorem swapIn_leaves {p : Nat} {toRemove : Bool} (ho : ∀ s o, f { s with owner := o } = f s)
    (hr : ∀ s offset paddr n, f (s.readSwap offset paddr n) = f s)
    (hu : ∀ s k, f (s.setSlot k false).decUsed = f s) (hm : ∀ s g, f (s.modPte a j g) = f s) :
    (swapIn a j p toRemove).Leaves f t := by
  refine .bind (fun s r s' h => ?_) fun _ => .bind getPte_leaves fun e =>
    .bind (fun s r s' h => ?_) fun err => ?_
  · rw [(lockAcquire_eq_ok.mp h).2]
    exact ho s _
  · rw [(loadSegment_swap_eq_ok.mp h).2, hr]
  · cases err with
    | some err => exact .pure _
    | none =>
        refine .bind (fun s r s' h => ?_) fun _ => .bind (updPte_leaves (hm · _)) fun _ =>
          .bind (fun s r s' h => ?_) fun _ => .pure _
        · rw [(leaveSlot_eq_ok.mp h).2]
          split
          · exact hu s _
          · rfl
        · rw [(lockRelease_eq_ok.mp h).2]
          exact ho s _

theorem tlbInvalidateVaddr_leaves {v : Nat} (hf : ∀ s tlb, f { s with tlb := tlb } = f s) :
    (tlbInvalidateVaddr v).Leaves f t := by
  refine .modify fun s => ?_
  rw [Sys.tlbDrop]
  split
  · exact hf s _
  · rfl

theorem tlbLoadentry_leaves {fa p : Nat} {ro : Bool} (hb : ∀ s i, f (s.bump i) = f s)
    (hf : ∀ s tlb full next, f { s with tlb := tlb, tlbFull := full, nextVictim := next } = f s) :
    (tlbLoadentry fa p ro).Leaves f t := by
  refine .bind (fun s r s' h => ?_) fun i => .bind (vmStatsInc_leaves (hb · i)) fun _ => .pure _
  obtain ⟨-, rfl⟩ := tlbLoad_eq_ok.mp h
  rw [tlbLoad]
  split <;> exact hf s _ _ _

end Leaves

end Os161Paging
