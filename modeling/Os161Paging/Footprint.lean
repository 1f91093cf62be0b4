import Os161Paging.Frames

/-!
# The footprint of an allocation

A frame for the address space `a` may have to be taken away from another of
its pages. What that can touch, and what it cannot, is said once: a part
`f` of the state that none of the updates below changes is left alone by
the whole of `getPage`.
-/

namespace Os161Paging

open Prog

/-- The part `f` of the state does not see what the eviction of a page of `a` does. -/
structure Spared {φ : Type} (a : AsId) (f : Sys → φ) : Prop where
  owner : ∀ s o, f { s with owner := o } = f s
  setSlot : ∀ s k, f (s.setSlot k true) = f s
  incUsed : ∀ s, f s.incUsed = f s
  writeSwap : ∀ s p k, f (s.writeSwap p k) = f s
  modPte : ∀ s j g, f (s.modPte a j g) = f s
  bump : ∀ s i, f (s.bump i) = f s
  tlb : ∀ s tlb, f { s with tlb := tlb } = f s

/-- The part `f` of the state does not see what an allocation for `a` does. -/
structure Unaffected {φ : Type} (a : AsId) (f : Sys → φ) : Prop extends Spared a f where
  nextSvic : ∀ s n, f { s with nextSvic := n } = f s
  coremap : ∀ s i r v as, f (s.claim i r v as) = f s

section

variable {φ : Type} {a : AsId} {f : Sys → φ} {t : Tid}

namespace Spared

variable (hf : Spared a f)
include hf

theorem grab {l : Lock} {m : String} : (grab l m).Leaves f t := by
  intro s r s' h
  rw [(grab_eq_ok.mp h).2]
  exact hf.owner s _

theorem letGo {l : Lock} {m : String} : (letGo l m).Leaves f t := by
  intro s r s' h
  rw [(letGo_eq_ok.mp h).2]
  exact hf.owner s _

theorem swapOut {j : Nat} : (swapOut a j).Leaves f t := by
  refine .bind hf.grab fun _ => .bind (.gets _) fun full => .ite (.pure _) ?_
  refine .bind (fun s r s' h => ?_) fun slot => ?_
  · obtain ⟨-, rfl⟩ := bitmapAlloc_eq_ok.mp h
    cases r with
    | none => rfl
    | some i => exact hf.setSlot s i
  · cases slot with
    | none => exact .bind hf.letGo fun _ => .pure _
    | some i =>
        refine .bind getPte_leaves fun e => .bind (fun s r s' h => ?_) fun _ => ?_
        · rw [(vopWrite_eq_ok.mp h).2, hf.writeSwap]
        · exact .bind (updPte_leaves fun s => hf.modPte s j _) fun _ =>
            .bind (.modify hf.incUsed) fun _ => .bind hf.letGo fun _ => .pure _

theorem evictFrom {i : Nat} : (evictFrom a i).Leaves f t := by
  have hupd : ∀ j g, (updPte a j g).Leaves f t := fun j g => updPte_leaves fun s => hf.modPte s j g
  refine .bind (.gets _) fun p => .bind findPaddr_leaves fun r => ?_
  cases r with
  | none => exact .pure _
  | some j =>
      refine .bind (.bind getPte_leaves fun e => .bind (.ite ?_ (hupd j _)) fun _ => ?_) fun _ =>
        .pure _
      · refine .bind hf.swapOut fun err => .bind ?_ fun _ =>
          .bind (vmStatsInc_leaves (hf.bump · _)) fun _ => hupd j _
        cases err with
        | none => exact .pure _
        | some err => exact .fail _
      · exact .bind (hupd j _) fun _ => tlbInvalidateVaddr_leaves hf.tlb

/-- `getPage` for the address space `a` takes a free entry of the coremap, or evicts a
page of `a`. -/
theorem getPage (hnext : ∀ s n, f { s with nextSvic := n } = f s) {R : Sys → Sys → Prop}
    (htrans : ∀ s1 s2 s3, R s1 s2 → R s2 s3 → R s1 s3) (hleaf : ∀ s s', f s' = f s → R s s')
    {r : Bool} {v : Nat}
    (hclaim : ∀ s i, firstFree s.coremap = some i → R s (s.claim i r v (some a))) :
    (getPage r v (some a)).Within R t := by
  have hL : ∀ {α : Type} {p : VM α}, p.Leaves f t → p.Within R t := fun h => .of_leaves hleaf h
  refine .bind htrans (hL hf.grab) fun _ => .bind htrans (hL (.gets _)) fun active => .ite ?_ ?_
  · refine .bind htrans (fun s r s' h => ?_) fun free => ?_
    · obtain ⟨hr, rfl⟩ := claimFree_eq_ok.mp h
      cases r with
      | none => exact hleaf s s rfl
      | some i => exact hclaim s i hr.symm
    · cases free with
      | some i => exact hL (.bind hf.letGo fun _ => .gets _)
      | none =>
          refine hL (.bind getAvailableSwap_leaves fun avail => .ite ?_ (.fail _))
          refine .bind (fun s r s' h => ?_) fun i => .bind hf.letGo fun _ =>
            .bind hf.grab fun _ => .bind hf.evictFrom fun addr =>
              .bind hf.letGo fun _ => .gets _
          obtain ⟨next, -, rfl⟩ := findVictim_eq_ok.mp h
          exact hnext s next
  · exact hL (.bind hf.letGo fun _ => .pure _)

end Spared

/-- **The footprint of `getPage`** for the address space `a`. -/
theorem Unaffected.getPage (hf : Unaffected a f) {r : Bool} {v : Nat} :
    (getPage r v (some a)).Leaves f t :=
  hf.toSpared.getPage hf.nextSvic (R := fun s s' => f s' = f s) (fun _ _ _ h1 h2 => h2.trans h1)
    (fun _ _ h => h) fun s i _ => hf.coremap s i _ _ _

end

/-! ## What it returns -/

/-- The victim loop only stops at an entry it may take. -/
theorem victimLoop_evictable {cm : List CEntry} {a : AsId} {fuel next i next' : Nat}
    (h : victimLoop cm a fuel next = some (i, next')) :
    ∃ e, cm[i]? = some e ∧ e.evictable a = true := by
  induction fuel generalizing next with
  | zero => cases h
  | succ fuel ih =>
      rw [victimLoop] at h
      cases hc : cm[next]? with
      | none =>
          rw [hc] at h
          exact ih h
      | some e =>
          rw [hc] at h
          simp only at h
          by_cases he : e.evictable a = true
          · rw [if_pos he] at h
            cases h
            exact ⟨e, hc, he⟩
          · rw [if_neg he] at h
            exact ih h

theorem evictFrom_result {t : Tid} {s s' : Sys} {a : AsId} {i r : Nat}
    (h : (evictFrom a i).run t s = .ok (r, s')) : r = i ∨ r = 0 := by
  obtain ⟨p, _, h1, h⟩ := run_bind_eq_ok.mp h
  obtain ⟨found, s2, h2, h⟩ := run_bind_eq_ok.mp h
  cases found with
  | none => exact .inr (pure_eq_ok.mp h).1
  | some j =>
      obtain ⟨_, _, -, h⟩ := run_bind_eq_ok.mp h
      exact .inl (pure_eq_ok.mp h).1

theorem unaffected_firstpaddr {a : AsId} : Unaffected a Sys.firstpaddr := by
  refine ⟨?_, fun _ _ => rfl, fun _ _ _ _ _ => rfl⟩
  constructor <;> intros <;> rfl

/-- `getPage` for an address space returns the address of one of the frames. -/
theorem getPage_frame {t : Tid} {s s' : Sys} {a : AsId} {r : Bool} {v p : Nat}
    (hact : s.coremapActive = true) (h : (getPage r v (some a)).run t s = .ok (p, s')) :
    ∃ i < s.coremapSize, p = s.frameAddr i := by
  have hfirst : s'.firstpaddr = s.firstpaddr := unaffected_firstpaddr.getPage s _ _ h
  have haddr : ∀ i, s'.frameAddr i = s.frameAddr i := fun i => by
    rw [Sys.frameAddr, hfirst, Sys.frameAddr]
  obtain ⟨_, _, h1, h⟩ := run_bind_eq_ok.mp h
  obtain ⟨-, rfl⟩ := spinlockAcquire_eq_ok.mp h1
  obtain ⟨active, _, h2, h⟩ := run_bind_eq_ok.mp h
  obtain ⟨ha, rfl⟩ := gets_eq_ok.mp h2
  obtain rfl : active = true := ha.trans hact
  obtain ⟨free, s2, h3, h⟩ := run_bind_eq_ok.mp h
  obtain ⟨hf, rfl⟩ := claimFree_eq_ok.mp h3
  cases free with
  | some i =>
      obtain ⟨_, _, -, h⟩ := run_bind_eq_ok.mp h
      obtain ⟨rfl, rfl⟩ := gets_eq_ok.mp h
      exact ⟨i, freeAt_lt (firstFree_eq_some hf.symm), haddr i⟩
  | none =>
      obtain ⟨avail, s3, h4, h⟩ := run_bind_eq_ok.mp h
      rw [(getAvailableSwap_eq_ok.mp h4).2.2] at h
      by_cases hz : avail ≠ 0
      · rw [if_pos hz] at h
        obtain ⟨i, _, h5, h⟩ := run_bind_eq_ok.mp h
        obtain ⟨next, hv, rfl⟩ := findVictim_eq_ok.mp h5
        obtain ⟨e, he, -⟩ := victimLoop_evictable hv
        have hi : i < s.coremapSize := (List.getElem?_eq_some_iff.mp he).1
        obtain ⟨_, _, -, h⟩ := run_bind_eq_ok.mp h
        obtain ⟨_, _, -, h⟩ := run_bind_eq_ok.mp h
        obtain ⟨addr, _, h6, h⟩ := run_bind_eq_ok.mp h
        obtain ⟨_, _, -, h⟩ := run_bind_eq_ok.mp h
        obtain ⟨rfl, rfl⟩ := gets_eq_ok.mp h
        rcases evictFrom_result h6 with rfl | rfl
        · exact ⟨_, hi, haddr _⟩
        · exact ⟨0, by omega, haddr 0⟩
      · rw [if_neg hz] at h
        exact (fail_eq_ok.mp h).elim

theorem unaffected_swapReads {a : AsId} : Unaffected a fun s => (s.world, s.swapReads) := by
  refine ⟨?_, fun _ _ => rfl, fun _ _ _ _ _ => rfl⟩
  constructor <;> intros <;> rfl

end Os161Paging
