import Os161Paging.Actions

/-!
# Steps outside of the allocator

Most of what the kernel does between two changes to the coremap, to a page
table or to the TLB touches only sleep locks, counters, the bitmap of the
swap file and the contents of memory and devices. A relation that holds of
all such steps holds of every action of the calls below.
-/

namespace Os161Paging

open Prog

/-- The relation holds of every step that changes nothing else. -/
structure Idle (R : Sys → Sys → Prop) : Prop where
  refl : ∀ s, R s s
  sleepLock : ∀ s l x, l.isSpin = false → R s { s with owner := Function.update s.owner l x }
  counters : ∀ s c, R s { s with counters := c }
  slots : ∀ s map used, R s { s with swapMap := map, used := used }
  contents : ∀ s ram disk i j k, R s { s with
    ram := ram, disk := disk, swapReads := i, swapWrites := j, elfReads := k }

namespace Idle

variable {R : Sys → Sys → Prop} {t : Tid} {a : AsId} {j : Nat} (hR : Idle R)
include hR

/-! ## Locks and counters -/

theorem grab {l : Lock} {m : String} (hl : l.isSpin = false) : (grab l m).Steps R t := by
  refine .action (isAction_exec _) fun s x s' h => ?_
  rw [(grab_eq_ok.mp h).2]
  exact hR.sleepLock s l _ hl

theorem letGo {l : Lock} {m : String} (hl : l.isSpin = false) : (letGo l m).Steps R t := by
  refine .action (isAction_exec _) fun s x s' h => ?_
  rw [(letGo_eq_ok.mp h).2]
  exact hR.sleepLock s l _ hl

theorem canSleep : canSleep.Steps R t := by
  refine .action (isAction_exec _) fun s x s' h => ?_
  rw [(canSleep_eq_ok.mp h).2]
  exact hR.refl s

theorem canLock : canLock.Steps R t := by
  refine .action (isAction_exec _) fun s x s' h => ?_
  rw [(canLock_eq_ok.mp h).2]
  exact hR.refl s

theorem vmStatsInc {i : Stat} : (vmStatsInc i).Steps R t := by
  have hbump : (Prog.modify (·.bump i) : VM Unit).Steps R t := .modify fun s => hR.counters s _
  exact .bind hR.canLock fun can =>
    .ite (.bind (hR.grab rfl) fun _ => .bind hbump fun _ => hR.letGo rfl) hbump

/-! ## Page tables, as far as they are read -/

theorem getPte : (getPte a j).Steps R t := by
  refine .action (isAction_exec _) fun s x s' h => ?_
  rw [(getPte_eq_ok.mp h).2]
  exact hR.refl s

theorem getAs : (getAs a).Steps R t := by
  refine .action (isAction_exec _) fun s x s' h => ?_
  rw [(getAs_eq_ok.mp h).2]
  exact hR.refl s

theorem findSegment {fa : Nat} : (findSegment a fa).Steps R t := by
  refine .action (isAction_exec _) fun s x s' h => ?_
  rw [(findSegment_eq_ok.mp h).2]
  exact hR.refl s

theorem findPage {fa np n : Nat} : (findPage a fa np n).Steps R t := by
  refine .action (isAction_exec _) fun s x s' h => ?_
  rw [(findPage_eq_ok.mp h).2]
  exact hR.refl s

theorem findPaddr {paddr : Nat} : (findPaddr a paddr).Steps R t := by
  refine .action (isAction_exec _) fun s x s' h => ?_
  rw [(findPaddr_eq_ok.mp h).2]
  exact hR.refl s

theorem findVaddr {vaddr : Nat} : (findVaddr a vaddr).Steps R t := by
  refine .action (isAction_exec _) fun s x s' h => ?_
  rw [(findVaddr_eq_ok.mp h).2]
  exact hR.refl s

/-! ## The swap file and the executable -/

theorem getAvailableSwap : getAvailableSwap.Steps R t :=
  .bind (hR.grab rfl) fun _ => .bind (.gets hR.refl) fun _ => .bind (hR.letGo rfl) fun _ => .pure _

theorem bitmapAlloc : bitmapAlloc.Steps R t := by
  refine .action (isAction_exec _) fun s r s' h => ?_
  obtain ⟨-, rfl⟩ := bitmapAlloc_eq_ok.mp h
  cases r with
  | none => exact hR.refl s
  | some k => exact hR.slots s _ _

theorem vopWrite {paddr offset : Nat} : (vopWrite paddr offset).Steps R t := by
  refine .action (isAction_exec _) fun s x s' h => ?_
  rw [(vopWrite_eq_ok.mp h).2]
  exact hR.contents s _ _ _ _ _

theorem leaveSlot {k : Nat} {b : Bool} : (leaveSlot k b).Steps R t := by
  refine .action (isAction_exec _) fun s x s' h => ?_
  obtain ⟨-, rfl⟩ := leaveSlot_eq_ok.mp h
  cases b with
  | false => exact hR.refl s
  | true => exact hR.slots s _ _

theorem incUsed : (Prog.modify (·.incUsed) : VM Unit).Steps R t := .modify fun s => hR.slots s _ _

theorem loadSegment_swap {offset paddr n : Nat} :
    (loadSegment .swapFile offset paddr n n).Steps R t := by
  refine .action Does.loadSegment_isAction fun s r s' h => ?_
  obtain ⟨-, rfl⟩ := loadSegment_swap_eq_ok.mp h
  exact hR.contents s _ _ _ _ _

theorem loadElfOndemand {seg : Segment} {paddr fa : Nat} :
    (loadElfOndemand a seg paddr fa).Steps R t := by
  refine .action Does.loadSegment_isAction fun s r s' h => ?_
  obtain ⟨x, -, -, rfl⟩ := loadSegment_exe_eq_ok.mp h
  exact hR.contents s _ _ _ _ _

theorem clearSwap {k : Nat} : (clearSwap k).Steps R t := by
  refine .bind (hR.grab rfl) fun _ => .bind (.action (isAction_exec _) fun s x s' h => ?_) fun _ =>
    .bind (.modify fun s => hR.slots s _ _) fun _ => hR.letGo rfl
  rw [(bitmapUnmark_eq_ok.mp h).2]
  exact hR.slots s _ _

theorem clearSlots {pt : List PtEntry} : (clearSlots pt).Steps R t := by
  induction pt with
  | nil => exact .pure _
  | cons e pt ih => exact .bind (.ite hR.clearSwap (.pure _)) fun _ => ih

end Idle

end Os161Paging
