import Os161Paging.Frames
import Os161Paging.Views

/-!
# Who owns what

The state divided among address spaces. To an address space belong its
`struct addrspace`, the frames whose coremap entry names it, the slots of
the swap file it has taken and the block that holds its page table. The
owner of a slot and the extent of a block are written down nowhere in the
kernel, so they are ghost state; so is the record `mem` of what each page
should contain, made when the page first becomes resident.

What is nobody's is the invariant `Inv`: a slot is marked exactly while it
is owned, a coremap entry with an owner is used and not reserved, blocks of
kernel memory do not overlap, the TLB translates no page twice.
-/

namespace Os161Paging

/-! ## Places -/

/-- Where the contents of a page can be: in the frame at a physical address, or
in a slot of the swap file. -/
inductive Place where
  | frame (paddr : Nat)
  | slot (k : Nat)
deriving DecidableEq, Repr

namespace Sys

/-- The address space the coremap names as the owner of the frame at `p`. -/
def frameOwner (s : Sys) (p : Nat) : Option AsId :=
  if s.firstpaddr ≤ p ∧ (p - s.firstpaddr) % pageSize = 0 then
    s.coremap[(p - s.firstpaddr) / pageSize]?.bind (·.as)
  else none

/-- The contents of slot `k`. Offsets on the swap device are computed in 32 bits:
on a larger device slots share an offset, and nothing is said about what they hold. -/
def slotPage (s : Sys) (k : Nat) : Page :=
  if s.nslots ≤ 2 ^ 20 then s.disk.page (k * pageSize) else fun _ => 0

/-- The record of page contents after a look at the state: a page that is
resident for the first time is entered, the pages of an address space that is
gone are struck out. -/
def observe (s : Sys) (m : AsId → Nat → Option Page) (a : AsId) (j : Nat) : Option Page :=
  match s.as a with
  | none => none
  | some x =>
      (m a j).or (x.pt[j]?.bind fun e => if e.inMem then some (s.ram.page e.paddr) else none)

end Sys

/-! ## Ghost state and shares -/

/-- The owner of each slot; for each frame of a block of kernel memory, the first
frame of the block and the address space whose page table it holds, if any; and
what each page should contain. -/
structure Ghost where
  slotOwner : Nat → Option AsId
  home : Nat → Option (Nat × Option AsId)
  mem : AsId → Nat → Option Page

/-- The blocks of the kernel itself stay what they are. -/
def Ghost.Keeps (g g' : Ghost) : Prop := ∀ k h, g.home k = some (h, none) → g'.home k = some (h, none)

/-- The share of one address space. -/
@[ext] structure Own where
  as : Option Addrspace
  val : Place → Option Page
  table : Set Nat
  mem : Nat → Option Page

/-- What is held in a place, if `a` owns it. -/
def placeVal (a : AsId) (g : Ghost) (s : Sys) : Place → Option Page
  | .frame p => if s.frameOwner p = some a then some (s.ram.page p) else none
  | .slot k => if g.slotOwner k = some a then some (s.slotPage k) else none

def own (a : AsId) (g : Ghost) (s : Sys) : Own where
  as := s.as a
  val := placeVal a g s
  table := { h | g.home h = some (h, some a) }
  mem := g.mem a

/-! ## The invariant -/

/-- The sizes fixed at boot. -/
structure Layout where
  firstpaddr : Nat
  frames : Nat
  slots : Nat

def Layout.addr (P : Layout) (i : Nat) : Nat := P.firstpaddr + i * pageSize

def Layout.IsFrame (P : Layout) (p : Nat) : Prop := ∃ i < P.frames, p = P.addr i

/-- Valid entries translate user pages, the others are tagged with a page that is
not in user space; no page is translated twice. -/
structure TlbWf (tlb : List TlbEntry) : Prop where
  tags : ∀ e ∈ tlb, e.valid = true ↔ e.vpage < kseg0
  unique : ∀ (i j : Nat) (e e' : TlbEntry), tlb[i]? = some e → tlb[j]? = some e' → e.vpage = e'.vpage →
    e.vpage < kseg0 → i = j

/-- What holds between any two actions and belongs to nobody. -/
structure Inv (P : Layout) (g : Ghost) (s : Sys) : Prop where
  geometry : s.Geometry
  firstpaddr : s.firstpaddr = P.firstpaddr
  frames : s.coremapSize = P.frames
  slots : s.nslots = P.slots
  marked : ∀ k, s.swapMap[k]? = some true ↔ g.slotOwner k ≠ none
  owned : ∀ (i : Nat) (e : CEntry) a, s.coremap[i]? = some e → e.as = some a →
    e.cused = true ∧ e.reserved = false
  block : ∀ i h x, g.home i = some (h, x) → ∃ e : CEntry, s.coremap[h]? = some e ∧
    h + e.allocpages ≤ P.frames ∧ ∀ k, g.home k = some (h, x) ↔ h ≤ k ∧ k < h + e.allocpages
  kernel : ∀ i h x, g.home i = some (h, x) → ∃ e : CEntry, s.coremap[i]? = some e ∧
    e.as = none ∧ e.isFree = false
  tlb : TlbWf s.tlb
  observed : s.observe g.mem = g.mem
  reads : ∀ n, s.world.swapRead n = none

/-! ## Reading an owner off the state -/

section

variable {s s' : Sys} {a b : AsId} {g g' : Ghost} {P : Layout}

theorem Sys.frameOwner_eq_some {p : Nat} :
    s.frameOwner p = some a ↔
      ∃ i e, s.coremap[i]? = some e ∧ e.as = some a ∧ p = s.firstpaddr + i * pageSize := by
  rw [frameOwner]
  constructor
  · intro h
    split at h
    · obtain ⟨e, he, hea⟩ := Option.bind_eq_some_iff.mp h
      exact ⟨_, e, he, hea, by rename_i hp; rw [pageSize_eq] at hp ⊢; omega⟩
    · cases h
  · rintro ⟨i, e, he, hea, rfl⟩
    rw [if_pos (by rw [pageSize_eq]; omega)]
    simp [he, hea, pageSize_eq]

/-- The record is up to date: nothing is known of pages of address spaces that do
not exist, and something is known of every page that is resident. -/
theorem Sys.observe_eq_self {m : AsId → Nat → Option Page} :
    s.observe m = m ↔ (∀ a, s.as a = none → m a = fun _ => none) ∧
      ∀ a j e, s.pte a j = some e → e.inMem = true → m a j ≠ none := by
  constructor
  · intro h
    constructor
    · intro a ha
      funext j
      rw [← h, observe, ha]
    · intro a j e he hin hm
      obtain ⟨x, hx, hj⟩ := Option.bind_eq_some_iff.mp he
      have hobs : s.observe m a j = none := by rw [h, hm]
      simp [observe, hx, hj, hin, hm] at hobs
  · rintro ⟨hnone, hin⟩
    funext a j
    rw [observe]
    cases hx : s.as a with
    | none => rw [hnone a hx]
    | some x =>
        cases hm : m a j with
        | some c => rfl
        | none =>
            cases hj : x.pt[j]? with
            | none => simp [hj]
            | some e =>
                have hpte : s.pte a j = some e := by rw [Sys.pte, hx]; exact hj
                have hout : e.inMem = false := by
                  by_contra hne
                  exact hin a j e hpte (by simpa using hne) hm
                simp [hj, hout]

/-- A change that leaves the address spaces alone leaves the record up to date. -/
theorem Sys.observe_of_as_eq {m : AsId → Nat → Option Page} (h : s.observe m = m)
    (has : s'.as = s.as) : s'.observe m = m := by
  rw [observe_eq_self] at h ⊢
  simpa only [Sys.pte, has] using h

end

end Os161Paging
