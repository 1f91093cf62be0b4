import Os161Paging.Swap

/-!
# The coremap

`coremap.c`. The loops over the array are pure functions of it; the
actions of a function are the stretches between its lock operations.
-/

namespace Os161Paging

/-! ## Initialisation -/

def allignNextAddr (paddr : Nat) : Nat :=
  if paddr % pageSize = 0 then paddr else wrap ((paddr / pageSize + 1) * pageSize)

def CEntry.zero : CEntry := ⟨0, none, 0⟩

/-- `coremap_init`: the number of entries and `firstpaddr`, from the size of the
RAM and its first free address, in 32-bit arithmetic. -/
def coremapGeometry (lastpaddr firstfree : Nat) : Nat × Nat :=
  let firstpaddr := allignNextAddr firstfree
  let size := wrap (lastpaddr + 2 ^ 32 - firstpaddr) / pageSize
  let csize := divRoundUp (wrap (size * sizeofCEntry)) pageSize
  (wrap (size + 2 ^ 32 - csize), wrap (firstpaddr + csize * pageSize))

/-! ## Entries -/

/-- `set_coreentry`. -/
def CEntry.set (e : CEntry) (vaddr : Nat) (isReserved : Bool) (as : Option AsId) : CEntry :=
  { e with
    vaddr := vaddr ||| (if isReserved then 0x3 else 0x2)
    as := if isReserved then none else as }

/-- `set_empty`. -/
def CEntry.setEmpty (e : CEntry) : CEntry := { e with vaddr := 0, as := none }

def modifyRange (f : Nat → CEntry → CEntry) (i n : Nat) (cm : List CEntry) : List CEntry :=
  cm.mapIdx fun j e => if i ≤ j ∧ j < i + n then f j e else e

def freeAs (a : AsId) : VM Unit := do
  spinlockAcquire .coremap
  Prog.modify fun s =>
    { s with coremap := s.coremap.map fun e => if e.as = some a then e.setEmpty else e }
  spinlockRelease .coremap

/-! ## Allocation of one frame -/

/-- The first loop of `getPage`: the lowest free entry. -/
def firstFree (cm : List CEntry) : Option Nat := cm.findIdx? (·.isFree)

/-- `set_coreentry` for a block of one frame. -/
def CEntry.setOne (e : CEntry) (vaddr : Nat) (isReserved : Bool) (as : Option AsId) : CEntry :=
  { e.set vaddr isReserved as with allocpages := 1 }

def Sys.claim (s : Sys) (i : Nat) (isReserved : Bool) (vaddr : Nat) (as : Option AsId) : Sys :=
  { s with coremap := s.coremap.modify i (·.setOne vaddr isReserved as) }

def claimFree (isReserved : Bool) (vaddr : Nat) (as : Option AsId) : VM (Option Nat) :=
  Prog.exec fun _ s =>
    match firstFree s.coremap with
    | some i => .ok (some i, s.claim i isReserved vaddr as)
    | none => .ok (none, s)

/-- The test of the victim loop: not reserved, and owned by `a`. -/
def CEntry.evictable (a : AsId) (e : CEntry) : Bool := !e.reserved && e.as == some a

/-- The victim loop of `getPage`: at most `fuel` calls of `swapvictim`, starting
from the cursor `next`; the victim and the cursor after it. -/
def victimLoop (cm : List CEntry) (a : AsId) : (fuel next : Nat) → Option (Nat × Nat)
  | 0, _ => none
  | fuel + 1, next =>
      let next' := (next + 1) % cm.length
      match cm[next]? with
      | some e => if e.evictable a then some (next, next') else victimLoop cm a fuel next'
      | none => victimLoop cm a fuel next'

/-- The victim loop as an action. Once around the array without a victim it will
never find one, as only the cursor changes. -/
def findVictim (a : AsId) : VM Nat :=
  Prog.exec fun _ s =>
    match victimLoop s.coremap a s.coremapSize s.nextSvic with
    | some (i, next) => .ok (i, { s with nextSvic := next })
    | none => .hang

/-- Index of the first page of `a` whose `paddr` field is `paddr`, searched
among the first `npages` entries. -/
def findPaddr (a : AsId) (paddr : Nat) : VM (Option Nat) :=
  Prog.exec fun _ s =>
    match s.as a with
    | some as =>
        match as.npages with
        | some n => .ok ((as.pt.take n).findIdx? fun e => e.paddr == paddr, s)
        | none => .undefined
    | none => .undefined

def assertSwappedOut : Option Errno → VM Unit
  | none => pure ()
  | some _ => Prog.fail "KASSERT: swap_out(&pt[j].paddr) == 0"

/-- What becomes of the contents of the page `j`: written to the swap file if
the page is writable, forgotten otherwise. -/
def saveVictim (a : AsId) (j : Nat) (writable : Bool) : VM Unit :=
  if writable then do
    assertSwappedOut (← swapOut a j)
    vmStatsInc .swapWrite
    updPte a j fun e => { e with inSwap := true }
  else
    updPte a j fun e => { e with paddr := 0 }

/-- The body of the eviction loop for the page `j` found in the victim frame. -/
def evict (a : AsId) (j : Nat) : VM Unit := do
  let e ← getPte a j
  saveVictim a j e.writable
  updPte a j fun e => { e with inMem := false }
  tlbInvalidateVaddr e.vaddr

/-- The eviction loop over the page table, for the victim frame `i`: the frame
that is now free, or 0 when no page is found in it. -/
def evictFrom (a : AsId) (i : Nat) : VM Nat := do
  let paddr ← Prog.gets (·.frameAddr i)
  match ← findPaddr a paddr with
  | some j =>
      evict a j
      return i
  | none => return 0

/-- The branch of `getPage` that takes a frame away from `a`; `coremap_lock` is
held on entry. -/
def evictFrame (a : AsId) : VM Nat := do
  if (← getAvailableSwap) ≠ 0 then
    let i ← findVictim a
    spinlockRelease .coremap
    lockAcquire (.pt a)
    let addr ← evictFrom a i
    lockRelease (.pt a)
    Prog.gets (·.frameAddr addr)
  else
    Prog.fail "Not enough memory in Swap File"

/-- `getPage`. With no free entry and no address space it returns frame 0 and
keeps `coremap_lock`. -/
def getPage (isReserved : Bool) (vaddr : Nat) (as : Option AsId) : VM Nat := do
  spinlockAcquire .coremap
  if ← Prog.gets (·.coremapActive) then
    match ← claimFree isReserved vaddr as with
    | some i =>
        spinlockRelease .coremap
        Prog.gets (·.frameAddr i)
    | none =>
        match as with
        | some a => evictFrame a
        | none => Prog.gets (·.frameAddr 0)
  else
    spinlockRelease .coremap
    return 0

/-! ## Allocation of a run of frames -/

def freeAt (cm : List CEntry) (i : Nat) : Bool := cm[i]?.any (·.isFree)

/-- The search loop of `getMultiplePages`, `n` entries from index `i` on. -/
def multiScan (cm : List CEntry) (npages : Nat) : (n i first : Nat) → Option Nat
  | 0, _, _ => none
  | n + 1, i, first =>
      if freeAt cm i then
        let first := if i = 0 ∨ ¬ freeAt cm (i - 1) then i else first
        if i - first + 1 ≥ npages then some first else multiScan cm npages n (i + 1) first
      else multiScan cm npages n (i + 1) first

def Sys.takeRun (s : Sys) (first npages : Nat) (isReserved : Bool) (as : Option AsId) : Sys :=
  { s with
    coremap := modifyRange (fun i e => e.set (paddrToKvaddr (s.frameAddr i)) isReserved as)
      first npages (s.coremap.modify first fun e => { e with allocpages := npages }) }

/-- The search of `getMultiplePages` with its effect; nothing found is a panic. -/
def claimRun (npages : Nat) (isReserved : Bool) (as : Option AsId) : VM Nat :=
  Prog.exec fun _ s =>
    match multiScan s.coremap npages s.coremapSize 0 0 with
    | some first => .ok (first, s.takeRun first npages isReserved as)
    | none => .panic "Multiple page swapping is not required for on demand page loading"

/-- `getMultiplePages`. -/
def getMultiplePages (npages : Nat) (isReserved : Bool) (as : Option AsId) : VM Nat := do
  spinlockAcquire .coremap
  if ← Prog.gets (·.coremapActive) then
    let first ← claimRun npages isReserved as
    spinlockRelease .coremap
    Prog.gets (·.frameAddr first)
  else
    spinlockRelease .coremap
    return 0

/-- `getPages`, whose `npages` is an `int`. -/
def getPages (npages : Int) (vaddr : Nat) (as : Option AsId) : VM Nat :=
  if npages > 1 then getMultiplePages npages.toNat false as else getPage false vaddr as

def Sys.emptyRun (s : Sys) (i n : Nat) : Sys :=
  { s with
    coremap := modifyRange (fun _ e => e.setEmpty) i n
      (s.coremap.modify i fun e => { e with allocpages := 0 }) }

/-- The critical section of `freepages`: empty the block that starts at `i`. The
index is not checked against the size of the array. -/
def emptyBlock (i : Nat) : VM Unit :=
  Prog.exec fun _ s =>
    match s.coremap[i]? with
    | none => .undefined
    | some e =>
        if i + e.allocpages ≤ s.coremapSize then .ok ((), s.emptyRun i e.allocpages) else .undefined

def freepages (paddr : Nat) : VM Unit := do
  let firstpaddr ← Prog.gets (·.firstpaddr)
  if paddr < firstpaddr then
    return ()
  else
    spinlockAcquire .coremap
    emptyBlock ((paddr - firstpaddr) / pageSize)
    spinlockRelease .coremap

/-! ## Page tables -/

/-- `coremapSize - ram_used`, as an `unsigned`. -/
def Sys.availableRam (s : Sys) : Nat := wrap (s.coremapSize + 2 ^ 32 - s.ramUsed)

def getAvailableRam : VM Nat := do
  spinlockAcquire .coremap
  let ret ← Prog.gets (·.availableRam)
  spinlockRelease .coremap
  return ret

def ptFrames (npages : Nat) : Nat := divRoundUp (wrap (sizeofPtEntry * npages)) pageSize

def ptAlloc (npages : Nat) : VM Nat := do
  let numpages := ptFrames npages
  if (← getAvailableRam) > numpages then
    if numpages > 1 then getMultiplePages numpages true none else getPage true 0 none
  else
    Prog.fail "No available space for pageTable in RAM\n"

end Os161Paging
