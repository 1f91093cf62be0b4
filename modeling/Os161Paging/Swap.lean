import Os161Paging.Primitives

/-!
# Page-table entries, device reads and the swap file

`load_segment` of `loadelf.c`, through which both the executable and the
swap device are read, and `swapfile.c`. A page-table entry handed over as
a pointer (`&pt[j].paddr`) becomes the pair of its address space and index.
-/

namespace Os161Paging

/-! ## Page table entries -/

namespace Addrspace

def modifyPte (as : Addrspace) (j : Nat) (f : PtEntry → PtEntry) : Addrspace :=
  { as with pt := as.pt.modify j f }

end Addrspace

def Sys.setAs (s : Sys) (a : AsId) (as : Addrspace) : Sys :=
  { s with as := Function.update s.as a (some as) }

def Sys.pte (s : Sys) (a : AsId) (j : Nat) : Option PtEntry := (s.as a).bind (·.pt[j]?)

def Sys.modPte (s : Sys) (a : AsId) (j : Nat) (f : PtEntry → PtEntry) : Sys :=
  { s with as := Function.update s.as a ((s.as a).map (·.modifyPte j f)) }

def getAs (a : AsId) : VM Addrspace :=
  Prog.exec fun _ s =>
    match s.as a with
    | some as => .ok (as, s)
    | none => .undefined

def getPte (a : AsId) (j : Nat) : VM PtEntry :=
  Prog.exec fun _ s =>
    match s.pte a j with
    | some e => .ok (e, s)
    | none => .undefined

def updPte (a : AsId) (j : Nat) (f : PtEntry → PtEntry) : VM Unit :=
  Prog.exec fun _ s => if (s.pte a j).isSome then .ok ((), s.modPte a j f) else .undefined

/-! ## load_segment -/

/-- What `load_segment` reads from: the swap device, or the executable of `a`. -/
inductive Vnode where
  | swapFile
  | exe (a : AsId)
deriving DecidableEq, Repr

def File.avail (f : File) (offset n : Nat) : Nat := min n (f.size - offset)

/-- The state after the next read of the swap device: `n` bytes from `offset` to
physical memory at `paddr`. A failed read transfers nothing. -/
def Sys.readSwap (s : Sys) (offset paddr n : Nat) : Sys :=
  { s with
    swapReads := s.swapReads + 1
    ram := if s.world.swapRead s.swapReads = none then s.ram.copy paddr s.disk offset n else s.ram }

/-- The state after the next read of the executable `f`, which stops at its end. -/
def Sys.readElf (s : Sys) (f : File) (offset paddr n : Nat) : Sys :=
  { s with
    elfReads := s.elfReads + 1
    ram :=
      if s.world.elfRead s.elfReads = none then s.ram.copy paddr f.byte offset (f.avail offset n)
      else s.ram }

/-- `VOP_READ` of `n` bytes at `offset` into physical memory at `paddr`: the
error code, or `uio_resid`. -/
def vopRead (vn : Vnode) (offset paddr n : Nat) : VM (Except Errno Nat) :=
  Prog.exec fun _ s =>
    match vn with
    | .swapFile =>
        match s.world.swapRead s.swapReads with
        | some e => .ok (.error e, s.readSwap offset paddr n)
        | none => .ok (.ok 0, s.readSwap offset paddr n)
    | .exe a =>
        match s.as a with
        | none => .undefined
        | some as =>
            match s.world.elfRead s.elfReads with
            | some e => .ok (.error e, s.readElf as.v offset paddr n)
            | none => .ok (.ok (n - as.v.avail offset n), s.readElf as.v offset paddr n)

/-- `load_segment`. Nothing zero-fills the rest of the destination: that part
of the source is disabled. -/
def loadSegment (vn : Vnode) (offset paddr memsize filesize : Nat) : VM (Option Errno) := do
  let filesize := if filesize > memsize then memsize else filesize
  match ← vopRead vn offset paddr filesize with
  | .error err => return some err
  | .ok resid => return if resid ≠ 0 then some .ENOEXEC else none

/-! ## swapfile.c -/

def Sys.setSlot (s : Sys) (k : Nat) (b : Bool) : Sys := { s with swapMap := s.swapMap.set k b }

/-- `used--`, on an `uint16_t`. -/
def Sys.decUsed (s : Sys) : Sys := { s with used := (s.used + 65535) % 65536 }

/-- `used++`, on an `uint16_t`. -/
def Sys.incUsed (s : Sys) : Sys := { s with used := (s.used + 1) % 65536 }

/-- The bitmap part of `swap_in`: the slot must be marked; `toRemove` frees it. -/
def leaveSlot (slot : Nat) (toRemove : Bool) : VM Unit :=
  Prog.exec fun _ s =>
    match s.swapMap[slot]? with
    | none => .undefined
    | some false => .panic "KASSERT: bitmap_isset(swapMap, *swap_paddr) != 0"
    | some true => .ok ((), if toRemove then (s.setSlot slot false).decUsed else s)

/-- `swap_in`. On a failed read it returns with `swap_lock` still held. -/
def swapIn (a : AsId) (j : Nat) (ramPaddr : Nat) (toRemove : Bool) : VM (Option Errno) := do
  lockAcquire .swap
  let e ← getPte a j
  match ← loadSegment .swapFile (wrap (e.paddr * pageSize)) ramPaddr pageSize pageSize with
  | some err => return some err
  | none =>
      leaveSlot e.paddr toRemove
      updPte a j fun e => { e with paddr := ramPaddr }
      lockRelease .swap
      return none

def bitmapAlloc : VM (Option Nat) :=
  Prog.exec fun _ s =>
    match s.world.bitmapAlloc s.swapMap with
    | some i => .ok (some i, s.setSlot i true)
    | none => .ok (none, s)

def Sys.writeSwap (s : Sys) (paddr offset : Nat) : Sys :=
  { s with
    swapWrites := s.swapWrites + 1
    disk := s.disk.copy offset s.ram paddr pageSize }

def vopWrite (paddr offset : Nat) : VM Unit :=
  Prog.exec fun _ s =>
    match s.world.swapWrite s.swapWrites with
    | some _ => .panic "KASSERT: result == 0"
    | none => .ok ((), s.writeSwap paddr offset)

/-- `swap_out`. The first error return, a comparison of a page count with a
size in bytes, leaves `swap_lock` held. -/
def swapOut (a : AsId) (j : Nat) : VM (Option Errno) := do
  lockAcquire .swap
  if ← Prog.gets fun s => decide (s.used = s.swapFileSize) then
    return some .ENOMEM
  else
    match ← bitmapAlloc with
    | none =>
        lockRelease .swap
        return some .ENOSPC
    | some i =>
        let e ← getPte a j
        vopWrite e.paddr (wrap (i * pageSize))
        updPte a j fun e => { e with paddr := i }
        Prog.modify (·.incUsed)
        lockRelease .swap
        return none

/-- `bitmap_unmark(swapMap, slot)`, which asserts that the bit is set. -/
def bitmapUnmark (slot : Nat) : VM Unit :=
  Prog.exec fun _ s =>
    match s.swapMap[slot]? with
    | some true => .ok ((), s.setSlot slot false)
    | _ => .panic "KASSERT: bitmap_unmark"

def clearSwap (slot : Nat) : VM Unit := do
  lockAcquire .swap
  bitmapUnmark slot
  Prog.modify (·.decUsed)
  lockRelease .swap

/-- `swapFileSize - used`, bytes minus pages, as an `unsigned`. -/
def Sys.availableSwap (s : Sys) : Nat := wrap (s.swapFileSize + 2 ^ 32 - s.used)

def getAvailableSwap : VM Nat := do
  lockAcquire .swap
  let sz ← Prog.gets (·.availableSwap)
  lockRelease .swap
  return sz

end Os161Paging
