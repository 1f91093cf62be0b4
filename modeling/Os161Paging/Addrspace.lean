import Mathlib.Algebra.Group.Int.Defs
import Mathlib.Algebra.GroupWithZero.Nat
import Os161Paging.Coremap

/-!
# Address spaces and the fault handler

`addrspace.c`, the parts of `pt.c` and `loadelf.c` it calls, and
`load_elf`. An allocation that can fail is an answer of the `World` or an
argument (`kmalloc` of a `struct addrspace` is the argument `p`: the
address it returned, if any); memory that is read before it is written is
an argument too (`junk`).
-/

namespace Os161Paging

/-! ## as_create and as_define_region -/

/-- Did this `kmalloc` succeed? It takes no frame (see `World`). -/
def kmalloc : VM Bool :=
  Prog.exec fun _ s => .ok (s.world.kmalloc s.kmallocs, { s with kmallocs := s.kmallocs + 1 })

def Sys.createAs (s : Sys) (a : AsId) (v : File) : Sys := s.setAs a ⟨none, [], [], v, none⟩

/-- The initialisation of the structure at `a`. The memory must not be in use
already, and so there is no `pt_lock` at that address that anybody holds. -/
def initAs (a : AsId) (v : File) : VM Unit :=
  Prog.exec fun _ s =>
    if (s.as a).isNone ∧ s.owner (.pt a) = none then .ok ((), s.createAs a v) else .undefined

/-- `as_create` of the program `f` (what `vfs_open` found). -/
def asCreate (p : Option AsId) (f : Option File) : VM (Except Errno AsId) := do
  canSleep
  match p, f with
  | none, _ => return .error .ENOMEM
  | some _, none => return .error .ENOENT
  | some a, some v =>
      if ← kmalloc then
        initAs a v
        return .ok a
      else
        return .error .ENOMEM

def Segment.define (vaddr memsize filesize readable writeable executable offset : Nat) : Segment :=
  let memsize := wrap (memsize + pageOffset vaddr)
  let memsize := pageFrame (wrap (memsize + pageSize - 1))
  { start := pageFrame vaddr
    size := memsize
    filesize := filesize
    npages := memsize / pageSize
    rwx := (readable &&& 0x4) ||| (writeable &&& 0x2) ||| (executable &&& 0x1)
    offset := offset
    initoffset := pageOffset vaddr }

def addSegment (a : AsId) (seg : Segment) : VM Unit :=
  Prog.exec fun _ s =>
    match s.as a with
    | some as => .ok ((), s.setAs a { as with asSegment := as.asSegment ++ [seg] })
    | none => .undefined

def asDefineRegion (a : AsId) (vaddr memsize filesize readable writeable executable offset : Nat) :
    VM (Option Errno) := do
  if ← kmalloc then
    addSegment a (.define vaddr memsize filesize readable writeable executable offset)
    return none
  else
    return some .ENOMEM

/-! ## as_prepare_load -/

/-- The page-table entries `as_prepare_load` writes for one segment. -/
def Segment.entries (seg : Segment) : List PtEntry :=
  (List.range seg.npages).map fun k =>
    { paddr := 0, vaddr := wrap (seg.start + k * pageSize), inMem := false, inSwap := false,
      rwx := seg.rwx }

def freshPt (segs : List Segment) : List PtEntry := segs.flatMap Segment.entries

/-- `as->npages`, summed up as an `unsigned`. -/
def totalPages (segs : List Segment) : Nat := wrap ((segs.map Segment.npages).sum)

/-- Bytes in the block `ptAlloc` hands out for `npages` entries. -/
def ptBytes (npages : Nat) : Nat := max 1 (ptFrames npages) * pageSize

def setNpages (a : AsId) : VM Nat :=
  Prog.exec fun _ s =>
    match s.as a with
    | some as =>
        let n := totalPages as.asSegment
        .ok (n, s.setAs a { as with npages := some n })
    | none => .undefined

/-- `as_pt` set to the block at `ptloc`, with the contents `pt` as computed from
the address space. A table that does not fit in the block of `n` entries is
written over whatever follows the block. -/
def installPt (a : AsId) (n ptloc : Nat) (pt : Addrspace → List PtEntry) : VM Unit :=
  Prog.exec fun _ s =>
    match s.as a with
    | some as =>
        if sizeofPtEntry * (pt as).length ≤ ptBytes n then
          .ok ((), s.setAs a { as with asPt := some ptloc, pt := pt as })
        else .undefined
    | none => .undefined

/-- The part of `as_prepare_load` under `pt_lock`, which it keeps when the table
cannot be allocated. -/
def prepareTable (a : AsId) (n : Nat) : VM (Option Errno) := do
  lockAcquire (.pt a)
  let ptloc ← ptAlloc n
  if ptloc = 0 then
    return some .ENOMEM
  else
    installPt a n ptloc fun as => freshPt as.asSegment
    lockRelease (.pt a)
    return none

/-- The segment `as_prepare_load` defines for the stack. -/
def stackSegment : Segment :=
  .define (userStack - stackPages * pageSize) (stackPages * pageSize) (stackPages * pageSize)
    pfR pfW 0 0

def asPrepareLoad (a : AsId) : VM (Option Errno) := do
  let size := stackPages * pageSize
  match ← asDefineRegion a (userStack - size) size size pfR pfW 0 0 with
  | some _ => return some .ENOMEM
  | none =>
      let n ← setNpages a
      prepareTable a n

/-! ## as_destroy and as_activate -/

def clearSlot (e : PtEntry) : VM Unit :=
  if e.inSwap then clearSwap e.paddr else pure ()

def clearSlots : List PtEntry → VM Unit
  | [] => pure ()
  | e :: pt => do
      clearSlot e
      clearSlots pt

/-- `(paddr_t)as->as_pt - MIPS_KSEG0`. -/
def Addrspace.ptPaddr (as : Addrspace) : Nat := as.asPt.getD kseg0

def asDestroy (a : AsId) : VM Unit := do
  canSleep
  lockAcquire (.pt a)
  let as ← getAs a
  match as.npages with
  | none => Prog.exec fun _ _ => .undefined
  | some n =>
      clearSlots (as.pt.take n)
      lockRelease (.pt a)
      freepages as.ptPaddr
      freeAs a
      Prog.modify fun s => { s with as := Function.update s.as a none }

def asActivate : VM Unit := do
  match ← Prog.gets (·.cur) with
  | none => return ()
  | some _ => tlbInvalidate

/-! ## Kernel pages -/

/-- `getppages`; `(int)npages` is the two's complement reading of the word. -/
def getppages (npages : Nat) : VM Nat := do
  let n : Int := if wrap npages < 2 ^ 31 then wrap npages else wrap npages - 2 ^ 32
  let addr ← getPages n 0 none
  if addr = 0 then
    spinlockAcquire .stealmem
    let addr ← Prog.gets (·.world.ramStealmem npages)
    spinlockRelease .stealmem
    return addr
  else
    return addr

def allocKpages (npages : Nat) : VM Nat := do
  canSleep
  let pa ← getppages npages
  if pa = 0 then
    return 0
  else
    return paddrToKvaddr pa

/-- `paddr` of the first page of `a` whose `vaddr` field is `vaddr`, searched among the
first `npages` entries. -/
def findVaddr (a : AsId) (vaddr : Nat) : VM (Option Nat) :=
  Prog.exec fun _ s =>
    match s.as a with
    | some as =>
        match as.npages with
        | some n => .ok (((as.pt.take n).find? fun e => e.vaddr == vaddr).map (·.paddr), s)
        | none => .undefined
    | none => .undefined

/-- `getPageVtoP`: what it returns, and `*paddr` if it has been set. -/
def getPageVtoP (vaddr : Nat) : VM (Int × Option Nat) := do
  match ← Prog.gets (·.cur) with
  | none => return (0, none)
  | some a =>
      -- after the loop the 1 of a hit is overwritten
      if ← canLock then
        lockAcquire (.pt a)
        let paddr ← findVaddr a vaddr
        lockRelease (.pt a)
        return (-1, paddr)
      else
        let paddr ← findVaddr a vaddr
        return (-1, paddr)

def freeKpages (addr : Nat) : VM Unit := do
  spinlockAcquire .coremap
  let active ← Prog.gets (·.coremapActive)
  spinlockRelease .coremap
  if active then
    let r ← getPageVtoP addr
    if r.1 > 0 then
      match r.2 with
      | some paddr => freepages paddr
      | none => Prog.exec fun _ _ => .undefined
    else if r.1 = 0 then
      freepages (wrap (addr + 2 ^ 32 - kseg0))
    else
      Prog.fail "vaddr not found in the page table\n"

/-! ## load_elf -/

inductive PType where
  | null | phdr | mipsReginfo | load | other (code : Nat)
deriving DecidableEq, Repr

structure Phdr where
  ptype : PType
  offset : Nat
  vaddr : Nat
  filesz : Nat
  memsz : Nat
  flags : Nat
deriving DecidableEq, Repr

/-- The fields of `Elf_Ehdr` that `load_elf` uses, and the program headers it
reads at `e_phoff + i * e_phentsize`. -/
structure Elf where
  ident : List Nat
  version : Nat
  type : Nat
  machine : Nat
  phoff : Nat
  phentsize : Nat
  entry : Nat
  phdrs : List Phdr
deriving DecidableEq, Repr

/-- The header check of `load_elf`: magic, 32-bit, big-endian, version 1, an
executable for MIPS. -/
def Elf.headerOk (h : Elf) : Bool :=
  h.ident == [0x7f, 0x45, 0x4c, 0x46, 1, 2, 1] && h.version == 1 && h.type == 2 && h.machine == 8

/-- A read of `n` bytes of header at `offset`; a short one is `ENOEXEC`. -/
def readHeader (a : AsId) (offset n : Nat) : VM (Option Errno) :=
  Prog.exec fun _ s =>
    match s.as a with
    | none => .undefined
    | some as =>
        let s' := { s with elfReads := s.elfReads + 1 }
        match s.world.elfRead s.elfReads with
        | some e => .ok (some e, s')
        | none => .ok (if as.v.avail offset n < n then some .ENOEXEC else none, s')

/-- The loop of `load_elf` over the program headers from index `i` on. -/
def loadPhdrs (a : AsId) (h : Elf) : Nat → List Phdr → VM (Option Errno)
  | _, [] => pure none
  | i, ph :: phs => do
      match ← readHeader a (wrap (h.phoff + i * h.phentsize)) 32 with
      | some e => return some e
      | none =>
          match ph.ptype with
          | .null | .phdr | .mipsReginfo => loadPhdrs a h (i + 1) phs
          | .other _ => return some .ENOEXEC
          | .load =>
              match ← asDefineRegion a ph.vaddr ph.memsz ph.filesz (ph.flags &&& pfR)
                  (ph.flags &&& pfW) (ph.flags &&& pfX) ph.offset with
              | some e => return some e
              | none => loadPhdrs a h (i + 1) phs

/-- `load_elf`: the entry point. -/
def loadElf (a : AsId) (h : Elf) : VM (Except Errno Nat) := do
  match ← readHeader a 0 52 with
  | some e => return .error e
  | none =>
      if h.headerOk then
        match ← loadPhdrs a h 0 h.phdrs with
        | some e => return .error e
        | none =>
            match ← asPrepareLoad a with
            | some e => return .error e
            | none => return .ok h.entry
      else
        return .error .ENOEXEC

/-! ## On-demand loading -/

structure OndemandArgs where
  offset : Nat
  paddr : Nat
  memsize : Nat
  filesize : Nat
deriving DecidableEq, Repr

/-- The computation of `load_elf_ondemand`. On the first page of the segment
(`amt == 0`) the destination is shifted by `initoffset`; on the others it is
not, and neither is the file offset. -/
def ondemandArgs (seg : Segment) (paddr vaddr : Nat) : OndemandArgs :=
  let vpn := pageFrame vaddr
  let amt := pageFrame (wrap (vpn + 2 ^ 32 - seg.start))
  let filesize :=
    if seg.filesize < amt then 0
    else if seg.filesize - amt > pageSize then pageSize else seg.filesize - amt
  let left := wrap (seg.size + 2 ^ 32 - amt)
  let memsize := if left > pageSize then pageSize else left
  if amt = 0 then
    let memsize := wrap (memsize + 2 ^ 32 - seg.initoffset)
    ⟨seg.offset + amt, wrap (paddr + seg.initoffset), memsize, memsize⟩
  else
    ⟨seg.offset + amt, paddr, memsize, filesize⟩

def loadElfOndemand (a : AsId) (seg : Segment) (paddr vaddr : Nat) : VM (Option Errno) :=
  let x := ondemandArgs seg paddr vaddr
  loadSegment (.exe a) x.offset x.paddr x.memsize x.filesize

/-! ## vm_fault -/

/-- The segment walk of `vm_fault`: the segment, the number of pages before it,
and whether it is the last (`seg->next == NULL`). -/
def walkSegments (faultaddress : Nat) : List Segment → Nat → Option (Segment × Nat × Bool)
  | [], _ => none
  | [seg], np => some (seg, np, true)
  | seg :: seg' :: rest, np =>
      if faultaddress < seg'.start then some (seg, np, false)
      else walkSegments faultaddress (seg' :: rest) (np + seg.npages)

/-- The scan of `vm_fault` over `pt[np .. np + n)`. -/
def scanSlice (pt : List PtEntry) (faultaddress np n : Nat) : Option Nat :=
  (List.range' np n).find? fun i => pt[i]?.any (·.vaddr == faultaddress)

def findSegment (a : AsId) (faultaddress : Nat) : VM (Segment × Nat × Bool) :=
  Prog.exec fun _ s =>
    match s.as a with
    | none => .undefined
    | some as =>
        match walkSegments faultaddress as.asSegment 0 with
        | some r => .ok (r, s)
        | none => .undefined

/-- The page-table scan as an action; a slice past the end of the table is read
from memory that is not part of it. -/
def findPage (a : AsId) (faultaddress np n : Nat) : VM (Option Nat) :=
  Prog.exec fun _ s =>
    match s.as a with
    | none => .undefined
    | some as =>
        if np + n ≤ as.pt.length then .ok (scanSlice as.pt faultaddress np n, s) else .undefined

/-- The page is in the swap file: bring it back. The result of `swap_in` is
stored in a variable that is overwritten before it is read. -/
def pageInSwap (a : AsId) (i faultaddress : Nat) : VM Unit := do
  lockRelease (.pt a)
  let newPaddr ← getPages 1 faultaddress (some a)
  lockAcquire (.pt a)
  let _ ← swapIn a i newPaddr true
  updPte a i fun e => { e with inSwap := false }
  vmStatsInc .swapRead
  vmStatsInc .pageFaultDisk

def ensureFrame (a : AsId) (i faultaddress : Nat) : VM Unit := do
  let e ← getPte a i
  if e.paddr = 0 then
    lockRelease (.pt a)
    let paddr ← getPages 1 faultaddress (some a)
    updPte a i fun e => { e with paddr := paddr }
    lockAcquire (.pt a)
  else
    return ()

/-- The page has no contents yet: load it from the executable, or clear it if it
belongs to the last segment. -/
def pageInFresh (a : AsId) (i : Nat) (seg : Segment) (last : Bool) (faultaddress : Nat) :
    VM Unit := do
  ensureFrame a i faultaddress
  let e ← getPte a i
  if last then
    Prog.modify fun s => { s with ram := s.ram.bzero e.paddr pageSize }
    vmStatsInc .pageFaultZeroed
  else
    let _ ← loadElfOndemand a seg e.paddr faultaddress
    vmStatsInc .elfRead
    vmStatsInc .pageFaultDisk

def fetch (a : AsId) (i : Nat) (seg : Segment) (last : Bool) (faultaddress : Nat)
    (inSwap : Bool) : VM Unit :=
  if inSwap then pageInSwap a i faultaddress else pageInFresh a i seg last faultaddress

/-- The `VM_FAULT_READ` and `VM_FAULT_WRITE` cases of `vm_fault`. -/
def pageIn (a : AsId) (i : Nat) (seg : Segment) (last : Bool) (faultaddress : Nat) : VM Unit := do
  let e ← getPte a i
  if e.inMem then
    vmStatsInc .tlbReload
  else
    fetch a i seg last faultaddress e.inSwap
    updPte a i fun e => { e with inMem := true }

/-- `vm_fault` once the page has been found: `pt_lock` is held. -/
def faultAt (a : AsId) (i : Nat) (seg : Segment) (last : Bool) (faultaddress : Nat) :
    VM (Option Errno) := do
  pageIn a i seg last faultaddress
  let e ← getPte a i
  let result ← tlbLoadentry faultaddress e.paddr (!e.writable)
  lockRelease (.pt a)
  return result

def vmFault (faulttype : FaultType) (faultaddress : Nat) : VM (Option Errno) := do
  vmStatsInc .tlbFault
  let fa := pageFrame faultaddress
  match ← Prog.gets (·.cur) with
  | none => return some .EFAULT
  | some a =>
      let (seg, np, last) ← findSegment a fa
      lockAcquire (.pt a)
      match ← findPage a fa np seg.npages with
      | none =>
          lockRelease (.pt a)
          Prog.fail "pt with addr not initialized!\n"
      | some i =>
          match faulttype with
          | .readonly =>
              lockRelease (.pt a)
              Prog.fail "vm: got VM_FAULT_READONLY\n"
          | .other _ =>
              lockRelease (.pt a)
              return some .EINVAL
          | .read => faultAt a i seg last fa
          | .write => faultAt a i seg last fa

/-! ## as_copy -/

/-- The loop of `as_copy` over the segments; `false` when a `kmalloc` fails. -/
def copySegments (new : AsId) : List Segment → VM Bool
  | [] => pure true
  | seg :: segs => do
      if ← kmalloc then
        addSegment new seg
        copySegments new segs
      else
        return false

/-- One round of the page loop of `as_copy`. For a page in swap the slot number
is taken from the new entry, where nothing has been stored yet. -/
def copyPage (old new : AsId) (i : Nat) : VM (Option Errno) := do
  let o ← getPte old i
  updPte new i fun e => { e with inMem := false, inSwap := false, rwx := o.rwx, vaddr := o.vaddr }
  if o.inSwap then
    let paddr ← getPages 1 o.vaddr (some new)
    let err ← swapIn new i paddr false
    if err ≠ none then
      return err
    else
      updPte new i fun e => { e with inSwap := false, inMem := true }
      return none
  else if o.inMem then
    let paddr ← getPages 1 o.vaddr (some new)
    Prog.modify fun s => { s with ram := s.ram.copy paddr s.ram o.paddr pageSize }
    updPte new i fun e => { e with paddr := paddr, inMem := true }
    return none
  else
    updPte new i fun e => { e with paddr := 0 }
    return none

def copyPages (old new : AsId) : (n i : Nat) → VM (Option Errno)
  | 0, _ => pure none
  | n + 1, i => do
      match ← copyPage old new i with
      | some e => return some e
      | none => copyPages old new n (i + 1)

def copyNpages (new : AsId) (n : Nat) : VM Unit :=
  Prog.exec fun _ s =>
    match s.as new with
    | some as => .ok ((), s.setAs new { as with npages := some n })
    | none => .undefined

/-- The part of `as_copy` that allocates and fills the page table. -/
def copyTable (old new : AsId) (n : Nat) (junk : Nat → PtEntry) : VM (Except Errno AsId) := do
  copyNpages new n
  let ptloc ← ptAlloc n
  if ptloc = 0 then
    return .error .ENOMEM
  else
    installPt new n ptloc fun _ => (List.range n).map junk
    match ← copyPages old new n 0 with
    | some e => return .error e
    | none =>
        lockRelease (.pt old)
        return .ok new

/-- `as_copy`. The error returns after `as_create` keep the `pt_lock` of `old`;
`junk` is what the frames of the new page table held before. -/
def asCopy (old : AsId) (p : Option AsId) (f : Option File) (junk : Nat → PtEntry) :
    VM (Except Errno AsId) := do
  match ← asCreate p f with
  | .error e => return .error e
  | .ok new =>
      lockAcquire (.pt old)
      let o ← getAs old
      if ← copySegments new o.asSegment then
        match o.npages with
        | none => Prog.exec fun _ _ => .undefined
        | some n => copyTable old new n junk
      else
        return .error .ENOMEM

/-! ## Boot -/

/-- `vm_bootstrap` on a machine with `lastpaddr` bytes of RAM, the first free
one at `firstfree`, and a swap file of `swapFileSize` bytes. -/
def boot (w : World) (ram disk : Mem) (lastpaddr firstfree swapFileSize : Nat) : Sys where
  coremap := List.replicate (coremapGeometry lastpaddr firstfree).1 .zero
  firstpaddr := (coremapGeometry lastpaddr firstfree).2
  coremapActive := true
  nextSvic := 0
  ramUsed := 0
  ram := ram
  swapMap := List.replicate (swapFileSize / pageSize) false
  used := 0
  swapFileSize := swapFileSize
  disk := disk
  as _ := none
  tlb := emptyTlb
  tlbFull := false
  nextVictim := 0
  counters _ := 0
  owner _ := none
  cur := none
  world := w
  swapReads := 0
  swapWrites := 0
  elfReads := 0
  kmallocs := 0

end Os161Paging
