import Mathlib.Logic.Function.Basic
import Os161Paging.Prog

/-!
# The data of the paging subsystem

Constants, structures and global variables of `coremap.h`, `pt.h`,
`segment.h`, `addrspace.h`, `vmstats.h` and of the `.c` files that own
them, collected in one record `Sys`. Machine words are `Nat`, reduced
modulo `2 ^ 32` where the code can overflow; pointers to address spaces
are opaque identifiers; a page table is kept as the array it is, beside
the physical address of the block that holds it.

What lies outside of this repository (the disk, `kmalloc`, the bitmap
allocator of the base kernel) is a `World`: it answers every request the
code makes, and every statement quantifies over it.
-/

namespace Os161Paging

/-! ## Words and addresses -/

def pageSize : Nat := 4096

@[simp] theorem pageSize_eq : pageSize = 4096 := rfl

/-- A 32-bit unsigned result. -/
def wrap (x : Nat) : Nat := x % 2 ^ 32

/-- `x & PAGE_FRAME` on a 32-bit word. -/
def pageFrame (x : Nat) : Nat := x - x % pageSize

/-- `x & ~PAGE_FRAME`. -/
def pageOffset (x : Nat) : Nat := x % pageSize

def divRoundUp (a b : Nat) : Nat := wrap (a + b - 1) / b

/-- `MIPS_KSEG0`, the kernel's window on physical memory and the end of user space. -/
def kseg0 : Nat := 0x80000000

def userStack : Nat := kseg0

def paddrToKvaddr (paddr : Nat) : Nat := wrap (paddr + kseg0)

def stackPages : Nat := 18

def numTlb : Nat := 64

def sizeofCEntry : Nat := 12

def sizeofPtEntry : Nat := 12

/-- `PF_R`, `PF_W`, `PF_X`. -/
def pfR : Nat := 4
def pfW : Nat := 2
def pfX : Nat := 1

/-! ## Memory -/

abbrev Byte := UInt8

/-- Byte-addressed storage: physical memory, or a device. -/
abbrev Mem := Nat → Byte

abbrev Page := Fin pageSize → Byte

namespace Mem

def copy (m : Mem) (d : Nat) (src : Mem) (o n : Nat) : Mem :=
  fun x => if d ≤ x ∧ x < d + n then src (o + (x - d)) else m x

def bzero (m : Mem) (d n : Nat) : Mem :=
  fun x => if d ≤ x ∧ x < d + n then 0 else m x

/-- The page that starts at address `p`. -/
def page (m : Mem) (p : Nat) : Page := fun o => m (p + o)

def store (m : Mem) (x : Nat) (b : Byte) : Mem := fun y => if y = x then b else m y

end Mem

/-- A file as `VOP_READ` sees it. -/
structure File where
  size : Nat
  byte : Mem

/-! ## Structures -/

/-- The address of a `struct addrspace`. -/
abbrev AsId := Nat

/-- `c_entry`: one entry of the coremap. The low two bits of `vaddr` are the
reserved (`0x1`) and used (`0x2`) flags. -/
structure CEntry where
  vaddr : Nat
  as : Option AsId
  allocpages : Nat
deriving DecidableEq, Repr

namespace CEntry

/-- `CRES(i)`. The macro masks with `0x3` and so answers for used entries as well. -/
def cres (e : CEntry) : Bool := e.vaddr &&& 0x3 != 0

def cused (e : CEntry) : Bool := e.vaddr &&& 0x2 != 0

/-- `!CUSED(i) && !CRES(i)`, the test both allocators make. -/
def isFree (e : CEntry) : Bool := !e.cused && !e.cres

/-- `coremap[i].vaddr & 0x1`. -/
def reserved (e : CEntry) : Bool := e.vaddr &&& 0x1 != 0

end CEntry

structure PtEntry where
  paddr : Nat
  vaddr : Nat
  inMem : Bool
  inSwap : Bool
  rwx : Nat
deriving DecidableEq, Repr

/-- `rwx & 2`. -/
def PtEntry.writable (e : PtEntry) : Bool := e.rwx &&& 2 != 0

/-- `segment_t`, without the list pointer. -/
structure Segment where
  start : Nat
  size : Nat
  filesize : Nat
  npages : Nat
  rwx : Nat
  offset : Nat
  initoffset : Nat
deriving DecidableEq, Repr

/-- `struct addrspace`. `asPt` is the physical address behind `as_pt`, `none`
for `NULL`, and `pt` the array found there; `npages` is `none` until
`as_prepare_load` sets it. -/
structure Addrspace where
  asPt : Option Nat
  pt : List PtEntry
  asSegment : List Segment
  v : File
  npages : Option Nat

/-- The TLB registers `EntryHi` and `EntryLo` of one slot. -/
structure TlbEntry where
  ehi : Nat
  elo : Nat
deriving DecidableEq, Repr

namespace TlbEntry

def valid (e : TlbEntry) : Bool := e.elo.testBit 9

/-- `TLBLO_DIRTY`, which makes the page writable. -/
def dirty (e : TlbEntry) : Bool := e.elo.testBit 10

/-- The virtual page the entry translates. -/
def vpage (e : TlbEntry) : Nat := pageFrame e.ehi

/-- The physical page it translates it to. -/
def ppage (e : TlbEntry) : Nat := pageFrame e.elo

/-- `(TLBHI_INVALID(i), TLBLO_INVALID())`. -/
def invalid (i : Nat) : TlbEntry := ⟨(0x80000 + i) * pageSize, 0⟩

end TlbEntry

inductive Stat where
  | tlbFault | tlbFaultWithFree | tlbFaultWithReplace | tlbInvalidation | tlbReload
  | pageFaultZeroed | pageFaultDisk | elfRead | swapRead | swapWrite
deriving DecidableEq, Repr

inductive Lock where
  | coremap | stealmem | swap | stats | pt (a : AsId)
deriving DecidableEq, Repr

/-- Spinlocks, as opposed to the sleep locks of `synch.c`. -/
def Lock.isSpin : Lock → Bool
  | .coremap | .stealmem => true
  | _ => false

/-- A thread: the single thread of a user process, named by its address space,
or a kernel thread without one. -/
inductive Tid where
  | proc (a : AsId)
  | kernel
deriving DecidableEq, Repr

/-- Error codes; the code `0` is `none` of `Option Errno`. -/
inductive Errno where
  | ENOMEM | EFAULT | EINVAL | ENOEXEC | ENOSPC | ENOENT
  | dev (code : Nat)
deriving DecidableEq, Repr

inductive FaultType where
  | readonly | read | write | other (code : Nat)
deriving DecidableEq, Repr

/-! ## The world outside -/

/-- The answers of the code outside of this repository. The `n`-th transfer on
the swap device, read of an executable and `kmalloc` end as the streams say;
`bitmap_alloc` returns a clear bit and fails only when there is none. It is assumed
that `kmalloc` serves the small requests made here from pages it has already, and that
`kfree` keeps them: neither takes frames of the coremap or gives them back. -/
structure World where
  bitmapAlloc : List Bool → Option Nat
  swapRead : Nat → Option Errno
  swapWrite : Nat → Option Errno
  elfRead : Nat → Option Errno
  kmalloc : Nat → Bool
  ramStealmem : Nat → Nat
  alloc_clear : ∀ m k, bitmapAlloc m = some k → m[k]? = some false
  alloc_none : ∀ m, bitmapAlloc m = none → false ∉ m

/-- The `bitmap_alloc` of the base kernel: the lowest clear bit. -/
def firstClear (m : List Bool) : Option Nat := m.findIdx? (· == false)

def World.calm : World where
  bitmapAlloc := firstClear
  swapRead _ := none
  swapWrite _ := none
  elfRead _ := none
  kmalloc _ := true
  ramStealmem _ := 0
  alloc_clear m k h := by
    obtain ⟨hk, he, -⟩ := List.findIdx?_eq_some_iff_getElem.mp h
    rw [List.getElem?_eq_getElem hk]
    simpa using he
  alloc_none m h hm := by
    have := List.findIdx?_eq_none_iff.mp h false hm
    simp at this

/-! ## The global state -/

/-- Everything the modelled code reads or writes. -/
structure Sys where
  /-- `coremap.c`; `coremapSize` is the length of the array -/
  coremap : List CEntry
  firstpaddr : Nat
  coremapActive : Bool
  nextSvic : Nat
  ramUsed : Nat
  ram : Mem
  /-- `swapfile.c`; `disk` is the swap device -/
  swapMap : List Bool
  used : Nat
  swapFileSize : Nat
  disk : Mem
  /-- the `struct addrspace`s in the kernel heap -/
  as : AsId → Option Addrspace
  /-- `vm_tlb.c` and the TLB of the only CPU -/
  tlb : List TlbEntry
  tlbFull : Bool
  nextVictim : Nat
  /-- `vmstats.c` -/
  counters : Stat → Nat
  /-- who holds each lock -/
  owner : Lock → Option Tid
  /-- `proc_getas()` of the running thread -/
  cur : Option AsId
  world : World
  swapReads : Nat
  swapWrites : Nat
  elfReads : Nat
  kmallocs : Nat

namespace Sys

def coremapSize (s : Sys) : Nat := s.coremap.length

/-- `i * PAGE_SIZE + firstpaddr`, the address of frame `i`. -/
def frameAddr (s : Sys) (i : Nat) : Nat := wrap (i * pageSize + s.firstpaddr)

/-- Number of slots of the swap file. -/
def nslots (s : Sys) : Nat := s.swapMap.length

/-- `curcpu->c_spinlocks != 0` for the CPU `t` runs on. -/
def spinning (s : Sys) (t : Tid) : Bool :=
  s.owner .coremap == some t || s.owner .stealmem == some t

end Sys

/-- The code of the kernel, as programs over `Sys`. -/
abbrev VM := Prog Tid Sys Lock

end Os161Paging
