import Creeks.Lib.Bits

/-!
# Memory management: the state

The data of `mm.h`, `mm.c` and `kmalloc.c`. Addresses and words are naturals; an operation that can
wrap around says so with `wrap`.

Memory is kept in two parts. `ram` holds the physical frames as 1024 words each: it is what page
directories, page tables, user pages and the pages of the kernel page heap are stored in, and it is
only reached through the page tables. `mem` holds the bytes of the kernel heap by linear address:
the chunk headers of `kmalloc` live there. The small structures the kernel keeps in chunks of that
heap (`struct vm_area`, `struct page`, `struct page_directory`) are kept as values together with the
address of their chunk.

`oom` and `stale` are ghost flags. They record that `get_page_frame` has returned -1, and that
`pd_add_page` has put a table in service whose first word it left with the present bit set.
-/

namespace Creeks
open Lib

abbrev PAGESIZE : Nat := 4096
abbrev RAM_MAXPAGE : Nat := 0x100000
abbrev KERN_PDIR : Nat := 0x00001000
abbrev KERN_PG_HEAP : Nat := 0x00800000
abbrev KERN_PG_HEAP_LIM : Nat := 0x10000000
abbrev KERN_HEAP : Nat := 0x10000000
abbrev KERN_HEAP_LIM : Nat := 0x40000000
abbrev USER_OFFSET : Nat := 0x40000000
abbrev USER_STACK : Nat := 0xE0000000
abbrev PG_PRESENT : Nat := 0x00000001
abbrev PG_WRITE : Nat := 0x00000002
abbrev PG_USER : Nat := 0x00000004
abbrev PG_4MB : Nat := 0x00000080

/-- The value of a 32-bit unsigned expression. -/
@[irreducible] def wrap (n : Nat) : Nat := n % 4294967296

lemma wrap_eq (n : Nat) : wrap n = n % 4294967296 := by
  unfold wrap
  rfl

/-- A value that fits in 32 bits does not wrap. -/
lemma wrap_of_lt {n : Nat} (h : n < 4294967296) : wrap n = n := by
  rw [wrap_eq, Nat.mod_eq_of_lt h]

/-- `(char *) -1`. -/
abbrev MINUS_ONE : Nat := 0xFFFFFFFF

/-- `struct page`, with the address of its chunk. The list links are the order of the Lean list. -/
structure Page where
  addr : Nat
  vAddr : Nat
  pAddr : Nat
deriving DecidableEq, Repr

/-- `struct page_directory`, with the address of its chunk. -/
structure PageDirectory where
  addr : Nat
  base : Page
  pt : List Page
deriving DecidableEq, Repr

/-- `struct vm_area`, with the address of its chunk. -/
structure VmArea where
  addr : Nat
  vmStart : Nat
  vmEnd : Nat
deriving DecidableEq, Repr

/-- Where a computation leaves the modelled machine: a `PANIC` that executes `hlt`, an access to an
unmapped linear address in kernel mode, or a write to memory the model does not hold. -/
inductive Stop where
  /-- `kmalloc(): corrupted chunk on %x with null size` -/
  | nullChunk (chunk : Nat)
  /-- `kmalloc(): no memory left for kernel` -/
  | noMemory
  /-- `kmalloc(): chunk on %x while heap limit is on %x` -/
  | beyondHeap (chunk : Nat)
  /-- `get_page_from_heap(): no page frame available` -/
  | noFrame
  /-- `get_page_from_heap(): not memory left in page heap` -/
  | pageHeapFull
  /-- `release_page_from_heap(): corrupted linked list` -/
  | corruptedList
  /-- `pd0_add_page(): kernel page table not found` -/
  | noPageTable (vAddr : Nat)
  | fault (addr : Nat)
  | wild (addr : Nat)
  /-- A loop bound of the model was reached. -/
  | fuel
deriving DecidableEq, Repr

/-- The memory manager. `headWords` are the two words stored just below `kern_free_vm`, which
`list_entry` on the list head reads as `vm_start` and `vm_end`. -/
structure Mm where
  memBitmap : Nat → BitVec 8
  ram : Nat → Nat → Nat
  cr3 : Nat
  mem : Mem
  kernHeap : Nat
  kmallocUsed : Nat
  kernFreeVm : List VmArea
  headWords : Nat × Nat
  oom : Bool
  stale : Bool

/-- The state with other heap bytes and another count of bytes in use. The lemmas about it are not
definitional, so that a proof never compares two heaps byte by byte. -/
def Mm.withHeap (s : Mm) (mem : Mem) (used : Nat) : Mm :=
  { s with mem := mem, kmallocUsed := used }

/-- The state with another list of free areas and other words below the list head. -/
def Mm.withVm (s : Mm) (areas : List VmArea) (head : Nat × Nat) : Mm :=
  { s with kernFreeVm := areas, headWords := head }

section WithHeap

variable (s : Mm) (mem : Mem) (used : Nat)

@[simp] lemma withHeap_memBitmap : (s.withHeap mem used).memBitmap = s.memBitmap := by
  cases s; rfl
@[simp] lemma withHeap_ram : (s.withHeap mem used).ram = s.ram := by
  cases s; rfl
@[simp] lemma withHeap_cr3 : (s.withHeap mem used).cr3 = s.cr3 := by
  cases s; rfl
@[simp] lemma withHeap_mem : (s.withHeap mem used).mem = mem := by
  cases s; rfl
@[simp] lemma withHeap_kmallocUsed : (s.withHeap mem used).kmallocUsed = used := by
  cases s; rfl
@[simp] lemma withHeap_kernHeap : (s.withHeap mem used).kernHeap = s.kernHeap := by
  cases s; rfl
@[simp] lemma withHeap_kernFreeVm : (s.withHeap mem used).kernFreeVm = s.kernFreeVm := by
  cases s; rfl
@[simp] lemma withHeap_headWords : (s.withHeap mem used).headWords = s.headWords := by
  cases s; rfl
@[simp] lemma withHeap_oom : (s.withHeap mem used).oom = s.oom := by
  cases s; rfl
@[simp] lemma withHeap_stale : (s.withHeap mem used).stale = s.stale := by
  cases s; rfl

end WithHeap

section WithVm

variable (s : Mm) (areas : List VmArea) (head : Nat × Nat)

@[simp] lemma withVm_memBitmap : (s.withVm areas head).memBitmap = s.memBitmap := by
  cases s; rfl
@[simp] lemma withVm_ram : (s.withVm areas head).ram = s.ram := by
  cases s; rfl
@[simp] lemma withVm_cr3 : (s.withVm areas head).cr3 = s.cr3 := by
  cases s; rfl
@[simp] lemma withVm_mem : (s.withVm areas head).mem = s.mem := by
  cases s; rfl
@[simp] lemma withVm_kernHeap : (s.withVm areas head).kernHeap = s.kernHeap := by
  cases s; rfl
@[simp] lemma withVm_kernFreeVm : (s.withVm areas head).kernFreeVm = areas := by
  cases s; rfl
@[simp] lemma withVm_headWords : (s.withVm areas head).headWords = head := by
  cases s; rfl
@[simp] lemma withVm_oom : (s.withVm areas head).oom = s.oom := by
  cases s; rfl
@[simp] lemma withVm_stale : (s.withVm areas head).stale = s.stale := by
  cases s; rfl
@[simp] lemma withHeap_withVm (mem : Mem) (used : Nat) :
    (s.withVm areas head).withHeap mem used = (s.withHeap mem used).withVm areas head := by
  cases s; rfl

end WithVm

end Creeks
