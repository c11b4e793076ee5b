import Creeks.Kmalloc.Blocks

/-!
# The heap of a process

`malloc` and `free` of the C library, over the break pointer `current->e_heap` that `sys_sbrk` keeps in
the kernel. The heap is created by the first request and grows by the size of the record that does
not fit. Its headers are those of the kernel heap, and so are the end of `malloc` (`takeChunk`) and
the loop of `free` (`coalesce`).
-/

namespace Creeks
open Lib

abbrev MALLOC_MINSIZE : Nat := 16

/-- The heap of one process: its memory, the two pointers of the library, and `current->e_heap`.
`obtained` is a ghost: the number of bytes `sys_sbrk` has given out. -/
structure UserHeap where
  mem : Mem
  bHeap : Nat
  eHeap : Nat
  kernelEHeap : Nat
  obtained : Nat

/-- `sys_sbrk` -/
def sysSbrk (s : UserHeap) (size : Nat) : UserHeap × Nat :=
  ({ s with kernelEHeap := wrap (s.kernelEHeap + size), obtained := s.obtained + size },
    s.kernelEHeap)

/-- The size of the record `malloc` looks for. -/
def recordSize (size : Nat) : Nat :=
  let realsize := wrap (4 + size)
  let i := realsize % MALLOC_MINSIZE
  if i ≠ 0 then wrap (realsize - i + MALLOC_MINSIZE) else realsize

/-- `bl->size = realsize; bl->used = 0;` -/
def freshBlock (m : Mem) (bl realsize : Nat) : Mem := setUsed (setSize m bl realsize) bl 0

/-- The growth inside the search loop of `malloc`: the block `sbrk` returns becomes the last one. -/
def extendHeap (s : UserHeap) (realsize : Nat) : UserHeap :=
  let r := sysSbrk s realsize
  { r.1 with mem := freshBlock r.1.mem r.2 realsize, eHeap := wrap (r.2 + realsize) }

/-- The search loop of `malloc`. A block of `none` is the `BUG` return. -/
def mallocSearch (realsize : Nat) : Nat → UserHeap → Nat → Option (UserHeap × Option Nat)
  | 0, _, _ => none
  | fuel + 1, s, bl =>
    if hdrUsed s.mem bl ≠ 0 ∨ hdrSize s.mem bl < realsize then
      let bl := wrap (bl + hdrSize s.mem bl)
      if bl = s.eHeap then
        -- `sbrk(realsize) < 0` compares an unsigned pointer
        mallocSearch realsize fuel (extendHeap s realsize) s.kernelEHeap
      else if bl > s.eHeap then some (s, none)
      else mallocSearch realsize fuel s bl
    else some (s, some bl)

/-- The creation of the heap by the first request. -/
def createHeap (s : UserHeap) (realsize : Nat) : UserHeap :=
  let r := sysSbrk s realsize
  { r.1 with
    mem := freshBlock r.1.mem r.2 realsize, bHeap := r.2, eHeap := wrap (r.2 + realsize) }

/-- `malloc()`. Without a result its loop has not ended. -/
def malloc (s : UserHeap) (size : Nat) : Option (UserHeap × Nat) :=
  let realsize := recordSize size
  if s.bHeap = 0 then
    if s.kernelEHeap = MINUS_ONE then
      some ({ (sysSbrk s realsize).1 with bHeap := MINUS_ONE }, MINUS_ONE)
    else
      let t := createHeap s realsize
      some ({ t with mem := takeChunk t.mem t.bHeap realsize }, wrap (t.bHeap + 4))
  else
    match mallocSearch realsize LOOP_MAX s s.bHeap with
    | none => none
    | some (t, none) => some (t, MINUS_ONE)
    | some (t, some bl) =>
      some ({ t with mem := takeChunk t.mem bl realsize }, wrap (bl + 4))

/-- `free()`. Without a result its loop has not ended. -/
def free (s : UserHeap) (vAddr : Nat) : Option UserHeap := do
  let bl := wrap (vAddr + 4294967296 - 4)
  let mem ← (coalesce s.eHeap LOOP_MAX s.mem bl).toOption
  return { s with mem := setUsed mem bl 0 }

/-- The size `size` bytes and their header have when they are rounded up. -/
def roundedSize (size : Nat) : Nat := (size + 4 + 15) / 16 * 16

/-- A record whose size a header can hold is the rounded one. -/
lemma recordSize_eq {size : Nat} (h : roundedSize size < 2147483648) :
    recordSize size = roundedSize size ∧ 16 ≤ roundedSize size ∧ size + 4 ≤ roundedSize size ∧
      roundedSize size % 16 = 0 := by
  unfold roundedSize at h ⊢
  have hwrap : wrap (4 + size) = 4 + size := wrap_of_lt (by omega)
  refine ⟨?_, by omega, by omega, by omega⟩
  unfold recordSize
  simp only [hwrap, MALLOC_MINSIZE]
  split
  · rw [wrap_of_lt (by omega)]
    omega
  · omega

end Creeks
