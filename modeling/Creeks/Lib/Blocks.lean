import Creeks.Lib.CString
import Creeks.Lib.Run

/-!
# A checked heap

Allocated blocks that answer every access: one outside its block or after the block was freed has no
result, and so has a `free` of what was not allocated or is free already. So a program that returns made
no such access, and one that ends with every block free leaked none.
-/

namespace Creeks.Lib

/-- A pointer to nothing, to the start of a block, or to a constant of the program. -/
inductive Ptr where
  | null
  | block (id : Nat)
  | const (s : List UInt8)

/-- What a program does wrong. `endless` is the bound of a model on its loops. -/
inductive Misuse where
  | outside | dangling | notAllocated | endless
  deriving DecidableEq

/-- The blocks allocated so far, numbered from 0. A block holds bytes or pointers of four bytes. -/
structure BlockHeap where
  sizes : List Nat
  freed : List Nat
  bytes : Nat → Mem
  ptrs : Nat → Nat → Ptr

namespace BlockHeap

/-- No block, and any content in the ones to come. -/
def none (bytes : Nat → Mem) (ptrs : Nat → Nat → Ptr) : BlockHeap := ⟨[], [], bytes, ptrs⟩

def alloc (h : BlockHeap) (size : Nat) : BlockHeap × Ptr :=
  ({ h with sizes := h.sizes ++ [size] }, .block h.sizes.length)

/-- The block of a pointer, when it is live and `len` bytes from `off` on are in it. -/
def access (h : BlockHeap) (p : Ptr) (off len : Nat) : Except Misuse Nat :=
  match p with
  | .block id =>
    if id ∈ h.freed then .error .dangling
    else if off + len ≤ h.sizes.getD id 0 then .ok id
    else .error .outside
  | _ => .error .outside

def storeByte (h : BlockHeap) (p : Ptr) (off : Nat) (c : UInt8) : Except Misuse BlockHeap := do
  let id ← h.access p off 1
  .ok { h with bytes := Function.update h.bytes id (Function.update (h.bytes id) off c) }

def storePtr (h : BlockHeap) (p : Ptr) (i : Nat) (q : Ptr) : Except Misuse BlockHeap := do
  let id ← h.access p (4 * i) 4
  .ok { h with ptrs := Function.update h.ptrs id (Function.update (h.ptrs id) i q) }

def loadPtr (h : BlockHeap) (p : Ptr) (i : Nat) : Except Misuse Ptr := do
  let id ← h.access p (4 * i) 4
  .ok (h.ptrs id i)

/-- A byte of a string, which may be a constant with its zero. -/
def readByte (s : List UInt8) (off : Nat) : Except Misuse UInt8 :=
  match s[off]? with
  | some c => .ok c
  | Option.none => .error .outside

def loadByte (h : BlockHeap) (p : Ptr) (off : Nat) : Except Misuse UInt8 :=
  match p with
  | .const s => readByte (s ++ [0]) off
  | _ => do
    let id ← h.access p off 1
    .ok (h.bytes id off)

def free (h : BlockHeap) (p : Ptr) : Except Misuse BlockHeap :=
  match p with
  | .block id =>
    if id < h.sizes.length ∧ id ∉ h.freed then .ok { h with freed := id :: h.freed }
    else .error .notAllocated
  | _ => .error .notAllocated

/-- Every block was freed. -/
def AllFreed (h : BlockHeap) : Prop := ∀ id, id < h.sizes.length → id ∈ h.freed

variable {h : BlockHeap} {id off len : Nat}

lemma access_ok (hlive : id ∉ h.freed) (hin : off + len ≤ h.sizes.getD id 0) :
    h.access (.block id) off len = .ok id := by
  unfold access
  dsimp only
  rw [if_neg hlive, if_pos hin]

lemma access_inv {id' : Nat} (e : h.access (.block id) off len = .ok id') :
    id' = id ∧ id ∉ h.freed ∧ off + len ≤ h.sizes.getD id 0 := by
  unfold access at e
  dsimp only at e
  split at e
  · cases e
  · rename_i hlive
    split at e
    · rename_i hin
      cases e
      exact ⟨rfl, hlive, hin⟩
    · cases e

lemma access_freed (hfreed : id ∈ h.freed) : h.access (.block id) off len = .error .dangling :=
  if_pos hfreed

lemma free_ok (hid : id < h.sizes.length) (hlive : id ∉ h.freed) :
    h.free (.block id) = .ok { h with freed := id :: h.freed } := if_pos ⟨hid, hlive⟩

lemma readByte_at {pre r : List UInt8} {c : UInt8} :
    readByte (pre ++ c :: r) pre.length = .ok c := by
  unfold readByte
  rw [List.getElem?_append_right (le_refl _), Nat.sub_self]
  rfl

end BlockHeap

end Creeks.Lib
