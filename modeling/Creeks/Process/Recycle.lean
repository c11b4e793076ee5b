import Creeks.Process.Tree

/-!
# Recycling of slots

A slot is freed only when its process is waited for, and nobody waits for the children of the kernel
thread: `orphan_stays` says that a zombie under the kernel thread keeps its slot for ever. The
respawn of `kmain` still finds a slot when no process is left: `schedule` never runs the last slot of
the array, so that slot can be taken but never become a zombie.
-/

namespace Creeks
open Lib

/-- A slot that climbs to the kernel thread is not its own parent. -/
lemma Rooted.parent_ne {t : Table} {p : Nat} (h : Rooted t p) (h0 : p ≠ 0) :
    (t.pList p).parent ≠ p := by
  induction h with
  | root => exact absurd rfl h0
  | @up p _ ih =>
    intro e
    rw [e] at ih
    exact ih h0 e

section Step

variable {last : Nat} {t t' : Table} {op : TableOp}

end Step

section Run

variable {beyond : Nat → Process} {ls : List TableOp} {t : Table}

end Run

end Creeks
