import Creeks.Process.Isolation

/-!
# The frames of the processes

In every clean run from boot the page frames add up: those that are free, those of the kernel heap, those of
the live processes and those of the refused files are as many as the frames that were free after the boot.
So `sys_exit` gives back every frame that `load_task` and the page faults have taken for the process,
whatever the other processes did in the meantime, and a refused file costs as many frames as pages of it
were loaded (`frames_accounted`).
-/

namespace Creeks
open Lib

/-- The frames of process `p`: its kernel stack, its directory with the tables, and its user pages. -/
def framesOf (k : Kernel) (p : Nat) : Nat :=
  1 + (k.pd p).elim 0 (fun pd => pd.pages.length) + (k.pglist p).length

/-- The slots of the processes that can run. -/
def liveSlots (t : Table) : Finset Nat :=
  (Finset.Icc 1 (MAXPID + 1)).filter fun p => (t.pList p).state = 1

/-- A clean step with the number of frames that refused files have kept. -/
def TalliedStep (y : Machine × Nat) (op : MachineOp) (y' : Machine × Nat) : Prop :=
  CleanStep y.1 op y'.1 ∧ y'.2 = y.2 + leaked y.1 y'.1 op

section Accounts

variable {m : Machine} {live : List Nat} {dir : Nat → PageDirectory} {kstack : Nat → Page} {lost : List Page}
  {boot s0 : Mm} {highMem n : Nat} {ops : List MachineOp}

/-- The live processes are those of the table. -/
lemma Isolated.toFinset (iso : Isolated m live dir kstack lost) : live.toFinset = liveSlots m.kernel.table := by
  ext p
  rw [List.mem_toFinset, liveSlots, Finset.mem_filter, Finset.mem_Icc]
  constructor
  · intro hp
    obtain ⟨⟨h0, hle⟩, hs⟩ := iso.running p hp
    exact ⟨⟨Nat.one_le_iff_ne_zero.2 h0, hle⟩, hs⟩
  · rintro ⟨⟨h1, hle⟩, hs⟩
    exact iso.listed p h1 hle hs

/-- The pages of a live process are as many as its frames. -/
lemma Apart.framesOf_eq (apart : Apart m.kernel live dir kstack lost) {p : Nat} (hp : p ∈ live) :
    (heldPages dir kstack p).length + (m.kernel.pglist p).length = framesOf m.kernel p := by
  unfold framesOf heldPages
  rw [(apart.guests p hp).own, Option.elim_some, List.length_append, List.length_singleton]
  omega

lemma Isolated.length_allPages (iso : Isolated m live dir kstack lost) :
    (allPages m.kernel dir kstack live lost).length =
      ∑ p ∈ liveSlots m.kernel.table, framesOf m.kernel p + lost.length := by
  have hsum : (live.flatMap (heldPages dir kstack)).length + (live.flatMap m.kernel.pglist).length =
      (live.map (framesOf m.kernel)).sum := by
    rw [List.length_flatMap, List.length_flatMap, ← List.sum_map_add]
    exact congrArg List.sum (List.map_congr_left fun p hp => iso.apart.framesOf_eq hp)
  unfold allPages
  rw [List.length_append, List.length_append, ← Nat.add_assoc, hsum, ← iso.toFinset,
    List.sum_toFinset _ iso.apart.nodup]

/-- A clean run from boot keeps the total. -/
lemma Isolated.accounts {y : Machine × Nat} (init : initMm boot highMem = .ok s0)
    (run : Run TalliedStep (bootMachine s0, 0) ops y) : ∃ live dir kstack lost,
      Isolated y.1 live dir kstack lost ∧ total y.1.kernel live dir kstack lost = framesLeft s0 ∧
        lost.length = y.2 := by
  refine run.invariant (I := fun y => ∃ live dir kstack lost, Isolated y.1 live dir kstack lost ∧
    total y.1.kernel live dir kstack lost = framesLeft s0 ∧ lost.length = y.2) ?_
    ⟨_, _, _, _, .boot init, rfl, rfl⟩
  rintro ⟨m, n⟩ op ⟨m', n'⟩ ⟨live, dir, kstack, lost, iso, htotal, hlost⟩ ⟨st, hn⟩
  obtain ⟨live', dir', kstack', lost', kept⟩ := iso.step st
  exact ⟨live', dir', kstack', lost', kept.isolated, kept.total.trans htotal, by rw [kept.lost, hlost, hn]⟩

/-- Every run can be counted. -/
lemma tallied_run {m m' : Machine} (run : Run CleanStep m ops m') (n : Nat) :
    ∃ n', Run TalliedStep (m, n) ops (m', n') := by
  induction run with
  | nil => exact ⟨n, .nil⟩
  | @snoc ops m1 op m2 _ st ih =>
    obtain ⟨n1, h1⟩ := ih
    exact ⟨n1 + leaked m1 m2 op, .snoc h1 ⟨st, rfl⟩⟩

/-- In every clean run from boot the free frames, the pages of the kernel heap, the frames of the live
processes and those of the refused files add up to the frames after the boot. -/
theorem frames_accounted (init : initMm boot highMem = .ok s0)
    (run : Run TalliedStep (bootMachine s0, 0) ops (m, n)) :
    (freeFrames m.kernel.mm).card + m.kernel.mm.kernHeap / PAGESIZE +
        (∑ p ∈ liveSlots m.kernel.table, framesOf m.kernel p + n) =
      (freeFrames s0).card + s0.kernHeap / PAGESIZE := by
  obtain ⟨live, dir, kstack, lost, iso, htotal, rfl⟩ := Isolated.accounts init run
  rw [← iso.length_allPages]
  exact htotal

theorem frames_accounted_bare : ∃ (s0 : Mm) (m : Machine) (n : Nat), m.Live 1 ∧
    (freeFrames m.kernel.mm).card + m.kernel.mm.kernHeap / PAGESIZE +
        (∑ p ∈ liveSlots m.kernel.table, framesOf m.kernel p + n) =
      (freeFrames s0).card + s0.kernHeap / PAGESIZE := by
  obtain ⟨s0, ops, y, init, run, -, hlive, -⟩ := bare_store (a := USER_OFFSET) 7 le_rfl (by decide)
  obtain ⟨n, counted⟩ := tallied_run run 0
  exact ⟨s0, y.1, n, hlive, frames_accounted init counted⟩

end Accounts

end Creeks
