import Creeks.Process.Effect

/-!
# The choice of a slot

The search of `load_task` for a free slot as the loop of the source, with the entries of `p_list` it
reads and writes. The loop moves the index inside its condition, so that it ends one behind the last
slot when none is free, and the entry found is tested again after it. `slot_selection` says when the
search stays inside the array.
-/

namespace Creeks
open Lib

/-- `while (p_list[pid].state != 0 && pid++ < MAXPID);` from `pid` on: the index after the loop and the
entries read. -/
def slotLoop (t : Table) : Nat → Nat → Nat × List Nat
  | 0, pid => (pid, [])
  | n + 1, pid =>
    if (t.pList pid).state ≠ 0 then
      -- the index moves on whether or not the comparison holds
      if pid < MAXPID then
        let r := slotLoop t n (pid + 1)
        (r.1, pid :: r.2)
      else (pid + 1, [pid])
    else (pid, [pid])

/-- What the selection leaves: the table, the slot `load_task` goes on with (0 when it returns 0), and the
entries of `p_list` read and written so far. -/
structure Selection where
  table : Table
  pid : Nat
  read : List Nat
  written : List Nat

/-- The beginning of `load_task`, up to `p_list[pid].pid = pid`. -/
def selectSlot (t : Table) : Selection :=
  let r := slotLoop t MAXPID 1
  if (t.pList r.1).state ≠ 0 then ⟨t, 0, r.2 ++ [r.1], []⟩
  else ⟨claimSlot t r.1, r.1, r.2 ++ [r.1], [r.1]⟩

/-- `load_task` picks a free slot of the array, or returns 0 without having touched anything outside it
when there is none. -/
def SelectsSlot (t : Table) (file : Mem) : Prop :=
  (1 ≤ (selectSlot t).pid ∧ (selectSlot t).pid ≤ MAXPID ∧
    (t.pList (selectSlot t).pid).state = 0) ∨
  ((∀ p, 1 ≤ p → p ≤ MAXPID → (t.pList p).state ≠ 0) ∧
    (loadTask t file).2 = 0 ∧ (loadTask t file).1.nProc = t.nProc ∧
    ∀ i ∈ (selectSlot t).read ++ (selectSlot t).written, i ≤ MAXPID)

section Loop

variable {t : Table} {n pid : Nat}

/-- The loop stops at the first free slot from `pid` on, or behind the last one. -/
lemma slotLoop_eq (h : pid + n = MAXPID + 1) :
    (slotLoop t n pid).1 =
      ((List.range' pid n).find? fun p => (t.pList p).state == 0).getD (MAXPID + 1) := by
  induction n generalizing pid with
  | zero => exact h
  | succ n ih =>
    rw [slotLoop, List.range'_succ, List.find?_cons]
    by_cases hs : (t.pList pid).state = 0
    · rw [if_neg (by simpa using hs), hs]
      rfl
    · rw [if_pos hs, beq_false_of_ne hs]
      by_cases hp : pid < MAXPID
      · rw [if_pos hp]
        exact ih (by omega)
      · have hn : n = 0 := by omega
        rw [if_neg hp, hn]
        change pid + 1 = MAXPID + 1
        omega

/-- The loop is the search of the table model. -/
lemma slotLoop_freeSlot : (slotLoop t MAXPID 1).1 = freeSlot t := slotLoop_eq rfl

/-- `load_task` goes on with the slot selected. -/
lemma loadTask_select (file : Mem) :
    loadTask t file =
      if (selectSlot t).pid = 0 ∨ loadElf file = 0 then ((selectSlot t).table, 0)
      else (fillSlot (selectSlot t).table (selectSlot t).pid (newParent t), (selectSlot t).pid) := by
  have h0 : freeSlot t ≠ 0 := Nat.one_le_iff_ne_zero.1 (one_le_freeSlot t)
  unfold loadTask selectSlot
  simp only [slotLoop_freeSlot]
  by_cases hs : (t.pList (freeSlot t)).state = 0
  · by_cases he : loadElf file = 0 <;> simp [hs, he, h0]
  · simp [hs]

end Loop

/-- The selection stays inside the array exactly when a slot of it is free. -/
theorem slot_selection (t : Table) (file : Mem) :
    SelectsSlot t file ↔ ∃ p, 1 ≤ p ∧ p ≤ MAXPID ∧ (t.pList p).state = 0 := by
  have hloop := @slotLoop_freeSlot t
  constructor
  · rintro (⟨h1, h2, h3⟩ | ⟨full, -, -, inside⟩)
    · exact ⟨_, h1, h2, h3⟩
    · rcases freeSlot_cases t with ⟨h1, h2, h3⟩ | ⟨e, -⟩
      · exact ⟨_, h1, h2, h3⟩
      · -- the entry behind the array is read by the test after the loop
        have hread : MAXPID + 1 ∈ (selectSlot t).read := by
          unfold selectSlot
          simp only [hloop, e]
          split <;> simp
        have := inside _ (List.mem_append_left _ hread)
        omega
  · rintro ⟨p, h1, h2, hp⟩
    left
    rcases freeSlot_cases t with ⟨hf1, hf2, hf3⟩ | ⟨-, full⟩
    · have hpid : (selectSlot t).pid = freeSlot t := by
        unfold selectSlot
        simp only [hloop]
        rw [if_neg (by simpa using hf3)]
      rw [hpid]
      exact ⟨hf1, hf2, hf3⟩
    · exact absurd hp (full p h1 h2)

/-- A table with a live process in every slot and zeros behind it. -/
def fullTable : Table where
  pList i := if i ≤ MAXPID then { blankProcess with pid := i, state := 1 } else blankProcess
  current := 1
  nProc := MAXPID

/-- With the array full the process is created behind it. -/
theorem slot_behind_array :
    ¬ SelectsSlot fullTable bareElf ∧ MAXPID + 1 ∈ (selectSlot fullTable).written ∧
      (loadTask fullTable bareElf).2 = MAXPID + 1 := by
  refine ⟨fun h => ?_, by decide, by decide⟩
  obtain ⟨p, h1, h2, hp⟩ := (slot_selection _ _).1 h
  have hs : (fullTable.pList p).state = 1 := by
    change (ite _ _ _ : Process).state = 1
    rw [if_pos h2]
  rw [hs] at hp
  exact absurd hp (by decide)

end Creeks
