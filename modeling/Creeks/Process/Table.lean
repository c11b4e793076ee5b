import Creeks.Process.Elf

/-!
# The process table

`p_list`, `current` and `n_proc` of `process.h`, with what `load_task`, `sys_exit`, `sys_wait` and
`schedule` do to them. What these functions do to memory, files and consoles is modelled elsewhere.

`p_list` has `MAXPID + 1` entries. The table is total: `p_list[MAXPID + 1]`, which the slot search of
`load_task` can reach, is the memory behind the array read as a `struct process`. The intrusive list
headed by `child` is a list of slots, its head first. The list of `p_list[0]` is never initialised
and ends in a null link instead of closing on itself; no function walks it.
-/

namespace Creeks
open Lib

abbrev MAXPID : Nat := 32
abbrev SIGCHLD : Nat := 17

/-- `set_signal`. A shift count is taken modulo 32. -/
def setSignal (mask : BitVec 32) (sig : Int) : BitVec 32 :=
  mask ||| (1#32 <<< ((sig - 1) % 32).toNat)

/-- `clear_signal` -/
def clearSignal (mask : BitVec 32) (sig : Int) : BitVec 32 :=
  mask &&& ~~~(1#32 <<< ((sig - 1) % 32).toNat)

/-- `is_signal` -/
def isSignal (mask : BitVec 32) (sig : Int) : Bool :=
  mask &&& (1#32 <<< ((sig - 1) % 32).toNat) != 0#32

/-- The fields of `struct process` that tie the table together. `state` is -1 for a zombie, 0 for a
free slot and 1 for a process that can run. -/
structure Process where
  pid : Nat
  parent : Nat
  child : List Nat
  signal : BitVec 32
  status : Int
  state : Int

/-- The globals of `process.h`. `current` is the index of the slot it points to. -/
structure Table where
  pList : Nat → Process
  current : Nat
  nProc : Int

/-- Change one slot. -/
def Table.modify (t : Table) (i : Nat) (f : Process → Process) : Table :=
  { t with pList := Function.update t.pList i (f (t.pList i)) }

@[simp] lemma modify_current (t : Table) (i : Nat) (f : Process → Process) :
    (t.modify i f).current = t.current := rfl
@[simp] lemma modify_nProc (t : Table) (i : Nat) (f : Process → Process) :
    (t.modify i f).nProc = t.nProc := rfl
@[simp] lemma modify_same (t : Table) (i : Nat) (f : Process → Process) :
    (t.modify i f).pList i = f (t.pList i) := Function.update_self ..

lemma modify_other {t : Table} {i j : Nat} (f : Process → Process) (h : j ≠ i) :
    (t.modify i f).pList j = t.pList j := Function.update_of_ne h ..

/-- A field that a change of a slot keeps is kept in every slot. -/
lemma modify_field {α : Type} {t : Table} {i : Nat} {f : Process → Process} (g : Process → α)
    (h : g (f (t.pList i)) = g (t.pList i)) (j : Nat) :
    g ((t.modify i f).pList j) = g (t.pList j) := by
  by_cases hj : j = i
  · subst hj
    rw [modify_same, h]
  · rw [modify_other f hj]

/-- The search of `load_task` for a free slot:
`while (p_list[pid].state != 0 && pid++ < MAXPID);` from `pid = 1`. -/
def freeSlot (t : Table) : Nat :=
  ((List.range' 1 MAXPID).find? fun pid => (t.pList pid).state == 0).getD (MAXPID + 1)

/-- The slot `load_task` makes the parent of a new process. -/
def newParent (t : Table) : Nat :=
  if (t.pList t.current).state ≠ 0 then t.current else 0

/-- The counting a new process starts with: `n_proc++; p_list[pid].pid = pid;` -/
def claimSlot (t : Table) (pid : Nat) : Table :=
  { t.modify pid fun p => { p with pid := pid } with nProc := t.nProc + 1 }

/-- The attributes a new process is given, and its entry into the child list of its parent. -/
def fillSlot (t : Table) (pid parent : Nat) : Table :=
  (t.modify pid fun p =>
    { p with parent := parent, child := [], signal := 0#32, status := 0, state := 1 }).modify parent
      fun p => { p with child := pid :: p.child }

/-- `load_task`, with the pid it returns; 0 means failure. -/
def loadTask (t : Table) (file : Mem) : Table × Nat :=
  let pid := freeSlot t
  if (t.pList pid).state ≠ 0 then (t, 0)
  else if loadElf file = 0 then (claimSlot t pid, 0)
  else (fillSlot (claimSlot t pid) pid (newParent t), pid)

/-- `sys_exit` on the table up to the reparenting: the process becomes a zombie and its parent is
told. -/
def becomeZombie (t : Table) (status : Int) : Table :=
  let t := { t.modify t.current fun p => { p with state := -1, status := status } with
    nProc := t.nProc - 1 }
  let parent := (t.pList t.current).parent
  if (t.pList parent).state > 0 then
    t.modify parent fun p => { p with signal := setSignal p.signal SIGCHLD }
  else t

/-- One turn of the reparenting loop of `sys_exit`. -/
def reparent (t : Table) (proc : Nat) : Table :=
  ((t.modify proc fun p => { p with parent := 0 }).modify t.current
    fun p => { p with child := p.child.erase proc }).modify 0
      fun p => { p with child := proc :: p.child }

/-- `sys_exit`, up to the switch to the kernel thread. -/
def sysExit (t : Table) (status : Int) : Table :=
  let t := becomeZombie t status
  { (t.pList t.current).child.foldl reparent t with current := 0 }

/-- The child `sys_wait` collects. -/
def deadChild (t : Table) : Option Nat :=
  (t.pList t.current).child.find? fun p => (t.pList p).state == -1

/-- `sys_wait` past its loop. The result is the pid it returns and the status it writes; `pid` is
not initialised, so without a dead child the return value is whatever the stack holds. -/
def sysWait (t : Table) (junk : Nat) : Option (Table × Nat × Option Int) :=
  if isSignal (t.pList t.current).signal SIGCHLD then
    match deadChild t with
    | some p =>
      some ((t.modify p fun q => { q with state := 0 }).modify t.current
        fun q => { q with child := q.child.erase p, signal := clearSignal q.signal SIGCHLD },
        (t.pList p).pid, some (t.pList p).status)
    | none => some (t, junk, none)
  else none

/-- The choice of `schedule`: the next ready slot below `MAXPID` after the current one, else the
first one before it, else the kernel thread. -/
def newpid (t : Table) : Nat :=
  let pid := (t.pList t.current).pid
  let ready := fun i => (t.pList i).state == 1
  match (List.range' (pid + 1) (MAXPID - (pid + 1))).find? ready with
  | some i => i
  | none => ((List.range' 1 (pid - 1)).find? ready).getD 0

/-- `schedule` -/
def schedule (t : Table) : Table :=
  if t.nProc = 0 then t
  else if t.nProc = 1 ∧ (t.pList t.current).pid ≠ 0 then t
  else { t with current := (t.pList (newpid t)).pid }

/-- A slot of the table as the boot leaves it. -/
def blankProcess : Process := ⟨0, 0, [], 0#32, 0, 0⟩

/-- The table when `kmain` has set up the kernel thread, over what lies behind the array. -/
def bootTable (beyond : Nat → Process) : Table where
  pList i :=
    if i = 0 then { blankProcess with state := 1 }
    else if i ≤ MAXPID then blankProcess
    else beyond i
  current := 0
  nProc := 0

/-- What a process or the kernel thread does with the table. -/
inductive TableOp where
  | loadTask (file : Mem)
  | sysExit (status : Int)
  | sysWait (junk : Nat)
  | schedule

/-- One step of the system. Only a process makes system calls; a `sys_wait` that spins makes no
step. -/
inductive TableStep : Table → TableOp → Table → Prop where
  | loadTask {t file} : TableStep t (.loadTask file) (loadTask t file).1
  | sysExit {t status} : t.current ≠ 0 → TableStep t (.sysExit status) (sysExit t status)
  | sysWait {t junk t' r} :
    t.current ≠ 0 →
    sysWait t junk = some (t', r) →
    TableStep t (.sysWait junk) t'
  | schedule {t} : TableStep t .schedule (schedule t)

/-! ## What the searches find -/

/-- The slot found is free, or every slot of the array is taken. -/
lemma freeSlot_cases (t : Table) :
    (1 ≤ freeSlot t ∧ freeSlot t ≤ MAXPID ∧ (t.pList (freeSlot t)).state = 0) ∨
      (freeSlot t = MAXPID + 1 ∧ ∀ p, 1 ≤ p → p ≤ MAXPID → (t.pList p).state ≠ 0) := by
  unfold freeSlot
  cases h : (List.range' 1 MAXPID).find? fun pid => (t.pList pid).state == 0 with
  | some p =>
    have hm := List.mem_range'_1.1 (List.mem_of_find?_eq_some h)
    have hs := List.find?_some h
    refine .inl ⟨hm.1, ?_, by simpa using hs⟩
    have := hm.2
    rw [Option.getD_some]
    omega
  | none =>
    refine .inr ⟨rfl, fun p h1 h2 => ?_⟩
    have := List.find?_eq_none.1 h p (List.mem_range'_1.2 ⟨h1, by omega⟩)
    simpa using this

lemma one_le_freeSlot (t : Table) : 1 ≤ freeSlot t := by
  rcases freeSlot_cases t with h | h
  · exact h.1
  · omega

/-- The slot found is at most the one behind the array. -/
lemma freeSlot_le (t : Table) : freeSlot t ≤ MAXPID + 1 := by
  rcases freeSlot_cases t with h | h
  · omega
  · omega

/-- What `load_task` does: nothing, a count, or a new process. -/
lemma loadTask_cases (t : Table) (file : Mem) :
    ((t.pList (freeSlot t)).state ≠ 0 ∧ loadTask t file = (t, 0)) ∨
    ((t.pList (freeSlot t)).state = 0 ∧ loadElf file = 0 ∧
      loadTask t file = (claimSlot t (freeSlot t), 0)) ∨
    ((t.pList (freeSlot t)).state = 0 ∧ loadElf file ≠ 0 ∧
      loadTask t file =
        (fillSlot (claimSlot t (freeSlot t)) (freeSlot t) (newParent t), freeSlot t)) := by
  unfold loadTask
  by_cases hs : (t.pList (freeSlot t)).state = 0
  · rw [if_neg (by simpa using hs)]
    by_cases he : loadElf file = 0
    · exact .inr (.inl ⟨hs, he, if_pos he⟩)
    · exact .inr (.inr ⟨hs, he, if_neg he⟩)
  · exact .inl ⟨hs, if_pos hs⟩

/-- The kernel thread, or a ready slot of the array below its last one. -/
lemma newpid_cases (t : Table) :
    newpid t = 0 ∨ (1 ≤ newpid t ∧ newpid t < max MAXPID (t.pList t.current).pid ∧
      (t.pList (newpid t)).state = 1) := by
  unfold newpid
  dsimp only
  split
  · rename_i i h
    have hm := List.mem_range'_1.1 (List.mem_of_find?_eq_some h)
    have hs := List.find?_some h
    exact .inr ⟨by omega, by omega, by simpa using hs⟩
  · rename_i h
    cases h' : (List.range' 1 ((t.pList t.current).pid - 1)).find?
        fun i => (t.pList i).state == 1 with
    | none => exact .inl rfl
    | some i =>
      have hm := List.mem_range'_1.1 (List.mem_of_find?_eq_some h')
      have hs := List.find?_some h'
      exact .inr ⟨hm.1, by simp only [Option.getD_some]; omega, by simpa using hs⟩

end Creeks
