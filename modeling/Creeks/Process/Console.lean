import Creeks.Process.Reaping

/-!
# The console

`sys_console_read` and `putc_console`, with the kills and exits that can meet them. Every process has a
`struct vconsole` of its own, and one terminal points to the process that reads. The call runs behind a
trap gate, so keys and the clock come between any two of its accesses: it is a sequence of steps, and the
program counter of each process says which one is next.

`console_ownership` says when the terminal points to nobody or to a process blocked in the call: as long
as no process dies while the terminal points to it, and no character is stored behind its buffer.
`sys_exit` never resets the pointer. The echo of `putcar` on the screen is not modelled.
-/

namespace Creeks
open Lib

abbrev INBUFSIZE : Nat := 4096

/-- A `struct vconsole` from its field `inb` on: the buffer, then `inlock`, `keypos` and `mode`. The
buffer is indexed without a test, so the fields behind it are bytes of the same memory. -/
abbrev VConsole := Mem

namespace VConsole

def inlock (v : VConsole) : Nat := load32 v INBUFSIZE
def keypos (v : VConsole) : Nat := load32 v (INBUFSIZE + 4)
def mode (v : VConsole) : Nat := load32 v (INBUFSIZE + 8)
def setInlock (v : VConsole) (n : Nat) : VConsole := store32 v INBUFSIZE n
def setKeypos (v : VConsole) (n : Nat) : VConsole := store32 v (INBUFSIZE + 4) n
def setMode (v : VConsole) (n : Nat) : VConsole := store32 v (INBUFSIZE + 8) n

/-- `inb[i] = c` -/
def setInb (v : VConsole) (i : Nat) (c : UInt8) : VConsole := Function.update v i c

/-- The console `load_task` gives a process, in memory that holds `inb`. -/
def init (inb : Mem) : VConsole := ((setInlock inb 0).setKeypos 0).setMode 1

/-- A key that ends the input. -/
def Ends (v : VConsole) (c : UInt8) : Bool := v.mode = 0 ∨ c = 10

/-- `putc_console` on the console of the reader. -/
def putc (v : VConsole) (c : UInt8) : VConsole :=
  let k := v.keypos
  if v.mode = 0 then (v.setInb 0 c).setInlock 0
  else if c = 8 then
    -- the index is the one before the decrement
    if k ≠ 0 then (v.setKeypos (k - 1)).setInb k 0 else v
  else if c = 10 then
    (((((v.setKeypos (k + 1)).setInb k c).setInb (k + 1) 0).setInlock 0).setKeypos 0)
  else (v.setKeypos (k + 1)).setInb k c

end VConsole

/-- The step of `sys_console_read` a process does next: the two tests, the two stores and the copy. -/
inductive Pc where
  | user | testPread | setPread | setInlock | testInlock | copy
  deriving DecidableEq

/-- The process table with the consoles. `pread` is the field of the terminal. -/
structure Consoles where
  table : Table
  pread : Option Nat
  console : Nat → VConsole
  pc : Nat → Pc

namespace Consoles

/-- The state of a slot. -/
def state (s : Consoles) (p : Nat) : Int := (s.table.pList p).state

/-- The current process goes on. -/
def goto (s : Consoles) (pc : Pc) : Consoles :=
  { s with pc := Function.update s.pc s.table.current pc }

/-- `p` has stored itself in the terminal and waits for a line. -/
def Blocked (s : Consoles) (p : Nat) : Prop :=
  s.pc p = .setInlock ∨ (s.pc p = .testInlock ∧ (s.console p).inlock = 1)

end Consoles

/-- One step of the `sys_console_read` of the current process. -/
def sysConsoleRead (s : Consoles) : Consoles :=
  let current := s.table.current
  match s.pc current with
  | .user => s
  | .testPread => if s.pread ≠ none then s else s.goto .setPread
  | .setPread => { s with pread := some current }.goto .setInlock
  | .setInlock =>
    { s with console := Function.update s.console current ((s.console current).setInlock 1) }.goto
      .testInlock
  | .testInlock => if (s.console current).inlock = 1 then s else s.goto .copy
  | .copy => s.goto .user

/-- `putc_console` -/
def putcConsole (s : Consoles) (c : UInt8) : Consoles :=
  match s.pread with
  | none => s
  | some p =>
    if s.state p < 1 then s
    else
      { s with
        console := Function.update s.console p ((s.console p).putc c)
        pread := if (s.console p).Ends c then none else s.pread }

/-- `load_task`, with the console it allocates. -/
def loadConsole (s : Consoles) (file inb : Mem) : Consoles :=
  let r := loadTask s.table file
  if r.2 = 0 then { s with table := r.1 }
  else
    { s with
      table := r.1
      console := Function.update s.console r.2 (.init inb)
      pc := Function.update s.pc r.2 .user }

/-! ## Signals with their default action -/

/-- `dequeue_signal`: the number of the lowest pending signal, 0 when there is none. -/
def dequeueSignal (mask : BitVec 32) : Nat :=
  (((List.range 32).find? fun i => mask.getLsbD i).map (· + 1)).getD 0

/-- The next signal of the current process is `SIGHUP`, `SIGINT` or `SIGQUIT`. -/
def doomed (t : Table) : Bool :=
  let sig := dequeueSignal (t.pList t.current).signal
  1 ≤ sig ∧ sig ≤ 3

/-- `handle_signal` for a signal that does not end the process. -/
def handleDefault (t : Table) : Table :=
  let sig := dequeueSignal (t.pList t.current).signal
  if sig = 0 ∨ sig = SIGCHLD then t
  else t.modify t.current fun p => { p with signal := clearSignal p.signal sig }

/-- `sys_exit` with the switch to the kernel thread at its end. A kernel thread that has been sent a
deadly signal calls `sys_exit` again and again: there is no next state. -/
def exitTask (t : Table) (status : Int) : Option Table :=
  let t := sysExit t status
  if doomed t then none else some (handleDefault t)

/-- `schedule` with the signal of the process it switches to. A single process is left running without a
look at its signals. -/
def preempt (t : Table) : Option Table :=
  if t.nProc = 0 ∨ (t.nProc = 1 ∧ (t.pList t.current).pid ≠ 0) then some t
  else
    let t := schedule t
    if ¬ doomed t then some (handleDefault t)
    else if t.current = 0 then none
    else exitTask t 1

/-! ## The system -/

/-- What happens to the consoles and the table. -/
inductive ConsoleOp where
  | call
  | read
  | key (c : UInt8)
  | loadTask (file inb : Mem)
  | sysExit (status : Int)
  | sysWait (junk : Nat)
  | sysKill (p : Nat) (sig : Int)
  | schedule

/-- One step. A process calls from user mode. It also exits from there, or from the copy when the buffer
it was given cannot be written. -/
inductive ConsoleStep : Consoles → ConsoleOp → Consoles → Prop where
  | call {s} :
    s.table.current ≠ 0 →
    s.pc s.table.current = .user →
    ConsoleStep s .call (s.goto .testPread)
  | read {s} : ConsoleStep s .read (sysConsoleRead s)
  | key {s c} : ConsoleStep s (.key c) (putcConsole s c)
  | loadTask {s file inb} :
    s.pc s.table.current = .user →
    ConsoleStep s (.loadTask file inb) (loadConsole s file inb)
  | sysExit {s status t} :
    s.table.current ≠ 0 →
    s.pc s.table.current = .user ∨ s.pc s.table.current = .copy →
    exitTask s.table status = some t →
    ConsoleStep s (.sysExit status) { s with table := t }
  | sysWait {s junk t r} :
    s.table.current ≠ 0 →
    s.pc s.table.current = .user →
    sysWait s.table junk = some (t, r) →
    ConsoleStep s (.sysWait junk) { s with table := t }
  | sysKill {s p sig} :
    s.table.current ≠ 0 →
    s.pc s.table.current = .user →
    ConsoleStep s (.sysKill p sig) { s with table := (sysKill s.table p sig).1 }
  | schedule {s t} :
    preempt s.table = some t →
    ConsoleStep s .schedule { s with table := t }

/-- The consoles when `kmain` has set up the terminal and the kernel thread. -/
def bootConsoles (beyond : Nat → Process) (console : Nat → VConsole) : Consoles :=
  ⟨bootTable beyond, none, console, fun _ => .user⟩

/-- The process that dies in a step. -/
def ConsoleOp.Kills (s : Consoles) (p : Nat) : ConsoleOp → Prop
  | .sysExit _ => p = s.table.current
  | .schedule =>
    ¬ (s.table.nProc = 0 ∨ (s.table.nProc = 1 ∧ (s.table.pList s.table.current).pid ≠ 0)) ∧
      doomed (Creeks.schedule s.table) ∧ p = (Creeks.schedule s.table).current
  | _ => False

/-- A key other than the newline that comes when the buffer of the reader is full. -/
def ConsoleOp.Overruns (s : Consoles) : ConsoleOp → Prop
  | .key c => c ≠ 10 ∧ ∃ p, s.pread = some p ∧ INBUFSIZE ≤ (s.console p).keypos
  | _ => False

/-- A step in which no process dies that the terminal points to, and no character is stored behind the
buffer. -/
def OwnedStep (s : Consoles) (op : ConsoleOp) (s' : Consoles) : Prop :=
  ConsoleStep s op s' ∧ (∀ p, op.Kills s p → s.pread ≠ some p) ∧ ¬ op.Overruns s

/-- The terminal points to nobody or to a live process blocked in the call. So the console can be
acquired when no live process is, and a process that did not call receives no key. -/
structure ConsoleOwned (s : Consoles) : Prop where
  owner : ∀ p, s.pread = some p → 0 < s.state p ∧ s.Blocked p
  acquire : (∀ p, 0 < s.state p → ¬ s.Blocked p) → s.pread = none
  keys : ∀ p c, s.pc p = .user → (putcConsole s c).console p = s.console p

/-! ## What the functions keep -/

namespace VConsole

variable {v : VConsole} {c : UInt8} {i n : Nat}

lemma inlock_setInb (h : i < INBUFSIZE) : (v.setInb i c).inlock = v.inlock :=
  load32_congr fun x hx _ => Function.update_of_ne (by omega) ..

lemma inlock_setInlock : (v.setInlock n).inlock = n % 4294967296 := load32_store32 ..

lemma inlock_setKeypos : (v.setKeypos n).inlock = v.inlock := load32_store32_other (by omega)

/-- A key that ends the input releases the reader. -/
lemma putc_ends (h : v.Ends c) : (v.putc c).inlock = 0 := by
  have h : v.mode = 0 ∨ c = 10 := by simpa [Ends] using h
  unfold putc
  by_cases hm : v.mode = 0
  · rw [if_pos hm, inlock_setInlock]
  · have hc : c = 10 := h.resolve_left hm
    rw [if_neg hm, if_neg (by rw [hc]; decide), if_pos hc, inlock_setKeypos, inlock_setInlock]

/-- Another key leaves the lock alone while the buffer has room. -/
lemma putc_waits (h : ¬ v.Ends c) (hk : v.keypos < INBUFSIZE) : (v.putc c).inlock = v.inlock := by
  have h : ¬ (v.mode = 0 ∨ c = 10) := by simpa [Ends] using h
  unfold putc
  rw [if_neg fun e => h (.inl e), if_neg fun e => h (.inr e)]
  split
  · split
    · rw [inlock_setInb hk, inlock_setKeypos]
    · rfl
  · rw [inlock_setInb hk, inlock_setKeypos]

end VConsole

section Table

variable {t u : Table} {p : Nat}

lemma modify_signal_seats (seats : Seats t) (w : BitVec 32) :
    Seats (t.modify p fun q => { q with signal := w }) := by
  have hs : ∀ j, ((t.modify p fun q => { q with signal := w }).pList j).state =
      (t.pList j).state := modify_field Process.state rfl
  have hp : ∀ j, ((t.modify p fun q => { q with signal := w }).pList j).pid =
      (t.pList j).pid := modify_field Process.pid rfl
  refine ⟨by rw [hs, seats.kernel], by rw [hp, seats.kernel_pid], fun j h1 h2 h => ?_,
    seats.current_lt, by rw [hs]; exact seats.running⟩
  rw [hs] at h
  rw [hp, seats.pid j h1 h2 h]

lemma handleDefault_cases (t : Table) : handleDefault t = t ∨
    ∃ w, handleDefault t = t.modify t.current fun q => { q with signal := w } := by
  unfold handleDefault
  dsimp only
  split
  · exact .inl rfl
  · exact .inr ⟨clearSignal (t.pList t.current).signal _, rfl⟩

@[simp] lemma handleDefault_state :
    ((handleDefault t).pList p).state = (t.pList p).state := by
  rcases handleDefault_cases t with h | ⟨w, h⟩
  · rw [h]
  · rw [h, modify_field Process.state rfl]

@[simp] lemma handleDefault_current : (handleDefault t).current = t.current := by
  rcases handleDefault_cases t with h | ⟨w, h⟩
  · rw [h]
  · rw [h, modify_current]

lemma Seats.handleDefault (seats : Seats t) : Seats (handleDefault t) := by
  rcases handleDefault_cases t with h | ⟨w, h⟩
  · rw [h]
    exact seats
  · rw [h]
    exact modify_signal_seats seats w

lemma Seats.sysKill (seats : Seats t) (sig : Int) : Seats (sysKill t p sig).1 := by
  unfold Creeks.sysKill
  split
  · exact modify_signal_seats seats _
  · exact seats

/-- An exit makes a zombie of the current process and of no other. -/
lemma exitTask_eq {status : Int} (h : exitTask t status = some u) :
    u = Creeks.handleDefault (Creeks.sysExit t status) := by
  unfold exitTask at h
  dsimp only at h
  split at h
  · cases h
  · exact (Option.some.inj h).symm

lemma exitTask_state {status : Int} (h : exitTask t status = some u) (j : Nat) :
    (u.pList j).state = if j = t.current then -1 else (t.pList j).state := by
  rw [exitTask_eq h, handleDefault_state, sysExit_state]

lemma Seats.exitTask (seats : Seats t) (h0 : t.current ≠ 0) {status : Int}
    (h : exitTask t status = some u) : Seats u := by
  rw [exitTask_eq h]
  exact (seats.exit h0 status).handleDefault

/-- A clock interrupt changes no state but that of a process it kills. -/
lemma preempt_cases (h : preempt t = some u) :
    u = t ∨ u = Creeks.handleDefault (Creeks.schedule t) ∨
      (¬ (t.nProc = 0 ∨ (t.nProc = 1 ∧ (t.pList t.current).pid ≠ 0)) ∧
        doomed (Creeks.schedule t) ∧ (Creeks.schedule t).current ≠ 0 ∧
        Creeks.exitTask (Creeks.schedule t) 1 = some u) := by
  unfold preempt at h
  split at h
  · exact .inl (Option.some.inj h).symm
  · rename_i hn
    dsimp only at h
    split at h
    · exact .inr (.inl (Option.some.inj h).symm)
    · rename_i hd
      split at h
      · cases h
      · rename_i h0
        exact .inr (.inr ⟨hn, by simpa using hd, h0, h⟩)

lemma Seats.preempt (seats : Seats t) (h : preempt t = some u) : Seats u := by
  rcases preempt_cases h with rfl | rfl | ⟨-, -, h0, h⟩
  · exact seats
  · exact seats.sched.handleDefault
  · exact seats.sched.exitTask h0 h

end Table

section Step

variable {s s' : Consoles} {op : ConsoleOp} {p : Nat}

lemma goto_pc_current (s : Consoles) (pc : Pc) : (s.goto pc).pc s.table.current = pc :=
  Function.update_self ..

lemma goto_pc_other (pc : Pc) (h : p ≠ s.table.current) : (s.goto pc).pc p = s.pc p :=
  Function.update_of_ne h ..

lemma Consoles.Blocked.congr (h : s.Blocked p) (hpc : s'.pc p = s.pc p)
    (hc : s'.console p = s.console p) : s'.Blocked p := by
  unfold Consoles.Blocked
  rw [hpc, hc]
  exact h

/-- What a step of the call does: it spins, or it goes on. -/
lemma sysConsoleRead_cases (s : Consoles) :
    (sysConsoleRead s = s ∧ (s.pc s.table.current = .user ∨
      (s.pc s.table.current = .testPread ∧ s.pread ≠ none) ∨
      (s.pc s.table.current = .testInlock ∧ (s.console s.table.current).inlock = 1))) ∨
    (s.pc s.table.current = .testPread ∧ s.pread = none ∧ sysConsoleRead s = s.goto .setPread) ∨
    (s.pc s.table.current = .setPread ∧
      sysConsoleRead s = { s with pread := some s.table.current }.goto .setInlock) ∨
    (s.pc s.table.current = .setInlock ∧
      sysConsoleRead s = { s with
        console := Function.update s.console s.table.current
          ((s.console s.table.current).setInlock 1) }.goto .testInlock) ∨
    (s.pc s.table.current = .testInlock ∧ (s.console s.table.current).inlock ≠ 1 ∧
      sysConsoleRead s = s.goto .copy) ∨
    (s.pc s.table.current = .copy ∧ sysConsoleRead s = s.goto .user) := by
  unfold sysConsoleRead
  cases hpc : s.pc s.table.current with
  | user => simp [hpc]
  | testPread => by_cases h : s.pread = none <;> simp [hpc, h]
  | setPread => simp [hpc]
  | setInlock => simp [hpc]
  | testInlock => by_cases h : (s.console s.table.current).inlock = 1 <;> simp [hpc, h]
  | copy => simp [hpc]

/-- A step of the call changes nothing of another process. -/
lemma sysConsoleRead_other (h : p ≠ s.table.current) :
    (sysConsoleRead s).pc p = s.pc p ∧ (sysConsoleRead s).console p = s.console p := by
  rcases sysConsoleRead_cases s with ⟨e, -⟩ | ⟨-, -, e⟩ | ⟨-, e⟩ | ⟨-, e⟩ | ⟨-, -, e⟩ | ⟨-, e⟩
  · rw [e]
    exact ⟨rfl, rfl⟩
  · rw [e]
    exact ⟨goto_pc_other _ h, rfl⟩
  · rw [e]
    exact ⟨goto_pc_other _ h, rfl⟩
  · rw [e]
    exact ⟨goto_pc_other _ h, Function.update_of_ne h ..⟩
  · rw [e]
    exact ⟨goto_pc_other _ h, rfl⟩
  · rw [e]
    exact ⟨goto_pc_other _ h, rfl⟩

lemma sysConsoleRead_table (s : Consoles) : (sysConsoleRead s).table = s.table := by
  rcases sysConsoleRead_cases s with ⟨e, -⟩ | ⟨-, -, e⟩ | ⟨-, e⟩ | ⟨-, e⟩ | ⟨-, -, e⟩ | ⟨-, e⟩ <;>
    rw [e] <;> rfl

/-- Only the step that stores it changes the terminal. -/
lemma sysConsoleRead_pread (s : Consoles) :
    (sysConsoleRead s).pread = s.pread ∨
      (s.pc s.table.current = .setPread ∧ (sysConsoleRead s).pread = some s.table.current) := by
  rcases sysConsoleRead_cases s with ⟨e, -⟩ | ⟨-, -, e⟩ | ⟨h, e⟩ | ⟨-, e⟩ | ⟨-, -, e⟩ | ⟨-, e⟩
  · exact .inl (by rw [e])
  · exact .inl (by rw [e]; rfl)
  · exact .inr ⟨h, by rw [e]; rfl⟩
  · exact .inl (by rw [e]; rfl)
  · exact .inl (by rw [e]; rfl)
  · exact .inl (by rw [e]; rfl)

lemma putcConsole_table (s : Consoles) (c : UInt8) : (putcConsole s c).table = s.table := by
  unfold putcConsole
  split
  · rfl
  · split <;> rfl

lemma putcConsole_pc (s : Consoles) (c : UInt8) : (putcConsole s c).pc = s.pc := by
  unfold putcConsole
  split
  · rfl
  · split <;> rfl

/-- A key goes to the process the terminal points to. -/
lemma putcConsole_other (c : UInt8) (h : s.pread ≠ some p) :
    (putcConsole s c).console p = s.console p := by
  unfold putcConsole
  split
  · rfl
  · rename_i q hq
    split
    · rfl
    · refine Function.update_of_ne ?_ ..
      rintro rfl
      exact h hq

/-- A live owner of the terminal gets the key, and is no longer its owner when the key ends the
input. -/
lemma putcConsole_owner (c : UInt8) (hp : s.pread = some p) (hs : 0 < s.state p) :
    (putcConsole s c).console p = (s.console p).putc c ∧
      (putcConsole s c).pread = if (s.console p).Ends c then none else some p := by
  unfold putcConsole
  rw [hp]
  dsimp only
  rw [if_neg (by omega)]
  exact ⟨Function.update_self .., rfl⟩

/-- `load_task` leaves the consoles alone, or it fills a free slot. -/
lemma loadConsole_cases (s : Consoles) (file inb : Mem) :
    (∃ t, (loadTask s.table file).2 = 0 ∧ loadConsole s file inb = { s with table := t } ∧
      ∀ j, (t.pList j).state = s.state j) ∨
    ∃ t, s.state (freeSlot s.table) = 0 ∧ freeSlot s.table ≠ 0 ∧
      (loadTask s.table file).2 = freeSlot s.table ∧
      loadConsole s file inb =
        ⟨t, s.pread, Function.update s.console (freeSlot s.table) (.init inb),
          Function.update s.pc (freeSlot s.table) .user⟩ ∧
      ∀ j, (t.pList j).state = if j = freeSlot s.table then 1 else s.state j := by
  unfold loadConsole
  rcases loadTask_cases s.table file with ⟨-, e⟩ | ⟨-, -, e⟩ | ⟨hs, -, e⟩
  · rw [e]
    exact .inl ⟨_, rfl, rfl, fun j => rfl⟩
  · rw [e]
    exact .inl ⟨_, rfl, rfl, fun j => claimSlot_state ..⟩
  · have h0 : freeSlot s.table ≠ 0 := Nat.one_le_iff_ne_zero.1 (one_le_freeSlot s.table)
    rw [e]
    refine .inr ⟨_, hs, h0, rfl, if_neg h0, fun j => ?_⟩
    rw [fillSlot_state, claimSlot_state]
    rfl

lemma loadConsole_seats (seats : Seats s.table) (file inb : Mem) :
    Seats (loadConsole s file inb).table := by
  have h : (loadConsole s file inb).table = (loadTask s.table file).1 := by
    unfold loadConsole
    dsimp only
    split <;> rfl
  rw [h]
  exact seats.step .loadTask

lemma ConsoleStep.seats (st : ConsoleStep s op s') (seats : Seats s.table) : Seats s'.table := by
  cases st with
  | call => exact seats
  | read =>
    rw [sysConsoleRead_table]
    exact seats
  | key =>
    rw [putcConsole_table]
    exact seats
  | loadTask => exact loadConsole_seats seats _ _
  | sysExit h0 _ h => exact seats.exitTask h0 h
  | sysWait h0 _ h => exact seats.step (.sysWait h0 h)
  | sysKill => exact seats.sysKill _
  | schedule h => exact seats.preempt h

/-- The state of a process that does not die is kept by a clock interrupt. -/
lemma preempt_state {t : Table} (h : preempt s.table = some t)
    (hp : ¬ ConsoleOp.Kills s p .schedule) : (t.pList p).state = s.state p := by
  rcases preempt_cases h with rfl | rfl | ⟨hn, hd, -, h⟩
  · rfl
  · rw [handleDefault_state, schedule_pList]
    rfl
  · rw [exitTask_state h, schedule_pList, if_neg fun e => hp ⟨hn, hd, e⟩]
    rfl

/-- No live process but one that the step kills loses its state, and none of them is loaded again. -/
lemma ConsoleStep.state (st : ConsoleStep s op s') (hp : 0 < s.state p) (hk : ¬ op.Kills s p) :
    s'.state p = s.state p := by
  cases st with
  | call => rfl
  | read =>
    unfold Consoles.state
    rw [sysConsoleRead_table]
  | key =>
    unfold Consoles.state
    rw [putcConsole_table]
  | loadTask =>
    rename_i file inb _
    rcases loadConsole_cases s file inb with ⟨t, -, e, ht⟩ | ⟨t, hs, -, -, e, ht⟩
    · rw [e]
      exact ht p
    · rw [e]
      refine (ht p).trans (if_neg ?_)
      rintro rfl
      omega
  | sysExit _ _ h => exact (exitTask_state h p).trans (if_neg hk)
  | sysWait _ _ h =>
    obtain ⟨-, ⟨q, -, hq, rfl, -⟩ | ⟨-, rfl, -⟩⟩ := sysWait_cases h
    · refine (collected_state ..).trans (if_neg ?_)
      rintro rfl
      unfold Consoles.state at hp
      omega
    · rfl
  | sysKill => exact sysKill_field _ _ _ _ Process.state fun _ _ => rfl
  | schedule h => exact preempt_state h hk

end Step

/-! ## Ownership -/

/-- What `ConsoleOwned` needs of the state before a step. -/
structure TerminalHeld (s : Consoles) : Prop where
  seats : Seats s.table
  owner : ∀ p, s.pread = some p → 0 < s.state p ∧ s.Blocked p

namespace TerminalHeld

variable {s s' : Consoles} {op : ConsoleOp} {p : Nat}

lemma current_live (held : TerminalHeld s) : 0 < s.state s.table.current := by
  have h := held.seats.running
  unfold Consoles.state
  omega

lemma boot (beyond : Nat → Process) (console : Nat → VConsole) :
    TerminalHeld (bootConsoles beyond console) := ⟨Seats.boot beyond, nofun⟩

/-- The owner of the terminal is blocked from the store of `pread` until a key sets `inlock` back. -/
lemma read (held : TerminalHeld s) (hp : (sysConsoleRead s).pread = some p) :
    (sysConsoleRead s).Blocked p := by
  by_cases e : p = s.table.current
  · subst e
    rcases sysConsoleRead_cases s with ⟨e, -⟩ | ⟨-, hn, e⟩ | ⟨-, e⟩ | ⟨-, e⟩ | ⟨hpc, hl, e⟩ | ⟨hpc, e⟩
    · rw [e] at hp ⊢
      exact (held.owner _ hp).2
    · rw [e] at hp
      exact absurd (hn.symm.trans hp) nofun
    · rw [e]
      exact .inl (goto_pc_current ..)
    · rw [e]
      refine .inr ⟨goto_pc_current .., ?_⟩
      change VConsole.inlock (Function.update s.console _ _ _) = 1
      rw [Function.update_self, VConsole.inlock_setInlock]
    · rw [e] at hp
      rcases (held.owner _ hp).2 with h | ⟨-, h⟩
      · exact absurd (hpc.symm.trans h) nofun
      · exact absurd h hl
    · rw [e] at hp
      rcases (held.owner _ hp).2 with h | ⟨h, -⟩
      · exact absurd (hpc.symm.trans h) nofun
      · exact absurd (hpc.symm.trans h) nofun
  · obtain ⟨h1, h2⟩ := sysConsoleRead_other e
    refine Consoles.Blocked.congr (held.owner p ?_).2 h1 h2
    rcases sysConsoleRead_pread s with h | ⟨-, h⟩
    · exact h.symm.trans hp
    · exact absurd (Option.some.inj (hp.symm.trans h)) e

/-- A key that does not end the input leaves the owner blocked. -/
lemma key (held : TerminalHeld s) {c : UInt8} (hk : ¬ ConsoleOp.Overruns s (.key c))
    (hp : (putcConsole s c).pread = some p) : s.pread = some p ∧ (putcConsole s c).Blocked p := by
  cases hq : s.pread with
  | none =>
    unfold putcConsole at hp
    rw [hq] at hp
    exact absurd (hq.symm.trans hp) nofun
  | some q =>
    obtain ⟨hs, hb⟩ := held.owner q hq
    obtain ⟨h1, h2⟩ := putcConsole_owner c hq hs
    rw [h2] at hp
    by_cases he : (s.console q).Ends c = true
    · rw [if_pos he] at hp
      cases hp
    · rw [if_neg he] at hp
      have e := Option.some.inj hp
      subst e
      have hroom : (s.console q).keypos < INBUFSIZE := by
        by_contra h
        refine hk ⟨?_, q, hq, by omega⟩
        rintro rfl
        exact he (by simp [VConsole.Ends])
      refine ⟨rfl, ?_⟩
      rcases hb with h | ⟨h, hl⟩
      · exact .inl (by rw [putcConsole_pc, h])
      · refine .inr ⟨by rw [putcConsole_pc, h], ?_⟩
        rw [h1, VConsole.putc_waits he hroom, hl]

/-- Every step that kills nobody the terminal points to keeps its owner blocked. -/
lemma step (held : TerminalHeld s) (st : OwnedStep s op s') : TerminalHeld s' := by
  obtain ⟨st, hkill, hkey⟩ := st
  refine ⟨st.seats held.seats, fun p hp => ?_⟩
  have old : s.pread = some p → s'.state p = s.state p :=
    fun h => st.state (held.owner p h).1 fun k => hkill p k h
  have live : s.pread = some p → 0 < s'.state p := fun h => (old h).symm ▸ (held.owner p h).1
  have same : s'.pc = s.pc → s'.console = s.console → s.pread = some p →
      0 < s'.state p ∧ s'.Blocked p := fun h1 h2 h =>
    ⟨live h, (held.owner p h).2.congr (by rw [h1]) (by rw [h2])⟩
  cases st with
  | call h0 hpc =>
    refine ⟨live hp, (held.owner p hp).2.congr (goto_pc_other _ ?_) rfl⟩
    rintro rfl
    rcases (held.owner _ hp).2 with h | ⟨h, -⟩
    · exact absurd (hpc.symm.trans h) nofun
    · exact absurd (hpc.symm.trans h) nofun
  | read =>
    refine ⟨?_, held.read hp⟩
    rcases sysConsoleRead_pread s with h | ⟨-, h⟩
    · exact live (h.symm.trans hp)
    · cases hp.symm.trans h
      unfold Consoles.state
      rw [sysConsoleRead_table]
      exact held.current_live
  | key =>
    obtain ⟨h, hb⟩ := held.key hkey hp
    exact ⟨live h, hb⟩
  | loadTask =>
    rename_i file inb _
    rcases loadConsole_cases s file inb with ⟨t, -, e, -⟩ | ⟨t, hs, -, -, e, -⟩
    · rw [e] at hp old live same ⊢
      exact same rfl rfl hp
    · rw [e] at hp old live same ⊢
      have hne : p ≠ freeSlot s.table := by
        rintro rfl
        have := (held.owner _ hp).1
        omega
      exact ⟨live hp, (held.owner p hp).2.congr (Function.update_of_ne hne ..)
        (Function.update_of_ne hne ..)⟩
  | sysExit => exact same rfl rfl hp
  | sysWait => exact same rfl rfl hp
  | sysKill => exact same rfl rfl hp
  | schedule => exact same rfl rfl hp

/-- A blocked owner is an owner as `ConsoleOwned` wants it. -/
lemma owned (held : TerminalHeld s) : ConsoleOwned s := by
  refine ⟨held.owner, fun h => ?_, fun p c hpc => putcConsole_other c fun h => ?_⟩
  · cases hp : s.pread with
    | none => rfl
    | some p => exact absurd (held.owner p hp).2 (h p (held.owner p hp).1)
  · rcases (held.owner p h).2 with h | ⟨h, -⟩
    · exact absurd (hpc.symm.trans h) nofun
    · exact absurd (hpc.symm.trans h) nofun

end TerminalHeld

/-- As long as no process dies that the terminal points to, and no character is stored behind the
buffer, the console is owned by nobody or by a process blocked in `sys_console_read`. -/
theorem console_ownership {beyond : Nat → Process} {console : Nat → VConsole} {ls : List ConsoleOp}
    {s : Consoles} (run : Run OwnedStep (bootConsoles beyond console) ls s) : ConsoleOwned s :=
  (run.invariant (I := TerminalHeld) (fun _ _ _ held st => held.step st)
    (TerminalHeld.boot beyond console)).owned

/-- The machine at boot, with zeros behind the table and in every console. -/
def zeroConsoles : Consoles := bootConsoles (fun _ => blankProcess) fun _ _ => 0

theorem console_ownership_reader :
    ∃ s, Run OwnedStep zeroConsoles
        [.loadTask bareElf fun _ => 0, .schedule, .call, .read, .read, .read] s ∧
      s.pread = some 1 ∧ ConsoleOwned s := by
  have run : Run OwnedStep zeroConsoles
      [.loadTask bareElf fun _ => 0, .schedule, .call, .read, .read, .read] _ :=
    .snoc (.snoc (.snoc (.snoc (.snoc (.snoc .nil ⟨.loadTask rfl, nofun, nofun⟩)
      ⟨.schedule rfl, fun _ _ => nofun, nofun⟩) ⟨.call (by decide) rfl, nofun, nofun⟩)
      ⟨.read, nofun, nofun⟩) ⟨.read, nofun, nofun⟩) ⟨.read, nofun, nofun⟩
  exact ⟨_, run, by decide +kernel, console_ownership run⟩

/-- The shell and its child, which waits for a line when the shell sends it `SIGINT`. The child dies, the
shell collects it and starts another one in the same slot. The terminal still points to the slot: the
new process gets keys without having called. -/
theorem killed_reader_owns :
    ∃ s, Run ConsoleStep zeroConsoles
        [.loadTask bareElf fun _ => 0, .schedule, .loadTask bareElf fun _ => 0, .schedule, .call,
          .read, .read, .read, .schedule, .sysKill 2 2, .schedule, .schedule, .sysWait 0,
          .loadTask bareElf fun _ => 0] s ∧
      s.pread = some 2 ∧ s.pc 2 = .user ∧ (putcConsole s 97).console 2 0 ≠ s.console 2 0 ∧
      ¬ ConsoleOwned s := by
  have run : Run ConsoleStep zeroConsoles
      [.loadTask bareElf fun _ => 0, .schedule, .loadTask bareElf fun _ => 0, .schedule, .call,
        .read, .read, .read, .schedule, .sysKill 2 2, .schedule, .schedule, .sysWait 0,
        .loadTask bareElf fun _ => 0] _ :=
    .snoc (.snoc (.snoc (.snoc (.snoc (.snoc (.snoc (.snoc (.snoc (.snoc (.snoc (.snoc (.snoc
      (.snoc .nil (.loadTask rfl)) (.schedule rfl)) (.loadTask rfl)) (.schedule rfl))
      (.call (by decide) rfl)) .read) .read) .read) (.schedule rfl)) (.sysKill (by decide) rfl))
      (.schedule rfl)) (.schedule rfl)) (.sysWait (by decide) rfl rfl)) (.loadTask rfl)
  refine ⟨_, run, by decide +kernel, by decide +kernel, by decide +kernel, fun h => ?_⟩
  have hkey := congrFun (h.keys 2 97 (by decide +kernel)) 0
  exact absurd hkey (by decide +kernel)

end Creeks
