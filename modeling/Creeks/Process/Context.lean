import Creeks.Lib.Stack

/-!
# Saving and restoring the registers of a process

The timer interrupt from the gate of the processor to `schedule`, which saves the interrupted registers
in `struct process`, and `switch_to_task` with `do_switch`, which load them again. The stack frames
are those of `int.asm` and the compiled prologues; `do_switch` reads the structure at numeric offsets,
the C code at those of its declaration.
-/

namespace Creeks
open Lib

/-- The registers of the processor. -/
@[ext] structure Cpu where
  eax : BitVec 32
  ecx : BitVec 32
  edx : BitVec 32
  ebx : BitVec 32
  esp : BitVec 32
  ebp : BitVec 32
  esi : BitVec 32
  edi : BitVec 32
  eip : BitVec 32
  eflags : BitVec 32
  cs : BitVec 16
  ss : BitVec 16
  ds : BitVec 16
  es : BitVec 16
  fs : BitVec 16
  gs : BitVec 16
  cr3 : BitVec 32

/-- The fields of `default_tss` that the processor uses. -/
structure Tss where
  esp0 : BitVec 32
  ss0 : BitVec 16

/-- The fields of `struct process` up to `signal`, in the order of the declaration. -/
inductive Field where
  | pid | eax | ecx | edx | ebx | esp | ebp | esi | edi | eip | eflags
  | cs | ss | ds | es | fs | gs | cr3 | esp0 | ss0
  | pd | pglist | b_exec | e_exec | b_bss | e_bss | b_heap | e_heap
  | pwd | fd | parent | child | sibling | console | signal
  deriving DecidableEq

/-- The size of a field. The structure is packed. -/
def Field.size : Field → Nat
  | cs | ss | ds | es | fs | gs | ss0 => 2
  | pglist | child | sibling => 8
  | _ => 4

/-- The declaration of `struct process`. -/
def processFields : List Field :=
  [.pid, .eax, .ecx, .edx, .ebx, .esp, .ebp, .esi, .edi, .eip, .eflags,
    .cs, .ss, .ds, .es, .fs, .gs, .cr3, .esp0, .ss0,
    .pd, .pglist, .b_exec, .e_exec, .b_bss, .e_bss, .b_heap, .e_heap,
    .pwd, .fd, .parent, .child, .sibling, .console, .signal]

/-- The offset of a field: the sizes of those declared before it. -/
def Field.offset (f : Field) : Nat :=
  ((processFields.takeWhile (· ≠ f)).map Field.size).sum

abbrev KERN_CS : BitVec 16 := 0x08

/-- A selector of privilege level 3. -/
def isRing3 (cs : BitVec 16) : Bool := cs &&& 3 = 3

/-- The stack an interrupt gate uses: a new one from the TSS when the privilege level changes. -/
def gateStack (t : Tss) (c : Cpu) (mem : Mem) : Stack :=
  ⟨mem, if isRing3 c.cs then t.esp0.toNat else c.esp.toNat⟩

/-- The words an interrupt gate pushes. -/
def gateFrame (c : Cpu) : List (BitVec 32) :=
  if isRing3 c.cs then [c.ss.setWidth 32, c.esp, c.eflags, c.cs.setWidth 32, c.eip]
  else [c.eflags, c.cs.setWidth 32, c.eip]

/-- `SAVE_REGS`. Among the registers of `pushad` is the stack pointer from before it. -/
def saveRegs (s : Stack) (c : Cpu) : Stack :=
  s.pushAll [c.eax, c.ecx, c.edx, c.ebx, BitVec.ofNat 32 s.sp, c.ebp, c.esi, c.edi,
    c.ds.setWidth 32, c.es.setWidth 32, c.fs.setWidth 32, c.gs.setWidth 32]

/-- `_asm_irq_0` up to the frame of `isr_clock_int`: the return address of the call and the frame
pointer its prologue pushes. `schedule` finds the stack pointer of this moment in its own frame. -/
def clockInterrupt (t : Tss) (c : Cpu) (ret : BitVec 32) (mem : Mem) : Stack :=
  (saveRegs ((gateStack t c mem).pushAll (gateFrame c)) c).pushAll [ret, c.ebp]

/-- The part of `schedule` that saves the interrupted registers in the structure at `p`. The words of
the stack are `stack_ptr[k]`. -/
def saveContext (t : Tss) (p : Nat) (s : Stack) : Mem :=
  let word := fun k => loadW s.mem (s.sp + 4 * k)
  let low := fun k => loadH s.mem (s.sp + 4 * k)
  let m := storeW s.mem (p + Field.eflags.offset) (word 16)
  let m := storeH m (p + Field.cs.offset) (low 15)
  let m := storeW m (p + Field.eip.offset) (word 14)
  let m := storeW m (p + Field.eax.offset) (word 13)
  let m := storeW m (p + Field.ecx.offset) (word 12)
  let m := storeW m (p + Field.edx.offset) (word 11)
  let m := storeW m (p + Field.ebx.offset) (word 10)
  let m := storeW m (p + Field.ebp.offset) (word 8)
  let m := storeW m (p + Field.esi.offset) (word 7)
  let m := storeW m (p + Field.edi.offset) (word 6)
  let m := storeH m (p + Field.ds.offset) (low 5)
  let m := storeH m (p + Field.es.offset) (low 4)
  let m := storeH m (p + Field.fs.offset) (low 3)
  let m := storeH m (p + Field.gs.offset) (low 2)
  let user : Bool := low 15 ≠ KERN_CS
  let m := storeW m (p + Field.esp.offset) (if user then word 17 else word 9 + 12)
  let m := storeH m (p + Field.ss.offset) (if user then low 18 else t.ss0)
  let m := storeH m (p + Field.ss0.offset) t.ss0
  storeW m (p + Field.esp0.offset) t.esp0

/-- `do_switch`, entered with `kss` in `%ss`: the eleven registers are pushed from the structure, the
page directory is loaded, and the pops and `iret` load the rest. -/
def doSwitch (s : Stack) (kss : BitVec 16) : Cpu :=
  let esi := (loadW s.mem s.sp).toNat
  let sp := s.sp + 4
  let t := Stack.pushAll ⟨s.mem, sp⟩ [loadW s.mem (esi + 4), loadW s.mem (esi + 8),
    loadW s.mem (esi + 12), loadW s.mem (esi + 16), loadW s.mem (esi + 24), loadW s.mem (esi + 28),
    loadW s.mem (esi + 32), loadW s.mem (esi + 48), loadW s.mem (esi + 50), loadW s.mem (esi + 52),
    loadW s.mem (esi + 54)]
  let pop := fun k => loadW t.mem (t.sp + 4 * k)
  let cs := (pop 12).setWidth 16
  { gs := (pop 0).setWidth 16
    fs := (pop 1).setWidth 16
    es := (pop 2).setWidth 16
    ds := (pop 3).setWidth 16
    edi := pop 4
    esi := pop 5
    ebp := pop 6
    ebx := pop 7
    edx := pop 8
    ecx := pop 9
    eax := pop 10
    eip := pop 11
    cs := cs
    eflags := pop 13
    esp := if isRing3 cs then pop 14 else BitVec.ofNat 32 (t.sp + 4 * 14)
    ss := if isRing3 cs then (pop 15).setWidth 16 else kss
    cr3 := loadW t.mem (esi + 56) }

/-- `schedule` from the choice of the process at `p`, and `switch_to_task`. The words `push` reads at
the 16-bit variables `ss` and `cs` have `pad` in their high halves. A pending signal is not handled
here. -/
def resume (mem : Mem) (p : Nat) (pad : BitVec 16) : Option (Cpu × Tss) :=
  if loadW mem (p + Field.signal.offset) ≠ 0 then none
  else
    let t : Tss := ⟨loadW mem (p + Field.esp0.offset), loadH mem (p + Field.ss0.offset)⟩
    let user : Bool := loadH mem (p + Field.cs.offset) ≠ KERN_CS
    let ss := loadH mem (p + Field.ss.offset)
    let cs := loadH mem (p + Field.cs.offset)
    let esp := loadW mem (p + Field.esp.offset)
    let eflags := (loadW mem (p + Field.eflags.offset) ||| 0x200) &&& 0xFFFFBFFF
    let kss := if user then t.ss0 else ss
    let kesp := if user then t.esp0 else esp
    let s := Stack.pushAll ⟨mem, kesp.toNat⟩ (if user then [pad ++ ss, esp] else [])
    let s := s.pushAll [eflags, pad ++ cs, loadW mem (p + Field.eip.offset), BitVec.ofNat 32 p]
    some (doSwitch s kss, t)

/-- `switch_to_task` behind the signals, with the mode `schedule` has chosen. -/
def loadContext (mem : Mem) (p : Nat) (user : Bool) (pad : BitVec 16) : Cpu × Tss :=
  let t : Tss := ⟨loadW mem (p + Field.esp0.offset), loadH mem (p + Field.ss0.offset)⟩
  let ss := loadH mem (p + Field.ss.offset)
  let cs := loadH mem (p + Field.cs.offset)
  let esp := loadW mem (p + Field.esp.offset)
  let eflags := (loadW mem (p + Field.eflags.offset) ||| 0x200) &&& 0xFFFFBFFF
  let kss := if user then t.ss0 else ss
  let kesp := if user then t.esp0 else esp
  let s := Stack.pushAll ⟨mem, kesp.toNat⟩ (if user then [pad ++ ss, esp] else [])
  let s := s.pushAll [eflags, pad ++ cs, loadW mem (p + Field.eip.offset), BitVec.ofNat 32 p]
  (doSwitch s kss, t)

/-- Without a pending signal the context is loaded as it was saved. -/
lemma resume_eq (mem : Mem) (p : Nat) (pad : BitVec 16) :
    resume mem p pad = if loadW mem (p + Field.signal.offset) ≠ 0 then none
      else some (loadContext mem p (loadH mem (p + Field.cs.offset) ≠ KERN_CS) pad) :=
  rfl

/-- The offsets `do_switch` uses are those of the declaration. -/
lemma Field.offset_eq : Field.eax.offset = 4 ∧ Field.ecx.offset = 8 ∧ Field.edx.offset = 12 ∧
    Field.ebx.offset = 16 ∧ Field.esp.offset = 20 ∧ Field.ebp.offset = 24 ∧ Field.esi.offset = 28 ∧
    Field.edi.offset = 32 ∧ Field.eip.offset = 36 ∧ Field.eflags.offset = 40 ∧
    Field.cs.offset = 44 ∧ Field.ss.offset = 46 ∧ Field.ds.offset = 48 ∧ Field.es.offset = 50 ∧
    Field.fs.offset = 52 ∧ Field.gs.offset = 54 ∧ Field.cr3.offset = 56 ∧ Field.esp0.offset = 60 ∧
    Field.ss0.offset = 64 ∧ Field.signal.offset = 134 := by
  decide

end Creeks
