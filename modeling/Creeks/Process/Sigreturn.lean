import Creeks.Process.Switch

/-!
# The return from a signal handler

`handle_signal` saves the registers of the process in a frame on its user stack, whose last two words
are the code of the call to `sys_sigreturn`. `sys_sigreturn` takes its frame 17 words above the frame
pointer of `do_syscalls`: that is on the kernel stack, whose top the interrupt frame of a system call
reaches after 20 words, and not on the user stack. `sigreturn_restores` says what has to lie above the
kernel stack for the registers to come back.
-/

namespace Creeks
open Lib

/-- The words `handle_signal` writes from the new stack pointer `esp` upwards. -/
def signalFrame (c : Cpu) (esp0 esp : BitVec 32) : List (BitVec 32) :=
  [esp + 72, c.gs.setWidth 32, c.fs.setWidth 32, c.es.setWidth 32, c.ds.setWidth 32, c.edi, c.esi,
    c.ebp, c.ebx, c.edx, c.ecx, c.eax, c.eip, c.cs.setWidth 32, c.eflags, c.esp, c.ss.setWidth 32,
    esp0, 0x00000EB8, 0x0030CD00]

/-- The stack pointer `handle_signal` gives to the handler. -/
def signalEsp (c : Cpu) : BitVec 32 := c.esp - 80

/-- The memory after `handle_signal` for a signal with a handler. The frame is filled from its last
word down. -/
def handleSignal (m : Mem) (c : Cpu) (esp0 : BitVec 32) : Mem :=
  (Stack.pushAll ⟨m, c.esp.toNat⟩ (signalFrame c esp0 (signalEsp c)).reverse).mem

/-- `_asm_syscalls` up to the frame of `do_syscalls`: the number of the call, the return address and
the frame pointer of the prologue. -/
def syscallEntry (t : Tss) (c : Cpu) (ret : BitVec 32) (mem : Mem) : Stack :=
  (saveRegs ((gateStack t c mem).pushAll (gateFrame c)) c).pushAll [c.eax, ret, c.ebp]

/-- `sys_sigreturn()` for the process at `p`, up to the switch. It finds the frame pointer of
`do_syscalls` in its own frame, and counts from 17 words above it. -/
def sysSigreturn (p : Nat) (s : Stack) : Mem :=
  let esp := s.sp + 4 * 17
  let word := fun k => loadW s.mem (esp + 4 * k)
  let low := fun k => loadH s.mem (esp + 4 * k)
  let m := storeW s.mem (p + Field.esp0.offset) (word 17)
  let m := storeH m (p + Field.ss.offset) (low 16)
  let m := storeW m (p + Field.esp.offset) (word 15)
  let m := storeW m (p + Field.eflags.offset) (word 14)
  let m := storeH m (p + Field.cs.offset) (low 13)
  let m := storeW m (p + Field.eip.offset) (word 12)
  let m := storeW m (p + Field.eax.offset) (word 11)
  let m := storeW m (p + Field.ecx.offset) (word 10)
  let m := storeW m (p + Field.edx.offset) (word 9)
  let m := storeW m (p + Field.ebx.offset) (word 8)
  let m := storeW m (p + Field.ebp.offset) (word 7)
  let m := storeW m (p + Field.esi.offset) (word 6)
  let m := storeW m (p + Field.edi.offset) (word 5)
  let m := storeH m (p + Field.ds.offset) (low 4)
  let m := storeH m (p + Field.es.offset) (low 3)
  let m := storeH m (p + Field.fs.offset) (low 2)
  storeH m (p + Field.gs.offset) (low 1)

/-- The handler has returned to the code in its frame, and the processor `c` is at its `int 0x30`: the
frame is as `handle_signal` has left it in `m`, and the return has popped its first word. -/
structure Returned (m m' : Mem) (r c : Cpu) : Prop where
  intact : ∀ x, (signalEsp r).toNat ≤ x → x < (signalEsp r).toNat + 80 → m' x = m x
  number : c.eax = 14
  esp : c.esp = signalEsp r + 4
  cs : c.cs = r.cs
  ss : c.ss = r.ss

/-- The words from address `k` on are the last fifteen of the frame `handle_signal` writes for the
registers `c`, and the low halves of the user stack pointer and of `ss` are the first two. -/
structure AboveStack (m : Mem) (k : Nat) (c : Cpu) (esp0 : BitVec 32) : Prop where
  gs : (signalEsp c + 4).setWidth 16 = c.gs
  fs : c.ss = c.fs
  es : loadH m k = c.es
  ds : loadH m (k + 4) = c.ds
  edi : loadW m (k + 8) = c.edi
  esi : loadW m (k + 12) = c.esi
  ebp : loadW m (k + 16) = c.ebp
  ebx : loadW m (k + 20) = c.ebx
  edx : loadW m (k + 24) = c.edx
  ecx : loadW m (k + 28) = c.ecx
  eax : loadW m (k + 32) = c.eax
  eip : loadW m (k + 36) = c.eip
  cs : loadH m (k + 40) = c.cs
  eflags : loadW m (k + 44) = c.eflags
  esp : loadW m (k + 48) = c.esp
  ss : loadH m (k + 52) = c.ss
  esp0 : loadW m (k + 56) = esp0

/-- The stub in the frame is `mov eax, 14` and `int 0x30`, and the handler returns to it. -/
lemma handleSignal_stub {m : Mem} {c : Cpu} {esp0 : BitVec 32} (hroom : 80 ≤ c.esp.toNat) :
    loadW (handleSignal m c esp0) (signalEsp c).toNat = signalEsp c + 72 ∧
      loadW (handleSignal m c esp0) ((signalEsp c).toNat + 72) = 0x00000EB8 ∧
      loadW (handleSignal m c esp0) ((signalEsp c).toNat + 76) = 0x0030CD00 := by
  obtain ⟨hsp, hload, -⟩ := Stack.pushAll_spec ⟨m, c.esp.toNat⟩
    (signalFrame c esp0 (signalEsp c)).reverse 20 rfl hroom
  have hesp : (signalEsp c).toNat = c.esp.toNat - 80 := by
    rw [signalEsp, BitVec.toNat_sub_of_le hroom]
    rfl
  change Stack.sp _ = c.esp.toNat - 80 at hsp
  rw [← hesp] at hsp
  rw [hsp] at hload
  exact ⟨hload 0 (by decide), hload 18 (by decide), hload 19 (by decide)⟩

/-- What `sys_sigreturn` stores for the call `c` makes on the kernel stack of `t`: the low halves of the
user stack pointer and of `ss`, and the words above the kernel stack. -/
structure Stored (m m' : Mem) (p : Nat) (c : Cpu) (k : Nat) : Prop where
  gs : loadH m (p + 54) = c.esp.setWidth 16
  fs : loadH m (p + 52) = c.ss
  es : loadH m (p + 50) = loadH m' k
  ds : loadH m (p + 48) = loadH m' (k + 4)
  edi : loadW m (p + 32) = loadW m' (k + 8)
  esi : loadW m (p + 28) = loadW m' (k + 12)
  ebp : loadW m (p + 24) = loadW m' (k + 16)
  ebx : loadW m (p + 16) = loadW m' (k + 20)
  edx : loadW m (p + 12) = loadW m' (k + 24)
  ecx : loadW m (p + 8) = loadW m' (k + 28)
  eax : loadW m (p + 4) = loadW m' (k + 32)
  eip : loadW m (p + 36) = loadW m' (k + 36)
  cs : loadH m (p + 44) = loadH m' (k + 40)
  eflags : loadW m (p + 40) = loadW m' (k + 44)
  esp : loadW m (p + 20) = loadW m' (k + 48)
  ss : loadH m (p + 46) = loadH m' (k + 52)
  esp0 : loadW m (p + 60) = loadW m' (k + 56)
  ss0 : loadH m (p + 64) = loadH m' (p + 64)

/-- `sys_sigreturn` reads two words of its own interrupt frame and fifteen above it. -/
lemma sysSigreturn_stored {t : Tss} {c : Cpu} {ret : BitVec 32} {m : Mem} {p : Nat}
    (hring : isRing3 c.cs = true) (hroom : 80 ≤ t.esp0.toNat)
    (hapart : p + 66 ≤ t.esp0.toNat - 80 ∨ t.esp0.toNat ≤ p) :
    Stored (sysSigreturn p (syscallEntry t c ret m)) m p c t.esp0.toNat := by
  obtain ⟨o1, o2, o3, o4, o5, o6, o7, o8, o9, o10, o11, o12, o13, o14, o15, o16, -, o18, -, -⟩ :=
    Field.offset_eq
  have hsp : gateStack t c m = ⟨m, t.esp0.toNat⟩ := by
    rw [gateStack, if_pos hring]
  have hentry : syscallEntry t c ret m = Stack.pushAll ⟨m, t.esp0.toNat⟩ [c.ss.setWidth 32, c.esp,
      c.eflags, c.cs.setWidth 32, c.eip, c.eax, c.ecx, c.edx, c.ebx,
      BitVec.ofNat 32 (t.esp0.toNat - 4 * 5), c.ebp, c.esi, c.edi, c.ds.setWidth 32,
      c.es.setWidth 32, c.fs.setWidth 32, c.gs.setWidth 32, c.eax, ret, c.ebp] := by
    rw [syscallEntry, saveRegs, pushAll_append, pushAll_append, Stack.pushAll_sp, hsp, gateFrame,
      if_pos hring]
    rfl
  obtain ⟨hs, hload, hother⟩ := Stack.pushAll_spec ⟨m, t.esp0.toNat⟩ [c.ss.setWidth 32, c.esp,
      c.eflags, c.cs.setWidth 32, c.eip, c.eax, c.ecx, c.edx, c.ebx,
      BitVec.ofNat 32 (t.esp0.toNat - 4 * 5), c.ebp, c.esi, c.edi, c.ds.setWidth 32,
      c.es.setWidth 32, c.fs.setWidth 32, c.gs.setWidth 32, c.eax, ret, c.ebp] 20 rfl hroom
  rw [← hentry] at hs hload hother
  generalize syscallEntry t c ret m = s at hs hload hother
  change s.sp = t.esp0.toNat - 4 * 20 at hs
  change ∀ x, t.esp0.toNat ≤ x ∨ x < t.esp0.toNat - 4 * 20 → s.mem x = m x at hother
  have hgs : loadH s.mem (s.sp + 4 * 17 + 4 * 1) = c.esp.setWidth 16 := by
    have h := hload 18 (by decide)
    rw [← loadW_low, Nat.add_assoc]
    exact congrArg (BitVec.setWidth 16) h
  have hfs : loadH s.mem (s.sp + 4 * 17 + 4 * 2) = c.ss := by
    have h := hload 19 (by decide)
    rw [← loadW_low, Nat.add_assoc]
    exact (congrArg (BitVec.setWidth 16) h).trans (setWidth_selector c.ss)
  have hword : ∀ j, loadW s.mem (s.sp + 4 * 17 + 4 * (3 + j)) = loadW m (t.esp0.toNat + 4 * j) := by
    intro j
    have e : s.sp + 4 * 17 + 4 * (3 + j) = t.esp0.toNat + 4 * j := by
      omega
    rw [e]
    exact loadW_congr fun x hx _ => hother x (.inl (by omega))
  have hlow : ∀ j, loadH s.mem (s.sp + 4 * 17 + 4 * (3 + j)) = loadH m (t.esp0.toNat + 4 * j) := by
    intro j
    rw [← loadW_low, hword, loadW_low]
  have hss0 : loadH s.mem (p + 64) = loadH m (p + 64) :=
    loadH_congr fun x h1 h2 => hother x (by omega)
  unfold sysSigreturn
  simp only [o1, o2, o3, o4, o5, o6, o7, o8, o9, o10, o11, o12, o13, o14, o15, o16, o18]
  constructor
  all_goals
    simp (disch := omega) only [loadW_storeW, loadH_storeH, loadW_storeW_other, loadW_storeH_other,
      loadH_storeW_other, loadH_storeH_other]
  case gs => exact hgs
  case fs => exact hfs
  case ss0 => exact hss0
  case es => exact hlow 0
  case ds => exact hlow 1
  case edi => exact hword 2
  case esi => exact hword 3
  case ebp => exact hword 4
  case ebx => exact hword 5
  case edx => exact hword 6
  case ecx => exact hword 7
  case eax => exact hword 8
  case eip => exact hword 9
  case cs => exact hlow 10
  case eflags => exact hword 11
  case esp => exact hword 12
  case ss => exact hlow 13
  case esp0 => exact hword 14

/-- After a handler has returned to the stub in its frame, `sys_sigreturn` stores the interrupted
registers and the top of the kernel stack exactly when they are what lies above the kernel stack. -/
theorem sigreturn_restores {m m' : Mem} {p : Nat} {r c : Cpu} {t : Tss} {ret : BitVec 32}
    (hring : isRing3 r.cs = true) (hroom : 80 ≤ t.esp0.toNat)
    (hapart : p + 66 ≤ t.esp0.toNat - 80 ∨ t.esp0.toNat ≤ p)
    (hss0 : loadH m' (p + Field.ss0.offset) = t.ss0)
    (back : Returned (handleSignal m r t.esp0) m' r c) :
    Saved (sysSigreturn p (syscallEntry t c ret m')) p r t ↔
      AboveStack m' t.esp0.toNat r t.esp0 := by
  have hcs : isRing3 c.cs = true := by rw [back.cs, hring]
  have stored : Stored (sysSigreturn p (syscallEntry t c ret m')) m' p c t.esp0.toNat :=
    sysSigreturn_stored hcs hroom hapart
  constructor
  · intro saved
    refine ⟨?_, ?_, ?_, ?_, ?_, ?_, ?_, ?_, ?_, ?_, ?_, ?_, ?_, ?_, ?_, ?_, ?_⟩
    · rw [← saved.gs, stored.gs, back.esp]
    · rw [← saved.fs, stored.fs, back.ss]
    · rw [← saved.es, stored.es]
    · rw [← saved.ds, stored.ds]
    · rw [← saved.edi, stored.edi]
    · rw [← saved.esi, stored.esi]
    · rw [← saved.ebp, stored.ebp]
    · rw [← saved.ebx, stored.ebx]
    · rw [← saved.edx, stored.edx]
    · rw [← saved.ecx, stored.ecx]
    · rw [← saved.eax, stored.eax]
    · rw [← saved.eip, stored.eip]
    · rw [← saved.cs, stored.cs]
    · rw [← saved.eflags, stored.eflags]
    · rw [← saved.esp, stored.esp]
    · rw [← saved.ss, stored.ss]
    · rw [← stored.esp0, saved.esp0]
  · intro above
    refine ⟨?_, ?_, ?_, ?_, ?_, ?_, ?_, ?_, ?_, ?_, ?_, ?_, ?_, ?_, ?_, ?_, ?_, ?_⟩
    · rw [stored.eax, above.eax]
    · rw [stored.ecx, above.ecx]
    · rw [stored.edx, above.edx]
    · rw [stored.ebx, above.ebx]
    · rw [stored.esp, above.esp]
    · rw [stored.ebp, above.ebp]
    · rw [stored.esi, above.esi]
    · rw [stored.edi, above.edi]
    · rw [stored.eip, above.eip]
    · rw [stored.eflags, above.eflags]
    · rw [stored.cs, above.cs]
    · rw [stored.ss, above.ss]
    · rw [stored.ds, above.ds]
    · rw [stored.es, above.es]
    · rw [stored.fs, back.ss, above.fs]
    · rw [stored.gs, back.esp, above.gs]
    · rw [stored.esp0, above.esp0]
    · exact stored.ss0.trans hss0

/-- The processor at the `int 0x30` of the stub, when the handler has changed no register. -/
def returnedCpu : Cpu :=
  { userCpu with eax := 14, esp := signalEsp userCpu + 4, eip := signalEsp userCpu + 79 }

/-- A handler that returns at once. -/
lemma returned_userCpu (m : Mem) :
    Returned (handleSignal m userCpu 0x8000) (handleSignal m userCpu 0x8000) userCpu returnedCpu :=
  ⟨fun _ _ _ => rfl, rfl, rfl, rfl, rfl⟩

/-- A process interrupted with a kernel stack that ends at 0x8000. -/
theorem sigreturn_restores_user :
    Saved (sysSigreturn 0x1000 (syscallEntry ⟨0x8000, 0⟩ returnedCpu 0
        (handleSignal (fun _ => 0) userCpu 0x8000))) 0x1000 userCpu ⟨0x8000, 0⟩ ↔
      AboveStack (handleSignal (fun _ => 0) userCpu 0x8000) 0x8000 userCpu 0x8000 := by
  refine sigreturn_restores (t := ⟨0x8000, 0⟩) (by decide) (by decide) (by decide) ?_
    (returned_userCpu _)
  have ho : Field.ss0.offset = 64 := by decide
  have hkeep : loadH (handleSignal (fun _ => 0) userCpu 0x8000) (0x1000 + 64) =
      loadH (fun _ => 0) (0x1000 + 64) := by
    apply loadH_congr
    intro x h1 h2
    apply Stack.pushAll_other (by decide)
    right
    exact lt_trans h2 (by decide)
  rw [ho, hkeep]
  rfl

/-- A handler that returns at once loses the registers: the selector stored as `gs` is the low half of
the user stack pointer. -/
theorem sigreturn_loses_gs :
    Returned (handleSignal (fun _ => 0) userCpu 0x8000) (handleSignal (fun _ => 0) userCpu 0x8000)
        userCpu returnedCpu ∧
      ¬ Saved (sysSigreturn 0x1000 (syscallEntry ⟨0x8000, 0⟩ returnedCpu 0
        (handleSignal (fun _ => 0) userCpu 0x8000))) 0x1000 userCpu ⟨0x8000, 0⟩ := by
  refine ⟨returned_userCpu _, fun saved => ?_⟩
  have stored : Stored (sysSigreturn 0x1000 (syscallEntry ⟨0x8000, 0⟩ returnedCpu 0
      (handleSignal (fun _ => 0) userCpu 0x8000))) _ 0x1000 returnedCpu 0x8000 :=
    sysSigreturn_stored (by decide) (by decide) (by decide)
  have h := stored.gs.symm.trans saved.gs
  exact absurd h (by decide)

end Creeks
