import Creeks.Mm.State
import Creeks.Process.Sigreturn
import Creeks.Process.Delivery

/-!
# Entering a signal handler

`switch_to_task` with a pending signal: `handle_signal` saves the registers below the saved stack pointer
and replaces `esp` and `eip` in the structure, and the context is loaded in the mode `schedule` has chosen
before. The selectors stay those of the interrupted context, so a process that was preempted in a system
call enters its handler with the kernel's: `handler_privilege`.
-/

namespace Creeks
open Lib

/-- The selector of user code. -/
abbrev USER_CS : BitVec 16 := 0x23

/-- Where the handler of a signal stands in `struct process`. -/
def handlerOffset (sig : Nat) : Nat := Field.signal.offset + Field.signal.size + 4 * sig

/-- The words of the frame of `handle_signal`, in the order they are written: the index and what is read. -/
def signalSaves (p : Nat) (esp : BitVec 32) : List (Nat × (Mem → BitVec 32)) :=
  let word := fun (f : Field) (m : Mem) => loadW m (p + f.offset)
  let low := fun (f : Field) (m : Mem) => (loadH m (p + f.offset)).setWidth 32
  [(19, fun _ => 0x0030CD00), (18, fun _ => 0x00000EB8), (17, word .esp0), (16, low .ss),
    (15, word .esp), (14, word .eflags), (13, low .cs), (12, word .eip), (11, word .eax),
    (10, word .ecx), (9, word .edx), (8, word .ebx), (7, word .ebp), (6, word .esi), (5, word .edi),
    (4, low .ds), (3, low .es), (2, low .fs), (1, low .gs), (0, fun _ => esp + 72)]

/-- `esp[k] = ..` for each word of a frame. -/
def fillFrame (esp : BitVec 32) (ws : List (Nat × (Mem → BitVec 32))) (m : Mem) : Mem :=
  ws.foldl (fun m w => storeW m (esp + BitVec.ofNat 32 (4 * w.1)).toNat (w.2 m)) m

/-- `clear_signal(&current->signal, sig)` -/
def clearPending (m : Mem) (p sig : Nat) : Mem :=
  storeW m (p + Field.signal.offset) (clearSignal (loadW m (p + Field.signal.offset)) sig)

/-- The stack pointer the handler of the process at `p` is given. -/
def handlerEsp (m : Mem) (p : Nat) : BitVec 32 := loadW m (p + Field.esp.offset) - 80

/-- `handle_signal` for a signal with a handler. -/
def enterHandler (m : Mem) (p sig : Nat) : Mem :=
  let esp := handlerEsp m p
  let m := fillFrame esp (signalSaves p esp) m
  let m := storeW m (p + Field.esp.offset) esp
  let m := storeW m (p + Field.eip.offset) (loadW m (p + handlerOffset sig))
  let m := storeW m (p + handlerOffset sig) SIG_DFL
  if sig ≠ SIGCHLD then clearPending m p sig else m

/-- `handle_signal(sig)` for the process at `p`. There is no memory when it calls `sys_exit`. -/
def handleSignalAt (m : Mem) (p sig : Nat) : Option Mem :=
  if loadW m (p + handlerOffset sig) = SIG_IGN then some (clearPending m p sig)
  else if loadW m (p + handlerOffset sig) = SIG_DFL then
    if sig = SIGHUP ∨ sig = SIGINT ∨ sig = SIGQUIT then none
    else if sig = SIGCHLD then some m
    else some (clearPending m p sig)
  else some (enterHandler m p sig)

/-- `switch_to_task(p, mode)` -/
def switchToTask (m : Mem) (p : Nat) (user : Bool) (pad : BitVec 16) : Option (Cpu × Tss) :=
  let sig := dequeueSignal (loadW m (p + Field.signal.offset))
  if sig = 0 then some (loadContext m p user pad)
  else (handleSignalAt m p sig).map fun m => loadContext m p user pad

/-- `schedule` from the choice of the process at `p`: the mode is that of the saved context. -/
def scheduleTo (m : Mem) (p : Nat) (pad : BitVec 16) : Option (Cpu × Tss) :=
  switchToTask m p (loadH m (p + Field.cs.offset) ≠ KERN_CS) pad

/-- A handler is entered with the user code selector, on a frame in user memory. -/
structure EntersUser (m : Mem) (p : Nat) (pad : BitVec 16) (fn : BitVec 32) : Prop where
  frame : USER_OFFSET ≤ (handlerEsp m p).toNat ∧ (handlerEsp m p).toNat + 80 ≤ USER_STACK
  runs : ∃ c t, scheduleTo m p pad = some (c, t) ∧ c.eip = fn ∧ c.cs = USER_CS ∧ c.esp = handlerEsp m p

/-- Without a pending signal a process is resumed as it was saved. -/
lemma scheduleTo_resume {m : Mem} {p : Nat} {pad : BitVec 16}
    (h : loadW m (p + Field.signal.offset) = 0) : scheduleTo m p pad = resume m p pad := by
  have h0 : dequeueSignal 0 = 0 := by decide
  rw [resume_eq, if_neg (by rw [h]; decide), scheduleTo, switchToTask, h]
  simp only [h0, if_true]

section Frame

variable {m : Mem} {p sig x : Nat} {esp : BitVec 32}

/-- The words of a frame lie in the 80 bytes from `esp` on. -/
lemma fillFrame_other {ws : List (Nat × (Mem → BitVec 32))} (hws : ∀ w ∈ ws, w.1 < 20)
    (hroom : esp.toNat + 80 ≤ 4294967296) (hx : x < esp.toNat ∨ esp.toNat + 80 ≤ x) :
    fillFrame esp ws m x = m x := by
  induction ws generalizing m with
  | nil => rfl
  | cons w ws ih =>
    have hw : w.1 < 20 := hws w List.mem_cons_self
    have haddr : (esp + BitVec.ofNat 32 (4 * w.1)).toNat = esp.toNat + 4 * w.1 := by
      rw [BitVec.toNat_add, BitVec.toNat_ofNat]
      omega
    change fillFrame esp ws (storeW m (esp + BitVec.ofNat 32 (4 * w.1)).toNat (w.2 m)) x = m x
    rw [ih fun v hv => hws v (List.mem_cons_of_mem _ hv), haddr]
    exact storeW_other (by omega)

/-- The frame of `handle_signal` has twenty words. -/
lemma signalSaves_lt (p : Nat) (esp : BitVec 32) : ∀ w ∈ signalSaves p esp, w.1 < 20 := by
  simp [signalSaves]

lemma handlerOffset_eq (sig : Nat) : handlerOffset sig = 138 + 4 * sig := rfl

/-- Clearing a signal of the mask writes the mask. -/
lemma clearPending_other (hx : x < p + 134 ∨ p + 138 ≤ x) : clearPending m p sig x = m x :=
  storeW_other hx

end Frame

section Enter

variable {m : Mem} {p sig : Nat} {c : Cpu} {t : Tss} {pad : BitVec 16} {fn : BitVec 32}

/-- `handle_signal` keeps the registers in the structure, with a new stack pointer and the handler as the
next instruction, when its frame misses the structure. -/
lemma enterHandler_saved (saved : Saved m p c t) (hsig : sig ≤ 31) (hesp : 80 ≤ c.esp.toNat)
    (hapart : p + 266 ≤ c.esp.toNat - 80 ∨ c.esp.toNat ≤ p)
    (hfn : loadW m (p + handlerOffset sig) = fn) :
    Saved (enterHandler m p sig) p { c with
      esp := signalEsp c
      eip := fn } t := by
  have hhandler : handlerEsp m p = signalEsp c := congrArg (· - 80#32) saved.esp
  have htoNat : (signalEsp c).toNat = c.esp.toNat - 80 := BitVec.toNat_sub_of_le hesp
  have hkeep : ∀ x, p ≤ x → x < p + 266 →
      fillFrame (signalEsp c) (signalSaves p (signalEsp c)) m x = m x := fun x h1 h2 =>
    fillFrame_other (signalSaves_lt _ _) (by have := c.esp.isLt; omega) (by omega)
  have hsaved := saved.congr fun x h1 h2 => hkeep x h1 (by omega)
  have hfn' : loadW (fillFrame (signalEsp c) (signalSaves p (signalEsp c)) m) (p + (138 + 4 * sig)) =
      fn := by
    rw [← hfn, handlerOffset_eq]
    exact loadW_congr fun x h1 h2 => hkeep x (by omega) (by omega)
  obtain ⟨-, -, -, -, o5, -, -, -, o9, -⟩ := Field.offset_eq
  unfold enterHandler
  simp only [hhandler, o5, o9, handlerOffset_eq]
  generalize fillFrame (signalEsp c) (signalSaves p (signalEsp c)) m = m1 at hsaved hfn'
  have hread : loadW (storeW m1 (p + 20) (signalEsp c)) (p + (138 + 4 * sig)) = fn := by
    rw [loadW_storeW_other (by omega), hfn']
  rw [hread]
  -- the four fields are not among the others
  have hstored : Saved (storeW (storeW (storeW m1 (p + 20) (signalEsp c)) (p + 36) fn)
      (p + (138 + 4 * sig)) SIG_DFL) p { c with
        esp := signalEsp c
        eip := fn } t := by
    have hcongr : ∀ x, p ≤ x → x < p + 66 → storeW (storeW (storeW m1 (p + 20) (signalEsp c)) (p + 36) fn)
        (p + (138 + 4 * sig)) SIG_DFL x = storeW (storeW m1 (p + 20) (signalEsp c)) (p + 36) fn x :=
      fun x h1 h2 => storeW_other (by omega)
    refine Saved.congr ?_ hcongr
    constructor
    all_goals
      simp (disch := omega) only [loadW_storeW, loadW_storeW_other, loadH_storeW_other, hsaved.eax,
        hsaved.ecx, hsaved.edx, hsaved.ebx, hsaved.ebp, hsaved.esi, hsaved.edi, hsaved.eflags, hsaved.cs,
        hsaved.ss, hsaved.ds, hsaved.es, hsaved.fs, hsaved.gs, hsaved.esp0, hsaved.ss0]
  split
  · exact hstored.congr fun x h1 h2 => clearPending_other (by omega)
  · exact hstored

/-- Filling a frame from its last word down is a sequence of pushes, as long as the words that are read are
those of a structure the frame misses. -/
lemma fillFrame_pushAll {esp : BitVec 32} {ws : List (Nat × (Mem → BitVec 32))} {vs : List (BitVec 32)} {n : Nat}
    (hidx : ws.map Prod.fst = (List.range n).reverse) (hroom : esp.toNat + 4 * n ≤ 4294967296)
    (hread : List.Forall₂ (fun w v => ∀ m', Saved m' p c t → w.2 m' = v) ws vs) (saved : Saved m p c t)
    (hapart : p + 66 ≤ esp.toNat ∨ esp.toNat + 4 * n ≤ p) :
    fillFrame esp ws m = (Stack.pushAll ⟨m, esp.toNat + 4 * n⟩ vs).mem := by
  induction n generalizing ws vs m with
  | zero =>
    rw [List.range_zero, List.reverse_nil, List.map_eq_nil_iff] at hidx
    subst hidx
    cases hread
    rfl
  | succ n ih =>
    rw [List.range_succ, List.reverse_append, List.reverse_singleton, List.singleton_append] at hidx
    cases hread with
    | nil => cases hidx
    | @cons w v ws vs hv hread =>
      rw [List.map_cons, List.cons.injEq] at hidx
      have haddr : (esp + BitVec.ofNat 32 (4 * w.1)).toNat = esp.toNat + 4 * n := by
        rw [BitVec.toNat_add, BitVec.toNat_ofNat, hidx.1]
        omega
      have hsaved : Saved (storeW m (esp.toNat + 4 * n) v) p c t :=
        saved.congr fun x h1 h2 => storeW_other (by omega)
      change fillFrame esp ws (storeW m (esp + BitVec.ofNat 32 (4 * w.1)).toNat (w.2 m)) = _
      rw [haddr, hv m saved, ih hidx.2 (by omega) hread hsaved (by omega)]
      rfl

/-- The frame of `handle_signal` when it misses the structure of the process. -/
lemma fillFrame_handleSignal (saved : Saved m p c t) (hesp : 80 ≤ c.esp.toNat)
    (hapart : p + 66 ≤ c.esp.toNat - 80 ∨ c.esp.toNat ≤ p) :
    fillFrame (signalEsp c) (signalSaves p (signalEsp c)) m = handleSignal m c t.esp0 := by
  have htoNat : (signalEsp c).toNat = c.esp.toNat - 80 := BitVec.toNat_sub_of_le hesp
  have hlt := c.esp.isLt
  have hread : List.Forall₂ (fun w v => ∀ m', Saved m' p c t → w.2 m' = v) (signalSaves p (signalEsp c))
      (signalFrame c t.esp0 (signalEsp c)).reverse := by
    refine .cons (fun m' _ => rfl) <| .cons (fun m' _ => rfl) <| .cons (fun m' h => h.esp0) <|
      .cons (fun m' h => congrArg (BitVec.setWidth 32) h.ss) <| .cons (fun m' h => h.esp) <| .cons (fun m' h => h.eflags) <|
      .cons (fun m' h => congrArg (BitVec.setWidth 32) h.cs) <| .cons (fun m' h => h.eip) <| .cons (fun m' h => h.eax) <|
      .cons (fun m' h => h.ecx) <| .cons (fun m' h => h.edx) <| .cons (fun m' h => h.ebx) <|
      .cons (fun m' h => h.ebp) <| .cons (fun m' h => h.esi) <| .cons (fun m' h => h.edi) <|
      .cons (fun m' h => congrArg (BitVec.setWidth 32) h.ds) <| .cons (fun m' h => congrArg (BitVec.setWidth 32) h.es) <|
      .cons (fun m' h => congrArg (BitVec.setWidth 32) h.fs) <| .cons (fun m' h => congrArg (BitVec.setWidth 32) h.gs) <|
      .cons (fun m' _ => rfl) .nil
  have hsp : c.esp.toNat = (signalEsp c).toNat + 4 * 20 := by omega
  rw [handleSignal, hsp]
  exact fillFrame_pushAll rfl (by omega) hread saved (by omega)

/-- The mask and the table of handlers of the process at `p`. -/
def signalsAt (m : Mem) (p : Nat) : Signals :=
  ⟨loadW m (p + Field.signal.offset), fun g => loadW m (p + handlerOffset g)⟩

/-- The mask and the handlers of two memories are the same. -/
def SameSignals (q r : Signals) : Prop := q.signal = r.signal ∧ ∀ g ≤ 31, q.sigfn g = r.sigfn g

lemma SameSignals.trans {q r u : Signals} (h : SameSignals q r) (h' : SameSignals r u) : SameSignals q u :=
  ⟨h.1.trans h'.1, fun g hg => (h.2 g hg).trans (h'.2 g hg)⟩

lemma SameSignals.clear {q r : Signals} (h : SameSignals q r) : SameSignals (q.clear sig) (r.clear sig) :=
  ⟨congrArg (clearSignal · sig) h.1, h.2⟩

/-- Clearing a signal of the mask in memory. -/
lemma clearPending_signals (m : Mem) (p sig : Nat) :
    SameSignals (signalsAt (clearPending m p sig) p) ((signalsAt m p).clear sig) := by
  have ho : Field.signal.offset = 134 := by decide
  refine ⟨loadW_storeW, fun g _ => ?_⟩
  simp only [signalsAt, clearPending, Signals.clear, ho, handlerOffset_eq]
  exact loadW_storeW_other (by omega)

/-- Entering a handler resets it, and clears its signal unless that is `SIGCHLD`. -/
lemma enterHandler_signals (hsig : sig ≤ 31) (hesp : (handlerEsp m p).toNat + 80 ≤ 4294967296)
    (hapart : p + 266 ≤ (handlerEsp m p).toNat ∨ (handlerEsp m p).toNat + 80 ≤ p) :
    SameSignals (signalsAt (enterHandler m p sig) p) (if sig ≠ SIGCHLD then
        Signals.clear ⟨(signalsAt m p).signal, Function.update (signalsAt m p).sigfn sig SIG_DFL⟩ sig
      else ⟨(signalsAt m p).signal, Function.update (signalsAt m p).sigfn sig SIG_DFL⟩) := by
  have hkeep : ∀ x, p ≤ x → x < p + 266 →
      fillFrame (handlerEsp m p) (signalSaves p (handlerEsp m p)) m x = m x := fun x h1 h2 =>
    fillFrame_other (signalSaves_lt _ _) hesp (by omega)
  have ho : Field.signal.offset = 134 := by decide
  obtain ⟨-, -, -, -, o5, -, -, -, o9, -⟩ := Field.offset_eq
  have hstored : ∀ fn, SameSignals (signalsAt (storeW (storeW (storeW
      (fillFrame (handlerEsp m p) (signalSaves p (handlerEsp m p)) m) (p + 20) (handlerEsp m p)) (p + 36) fn)
      (p + (138 + 4 * sig)) SIG_DFL) p)
      ⟨(signalsAt m p).signal, Function.update (signalsAt m p).sigfn sig SIG_DFL⟩ := fun fn => by
    constructor
    · simp only [signalsAt, ho]
      rw [loadW_storeW_other (by omega), loadW_storeW_other (by omega), loadW_storeW_other (by omega)]
      exact loadW_congr fun x h1 h2 => hkeep x (by omega) (by omega)
    · intro g hg
      simp only [signalsAt, handlerOffset_eq]
      rcases eq_or_ne g sig with rfl | hne
      · rw [Function.update_self, loadW_storeW]
      · rw [Function.update_of_ne hne, loadW_storeW_other (by omega), loadW_storeW_other (by omega),
          loadW_storeW_other (by omega)]
        exact loadW_congr fun x h1 h2 => hkeep x (by omega) (by omega)
  unfold enterHandler
  simp only [o5, o9, handlerOffset_eq]
  split
  · exact (clearPending_signals _ p sig).trans (hstored _).clear
  · exact hstored _

/-- `handle_signal` on the mask and the table of handlers is that of `Signals`. -/
lemma handleSignalAt_signals (hsig : sig ≤ 31) (hesp : (handlerEsp m p).toNat + 80 ≤ 4294967296)
    (hapart : p + 266 ≤ (handlerEsp m p).toNat ∨ (handlerEsp m p).toNat + 80 ≤ p) :
    match handleSignalAt m p sig with
    | none => (signalsAt m p).handleSignal sig = (signalsAt m p, .ended)
    | some m' => SameSignals (signalsAt m' p) ((signalsAt m p).handleSignal sig).1 := by
  have hfn : (signalsAt m p).sigfn sig = loadW m (p + handlerOffset sig) := rfl
  unfold handleSignalAt Signals.handleSignal
  rw [hfn]
  split_ifs with hign hdfl hend hchld hne
  · exact clearPending_signals m p sig
  · rfl
  · exact ⟨rfl, fun _ _ => rfl⟩
  · exact clearPending_signals m p sig
  · have enters := enterHandler_signals hsig hesp hapart
    rw [if_pos hne] at enters
    exact enters
  · have enters := enterHandler_signals hsig hesp hapart
    rw [if_neg hne] at enters
    exact enters

/-- A process with a handler for its next signal enters it with the selectors it was saved with. -/
lemma scheduleTo_handler (hp : p < 4294967296) (saved : Saved m p c t)
    (hring : isRing3 c.cs = true ∨ c.cs = KERN_CS) (hsig : 1 ≤ sig ∧ sig ≤ 31)
    (hnext : dequeueSignal (loadW m (p + Field.signal.offset)) = sig)
    (hfn : loadW m (p + handlerOffset sig) = fn) (hign : fn ≠ SIG_IGN) (hdfl : fn ≠ SIG_DFL)
    (hesp : 80 ≤ c.esp.toNat) (hframe : p + 266 ≤ c.esp.toNat - 80 ∨ c.esp.toNat ≤ p)
    (hroom : 64 ≤ (gateStack t { c with esp := signalEsp c } m).sp)
    (hapart : p + 66 ≤ (gateStack t { c with esp := signalEsp c } m).sp - 64 ∨
      (gateStack t { c with esp := signalEsp c } m).sp ≤ p) :
    ∃ r, scheduleTo m p pad = some (r, t) ∧ r.eip = fn ∧ r.cs = c.cs ∧ r.esp = signalEsp c ∧ r.ss = c.ss := by
  have hcs : loadH m (p + Field.cs.offset) = c.cs := saved.cs
  have hsaved := enterHandler_saved saved hsig.2 hesp hframe hfn
  have hload := @loadContext_saved _ p { c with
    esp := signalEsp c
    eip := fn } t pad hp hsaved hring hroom hapart
  have hhandle : handleSignalAt m p sig = some (enterHandler m p sig) := by
    rw [handleSignalAt, hfn, if_neg hign, if_neg hdfl]
  have hswitch : scheduleTo m p pad = some (loadContext (enterHandler m p sig) p (c.cs ≠ KERN_CS) pad) := by
    rw [scheduleTo, switchToTask, hnext, hcs, if_neg (by omega), hhandle, Option.map_some]
  rw [hswitch, hload]
  exact ⟨_, rfl, rfl, rfl, rfl, rfl⟩

/-- A process that was interrupted by the timer enters the handler of its next signal in user mode exactly
when it was interrupted there, with its stack pointer where the frame fits into user memory. -/
theorem handler_privilege {ret : BitVec 32} {mem : Mem} (hp : p + 266 ≤ USER_OFFSET)
    (hring : c.cs = USER_CS ∨ c.cs = KERN_CS ∧ c.ss = t.ss0) (hstack : (gateStack t c mem).sp ≤ USER_OFFSET)
    (hroom : 76 ≤ (gateStack t c mem).sp)
    (hapart : p + 66 ≤ (gateStack t c mem).sp - 76 ∨ (gateStack t c mem).sp ≤ p)
    (hkeep : ∀ x, p ≤ x → x < p + 66 → m x = saveContext t p (clockInterrupt t c ret mem) x)
    (hsig : 1 ≤ sig ∧ sig ≤ 31) (hnext : dequeueSignal (loadW m (p + Field.signal.offset)) = sig)
    (hfn : loadW m (p + handlerOffset sig) = fn) (hign : fn ≠ SIG_IGN) (hdfl : fn ≠ SIG_DFL) :
    EntersUser m p pad fn ↔
      c.cs = USER_CS ∧ USER_OFFSET + 80 ≤ c.esp.toNat ∧ c.esp.toNat ≤ USER_STACK := by
  have hring' : isRing3 c.cs = true ∨ c.cs = KERN_CS ∧ c.ss = t.ss0 :=
    hring.imp_left fun h => by rw [h]; decide
  have saved := (saveContext_saved (clockInterrupt_frame hroom) hring').congr hkeep
  have hhandler : handlerEsp m p = c.esp - 80 := congrArg (· - 80#32) saved.esp
  have htoNat : (c.esp - 80).toNat = (4294967296 - 80 + c.esp.toNat) % 4294967296 := BitVec.toNat_sub _ _
  have hlt := c.esp.isLt
  simp only [USER_OFFSET, USER_STACK] at hp hstack ⊢
  constructor
  · intro enters
    obtain ⟨hlo, hhi⟩ := enters.frame
    rw [hhandler, htoNat] at hlo hhi
    simp only [USER_OFFSET, USER_STACK] at hlo hhi
    rcases hring with hcs | ⟨hcs, -⟩
    · exact ⟨hcs, by omega, by omega⟩
    · -- the frame lies on the kernel stack
      have hsp : (gateStack t c mem).sp = c.esp.toNat := by
        rw [gateStack, if_neg (by rw [hcs]; decide)]
      omega
  · rintro ⟨hcs, hlo, hhi⟩
    have h3 : isRing3 c.cs = true := by rw [hcs]; decide
    have hsp : (gateStack t { c with esp := signalEsp c } m).sp = (gateStack t c mem).sp := by
      rw [gateStack, gateStack, if_pos h3, if_pos h3]
    obtain ⟨r, hr, heip, hrcs, hresp, -⟩ := @scheduleTo_handler _ _ _ _ _ pad _ (by omega) saved (.inl h3) hsig
      hnext hfn hign hdfl (by omega) (.inl (by omega)) (by omega) (by omega)
    refine ⟨?_, r, t, hr, heip, hrcs.trans hcs, hresp.trans hhandler.symm⟩
    rw [hhandler, htoNat]
    simp only [USER_OFFSET, USER_STACK]
    omega

end Enter

/-- The processor in a system call of the process, on its kernel stack. -/
def kernCpu : Cpu := { userCpu with esp := 0x803F00, cs := KERN_CS, ss := 0x18 }

/-- A process that was interrupted with the registers `c` and has a handler for a pending `SIGUSR1`. -/
def signalled (c : Cpu) : Mem :=
  let m := saveContext ⟨0x803FF0, 0x18⟩ 0x1000 (clockInterrupt ⟨0x803FF0, 0x18⟩ c 0 fun _ => 0)
  let m := storeW m (0x1000 + Field.signal.offset) 0x200
  storeW m (0x1000 + handlerOffset 10) 0x40001000

/-- The signal and its handler are behind the registers. -/
lemma signalled_spec (c : Cpu) :
    (∀ x, 0x1000 ≤ x → x < 0x1000 + 66 → signalled c x =
      saveContext ⟨0x803FF0, 0x18⟩ 0x1000 (clockInterrupt ⟨0x803FF0, 0x18⟩ c 0 fun _ => 0) x) ∧
    dequeueSignal (loadW (signalled c) (0x1000 + Field.signal.offset)) = 10 ∧
    loadW (signalled c) (0x1000 + handlerOffset 10) = 0x40001000 := by
  have ho : Field.signal.offset = 134 := by decide
  unfold signalled
  simp only [ho, handlerOffset_eq]
  refine ⟨fun x h1 h2 => ?_, ?_, loadW_storeW⟩
  · rw [storeW_other (by omega), storeW_other (by omega)]
  · rw [loadW_storeW_other (by decide), loadW_storeW]
    decide

/-- A process interrupted in user mode. -/
theorem handler_privilege_user : EntersUser (signalled userCpu) 0x1000 0 0x40001000 := by
  have hsp : (gateStack ⟨0x803FF0, 0x18⟩ userCpu fun _ => 0).sp = 0x803FF0 := by decide
  obtain ⟨hkeep, hnext, hfn⟩ := signalled_spec userCpu
  exact (handler_privilege (by decide) (.inl rfl) (by rw [hsp]; decide) (by rw [hsp]; decide)
    (by rw [hsp]; decide) hkeep (by decide) hnext hfn (by decide) (by decide)).2
    ⟨rfl, by decide, by decide⟩

/-- A process preempted in a system call: the kernel runs its handler, with a frame on the kernel stack. -/
theorem handler_in_kernel : ¬ EntersUser (signalled kernCpu) 0x1000 0 0x40001000 ∧
    ∃ r t, scheduleTo (signalled kernCpu) 0x1000 0 = some (r, t) ∧ r.eip = 0x40001000 ∧ r.cs = KERN_CS ∧
      r.esp = 0x803EB0 := by
  have hsp : (gateStack ⟨0x803FF0, 0x18⟩ kernCpu fun _ => 0).sp = 0x803F00 := by decide
  obtain ⟨hkeep, hnext, hfn⟩ := signalled_spec kernCpu
  have frame : Frame (clockInterrupt ⟨0x803FF0, 0x18⟩ kernCpu 0 fun _ => 0) kernCpu :=
    clockInterrupt_frame (by rw [hsp]; decide)
  have saved := (saveContext_saved frame (.inr ⟨rfl, rfl⟩)).congr hkeep
  have hsp' : (gateStack ⟨0x803FF0, 0x18⟩ { kernCpu with esp := signalEsp kernCpu } (signalled kernCpu)).sp =
      0x803EB0 := by
    rw [gateStack, if_neg (by decide)]
    decide
  obtain ⟨r, hr, heip, hcs, hesp, -⟩ := @scheduleTo_handler _ _ _ _ _ 0 _ (by decide) saved (.inr rfl)
    (by decide) hnext hfn (by decide) (by decide) (by decide) (by decide) (by rw [hsp']; decide)
    (by rw [hsp']; decide)
  refine ⟨fun enters => ?_, r, _, hr, heip, hcs, hesp⟩
  obtain ⟨r', t', hr', -, hcs', -⟩ := enters.runs
  rw [hr] at hr'
  cases hr'
  rw [hcs] at hcs'
  exact absurd hcs' (by decide)

end Creeks
