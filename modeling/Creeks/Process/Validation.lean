import Creeks.Process.Delivery
import Creeks.Process.Context

/-!
# The arguments of `sys_kill` and `sys_sigaction`

`p_list` as the bytes it is made of, with the two calls that take a pid or a signal number from a process
and the part of `switch_to_task` that handles a signal. An index out of an array is the address it gives,
so a bad argument reads and writes whatever lies there. Every call lists the accesses it makes: the
indices into `p_list` and `sigfn`, and the counts of its shifts.

`argument_validation` says which arguments keep every access inside and every bad number refused.
`handleSignal_signals` connects the bytes to the mask and the table of `Creeks.Process.Delivery`.
-/

namespace Creeks
open Lib

/-- The offset of `sigfn` in `struct process`. -/
def sigfnOffset : Nat := Field.signal.offset + Field.signal.size

/-- The offset of `state`, after `sigfn` and `status`. -/
def stateOffset : Nat := sigfnOffset + 4 * 32 + 4

/-- `sizeof(struct process)` -/
def processSize : Nat := stateOffset + 4

lemma signal_offset : Field.signal.offset = 134 := by decide
lemma sigfnOffset_eq : sigfnOffset = 138 := by decide
lemma processSize_eq : processSize = 274 := by decide

/-- An access that an argument decides. -/
inductive Access where
  | pList (i : Int)
  | sigfn (i : Int)
  | shift (n : Int)
deriving DecidableEq, Repr

/-- An index of the array, or a shift count below the width of the word. -/
def Access.InBounds : Access → Prop
  | .pList i => 0 ≤ i ∧ i ≤ MAXPID
  | .sigfn i => 0 ≤ i ∧ i ≤ 31
  | .shift n => 0 ≤ n ∧ n ≤ 31

/-- The memory with `p_list` at an address, and the index of the current process. -/
structure Processes where
  pList : Nat
  mem : Mem
  current : Nat
  room : pList + 274 * (32 + 1) ≤ 4294967296
  current_le : current ≤ 32

namespace Processes

/-- The address of the word at an offset of `p_list[i]`. -/
def addr (s : Processes) (i off : Int) : Nat :=
  (((s.pList : Int) + processSize * i + off) % 4294967296).toNat

/-- `p_list[i].signal` -/
def mask (s : Processes) (i : Int) : BitVec 32 := loadW s.mem (s.addr i Field.signal.offset)

/-- `p_list[i].state` -/
def state (s : Processes) (i : Int) : Int := (loadW s.mem (s.addr i stateOffset)).toInt

/-- The address of `current->sigfn[sig]`. -/
def sigfnAddr (s : Processes) (sig : Int) : Nat := s.addr s.current (sigfnOffset + 4 * sig)

/-- Store a word. -/
def store (s : Processes) (a : Nat) (w : BitVec 32) : Processes := { s with mem := storeW s.mem a w }

/-- `sys_kill`: the memory, the value it returns and the accesses. -/
def sysKill (s : Processes) (pid sig : Int) : Processes × Int × List Access :=
  if s.state pid > 0 then
    (s.store (s.addr pid Field.signal.offset) (setSignal (s.mask pid) sig), 0,
      [.pList pid, .pList pid, .shift (sig - 1)])
  else (s, -1, [.pList pid])

/-- `sys_sigaction` -/
def sysSigaction (s : Processes) (sig : Int) (fn : BitVec 32) : Processes × Int × List Access :=
  if sig < 32 then (s.store (s.sigfnAddr sig) fn, 0, [.sigfn sig]) else (s, 0, [])

/-- `clear_signal` on the current process. -/
def clear (s : Processes) (sig : Int) : Processes :=
  s.store (s.addr s.current Field.signal.offset) (clearSignal (s.mask s.current) sig)

/-- `handle_signal`, as far as the mask and the table go. The switch to the page directory, `sys_exit` and
the frame of the handler are modelled elsewhere. -/
def handleSignal (s : Processes) (sig : Nat) : Processes × List Access :=
  let fn := loadW s.mem (s.sigfnAddr sig)
  if fn = SIG_IGN then (s.clear sig, [.sigfn sig, .shift (sig - 1)])
  else if fn = SIG_DFL then
    if sig = SIGHUP ∨ sig = SIGINT ∨ sig = SIGQUIT then (s, [.sigfn sig, .sigfn sig])
    else if sig = SIGCHLD then (s, [.sigfn sig, .sigfn sig])
    else (s.clear sig, [.sigfn sig, .sigfn sig, .shift (sig - 1)])
  else
    let s := s.store (s.sigfnAddr sig) SIG_DFL
    if sig ≠ SIGCHLD then
      (s.clear sig, [.sigfn sig, .sigfn sig, .sigfn sig, .sigfn sig, .shift (sig - 1)])
    else (s, [.sigfn sig, .sigfn sig, .sigfn sig, .sigfn sig])

/-- `switch_to_task` up to the signal. The shifts of `dequeue_signal` are by one. -/
def switchToTask (s : Processes) (n : Fin (32 + 1)) : Processes × List Access :=
  let s := { s with current := n, current_le := Nat.le_of_lt_succ n.isLt }
  let sig := dequeueSignal (s.mask s.current)
  if sig ≠ 0 then
    let r := s.handleSignal sig
    (r.1, .pList n :: .shift 1 :: r.2)
  else (s, [.pList n])

end Processes

/-- What happens to the masks. The rest of the kernel is one step: no other function sets a signal but
`SIGCHLD`. -/
inductive SignalOp where
  | sysKill (pid sig : Int)
  | sysSigaction (sig : Int) (fn : BitVec 32)
  | switchToTask (n : Fin (32 + 1))
  | other

/-- No process has a bit in its mask that is no signal. -/
def MasksOk (s : Processes) : Prop := ∀ i ≤ 32, (s.mask (i : Nat)).getLsbD 31 = false

/-- One step of the system. -/
inductive SignalStep (s : Processes) : SignalOp → Processes → Prop where
  | sysKill {pid sig} : SignalStep s (.sysKill pid sig) (s.sysKill pid sig).1
  | sysSigaction {sig fn} : SignalStep s (.sysSigaction sig fn) (s.sysSigaction sig fn).1
  | switchToTask {n} : SignalStep s (.switchToTask n) (s.switchToTask n).1
  | other {t : Processes} :
    t.pList = s.pList →
    (∀ i ≤ 32, (t.mask (i : Nat)).getLsbD 31 = true → (s.mask (i : Nat)).getLsbD 31 = true) →
    SignalStep s .other t

/-- A number of a process. -/
def ValidPid (pid : Int) : Prop := 0 ≤ pid ∧ pid ≤ MAXPID

/-- A number of a signal. -/
def ValidSig (sig : Int) : Prop := 1 ≤ sig ∧ sig ≤ 31

instance (pid : Int) : Decidable (ValidPid pid) :=
  inferInstanceAs (Decidable (0 ≤ pid ∧ pid ≤ MAXPID))

instance (sig : Int) : Decidable (ValidSig sig) := inferInstanceAs (Decidable (1 ≤ sig ∧ sig ≤ 31))

/-- A step whose accesses are in bounds, that refuses a number of no process or of no signal with nothing
changed and, for `sys_sigaction`, changes nothing but the table of the current process. -/
def Validated (s : Processes) : SignalOp → Prop
  | .sysKill pid sig =>
    (∀ a ∈ (s.sysKill pid sig).2.2, a.InBounds) ∧
      (¬ (ValidPid pid ∧ ValidSig sig) → (s.sysKill pid sig).1 = s ∧ (s.sysKill pid sig).2.1 = -1)
  | .sysSigaction sig fn =>
    (∀ a ∈ (s.sysSigaction sig fn).2.2, a.InBounds) ∧
      (¬ ValidSig sig → (s.sysSigaction sig fn).1 = s ∧ (s.sysSigaction sig fn).2.1 = -1) ∧
      ∀ x, x < s.sigfnAddr 0 ∨ s.sigfnAddr 0 + 4 * 32 ≤ x → (s.sysSigaction sig fn).1.mem x = s.mem x
  | .switchToTask n => ∀ a ∈ (s.switchToTask n).2, a.InBounds
  | .other => True

/-- Arguments that need no refusal the code does not make: a pid of the table with a signal, or with no
live process; a signal. -/
def SignalOp.Valid (s : Processes) : SignalOp → Prop
  | .sysKill pid sig => ValidPid pid ∧ (s.state pid ≤ 0 ∨ ValidSig sig)
  | .sysSigaction sig _ => ValidSig sig
  | _ => True

/-- Every step of a sequence is validated. -/
def AllValidated : List SignalOp → Processes → Prop
  | [], _ => True
  | op :: ops, s => Validated s op ∧ ∀ t, SignalStep s op t → AllValidated ops t

/-- Every step of a sequence has valid arguments. -/
def AllValid : List SignalOp → Processes → Prop
  | [], _ => True
  | op :: ops, s => op.Valid s ∧ ∀ t, SignalStep s op t → AllValid ops t

/-! ## Addresses -/

namespace Processes

section Address

variable {s : Processes} {i j off sig : Nat} {a : Nat} {w : BitVec 32}

/-- The fields of the slots of `p_list` are where the declaration puts them. -/
lemma addr_eq (hi : i ≤ 32) (ho : off + 4 ≤ 274) : s.addr i off = s.pList + 274 * i + off := by
  have hroom := s.room
  rw [addr, processSize_eq]
  omega

lemma mask_addr (hi : i ≤ 32) : s.addr i Field.signal.offset = s.pList + 274 * i + 134 := by
  rw [signal_offset]
  exact addr_eq hi (by omega)

lemma sigfnAddr_eq (h : sig ≤ 31) : s.sigfnAddr sig = s.pList + 274 * s.current + 138 + 4 * sig := by
  have e : ((sigfnOffset : Int) + 4 * (sig : Int)) = ((138 + 4 * sig : Nat) : Int) := by
    rw [sigfnOffset_eq]
    omega
  rw [sigfnAddr, e, addr_eq s.current_le (by omega)]
  omega

/-- A store of the mask of one slot is read there, and nowhere else. -/
lemma mask_store_mask (hi : i ≤ 32) (hj : j ≤ 32) :
    (s.store (s.addr i Field.signal.offset) w).mask j = if j = i then w else s.mask j := by
  rw [mask, mask]
  show loadW (storeW s.mem _ w) (s.addr j _) = if j = i then w else loadW s.mem (s.addr j _)
  rw [mask_addr hi, mask_addr hj]
  split
  case isTrue h => rw [h, loadW_storeW]
  case isFalse h => exact loadW_storeW_other (by omega)

/-- A store in the table of the current process leaves the masks alone. -/
lemma mask_store_sigfn (h : sig ≤ 31) (hj : j ≤ 32) :
    (s.store (s.sigfnAddr sig) w).mask j = s.mask j := by
  have hc := s.current_le
  rw [mask, mask]
  show loadW (storeW s.mem _ w) (s.addr j _) = loadW s.mem (s.addr j _)
  rw [sigfnAddr_eq h, mask_addr hj]
  exact loadW_storeW_other (by omega)

end Address

/-! ## The bytes and the mask -/

section Refinement

variable {s : Processes} {j sig : Nat} {w : BitVec 32}

/-- The mask and the table of the current process. -/
def signals (s : Processes) : Signals :=
  ⟨s.mask s.current, fun k => if k < 32 then loadW s.mem (s.sigfnAddr k) else 0⟩

lemma signals_clear : (s.clear sig).signals = s.signals.clear sig := by
  have hc := s.current_le
  refine congrArg₂ Signals.mk ?_ (funext fun k => ?_)
  · exact (mask_store_mask hc hc).trans (if_pos rfl)
  · show (if k < 32 then loadW (storeW s.mem _ _) (s.sigfnAddr k) else 0) =
      if k < 32 then loadW s.mem (s.sigfnAddr k) else 0
    split
    case isTrue h =>
      rw [mask_addr hc, sigfnAddr_eq (Nat.le_of_lt_succ h)]
      exact loadW_storeW_other (by omega)
    case isFalse => rfl

lemma signals_store_sigfn (h : sig ≤ 31) : (s.store (s.sigfnAddr sig) w).signals =
    { s.signals with sigfn := Function.update s.signals.sigfn sig w } := by
  refine congrArg₂ Signals.mk (mask_store_sigfn h s.current_le) (funext fun k => ?_)
  show (if k < 32 then loadW (storeW s.mem _ _) (s.sigfnAddr k) else 0) = _
  by_cases hk : k = sig
  · subst hk
    rw [if_pos (Nat.lt_succ_of_le h), loadW_storeW, Function.update_self]
  · rw [Function.update_of_ne hk]
    show _ = if k < 32 then loadW s.mem (s.sigfnAddr k) else 0
    split
    case isTrue hlt =>
      rw [sigfnAddr_eq h, sigfnAddr_eq (Nat.le_of_lt_succ hlt)]
      exact loadW_storeW_other (by omega)
    case isFalse => rfl

/-- On a signal of the table, `handle_signal` does to the bytes what it does to the mask and the
handlers. -/
lemma handleSignal_signals (h : sig ≤ 31) :
    (s.handleSignal sig).1.signals = (s.signals.handleSignal sig).1 := by
  have hfn : loadW s.mem (s.sigfnAddr sig) = s.signals.sigfn sig :=
    (if_pos (Nat.lt_succ_of_le h)).symm
  rw [handleSignal, Signals.handleSignal, hfn]
  dsimp only
  split
  case isTrue => exact signals_clear
  case isFalse =>
    split
    case isTrue =>
      split
      case isTrue => rfl
      case isFalse =>
        split
        case isTrue => rfl
        case isFalse => exact signals_clear
    case isFalse =>
      split
      case isTrue => rw [signals_clear, signals_store_sigfn h]
      case isFalse => exact signals_store_sigfn h

/-- `handle_signal` changes nothing, clears the signal, resets its handler, or does both. -/
lemma handleSignal_cases (s : Processes) (sig : Nat) :
    (s.handleSignal sig).1 = s ∨ (s.handleSignal sig).1 = s.clear sig ∨
      (s.handleSignal sig).1 = (s.store (s.sigfnAddr sig) SIG_DFL).clear sig ∨
      (s.handleSignal sig).1 = s.store (s.sigfnAddr sig) SIG_DFL := by
  rw [handleSignal]
  dsimp only
  split
  case isTrue => exact .inr (.inl rfl)
  case isFalse =>
    split
    case isTrue =>
      split
      case isTrue => exact .inl rfl
      case isFalse =>
        split
        case isTrue => exact .inl rfl
        case isFalse => exact .inr (.inl rfl)
    case isFalse =>
      split
      case isTrue => exact .inr (.inr (.inl rfl))
      case isFalse => exact .inr (.inr (.inr rfl))

lemma handleSignal_current (s : Processes) (sig : Nat) : (s.handleSignal sig).1.current = s.current := by
  rcases handleSignal_cases s sig with e | e | e | e <;> rw [e] <;> rfl

/-- It leaves the masks of the other processes alone. -/
lemma mask_handleSignal_other (h : sig ≤ 31) (hj : j ≤ 32) (hne : j ≠ s.current) :
    (s.handleSignal sig).1.mask j = s.mask j := by
  have hclear : ∀ t : Processes, t.current = s.current → (t.clear sig).mask j = t.mask j := by
    intro t ht
    rw [clear, mask_store_mask t.current_le hj, if_neg (by rw [ht]; exact hne)]
  have hstore : (s.store (s.sigfnAddr sig) SIG_DFL).mask j = s.mask j := mask_store_sigfn h hj
  rcases handleSignal_cases s sig with e | e | e | e
  · rw [e]
  · rw [e]
    exact hclear s rfl
  · rw [e]
    exact (hclear (s.store (s.sigfnAddr sig) SIG_DFL) rfl).trans hstore
  · rw [e]
    exact hstore

/-- The accesses to a signal of the table are in bounds. -/
lemma handleSignal_inBounds (h1 : 1 ≤ sig) (h : sig ≤ 31) :
    ∀ a ∈ (s.handleSignal sig).2, a.InBounds := by
  have hfn : (Access.sigfn sig).InBounds := ⟨by omega, by omega⟩
  have hshift : (Access.shift (sig - 1)).InBounds := ⟨by omega, by omega⟩
  have hcons : ∀ l : List Access, (∀ a ∈ l, a.InBounds) → ∀ a ∈ .sigfn sig :: l, a.InBounds :=
    fun l hl => List.forall_mem_cons.2 ⟨hfn, hl⟩
  have hlast : ∀ a ∈ [Access.shift (sig - 1)], a.InBounds :=
    List.forall_mem_cons.2 ⟨hshift, List.forall_mem_nil _⟩
  have hread : ∀ a ∈ [Access.sigfn sig, .sigfn sig], a.InBounds :=
    hcons _ (hcons _ (List.forall_mem_nil _))
  rw [handleSignal]
  by_cases hign : loadW s.mem (s.sigfnAddr sig) = SIG_IGN
  · rw [if_pos hign]
    exact hcons _ hlast
  · rw [if_neg hign]
    by_cases hdfl : loadW s.mem (s.sigfnAddr sig) = SIG_DFL
    · rw [if_pos hdfl]
      by_cases hend : sig = SIGHUP ∨ sig = SIGINT ∨ sig = SIGQUIT
      · rw [if_pos hend]
        exact hread
      · rw [if_neg hend]
        by_cases hchld : sig = SIGCHLD
        · rw [if_pos hchld]
          exact hread
        · rw [if_neg hchld]
          exact hcons _ (hcons _ hlast)
    · rw [if_neg hdfl]
      by_cases hchld : sig ≠ SIGCHLD
      · rw [if_pos hchld]
        exact hcons _ (hcons _ (hcons _ (hcons _ hlast)))
      · rw [if_neg hchld]
        exact hcons _ (hcons _ hread)

end Refinement

end Processes

/-! ## The masks -/

section Masks

variable {s t : Processes} {op : SignalOp}

/-- The bits of a mask with a signal set. -/
lemma getLsbD_setSignal {mask : BitVec 32} {sig : Int} (h : ValidSig sig)
    (hm : mask.getLsbD 31 = false) : (setSignal mask sig).getLsbD 31 = false := by
  have hshift : ((sig - 1) % 32).toNat < 31 := by
    have := h.1
    have := h.2
    omega
  have hbit : (1#32 <<< ((sig - 1) % 32).toNat) = BitVec.twoPow 32 ((sig - 1) % 32).toNat := by
    rw [BitVec.twoPow_eq]
  rw [setSignal, hbit, BitVec.getLsbD_or, hm, BitVec.getLsbD_twoPow,
    decide_eq_false (Nat.ne_of_lt hshift), Bool.and_false, Bool.or_false]

/-- `dequeue_signal` finds a signal in a mask of signals. -/
lemma dequeueSignal_le {mask : BitVec 32} (hm : mask.getLsbD 31 = false)
    (h0 : dequeueSignal mask ≠ 0) : 1 ≤ dequeueSignal mask ∧ dequeueSignal mask ≤ 31 := by
  rcases @dequeueSignal_cases ⟨mask, fun _ => 0⟩ hm with ⟨h, -⟩ | h
  · exact absurd h h0
  · exact (mem_pending.1 h.1).1

/-- `handle_signal` sets no bit. -/
lemma MasksOk.handleSignal {sig : Nat} (hm : MasksOk s) (h1 : 1 ≤ sig) (h : sig ≤ 31) :
    MasksOk (s.handleSignal sig).1 := by
  have hcurrent := Processes.handleSignal_current s sig
  intro i hi
  by_cases hic : i = s.current
  · have hsig : (s.handleSignal sig).1.mask i = (s.signals.handleSignal sig).1.signal := by
      rw [← Processes.handleSignal_signals h, hic, ← hcurrent]
      rfl
    have hs : s.signals.signal.getLsbD 31 = false := hm s.current s.current_le
    rw [hsig]
    have hh := handleSignal_handles s.signals h1
    revert hh
    generalize s.signals.handleSignal sig = r
    intro hh
    cases hh with
    | ended => exact hs
    | @stays q a _ _ hq =>
      show q.signal.getLsbD 31 = false
      rw [hq]
      exact hs
    | @cleared q a _ _ hq =>
      show q.signal.getLsbD 31 = false
      rw [hq, getLsbD_clearSignal h1 (by omega), hs, Bool.false_and]
  · rw [Processes.mask_handleSignal_other h hi hic]
    exact hm i hi

/-- A dispatch keeps the masks, and its accesses are in bounds. -/
lemma MasksOk.switchToTask (hm : MasksOk s) (n : Fin (32 + 1)) :
    MasksOk (s.switchToTask n).1 ∧ ∀ a ∈ (s.switchToTask n).2, a.InBounds := by
  have hn : (n : Nat) ≤ 32 := Nat.le_of_lt_succ n.isLt
  have hpid : (Access.pList (n : Nat)).InBounds := ⟨by omega, by
    show ((n : Nat) : Int) ≤ ((32 : Nat) : Int)
    omega⟩
  have hone : (Access.shift 1).InBounds := ⟨by decide, by decide⟩
  have hm' : MasksOk { s with current := n, current_le := hn } := hm
  rw [Processes.switchToTask]
  dsimp only
  split
  case isTrue h0 =>
    obtain ⟨h1, h31⟩ := dequeueSignal_le (hm n hn) h0
    exact ⟨hm'.handleSignal h1 h31, List.forall_mem_cons.2
      ⟨hpid, List.forall_mem_cons.2 ⟨hone, Processes.handleSignal_inBounds h1 h31⟩⟩⟩
  case isFalse => exact ⟨hm', List.forall_mem_cons.2 ⟨hpid, List.forall_mem_nil _⟩⟩

lemma MasksOk.sysKill {pid sig : Int} (hm : MasksOk s) (hv : (SignalOp.sysKill pid sig).Valid s) :
    MasksOk (s.sysKill pid sig).1 := by
  obtain ⟨⟨h0, hmax⟩, hor⟩ := hv
  obtain ⟨n, rfl⟩ := Int.eq_ofNat_of_zero_le h0
  have hn : n ≤ 32 := Int.ofNat_le.1 hmax
  intro i hi
  rw [Processes.sysKill]
  split
  case isTrue hlive =>
    rcases hor with hdead | hsig
    · exact absurd hlive (Int.not_lt.2 hdead)
    · rw [Processes.mask_store_mask hn hi]
      split
      case isTrue => exact getLsbD_setSignal hsig (hm n hn)
      case isFalse => exact hm i hi
  case isFalse => exact hm i hi

lemma MasksOk.sysSigaction {sig : Int} {fn : BitVec 32} (hm : MasksOk s) (hv : ValidSig sig) :
    MasksOk (s.sysSigaction sig fn).1 := by
  obtain ⟨h1, h31⟩ := hv
  obtain ⟨n, rfl⟩ := Int.eq_ofNat_of_zero_le (Int.le_of_lt h1)
  have hn : n ≤ 31 := Int.ofNat_le.1 h31
  intro i hi
  rw [Processes.sysSigaction]
  split
  case isTrue =>
    rw [Processes.mask_store_sigfn hn hi]
    exact hm i hi
  case isFalse => exact hm i hi

/-- A step with valid arguments keeps the masks. -/
lemma MasksOk.step (hm : MasksOk s) (hv : op.Valid s) (st : SignalStep s op t) : MasksOk t := by
  cases st with
  | sysKill => exact hm.sysKill hv
  | sysSigaction => exact hm.sysSigaction hv
  | switchToTask => exact (hm.switchToTask _).1
  | other _ hbits =>
    intro i hi
    by_contra hbit
    have hs := hbits i hi (Bool.eq_true_of_not_eq_false hbit)
    rw [hm i hi] at hs
    exact Bool.false_ne_true hs

end Masks

/-! ## Validation -/

section Validation

variable {s : Processes}

/-- A kill is validated when its arguments are valid, and only then. -/
lemma sysKill_validated {pid sig : Int} :
    Validated s (.sysKill pid sig) ↔ (SignalOp.sysKill pid sig).Valid s := by
  rw [Validated, SignalOp.Valid, Processes.sysKill]
  split
  case isTrue hlive =>
    constructor
    · rintro ⟨hin, hrefuse⟩
      have hpid : ValidPid pid := hin (.pList pid) List.mem_cons_self
      refine ⟨hpid, .inr ?_⟩
      by_contra hsig
      have hret : (0 : Int) = -1 := (hrefuse fun h => hsig h.2).2
      exact absurd hret (by decide)
    · rintro ⟨hpid, hdead | hsig⟩
      · exact absurd hlive (Int.not_lt.2 hdead)
      · have hshift : (Access.shift (sig - 1)).InBounds :=
          ⟨Int.sub_nonneg.2 hsig.1, (Int.sub_le_self sig (by decide)).trans hsig.2⟩
        exact ⟨List.forall_mem_cons.2 ⟨hpid, List.forall_mem_cons.2 ⟨hpid, List.forall_mem_cons.2
          ⟨hshift, List.forall_mem_nil _⟩⟩⟩, fun h => absurd ⟨hpid, hsig⟩ h⟩
  case isFalse hdead =>
    constructor
    · rintro ⟨hin, -⟩
      exact ⟨hin (.pList pid) List.mem_cons_self, .inl (Int.not_lt.1 hdead)⟩
    · rintro ⟨hpid, -⟩
      exact ⟨List.forall_mem_cons.2 ⟨hpid, List.forall_mem_nil _⟩, fun _ => ⟨rfl, rfl⟩⟩

/-- Setting a handler is validated when the signal is valid, and only then: the call always returns 0. -/
lemma sysSigaction_validated {sig : Int} {fn : BitVec 32} :
    Validated s (.sysSigaction sig fn) ↔ (SignalOp.sysSigaction sig fn).Valid s := by
  have hret : (s.sysSigaction sig fn).2.1 = 0 := by
    rw [Processes.sysSigaction]
    split <;> rfl
  constructor
  · rintro ⟨-, hrefuse, -⟩
    show ValidSig sig
    by_contra hsig
    have hminus := (hrefuse hsig).2
    rw [hret] at hminus
    exact absurd hminus (by decide)
  · intro hv
    have hv : ValidSig sig := hv
    obtain ⟨h1, h31⟩ := hv
    obtain ⟨n, rfl⟩ := Int.eq_ofNat_of_zero_le (Int.le_of_lt h1)
    have hn : n ≤ 31 := Int.ofNat_le.1 h31
    have e : s.sysSigaction n fn = (s.store (s.sigfnAddr n) fn, 0, [.sigfn n]) :=
      if_pos (Int.lt_of_le_of_lt h31 (by decide))
    have haddr := Processes.sigfnAddr_eq (s := s) hn
    have hbase := Processes.sigfnAddr_eq (s := s) (Nat.zero_le 31)
    rw [Validated, e]
    refine ⟨List.forall_mem_cons.2 ⟨⟨Int.le_of_lt h1, h31⟩, List.forall_mem_nil _⟩,
      fun h => absurd ⟨h1, h31⟩ h, fun x hx => ?_⟩
    show storeW s.mem (s.sigfnAddr n) fn x = s.mem x
    have hbase : s.sigfnAddr 0 = _ := hbase
    rw [hbase] at hx
    rw [haddr]
    exact storeW_other (by omega)

/-- A step is validated exactly when its arguments are valid. -/
lemma validated_iff (hm : MasksOk s) (op : SignalOp) : Validated s op ↔ op.Valid s := by
  cases op with
  | sysKill pid sig => exact sysKill_validated
  | sysSigaction sig fn => exact sysSigaction_validated
  | switchToTask n => exact iff_of_true (hm.switchToTask n).2 trivial
  | other => exact Iff.rfl

end Validation

/-- The accesses of a sequence of calls and dispatches stay in bounds, and bad numbers are refused, exactly
when every call has valid arguments. -/
theorem argument_validation {s : Processes} (hm : MasksOk s) (ops : List SignalOp) :
    AllValidated ops s ↔ AllValid ops s := by
  induction ops generalizing s with
  | nil => exact Iff.rfl
  | cons op ops ih =>
    rw [AllValidated, AllValid, validated_iff hm]
    exact and_congr_right fun hv => forall₂_congr fun t st => ih (hm.step hv st)

/-- `p_list` as it is at boot. -/
def bootProcesses : Processes where
  pList := 1048576
  mem _ := 0
  current := 0
  room := by decide
  current_le := by decide

lemma masksOk_boot : MasksOk bootProcesses := by
  intro i _
  have hzero : load32 bootProcesses.mem (bootProcesses.addr i Field.signal.offset) = 0 := rfl
  rw [Processes.mask, loadW, hzero]
  decide

/-- A process that sets a handler and kills itself with its signal. -/
theorem argument_validation_handler :
    AllValidated [.switchToTask 1, .sysSigaction SIGINT 0x40000000, .other, .sysKill 1 SIGINT,
      .switchToTask 1] bootProcesses :=
  (argument_validation masksOk_boot _).2
    ⟨trivial, fun _ _ => ⟨(by decide : ValidSig SIGINT), fun _ _ => ⟨trivial, fun _ _ =>
      ⟨⟨by decide, .inr (by decide)⟩, fun _ _ => ⟨trivial, fun _ _ => trivial⟩⟩⟩⟩⟩

/-- A handler for the signal -1 is stored in the mask of the process. -/
theorem negative_signal_accepted :
    ¬ AllValidated [.switchToTask 1, .sysSigaction (-1) 0x40000000] bootProcesses := by
  intro h
  obtain ⟨hin, -⟩ := (h.2 _ .switchToTask).1
  exact absurd (hin (.sigfn (-1)) (by
    rw [Processes.sysSigaction, if_pos (by decide)]
    exact List.mem_cons_self)).1 (by decide)

end Creeks
