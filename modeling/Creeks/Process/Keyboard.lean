import Creeks.Process.Editing

/-!
# The keyboard

`isr_kbd_int` turns the codes of the keyboard into characters of `kbdmap`. It keeps a flag for each shift
key; what a user does is press and release keys, and which of them are down is the abstract state.
`typed_keys_reach_reader` composes the driver with the consoles: what a reader copies is the line that the
keys spell, each with the shift keys that were down when it was pressed, edited by the backspace.
`kbd_reads_inside_iff` says for which keys the driver stays inside its table.
-/

namespace Creeks
open Lib

/-- Four characters for each code from 1 on. The driver uses the first two. -/
def kbdmap : List UInt8 := [
  0x1B, 0x1B, 0x1B, 0x1B,  0x26, 0x31, 0xFF, 0xFF,  0x65, 0x32, 0x7E, 0xFF,  0x22, 0x33, 0x23, 0xFF,
  0x27, 0x34, 0x7B, 0xFF,  0x28, 0x35, 0x5B, 0xFF,  0x2D, 0x36, 0x7C, 0xFF,  0x65, 0x37, 0x60, 0xFF,
  0x5F, 0x38, 0x5C, 0xFF,  0x63, 0x39, 0x5E, 0xFF,  0x61, 0x30, 0x40, 0xFF,  0x29, 0x20, 0x5D, 0xFF,
  0x3D, 0x2B, 0x7D, 0xFF,  0x08, 0x08, 0x7F, 0x08,  0x09, 0x09, 0x09, 0x09,  0x61, 0x41, 0x71, 0x71,
  0x7A, 0x5A, 0x77, 0x77,  0x65, 0x45, 0x65, 0x65,  0x72, 0x52, 0x72, 0x72,  0x74, 0x54, 0x74, 0x74,
  0x79, 0x59, 0x79, 0x79,  0x75, 0x55, 0x75, 0x75,  0x69, 0x49, 0x69, 0x69,  0x6F, 0x4F, 0x6F, 0x6F,
  0x70, 0x50, 0x70, 0x70,  0x5E, 0x20, 0xFF, 0xFF,  0x24, 0x20, 0xFF, 0xFF,  0x0A, 0x0A, 0x0A, 0x0A,
  0xFF, 0xFF, 0xFF, 0xFF,  0x71, 0x51, 0x61, 0x61,  0x73, 0x53, 0x73, 0x73,  0x64, 0x44, 0x64, 0x64,
  0x66, 0x46, 0x66, 0x66,  0x67, 0x47, 0x67, 0x67,  0x68, 0x48, 0x68, 0x68,  0x6A, 0x4A, 0x6A, 0x6A,
  0x6B, 0x4B, 0x6B, 0x6B,  0x6C, 0x4C, 0x6C, 0x6C,  0x6D, 0x4D, 0x6D, 0x6D,  0x75, 0x25, 0xFF, 0xFF,
  0x2A, 0x75, 0xFF, 0xFF,  0xFF, 0xFF, 0xFF, 0xFF,  0x2A, 0x75, 0xFF, 0xFF,  0x77, 0x57, 0x77, 0x77,
  0x78, 0x58, 0x78, 0x78,  0x63, 0x43, 0x63, 0x63,  0x76, 0x56, 0x76, 0x76,  0x62, 0x42, 0x62, 0x62,
  0x6E, 0x4E, 0x6E, 0x6E,  0x2C, 0x3F, 0xFF, 0xFF,  0x3B, 0x2E, 0xFF, 0xFF,  0x3A, 0x2F, 0xFF, 0xFF,
  0x21, 0x20, 0xFF, 0xFF,  0xFF, 0xFF, 0xFF, 0xFF,  0xFF, 0xFF, 0xFF, 0xFF,  0xFF, 0xFF, 0xFF, 0xFF,
  0x20, 0x20, 0x20, 0x20,  0xFF, 0xFF, 0xFF, 0xFF,  0xFF, 0xFF, 0xFF, 0xFF,  0xFF, 0xFF, 0xFF, 0xFF,
  0xFF, 0xFF, 0xFF, 0xFF,  0xFF, 0xFF, 0xFF, 0xFF,  0xFF, 0xFF, 0xFF, 0xFF,  0xFF, 0xFF, 0xFF, 0xFF,
  0xFF, 0xFF, 0xFF, 0xFF,  0xFF, 0xFF, 0xFF, 0xFF,  0xFF, 0xFF, 0xFF, 0xFF,  0xFF, 0xFF, 0xFF, 0xFF,
  0xFF, 0xFF, 0xFF, 0xFF,  0xFF, 0xFF, 0xFF, 0xFF,  0xFF, 0xFF, 0xFF, 0xFF,  0xFF, 0xFF, 0xFF, 0xFF,
  0xFF, 0xFF, 0xFF, 0xFF,  0xFF, 0xFF, 0xFF, 0xFF,  0xFF, 0xFF, 0xFF, 0xFF,  0xFF, 0xFF, 0xFF, 0xFF,
  0xFF, 0xFF, 0xFF, 0xFF,  0xFF, 0xFF, 0xFF, 0xFF,  0xFF, 0xFF, 0xFF, 0xFF,  0xFF, 0xFF, 0xFF, 0xFF,
  0xFF, 0xFF, 0xFF, 0xFF,  0xFF, 0xFF, 0xFF, 0xFF,  0xFF, 0xFF, 0xFF, 0xFF,  0xFF, 0xFF, 0xFF, 0xFF,
  0xFF, 0xFF, 0xFF, 0xFF,  0x3C, 0x3E, 0xFF, 0xFF,  0xFF, 0xFF, 0xFF, 0xFF,  0xFF, 0xFF, 0xFF, 0xFF,
  0xFF, 0xFF, 0xFF, 0xFF,  0xFF, 0xFF, 0xFF, 0xFF,  0xFF, 0xFF, 0xFF, 0xFF,  0xFF, 0xFF, 0xFF, 0xFF,
  0xFF, 0xFF, 0xFF, 0xFF,  0xFF, 0xFF, 0xFF, 0xFF,  0xFF, 0xFF, 0xFF, 0xFF,  0xFF, 0xFF, 0xFF, 0xFF,
  0xFF, 0xFF, 0xFF, 0xFF]

/-- The flags `lshift_enable` and `rshift_enable`. -/
structure Keyboard where
  lshift : Nat
  rshift : Nat
  deriving DecidableEq

/-- The loop over port 0x64: the values left behind the first that says a code is there. -/
def kbdReady : List UInt8 → Option (List UInt8)
  | [] => none
  | i :: status => if i &&& 1 = 0 then kbdReady status else some status

/-- `isr_kbd_int` for a code from port 0x60: the flags, and the index in `kbdmap` of the character it
passes to `putc_console`. -/
def isrKbdInt (k : Keyboard) (data : UInt8) : Keyboard × Option Nat :=
  let i := data - 1
  if i < 0x80 then
    if i = 0x29 then ({ k with lshift := 1 }, none)
    else if i = 0x35 then ({ k with rshift := 1 }, none)
    else if i = 0x1C then (k, none)             -- ctrl
    else if i = 0x37 then (k, none)             -- alt
    else (k, some (i.toNat * 4 + if k.lshift ≠ 0 ∨ k.rshift ≠ 0 then 1 else 0))
  else
    let i := i - 0x80
    if i = 0x29 then ({ k with lshift := 0 }, none)
    else if i = 0x35 then ({ k with rshift := 0 }, none)
    else (k, none)

/-- A byte of `kbdmap`, or of what is stored behind it. -/
def kbdChar (beyond : Nat → UInt8) (i : Nat) : UInt8 := kbdmap[i]?.getD (beyond i)

/-! ## Keys -/

/-- What a user does. -/
inductive KeyEvent where
  | press (key : UInt8)
  | release (key : UInt8)
  deriving DecidableEq

namespace KeyEvent

def key : KeyEvent → UInt8
  | press k | release k => k

/-- The code the keyboard sends. -/
def code : KeyEvent → UInt8
  | press k => k
  | release k => k + 0x80

/-- The keys a code can name. -/
def Valid (e : KeyEvent) : Prop := 1 ≤ e.key.toNat ∧ e.key.toNat ≤ 128

instance (e : KeyEvent) : Decidable e.Valid := inferInstanceAs (Decidable (_ ∧ _))

/-- The keys that are down afterwards. -/
def after (down : UInt8 → Bool) : KeyEvent → UInt8 → Bool
  | press k => Function.update down k true
  | release k => Function.update down k false

end KeyEvent

/-- The two shift keys. -/
def LSHIFT : UInt8 := 0x2A
def RSHIFT : UInt8 := 0x36

/-- A key without a character: the shift keys, ctrl and alt. -/
def Modifier (k : UInt8) : Prop := k = LSHIFT ∨ k = RSHIFT ∨ k = 0x1D ∨ k = 0x38

instance (k : UInt8) : Decidable (Modifier k) := inferInstanceAs (Decidable (_ ∨ _))

/-- Where the character of a key stands, with or without shift. -/
def symbol (shift : Bool) (k : UInt8) : Nat := (k.toNat - 1) * 4 + if shift then 1 else 0

/-- What an event types when some keys are down. -/
def typed (down : UInt8 → Bool) : KeyEvent → Option Nat
  | .press k => if Modifier k then none else some (symbol (down LSHIFT || down RSHIFT) k)
  | .release _ => none

/-- The flags say which shift keys are down. -/
structure Keyboard.Follows (k : Keyboard) (down : UInt8 → Bool) : Prop where
  lshift : k.lshift ≠ 0 ↔ down LSHIFT
  rshift : k.rshift ≠ 0 ↔ down RSHIFT

section

variable {k : Keyboard} {down : UInt8 → Bool} {e : KeyEvent} {key : UInt8} {es : List KeyEvent}

lemma toNat_pred (h : 1 ≤ key.toNat) : (key - 1).toNat = key.toNat - 1 := by
  have := key.toNat_lt
  rw [UInt8.toNat_sub]
  change (256 - 1 + key.toNat) % 256 = _
  omega

/-- The cases of the driver are the codes of the keys less one. -/
lemma pred_ne {c : UInt8} (h : key ≠ c + 1) : key - 1 ≠ c := fun e => h (by rw [← e, UInt8.sub_add_cancel])

/-- The code of a release, less one and less 0x80. -/
lemma release_code (h1 : 1 ≤ key.toNat) (h2 : key.toNat ≤ 128) :
    ¬ key + 0x80 - 1 < 0x80 ∧ key + 0x80 - 1 - 0x80 = key - 1 := by
  have hcode : key + 0x80 - 1 = key - 1 + 0x80 := by
    rw [UInt8.sub_eq_add_neg, UInt8.sub_eq_add_neg, UInt8.add_assoc, UInt8.add_comm 0x80, ← UInt8.add_assoc]
  have hi := toNat_pred h1
  rw [hcode]
  refine ⟨?_, UInt8.add_sub_cancel ..⟩
  rw [UInt8.lt_iff_toNat_lt, UInt8.toNat_add, hi]
  change ¬ (key.toNat - 1 + 128) % 256 < 128
  omega

namespace Keyboard.Follows

/-- At boot no key is down. -/
lemma idle : Keyboard.Follows ⟨0, 0⟩ fun _ => false := ⟨by decide, by decide⟩

/-- The flags stay as they are when an event is about another key. -/
lemma other (h : k.Follows down) (hl : key ≠ LSHIFT) (hr : key ≠ RSHIFT) (b : Bool) :
    k.Follows (Function.update down key b) := by
  refine ⟨h.lshift.trans ?_, h.rshift.trans ?_⟩
  · rw [Function.update_of_ne (Ne.symm hl)]
  · rw [Function.update_of_ne (Ne.symm hr)]

/-- A press or a release of the left shift key. -/
lemma left (h : k.Follows down) (b : Bool) :
    Follows { k with lshift := if b then 1 else 0 } (Function.update down LSHIFT b) := by
  refine ⟨?_, h.rshift.trans ?_⟩
  · rw [Function.update_self]
    cases b <;> simp
  · rw [Function.update_of_ne (by decide)]

/-- A press or a release of the right shift key. -/
lemma right (h : k.Follows down) (b : Bool) :
    Follows { k with rshift := if b then 1 else 0 } (Function.update down RSHIFT b) := by
  refine ⟨h.lshift.trans ?_, ?_⟩
  · rw [Function.update_of_ne (by decide)]
  · rw [Function.update_self]
    cases b <;> simp

/-- A key that is pressed types its character with the shift keys that are down. -/
lemma press (h : k.Follows down) (hv : (KeyEvent.press key).Valid) :
    (isrKbdInt k key).1.Follows ((KeyEvent.press key).after down) ∧
      (isrKbdInt k key).2 = typed down (.press key) := by
  by_cases hl : key = LSHIFT
  · subst hl
    exact ⟨h.left true, rfl⟩
  by_cases hr : key = RSHIFT
  · subst hr
    exact ⟨h.right true, rfl⟩
  by_cases hctrl : key = 0x1D
  · subst hctrl
    exact ⟨h.other hl hr true, rfl⟩
  by_cases halt : key = 0x38
  · subst halt
    exact ⟨h.other hl hr true, rfl⟩
  have h1 : 1 ≤ key.toNat := hv.1
  have h2 : key.toNat ≤ 128 := hv.2
  have hi := toNat_pred h1
  have hlow : key - 1 < 0x80 := by
    rw [UInt8.lt_iff_toNat_lt, hi]
    change key.toNat - 1 < 128
    omega
  have hmod : ¬ Modifier key := not_or.2 ⟨hl, not_or.2 ⟨hr, not_or.2 ⟨hctrl, halt⟩⟩⟩
  have hshift : (k.lshift ≠ 0 ∨ k.rshift ≠ 0) ↔ (down LSHIFT || down RSHIFT) = true := by
    rw [h.lshift, h.rshift, Bool.or_eq_true]
  have hdriver : isrKbdInt k key =
      (k, some ((key - 1).toNat * 4 + if k.lshift ≠ 0 ∨ k.rshift ≠ 0 then 1 else 0)) := by
    unfold isrKbdInt
    dsimp only
    rw [if_pos hlow, if_neg (pred_ne hl), if_neg (pred_ne hr), if_neg (pred_ne hctrl), if_neg (pred_ne halt)]
  rw [hdriver]
  refine ⟨h.other hl hr true, ?_⟩
  have htyped : typed down (.press key) = some (symbol (down LSHIFT || down RSHIFT) key) := if_neg hmod
  rw [htyped, hi, if_congr hshift rfl rfl]
  rfl

/-- A key that is released types nothing. -/
lemma release (h : k.Follows down) (hv : (KeyEvent.release key).Valid) :
    (isrKbdInt k (key + 0x80)).1.Follows ((KeyEvent.release key).after down) ∧
      (isrKbdInt k (key + 0x80)).2 = none := by
  by_cases hl : key = LSHIFT
  · subst hl
    exact ⟨h.left false, rfl⟩
  by_cases hr : key = RSHIFT
  · subst hr
    exact ⟨h.right false, rfl⟩
  have h1 : 1 ≤ key.toNat := hv.1
  have h2 : key.toNat ≤ 128 := hv.2
  obtain ⟨hhigh, hcode⟩ := release_code h1 h2
  have hdriver : isrKbdInt k (key + 0x80) = (k, none) := by
    unfold isrKbdInt
    dsimp only
    rw [if_neg hhigh, hcode, if_neg (pred_ne hl), if_neg (pred_ne hr)]
  rw [hdriver]
  exact ⟨h.other hl hr false, rfl⟩

/-- The driver follows what the user does. -/
lemma event (h : k.Follows down) (hv : e.Valid) :
    (isrKbdInt k e.code).1.Follows (e.after down) ∧ (isrKbdInt k e.code).2 = typed down e := by
  cases e with
  | press key => exact h.press hv
  | release key => exact h.release hv

end Keyboard.Follows

end

/-! ## Reads of the table -/

/-- The indexes the driver reads for a sequence of events. -/
def kbdReads (k : Keyboard) : List KeyEvent → List Nat
  | [] => []
  | e :: es => (isrKbdInt k e.code).2.toList ++ kbdReads (isrKbdInt k e.code).1 es

set_option maxRecDepth 2000 in
lemma kbdmap_length : kbdmap.length = 388 := rfl

/-- The character of a key is in the table exactly up to the key 0x61. -/
lemma symbol_lt_iff (shift : Bool) {key : UInt8} (h : 1 ≤ key.toNat) :
    symbol shift key < kbdmap.length ↔ key.toNat ≤ 0x61 := by
  rw [kbdmap_length]
  unfold symbol
  cases shift
  · rw [if_neg Bool.false_ne_true]
    omega
  · rw [if_pos rfl]
    omega

/-- The modifiers have a row in the table, though no character of it is used. -/
lemma Modifier.le {key : UInt8} (h : Modifier key) : key.toNat ≤ 0x61 := by
  rcases h with rfl | rfl | rfl | rfl <;> decide

/-- An event reads inside the table unless it presses a key above 0x61. -/
lemma typed_inside {down : UInt8 → Bool} {e : KeyEvent} (h : e.Valid) :
    (∀ i ∈ (typed down e).toList, i < kbdmap.length) ↔ ∀ key, e = .press key → key.toNat ≤ 0x61 := by
  cases e with
  | press key =>
    by_cases hmod : Modifier key
    · have htyped : typed down (.press key) = none := if_pos hmod
      rw [htyped]
      refine ⟨fun _ k e => ?_, fun _ => nofun⟩
      rw [← KeyEvent.press.inj e]
      exact hmod.le
    · have htyped : typed down (.press key) = some (symbol (down LSHIFT || down RSHIFT) key) := if_neg hmod
      rw [htyped, Option.toList_some]
      simp only [List.mem_singleton, forall_eq, KeyEvent.press.injEq, forall_eq']
      exact symbol_lt_iff _ h.1
  | release key => exact ⟨fun _ _ => nofun, fun _ => nofun⟩

/-- Whatever keys are pressed and released in whatever order, the driver reads its table inside exactly as
long as no key above 0x61 is pressed. -/
theorem kbd_reads_inside_iff (es : List KeyEvent) (hv : ∀ e ∈ es, e.Valid) :
    (∀ i ∈ kbdReads ⟨0, 0⟩ es, i < kbdmap.length) ↔ ∀ key, .press key ∈ es → key.toNat ≤ 0x61 := by
  have follows := Keyboard.Follows.idle
  generalize (⟨0, 0⟩ : Keyboard) = k at follows ⊢
  generalize (fun _ => false : UInt8 → Bool) = down at follows
  induction es generalizing k down with
  | nil => simp [kbdReads]
  | cons e es ih =>
    obtain ⟨follows', htyped⟩ := follows.event (hv e (List.mem_cons_self ..))
    have hrest := ih (fun e he => hv e (List.mem_cons_of_mem _ he)) _ _ follows'
    have hfirst : (∀ i ∈ (typed down e).toList, i < kbdmap.length) ↔ _ :=
      typed_inside (hv e (List.mem_cons_self ..))
    unfold kbdReads
    rw [htyped, List.forall_mem_append]
    refine (and_congr hfirst hrest).trans ?_
    simp only [List.mem_cons, or_imp, forall_and, eq_comm]

/-- Shift, `a` and the enter key. -/
theorem kbd_reads_inside_shift :
    (∀ i ∈ kbdReads ⟨0, 0⟩ [.press LSHIFT, .press 0x10, .release LSHIFT, .press 0x1C], i < kbdmap.length) ↔
      ∀ key, KeyEvent.press key ∈ [.press LSHIFT, .press 0x10, .release LSHIFT, .press 0x1C] →
        key.toNat ≤ 0x61 :=
  kbd_reads_inside_iff _ (by decide)

/-! ## From keys to lines -/

/-- An event with the values that port 0x64 takes until the interrupt reads it, or a step of the consoles. -/
inductive TypingOp where
  | event (status : List UInt8) (e : KeyEvent)
  | op (o : ConsoleOp)

/-- The consoles and the driver. -/
structure Terminal where
  consoles : Consoles
  keyboard : Keyboard

/-- The call of `putc_console` at the end of the driver. -/
def putSymbol (beyond : Nat → UInt8) (s : Consoles) : Option Nat → Consoles
  | none => s
  | some i => putcConsole s (kbdChar beyond i)

/-- A step: the interrupt of the keyboard, or anything else that the consoles do. -/
inductive TerminalStep (beyond : Nat → UInt8) : Terminal → TypingOp → Terminal → Prop where
  | event {s k status e} :
    e.Valid →
    kbdReady status ≠ none →
    TerminalStep beyond ⟨s, k⟩ (.event status e)
      ⟨putSymbol beyond s (isrKbdInt k e.code).2, (isrKbdInt k e.code).1⟩
  | op {s k o s'} :
    (∀ c, o ≠ .key c) →
    ConsoleStep s o s' →
    TerminalStep beyond ⟨s, k⟩ (.op o) ⟨s', k⟩

/-- What a user has typed, and which keys are down. -/
structure Typist where
  typing : Typing
  down : UInt8 → Bool

/-- A character of the table is typed. -/
def typeSymbol (beyond : Nat → UInt8) (s : Consoles) (x : Typing) : Option Nat → Typing
  | none => x
  | some i => noteKey s x (.key (kbdChar beyond i))

/-- An event types the character of its key, as the keys that are down make it. -/
def noteEvent (beyond : Nat → UInt8) (s : Consoles) (x : Typist) : TypingOp → Typist
  | .event _ e =>
    { typing := typeSymbol beyond s x.typing (typed x.down e)
      down := e.after x.down }
  | .op o => { x with typing := noteKey s x.typing o }

/-- A step with what is typed by it. -/
def TypistStep (beyond : Nat → UInt8) (y : Terminal × Typist) (op : TypingOp) (y' : Terminal × Typist) : Prop :=
  TerminalStep beyond y.1 op y'.1 ∧ y'.2 = noteEvent beyond y.1.consoles y.2 op

/-- No key is down and nothing was typed. -/
def Typist.idle : Typist := ⟨⟨fun _ => none, fun _ => none⟩, fun _ => false⟩

/-- The flags follow the keys, and the consoles hold what the keys typed. -/
structure Followed (t : Terminal) (x : Typist) : Prop where
  flags : t.keyboard.Follows x.down
  noted : Noted t.consoles x.typing

lemma Noted.symbol {s : Consoles} {x : Typing} (inv : Noted s x) (beyond : Nat → UInt8) (i : Option Nat) :
    Noted (putSymbol beyond s i) (typeSymbol beyond s x i) := by
  cases i with
  | none => exact inv
  | some i => exact inv.key (kbdChar beyond i)

lemma Followed.step {beyond : Nat → UInt8} {t t' : Terminal} {x : Typist} {op : TypingOp}
    (inv : Followed t x) (st : TerminalStep beyond t op t') :
    Followed t' (noteEvent beyond t.consoles x op) := by
  cases st with
  | @event s k status e hv =>
    obtain ⟨flags, htyped⟩ := inv.flags.event hv
    have noted := inv.noted.symbol beyond (typed x.down e)
    rw [← htyped] at noted
    refine ⟨flags, ?_⟩
    change Noted _ (typeSymbol beyond s x.typing (typed x.down e))
    rw [← htyped]
    exact noted
  | op _ st => exact ⟨inv.flags, inv.noted.step st⟩

/-- In a run from boot with the steps of every process, the clock and the keyboard in any order, a shift
flag is set exactly while its key is down, and what a reader copies is the line that the keys spelled since
the newline before it, each with the shift keys that were down when it was pressed. -/
theorem typed_keys_reach_reader (table : Nat → UInt8) (beyond : Nat → Process) (console : Nat → VConsole)
    (ls : List TypingOp) (y : Terminal × Typist)
    (run : Run (TypistStep table) (⟨bootConsoles beyond console, ⟨0, 0⟩⟩, Typist.idle) ls y) :
    y.1.keyboard.Follows y.2.down ∧ Edited y.1.consoles y.2.typing := by
  have inv := run.invariant (I := fun y => Followed y.1 y.2) (fun y op y' inv st => by
    obtain ⟨st, e⟩ := st
    rw [e]
    exact inv.step st) ⟨Keyboard.Follows.idle, Noted.boot beyond console⟩
  exact ⟨inv.flags, fun p keys _ h => (inv.noted.entered p keys h).2⟩

lemma TerminalStep.noted {table : Nat → UInt8} {t t' : Terminal} {op : TypingOp}
    (st : TerminalStep table t op t') (x : Typist) :
    TypistStep table (t, x) op (t', noteEvent table t.consoles x op) := ⟨st, rfl⟩

/-- A reader for whom shift and `a`, then `a` without shift and the enter key were pressed copies `Aa`. -/
theorem typed_keys_reach_shift :
    ∃ y, Run (TypistStep fun _ => 0) (⟨zeroConsoles, ⟨0, 0⟩⟩, Typist.idle)
        [.op (.loadTask bareElf fun _ => 97), .op .schedule, .op .call, .op .read, .op .read, .op .read,
          .event [0, 1] (.press LSHIFT), .event [1] (.press 0x10), .event [1] (.release LSHIFT),
          .event [1] (.press 0x10), .event [1] (.press 0x1C), .op .read] y ∧
      (y.1.keyboard.Follows y.2.down ∧ Edited y.1.consoles y.2.typing) ∧ y.1.consoles.pc 1 = .copy ∧
      (y.1.consoles.console 1).line = [65, 97, 10] := by
  have run : Run (TypistStep fun _ => 0) (⟨zeroConsoles, ⟨0, 0⟩⟩, Typist.idle)
      [.op (.loadTask bareElf fun _ => 97), .op .schedule, .op .call, .op .read, .op .read, .op .read,
        .event [0, 1] (.press LSHIFT), .event [1] (.press 0x10), .event [1] (.release LSHIFT),
        .event [1] (.press 0x10), .event [1] (.press 0x1C), .op .read] _ :=
    .snoc (.snoc (.snoc (.snoc (.snoc (.snoc (.snoc (.snoc (.snoc (.snoc (.snoc (.snoc .nil
      (TerminalStep.noted (.op (by rintro _ ⟨⟩) (.loadTask rfl)) _))
      (TerminalStep.noted (.op (by rintro _ ⟨⟩) (.schedule rfl)) _))
      (TerminalStep.noted (.op (by rintro _ ⟨⟩) (.call (by decide) rfl)) _))
      (TerminalStep.noted (.op (by rintro _ ⟨⟩) .read) _))
      (TerminalStep.noted (.op (by rintro _ ⟨⟩) .read) _)) (TerminalStep.noted (.op (by rintro _ ⟨⟩) .read) _))
      (TerminalStep.noted (.event (by decide) (by decide)) _))
      (TerminalStep.noted (.event (by decide) (by decide)) _))
      (TerminalStep.noted (.event (by decide) (by decide)) _))
      (TerminalStep.noted (.event (by decide) (by decide)) _))
      (TerminalStep.noted (.event (by decide) (by decide)) _))
      (TerminalStep.noted (.op (by rintro _ ⟨⟩) .read) _)
  have reached := typed_keys_reach_reader _ _ _ _ _ run
  exact ⟨_, run, reached, by decide +kernel, reached.2 1 [65, 97] (by decide +kernel) (by decide +kernel)⟩

end Creeks
