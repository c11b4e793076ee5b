import Creeks.Lib.CString
import Creeks.Process.Readers

/-!
# Line editing

`putc_console` keeps a position and overwrites the buffer in place. `line_editing` says that the line a
reader copies is what a list of characters would give, with the backspace as `dropLast`: whatever is left
in the buffer from erased characters and from earlier lines.
-/

namespace Creeks
open Lib

/-- A key on the line that is being typed. -/
def edit (typed : List UInt8) (c : UInt8) : List UInt8 :=
  if c = 8 then typed.dropLast else typed ++ [c]

/-- The characters typed and not erased. -/
def pending (keys : List UInt8) : List UInt8 := keys.foldl edit []

lemma pending_snoc (keys : List UInt8) (c : UInt8) :
    pending (keys ++ [c]) = edit (pending keys) c := by
  unfold pending
  rw [List.foldl_append]
  rfl

namespace VConsole

variable {v : VConsole} {typed : List UInt8} {c : UInt8} {i n : Nat}

/-- A console in mode 1 with the characters of a line in front of its position. -/
structure Holds (v : VConsole) (typed : List UInt8) : Prop where
  mode : v.mode = 1
  keypos : v.keypos = typed.length
  room : typed.length ≤ INBUFSIZE
  chars : ∀ i (h : i < typed.length), v i = typed[i]

lemma mode_setInb (h : i < INBUFSIZE) : (v.setInb i c).mode = v.mode :=
  load32_congr fun x hx _ => Function.update_of_ne (by omega) ..

lemma mode_setKeypos : (v.setKeypos n).mode = v.mode := load32_store32_other (by omega)

lemma mode_setInlock : (v.setInlock n).mode = v.mode := load32_store32_other (by omega)

lemma keypos_setInb (h : i < INBUFSIZE) : (v.setInb i c).keypos = v.keypos :=
  load32_congr fun x hx _ => Function.update_of_ne (by omega) ..

lemma keypos_setKeypos : (v.setKeypos n).keypos = n % 4294967296 := load32_store32 ..

lemma keypos_setInlock : (v.setInlock n).keypos = v.keypos := load32_store32_other (by omega)

/-- The fields lie behind the buffer. -/
lemma setKeypos_inb (h : i < INBUFSIZE) : v.setKeypos n i = v i := store32_other (by omega)

lemma setInlock_inb (h : i < INBUFSIZE) : v.setInlock n i = v i := store32_other (by omega)

lemma line_setInlock : (v.setInlock n).line = v.line := cString_congr fun _ h => setInlock_inb h

namespace Holds

/-- A new console holds the empty line. -/
lemma init (inb : Mem) : (VConsole.init inb).Holds [] := by
  refine ⟨load32_store32 .., ?_, by decide, nofun⟩
  change load32 (store32 (store32 _ _ 0) _ 1) _ = 0
  rw [load32_store32_other (by omega), load32_store32]

lemma setInlock (h : v.Holds typed) (n : Nat) : (v.setInlock n).Holds typed := by
  refine ⟨mode_setInlock.trans h.mode, keypos_setInlock.trans h.keypos, h.room, fun i hi => ?_⟩
  have := h.room
  rw [setInlock_inb (by omega), h.chars i hi]

/-- The backspace stores its zero behind the line that is left. -/
lemma backspace (h : v.Holds typed) (hroom : typed.length < INBUFSIZE) :
    (v.putc 8).Holds typed.dropLast := by
  unfold putc
  dsimp only
  rw [if_neg (by rw [h.mode]; decide), if_pos rfl]
  by_cases hk : v.keypos = 0
  · have hl : typed = [] := List.length_eq_zero_iff.1 (h.keypos.symm.trans hk)
    rw [if_neg (not_not.2 hk)]
    subst hl
    exact h
  · have hlen := h.keypos
    rw [if_pos hk]
    refine ⟨?_, ?_, ?_, fun i hi => ?_⟩
    · rw [mode_setInb (by omega), mode_setKeypos, h.mode]
    · have : v.keypos < 4294967296 := load32_lt ..
      rw [keypos_setInb (by omega), keypos_setKeypos, List.length_dropLast, ← hlen,
        Nat.mod_eq_of_lt (Nat.lt_of_le_of_lt (Nat.sub_le ..) this)]
    · rw [List.length_dropLast]
      omega
    · rw [List.length_dropLast] at hi
      have : v.setKeypos (v.keypos - 1) i = v i := setKeypos_inb (by omega)
      rw [List.getElem_dropLast, ← h.chars i (by omega), ← this]
      exact Function.update_of_ne (by omega) ..

/-- Any other character is stored behind the line. -/
lemma char (h : v.Holds typed) (h8 : c ≠ 8) (h10 : c ≠ 10) (hroom : typed.length < INBUFSIZE) :
    (v.putc c).Holds (typed ++ [c]) := by
  have hlen := h.keypos
  unfold putc
  dsimp only
  rw [if_neg (by rw [h.mode]; decide), if_neg h8, if_neg h10]
  refine ⟨?_, ?_, ?_, fun i hi => ?_⟩
  · rw [mode_setInb (by omega), mode_setKeypos, h.mode]
  · have hsize : INBUFSIZE < 4294967296 := by decide
    rw [keypos_setInb (by omega), keypos_setKeypos, Nat.mod_eq_of_lt (by omega), hlen,
      List.length_append, List.length_singleton]
  · rw [List.length_append, List.length_singleton]
    omega
  · rw [List.length_append, List.length_singleton] at hi
    by_cases e : i = typed.length
    · subst e
      rw [List.getElem_append_right (le_refl _), hlen]
      simp [setInb]
    · have hi : i < typed.length := by omega
      have : v.setKeypos (v.keypos + 1) i = v i := setKeypos_inb (by omega)
      rw [List.getElem_append_left hi, ← h.chars i hi, ← this]
      exact Function.update_of_ne (by omega) ..

/-- Every key but the newline edits the line. -/
lemma key (h : v.Holds typed) (h10 : c ≠ 10) (hroom : typed.length < INBUFSIZE) :
    (v.putc c).Holds (edit typed c) := by
  unfold edit
  by_cases h8 : c = 8
  · subst h8
    rw [if_pos rfl]
    exact h.backspace hroom
  · rw [if_neg h8]
    exact h.char h8 h10 hroom

/-- The newline puts itself and a zero behind the line. -/
lemma newline_inb (h : v.Holds typed) (hroom : typed.length + 1 < INBUFSIZE) :
    (∀ i (_ : i < (typed ++ [10]).length), v.putc 10 i = (typed ++ [10])[i]) ∧
      v.putc 10 (typed ++ [10]).length = 0 := by
  have hlen := h.keypos
  unfold putc
  rw [if_neg (by rw [h.mode]; decide), if_neg (by decide), if_pos rfl]
  constructor
  · intro i hi
    rw [List.length_append, List.length_singleton] at hi
    rw [setKeypos_inb (by omega), setInlock_inb (by omega)]
    unfold setInb
    rw [Function.update_of_ne (by omega)]
    by_cases e : i = typed.length
    · subst e
      rw [List.getElem_append_right (le_refl _), hlen]
      simp
    · have hi : i < typed.length := by omega
      rw [Function.update_of_ne (by omega), setKeypos_inb (by omega), List.getElem_append_left hi,
        h.chars i hi]
  · rw [List.length_append, List.length_singleton, setKeypos_inb (by omega),
      setInlock_inb (by omega), hlen]
    exact Function.update_self ..

/-- The newline ends the string, and the next line starts with none of it. -/
lemma newline (h : v.Holds typed) (hroom : typed.length + 1 < INBUFSIZE) :
    (v.putc 10).line = (typed ++ [10]).takeWhile (· ≠ 0) ∧ (v.putc 10).Holds [] := by
  obtain ⟨hc, hz⟩ := h.newline_inb hroom
  refine ⟨cString_eq (by simpa using hroom) (fun i hi => ?_) hz, ?_⟩
  · rw [Nat.zero_add]
    exact hc i hi
  have hlen := h.keypos
  unfold putc
  dsimp only
  rw [if_neg (by rw [h.mode]; decide), if_neg (by decide), if_pos rfl]
  refine ⟨?_, ?_, by decide, nofun⟩
  · rw [mode_setKeypos, mode_setInlock, mode_setInb (by omega), mode_setInb (by omega),
      mode_setKeypos, h.mode]
  · rw [keypos_setKeypos]
    rfl

/-- A line without a zero is copied whole. -/
lemma newline_whole (h : v.Holds typed) (hroom : typed.length + 1 < INBUFSIZE)
    (h0 : (0 : UInt8) ∉ typed) : (v.putc 10).line = typed ++ [10] := by
  rw [(h.newline hroom).1]
  refine takeWhile_text ?_
  rw [List.mem_append, List.mem_singleton]
  exact not_or.2 ⟨h0, by decide⟩

end Holds

/-- The characters of a line that fits and has no zero. -/
def Plain (typed : List UInt8) : Prop := typed.length + 2 ≤ INBUFSIZE ∧ (0 : UInt8) ∉ typed

lemma Plain.edit (h : Plain typed) (h0 : c ≠ 0) (hroom : (edit typed c).length + 2 ≤ INBUFSIZE) :
    Plain (edit typed c) := by
  refine ⟨hroom, ?_⟩
  unfold Creeks.edit
  split
  · exact fun hm => h.2 (List.mem_of_mem_dropLast hm)
  · rw [List.mem_append, List.mem_singleton]
    exact not_or.2 ⟨h.2, h0.symm⟩

/-- A whole line, from any console in mode 1 at position 0. -/
lemma typed_line {keys : List UInt8} (hm : v.mode = 1) (hk : v.keypos = 0)
    (hkeys : ∀ c ∈ keys, c ≠ 0 ∧ c ≠ 10)
    (hroom : ∀ ks, ks <+: keys → (pending ks).length + 2 ≤ INBUFSIZE) :
    (keys.foldl putc v).Holds (pending keys) ∧ Plain (pending keys) := by
  induction keys using List.reverseRecOn with
  | nil => exact ⟨⟨hm, hk, by decide, nofun⟩, hroom [] (List.prefix_refl _), nofun⟩
  | append_singleton keys c ih =>
    have hc := hkeys c (by simp)
    obtain ⟨holds, plain⟩ := ih (fun c h => hkeys c (List.mem_append_left _ h)) fun ks h =>
      hroom ks (h.trans (List.prefix_append ..))
    have hfit := hroom _ (List.prefix_refl _)
    have := plain.1
    rw [pending_snoc] at hfit ⊢
    rw [List.foldl_append]
    exact ⟨holds.key hc.2 (by omega), plain.edit hc.1 hfit⟩

end VConsole

/-! ## Keys over a run -/

/-- What was typed on the console of each process since its last newline, and the whole line for a process
that has been given one. There is none once a key was zero, the line did not fit or the mode was not 1. -/
structure Typing where
  since : Nat → Option (List UInt8)
  entered : Nat → Option (List UInt8)

/-- The keys with one more. -/
def noteChar (keys : List UInt8) (c : UInt8) : Option (List UInt8) :=
  if c = 0 ∨ INBUFSIZE - 2 < (pending (keys ++ [c])).length then none else some (keys ++ [c])

/-- A key is noted for the reader. The newline enters the line, a reader that stores itself in the
terminal has none, and a new process has a new console. -/
def noteKey (s : Consoles) (x : Typing) : ConsoleOp → Typing
  | .key c =>
    match s.pread with
    | none => x
    | some p =>
      if s.state p < 1 then x
      else if c = 10 then
        ⟨Function.update x.since p (if ((s.console p).putc c).mode = 1 then some [] else none),
          Function.update x.entered p (x.since p)⟩
      else { x with since := Function.update x.since p ((x.since p).bind fun ks => noteChar ks c) }
  | .read =>
    if s.pc s.table.current = .setPread then
      { x with entered := Function.update x.entered s.table.current none }
    else x
  | .loadTask file _ =>
    let p := (loadTask s.table file).2
    if p = 0 then x
    else ⟨Function.update x.since p (some []), Function.update x.entered p none⟩
  | _ => x

/-- A step with the keys it notes. -/
def TypedStep (y : Consoles × Typing) (op : ConsoleOp) (y' : Consoles × Typing) : Prop :=
  ConsoleStep y.1 op y'.1 ∧ y'.2 = noteKey y.1 y.2 op

lemma ConsoleStep.typed {s s' : Consoles} {op : ConsoleOp} (st : ConsoleStep s op s') (x : Typing) :
    TypedStep (s, x) op (s', noteKey s x op) := ⟨st, rfl⟩

/-- What a process is about to copy is the line that was typed. -/
def Edited (s : Consoles) (x : Typing) : Prop :=
  ∀ p keys, s.pc p = .copy → x.entered p = some keys →
    (s.console p).line = pending keys ++ [10]

/-- The console of each process holds what was typed on it, and a line that was entered waits in a console
no key goes to. -/
structure Noted (s : Consoles) (x : Typing) : Prop where
  since : ∀ p keys, x.since p = some keys →
    (s.console p).Holds (pending keys) ∧ VConsole.Plain (pending keys)
  entered : ∀ p keys, x.entered p = some keys →
    s.pread ≠ some p ∧ (s.console p).line = pending keys ++ [10]

namespace Noted

variable {s s' : Consoles} {x : Typing} {op : ConsoleOp} {p : Nat}

lemma boot (beyond : Nat → Process) (console : Nat → VConsole) :
    Noted (bootConsoles beyond console) ⟨fun _ => none, fun _ => none⟩ := ⟨nofun, nofun⟩

/-- A newline that leaves the console in mode 1 leaves it at position 0. -/
lemma fresh {v : VConsole} (hm : (v.putc 10).mode = 1) : (v.putc 10).Holds [] := by
  refine ⟨hm, ?_, by decide, nofun⟩
  by_cases h : v.mode = 0
  · unfold VConsole.putc at hm
    dsimp only at hm
    rw [if_pos h, VConsole.mode_setInlock, VConsole.mode_setInb (by decide), h] at hm
    cases hm
  · unfold VConsole.putc
    dsimp only
    rw [if_neg h, if_neg (by decide), if_pos rfl, VConsole.keypos_setKeypos]
    rfl

/-- A step that leaves the consoles and what is noted alone, and gives nobody the terminal. -/
lemma congr (inv : Noted s x) (hc : s'.console = s.console) (hp : s'.pread = s.pread) : Noted s' x := by
  refine ⟨fun p keys h => ?_, fun p keys h => ?_⟩
  · rw [hc]
    exact inv.since p keys h
  · rw [hc, hp]
    exact inv.entered p keys h

/-- A character that is noted edits the line. -/
lemma char {v : VConsole} {c : UInt8} {keys : List UInt8} (hc : c ≠ 10)
    (h : ∀ ks, x.since p = some ks → v.Holds (pending ks) ∧ VConsole.Plain (pending ks))
    (hn : (x.since p).bind (fun ks => noteChar ks c) = some keys) :
    (v.putc c).Holds (pending keys) ∧ VConsole.Plain (pending keys) := by
  obtain ⟨ks, hks, hn⟩ := Option.bind_eq_some_iff.1 hn
  unfold noteChar at hn
  split at hn
  · cases hn
  · rename_i hfit
    cases hn
    obtain ⟨h0, hfit⟩ := not_or.1 hfit
    obtain ⟨holds, plain⟩ := h ks hks
    have := plain.1
    rw [pending_snoc] at hfit ⊢
    exact ⟨holds.key hc (by omega), plain.edit h0 (by omega)⟩

/-- A key for a live reader. -/
lemma key_reader (inv : Noted s x) (c : UInt8) (hp : s.pread = some p) (hs : 0 < s.state p) :
    Noted (putcConsole s c) (noteKey s x (.key c)) := by
  obtain ⟨h1, h2⟩ := putcConsole_owner c hp hs
  have hother : ∀ q, q ≠ p → (putcConsole s c).console q = s.console q := fun q hq =>
    putcConsole_other c fun h => hq (Option.some.inj (h.symm.trans hp))
  have hfree : ∀ q, q ≠ p → (putcConsole s c).pread ≠ some q := fun q hq h => by
    rw [h2] at h
    split at h
    · cases h
    · exact hq (Option.some.inj h).symm
  have hnote : noteKey s x (.key c) =
      if c = 10 then
        ⟨Function.update x.since p (if ((s.console p).putc c).mode = 1 then some [] else none),
          Function.update x.entered p (x.since p)⟩
      else { x with since := Function.update x.since p ((x.since p).bind fun ks => noteChar ks c) } := by
    unfold noteKey
    rw [hp]
    exact if_neg (by omega)
  rw [hnote]
  by_cases hc : c = 10
  · subst hc
    rw [if_pos rfl]
    refine ⟨fun q keys h => ?_, fun q keys h => ?_⟩
    · by_cases e : q = p
      · subst e
        dsimp only at h
        rw [Function.update_self] at h
        split at h
        · rename_i hm
          cases h
          rw [h1]
          exact ⟨fresh hm, by decide, List.not_mem_nil⟩
        · cases h
      · dsimp only at h
        rw [Function.update_of_ne e] at h
        rw [hother q e]
        exact inv.since q keys h
    · by_cases e : q = p
      · subst e
        dsimp only at h
        rw [Function.update_self] at h
        rw [h1, h2, if_pos (by simp [VConsole.Ends])]
        obtain ⟨holds, hroom, h0⟩ := inv.since q keys h
        exact ⟨fun e => (Option.some_ne_none _ e.symm).elim, holds.newline_whole (by omega) h0⟩
      · dsimp only at h
        rw [Function.update_of_ne e] at h
        rw [hother q e]
        exact ⟨hfree q e, (inv.entered q keys h).2⟩
  · rw [if_neg hc]
    refine ⟨fun q keys h => ?_, fun q keys h => ?_⟩
    · by_cases e : q = p
      · subst e
        dsimp only at h
        rw [Function.update_self] at h
        rw [h1]
        exact char hc (inv.since q) h
      · dsimp only at h
        rw [Function.update_of_ne e] at h
        rw [hother q e]
        exact inv.since q keys h
    · have e : q ≠ p := by
        rintro rfl
        exact (inv.entered q keys h).1 hp
      rw [hother q e]
      exact ⟨hfree q e, (inv.entered q keys h).2⟩

/-- Any key. -/
lemma key (inv : Noted s x) (c : UInt8) : Noted (putcConsole s c) (noteKey s x (.key c)) := by
  cases hp : s.pread with
  | none =>
    have h1 : putcConsole s c = s := by
      unfold putcConsole
      rw [hp]
    have h2 : noteKey s x (.key c) = x := by
      unfold noteKey
      rw [hp]
    rw [h1, h2]
    exact inv
  | some p =>
    by_cases hs : s.state p < 1
    · have h1 : putcConsole s c = s := by
        unfold putcConsole
        rw [hp]
        exact if_pos hs
      have h2 : noteKey s x (.key c) = x := by
        unfold noteKey
        rw [hp]
        exact if_pos hs
      rw [h1, h2]
      exact inv
    · exact inv.key_reader c hp (by omega)

/-- A step of the call: the store of `inlock` is behind the buffer. -/
lemma read (inv : Noted s x) : Noted (sysConsoleRead s) (noteKey s x .read) := by
  have hkeep : s.pc s.table.current ≠ .setPread → noteKey s x .read = x := fun h => if_neg h
  rcases sysConsoleRead_cases s with ⟨e, h⟩ | ⟨hpc, -, e⟩ | ⟨hpc, e⟩ | ⟨hpc, e⟩ | ⟨hpc, -, e⟩ | ⟨hpc, e⟩
  · have hne : s.pc s.table.current ≠ .setPread := by
      rcases h with h | ⟨h, -⟩ | ⟨h, -⟩ <;> rw [h] <;> decide
    rw [e, hkeep hne]
    exact inv
  · rw [e, hkeep (by rw [hpc]; decide)]
    exact inv.congr rfl rfl
  · have hn : noteKey s x .read =
        { x with entered := Function.update x.entered s.table.current none } := if_pos hpc
    rw [e, hn]
    refine ⟨inv.since, fun q keys h => ?_⟩
    by_cases e : q = s.table.current
    · dsimp only at h
      rw [e, Function.update_self] at h
      cases h
    · dsimp only at h
      rw [Function.update_of_ne e] at h
      exact ⟨fun hq => e (Option.some.inj hq).symm, (inv.entered q keys h).2⟩
  · rw [e, hkeep (by rw [hpc]; decide)]
    have hcon : ∀ q, Function.update s.console s.table.current
        ((s.console s.table.current).setInlock 1) q = s.console q ∨
        Function.update s.console s.table.current
          ((s.console s.table.current).setInlock 1) q = (s.console q).setInlock 1 := fun q => by
      by_cases e : q = s.table.current
      · rw [e, Function.update_self]
        exact .inr rfl
      · exact .inl (Function.update_of_ne e ..)
    refine ⟨fun q keys h => ?_, fun q keys h => ⟨(inv.entered q keys h).1, ?_⟩⟩
    · change (Function.update s.console _ _ q).Holds _ ∧ _
      rcases hcon q with hq | hq <;> rw [hq]
      · exact inv.since q keys h
      · exact ⟨(inv.since q keys h).1.setInlock 1, (inv.since q keys h).2⟩
    · change (Function.update s.console _ _ q).line = _
      rcases hcon q with hq | hq <;> rw [hq]
      · exact (inv.entered q keys h).2
      · rw [VConsole.line_setInlock]
        exact (inv.entered q keys h).2
  · rw [e, hkeep (by rw [hpc]; decide)]
    exact inv.congr rfl rfl
  · rw [e, hkeep (by rw [hpc]; decide)]
    exact inv.congr rfl rfl

/-- A new process gets an empty console in mode 1. -/
lemma load (inv : Noted s x) (file inb : Mem) :
    Noted (loadConsole s file inb) (noteKey s x (.loadTask file inb)) := by
  rcases loadConsole_cases s file inb with ⟨t, h0, e, -⟩ | ⟨t, -, h0, hpid, e, -⟩
  · have hn : noteKey s x (.loadTask file inb) = x := if_pos h0
    rw [e, hn]
    exact inv.congr rfl rfl
  · have hn : noteKey s x (.loadTask file inb) =
        ⟨Function.update x.since (freeSlot s.table) (some []),
          Function.update x.entered (freeSlot s.table) none⟩ := by
      rw [← hpid]
      exact if_neg (by rwa [hpid])
    rw [e, hn]
    refine ⟨fun q keys h => ?_, fun q keys h => ?_⟩
    · by_cases e : q = freeSlot s.table
      · dsimp only at h ⊢
        rw [e, Function.update_self] at h ⊢
        cases h
        exact ⟨VConsole.Holds.init inb, by decide, nofun⟩
      · dsimp only at h ⊢
        rw [Function.update_of_ne e] at h ⊢
        exact inv.since q keys h
    · by_cases e : q = freeSlot s.table
      · dsimp only at h
        rw [e, Function.update_self] at h
        cases h
      · dsimp only at h ⊢
        rw [Function.update_of_ne e] at h ⊢
        exact inv.entered q keys h

lemma step (inv : Noted s x) (st : ConsoleStep s op s') : Noted s' (noteKey s x op) := by
  cases st with
  | call => exact inv.congr rfl rfl
  | read => exact inv.read
  | key => exact inv.key _
  | loadTask => exact inv.load ..
  | sysExit => exact inv.congr rfl rfl
  | sysWait => exact inv.congr rfl rfl
  | sysKill => exact inv.congr rfl rfl
  | schedule => exact inv.congr rfl rfl

end Noted

/-- A console in mode 1 at position 0 gives the line that was typed, whatever its buffer held, and is at
position 0 again. In a run from boot, with the steps of every process, the keys and the clock in any
order, `sys_console_read` copies the line that was typed since the newline before it. -/
theorem line_editing :
    (∀ (v : VConsole) (keys : List UInt8), v.mode = 1 → v.keypos = 0 →
      (∀ c ∈ keys, c ≠ 0 ∧ c ≠ 10) →
      (∀ ks, ks <+: keys → (pending ks).length ≤ INBUFSIZE - 2) →
      ((keys ++ [10]).foldl VConsole.putc v).line = pending keys ++ [10] ∧
        ((keys ++ [10]).foldl VConsole.putc v).mode = 1 ∧
        ((keys ++ [10]).foldl VConsole.putc v).keypos = 0) ∧
    ∀ (beyond : Nat → Process) (console : Nat → VConsole) (ls : List ConsoleOp)
      (y : Consoles × Typing),
      Run TypedStep (bootConsoles beyond console, ⟨fun _ => none, fun _ => none⟩) ls y →
        Edited y.1 y.2 := by
  refine ⟨fun v keys hm hk hkeys hroom => ?_, fun beyond console ls y run p keys _ h => ?_⟩
  · obtain ⟨holds, plain⟩ := VConsole.typed_line hm hk hkeys fun ks h => by
      have := hroom ks h
      have hsize : 2 ≤ INBUFSIZE := by decide
      omega
    have hend := holds.newline plain.1
    rw [List.foldl_append]
    exact ⟨holds.newline_whole plain.1 plain.2, hend.2.mode, hend.2.keypos⟩
  · have inv := run.invariant (I := fun y => Noted y.1 y.2) (fun y op y' inv st => by
      obtain ⟨st, e⟩ := st
      rw [e]
      exact inv.step st) (Noted.boot beyond console)
    exact (inv.entered p keys h).2

/-- A reader to whom `ab`, a backspace, `c` and the newline were typed copies `ac`. -/
theorem line_editing_reader :
    ∃ y, Run TypedStep (zeroConsoles, ⟨fun _ => none, fun _ => none⟩)
        [.loadTask bareElf fun _ => 97, .schedule, .call, .read, .read, .read, .key 97, .key 98,
          .key 8, .key 99, .key 10, .read] y ∧
      y.1.pc 1 = .copy ∧ y.2.entered 1 = some [97, 98, 8, 99] ∧
      (y.1.console 1).line = [97, 99, 10] := by
  have run : Run TypedStep (zeroConsoles, ⟨fun _ => none, fun _ => none⟩)
      [.loadTask bareElf fun _ => 97, .schedule, .call, .read, .read, .read, .key 97, .key 98,
        .key 8, .key 99, .key 10, .read] _ :=
    .snoc (.snoc (.snoc (.snoc (.snoc (.snoc (.snoc (.snoc (.snoc (.snoc (.snoc (.snoc .nil
      (ConsoleStep.typed (.loadTask rfl) _)) (ConsoleStep.typed (.schedule rfl) _))
      (ConsoleStep.typed (.call (by decide) rfl) _)) (ConsoleStep.typed .read _))
      (ConsoleStep.typed .read _)) (ConsoleStep.typed .read _)) (ConsoleStep.typed .key _))
      (ConsoleStep.typed .key _)) (ConsoleStep.typed .key _)) (ConsoleStep.typed .key _))
      (ConsoleStep.typed .key _)) (ConsoleStep.typed .read _)
  exact ⟨_, run, by decide +kernel, by decide +kernel,
    line_editing.2 _ _ _ _ run 1 [97, 98, 8, 99] (by decide +kernel) (by decide +kernel)⟩

end Creeks
