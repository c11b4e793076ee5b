import Creeks.Process.Editing

/-!
# The bounds of the input buffers

`keypos` is the only guard of `inb` and nothing tests it, and `sys_console_read` copies with `strcpy` into
the 512 bytes of the shell. `input_inside_iff` says for which keys every store stays inside: the trace of
indices comes from the code, the condition from the keys alone.
-/

namespace Creeks
open Lib

/-- `char buf[512]` of the shell. -/
abbrev SHELLBUF : Nat := 512

namespace VConsole

/-- The indices of `inb` at which `putc_console` stores a key, in order. -/
def putcStores (v : VConsole) (c : UInt8) : List Nat :=
  let k := v.keypos
  if v.mode = 0 then [0]
  else if c = 8 then
    if k ≠ 0 then [k] else []
  else if c = 10 then [k, k + 1]
  else [k]

/-- `strcpy` stores at an index when no byte in front of it was the zero that ends the string. -/
def Copied (v : VConsole) (i : Nat) : Prop := ∀ j, j < i → v j ≠ 0

/-- The reader after a key. It copies a line that ended and calls again. -/
def press (v : VConsole) (c : UInt8) : VConsole :=
  if v.Ends c then (v.putc c).setInlock 1 else v.putc c

/-- The stores of a key are in the buffer, and so are those of the copy when it ends the line. -/
def Inside (v : VConsole) (c : UInt8) : Prop :=
  (∀ i ∈ v.putcStores c, i < INBUFSIZE) ∧ (v.Ends c → ∀ i, (v.putc c).Copied i → i < SHELLBUF)

/-- Every key of a sequence. -/
def InsideAll : VConsole → List UInt8 → Prop
  | _, [] => True
  | v, c :: cs => v.Inside c ∧ InsideAll (v.press c) cs

/-- The keys that fit, with what is pending before them: there is room for each key, for the newline and
the zero behind it, and the string that ends there fits in the buffer of the shell. -/
def Fits : List UInt8 → List UInt8 → Prop
  | _, [] => True
  | typed, c :: cs =>
    if c = 10 then
      typed.length + 1 < INBUFSIZE ∧ ((typed ++ [10]).takeWhile (· ≠ 0)).length < SHELLBUF ∧ Fits [] cs
    else typed.length < INBUFSIZE ∧ Fits (edit typed c) cs

instance : ∀ typed keys, Decidable (Fits typed keys)
  | _, [] => .isTrue trivial
  | typed, c :: cs =>
    have := instDecidableFits [] cs
    have := instDecidableFits (edit typed c) cs
    inferInstanceAs (Decidable (if c = 10 then
      typed.length + 1 < INBUFSIZE ∧ ((typed ++ [10]).takeWhile (· ≠ 0)).length < SHELLBUF ∧ Fits [] cs
      else typed.length < INBUFSIZE ∧ Fits (edit typed c) cs))

variable {v : VConsole} {typed : List UInt8} {c : UInt8} {i : Nat}

/-- The copy of a text and the zero behind it stores one byte more than the string has. -/
lemma copied_iff {text : List UInt8} (hc : ∀ i (h : i < text.length), v i = text[i])
    (hz : v text.length = 0) : v.Copied i ↔ i ≤ (text.takeWhile (· ≠ 0)).length := by
  induction text generalizing v i with
  | nil =>
    refine ⟨fun h => ?_, fun h j hj => ?_⟩
    · by_contra hi
      exact h 0 (Nat.not_le.1 hi) hz
    · rw [List.takeWhile_nil, List.length_nil] at h
      omega
  | cons c text ih =>
    have h0 : v 0 = c := hc 0 (Nat.zero_lt_succ _)
    by_cases hzero : c = 0
    · subst hzero
      rw [List.takeWhile_cons_of_neg (by decide)]
      refine ⟨fun h => ?_, fun h j hj => ?_⟩
      · by_contra hi
        exact h 0 (Nat.not_le.1 hi) h0
      · rw [List.length_nil] at h
        omega
    · rw [List.takeWhile_cons_of_pos (by simpa using hzero), List.length_cons]
      cases i with
      | zero => exact ⟨fun _ => Nat.zero_le _, fun _ _ => nofun⟩
      | succ i =>
        have ih := @ih (fun j => v (j + 1)) i (fun j hj => hc (j + 1) (Nat.succ_lt_succ hj)) hz
        rw [Nat.succ_le_succ_iff, ← ih]
        refine ⟨fun h j hj => h (j + 1) (Nat.succ_lt_succ hj), fun h j hj => ?_⟩
        cases j with
        | zero => exact fun e => hzero (h0.symm.trans e)
        | succ j => exact h j (Nat.lt_of_succ_lt_succ hj)

namespace Holds

/-- Where a key that does not end the line is stored. -/
lemma stores_key (h : v.Holds typed) (h10 : c ≠ 10) :
    (∀ i ∈ v.putcStores c, i < INBUFSIZE) ↔ typed.length < INBUFSIZE := by
  unfold putcStores
  dsimp only
  rw [if_neg (by rw [h.mode]; decide), if_neg h10, h.keypos]
  split
  · by_cases hk : typed.length = 0
    · rw [if_neg (not_not.2 hk), hk]
      exact ⟨fun _ => by decide, fun _ _ => nofun⟩
    · rw [if_pos hk]
      exact List.forall_mem_singleton
  · exact List.forall_mem_singleton

lemma stores_newline (h : v.Holds typed) :
    (∀ i ∈ v.putcStores 10, i < INBUFSIZE) ↔ typed.length + 1 < INBUFSIZE := by
  unfold putcStores
  dsimp only
  rw [if_neg (by rw [h.mode]; decide), if_neg (by decide), if_pos rfl, h.keypos]
  refine ⟨fun h => h _ (by simp), fun h i hi => ?_⟩
  rw [List.mem_cons, List.mem_singleton] at hi
  omega

/-- The copy of a line. -/
lemma copy_newline (h : v.Holds typed) (hroom : typed.length + 1 < INBUFSIZE) :
    (∀ i, (v.putc 10).Copied i → i < SHELLBUF) ↔
      ((typed ++ [10]).takeWhile (· ≠ 0)).length < SHELLBUF := by
  obtain ⟨hc, hz⟩ := h.newline_inb hroom
  refine ⟨fun h => h _ ((copied_iff hc hz).2 (le_refl _)), fun h i hi => ?_⟩
  have := (copied_iff hc hz).1 hi
  omega

lemma ends_iff (h : v.Holds typed) : v.Ends c = true ↔ c = 10 := by
  unfold Ends
  rw [h.mode]
  simp

/-- The stores of a sequence of keys are inside exactly when the keys fit. -/
lemma inside_iff (h : v.Holds typed) (keys : List UInt8) :
    v.InsideAll keys ↔ Fits typed keys := by
  induction keys generalizing v typed with
  | nil => exact Iff.rfl
  | cons c cs ih =>
    unfold InsideAll Fits Inside press
    by_cases h10 : c = 10
    · subst h10
      have hends := h.ends_iff.2 rfl
      rw [if_pos hends, if_pos rfl, h.stores_newline, and_assoc]
      refine and_congr_right fun hroom => ?_
      rw [h.copy_newline hroom, ih ((h.newline hroom).2.setInlock 1)]
      exact and_congr_left fun _ => ⟨fun h => h hends, fun h _ => h⟩
    · have hends := mt h.ends_iff.1 h10
      rw [if_neg hends, if_neg h10, h.stores_key h10, and_assoc]
      refine and_congr_right fun hroom => ?_
      rw [ih (h.key h10 hroom)]
      exact ⟨And.right, fun h => ⟨fun e => absurd e hends, h⟩⟩

end Holds

end VConsole

/-- For a reader whose console is in mode 1 at position 0, as a new one is and every one after a line that
fitted, all stores are inside the buffers exactly when the keys fit. -/
theorem input_inside_iff (v : VConsole) (hm : v.mode = 1) (hk : v.keypos = 0) (keys : List UInt8) :
    v.InsideAll keys ↔ VConsole.Fits [] keys :=
  have holds : v.Holds [] := ⟨hm, hk, by decide, nofun⟩
  holds.inside_iff keys

theorem input_inside_iff_line :
    VConsole.InsideAll (.init fun _ => 97) [97, 98, 8, 10] ↔ VConsole.Fits [] [97, 98, 8, 10] :=
  input_inside_iff _ (by decide +kernel) (by decide +kernel) _

/-- A line of 511 characters is one byte longer than the shell expects. -/
theorem long_line_overflows :
    ¬ ∀ keys, VConsole.InsideAll (.init fun _ => 0) keys := by
  intro h
  have h := (VConsole.Holds.inside_iff (VConsole.Holds.init fun _ => 0) _).1
    (h (List.replicate 511 97 ++ [10]))
  exact absurd h (by decide +kernel)

end Creeks
