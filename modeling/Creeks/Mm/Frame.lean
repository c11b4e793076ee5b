import Creeks.Mm.State

/-!
# Physical page frames

`get_page_frame` and the two bitmap macros of `mm.h`. `frameUsed` reads one bit of the bitmap; the
other lemmas say what each operation does to it, so that nothing after this module looks at bytes.
-/

namespace Creeks
open Lib

/-- The bit of `mem_bitmap` for page frame `page`. -/
def frameUsed (bitmap : Nat → BitVec 8) (page : Nat) : Bool :=
  (bitmap (page / 8)).getLsbD (page % 8)

/-- `set_page_frame_used(page)`. -/
def setPageFrameUsed (bitmap : Nat → BitVec 8) (page : Nat) : Nat → BitVec 8 := fun i =>
  if i = page / 8 then bitmap i ||| (1#8 <<< (page % 8)) else bitmap i

/-- `release_page_frame(p_addr)`. -/
def releasePageFrame (bitmap : Nat → BitVec 8) (pAddr : Nat) : Nat → BitVec 8 := fun i =>
  if i = pAddr / PAGESIZE / 8 then bitmap i &&& ~~~(1#8 <<< (pAddr / PAGESIZE % 8)) else bitmap i

/-- The inner loop of `get_page_frame`: the first clear bit from `bit` on, `n` bits at most. -/
def scanByte (b : BitVec 8) : Nat → Nat → Option Nat
  | 0, _ => none
  | n + 1, bit => if b &&& (1#8 <<< bit) = 0#8 then some bit else scanByte b n (bit + 1)

/-- The outer loop of `get_page_frame`. -/
def scanBitmap (bitmap : Nat → BitVec 8) : Nat → Nat → Option Nat
  | 0, _ => none
  | n + 1, byte =>
    if bitmap byte ≠ 0xFF#8 then
      match scanByte (bitmap byte) 8 0 with
      | some bit => some (8 * byte + bit)
      | none => scanBitmap bitmap n (byte + 1)
    else scanBitmap bitmap n (byte + 1)

/-- `get_page_frame()`. -/
def getPageFrame (s : Mm) : Mm × Nat :=
  match scanBitmap s.memBitmap (RAM_MAXPAGE / 8) 0 with
  | some page => ({ s with memBitmap := setPageFrameUsed s.memBitmap page }, page * PAGESIZE)
  | none => ({ s with oom := true }, MINUS_ONE)

/-- Marking a frame used sets its bit and no other. -/
lemma frameUsed_set (bitmap : Nat → BitVec 8) (page q : Nat) :
    frameUsed (setPageFrameUsed bitmap page) q = (decide (q = page) || frameUsed bitmap q) := by
  unfold frameUsed setPageFrameUsed
  by_cases hb : q / 8 = page / 8
  · rw [if_pos hb, BitVec.getLsbD_or, BitVec.getLsbD_shiftLeft, BitVec.getLsbD_one]
    by_cases hq : q = page
    · subst hq
      simp [Nat.mod_lt q (show 0 < 8 by decide)]
    · have hne : q % 8 ≠ page % 8 := by omega
      have : ¬ (¬ q % 8 < page % 8 ∧ q % 8 - page % 8 = 0) := by omega
      simp only [hq, decide_false, Bool.false_or]
      by_cases hlt : q % 8 < page % 8
      · simp [hlt]
      · have h0 : q % 8 - page % 8 ≠ 0 := by omega
        simp [h0]
  · rw [if_neg hb]
    have hq : q ≠ page := fun e => hb (by rw [e])
    simp [hq]

/-- Releasing a frame clears its bit and no other. -/
lemma frameUsed_release (bitmap : Nat → BitVec 8) (pAddr q : Nat) :
    frameUsed (releasePageFrame bitmap pAddr) q =
      (!decide (q = pAddr / PAGESIZE) && frameUsed bitmap q) := by
  unfold frameUsed releasePageFrame
  generalize pAddr / PAGESIZE = page
  by_cases hb : q / 8 = page / 8
  · rw [if_pos hb, BitVec.getLsbD_and, BitVec.getLsbD_not, BitVec.getLsbD_shiftLeft,
      BitVec.getLsbD_one]
    have h8 : q % 8 < 8 := Nat.mod_lt q (by decide)
    by_cases hq : q = page
    · subst hq
      simp [h8]
    · simp only [hq, decide_false, Bool.not_false, Bool.true_and]
      by_cases hlt : q % 8 < page % 8
      · simp [hlt, h8]
      · have h0 : q % 8 - page % 8 ≠ 0 := by omega
        simp [h0, h8]
  · rw [if_neg hb]
    have hq : q ≠ page := fun e => hb (by rw [e])
    simp [hq]

/-- A masked bit of a byte is zero exactly when the bit is clear. -/
lemma land_shift_eq_zero {b : BitVec 8} {bit : Nat} (h : bit < 8) :
    b &&& (1#8 <<< bit) = 0#8 ↔ b.getLsbD bit = false := by
  constructor
  · intro e
    have hb : (b &&& (1#8 <<< bit)).getLsbD bit = false := by rw [e]; simp
    rw [BitVec.getLsbD_and, BitVec.getLsbD_shiftLeft, BitVec.getLsbD_one] at hb
    simpa [h] using hb
  · intro e
    apply BitVec.eq_of_getLsbD_eq
    intro i hi
    rw [BitVec.getLsbD_and, BitVec.getLsbD_shiftLeft, BitVec.getLsbD_one]
    by_cases hib : i = bit
    · subst hib; simp [e]
    · by_cases hlt : i < bit
      · simp [hlt]
      · have h0 : i - bit ≠ 0 := by omega
        simp [h0]

/-- The bit the inner loop finds is clear. -/
lemma scanByte_some {b : BitVec 8} {n bit r : Nat} (h : scanByte b n bit = some r)
    (hn : bit + n ≤ 8) : bit ≤ r ∧ r < 8 ∧ b.getLsbD r = false := by
  induction n generalizing bit with
  | zero => exact absurd h (by simp [scanByte])
  | succ n ih =>
    unfold scanByte at h
    split at h
    case isTrue hz =>
      cases h
      exact ⟨le_refl _, by omega, (land_shift_eq_zero (by omega)).1 hz⟩
    case isFalse =>
      obtain ⟨h1, h2, h3⟩ := ih h (by omega)
      exact ⟨by omega, h2, h3⟩

/-- The frame the outer loop finds is free. -/
lemma scanBitmap_some {bitmap : Nat → BitVec 8} {n byte r : Nat}
    (h : scanBitmap bitmap n byte = some r) :
    r < 8 * (byte + n) ∧ frameUsed bitmap r = false := by
  induction n generalizing byte with
  | zero => exact absurd h (by simp [scanBitmap])
  | succ n ih =>
    unfold scanBitmap at h
    have next : scanBitmap bitmap n (byte + 1) = some r →
        r < 8 * (byte + (n + 1)) ∧ frameUsed bitmap r = false := by
      intro h
      obtain ⟨h1, h2⟩ := ih h
      exact ⟨by omega, h2⟩
    split at h
    case isTrue =>
      cases hs : scanByte (bitmap byte) 8 0 with
      | none => rw [hs] at h; exact next h
      | some bit =>
        rw [hs] at h
        cases h
        obtain ⟨-, hlt, hclear⟩ := scanByte_some hs (by omega)
        refine ⟨by omega, ?_⟩
        unfold frameUsed
        rw [show (8 * byte + bit) / 8 = byte by omega, show (8 * byte + bit) % 8 = bit by omega]
        exact hclear
    case isFalse => exact next h

/-- The inner loop only gives up on a byte whose bits are all set. -/
lemma scanByte_none {b : BitVec 8} {n bit : Nat} (h : scanByte b n bit = none)
    (hn : bit + n ≤ 8) {i : Nat} (hlo : bit ≤ i) (hhi : i < bit + n) : b.getLsbD i = true := by
  induction n generalizing bit with
  | zero => omega
  | succ n ih =>
    unfold scanByte at h
    split at h
    case isTrue => cases h
    case isFalse hz =>
      by_cases hi : i = bit
      · rw [hi]
        rw [land_shift_eq_zero (by omega)] at hz
        simpa using hz
      · exact ih h (by omega) (by omega) (by omega)

/-- The outer loop only gives up when every frame is used. -/
lemma scanBitmap_none {bitmap : Nat → BitVec 8} {n byte q : Nat}
    (h : scanBitmap bitmap n byte = none) (hlo : 8 * byte ≤ q) (hhi : q < 8 * (byte + n)) :
    frameUsed bitmap q = true := by
  induction n generalizing byte with
  | zero => omega
  | succ n ih =>
    unfold scanBitmap at h
    have h8 : q % 8 < 8 := Nat.mod_lt q (by decide)
    by_cases hq : q / 8 = byte
    · split at h
      case isTrue =>
        cases hs : scanByte (bitmap byte) 8 0 with
        | none =>
          rw [frameUsed, hq]
          exact scanByte_none hs (by omega) (Nat.zero_le _) (by omega)
        | some bit => rw [hs] at h; cases h
      case isFalse hff =>
        rw [frameUsed, hq, not_not.1 hff]
        interval_cases q % 8 <;> rfl
    · have next : scanBitmap bitmap n (byte + 1) = none := by
        split at h
        case isTrue =>
          cases hs : scanByte (bitmap byte) 8 0 with
          | none => rw [hs] at h; exact h
          | some bit => rw [hs] at h; cases h
        case isFalse => exact h
      exact ih next (by omega) (by omega)

/-- The bits before the one the inner loop finds are set. -/
lemma scanByte_below {b : BitVec 8} {n bit r i : Nat} (h : scanByte b n bit = some r)
    (hn : bit + n ≤ 8) (hlo : bit ≤ i) (hi : i < r) : b.getLsbD i = true := by
  induction n generalizing bit with
  | zero => exact absurd h (by simp [scanByte])
  | succ n ih =>
    unfold scanByte at h
    split at h
    case isTrue =>
      cases h
      omega
    case isFalse hz =>
      obtain rfl | hne := eq_or_ne i bit
      · rw [land_shift_eq_zero (by omega)] at hz
        simpa using hz
      · exact ih h (by omega) (by omega)

/-- The frames before the one the outer loop finds are used. -/
lemma scanBitmap_below {bitmap : Nat → BitVec 8} {n byte r q : Nat}
    (h : scanBitmap bitmap n byte = some r) (hlo : 8 * byte ≤ q) (hq : q < r) :
    frameUsed bitmap q = true := by
  induction n generalizing byte with
  | zero => exact absurd h (by simp [scanBitmap])
  | succ n ih =>
    have h8 : q % 8 < 8 := Nat.mod_lt q (by decide)
    -- either the byte of `q` is this one, or the search has gone on
    have next : scanBitmap bitmap n (byte + 1) = some r →
        (q / 8 = byte → (bitmap byte).getLsbD (q % 8) = true) → frameUsed bitmap q = true := by
      intro h hbyte
      by_cases hb : q / 8 = byte
      · rw [frameUsed, hb]
        exact hbyte hb
      · exact ih h (by omega)
    unfold scanBitmap at h
    split at h
    case isTrue =>
      cases hs : scanByte (bitmap byte) 8 0 with
      | none =>
        rw [hs] at h
        exact next h fun _ => scanByte_none hs (by omega) (Nat.zero_le _) (by omega)
      | some bit =>
        rw [hs] at h
        cases h
        obtain ⟨-, hlt, -⟩ := scanByte_some hs (by omega)
        rw [frameUsed, show q / 8 = byte by omega]
        exact scanByte_below hs (by omega) (Nat.zero_le _) (by omega)
    case isFalse hff =>
      refine next h fun _ => ?_
      rw [not_not.1 hff]
      interval_cases q % 8 <;> rfl

/-- What `get_page_frame` does: it takes a free frame, or reports that there is none. -/
lemma getPageFrame_cases (s : Mm) :
    (∃ page, page < RAM_MAXPAGE ∧ frameUsed s.memBitmap page = false ∧
      getPageFrame s =
        ({ s with memBitmap := setPageFrameUsed s.memBitmap page }, page * PAGESIZE)) ∨
    getPageFrame s = ({ s with oom := true }, MINUS_ONE) := by
  unfold getPageFrame
  cases h : scanBitmap s.memBitmap (RAM_MAXPAGE / 8) 0 with
  | none => exact .inr rfl
  | some page =>
    obtain ⟨hlt, hfree⟩ := scanBitmap_some h
    exact .inl ⟨page, by simpa [RAM_MAXPAGE] using hlt, hfree, rfl⟩

/-- `get_page_frame` does not fail while a frame is free. -/
lemma getPageFrame_oom {s : Mm} {q : Nat} (hq : q < RAM_MAXPAGE)
    (hfree : frameUsed s.memBitmap q = false) : (getPageFrame s).1.oom = s.oom := by
  unfold getPageFrame
  cases h : scanBitmap s.memBitmap (RAM_MAXPAGE / 8) 0 with
  | none =>
    have hused : frameUsed s.memBitmap q = true :=
      scanBitmap_none h (Nat.zero_le _) (by simpa [RAM_MAXPAGE] using hq)
    rw [hfree] at hused
    cases hused
  | some page => rfl

/-- The frame `get_page_frame` takes next: the first free one, or the one of the address -1. -/
def NextFrame (s : Mm) (f : Nat) : Prop :=
  (f < RAM_MAXPAGE ∧ frameUsed s.memBitmap f = false ∧ ∀ q < f, frameUsed s.memBitmap q = true) ∨
    (f = 0xFFFFF ∧ ∀ q < RAM_MAXPAGE, frameUsed s.memBitmap q = true)

/-- `get_page_frame` takes the next frame. -/
lemma nextFrame_iff {s : Mm} {f : Nat} : NextFrame s f ↔ f = (getPageFrame s).2 / PAGESIZE := by
  have hnext : NextFrame s ((getPageFrame s).2 / PAGESIZE) := by
    unfold getPageFrame
    cases h : scanBitmap s.memBitmap (RAM_MAXPAGE / 8) 0 with
    | none =>
      have hlast : MINUS_ONE / PAGESIZE = 0xFFFFF := by decide
      refine .inr ⟨hlast, fun q hq => scanBitmap_none h (Nat.zero_le _) ?_⟩
      simpa [RAM_MAXPAGE] using hq
    | some page =>
      obtain ⟨hlt, hfree⟩ := scanBitmap_some h
      dsimp only
      rw [Nat.mul_div_cancel _ (by decide)]
      exact .inl ⟨by simpa [RAM_MAXPAGE] using hlt, hfree,
        fun q hq => scanBitmap_below h (Nat.zero_le _) hq⟩
  constructor
  · intro hf
    rcases hf with ⟨hf, hfree, hbelow⟩ | ⟨rfl, hall⟩ <;>
      rcases hnext with ⟨hn, hnfree, hnbelow⟩ | ⟨e, hnall⟩
    · refine le_antisymm (not_lt.1 fun hlt => ?_) (not_lt.1 fun hlt => ?_)
      · exact absurd (hbelow _ hlt) (by rw [hnfree]; exact Bool.false_ne_true)
      · exact absurd (hnbelow _ hlt) (by rw [hfree]; exact Bool.false_ne_true)
    · exact absurd (hnall f hf) (by rw [hfree]; exact Bool.false_ne_true)
    · exact absurd (hall _ hn) (by rw [hnfree]; exact Bool.false_ne_true)
    · exact e.symm
  · rintro rfl
    exact hnext

end Creeks
