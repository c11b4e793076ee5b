import Creeks.Mm.State

/-!
# The ports of the disk controller

`bl_common`, `bl_read` and `bl_write` of `disk.c`. The two loops move 16-bit words between a buffer of
`char` and the data port. A `char` is signed: `bl_write` sign-extends the low byte of a word before it
puts the two bytes together.

A `Drive` is what answers at the ports: the bytes of its sectors, and the words the data port gives
when no sector provides one, about which nothing is assumed.
-/

namespace Creeks
open Lib

/-- The value of a 32-bit signed expression. -/
def int32 (n : Int) : Int := (n + 2147483648) % 4294967296 - 2147483648

/-- A value that fits in a signed 32-bit word does not wrap. -/
lemma int32_of_bounds {n : Int} (h1 : -2147483648 ≤ n) (h2 : n < 2147483648) : int32 n = n := by
  unfold int32
  omega

/-- What `bl_common` writes to the ports 0x1F2 to 0x1F6, as bytes. -/
structure Command where
  count : Nat
  low : Nat
  mid : Nat
  high : Nat
  device : Nat
deriving DecidableEq, Repr

/-- `bl_common()` -/
def blCommon (drive : Nat) (numblock count : Int) : Command where
  count := (count % 256).toNat
  low := (numblock % 256).toNat
  mid := (numblock / 256 % 256).toNat
  high := (numblock / 65536 % 256).toNat
  device := (0xE0 ||| drive <<< 4 ||| (numblock / 16777216 % 16).toNat) % 256

namespace Command

/-- The number of sectors a command asks for. A count of 0 stands for 256. -/
def sectors (c : Command) : Nat := if c.count = 0 then 256 else c.count

/-- The sector a command begins with. -/
def lba (c : Command) : Nat := c.low + 256 * c.mid + 65536 * c.high + 16777216 * (c.device % 16)

end Command

/-- A drive: the number of its sectors, their bytes in order, and the words of the data port that no
sector provides. -/
structure Drive where
  sectors : Nat
  bytes : Nat → UInt8
  idle : Command → Nat → BitVec 16

/-- The word of two bytes, the first one in its low half. -/
def wordOf (lo hi : UInt8) : BitVec 16 := hi.toBitVec ++ lo.toBitVec

/-- Word `idx` the drive returns for a command. -/
def Drive.word (d : Drive) (c : Command) (idx : Nat) : BitVec 16 :=
  if idx < 256 * c.sectors ∧ c.lba + idx / 256 < d.sectors then
    wordOf (d.bytes (512 * c.lba + 2 * idx)) (d.bytes (512 * c.lba + 2 * idx + 1))
  else d.idle c idx

/-- `(unsigned char) tmpword` -/
def lowByte (w : BitVec 16) : UInt8 := ⟨w.setWidth 8⟩

/-- `(unsigned char) (tmpword >> 8)` -/
def highByte (w : BitVec 16) : UInt8 := ⟨(w >>> 8).setWidth 8⟩

/-- The number of turns of the loops of `bl_read` and `bl_write`. -/
def wordCount (count : Int) : Nat := (int32 (256 * count)).toNat

/-- The loop of `bl_read`, for the words that come from the data port. -/
def readWords (words : Nat → BitVec 16) (m : Mem) (buf n : Nat) : Mem :=
  (List.range n).foldl (fun m idx => Function.update
    (Function.update m (buf + idx * 2) (lowByte (words idx))) (buf + idx * 2 + 1)
      (highByte (words idx))) m

/-- `bl_read()` -/
def blRead (d : Drive) (drive : Nat) (numblock count : Int) (m : Mem) (buf : Nat) : Mem :=
  readWords (d.word (blCommon drive numblock count)) m buf (wordCount count)

/-- `(buf[idx * 2 + 1] << 8) | buf[idx * 2]`, the bytes promoted to `int`. -/
def tmpword (lo hi : UInt8) : BitVec 16 :=
  ((hi.toBitVec.signExtend 32 <<< 8) ||| lo.toBitVec.signExtend 32).setWidth 16

/-- The words the loop of `bl_write` sends. -/
def sentWords (m : Mem) (buf n : Nat) : List (BitVec 16) :=
  (List.range n).map fun idx => tmpword (m (buf + idx * 2)) (m (buf + idx * 2 + 1))

/-- The addresses the loop of `bl_write` reads. -/
def sentReads (buf n : Nat) : List Nat :=
  (List.range n).flatMap fun idx => [buf + idx * 2 + 1, buf + idx * 2]

/-- The drive after it has received the words of a command to write. Words past the sectors of the
command or of the drive are dropped. -/
def Drive.receive (d : Drive) (c : Command) (words : List (BitVec 16)) : Drive :=
  { d with bytes := fun o =>
      let i := o - 512 * c.lba
      if 512 * c.lba ≤ o ∧ i < 512 * c.sectors ∧ o < 512 * d.sectors ∧ i / 2 < words.length then
        if i % 2 = 0 then lowByte (words.getD (i / 2) 0) else highByte (words.getD (i / 2) 0)
      else d.bytes o }

/-- `bl_write()` -/
def blWrite (d : Drive) (drive : Nat) (numblock count : Int) (m : Mem) (buf : Nat) : Drive :=
  d.receive (blCommon drive numblock count) (sentWords m buf (wordCount count))

section Words

variable {lo hi : UInt8} {words : Nat → BitVec 16} {m : Mem} {buf n i x : Nat}

lemma lowByte_wordOf (lo hi : UInt8) : lowByte (wordOf lo hi) = lo := by
  rw [← UInt8.toBitVec_inj]
  change (hi.toBitVec ++ lo.toBitVec).setWidth 8 = lo.toBitVec
  rw [BitVec.setWidth_append, dif_pos (le_refl 8)]
  exact BitVec.setWidth_eq _

lemma highByte_wordOf (lo hi : UInt8) : highByte (wordOf lo hi) = hi := by
  rw [← UInt8.toBitVec_inj]
  change ((hi.toBitVec ++ lo.toBitVec) >>> 8).setWidth 8 = hi.toBitVec
  apply BitVec.eq_of_getLsbD_eq
  intro j hj
  rw [BitVec.getLsbD_setWidth, BitVec.getLsbD_ushiftRight, BitVec.getLsbD_append,
    if_neg (by omega), Nat.add_sub_cancel_left, decide_eq_true hj, Bool.true_and]

/-- The bits of the word `bl_write` sends. -/
lemma getLsbD_tmpword {j : Nat} (lo hi : UInt8) (hj : j < 16) :
    (tmpword lo hi).getLsbD j =
      (decide (8 ≤ j) && hi.toBitVec.getLsbD (j - 8) ||
        if j < 8 then lo.toBitVec.getLsbD j else lo.toBitVec.msb) := by
  have h32 : j < 32 := by omega
  unfold tmpword
  rw [BitVec.getLsbD_setWidth, BitVec.getLsbD_or, BitVec.getLsbD_shiftLeft,
    BitVec.getLsbD_signExtend, BitVec.getLsbD_signExtend, decide_eq_true hj, decide_eq_true h32]
  by_cases h8 : j < 8
  · simp [h8]
  · have hsub : j - 8 < 8 := by omega
    have hsub32 : j - 8 < 32 := by omega
    have hle : 8 ≤ j := by omega
    simp [h8, hsub, hsub32, hle]

/-- The low byte of a word comes through. -/
lemma lowByte_tmpword (lo hi : UInt8) : lowByte (tmpword lo hi) = lo := by
  rw [← UInt8.toBitVec_inj]
  change BitVec.setWidth 8 (tmpword lo hi) = lo.toBitVec
  apply BitVec.eq_of_getLsbD_eq
  intro j hj
  rw [BitVec.getLsbD_setWidth, getLsbD_tmpword lo hi (by omega), if_pos hj, decide_eq_true hj,
    decide_eq_false (by omega), Bool.false_and, Bool.false_or, Bool.true_and]

/-- The high byte of a word is all ones when the low byte is negative. -/
lemma highByte_tmpword (lo hi : UInt8) :
    highByte (tmpword lo hi) = if lo < 0x80 then hi else 0xFF := by
  have hmsb : lo.toBitVec.msb = decide (¬ lo < 0x80) := by
    rw [BitVec.msb_eq_decide, decide_eq_decide, UInt8.lt_iff_toNat_lt, not_lt]
    rfl
  have hbit : ∀ j, j < 8 → ((tmpword lo hi >>> 8).setWidth 8).getLsbD j =
      (hi.toBitVec.getLsbD j || lo.toBitVec.msb) := by
    intro j hj
    rw [BitVec.getLsbD_setWidth, BitVec.getLsbD_ushiftRight, getLsbD_tmpword lo hi (by omega),
      if_neg (by omega), decide_eq_true hj, decide_eq_true (by omega), Bool.true_and, Bool.true_and,
      Nat.add_sub_cancel_left]
  rw [← UInt8.toBitVec_inj]
  change (tmpword lo hi >>> 8).setWidth 8 = _
  apply BitVec.eq_of_getLsbD_eq
  intro j hj
  rw [hbit j hj, hmsb]
  by_cases h : lo < 0x80
  · rw [if_pos h, decide_eq_false (not_not.2 h), Bool.or_false]
  · rw [if_neg h, decide_eq_true h, Bool.or_true]
    change true = (BitVec.allOnes 8).getLsbD j
    rw [BitVec.getLsbD_allOnes, decide_eq_true hj]

/-- What the loop of `bl_read` stores. -/
lemma readWords_byte (words : Nat → BitVec 16) (m : Mem) (buf n x : Nat) :
    readWords words m buf n x =
      if buf ≤ x ∧ x < buf + 2 * n then
        if (x - buf) % 2 = 0 then lowByte (words ((x - buf) / 2))
        else highByte (words ((x - buf) / 2))
      else m x := by
  induction n with
  | zero =>
    rw [if_neg (by omega)]
    rfl
  | succ n ih =>
    have hstep : readWords words m buf (n + 1) = Function.update
        (Function.update (readWords words m buf n) (buf + n * 2) (lowByte (words n)))
          (buf + n * 2 + 1) (highByte (words n)) := by
      rw [readWords, List.range_succ, List.foldl_concat]
      rfl
    rw [hstep]
    by_cases h1 : x = buf + n * 2 + 1
    · have hdiv : (x - buf) / 2 = n := by omega
      rw [h1, Function.update_self, ← h1, if_pos (by omega), if_neg (by omega), hdiv]
    · rw [Function.update_of_ne h1]
      by_cases h0 : x = buf + n * 2
      · have hdiv : (x - buf) / 2 = n := by omega
        rw [h0, Function.update_self, ← h0, if_pos (by omega), if_pos (by omega), hdiv]
      · rw [Function.update_of_ne h0, ih]
        by_cases hx : buf ≤ x ∧ x < buf + 2 * n
        · have hlt : buf ≤ x ∧ x < buf + 2 * (n + 1) := by omega
          rw [if_pos hx]
          exact (if_pos hlt).symm
        · have hlt : ¬ (buf ≤ x ∧ x < buf + 2 * (n + 1)) := by omega
          rw [if_neg hx, if_neg hlt]

/-- The number of words of a number of sectors. -/
lemma wordCount_of_lt {c : Nat} (h : c < 8388608) : wordCount (c : Int) = 256 * c := by
  rw [wordCount, int32_of_bounds (by omega) (by omega)]
  omega

end Words

/-- The words of a buffer, returned to `bl_read`, give the buffer back. -/
def RoundTrips (m : Mem) (buf c : Nat) : Prop :=
  ∀ m' buf', ∀ i < 512 * c,
    readWords (fun idx => (sentWords m buf (wordCount c)).getD idx 0) m' buf' (wordCount c) (buf' + i) =
      m (buf + i)

/-- A buffer comes back as it was when the high bytes of its words do. -/
lemma roundTrips_iff {c : Nat} (hc : c ≤ 255) (m : Mem) (buf : Nat) :
    RoundTrips m buf c ↔ ∀ idx < 256 * c,
      highByte (tmpword (m (buf + idx * 2)) (m (buf + idx * 2 + 1))) = m (buf + idx * 2 + 1) := by
  have hn : wordCount c = 256 * c := wordCount_of_lt (by omega)
  have hword : ∀ idx < 256 * c, (sentWords m buf (256 * c)).getD idx 0 =
      tmpword (m (buf + idx * 2)) (m (buf + idx * 2 + 1)) := by
    intro idx hidx
    rw [sentWords, List.getD_eq_getElem?_getD, List.getElem?_map, List.getElem?_range hidx]
    rfl
  unfold RoundTrips
  rw [hn]
  constructor
  · intro h idx hidx
    have hi := h (fun _ => 0) 0 (2 * idx + 1) (by omega)
    rwa [readWords_byte, if_pos (by omega), Nat.zero_add, Nat.sub_zero, if_neg (by omega),
      show (2 * idx + 1) / 2 = idx by omega, hword idx hidx,
      show buf + (2 * idx + 1) = buf + idx * 2 + 1 by omega] at hi
  · intro h m' buf' i hi
    have hidx : i / 2 < 256 * c := by omega
    rw [readWords_byte, if_pos (by omega), Nat.add_sub_cancel_left, hword _ hidx]
    by_cases h2 : i % 2 = 0
    · rw [if_pos h2, lowByte_tmpword, show buf + i / 2 * 2 = buf + i by omega]
    · rw [if_neg h2, h _ hidx, show buf + i / 2 * 2 + 1 = buf + i by omega]

/-- A buffer comes back as it was exactly when every byte at an even place is below 0x80 or followed by
0xFF. -/
theorem sector_round_trip {c : Nat} (hc : c ≤ 255) (m : Mem) (buf : Nat) :
    RoundTrips m buf c ↔
      ∀ idx < 256 * c, m (buf + idx * 2) < 0x80 ∨ m (buf + idx * 2 + 1) = 0xFF := by
  rw [roundTrips_iff hc]
  refine forall₂_congr fun idx _ => ?_
  rw [highByte_tmpword]
  by_cases hlo : m (buf + idx * 2) < 0x80
  · rw [if_pos hlo]
    exact iff_of_true rfl (.inl hlo)
  · rw [if_neg hlo]
    exact ⟨fun h => .inr h.symm, fun h => (h.resolve_left hlo).symm⟩

/-- The equivalence for a sector of zeros. -/
theorem sector_round_trip_zero : RoundTrips (fun _ => 0) 0 1 ↔
    ∀ idx < 256 * 1, (fun _ => 0 : Mem) (0 + idx * 2) < 0x80 ∨
      (fun _ => 0 : Mem) (0 + idx * 2 + 1) = 0xFF :=
  sector_round_trip (by decide) _ _

/-- A sector that begins with the bytes 0x80 and 0 does not come back. -/
theorem high_byte_lost : ¬ RoundTrips (Function.update (fun _ => 0) 0 0x80) 0 1 := by
  rw [roundTrips_iff (by decide)]
  intro h
  exact absurd (h 0 (by decide)) (by decide)

end Creeks
