import Mathlib

/-!
# Byte memory

A memory is a map from addresses to bytes. `load32`/`store32` are the little-endian 32-bit access of
a machine that allows unaligned words; `load32_store32` is the round trip and `store32_other` the frame rule.
-/

namespace Creeks.Lib

/-- A byte-addressed memory. -/
abbrev Mem := Nat → UInt8

/-- The little-endian word stored at `a`. -/
def load32 (m : Mem) (a : Nat) : Nat :=
  (m a).toNat + 256 * (m (a + 1)).toNat + 65536 * (m (a + 2)).toNat
    + 16777216 * (m (a + 3)).toNat

/-- Store the low 32 bits of `w` at `a`, least significant byte first. -/
def store32 (m : Mem) (a w : Nat) : Mem := fun x =>
  if x = a then UInt8.ofNat w
  else if x = a + 1 then UInt8.ofNat (w / 256)
  else if x = a + 2 then UInt8.ofNat (w / 65536)
  else if x = a + 3 then UInt8.ofNat (w / 16777216)
  else m x

/-- A loaded word fits in 32 bits. -/
lemma load32_lt (m : Mem) (a : Nat) : load32 m a < 4294967296 := by
  have h0 := (m a).toNat_lt
  have h1 := (m (a + 1)).toNat_lt
  have h2 := (m (a + 2)).toNat_lt
  have h3 := (m (a + 3)).toNat_lt
  unfold load32
  omega

/-- A store only changes the four bytes it covers. -/
lemma store32_other {m : Mem} {a w x : Nat} (h : x < a ∨ a + 4 ≤ x) :
    store32 m a w x = m x := by
  unfold store32
  rw [if_neg (by omega), if_neg (by omega), if_neg (by omega), if_neg (by omega)]

/-- Loading the word just stored gives its low 32 bits. -/
lemma load32_store32 (m : Mem) (a w : Nat) : load32 (store32 m a w) a = w % 4294967296 := by
  simp only [load32, store32, if_true, Nat.add_eq_left, UInt8.toNat_ofNat', Nat.reducePow,
    Nat.reduceEqDiff, if_false, OfNat.ofNat_ne_zero, one_ne_zero, Nat.add_right_inj,
    OfNat.ofNat_ne_one]
  omega

/-- A load only depends on the four bytes it covers. -/
lemma load32_congr {m m' : Mem} {a : Nat} (h : ∀ x, a ≤ x → x < a + 4 → m' x = m x) :
    load32 m' a = load32 m a := by
  unfold load32
  rw [h a (by omega) (by omega), h (a + 1) (by omega) (by omega), h (a + 2) (by omega) (by omega),
    h (a + 3) (by omega) (by omega)]

/-- A store leaves the words it does not overlap alone. -/
lemma load32_store32_other {m : Mem} {a b w : Nat} (h : b + 4 ≤ a ∨ a + 4 ≤ b) :
    load32 (store32 m a w) b = load32 m b :=
  load32_congr fun _ _ _ => store32_other (by omega)

end Creeks.Lib
