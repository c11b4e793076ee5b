import Creeks.Drive.Transfer

/-!
# Blocks of a file system

Where `ext2_read_file` looks for a block. The byte offset of the block is an `unsigned` expression that
`disk_read` takes as an `int`: it is off from byte 2^31 of the drive on, although the controller counts
sectors up to 2^28.
-/

namespace Creeks
open Lib

/-- The fields of `struct disk` that reading a block uses, with `part->s_lba`. -/
structure Hd where
  device : Nat
  sLba : Nat
  blocksize : Nat
deriving DecidableEq, Repr

/-- `(hd->part->s_lba * 512) + b * hd->blocksize`, as the argument `offset` of `disk_read`. -/
def blockOffset (hd : Hd) (b : Nat) : Int :=
  int32 (wrap (wrap (hd.sLba * 512) + wrap (b * hd.blocksize)))

/-- The first sector of a block of the partition. -/
def blockSector (hd : Hd) (b : Nat) : Nat := hd.sLba + b * (hd.blocksize / 512)

/-- The `disk_read` calls of `ext2_read_file`. -/
def readBlock (d : Drive) (hd : Hd) (s : Mm) (b buf : Nat) : Except Stop Mm :=
  diskRead d hd.device s (blockOffset hd b) buf hd.blocksize

/-- The sizes a block can have. -/
def BlockSize (n : Nat) : Prop := ∃ k ≤ 2, n = 1024 * 2 ^ k

lemma BlockSize.cases {n : Nat} (h : BlockSize n) : n = 1024 ∨ n = 2048 ∨ n = 4096 := by
  obtain ⟨k, hk, rfl⟩ := h
  interval_cases k
  · exact .inl rfl
  · exact .inr (.inl rfl)
  · exact .inr (.inr rfl)

section Offset

variable {hd : Hd} {b : Nat}

/-- The offset is the byte of the first sector, as a 32-bit integer. -/
lemma blockOffset_eq (hsize : BlockSize hd.blocksize) (b : Nat) :
    blockOffset hd b = int32 (512 * blockSector hd b : Nat) := by
  have hsum : 512 * blockSector hd b = hd.sLba * 512 + b * hd.blocksize := by
    unfold blockSector
    rcases hsize.cases with e | e | e <;> rw [e] <;> omega
  rw [hsum, blockOffset, wrap_eq, wrap_eq, wrap_eq, ← Nat.add_mod]
  unfold int32
  omega

end Offset

/-- The sector `disk_read` begins with is that of the block exactly when the block begins below byte 2^31 of
the drive. -/
theorem block_address {hd : Hd} {b : Nat} (hsize : BlockSize hd.blocksize)
    (hlba : blockSector hd b + hd.blocksize / 512 ≤ 268435456) :
    blBegin (blockOffset hd b) = blockSector hd b ↔ blockSector hd b < 4194304 := by
  have hlt : blockSector hd b < 268435456 := by
    rcases hsize.cases with e | e | e <;> rw [e] at hlba <;> omega
  rw [blockOffset_eq hsize, blBegin]
  generalize blockSector hd b = sector at hlt
  constructor
  · intro h
    by_contra hge
    -- the quotient of the wrapped offset has lost a multiple of 2^23
    obtain ⟨q, hq⟩ : ∃ q : Int, int32 (512 * sector : Nat) = 512 * (sector - 8388608 * q) := by
      refine ⟨(512 * (sector : Int) + 2147483648) / 4294967296, ?_⟩
      unfold int32
      omega
    have hbound : int32 (512 * sector : Nat) < 2147483648 := by
      unfold int32
      omega
    rw [hq, Int.mul_tdiv_cancel_left _ (by decide)] at h
    omega
  · intro h
    rw [int32_of_bounds (by omega) (by omega), Nat.cast_mul]
    exact Int.mul_tdiv_cancel_left _ (by decide)

/-- The equivalence for block 10 of a partition behind the first track. -/
theorem block_address_ten : blBegin (blockOffset ⟨0, 63, 1024⟩ 10) = blockSector ⟨0, 63, 1024⟩ 10 ↔
    blockSector ⟨0, 63, 1024⟩ 10 < 4194304 :=
  block_address ⟨0, by decide, rfl⟩ (by decide)

/-- The first block behind 2 GB is looked for below the drive. -/
theorem high_block_misread : blBegin (blockOffset ⟨0, 0, 1024⟩ 2097152) = -4194304 ∧
    blockSector ⟨0, 0, 1024⟩ 2097152 = 4194304 := by
  rw [blockOffset_eq ⟨0, by decide, rfl⟩]
  decide

end Creeks
