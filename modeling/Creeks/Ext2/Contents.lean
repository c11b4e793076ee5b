import Creeks.Ext2.ReadFile

/-!
# The contents of a file

The blocks `ext2_read_file` reads one after the other are those an inode maps its logical blocks to:
`read_file_contents`. `leaf` follows the pointers of the disk image down a tree, and `blockMap` chooses the
tree of a logical block.

The second part says that no copy leaves the buffer of the file, for any inode. `readFileChecked` is the
function with that test before every copy.
-/

namespace Creeks
open Lib

/-! ## Logical blocks -/

/-- Byte `i` of a block of the image. -/
def imageByte (d : Drive) (hd : Hd) (b i : Nat) : UInt8 := d.bytes (512 * blockSector hd b + i)

/-- Pointer `i` of a block of the image. -/
def imagePointer (d : Drive) (hd : Hd) (b i : Nat) : Nat := load32 (imageByte d hd b) (4 * i)

/-- The block at place `k` below a block with `depth` levels of pointers, 0 when there is none. -/
def leaf (d : Drive) (hd : Hd) : Nat → Nat → Nat → Nat
  | 0, b, _ => b
  | depth + 1, b, k =>
    let q := imagePointer d hd b (k / (hd.blocksize / 4) ^ depth)
    if q = 0 then 0 else leaf d hd depth q (k % (hd.blocksize / 4) ^ depth)

/-- The same for the tree of an indirect block, if there is one. -/
def treeMap (d : Drive) (hd : Hd) (depth b k : Nat) : Nat :=
  if b = 0 ∨ (hd.blocksize / 4) ^ depth ≤ k then 0 else leaf d hd depth b k

/-- The block of the image an inode maps logical block `k` to, 0 when there is none. -/
def blockMap (d : Drive) (hd : Hd) (inode : Inode) (k : Nat) : Nat :=
  let per := hd.blocksize / 4
  if k < 12 then inode.iBlock k
  else if k < 12 + per then treeMap d hd 1 (inode.iBlock 12) (k - 12)
  else if k < 12 + per + per ^ 2 then treeMap d hd 2 (inode.iBlock 13) (k - (12 + per))
  else treeMap d hd 3 (inode.iBlock 14) (k - (12 + per + per ^ 2))

/-- A block that lies on the drive. -/
def InImage (d : Drive) (hd : Hd) (b : Nat) : Prop := blockSector hd b + hd.blocksize / 512 ≤ d.sectors

instance (d : Drive) (hd : Hd) (b : Nat) : Decidable (InImage d hd b) := inferInstanceAs (Decidable (_ ≤ _))

/-- An inode that maps every logical block of its file, by pointers to blocks of the image. -/
structure MapsFile (d : Drive) (hd : Hd) (inode : Inode) : Prop where
  size : Served inode.iSize
  mapped : ∀ k, hd.blocksize * k < inode.iSize → blockMap d hd inode k ≠ 0
  image : ∀ b ∈ inodeBlocks (treeBlocks d hd) inode, InImage d hd b

section Lists

variable {α β : Type} {l : List α} {g : α → List β} {c q r : Nat} {a : α}

/-- An element of a flattened list whose first parts all have `c` elements. -/
lemma getElem?_flatMap (hq : l[q]? = some a) (hfull : ∀ j < q, ∀ x, l[j]? = some x → (g x).length = c)
    (hr : r < (g a).length) : (l.flatMap g)[c * q + r]? = (g a)[r]? := by
  induction l generalizing q with
  | nil => cases hq
  | cons x l ih =>
    rw [List.flatMap_cons]
    cases q with
    | zero =>
      cases hq
      rw [Nat.mul_zero, Nat.zero_add, List.getElem?_append_left hr]
    | succ q =>
      have hx : (g x).length = c := hfull 0 (Nat.succ_pos q) x rfl
      have hle : (g x).length ≤ c * (q + 1) + r := by
        rw [hx, Nat.mul_succ]
        omega
      have hsub : c * (q + 1) + r - (g x).length = c * q + r := by
        rw [hx, Nat.mul_succ]
        omega
      rw [List.getElem?_append_right hle, hsub]
      exact ih hq fun j hj y hy => hfull (j + 1) (Nat.succ_lt_succ hj) y hy

/-- Values that are not zero are all in the list. -/
lemma getElem?_untilZero {f : Nat → Nat} {left i j : Nat} (hj : j < left) (h : ∀ m ≤ j, f (i + m) ≠ 0) :
    (untilZero f left i)[j]? = some (f (i + j)) := by
  induction left generalizing i j with
  | zero => cases hj
  | succ left ih =>
    have h0 : f i ≠ 0 := h 0 (Nat.zero_le j)
    rw [untilZero, if_neg h0]
    cases j with
    | zero => rfl
    | succ j =>
      rw [List.getElem?_cons_succ, ih (Nat.lt_of_succ_lt_succ hj) fun m hm => ?_, Nat.add_right_comm,
        Nat.add_assoc]
      have hne := h (m + 1) (Nat.succ_le_succ hm)
      rwa [Nat.add_right_comm, Nat.add_assoc]

lemma length_untilZero_le (f : Nat → Nat) (left i : Nat) : (untilZero f left i).length ≤ left := by
  induction left generalizing i with
  | zero => exact le_refl 0
  | succ left ih =>
    rw [untilZero]
    split
    · exact Nat.zero_le _
    · exact Nat.succ_le_succ (ih (i + 1))

end Lists

section Blocks

variable {d : Drive} {hd : Hd} {inode : Inode} {b k depth : Nat}

/-- A block of the image is what `disk_read` delivers for it. -/
lemma blockBytes_image (hsize : BlockSize hd.blocksize) (h2g : 512 * d.sectors < 2147483648)
    (hin : InImage d hd b) {i : Nat} (hi : i < hd.blocksize) : blockBytes d hd b i = imageByte d hd b i := by
  have hmod : hd.blocksize % 512 = 0 ∧ hd.blocksize ≤ 4096 := by
    rcases hsize.cases with e | e | e <;> rw [e] <;> decide
  unfold InImage at hin
  have hend : 512 * blockSector hd b + hd.blocksize < 2147483648 := by omega
  have hoff : blockOffset hd b = (512 * blockSector hd b : Nat) := by
    rw [blockOffset_eq hsize, int32_of_bounds (by omega) (by omega)]
  have hbyte := @rangeCommand_byte d hd.device hd.blocksize (512 * blockSector hd b) i hend (by omega) hi
    (by omega)
  rw [Nat.mul_mod_right, Nat.zero_add] at hbyte
  rw [blockBytes, hoff, hbyte, imageByte]

/-- A block of an image of less than 2 GB. -/
lemma InImage.endFits (hsize : BlockSize hd.blocksize) (h2g : 512 * d.sectors < 2147483648)
    (hin : InImage d hd b) : EndFits hd b := by
  have hmod : hd.blocksize % 512 = 0 := by
    rcases hsize.cases with e | e | e <;> rw [e]
  unfold InImage at hin
  rw [EndFits, blockOffset_eq hsize, int32_of_bounds (by omega) (by omega)]
  omega

/-- The pointers of a block of the image, up to the first zero. -/
lemma pointers_get (hsize : BlockSize hd.blocksize) (h2g : 512 * d.sectors < 2147483648)
    (hin : InImage d hd b) {j : Nat} (hj : j < hd.blocksize / 4) (h : ∀ m ≤ j, imagePointer d hd b m ≠ 0) :
    (pointers d hd b)[j]? = some (imagePointer d hd b j) := by
  have hload : ∀ m ≤ j, load32 (blockBytes d hd b) (4 * m) = imagePointer d hd b m := fun m hm => by
    have htable := @load32_table hd (blockBytes d hd b) (imageByte d hd b) 0 m (fun i hi => by
      rw [Nat.zero_add, blockBytes_image hsize h2g hin hi]) (by omega)
    rwa [Nat.zero_add] at htable
  rw [pointers, getElem?_untilZero hj fun m hm => ?_, Nat.zero_add, hload j (le_refl j)]
  rw [Nat.zero_add, hload m hm]
  exact h m hm

/-- The leaves below pointer `m` of a block. -/
lemma leaf_node {m r : Nat} (hr : r < (hd.blocksize / 4) ^ depth) :
    leaf d hd (depth + 1) b ((hd.blocksize / 4) ^ depth * m + r) =
      if imagePointer d hd b m = 0 then 0 else leaf d hd depth (imagePointer d hd b m) r := by
  have hpos : 0 < (hd.blocksize / 4) ^ depth := Nat.zero_lt_of_lt hr
  rw [leaf, Nat.mul_add_div hpos, Nat.div_eq_of_lt hr, Nat.add_zero, Nat.mul_add_mod, Nat.mod_eq_of_lt hr]

/-- A tree has no more leaves than there is room for. -/
lemma length_dataBlocks_le (d : Drive) (hd : Hd) (depth b : Nat) :
    (dataBlocks d hd depth b).length ≤ (hd.blocksize / 4) ^ depth := by
  induction depth generalizing b with
  | zero => exact le_refl 1
  | succ depth ih =>
    have hsum : ∀ l : List Nat, (l.flatMap (dataBlocks d hd depth)).length ≤
        l.length * (hd.blocksize / 4) ^ depth := by
      intro l
      induction l with
      | nil => exact Nat.zero_le _
      | cons x l ihl =>
        rw [List.flatMap_cons, List.length_append, List.length_cons, Nat.succ_mul, Nat.add_comm]
        exact Nat.add_le_add ihl (ih x)
    calc (dataBlocks d hd (depth + 1) b).length
        ≤ (pointers d hd b).length * (hd.blocksize / 4) ^ depth := hsum _
      _ ≤ hd.blocksize / 4 * (hd.blocksize / 4) ^ depth :=
          Nat.mul_le_mul_right _ (length_untilZero_le _ _ _)
      _ = (hd.blocksize / 4) ^ (depth + 1) := by rw [Nat.pow_succ, Nat.mul_comm]

/-- The data blocks below a block are its leaves, as far as these are mapped: the induction is on the levels
of pointers, and every part before that of leaf `k` is full. -/
lemma dataBlocks_get (hsize : BlockSize hd.blocksize) (h2g : 512 * d.sectors < 2147483648)
    (image : ∀ x ∈ treeBlocks d hd depth b, InImage d hd x) (hk : k < (hd.blocksize / 4) ^ depth)
    (h : ∀ j ≤ k, leaf d hd depth b j ≠ 0) :
    (dataBlocks d hd depth b)[k]? = some (leaf d hd depth b k) := by
  induction depth generalizing b k with
  | zero =>
    rw [Nat.pow_zero, Nat.lt_one_iff] at hk
    subst hk
    rfl
  | succ depth ih =>
    obtain ⟨c, hc⟩ : ∃ c, c = (hd.blocksize / 4) ^ depth := ⟨_, rfl⟩
    rw [Nat.pow_succ, ← hc] at hk
    have hpos : 0 < c := Nat.pos_of_mul_pos_right (Nat.zero_lt_of_lt hk)
    have hq : k / c < hd.blocksize / 4 := Nat.div_lt_of_lt_mul hk
    have hsplit : c * (k / c) + k % c = k := Nat.div_add_mod k c
    have hnode : ∀ m r, r < c → c * m + r ≤ k → imagePointer d hd b m ≠ 0 ∧
        leaf d hd depth (imagePointer d hd b m) r ≠ 0 := by
      intro m r hr hle
      have hne := h _ hle
      rw [hc] at hne hr
      rw [leaf_node hr] at hne
      by_cases hz : imagePointer d hd b m = 0
      · rw [if_pos hz] at hne
        exact absurd rfl hne
      · rw [if_neg hz] at hne
        exact ⟨hz, hne⟩
    have hle : ∀ m ≤ k / c, c * m ≤ k := fun m hm => by
      have hmul : c * m ≤ c * (k / c) := Nat.mul_le_mul_left c hm
      omega
    have hpointer : ∀ m ≤ k / c, (pointers d hd b)[m]? = some (imagePointer d hd b m) := fun m hm =>
      pointers_get hsize h2g (image b List.mem_cons_self) (lt_of_le_of_lt hm hq) fun m' hm' =>
        (hnode m' 0 hpos (by rw [Nat.add_zero]; exact hle m' (le_trans hm' hm))).1
    have himage : ∀ m ≤ k / c, ∀ x ∈ treeBlocks d hd depth (imagePointer d hd b m), InImage d hd x :=
      fun m hm x hx => image x (List.mem_cons_of_mem _ (List.mem_flatMap.2
        ⟨_, List.mem_of_getElem? (hpointer m hm), hx⟩))
    have hchild : ∀ m ≤ k / c, ∀ r < c, c * m + r ≤ k →
        (dataBlocks d hd depth (imagePointer d hd b m))[r]? =
          some (leaf d hd depth (imagePointer d hd b m) r) := fun m hm r hr hmr =>
      ih (himage m hm) (hc ▸ hr) fun j hj => (hnode m j (by omega) (by omega)).2
    have hmod : k % c < c := Nat.mod_lt k hpos
    have hlast := hchild (k / c) (le_refl _) (k % c) hmod (le_of_eq hsplit)
    have hget : ((pointers d hd b).flatMap (dataBlocks d hd depth))[c * (k / c) + k % c]? =
        (dataBlocks d hd depth (imagePointer d hd b (k / c)))[k % c]? := by
      refine getElem?_flatMap (hpointer _ (le_refl _)) (fun j hj x hx => ?_)
        (List.getElem?_eq_some_iff.1 hlast).1
      rw [hpointer j hj.le, Option.some.injEq] at hx
      subst hx
      have hfull : c * j + (c - 1) ≤ k := by
        have hmul : c * (j + 1) ≤ c * (k / c) := Nat.mul_le_mul_left c hj
        rw [Nat.mul_succ] at hmul
        omega
      have hlt := (List.getElem?_eq_some_iff.1 (hchild j hj.le (c - 1) (by omega) hfull)).1
      have hup := length_dataBlocks_le d hd depth (imagePointer d hd b j)
      omega
    have hleaf := @leaf_node d hd b depth (k / c) (k % c) (hc ▸ hmod)
    rw [← hc, hsplit, if_neg (hnode (k / c) (k % c) hmod (le_of_eq hsplit)).1] at hleaf
    rw [hleaf, ← hlast, ← hget, hsplit, dataBlocks]

/-- The part of a file below an indirect block. -/
lemma part_get (hsize : BlockSize hd.blocksize) (h2g : 512 * d.sectors < 2147483648)
    (image : ∀ x ∈ (if b = 0 then [] else treeBlocks d hd depth b), InImage d hd x)
    (h : ∀ j ≤ k, treeMap d hd depth b j ≠ 0) :
    (if b = 0 then [] else dataBlocks d hd depth b)[k]? = some (treeMap d hd depth b k) := by
  have hleaf : ∀ j ≤ k, (b ≠ 0 ∧ j < (hd.blocksize / 4) ^ depth) ∧
      treeMap d hd depth b j = leaf d hd depth b j := by
    intro j hj
    have hne := h j hj
    rw [treeMap] at hne ⊢
    by_cases hz : b = 0 ∨ (hd.blocksize / 4) ^ depth ≤ j
    · rw [if_pos hz] at hne
      exact absurd rfl hne
    · rw [if_neg hz]
      obtain ⟨hb, hlt⟩ := not_or.1 hz
      exact ⟨⟨hb, Nat.lt_of_not_le hlt⟩, rfl⟩
  obtain ⟨⟨hb, hlt⟩, hk⟩ := hleaf k (le_refl k)
  rw [if_neg hb] at image
  rw [if_neg hb, hk]
  refine dataBlocks_get hsize h2g image hlt fun j hj => ?_
  rw [← (hleaf j hj).2]
  exact h j hj

/-- It is full when all of its places are mapped. -/
lemma part_full (hsize : BlockSize hd.blocksize) (h2g : 512 * d.sectors < 2147483648)
    (image : ∀ x ∈ (if b = 0 then [] else treeBlocks d hd depth b), InImage d hd x)
    (h : ∀ j < (hd.blocksize / 4) ^ depth, treeMap d hd depth b j ≠ 0) :
    (if b = 0 then [] else dataBlocks d hd depth b).length = (hd.blocksize / 4) ^ depth := by
  have hper : 0 < hd.blocksize / 4 := by
    rcases hsize.cases with e | e | e <;> rw [e] <;> decide
  have hpos : 0 < (hd.blocksize / 4) ^ depth := Nat.pow_pos hper
  have hget := part_get hsize h2g image (k := (hd.blocksize / 4) ^ depth - 1) fun j hj => h j (by omega)
  have hlt := (List.getElem?_eq_some_iff.1 hget).1
  have hle : (if b = 0 then [] else dataBlocks d hd depth b).length ≤ (hd.blocksize / 4) ^ depth := by
    split
    · exact Nat.zero_le _
    · exact length_dataBlocks_le d hd depth b
  omega

/-- The blocks of a file are those its logical blocks are mapped to. -/
lemma fileBlocks_get (hsize : BlockSize hd.blocksize) (h2g : 512 * d.sectors < 2147483648)
    (image : ∀ x ∈ inodeBlocks (treeBlocks d hd) inode, InImage d hd x)
    (h : ∀ j ≤ k, blockMap d hd inode j ≠ 0) :
    (fileBlocks d hd inode)[k]? = some (blockMap d hd inode k) := by
  unfold inodeBlocks at image
  rw [List.forall_mem_append, List.forall_mem_append, List.forall_mem_append] at image
  obtain ⟨⟨⟨-, image1⟩, image2⟩, image3⟩ := image
  obtain ⟨per, hper⟩ : ∃ per, per = hd.blocksize / 4 := ⟨_, rfl⟩
  have hdirect : (untilZero inode.iBlock 12 0).flatMap (dataBlocks d hd 0) = untilZero inode.iBlock 12 0 :=
    List.flatMap_singleton' _
  have hmap0 : ∀ j < 12, blockMap d hd inode j = inode.iBlock j := fun j hj => if_pos hj
  have hmap1 : ∀ j, 12 ≤ j → j < 12 + per →
      blockMap d hd inode j = treeMap d hd 1 (inode.iBlock 12) (j - 12) := fun j h1 h2 => by
    rw [blockMap, if_neg (by omega), if_pos (hper ▸ h2)]
  have hmap2 : ∀ j, 12 + per ≤ j → j < 12 + per + per ^ 2 →
      blockMap d hd inode j = treeMap d hd 2 (inode.iBlock 13) (j - (12 + per)) := fun j h1 h2 => by
    rw [blockMap, if_neg (by omega), if_neg (by omega), if_pos (hper ▸ h2), hper]
  have hmap3 : ∀ j, 12 + per + per ^ 2 ≤ j →
      blockMap d hd inode j = treeMap d hd 3 (inode.iBlock 14) (j - (12 + per + per ^ 2)) := fun j h1 => by
    rw [hper] at h1 ⊢
    rw [blockMap, if_neg (by omega), if_neg (by omega), if_neg (by omega)]
  -- the pointers of the part from block `lo` on
  have hpart : ∀ {lo n depth b : Nat}, (∀ j, lo ≤ j → j < lo + n →
      blockMap d hd inode j = treeMap d hd depth b (j - lo)) →
      ∀ j < n, lo + j ≤ k → treeMap d hd depth b j ≠ 0 := by
    intro lo n depth b hmap j hj hk
    have hne := h (lo + j) hk
    rwa [hmap _ (Nat.le_add_right lo j) (by omega), Nat.add_sub_cancel_left] at hne
  rw [fileBlocks, inodeBlocks, hdirect]
  have hget0 : ∀ j ≤ k, j < 12 → (untilZero inode.iBlock 12 0)[j]? = some (blockMap d hd inode j) := by
    intro j hj hlt
    rw [getElem?_untilZero hlt fun m hm => ?_, Nat.zero_add, hmap0 j hlt]
    rw [Nat.zero_add, ← hmap0 m (by omega)]
    exact h m (by omega)
  have hlen0 : 12 ≤ k → (untilZero inode.iBlock 12 0).length = 12 := fun hk => by
    have hlt := (List.getElem?_eq_some_iff.1 (hget0 11 (by omega) (by decide))).1
    have hle := length_untilZero_le inode.iBlock 12 0
    omega
  have hlen1 : 12 + per ≤ k →
      (if inode.iBlock 12 = 0 then [] else dataBlocks d hd 1 (inode.iBlock 12)).length = per := fun hk => by
    rw [part_full hsize h2g image1 fun j hj => ?_, ← hper, Nat.pow_one]
    rw [← hper, Nat.pow_one] at hj
    exact hpart hmap1 j hj (by omega)
  have hlen2 : 12 + per + per ^ 2 ≤ k →
      (if inode.iBlock 13 = 0 then [] else dataBlocks d hd 2 (inode.iBlock 13)).length = per ^ 2 := fun hk => by
    rw [part_full hsize h2g image2 fun j hj => ?_, ← hper]
    rw [← hper] at hj
    exact hpart hmap2 j hj (by omega)
  rcases Nat.lt_or_ge k 12 with h0 | h0
  · have hget := hget0 k (le_refl k) h0
    have hlt := (List.getElem?_eq_some_iff.1 hget).1
    rw [List.append_assoc, List.append_assoc, List.getElem?_append_left hlt, hget]
  rcases Nat.lt_or_ge k (12 + per) with h1 | h1
  · have hget := part_get hsize h2g image1 (k := k - 12) fun j hj => hpart hmap1 j (by omega) (by omega)
    have hlt := (List.getElem?_eq_some_iff.1 hget).1
    rw [List.append_assoc, List.append_assoc, List.getElem?_append_right (by rw [hlen0 h0]; exact h0), hlen0 h0,
      List.getElem?_append_left hlt, hget, hmap1 k h0 h1]
  rcases Nat.lt_or_ge k (12 + per + per ^ 2) with h2 | h2
  · have hget := part_get hsize h2g image2 (k := k - (12 + per)) fun j hj => hpart hmap2 j (by omega) (by omega)
    have hlt := (List.getElem?_eq_some_iff.1 hget).1
    have hlen : (untilZero inode.iBlock 12 0 ++
        if inode.iBlock 12 = 0 then [] else dataBlocks d hd 1 (inode.iBlock 12)).length = 12 + per := by
      rw [List.length_append, hlen0 h0, hlen1 h1]
    rw [List.append_assoc, List.getElem?_append_right (by rw [hlen]; exact h1), hlen,
      List.getElem?_append_left hlt, hget, hmap2 k h1 h2]
  · have hget := part_get hsize h2g image3 (k := k - (12 + per + per ^ 2)) fun j hj =>
      hpart (n := k + 1) (fun j h1 _ => hmap3 j h1) j (by omega) (by omega)
    have hlen : (untilZero inode.iBlock 12 0 ++
        (if inode.iBlock 12 = 0 then [] else dataBlocks d hd 1 (inode.iBlock 12)) ++
        if inode.iBlock 13 = 0 then [] else dataBlocks d hd 2 (inode.iBlock 13)).length =
        12 + per + per ^ 2 := by
      rw [List.length_append, List.length_append, hlen0 h0, hlen1 h1, hlen2 h2]
    rw [List.getElem?_append_right (by rw [hlen]; exact h2), hlen, hget, hmap3 k h2]

/-- The data blocks below a block are among those that are read. -/
lemma mem_treeBlocks {x : Nat} (hx : x ∈ dataBlocks d hd depth b) : x ∈ treeBlocks d hd depth b := by
  induction depth generalizing b with
  | zero => exact hx
  | succ depth ih =>
    obtain ⟨q, hq, hxq⟩ := List.mem_flatMap.1 hx
    exact List.mem_cons_of_mem _ (List.mem_flatMap.2 ⟨q, hq, ih hxq⟩)

lemma mem_inodeBlocks {x : Nat} (hx : x ∈ fileBlocks d hd inode) :
    x ∈ inodeBlocks (treeBlocks d hd) inode := by
  have hpart : ∀ {depth b}, x ∈ (if b = 0 then [] else dataBlocks d hd depth b) →
      x ∈ (if b = 0 then [] else treeBlocks d hd depth b) := fun {depth b} h => by
    by_cases hb : b = 0
    · rw [if_pos hb] at h
      cases h
    · rw [if_neg hb] at h ⊢
      exact mem_treeBlocks h
  rw [fileBlocks, inodeBlocks, List.mem_append, List.mem_append, List.mem_append] at hx
  rw [inodeBlocks, List.mem_append, List.mem_append, List.mem_append]
  refine hx.imp (fun h => h.imp (fun h => h.imp (fun h => ?_) hpart) hpart) hpart
  obtain ⟨q, hq, hxq⟩ := List.mem_flatMap.1 h
  exact List.mem_flatMap.2 ⟨q, hq, mem_treeBlocks hxq⟩

/-- The buffer `ext2_read_file` returns for a file whose logical blocks are mapped. -/
lemma MapsFile.bytes {s s' : Mm} {A : Multiset (Nat × Nat)} {base : Nat} (h : MapsFile d hd inode)
    (hsize : BlockSize hd.blocksize) (h2g : 512 * d.sectors < 2147483648) (hold : heapLedger.holds s A)
    (e : Ext2.ext2ReadFile d hd s inode = .ok (s', base)) :
    heapLedger.holds s' ({(base, inode.iSize)} + A) ∧ (∀ a ∈ A, payload a s' = payload a s) ∧
      ∀ o < inode.iSize, s'.mem (base + o) =
        imageByte d hd (blockMap d hd inode (o / hd.blocksize)) (o % hd.blocksize) := by
  obtain ⟨served, mapped, image⟩ := h
  have hpos : 0 < hd.blocksize := by
    rcases hsize.cases with e | e | e <;> rw [e] <;> decide
  have hshift : ∃ k, hd.blocksize = wrap (1024 <<< k) := by
    obtain ⟨k, hk, hb⟩ := hsize
    refine ⟨k, ?_⟩
    rw [hb, Nat.shiftLeft_eq, wrap_of_lt]
    have hpow : 2 ^ k ≤ 2 ^ 2 := Nat.pow_le_pow_right (by decide) hk
    omega
  obtain ⟨chunk, kept, hbytes⟩ := ext2ReadFile_bytes hshift served (fun b hb => (image b hb).endFits hsize h2g)
    hold e
  refine ⟨chunk, kept, fun o ho => ?_⟩
  have hmapped : ∀ j ≤ o / hd.blocksize, blockMap d hd inode j ≠ 0 := fun j hj => by
    have hmul : hd.blocksize * j ≤ hd.blocksize * (o / hd.blocksize) := Nat.mul_le_mul_left _ hj
    have hle : hd.blocksize * (o / hd.blocksize) ≤ o := Nat.mul_div_le o _
    exact mapped j (by omega)
  have hget := fileBlocks_get hsize h2g image hmapped
  have hlt : o / hd.blocksize < (fileBlocks d hd inode).length := (List.getElem?_eq_some_iff.1 hget).1
  have hmem : blockMap d hd inode (o / hd.blocksize) ∈ fileBlocks d hd inode := List.mem_of_getElem? hget
  have hin := image _ (mem_inodeBlocks hmem)
  have hlt' : o < hd.blocksize * (fileBlocks d hd inode).length := by
    rw [Nat.mul_comm]
    exact (Nat.div_lt_iff_lt_mul hpos).1 hlt
  rw [hbytes o (lt_min ho hlt'), streamByte, List.getD_eq_getElem?_getD, hget, Option.getD_some,
    blockBytes_image hsize h2g hin (Nat.mod_lt o hpos)]

end Blocks

/-! ## The copies -/

/-- Why the checked function stops: as `ext2_read_file` does, or before a copy that leaves the buffer. -/
inductive CopyStop where
  | stop (e : Stop)
  | outside
deriving DecidableEq, Repr

/-- A step of the checked function without a copy. -/
def orStop {α : Type} (x : Except Stop α) : Except CopyStop α := x.mapError .stop

/-- The part of `ext2_read_file` for a data block, when the copy stays between `lo` and `hi`. -/
def copyChecked (lo hi : Nat) (d : Drive) (hd : Hd) (buf b : Nat) (c : Copying) : Except CopyStop Copying := do
  let s ← orStop (readBlock d hd c.mm b buf)
  let n := if c.size > hd.blocksize then hd.blocksize else c.size
  if lo ≤ c.head ∧ c.head + n ≤ hi then
    return ⟨s.withHeap (copyBytes s.mem c.head buf n) s.kmallocUsed, c.head + n, c.size - n⟩
  else throw .outside

/-- The loops over pointers. -/
def eachChecked (pointer : Mm → Nat → Nat) (body : Nat → Copying → Except CopyStop Copying) :
    Nat → Nat → Copying → Except CopyStop Copying
  | 0, _, c => .ok c
  | left + 1, i, c =>
    if pointer c.mm i = 0 then .ok c
    else do
      let c' ← body (pointer c.mm i) c
      eachChecked pointer body left (i + 1) c'

/-- The tree below a block. -/
def treeChecked (lo hi : Nat) (d : Drive) (hd : Hd) (buf : Nat) :
    List Nat → Nat → Copying → Except CopyStop Copying
  | [], b, c => copyChecked lo hi d hd buf b c
  | p :: tables, b, c => do
    let s ← orStop (readBlock d hd c.mm b p)
    eachChecked (tablePointer p) (treeChecked lo hi d hd buf tables) (hd.blocksize / 4) 0 { c with mm := s }

/-- The tree of an indirect block. -/
def indirectChecked (lo hi : Nat) (d : Drive) (hd : Hd) (buf : Nat) (tables : List Nat) (b : Nat) (c : Copying) :
    Except CopyStop Copying :=
  if b = 0 then .ok c else treeChecked lo hi d hd buf tables b c

/-- `ext2_read_file()` that stops before a copy to an address outside the buffer of the file. -/
def readFileChecked (d : Drive) (hd : Hd) (s : Mm) (inode : Inode) : Except CopyStop (Mm × Nat) := do
  let (s, buf) ← orStop (kmalloc s hd.blocksize)
  let (s, p) ← orStop (kmalloc s hd.blocksize)
  let (s, pp) ← orStop (kmalloc s hd.blocksize)
  let (s, ppp) ← orStop (kmalloc s hd.blocksize)
  let (s, mmapBase) ← orStop (kmalloc s inode.iSize)
  let hi := mmapBase + inode.iSize
  let c ← eachChecked (fun _ => inode.iBlock) (copyChecked mmapBase hi d hd buf) 12 0 ⟨s, mmapBase, inode.iSize⟩
  let c ← indirectChecked mmapBase hi d hd buf [p] (inode.iBlock 12) c
  let c ← indirectChecked mmapBase hi d hd buf [p, pp] (inode.iBlock 13) c
  let c ← indirectChecked mmapBase hi d hd buf [p, pp, ppp] (inode.iBlock 14) c
  let s ← orStop (kfree c.mm buf)
  let s ← orStop (kfree s p)
  let s ← orStop (kfree s pp)
  let s ← orStop (kfree s ppp)
  return (s, mmapBase)

/-- `mmap_head` and `size` add up to the end of the buffer. -/
def WithinBuffer (lo hi : Nat) (c : Copying) : Prop := lo ≤ c.head ∧ c.head + c.size = hi

/-- On states of which `P` holds the checked function is the other one, and keeps `P`. -/
def Checks (P : Copying → Prop) (f : Copying → Except Stop Copying) (g : Copying → Except CopyStop Copying) : Prop :=
  ∀ c, P c → g c = orStop (f c) ∧ ∀ c', f c = .ok c' → P c'

section Checked

variable {α β : Type} {d : Drive} {hd : Hd} {buf b lo hi : Nat} {P : Copying → Prop}

/-- Two functions that agree behind a common step. -/
lemma orStop_bind_congr {x : Except Stop α} {f : α → Except Stop β} {g : α → Except CopyStop β}
    (h : ∀ a, x = .ok a → g a = orStop (f a)) : (orStop x >>= g) = orStop (x >>= f) := by
  cases x with
  | error e => rfl
  | ok a => exact h a rfl

lemma copyChecked_checks :
    Checks (WithinBuffer lo hi) (copyBlock d hd buf b) (copyChecked lo hi d hd buf b) := by
  rintro c ⟨hlo, hhi⟩
  have hn : (if c.size > hd.blocksize then hd.blocksize else c.size) ≤ c.size := by
    split <;> omega
  constructor
  · refine orStop_bind_congr fun s _ => ?_
    dsimp only
    rw [if_pos ⟨hlo, by omega⟩]
    rfl
  · intro c' e
    obtain ⟨s, -, e⟩ := bind_ok.1 e
    cases e
    refine ⟨by dsimp only; omega, ?_⟩
    dsimp only
    omega

lemma eachChecked_checks {pointer : Mm → Nat → Nat} {f : Nat → Copying → Except Stop Copying}
    {g : Nat → Copying → Except CopyStop Copying} (h : ∀ b, Checks P (f b) (g b)) (left i : Nat) :
    Checks P (eachBlock pointer f left i) (eachChecked pointer g left i) := by
  induction left generalizing i with
  | zero =>
    intro c hc
    refine ⟨rfl, fun c' e => ?_⟩
    cases e
    exact hc
  | succ left ih =>
    intro c hc
    rw [eachBlock, eachChecked]
    by_cases hz : pointer c.mm i = 0
    · rw [if_pos hz, if_pos hz]
      refine ⟨rfl, fun c' e => ?_⟩
      cases e
      exact hc
    · rw [if_neg hz, if_neg hz]
      obtain ⟨heq, hkeep⟩ := h (pointer c.mm i) c hc
      constructor
      · rw [heq]
        exact orStop_bind_congr fun c1 e1 => (ih (i + 1) c1 (hkeep c1 e1)).1
      · intro c' e
        obtain ⟨c1, e1, e⟩ := bind_ok.1 e
        exact (ih (i + 1) c1 (hkeep c1 e1)).2 c' e

lemma treeChecked_checks (tables : List Nat) (b : Nat) :
    Checks (WithinBuffer lo hi) (readTree d hd buf tables b) (treeChecked lo hi d hd buf tables b) := by
  induction tables generalizing b with
  | nil => exact copyChecked_checks
  | cons p tables ih =>
    intro c hc
    have hloop := @eachChecked_checks _ (tablePointer p) _ _ ih (hd.blocksize / 4) 0
    constructor
    · exact orStop_bind_congr fun s _ => (hloop { c with mm := s } hc).1
    · intro c' e
      obtain ⟨s, -, e⟩ := bind_ok.1 e
      exact (hloop { c with mm := s } hc).2 c' e

lemma indirectChecked_checks (tables : List Nat) (b : Nat) :
    Checks (WithinBuffer lo hi) (readIndirect d hd buf tables b) (indirectChecked lo hi d hd buf tables b) := by
  intro c hc
  rw [readIndirect, indirectChecked]
  by_cases hb : b = 0
  · rw [if_pos hb, if_pos hb]
    refine ⟨rfl, fun c' e => ?_⟩
    cases e
    exact hc
  · rw [if_neg hb, if_neg hb]
    exact treeChecked_checks tables b c hc

/-- No copy of `ext2_read_file` leaves the buffer. -/
lemma readFileChecked_eq (d : Drive) (hd : Hd) (s : Mm) (inode : Inode) :
    readFileChecked d hd s inode = orStop (Ext2.ext2ReadFile d hd s inode) := by
  refine orStop_bind_congr fun ⟨s1, buf⟩ _ => ?_
  refine orStop_bind_congr fun ⟨s2, p⟩ _ => ?_
  refine orStop_bind_congr fun ⟨s3, pp⟩ _ => ?_
  refine orStop_bind_congr fun ⟨s4, ppp⟩ _ => ?_
  refine orStop_bind_congr fun ⟨s5, base⟩ _ => ?_
  have start : WithinBuffer base (base + inode.iSize) ⟨s5, base, inode.iSize⟩ := ⟨le_refl _, rfl⟩
  obtain ⟨e1, k1⟩ := @eachChecked_checks _ (fun _ => inode.iBlock) _ _ (fun b => @copyChecked_checks d hd buf b
    base (base + inode.iSize)) 12 0 _ start
  dsimp only
  rw [e1]
  refine orStop_bind_congr fun c1 h1 => ?_
  obtain ⟨e2, k2⟩ := indirectChecked_checks [p] (inode.iBlock 12) c1 (k1 c1 h1)
  rw [e2]
  refine orStop_bind_congr fun c2 h2 => ?_
  obtain ⟨e3, k3⟩ := indirectChecked_checks [p, pp] (inode.iBlock 13) c2 (k2 c2 h2)
  rw [e3]
  refine orStop_bind_congr fun c3 h3 => ?_
  rw [(indirectChecked_checks [p, pp, ppp] (inode.iBlock 14) c3 (k3 c3 h3)).1]
  refine orStop_bind_congr fun c4 _ => ?_
  refine orStop_bind_congr fun t1 _ => ?_
  refine orStop_bind_congr fun t2 _ => ?_
  refine orStop_bind_congr fun t3 _ => ?_
  exact orStop_bind_congr fun t4 _ => rfl

end Checked

/-- On an image of less than 2 GB `ext2_read_file` returns the contents of a file whose logical blocks are
mapped, and it copies no byte to an address outside its buffer, for any inode. -/
theorem read_file_contents {d : Drive} {hd : Hd} (hsize : BlockSize hd.blocksize)
    (h2g : 512 * d.sectors < 2147483648) :
    (∀ inode s s' A base, MapsFile d hd inode → heapLedger.holds s A →
      Ext2.ext2ReadFile d hd s inode = .ok (s', base) →
      heapLedger.holds s' ({(base, inode.iSize)} + A) ∧ ∀ o < inode.iSize, s'.mem (base + o) =
        imageByte d hd (blockMap d hd inode (o / hd.blocksize)) (o % hd.blocksize)) ∧
    ∀ inode s, readFileChecked d hd s inode = orStop (Ext2.ext2ReadFile d hd s inode) :=
  ⟨fun _ _ _ _ _ h hold e => ⟨(h.bytes hsize h2g hold e).1, (h.bytes hsize h2g hold e).2.2⟩,
    fun inode s => readFileChecked_eq d hd s inode⟩

/-- A heap of at most `n` pages that holds the chunks of `A`. -/
structure SmallHeap (s : Mm) (A : Multiset (Nat × Nat)) (n : Nat) : Prop where
  holds : heapLedger.holds s A
  map : KernelMap s.ram s.dir
  small : s.kernHeap ≤ KERN_HEAP + n * PAGESIZE

/-- A request of at most a page is served. -/
lemma SmallHeap.kmalloc {s : Mm} {A : Multiset (Nat × Nat)} {n size : Nat} (h : SmallHeap s A n) (hn : n < 1000)
    (hsize : size ≤ 4000) : ∃ s' p, Creeks.kmalloc s size = .ok (s', p) ∧ SmallHeap s' ({(p, size)} + A) (n + 1) := by
  obtain ⟨holds, map, small⟩ := h
  obtain ⟨chunks, live, rep, -⟩ := id holds
  have owned : Owned s [] := ⟨List.nodup_nil, chunks, live, rep, List.nil_subset _⟩
  have hgrow : growPages size = 1 := growPages_small (lt_of_le_of_lt hsize (by decide))
  have hlim : size + 4 < KERN_HEAP_LIM - KERN_HEAP := lt_of_le_of_lt (Nat.add_le_add_right hsize 4) (by decide)
  simp only [KERN_HEAP, PAGESIZE] at small
  have hroom : s.kernHeap + growPages size * PAGESIZE ≤ KERN_HEAP_LIM := by
    rw [hgrow]
    simp only [KERN_HEAP_LIM, PAGESIZE]
    omega
  obtain ⟨s', p, e, uses⟩ := owned.kmalloc_room map hlim hroom
  have hserved : Served size := by
    unfold Served
    omega
  have holds' := (kmalloc_effect hserved e A (by rwa [zero_add])).1
  refine ⟨s', p, e, holds', (owned.kmalloc map hlim e).2.2.2, ?_⟩
  have hheap := uses.heap
  rw [hgrow] at hheap
  simp only [KERN_HEAP, PAGESIZE] at hheap ⊢
  omega

/-- What only writes the heap keeps its size. -/
lemma SmallHeap.write {s s' : Mm} {A B : Multiset (Nat × Nat)} {n : Nat} (h : SmallHeap s A n)
    (holds : heapLedger.holds s' B) (e : ∃ mem used, s' = s.withHeap mem used) : SmallHeap s' B n := by
  obtain ⟨mem, used, rfl⟩ := e
  obtain ⟨-, map, small⟩ := h
  refine ⟨holds, ?_, ?_⟩
  · rwa [withHeap_ram, withHeap_dir]
  · rwa [withHeap_kernHeap]

/-- `disk_read` only writes the heap once it has its buffer. -/
lemma diskRead_frame {d : Drive} {drive buf bl count b skip : Nat} {offset : Int} {s s1 s' : Mm}
    (range : RangeOk offset count b skip) (hm : kmalloc s (512 * b) = .ok (s1, bl))
    (e : diskRead d drive s offset buf count = .ok s') : ∃ mem used, s' = s1.withHeap mem used := by
  have hsmall := range.small
  have hun : unsigned (blocks offset count * 512) = 512 * b := by
    rw [unsigned, range.sectors]
    omega
  rw [diskRead, hun, hm, ok_bind] at e
  obtain ⟨mem, used, e⟩ := kfree_frame e
  exact ⟨mem, used, by rw [e, withHeap_withHeap]⟩

/-- The file of 100 bytes is read, with six pages of the heap at most. -/
lemma smallFile_run {d : Drive} {s : Mm} {A : Multiset (Nat × Nat)} {n : Nat} (h2g : 512 * d.sectors < 2147483648)
    (image : InImage d ⟨0, 0, 1024⟩ 1) (h0 : SmallHeap s A n) (hn : n < 900) :
    ∃ s' base, Ext2.ext2ReadFile d ⟨0, 0, 1024⟩ s smallFile = .ok (s', base) ∧
      SmallHeap s' ({(base, 100)} + A) (n + 6) := by
  have fits := image.endFits ⟨0, by decide, rfl⟩ h2g
  obtain ⟨s1, buf, e1, h1⟩ := @SmallHeap.kmalloc _ _ _ 1024 h0 (by omega) (by decide)
  obtain ⟨s2, p, e2, h2⟩ := @SmallHeap.kmalloc _ _ _ 1024 h1 (by omega) (by decide)
  obtain ⟨s3, pp, e3, h3⟩ := @SmallHeap.kmalloc _ _ _ 1024 h2 (by omega) (by decide)
  obtain ⟨s4, ppp, e4, h4⟩ := @SmallHeap.kmalloc _ _ _ 1024 h3 (by omega) (by decide)
  obtain ⟨s5, base, e5, h5⟩ := @SmallHeap.kmalloc _ _ _ 100 h4 (by omega) (by decide)
  obtain ⟨s6, bl, e6, h6⟩ := @SmallHeap.kmalloc _ _ _ 1536 h5 (by omega) (by decide)
  have range : RangeOk (blockOffset ⟨0, 0, 1024⟩ 1) 1024 3 0 :=
    @blockOffset_range ⟨0, 0, 1024⟩ 1 (by decide) (by decide) fits
  have hold : heapLedger.holds s5 ({(buf, 1024)} + ({(base, 100)} + (({(p, 1024)} + ({(pp, 1024)} + {(ppp, 1024)})) +
      A))) := by
    convert h5.holds using 1
    abel
  obtain ⟨s7, e7, -⟩ := @diskRead_spec d s5 s6 _ 0 _ _ _ _ _ _ _ _ range hold (le_refl buf) (le_refl _) e6
  obtain ⟨mem7, used7, h7⟩ := diskRead_frame range e6 e7
  obtain ⟨c, hcopy, mem8, used8, h8⟩ : ∃ c, copyBlock d ⟨0, 0, 1024⟩ buf 1 ⟨s5, base, 100⟩ = .ok c ∧
      ∃ mem used, c.mm = s6.withHeap mem used := by
    refine ⟨_, by rw [copyBlock, readBlock, e7, ok_bind]; rfl, copyBytes s7.mem base buf 100, s7.kmallocUsed, ?_⟩
    change s7.withHeap (copyBytes s7.mem base buf 100) s7.kmallocUsed = _
    rw [h7, withHeap_withHeap]
  have start : Filled d ⟨0, 0, 1024⟩ buf base 100 s5 ({(p, 1024)} + ({(pp, 1024)} + {(ppp, 1024)})) A []
      ⟨s5, base, 100⟩ :=
    ⟨hold, rfl, rfl, fun i hi => absurd hi (Nat.not_lt_zero i), fun _ _ => rfl⟩
  have holds : heapLedger.holds c.mm ({(buf, 1024)} + ({(p, 1024)} + ({(pp, 1024)} + ({(ppp, 1024)} +
      ({(base, 100)} + A))))) := by
    convert (start.copyBlock (by decide) fits hcopy).holds using 1
    abel
  obtain ⟨t1, t2, t3, t4, f1, f2, f3, f4⟩ := kfree_buffers_total holds
  have hloop : eachBlock (fun _ => smallFile.iBlock) (copyBlock d ⟨0, 0, 1024⟩ buf) 12 0
      ⟨s5, base, smallFile.iSize⟩ = .ok c := by
    rw [eachBlock, if_neg (by decide)]
    change copyBlock d ⟨0, 0, 1024⟩ buf 1 ⟨s5, base, 100⟩ >>= _ = _
    rw [hcopy, ok_bind]
    exact if_pos rfl
  refine ⟨t4, base, @ext2ReadFile_direct _ _ _ _ _ _ _ _ _ d ⟨0, 0, 1024⟩ smallFile _ _ _ _ _ _ _ e1 e2 e3 e4 e5
    hloop rfl rfl rfl f1 f2 f3 f4, h6.write (kfree_buffers f1 f2 f3 f4 holds).1 ?_⟩
  obtain ⟨m1, u1, g1⟩ := kfree_frame f1
  obtain ⟨m2, u2, g2⟩ := kfree_frame f2
  obtain ⟨m3, u3, g3⟩ := kfree_frame f3
  obtain ⟨m4, u4, g4⟩ := kfree_frame f4
  refine ⟨m4, u4, ?_⟩
  rw [g4, g3, g2, g1, h8]
  simp only [withHeap_withHeap]

/-- The logical blocks of the file of 100 bytes are mapped. -/
lemma smallFile_maps {d : Drive} (image : InImage d ⟨0, 0, 1024⟩ 1) : MapsFile d ⟨0, 0, 1024⟩ smallFile := by
  refine ⟨by decide, fun k hk => ?_, fun b hb => ?_⟩
  · have hk0 : k = 0 := by
      change 1024 * k < 100 at hk
      omega
    have hmap : blockMap d ⟨0, 0, 1024⟩ smallFile 0 = 1 := rfl
    rw [hk0, hmap]
    decide
  · have hblocks : inodeBlocks (treeBlocks d ⟨0, 0, 1024⟩) smallFile = [1] := rfl
    rw [hblocks, List.mem_singleton] at hb
    rwa [hb]

lemma dirtyHeap_small (v : UInt8) : SmallHeap (dirtyHeap v) 0 1 :=
  ⟨dirtyHeap_holds v, (dirtyHeap_above v).map, (dirtyHeap_above v).small⟩

/-- The file of 100 bytes, on a drive of sevens. -/
theorem read_file_contents_small : ∃ s s' base, heapLedger.holds s 0 ∧
    Ext2.ext2ReadFile ⟨64, fun _ => 7, fun _ _ => 0⟩ ⟨0, 0, 1024⟩ s smallFile = .ok (s', base) ∧
    ∀ o < 100, s'.mem (base + o) = 7 := by
  obtain ⟨d, hd⟩ : ∃ d : Drive, d = ⟨64, fun _ => 7, fun _ _ => 0⟩ := ⟨_, rfl⟩
  rw [← hd]
  have image : InImage d ⟨0, 0, 1024⟩ 1 := by
    rw [hd]
    decide
  have h2g : 512 * d.sectors < 2147483648 := by
    rw [hd]
    decide
  obtain ⟨s', base, run, -⟩ := smallFile_run h2g image (dirtyHeap_small 0) (by decide)
  obtain ⟨-, hbytes⟩ := (read_file_contents ⟨0, by decide, rfl⟩ h2g).1 _ _ _ _ _ (smallFile_maps image)
    (dirtyHeap_holds 0) run
  refine ⟨_, _, _, dirtyHeap_holds 0, run, fun o ho => ?_⟩
  rw [hbytes o ho, imageByte, hd]

end Creeks
