import Creeks.Ext2.Block

/-!
# Looking up an inode

`ext2_get_disk_info` and `ext2_read_inode`. The group and the place in its table come from the inode number by
division; what is read is as long as the super block says, and goes to a structure of 128 bytes.
`inode_lookup` says for which file systems this is safe for every inode number.
-/

namespace Creeks
open Lib

/-- The fields of `struct ext2_super_block` that locating an inode uses. -/
structure SuperBlock where
  sInodesCount : Nat
  sInodesCount_lt : sInodesCount < 4294967296
  sBlocksCount : Nat
  sLogBlockSize : Nat
  sBlocksPerGroup : Nat
  sInodesPerGroup : Nat
  sInodeSize : Nat
deriving DecidableEq, Repr

/-- `struct disk`, with `bg_inode_table` of each group descriptor from `gd` on. -/
structure DiskInfo where
  device : Nat
  sLba : Nat
  sb : SuperBlock
  blocksize : Nat
  groups : Nat
  bgInodeTable : Nat → Nat

/-- `sizeof(struct ext2_inode)` -/
def INODE_STRUCT : Nat := 128

/-- The number of groups of `n` elements, `per` to a group. -/
def groupsOf (n per : Nat) : Nat := n / per + if n % per ≠ 0 then 1 else 0

/-- `hd->groups`, an `u16` -/
def groupCount (sb : SuperBlock) : Nat :=
  let i := groupsOf sb.sBlocksCount sb.sBlocksPerGroup
  let j := groupsOf sb.sInodesCount sb.sInodesPerGroup
  (if int32 i > int32 j then i else j) % 65536

/-- `ext2_get_disk_info()`, with the super block and the group descriptors it has read. Without a result it
has divided by zero. -/
def ext2GetDiskInfo (device sLba : Nat) (sb : SuperBlock) (bgInodeTable : Nat → Nat) : Option DiskInfo :=
  if sb.sBlocksPerGroup = 0 ∨ sb.sInodesPerGroup = 0 then none
  else some ⟨device, sLba, sb, wrap (1024 <<< sb.sLogBlockSize), groupCount sb, bgInodeTable⟩

/-- `gr_num` -/
def grNum (hd : DiskInfo) (iNum : Nat) : Nat := wrap (iNum + 4294967295) / hd.sb.sInodesPerGroup

/-- `index` -/
def inodeIndex (hd : DiskInfo) (iNum : Nat) : Nat := wrap (iNum + 4294967295) % hd.sb.sInodesPerGroup

/-- `(hd->part->s_lba * 512) + offset`, as the argument `offset` of `disk_read`. -/
def inodeOffset (hd : DiskInfo) (iNum : Nat) : Int :=
  int32 (wrap (hd.sLba * 512 + wrap (hd.bgInodeTable (grNum hd iNum) * hd.blocksize +
    inodeIndex hd iNum * hd.sb.sInodeSize)))

/-- `ext2_read_inode()` -/
def ext2ReadInode (d : Drive) (hd : DiskInfo) (s : Mm) (iNum : Nat) : Except Stop (Mm × Nat) := do
  let r ← kmalloc s INODE_STRUCT
  let s ← diskRead d hd.device r.1 (inodeOffset hd iNum) r.2 hd.sb.sInodeSize
  return (s, r.2)

/-- The addresses `disk_read` stores to for `ext2_read_inode`. -/
def inodeWrites (hd : DiskInfo) (inode : Nat) : List Nat :=
  (List.range hd.sb.sInodeSize).map (inode + ·)

/-- The inode numbers of a file system. -/
def DiskInfo.Valid (hd : DiskInfo) (n : Nat) : Prop := 1 ≤ n ∧ n ≤ hd.sb.sInodesCount

/-- The byte of the drive at which the inode table of a group begins. -/
def DiskInfo.table (hd : DiskInfo) (g : Nat) : Nat := hd.sLba * 512 + hd.bgInodeTable g * hd.blocksize

/-- The bytes of an inode on the drive: those of slot `(n - 1) mod s_inodes_per_group` of its table. -/
def DiskInfo.slot (hd : DiskInfo) (n : Nat) : Set Nat :=
  let first := hd.table ((n - 1) / hd.sb.sInodesPerGroup) +
    (n - 1) % hd.sb.sInodesPerGroup * hd.sb.sInodeSize
  Set.Ico first (first + hd.sb.sInodeSize)

/-- The number of inodes in the table of a group. -/
def DiskInfo.tableLength (hd : DiskInfo) (g : Nat) : Nat :=
  min hd.sb.sInodesPerGroup (hd.sb.sInodesCount - g * hd.sb.sInodesPerGroup)

/-- The bytes of the inodes of a group. -/
def DiskInfo.tableBytes (hd : DiskInfo) (g : Nat) : Set Nat :=
  Set.Ico (hd.table g) (hd.table g + hd.tableLength g * hd.sb.sInodeSize)

/-- Looking up the inodes is safe: the group is one `gd` has, the bytes of the slot arrive, no two inodes
share bytes, and only the structure is written to. -/
structure LookupSafe (d : Drive) (hd : DiskInfo) : Prop where
  group : ∀ n, hd.Valid n → grNum hd n < hd.groups
  stored : ∀ n, hd.Valid n → ∀ s s' p A, heapLedger.holds s A → ext2ReadInode d hd s n = .ok (s', p) →
    ∀ i < hd.sb.sInodeSize, s'.mem (p + i) = d.bytes (hd.table (grNum hd n) +
      (n - 1) % hd.sb.sInodesPerGroup * hd.sb.sInodeSize + i)
  apart : ∀ n m, hd.Valid n → hd.Valid m → n ≠ m → Disjoint (hd.slot n) (hd.slot m)
  inside : ∀ n, hd.Valid n → ∀ p, ∀ x ∈ inodeWrites hd p, p ≤ x ∧ x < p + INODE_STRUCT

/-- A file system the look up is made for. -/
structure LookupServed (hd : DiskInfo) : Prop where
  size : 0 < hd.sb.sInodesCount → hd.sb.sInodeSize ≤ INODE_STRUCT
  groups : groupsOf hd.sb.sInodesCount hd.sb.sInodesPerGroup ≤ hd.groups
  tables : ∀ g g', g * hd.sb.sInodesPerGroup < hd.sb.sInodesCount →
    g' * hd.sb.sInodesPerGroup < hd.sb.sInodesCount → g ≠ g' →
    Disjoint (hd.tableBytes g) (hd.tableBytes g')

/-- The slots in the tables of the groups of `gd` lie on the drive, below byte 2^31. -/
def FitsDrive (d : Drive) (hd : DiskInfo) : Prop :=
  ∀ n, hd.Valid n → grNum hd n < hd.groups → ∀ x ∈ hd.slot n,
    x + 1 < 2147483648 ∧ x < 512 * d.sectors

section Lookup

variable {d : Drive} {hd : DiskInfo} {n m g x : Nat}

/-- A group is counted when an element falls into it. -/
lemma lt_groupsOf {n per : Nat} (hper : 0 < per) : g < groupsOf n per ↔ g * per < n := by
  have hdiv := Nat.div_add_mod' n per
  have hmod := Nat.mod_lt n hper
  unfold groupsOf
  constructor
  · intro h
    rcases Nat.lt_or_ge g (n / per) with hlt | hge
    · have hle := Nat.mul_le_mul_right per hlt
      rw [Nat.succ_mul] at hle
      omega
    · split at h
      case isTrue hne =>
        have he : g = n / per := by omega
        rw [he]
        omega
      case isFalse => omega
  · intro h
    rcases Nat.lt_or_ge g (n / per) with hlt | hge
    · exact lt_of_lt_of_le hlt (Nat.le_add_right _ _)
    · have hle := Nat.mul_le_mul_right per hge
      rw [if_pos (by omega)]
      by_contra hgt
      have hle' := Nat.mul_le_mul_right per (show n / per + 1 ≤ g by omega)
      rw [Nat.succ_mul] at hle'
      omega

/-- The number of an inode, from 0. -/
lemma wrap_pred (hn : hd.Valid n) : wrap (n + 4294967295) = n - 1 := by
  have hlt := hd.sb.sInodesCount_lt
  obtain ⟨h1, h2⟩ := hn
  rw [wrap_eq]
  omega

lemma grNum_eq (hn : hd.Valid n) : grNum hd n = (n - 1) / hd.sb.sInodesPerGroup := by
  rw [grNum, wrap_pred hn]

/-- The first byte of the slot of an inode. -/
lemma mem_slot (hn : hd.Valid n) : x ∈ hd.slot n ↔
    hd.table (grNum hd n) + (n - 1) % hd.sb.sInodesPerGroup * hd.sb.sInodeSize ≤ x ∧
      x < hd.table (grNum hd n) + (n - 1) % hd.sb.sInodesPerGroup * hd.sb.sInodeSize +
        hd.sb.sInodeSize := by
  rw [grNum_eq hn]
  exact Iff.rfl

/-- The argument of `disk_read` is the first byte of the slot, when that is below 2^31. -/
lemma inodeOffset_eq (hn : hd.Valid n)
    (hlt : hd.table (grNum hd n) + (n - 1) % hd.sb.sInodesPerGroup * hd.sb.sInodeSize < 2147483648) :
    inodeOffset hd n =
      (hd.table (grNum hd n) + (n - 1) % hd.sb.sInodesPerGroup * hd.sb.sInodeSize : Nat) := by
  have hidx : inodeIndex hd n = (n - 1) % hd.sb.sInodesPerGroup := by rw [inodeIndex, wrap_pred hn]
  rw [inodeOffset, hidx, wrap_eq, wrap_eq, Nat.add_mod_mod, ← Nat.add_assoc]
  change int32 (((hd.table (grNum hd n) +
    (n - 1) % hd.sb.sInodesPerGroup * hd.sb.sInodeSize) % 4294967296 : Nat) : Int) = _
  generalize hd.table (grNum hd n) + (n - 1) % hd.sb.sInodesPerGroup * hd.sb.sInodeSize = first at *
  have hmod : first % 4294967296 = first := Nat.mod_eq_of_lt (by omega)
  rw [hmod, int32_of_bounds (by omega) (by omega)]

/-- The bytes of a table are those of the inodes of its group. -/
lemma mem_tableBytes (hper : 0 < hd.sb.sInodesPerGroup) (hsize : 0 < hd.sb.sInodeSize) :
    x ∈ hd.tableBytes g ↔ ∃ n, hd.Valid n ∧ grNum hd n = g ∧ x ∈ hd.slot n := by
  unfold DiskInfo.tableBytes DiskInfo.tableLength
  constructor
  · rintro ⟨hlo, hhi⟩
    have hidx : (x - hd.table g) / hd.sb.sInodeSize <
        min hd.sb.sInodesPerGroup (hd.sb.sInodesCount - g * hd.sb.sInodesPerGroup) := by
      rw [Nat.div_lt_iff_lt_mul hsize]
      omega
    generalize hq : (x - hd.table g) / hd.sb.sInodeSize = q at hidx
    have hdiv := Nat.div_add_mod' (x - hd.table g) hd.sb.sInodeSize
    have hmod := Nat.mod_lt (x - hd.table g) hsize
    rw [hq] at hdiv
    have hvalid : hd.Valid (g * hd.sb.sInodesPerGroup + q + 1) := by
      unfold DiskInfo.Valid
      omega
    have hgr : (g * hd.sb.sInodesPerGroup + q) / hd.sb.sInodesPerGroup = g := by
      rw [Nat.mul_comm, Nat.mul_add_div hper, Nat.div_eq_of_lt (by omega), Nat.add_zero]
    have hix : (g * hd.sb.sInodesPerGroup + q) % hd.sb.sInodesPerGroup = q := by
      rw [Nat.mul_comm, Nat.mul_add_mod, Nat.mod_eq_of_lt (by omega)]
    have hgn : grNum hd (g * hd.sb.sInodesPerGroup + q + 1) = g := by
      rw [grNum_eq hvalid, Nat.add_sub_cancel, hgr]
    refine ⟨_, hvalid, hgn, (mem_slot hvalid).2 ?_⟩
    rw [hgn, Nat.add_sub_cancel, hix]
    omega
  · rintro ⟨n, hn, rfl, hx⟩
    obtain ⟨hlo, hhi⟩ := (mem_slot hn).1 hx
    have hgr := grNum_eq hn
    have hdiv := Nat.div_add_mod' (n - 1) hd.sb.sInodesPerGroup
    have hmod := Nat.mod_lt (n - 1) hper
    rw [← hgr] at hdiv
    have hlt : (n - 1) % hd.sb.sInodesPerGroup + 1 ≤
        min hd.sb.sInodesPerGroup (hd.sb.sInodesCount - grNum hd n * hd.sb.sInodesPerGroup) := by
      obtain ⟨h1, h2⟩ := hn
      omega
    have hle := Nat.mul_le_mul_right hd.sb.sInodeSize hlt
    rw [Nat.succ_mul] at hle
    exact ⟨by omega, by omega⟩

/-- Two inodes of one group have different slots. -/
lemma slot_disjoint (hn : hd.Valid n) (hm : hd.Valid m) (hg : grNum hd n = grNum hd m) (hne : n ≠ m) :
    Disjoint (hd.slot n) (hd.slot m) := by
  rw [Set.disjoint_left]
  intro x hxn hxm
  obtain ⟨h1, h2⟩ := (mem_slot hn).1 hxn
  obtain ⟨h3, h4⟩ := (mem_slot hm).1 hxm
  rw [hg] at h1 h2
  have hdn := Nat.div_add_mod' (n - 1) hd.sb.sInodesPerGroup
  have hdm := Nat.div_add_mod' (m - 1) hd.sb.sInodesPerGroup
  rw [← grNum_eq hn, hg] at hdn
  rw [← grNum_eq hm] at hdm
  obtain ⟨hn1, -⟩ := hn
  obtain ⟨hm1, -⟩ := hm
  rcases Nat.lt_or_gt_of_ne hne with hlt | hgt
  · have hle := Nat.mul_le_mul_right hd.sb.sInodeSize
      (show (n - 1) % hd.sb.sInodesPerGroup + 1 ≤ (m - 1) % hd.sb.sInodesPerGroup by omega)
    rw [Nat.succ_mul] at hle
    omega
  · have hle := Nat.mul_le_mul_right hd.sb.sInodeSize
      (show (m - 1) % hd.sb.sInodesPerGroup + 1 ≤ (n - 1) % hd.sb.sInodesPerGroup by omega)
    rw [Nat.succ_mul] at hle
    omega

/-- What `ext2_read_inode` stores. -/
lemma ext2ReadInode_stored {s s' : Mm} {p : Nat} {A : Multiset (Nat × Nat)} (hn : hd.Valid n)
    (hpos : 0 < hd.sb.sInodeSize) (hsize : hd.sb.sInodeSize ≤ INODE_STRUCT)
    (hfits : ∀ x ∈ hd.slot n, x + 1 < 2147483648 ∧ x < 512 * d.sectors) (hold : heapLedger.holds s A)
    (h : ext2ReadInode d hd s n = .ok (s', p)) {i : Nat} (hi : i < hd.sb.sInodeSize) :
    s'.mem (p + i) = d.bytes (hd.table (grNum hd n) +
      (n - 1) % hd.sb.sInodesPerGroup * hd.sb.sInodeSize + i) := by
  obtain ⟨⟨s1, q⟩, hm, h⟩ := bind_ok.1 h
  obtain ⟨s2, hr, h⟩ := bind_ok.1 h
  cases h
  dsimp only at hr
  unfold INODE_STRUCT at hsize hm
  have hin := fun x => (@mem_slot hd n x hn)
  have hlast := hfits _ ((hin (hd.table (grNum hd n) + (n - 1) % hd.sb.sInodesPerGroup * hd.sb.sInodeSize +
    (hd.sb.sInodeSize - 1))).2 ⟨by omega, by omega⟩)
  have hbyte := hfits _ ((hin (hd.table (grNum hd n) + (n - 1) % hd.sb.sInodesPerGroup * hd.sb.sInodeSize +
    i)).2 ⟨by omega, by omega⟩)
  rw [inodeOffset_eq hn (by omega)] at hr
  generalize hd.table (grNum hd n) + (n - 1) % hd.sb.sInodesPerGroup * hd.sb.sInodeSize = first at *
  generalize hd.sb.sInodeSize = size at *
  have h31 : first + size < 2147483648 := by omega
  have hspan : (first + size) / 512 - first / 512 < 256 := by omega
  have hown := (kmalloc_effect (by decide) hm A (by rwa [zero_add])).1
  obtain ⟨⟨s3, bl⟩, hk, -⟩ := bind_ok.1 hr
  have hun : unsigned (blocks first size * 512) = 512 * ((first + size) / 512 - first / 512 + 1) := by
    rw [(blocks_eq h31).2, unsigned]
    omega
  rw [hun] at hk
  obtain ⟨s4, hr', -, -, hbytes, -⟩ := @diskRead_spec d s1 s3 A hd.device _ _ _ _ _ _ _ _
    (rangeOk_nat h31 (by omega)) hown (le_refl q) (by omega) hk
  rw [hr'] at hr
  cases hr
  rw [hbytes i hi, rangeCommand_byte h31 hspan hi (by omega)]

end Lookup

/-- Looking up every inode of a file system is safe exactly when its inodes are no longer than the structure,
its groups of inodes can be counted in 16 bits and the tables of two groups do not share bytes. -/
theorem inode_lookup {d : Drive} {hd : DiskInfo} {device sLba : Nat} {sb : SuperBlock}
    {bgInodeTable : Nat → Nat} (hinfo : ext2GetDiskInfo device sLba sb bgInodeTable = some hd)
    (hsize : 0 < sb.sInodeSize) (hfits : FitsDrive d hd) : LookupSafe d hd ↔ LookupServed hd := by
  have hsb : hd.sb = sb ∧ 0 < sb.sInodesPerGroup := by
    unfold ext2GetDiskInfo at hinfo
    split at hinfo
    case isTrue => cases hinfo
    case isFalse hne =>
      cases hinfo
      exact ⟨rfl, Nat.pos_of_ne_zero fun h => hne (.inr h)⟩
  obtain ⟨rfl, hper⟩ := hsb
  have hgroup : ∀ n, hd.Valid n →
      grNum hd n < groupsOf hd.sb.sInodesCount hd.sb.sInodesPerGroup := by
    intro n hn
    rw [lt_groupsOf hper, grNum_eq hn]
    have hle := Nat.div_mul_le_self (n - 1) hd.sb.sInodesPerGroup
    obtain ⟨h1, h2⟩ := hn
    omega
  constructor
  · intro h
    refine ⟨fun hpos => ?_, ?_, fun g g' hg hg' hne => ?_⟩
    · by_contra hlong
      have hx := h.inside 1 ⟨le_refl _, hpos⟩ 0 (0 + INODE_STRUCT)
        (List.mem_map.2 ⟨_, List.mem_range.2 (Nat.lt_of_not_le hlong), rfl⟩)
      exact absurd hx.2 (lt_irrefl _)
    · -- the first inode of a group that is not counted
      by_contra hlt
      have hcount : hd.groups * hd.sb.sInodesPerGroup < hd.sb.sInodesCount :=
        (lt_groupsOf hper).1 (Nat.lt_of_not_le hlt)
      have hvalid : hd.Valid (hd.groups * hd.sb.sInodesPerGroup + 1) :=
        ⟨Nat.le_add_left _ _, hcount⟩
      have hgr := h.group _ hvalid
      rw [grNum_eq hvalid, Nat.add_sub_cancel, Nat.mul_div_cancel _ hper] at hgr
      exact lt_irrefl _ hgr
    · rw [Set.disjoint_left]
      intro x hx hx'
      obtain ⟨n, hn, rfl, hxn⟩ := (mem_tableBytes hper hsize).1 hx
      obtain ⟨m, hm, rfl, hxm⟩ := (mem_tableBytes hper hsize).1 hx'
      exact Set.disjoint_left.1 (h.apart n m hn hm fun e => hne (by rw [e])) hxn hxm
  · intro h
    have hpos : ∀ n, hd.Valid n → 0 < hd.sb.sInodesCount := fun n hn => lt_of_lt_of_le hn.1 hn.2
    refine ⟨fun n hn => lt_of_lt_of_le (hgroup n hn) h.groups, fun n hn s s' p A hold hr i hi => ?_,
      fun n m hn hm hne => ?_, fun n hn p x hx => ?_⟩
    · exact ext2ReadInode_stored hn hsize (h.size (hpos n hn))
        (hfits n hn (lt_of_lt_of_le (hgroup n hn) h.groups)) hold hr hi
    · by_cases hg : grNum hd n = grNum hd m
      · exact slot_disjoint hn hm hg hne
      · refine (h.tables _ _ ((lt_groupsOf hper).1 (hgroup n hn)) ((lt_groupsOf hper).1 (hgroup m hm)) hg).mono
          (fun x hx => ?_) fun x hx => ?_
        · exact (mem_tableBytes hper hsize).2 ⟨n, hn, rfl, hx⟩
        · exact (mem_tableBytes hper hsize).2 ⟨m, hm, rfl, hx⟩
    · obtain ⟨i, hi, rfl⟩ := List.mem_map.1 hx
      have hlt := List.mem_range.1 hi
      have hle := h.size (hpos n hn)
      omega

/-- A file system of one group on a drive of 64 sectors, with inodes of `size` bytes. -/
def oneGroup (size : Nat) : SuperBlock := ⟨16, by decide, 32, 0, 8192, 16, size⟩

lemma oneGroup_fits : FitsDrive ⟨64, fun _ => 0, fun _ _ => 0⟩
    ⟨0, 0, oneGroup 128, wrap (1024 <<< 0), groupCount (oneGroup 128), fun _ => 5⟩ := by
  intro n hn _ x hx
  obtain ⟨-, h2⟩ := (mem_slot hn).1 hx
  have hgr := grNum_eq hn
  obtain ⟨h3, h4⟩ := hn
  have hblock : wrap (1024 <<< 0) = 1024 := wrap_of_lt (by decide)
  unfold DiskInfo.table at h2
  rw [hblock] at h2
  simp only [oneGroup] at h2 h4
  change x + 1 < 2147483648 ∧ x < 512 * 64
  omega

/-- The equivalence for a file system with inodes of 128 bytes. -/
theorem inode_lookup_one : LookupSafe ⟨64, fun _ => 0, fun _ _ => 0⟩
      ⟨0, 0, oneGroup 128, wrap (1024 <<< 0), groupCount (oneGroup 128), fun _ => 5⟩ ↔
    LookupServed ⟨0, 0, oneGroup 128, wrap (1024 <<< 0), groupCount (oneGroup 128), fun _ => 5⟩ :=
  @inode_lookup _ _ 0 0 (oneGroup 128) (fun _ => 5) rfl (by decide) oneGroup_fits

/-- With inodes of 256 bytes the structure is written past its end. -/
theorem long_inode_overflow : ¬ LookupSafe ⟨64, fun _ => 0, fun _ _ => 0⟩
    ⟨0, 0, oneGroup 256, wrap (1024 <<< 0), groupCount (oneGroup 256), fun _ => 5⟩ := by
  intro h
  exact absurd (h.inside 1 ⟨by decide, by decide⟩ 0 128 (by decide)).2 (by decide)

end Creeks
