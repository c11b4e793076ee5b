import Creeks.Ext2.Inode
import Creeks.Lib.Stack

/-!
# Creating an inode

`ext2_create_inode` looks for a free inode in the groups from 0 to `hd->groups`, one more than there are. It
takes the number of the block of a bitmap for an address and an inode whose word is 1 for a free one, and it
returns -1 whether it has found one or not. What follows the second `return`, with the write of the inode, is
never reached: the drive stays as it is.
-/

namespace Creeks
open Lib

/-- What a call of `ext2_create_inode` comes to: its value, the descriptors it has read, and the group and the
index it prints when it has found an inode. -/
structure Creation where
  value : Int
  descriptors : List Nat
  found : Option (Nat × Nat)

/-- The loop over the inodes of group `i`. `word` is what the processor loads at an address, if the load
returns, and `found` is empty as long as `group` is -1. -/
def searchGroup (word : Nat → Except Stop Nat) (i idInode : Nat) (js : List Nat) (found : Option (Nat × Nat)) :
    Except Stop (Option (Nat × Nat)) :=
  js.foldlM (fun found j => do
    let w ← word (wrap (idInode + 4 * j))
    return if w = 1 ∧ found = none then some (i, j) else found) found

/-- The loop over the groups, with the descriptors it reads. -/
def searchGroups (hd : DiskInfo) (bgInodeBitmap : Nat → Nat) (word : Nat → Except Stop Nat) (is : List Nat)
    (r : Option (Nat × Nat) × List Nat) : Except Stop (Option (Nat × Nat) × List Nat) :=
  is.foldlM (fun r i => do
    let found ← searchGroup word i (bgInodeBitmap i) (List.range hd.sb.sInodesPerGroup) r.1
    return (found, r.2 ++ [i])) r

/-- `ext2_create_inode()`, with `bg_inode_bitmap` of each group descriptor from `gd` on. -/
def ext2CreateInode (hd : DiskInfo) (bgInodeBitmap : Nat → Nat) (word : Nat → Except Stop Nat)
    (_mode : BitVec 32) : Except Stop Creation := do
  let r ← searchGroups hd bgInodeBitmap word (List.range (hd.groups + 1)) (none, [])
  match r.1 with
  | none => return ⟨-1, r.2, none⟩
  -- the message counts the free inodes of the group
  | some (group, index) => return ⟨-1, r.2 ++ [group], some (group, index)⟩

/-- The bit of an inode in the bitmap of its group on the drive is set. -/
def InodeUsed (d : Drive) (hd : DiskInfo) (bgInodeBitmap : Nat → Nat) (n : Nat) : Prop :=
  (d.bytes (hd.sLba * 512 + bgInodeBitmap (grNum hd n) * hd.blocksize + inodeIndex hd n / 8)).toNat.testBit
    (inodeIndex hd n % 8) = true

instance (d : Drive) (hd : DiskInfo) (bgInodeBitmap : Nat → Nat) (n : Nat) :
    Decidable (InodeUsed d hd bgInodeBitmap n) := inferInstanceAs (Decidable (_ = true))

/-- `ext2_read_inode` finds the mode in the slot of an inode. -/
def HasMode (d : Drive) (hd : DiskInfo) (n : Nat) (mode : BitVec 32) : Prop :=
  ∀ s s' p A, heapLedger.holds s A → ext2ReadInode d hd s n = .ok (s', p) →
    loadH s'.mem p = mode.setWidth 16

/-- A call that agrees with `ext2_read_inode`: it reads the descriptors there are, finds what the bitmaps on the
drive say whatever the memory holds, fails when no inode is free and otherwise gives the number of a free one
that can be read back with its mode. -/
structure Allocated (d : Drive) (hd : DiskInfo) (bgInodeBitmap : Nat → Nat) (mode : BitVec 32) (r : Creation) :
    Prop where
  descriptors : ∀ g ∈ r.descriptors, g < hd.groups
  bitmaps : ∀ word r', ext2CreateInode hd bgInodeBitmap word mode = .ok r' → r'.found = r.found
  full : r.value = -1 → ∀ n, hd.Valid n → InodeUsed d hd bgInodeBitmap n
  free : r.value ≠ -1 → ∃ n : Nat, r.value = n ∧ hd.Valid n ∧ ¬ InodeUsed d hd bgInodeBitmap n ∧
    HasMode d hd n mode

/-- `ext2_create_inode` returns, and agrees with `ext2_read_inode`. -/
def CreateAgrees (d : Drive) (hd : DiskInfo) (bgInodeBitmap : Nat → Nat) (word : Nat → Except Stop Nat)
    (mode : BitVec 32) : Prop :=
  ∃ r, ext2CreateInode hd bgInodeBitmap word mode = .ok r ∧ Allocated d hd bgInodeBitmap mode r

/-- The load of the word of an inode gives 1. -/
def isFree (bgInodeBitmap : Nat → Nat) (word : Nat → Except Stop Nat) (slot : Nat × Nat) : Bool :=
  match word (wrap (bgInodeBitmap slot.1 + 4 * slot.2)) with
  | .ok w => w = 1
  | .error _ => false

/-- The slots of the groups, in the order in which they are looked at. -/
def slotsOf (hd : DiskInfo) (is : List Nat) : List (Nat × Nat) :=
  is.flatMap fun i => (List.range hd.sb.sInodesPerGroup).map fun j => (i, j)

section

variable {hd : DiskInfo} {bgInodeBitmap : Nat → Nat} {word : Nat → Except Stop Nat} {mode : BitVec 32}

/-- A slot that was found is kept, and otherwise the first free one of the group is taken. -/
lemma searchGroup_ok {i : Nat} {js : List Nat} {found r : Option (Nat × Nat)}
    (h : searchGroup word i (bgInodeBitmap i) js found = .ok r) :
    r = found.or ((js.map fun j => (i, j)).find? (isFree bgInodeBitmap word)) := by
  unfold searchGroup at h
  induction js generalizing found with
  | nil =>
    cases h
    simp
  | cons j js ih =>
    rw [List.foldlM_cons] at h
    obtain ⟨found', h1, h⟩ := bind_ok.1 h
    obtain ⟨w, hw, h1⟩ := bind_ok.1 h1
    cases h1
    have hfree : isFree bgInodeBitmap word (i, j) = decide (w = 1) := by
      unfold isFree
      rw [hw]
    rw [ih h, List.map_cons, List.find?_cons, hfree]
    cases found with
    | some slot => simp
    | none => by_cases hone : w = 1 <;> simp [hone]

/-- The loop reads the descriptor of every group, and finds the first free slot. -/
lemma searchGroups_ok {is : List Nat} {r r' : Option (Nat × Nat) × List Nat}
    (h : searchGroups hd bgInodeBitmap word is r = .ok r') :
    r'.1 = r.1.or ((slotsOf hd is).find? (isFree bgInodeBitmap word)) ∧ r'.2 = r.2 ++ is := by
  unfold searchGroups at h
  induction is generalizing r with
  | nil =>
    cases h
    simp [slotsOf]
  | cons i is ih =>
    rw [List.foldlM_cons] at h
    obtain ⟨r1, h1, h⟩ := bind_ok.1 h
    obtain ⟨found, hfound, h1⟩ := bind_ok.1 h1
    cases h1
    obtain ⟨hslot, hreads⟩ := ih h
    refine ⟨?_, by rw [hreads, List.append_assoc]; rfl⟩
    calc r'.1 = found.or ((slotsOf hd is).find? (isFree bgInodeBitmap word)) := hslot
      _ = (r.1.or (((List.range hd.sb.sInodesPerGroup).map fun j => (i, j)).find?
          (isFree bgInodeBitmap word))).or ((slotsOf hd is).find? (isFree bgInodeBitmap word)) := by
        rw [← searchGroup_ok hfound]
      _ = r.1.or ((slotsOf hd (i :: is)).find? (isFree bgInodeBitmap word)) := by
        rw [Option.or_assoc, ← List.find?_append]
        rfl

/-- Every call that returns has read one descriptor too many, and returns -1. -/
lemma ext2CreateInode_ok {r : Creation} (h : ext2CreateInode hd bgInodeBitmap word mode = .ok r) :
    hd.groups ∈ r.descriptors ∧ r.value = -1 ∧
      r.found = (slotsOf hd (List.range (hd.groups + 1))).find? (isFree bgInodeBitmap word) := by
  obtain ⟨x, hx, h⟩ := bind_ok.1 h
  obtain ⟨hslot, hreads⟩ := searchGroups_ok hx
  rw [Option.none_or] at hslot
  rw [List.nil_append] at hreads
  have hlast : hd.groups ∈ x.2 := by
    rw [hreads, List.mem_range]
    exact Nat.lt_succ_self _
  cases hfound : x.1 with
  | none =>
    rw [hfound] at h hslot
    cases h
    exact ⟨hlast, rfl, hslot⟩
  | some slot =>
    rw [hfound] at h hslot
    cases h
    exact ⟨List.mem_append_left _ hlast, rfl, hslot⟩

/-- A call whose loads all return does return. -/
lemma ext2CreateInode_returns (h : ∀ a, ∃ w, word a = .ok w) :
    ∃ r, ext2CreateInode hd bgInodeBitmap word mode = .ok r := by
  have hgroup : ∀ i idInode js found, ∃ r, searchGroup word i idInode js found = .ok r :=
    fun i idInode js found => foldlM_returns (fun found j => by
      obtain ⟨w, hw⟩ := h (wrap (idInode + 4 * j))
      exact ⟨_, by rw [hw, ok_bind]; rfl⟩) found
  have hgroups : ∃ r, searchGroups hd bgInodeBitmap word (List.range (hd.groups + 1)) (none, []) = .ok r :=
    foldlM_returns (fun r i => by
      obtain ⟨found, hfound⟩ := hgroup i (bgInodeBitmap i) (List.range hd.sb.sInodesPerGroup) r.1
      exact ⟨_, by rw [hfound, ok_bind]; rfl⟩) _
  obtain ⟨⟨found, reads⟩, hr⟩ := hgroups
  unfold ext2CreateInode
  rw [hr, ok_bind]
  cases found with
  | none => exact ⟨_, rfl⟩
  | some slot => exact ⟨_, rfl⟩

end

/-- No call agrees with `ext2_read_inode`. One that returns has read the descriptor behind the last one, has
decided by the words of memory at the number of a block, and returns -1. -/
theorem create_inode_never (d : Drive) (hd : DiskInfo) (bgInodeBitmap : Nat → Nat)
    (word : Nat → Except Stop Nat) (mode : BitVec 32) :
    ¬ CreateAgrees d hd bgInodeBitmap word mode ∧
      ∀ r, ext2CreateInode hd bgInodeBitmap word mode = .ok r → hd.groups ∈ r.descriptors ∧ r.value = -1 ∧
        r.found = (slotsOf hd (List.range (hd.groups + 1))).find? (isFree bgInodeBitmap word) := by
  refine ⟨?_, fun r h => ext2CreateInode_ok h⟩
  rintro ⟨r, h, agrees⟩
  exact lt_irrefl _ (agrees.descriptors _ (ext2CreateInode_ok h).1)

/-- The file system of `oneGroup` with its first eleven inodes in use. -/
def elevenUsed : Drive where
  sectors := 64
  bytes o := if o = 4096 then 0xFF else if o = 4097 then 0x07 else 0
  idle _ _ := 0

/-- Inode 12 is free, and the call returns -1. -/
theorem free_inode_refused :
    (∃ r, ext2CreateInode ⟨0, 0, oneGroup 128, 1024, 1, fun _ => 5⟩ (fun _ => 4) (fun _ => .ok 0) 0x8000 = .ok r ∧
      r.value = -1) ∧
    ¬ CreateAgrees elevenUsed ⟨0, 0, oneGroup 128, 1024, 1, fun _ => 5⟩ (fun _ => 4) (fun _ => .ok 0) 0x8000 := by
  constructor
  · obtain ⟨r, hr⟩ := @ext2CreateInode_returns ⟨0, 0, oneGroup 128, 1024, 1, fun _ => 5⟩ (fun _ => 4)
      (fun _ => .ok 0) 0x8000 fun _ => ⟨0, rfl⟩
    exact ⟨r, hr, (ext2CreateInode_ok hr).2.1⟩
  · rintro ⟨r, hr, agrees⟩
    have hwrap : wrap (12 + 4294967295) = 11 := wrap_eq _
    have hused := agrees.full (ext2CreateInode_ok hr).2.1 12 ⟨by decide, by decide⟩
    rw [InodeUsed, inodeIndex, hwrap] at hused
    exact absurd hused (by decide)

end Creeks
