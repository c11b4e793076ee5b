import Creeks.File.Entries

/-!
# Malformed directories

The loop of `get_dir_entries` with the addresses it reads, on the bytes of any directory. The loop tests the
inode number of a record before the number of bytes left, and it takes `rec_len` and `name_len` from the
disk as they are. `directory_walk` says on which bytes it ends without leaving the buffer.

The memory is that of the beginning of the loop. The nodes it allocates lie outside the buffer, so as long as
nothing outside the buffer is read, every byte read is the same.
-/

namespace Creeks
open Lib

/-- The addresses of `dentry->inode`. -/
def inodeReads (dentry : Nat) : List Nat := [dentry, dentry + 1, dentry + 2, dentry + 3]

/-- The other addresses the body of the loop reads: `name_len`, the name and `rec_len`. -/
def recordReads (m : Mem) (dentry : Nat) : List Nat :=
  (dentry + 6) :: ((List.range (nameLen m dentry)).map (dentry + 8 + ·) ++ [dentry + 4, dentry + 5])

/-- The loop of `get_dir_entries`, with the addresses it reads. -/
def readEntriesTraced (m : Mem) : Nat → Nat → Nat → List Leaf → List Nat × Option (List Leaf)
  | 0, _, _, _ => ([], none)
  | fuel + 1, dentry, dsize, leaf =>
    if dentryInode m dentry ≠ 0 ∧ dsize ≠ 0 then
      let name := filename m dentry
      let leaf :=
        if isDots name then leaf
        else if (isCachedLeaf leaf name).isSome then leaf
        else ⟨name, dentryInode m dentry⟩ :: leaf
      let r := readEntriesTraced m fuel (wrap (dentry + recLen m dentry))
        (wrap (dsize + 4294967296 - recLen m dentry)) leaf
      (inodeReads dentry ++ recordReads m dentry ++ r.1, r.2)
    else (inodeReads dentry, some leaf)

/-- The loop ends, and what it has read is in the buffer. -/
def WalksInside (m : Mem) (dir : FileNode) : Prop :=
  ∃ fuel, (readEntriesTraced m fuel dir.mmap dir.iSize dir.leaf).2.isSome ∧
    ∀ x ∈ (readEntriesTraced m fuel dir.mmap dir.iSize dir.leaf).1,
      dir.mmap ≤ x ∧ x < dir.mmap + dir.iSize

/-- The end of what is read of a record: a name of no bytes is not read. -/
def recordEnd (m : Mem) (dentry : Nat) : Nat :=
  if nameLen m dentry = 0 then dentry + 7 else dentry + 8 + nameLen m dentry

/-- Records from `a` on, used and inside the buffer, up to an unused one whose inode number is in the
buffer. -/
def EndsUnused (m : Mem) (a limit : Nat) : Prop :=
  ∃ records e, Tiling 1 (recLen m) a records e ∧
    (∀ c ∈ records, dentryInode m c ≠ 0 ∧ recordEnd m c ≤ limit) ∧
    dentryInode m e = 0 ∧ e + 4 ≤ limit

section Walk

variable {m : Mem} {fuel a limit dsize : Nat} {leaf l : List Leaf}

/-- The trace does not change the result. -/
lemma readEntriesTraced_snd (m : Mem) (fuel a dsize : Nat) (leaf : List Leaf) :
    (readEntriesTraced m fuel a dsize leaf).2 = readEntries m fuel a dsize leaf := by
  induction fuel generalizing a dsize leaf with
  | zero => rfl
  | succ fuel ih =>
    rw [readEntriesTraced, readEntries]
    split
    case isTrue => exact ih _ _ _
    case isFalse => rfl

/-- The reads of a record lie before its end. -/
lemma recordReads_lt {x : Nat} (h : x ∈ recordReads m a) : a ≤ x ∧ x < recordEnd m a := by
  unfold recordReads at h
  unfold recordEnd
  rcases List.mem_cons.1 h with rfl | h
  · split <;> omega
  · rcases List.mem_append.1 h with h | h
    · obtain ⟨i, hi, rfl⟩ := List.mem_map.1 h
      have hlt := List.mem_range.1 hi
      rw [if_neg (by omega)]
      omega
    · simp only [List.mem_cons, List.not_mem_nil, or_false] at h
      split <;> omega

/-- The last byte of a record is read. -/
lemma recordEnd_le (h : ∀ x ∈ recordReads m a, x < limit) : recordEnd m a ≤ limit := by
  unfold recordEnd
  split
  case isTrue => exact h (a + 6) List.mem_cons_self
  case isFalse hname =>
    have hmem : a + 8 + (nameLen m a - 1) ∈ recordReads m a := by
      refine List.mem_cons_of_mem _ (List.mem_append_left _ (List.mem_map.2 ⟨_, ?_, rfl⟩))
      exact List.mem_range.2 (by omega)
    have hlt := h _ hmem
    omega

/-- The loop reads the inode number it begins with. -/
lemma readEntriesTraced_head (h : (readEntriesTraced m fuel a dsize leaf).2 = some l) :
    a + 3 ∈ (readEntriesTraced m fuel a dsize leaf).1 := by
  have hmem : a + 3 ∈ inodeReads a := by simp [inodeReads]
  cases fuel with
  | zero => cases h
  | succ fuel =>
    rw [readEntriesTraced]
    split
    case isTrue => exact List.mem_append_left _ (List.mem_append_left _ hmem)
    case isFalse => exact hmem

/-- A walk that stays inside goes from used record to used record up to an unused one. -/
lemma endsUnused_of_walk (hlimit : limit ≤ 0x40000000) (hsize : dsize = limit - a)
    (h : (readEntriesTraced m fuel a dsize leaf).2 = some l)
    (hin : ∀ x ∈ (readEntriesTraced m fuel a dsize leaf).1, x < limit) : EndsUnused m a limit := by
  induction fuel generalizing a dsize leaf with
  | zero => cases h
  | succ fuel ih =>
    have hhead : a + 3 < limit := hin _ (readEntriesTraced_head h)
    rw [readEntriesTraced] at h hin
    by_cases hloop : dentryInode m a ≠ 0 ∧ dsize ≠ 0
    · rw [if_pos hloop] at h hin
      dsimp only at h hin
      have hrec : recordEnd m a ≤ limit := recordEnd_le fun x hx =>
        hin x (List.mem_append_left _ (List.mem_append_right _ hx))
      have hlen : recLen m a < 65536 := by
        have h1 := (m (a + 4)).toNat_lt
        have h2 := (m (a + 5)).toNat_lt
        unfold recLen
        omega
      have hnext : wrap (a + recLen m a) = a + recLen m a := wrap_of_lt (by omega)
      rw [hnext] at h hin
      -- the next inode number is read, so the record ends inside
      have hle : a + recLen m a + 3 < limit :=
        hin _ (List.mem_append_right _ (readEntriesTraced_head h))
      have hleft : wrap (dsize + 4294967296 - recLen m a) = limit - (a + recLen m a) := by
        rw [wrap_eq]
        omega
      obtain ⟨records, e, tiles, hused, hend⟩ :=
        ih hleft h fun x hx => hin x (List.mem_append_right _ hx)
      rcases Nat.eq_zero_or_pos (recLen m a) with h0 | hpos
      · -- a record of length 0 is the next record again: the rest of the walk is the whole of it
        rw [h0, Nat.add_zero] at tiles
        exact ⟨records, e, tiles, hused, hend⟩
      · refine ⟨a :: records, e, .cons hpos tiles, fun c hc => ?_, hend⟩
        cases hc with
        | head => exact ⟨hloop.1, hrec⟩
        | tail _ hc => exact hused c hc
    · have hunused : dentryInode m a = 0 := by
        by_contra hne
        exact hloop ⟨hne, by omega⟩
      exact ⟨[], a, .nil, nofun, hunused, hhead⟩

/-- Along such records the walk ends and stays inside. -/
lemma walk_of_records {records : List Nat} {e : Nat} (tiles : Tiling 1 (recLen m) a records e)
    (hlimit : limit ≤ 0x40000000) (hused : ∀ c ∈ records, dentryInode m c ≠ 0 ∧ recordEnd m c ≤ limit)
    (hend : dentryInode m e = 0) (hlast : e + 4 ≤ limit) (leaf : List Leaf) :
    (readEntriesTraced m (records.length + 1) a (limit - a) leaf).2.isSome ∧
      ∀ x ∈ (readEntriesTraced m (records.length + 1) a (limit - a) leaf).1, a ≤ x ∧ x < limit := by
  have hinode : ∀ {a x}, a + 4 ≤ limit → x ∈ inodeReads a → a ≤ x ∧ x < limit := by
    intro a x ha hx
    simp only [inodeReads, List.mem_cons, List.not_mem_nil, or_false] at hx
    omega
  induction tiles generalizing leaf with
  | nil =>
    rw [List.length_nil, readEntriesTraced, if_neg fun h => h.1 hend]
    exact ⟨rfl, fun x hx => hinode hlast hx⟩
  | @cons a r e hpos ht ih =>
    have hle := ht.le
    obtain ⟨ha, hrec⟩ := hused a List.mem_cons_self
    have hnext : wrap (a + recLen m a) = a + recLen m a := wrap_of_lt (by omega)
    have hleft : wrap (limit - a + 4294967296 - recLen m a) = limit - (a + recLen m a) := by
      rw [wrap_eq]
      omega
    rw [List.length_cons, readEntriesTraced, if_pos ⟨ha, by omega⟩]
    dsimp only
    rw [hnext, hleft]
    obtain ⟨h1, h2⟩ := ih (fun c hc => hused c (List.mem_cons_of_mem _ hc)) hend hlast _
    refine ⟨h1, fun x hx => ?_⟩
    rcases List.mem_append.1 hx with hx | hx
    · rcases List.mem_append.1 hx with hx | hx
      · exact hinode (by omega) hx
      · have hlt := recordReads_lt hx
        exact ⟨hlt.1, lt_of_lt_of_le hlt.2 hrec⟩
    · have hin := h2 x hx
      exact ⟨le_trans (Nat.le_add_right _ _) hin.1, hin.2⟩

end Walk

/-- On a buffer of the kernel heap `get_dir_entries` ends without reading outside of it exactly when, from its
first byte, records that are used and lie inside lead to an unused record whose inode number lies
inside. -/
theorem directory_walk {m : Mem} {dir : FileNode} (hbuf : dir.mmap + dir.iSize ≤ KERN_HEAP_LIM) :
    WalksInside m dir ↔ EndsUnused m dir.mmap (dir.mmap + dir.iSize) := by
  constructor
  · rintro ⟨fuel, h, hin⟩
    obtain ⟨l, h⟩ := Option.isSome_iff_exists.1 h
    exact endsUnused_of_walk hbuf (Nat.add_sub_cancel_left _ _).symm h fun x hx => (hin x hx).2
  · rintro ⟨records, e, tiles, hused, hend, hlast⟩
    have h := walk_of_records tiles hbuf hused hend hlast dir.leaf
    rw [Nat.add_sub_cancel_left] at h
    exact ⟨_, h⟩

/-- The equivalence for the directory that begins with an unused record. -/
theorem directory_walk_deleted : WalksInside deletedFirst deletedFirstNode ↔
    EndsUnused deletedFirst 0x1000 (0x1000 + 24) :=
  directory_walk (by decide)

/-- A directory of one used record that fills it. -/
def fullDirectory : Mem := fun x => if x = 0x1000 then 2 else if x = 0x1004 then 12 else 0

/-- The walk over that directory reads the inode number behind the buffer. -/
theorem full_directory_overread : ¬ WalksInside fullDirectory ⟨true, 0x1000, 12, []⟩ := by
  rintro ⟨fuel, h, hin⟩
  match fuel with
  | 0 => cases h
  | 1 => exact absurd h (by decide)
  | fuel + 2 =>
    have hmem : 0x100C ∈ (readEntriesTraced fullDirectory (fuel + 2) 0x1000 12 []).1 := by
      rw [readEntriesTraced, if_pos (by decide)]
      have hlen : recLen fullDirectory 0x1000 = 12 := by decide
      have hnext : wrap (0x1000 + 12) = 0x100C := wrap_of_lt (by decide)
      dsimp only
      rw [hlen, hnext, readEntriesTraced, if_neg (by decide)]
      exact List.mem_append_right _ List.mem_cons_self
    exact absurd (hin _ hmem).2 (by decide)

/-- A used record of length 0 is read again and again. -/
lemma recLen_zero_never_ends {m : Mem} {a dsize : Nat} (ha : a < 4294967296)
    (hinode : dentryInode m a ≠ 0) (hrec : recLen m a = 0) (hsize : dsize ≠ 0)
    (hd : dsize < 4294967296) (fuel : Nat) (leaf : List Leaf) :
    readEntries m fuel a dsize leaf = none := by
  have hnext : wrap (a + recLen m a) = a := by
    rw [hrec]
    exact wrap_of_lt ha
  have hleft : wrap (dsize + 4294967296 - recLen m a) = dsize := by
    rw [hrec, wrap_eq]
    omega
  induction fuel generalizing leaf with
  | zero => rfl
  | succ fuel ih =>
    rw [readEntries, if_pos ⟨hinode, hsize⟩]
    dsimp only
    rw [hnext, hleft]
    exact ih _

end Creeks
