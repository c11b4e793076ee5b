import Creeks.Lib.Cache
import Creeks.Lib.Tiling
import Creeks.Mm.State

/-!
# Reading a directory

`get_dir_entries` walks the records of a directory in memory and adds a node to the cache for each name
that is not there. Its loop ends at the first record whose inode number is zero, which in this file
system is an unused record and can stand anywhere. `dir_entries_complete` says which directories it
reads completely.
-/

namespace Creeks
open Lib

/-- A node of the file cache. -/
structure Leaf where
  name : List UInt8
  inum : Nat
  deriving DecidableEq

/-- `dentry->inode` -/
def dentryInode (m : Mem) (dentry : Nat) : Nat := load32 m dentry

/-- `dentry->rec_len` -/
def recLen (m : Mem) (dentry : Nat) : Nat := (m (dentry + 4)).toNat + 256 * (m (dentry + 5)).toNat

/-- `dentry->name_len` -/
def nameLen (m : Mem) (dentry : Nat) : Nat := (m (dentry + 6)).toNat

/-- The string `filename`: the bytes of the name up to a terminating zero. -/
def filename (m : Mem) (dentry : Nat) : List UInt8 :=
  ((List.range (nameLen m dentry)).map fun i => m (dentry + 8 + i)).takeWhile (· ≠ 0)

/-- The node of a record. -/
def dentryLeaf (m : Mem) (dentry : Nat) : Leaf := ⟨filename m dentry, dentryInode m dentry⟩

/-- The names `.` and `..`. -/
def isDots (name : List UInt8) : Bool := name = [46] ∨ name = [46, 46]

/-- `is_cached_leaf()` -/
def isCachedLeaf (leaf : List Leaf) (name : List UInt8) : Option Leaf :=
  leaf.find? fun l => l.name = name

/-- The loop of `get_dir_entries`. Without a result it has not ended. -/
def readEntries (m : Mem) : Nat → Nat → Nat → List Leaf → Option (List Leaf)
  | 0, _, _, _ => none
  | fuel + 1, dentry, dsize, leaf =>
    if dentryInode m dentry ≠ 0 ∧ dsize ≠ 0 then
      let name := filename m dentry
      let leaf :=
        if isDots name then leaf
        else if (isCachedLeaf leaf name).isSome then leaf
        else ⟨name, dentryInode m dentry⟩ :: leaf
      readEntries m fuel (wrap (dentry + recLen m dentry))
        (wrap (dsize + 4294967296 - recLen m dentry)) leaf
    else some leaf

/-- A file of the cache: what `get_dir_entries` uses of it. -/
structure FileNode where
  isDirectory : Bool
  mmap : Nat
  iSize : Nat
  leaf : List Leaf

/-- `get_dir_entries()`, with the content of the directory at `dir.mmap`. Without a result the loop has
not ended after as many records as the directory has bytes. -/
def getDirEntries (m : Mem) (dir : FileNode) : Option (FileNode × Int) :=
  if !dir.isDirectory then some (dir, -1)
  else (readEntries m (dir.iSize + 1) dir.mmap dir.iSize dir.leaf).map fun leaf =>
    ({ dir with leaf := leaf }, 0)

/-- A record that has a node: it is used and is not `.` or `..`. -/
def Named (m : Mem) (dentry : Nat) : Prop :=
  dentryInode m dentry ≠ 0 ∧ isDots (filename m dentry) = false

instance (m : Mem) : DecidablePred (Named m) := fun _ => inferInstanceAs (Decidable (_ ∧ _))

/-- The nodes of the named records of a list. -/
def namedLeaves (m : Mem) (records : List Nat) : List Leaf :=
  (records.filter (Named m)).map (dentryLeaf m)

/-- The records before the first unused one. -/
def beforeUnused (m : Mem) (records : List Nat) : List Nat :=
  records.takeWhile (dentryInode m · ≠ 0)

/-- The directory has been read completely: each named record has its node, no name comes twice, and
each new node is that of a named record. -/
structure ReadCompletely (m : Mem) (records : List Nat) (old new : List Leaf) : Prop where
  complete : ∀ c ∈ records, Named m c → dentryLeaf m c ∈ new
  distinct : (new.map Leaf.name).Nodup
  sound : ∀ l ∈ new, l ∈ old ∨ ∃ c ∈ records, Named m c ∧ l = dentryLeaf m c

/-- One record: a new node, unless the record is `.` or `..` or its name is cached. -/
lemma readEntries_leaf {m : Mem} {c : Nat} {leaf : List Leaf} (hc : dentryInode m c ≠ 0) :
    (if isDots (filename m c) then leaf
      else if (isCachedLeaf leaf (filename m c)).isSome then leaf
      else ⟨filename m c, dentryInode m c⟩ :: leaf) =
      insertAll Leaf.name leaf (namedLeaves m [c]) := by
  cases hd : isDots (filename m c) with
  | true =>
    have hnot : ¬ Named m c := fun h => by simp [h.2] at hd
    rw [if_pos rfl, namedLeaves, List.filter_cons_of_neg (by simpa using hnot)]
    rfl
  | false =>
    have hn : Named m c := ⟨hc, hd⟩
    rw [if_neg (by decide), namedLeaves, List.filter_cons_of_pos (by simpa using hn)]
    change _ = insertNew Leaf.name leaf (dentryLeaf m c)
    have hiff : (isCachedLeaf leaf (filename m c)).isSome = true ↔
        filename m c ∈ leaf.map Leaf.name := by
      rw [isCachedLeaf, List.find?_isSome, List.mem_map]
      simp
    rw [insertNew]
    by_cases h : filename m c ∈ leaf.map Leaf.name
    · rw [if_pos (hiff.2 h)]
      exact (if_pos h).symm
    · rw [if_neg (fun h' => h (hiff.1 h'))]
      exact (if_neg h).symm

/-- The loop inserts the named records before the first unused one. -/
lemma readEntries_eq {m : Mem} {fuel a b : Nat} {records : List Nat} {leaf : List Leaf}
    (tiles : Tiling 8 (recLen m) a records b) (hb : b < 4294967296) (hfuel : records.length < fuel) :
    readEntries m fuel a (b - a) leaf =
      some (insertAll Leaf.name leaf (namedLeaves m (beforeUnused m records))) := by
  induction tiles generalizing fuel leaf with
  | nil =>
    rename_i a
    obtain ⟨k, rfl⟩ : ∃ k, fuel = k + 1 := ⟨fuel - 1, by simp at hfuel; omega⟩
    rw [readEntries, if_neg (by simp)]
    rfl
  | cons h8 ht ih =>
    rename_i a r b
    obtain ⟨k, rfl⟩ : ∃ k, fuel = k + 1 := ⟨fuel - 1, by simp at hfuel; omega⟩
    have hle := ht.le
    rw [readEntries]
    split
    case isTrue h =>
      have hw : wrap (a + recLen m a) = a + recLen m a := wrap_of_lt (by omega)
      have hd : wrap (b - a + 4294967296 - recLen m a) = b - (a + recLen m a) := by
        rw [wrap_eq]
        omega
      have hbefore : beforeUnused m (a :: r) = a :: beforeUnused m r := by
        rw [beforeUnused, List.takeWhile_cons_of_pos (by simpa using h.1)]
        rfl
      simp only [hw, hd, readEntries_leaf h.1]
      rw [ih hb (by simp at hfuel; omega), hbefore]
      simp only [namedLeaves, insertAll, ← List.foldl_append, ← List.map_append,
        ← List.filter_append, List.singleton_append]
    case isFalse h =>
      have h0 : dentryInode m a = 0 := by
        by_contra hne
        exact h ⟨hne, by omega⟩
      rw [beforeUnused, List.takeWhile_cons_of_neg (by simpa using h0)]
      rfl

/-- A directory that is read completely: the cache has no name twice, cached nodes and named records of
one name are of one file, and the named records after the first unused one are cached. -/
structure ReadsAll (m : Mem) (records : List Nat) (leaf : List Leaf) : Prop where
  distinct : (leaf.map Leaf.name).Nodup
  agree : ∀ x ∈ leaf ++ namedLeaves m records, ∀ y ∈ leaf ++ namedLeaves m records,
    x.name = y.name → x = y
  cached : ∀ l ∈ namedLeaves m records, l ∉ namedLeaves m (beforeUnused m records) → l ∈ leaf

lemma mem_namedLeaves {m : Mem} {records : List Nat} {l : Leaf} :
    l ∈ namedLeaves m records ↔ ∃ c ∈ records, Named m c ∧ l = dentryLeaf m c := by
  rw [namedLeaves, List.mem_map]
  constructor
  · rintro ⟨c, hc, rfl⟩
    obtain ⟨h1, h2⟩ := List.mem_filter.1 hc
    exact ⟨c, h1, of_decide_eq_true h2, rfl⟩
  · rintro ⟨c, h1, h2, rfl⟩
    exact ⟨c, List.mem_filter.2 ⟨h1, decide_eq_true h2⟩, rfl⟩

/-- The nodes the loop makes are those of records of the directory. -/
lemma namedLeaves_beforeUnused {m : Mem} {records : List Nat} :
    namedLeaves m (beforeUnused m records) ⊆ namedLeaves m records := by
  intro l hl
  obtain ⟨c, hc, hn, e⟩ := mem_namedLeaves.1 hl
  exact mem_namedLeaves.2 ⟨c, (List.takeWhile_sublist _).subset hc, hn, e⟩

/-- `get_dir_entries` on a well-formed directory: its loop ends at the end of the records or at the first
unused one. -/
lemma getDirEntries_eq {m : Mem} {dir : FileNode} {records : List Nat}
    (hdir : dir.isDirectory = true)
    (tiles : Tiling 8 (recLen m) dir.mmap records (dir.mmap + dir.iSize))
    (hb : dir.mmap + dir.iSize < 4294967296) :
    getDirEntries m dir = some ({ dir with
      leaf := insertAll Leaf.name dir.leaf (namedLeaves m (beforeUnused m records)) }, 0) := by
  have hlen := tiles.length_le
  have h : readEntries m (dir.iSize + 1) dir.mmap (dir.mmap + dir.iSize - dir.mmap) dir.leaf = _ :=
    readEntries_eq tiles hb (by omega)
  rw [Nat.add_sub_cancel_left] at h
  rw [getDirEntries, hdir, h]
  rfl

/-- A well-formed directory is read completely exactly when no named record that is not cached comes
after an unused one, and the cache does not contradict the records. -/
theorem dir_entries_complete {m : Mem} {dir : FileNode} {records : List Nat}
    (hdir : dir.isDirectory = true)
    (tiles : Tiling 8 (recLen m) dir.mmap records (dir.mmap + dir.iSize))
    (hb : dir.mmap + dir.iSize < 4294967296) :
    ∃ dir', getDirEntries m dir = some (dir', 0) ∧
      (ReadCompletely m records dir.leaf dir'.leaf ↔ ReadsAll m records dir.leaf) := by
  refine ⟨_, getDirEntries_eq hdir tiles hb, ?_⟩
  have hiff := @insertAll_complete _ _ _ Leaf.name dir.leaf _ _
    (@namedLeaves_beforeUnused m records)
  constructor
  · intro h
    obtain ⟨h1, h2, h3⟩ := hiff.1 ⟨h.distinct, fun l hl => by
      obtain ⟨c, hc, hn, rfl⟩ := mem_namedLeaves.1 hl
      exact h.complete c hc hn⟩
    exact ⟨h1, h2, h3⟩
  · intro h
    obtain ⟨h1, h2⟩ := hiff.2 ⟨h.distinct, h.agree, h.cached⟩
    refine ⟨fun c hc hn => h2 _ (mem_namedLeaves.2 ⟨c, hc, hn, rfl⟩), h1, fun l hl => ?_⟩
    rcases mem_insertAll hl with hl | hl
    · exact .inl hl
    · exact .inr (mem_namedLeaves.1 (namedLeaves_beforeUnused hl))

/-- A directory of two records of 12 bytes at 0x1000: an unused one, and the file `a`. -/
def deletedFirst : Mem := fun x =>
  if x = 0x1004 then 12
  else if x = 0x100C then 12
  else if x = 0x1010 then 12
  else if x = 0x1012 then 1
  else if x = 0x1014 then 97
  else 0

/-- The directory, with nothing cached. -/
def deletedFirstNode : FileNode := ⟨true, 0x1000, 24, []⟩

lemma deletedFirst_tiles : Tiling 8 (recLen deletedFirst) 0x1000 [0x1000, 0x100C] (0x1000 + 24) :=
  .cons (by decide) (.cons (by decide) .nil)

/-- The equivalence for that directory. -/
theorem dir_entries_complete_deleted :
    ∃ dir', getDirEntries deletedFirst deletedFirstNode = some (dir', 0) ∧
      (ReadCompletely deletedFirst [0x1000, 0x100C] [] dir'.leaf ↔
        ReadsAll deletedFirst [0x1000, 0x100C] []) :=
  dir_entries_complete rfl deletedFirst_tiles (by decide)

/-- The file behind the deleted one is not found. -/
theorem deleted_entry_hides :
    Tiling 8 (recLen deletedFirst) 0x1000 [0x1000, 0x100C] (0x1000 + 24) ∧
      ∃ dir', getDirEntries deletedFirst deletedFirstNode = some (dir', 0) ∧
        ¬ ReadCompletely deletedFirst [0x1000, 0x100C] [] dir'.leaf := by
  refine ⟨deletedFirst_tiles, _, getDirEntries_eq rfl deletedFirst_tiles (by decide), fun h => ?_⟩
  have hmem := h.complete 0x100C (by simp) (by decide)
  have hnil : namedLeaves deletedFirst (beforeUnused deletedFirst [0x1000, 0x100C]) = [] := by decide
  rw [hnil] at hmem
  cases hmem

end Creeks
