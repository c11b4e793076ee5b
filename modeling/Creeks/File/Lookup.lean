import Creeks.File.Entries

/-!
# The file cache and path lookup

The nodes of the cache form a tree below `f_root`: `get_dir_entries` hangs a new node into the directory
it reads, and no lookup takes one away. `path_to_file` reads each directory on its way before it looks for
the next name in it. Nodes are numbered in the order of their creation, the root first.

The nodes a lookup has returned hang on the root by names a path can hold (`Chain`), and a later lookup of
these names ends at the same node (`Chain.lookup`).
-/

namespace Creeks
open Lib

/-- A `struct file`: what lookups use of it. -/
structure CacheNode where
  name : List UInt8
  inum : Nat
  parent : Nat
  leaf : List Nat

/-- The nodes, and the number the next one will have. -/
structure FileCache where
  nodes : Nat → CacheNode
  next : Nat

/-- The disk while nothing is written: for each inode number whether it is a directory, and the content
`ext2_read_file` loads, with its place and size. -/
structure Disk where
  isDirectory : Nat → Bool
  content : Nat → Mem
  mmap : Nat → Nat
  iSize : Nat → Nat

namespace FileCache

/-- `is_cached_leaf()` -/
def isCachedLeaf (c : FileCache) (dir : Nat) (filename : List UInt8) : Option Nat :=
  (c.nodes dir).leaf.find? fun k => (c.nodes k).name = filename

/-- A new node, at the front of the leaves of its directory. -/
def addLeaf (c : FileCache) (dir : Nat) (name : List UInt8) (inum : Nat) : FileCache where
  nodes := Function.update (Function.update c.nodes c.next ⟨name, inum, dir, []⟩) dir
    { c.nodes dir with leaf := c.next :: (c.nodes dir).leaf }
  next := c.next + 1

/-- What the loop of `get_dir_entries` does for one record. -/
def addEntry (c : FileCache) (dir : Nat) (name : List UInt8) (inum : Nat) : FileCache :=
  if isDots name then c
  else if (c.isCachedLeaf dir name).isSome then c
  else c.addLeaf dir name inum

end FileCache

/-- The loop of `get_dir_entries` over the cache. -/
def readCache (m : Mem) (dir : Nat) : Nat → Nat → Nat → FileCache → Option FileCache
  | 0, _, _, _ => none
  | fuel + 1, dentry, dsize, c =>
    if dentryInode m dentry ≠ 0 ∧ dsize ≠ 0 then
      readCache m dir fuel (wrap (dentry + recLen m dentry))
        (wrap (dsize + 4294967296 - recLen m dentry))
        (c.addEntry dir (filename m dentry) (dentryInode m dentry))
    else some c

/-- `get_dir_entries()`. Without a result its loop has not ended. -/
def updateDir (disk : Disk) (c : FileCache) (dir : Nat) : Option FileCache :=
  let inum := (c.nodes dir).inum
  if !disk.isDirectory inum then some c
  else readCache (disk.content inum) dir (disk.iSize inum + 1) (disk.mmap inum) (disk.iSize inum) c

/-- The loop of `path_to_file`, at the first character of a name. Every turn shortens the path, which
bounds their number. Without a result a directory has not been read to its end. -/
def pathLoop (disk : Disk) : Nat → FileCache → Nat → List UInt8 →
    Option (FileCache × Option Nat)
  | 0, _, _, _ => none
  | fuel + 1, c, fp, begP =>
    if begP = [] then some (c, some fp)
    else if !disk.isDirectory (c.nodes fp).inum then some (c, none)
    else
      let name := begP.takeWhile (· ≠ 47)
      let begP := (begP.dropWhile (· ≠ 47)).dropWhile (· = 47)
      if name = [46, 46] then pathLoop disk fuel c (c.nodes fp).parent begP
      else if name = [46] then pathLoop disk fuel c fp begP
      else
        match updateDir disk c fp with
        | none => none
        | some c =>
          match c.isCachedLeaf fp name with
          | none => some (c, none)
          | some fp => pathLoop disk fuel c fp begP

/-- `path_to_file()` for a process in the directory `pwd`. The path is the string up to its end. -/
def pathToFile (disk : Disk) (c : FileCache) (pwd : Nat) (path : List UInt8) :
    Option (FileCache × Option Nat) :=
  pathLoop disk (path.length + 1) c (if path.head? = some 47 then 0 else pwd)
    (path.dropWhile (· = 47))

/-- `init_root()` -/
def initRoot (disk : Disk) (inum : Nat) (free : Nat → CacheNode) : Option FileCache :=
  updateDir disk ⟨Function.update free 0 ⟨[47], inum, 0, []⟩, 1⟩ 0

/-- The cache, and the nodes a lookup has returned. -/
structure Lookups where
  cache : FileCache
  found : List Nat

/-- A lookup: the directory it starts from and its path. -/
structure Lookup where
  pwd : Nat
  path : List UInt8

/-- A process looks up a path. Its directory was found before. -/
inductive LookupStep (disk : Disk) : Lookups → Lookup → Lookups → Prop where
  | lookup {s pwd path cache fp} :
    pwd ∈ s.found →
    pathToFile disk s.cache pwd path = some (cache, fp) →
    LookupStep disk s ⟨pwd, path⟩ ⟨cache, fp.toList ++ s.found⟩

/-! ## The tree -/

/-- A name a directory entry can give to a node. -/
def EntryName (name : List UInt8) : Prop := isDots name = false ∧ 0 ∉ name

/-- The leaves of a node are younger than it and point back to it, every node but the root is a leaf of an
older one, and no directory has a name twice. -/
structure CacheTree (c : FileCache) : Prop where
  root : (c.nodes 0).parent = 0
  next_pos : 0 < c.next
  leaf : ∀ d k, d < c.next → k ∈ (c.nodes d).leaf →
    d < k ∧ k < c.next ∧ (c.nodes k).parent = d ∧ EntryName (c.nodes k).name
  parent : ∀ k, k < c.next → (c.nodes k).parent < c.next
  distinct : ∀ d, d < c.next → ((c.nodes d).leaf.map fun k => (c.nodes k).name).Nodup

/-- A cache grows: its nodes keep what they are and get more leaves. -/
structure FileCache.Grows (c c' : FileCache) : Prop where
  next : c.next ≤ c'.next
  name : ∀ k, k < c.next → (c'.nodes k).name = (c.nodes k).name
  inum : ∀ k, k < c.next → (c'.nodes k).inum = (c.nodes k).inum
  parent : ∀ k, k < c.next → (c'.nodes k).parent = (c.nodes k).parent
  leaf : ∀ k, k < c.next → (c.nodes k).leaf ⊆ (c'.nodes k).leaf

lemma FileCache.Grows.refl (c : FileCache) : c.Grows c :=
  ⟨le_refl _, fun _ _ => rfl, fun _ _ => rfl, fun _ _ => rfl, fun _ _ _ h => h⟩

lemma FileCache.Grows.trans {c c' c'' : FileCache} (h : c.Grows c') (h' : c'.Grows c'') :
    c.Grows c'' := by
  have hlt : ∀ k, k < c.next → k < c'.next := fun k hk => lt_of_lt_of_le hk h.next
  refine ⟨h.next.trans h'.next, fun k hk => ?_, fun k hk => ?_, fun k hk => ?_, fun k hk => ?_⟩
  · rw [h'.name k (hlt k hk), h.name k hk]
  · rw [h'.inum k (hlt k hk), h.inum k hk]
  · rw [h'.parent k (hlt k hk), h.parent k hk]
  · exact fun _ hl => h'.leaf k (hlt k hk) (h.leaf k hk hl)

section Tree

variable {disk : Disk} {c c' : FileCache} {d dir inum : Nat} {name : List UInt8}

lemma addLeaf_dir (c : FileCache) (dir : Nat) (name : List UInt8) (inum : Nat) :
    (c.addLeaf dir name inum).nodes dir =
      { c.nodes dir with leaf := c.next :: (c.nodes dir).leaf } := Function.update_self ..

lemma addLeaf_new (h : dir < c.next) :
    (c.addLeaf dir name inum).nodes c.next = ⟨name, inum, dir, []⟩ := by
  refine (Function.update_of_ne ?_ ..).trans (Function.update_self ..)
  omega

lemma addLeaf_other {k : Nat} (h : k ≠ dir) (hk : k < c.next) :
    (c.addLeaf dir name inum).nodes k = c.nodes k := by
  refine (Function.update_of_ne h ..).trans (Function.update_of_ne ?_ ..)
  omega

lemma addLeaf_grows : c.Grows (c.addLeaf dir name inum) := by
  refine ⟨Nat.le_succ _, fun k hk => ?_, fun k hk => ?_, fun k hk => ?_, fun k hk => ?_⟩ <;>
    by_cases e : k = dir
  · rw [e, addLeaf_dir]
  · rw [addLeaf_other e hk]
  · rw [e, addLeaf_dir]
  · rw [addLeaf_other e hk]
  · rw [e, addLeaf_dir]
  · rw [addLeaf_other e hk]
  · rw [e, addLeaf_dir]
    exact List.subset_cons_self ..
  · rw [addLeaf_other e hk]
    exact fun _ h => h

/-- A name that is not cached in the directory can be added to it. -/
lemma CacheTree.addLeaf (tree : CacheTree c) (hd : dir < c.next) (hname : EntryName name)
    (hnew : c.isCachedLeaf dir name = none) : CacheTree (c.addLeaf dir name inum) := by
  have grows : c.Grows (c.addLeaf dir name inum) := addLeaf_grows
  have hnext : (c.addLeaf dir name inum).next = c.next + 1 := rfl
  have hnames : ∀ e, e < c.next →
      ((c.nodes e).leaf.map fun k => ((c.addLeaf dir name inum).nodes k).name) =
        (c.nodes e).leaf.map fun k => (c.nodes k).name := fun e he =>
    List.map_congr_left fun k hk => grows.name k (tree.leaf e k he hk).2.1
  have hold : ∀ e k, e < c.next → k ∈ (c.nodes e).leaf →
      e < k ∧ k < c.next + 1 ∧ ((c.addLeaf dir name inum).nodes k).parent = e ∧
        EntryName ((c.addLeaf dir name inum).nodes k).name := fun e k he hk => by
    obtain ⟨h1, h2, h3, h4⟩ := tree.leaf e k he hk
    rw [grows.parent k h2, grows.name k h2]
    exact ⟨h1, by omega, h3, h4⟩
  refine ⟨?_, Nat.succ_pos _, fun e k he hk => ?_, fun k hk => ?_, fun e he => ?_⟩
  · rw [grows.parent 0 tree.next_pos, tree.root]
  · rw [hnext] at he ⊢
    by_cases hn : e = c.next
    · rw [hn, addLeaf_new hd] at hk
      cases hk
    by_cases ed : e = dir
    · subst ed
      rw [addLeaf_dir] at hk
      rcases List.mem_cons.1 hk with rfl | hk
      · rw [addLeaf_new hd]
        exact ⟨hd, by omega, rfl, hname⟩
      · exact hold e k hd hk
    · rw [addLeaf_other ed (by omega)] at hk
      exact hold e k (by omega) hk
  · rw [hnext] at hk ⊢
    by_cases hn : k = c.next
    · rw [hn, addLeaf_new hd]
      exact Nat.lt_succ_of_lt hd
    · rw [grows.parent k (by omega)]
      exact Nat.lt_succ_of_lt (tree.parent k (by omega))
  · rw [hnext] at he
    by_cases hn : e = c.next
    · rw [hn, addLeaf_new hd]
      exact List.nodup_nil
    by_cases ed : e = dir
    · subst ed
      rw [addLeaf_dir, List.map_cons, hnames e hd, addLeaf_new hd]
      refine List.nodup_cons.2 ⟨fun h => ?_, tree.distinct e hd⟩
      obtain ⟨k, hk, e⟩ := List.mem_map.1 h
      have := List.find?_eq_none.1 hnew k hk
      exact this (by simpa using e)
    · rw [addLeaf_other ed (by omega), hnames e (by omega)]
      exact tree.distinct e (by omega)

lemma CacheTree.addEntry (tree : CacheTree c) (hd : dir < c.next) (h0 : 0 ∉ name) :
    CacheTree (c.addEntry dir name inum) ∧ c.Grows (c.addEntry dir name inum) := by
  unfold FileCache.addEntry
  split
  · exact ⟨tree, .refl c⟩
  · split
    · exact ⟨tree, .refl c⟩
    · rename_i h1 h2
      exact ⟨tree.addLeaf hd ⟨by simpa using h1, h0⟩ (by simpa using h2), addLeaf_grows⟩

/-- Reading a directory keeps the tree. -/
lemma CacheTree.readCache {m : Mem} {fuel dentry dsize : Nat} (tree : CacheTree c)
    (hd : dir < c.next) (h : readCache m dir fuel dentry dsize c = some c') :
    CacheTree c' ∧ c.Grows c' := by
  induction fuel generalizing dentry dsize c with
  | zero => cases h
  | succ fuel ih =>
    rw [Creeks.readCache] at h
    split at h
    · have h0 : 0 ∉ filename m dentry := fun h0 => by
        simpa using List.mem_takeWhile_imp h0
      obtain ⟨tree1, grows1⟩ :=
        @addEntry c dir (dentryInode m dentry) (filename m dentry) tree hd h0
      obtain ⟨tree2, grows2⟩ := ih tree1 (lt_of_lt_of_le hd grows1.next) h
      exact ⟨tree2, grows1.trans grows2⟩
    · cases h
      exact ⟨tree, .refl _⟩

lemma CacheTree.updateDir (tree : CacheTree c) (hd : dir < c.next)
    (h : updateDir disk c dir = some c') : CacheTree c' ∧ c.Grows c' := by
  unfold Creeks.updateDir at h
  dsimp only at h
  split at h
  · cases h
    exact ⟨tree, .refl _⟩
  · exact tree.readCache hd h

/-- The leaves of a directory, as `Entries` has them. -/
def FileCache.leaves (c : FileCache) (dir : Nat) : List Leaf :=
  (c.nodes dir).leaf.map fun k => ⟨(c.nodes k).name, (c.nodes k).inum⟩

lemma addEntry_leaves (tree : CacheTree c) (hd : dir < c.next) :
    (c.addEntry dir name inum).leaves dir =
      if isDots name then c.leaves dir
      else if (Creeks.isCachedLeaf (c.leaves dir) name).isSome then c.leaves dir
      else ⟨name, inum⟩ :: c.leaves dir := by
  have hfind : (c.isCachedLeaf dir name).isSome =
      (Creeks.isCachedLeaf (c.leaves dir) name).isSome := by
    rw [Creeks.isCachedLeaf, FileCache.leaves, List.find?_map, Option.isSome_map]
    rfl
  unfold FileCache.addEntry
  rw [← hfind]
  split
  · rfl
  · split
    · rfl
    · have g : c.Grows (c.addLeaf dir name inum) := addLeaf_grows
      rw [FileCache.leaves, addLeaf_dir, List.map_cons, addLeaf_new hd]
      congr 1
      refine List.map_congr_left fun k hk => ?_
      have hlt := (tree.leaf dir k hd hk).2.1
      rw [g.name k hlt, g.inum k hlt]

end Tree

/-! ## Lookups -/

/-- The loop of `get_dir_entries` ends, whatever is cached. -/
def Disk.Ends (disk : Disk) (inum : Nat) : Prop :=
  ∀ dir c, (readCache (disk.content inum) dir (disk.iSize inum + 1) (disk.mmap inum)
    (disk.iSize inum) c).isSome

/-- A node that hangs on the root by names a path can hold, in directories that can be read. -/
inductive Chain (disk : Disk) (c : FileCache) : Nat → List (List UInt8) → Prop where
  | root : Chain disk c 0 []
  | leaf {d k names} :
    Chain disk c d names →
    disk.isDirectory (c.nodes d).inum = true →
    disk.Ends (c.nodes d).inum →
    k ∈ (c.nodes d).leaf →
    (c.nodes k).name ≠ [] →
    47 ∉ (c.nodes k).name →
    Chain disk c k (names ++ [(c.nodes k).name])

/-- The path of a node below the root. -/
def spell (names : List (List UInt8)) : List UInt8 := names.flatMap fun name => 47 :: name

section Chain

variable {disk : Disk} {c c' : FileCache} {d k dir fuel : Nat} {names : List (List UInt8)}
  {name path begP rest : List UInt8} {r : Option Nat}

/-- Whether the loop ends does not depend on the cache. -/
lemma readCache_ends {m : Mem} {dentry dsize : Nat}
    (h : readCache m dir fuel dentry dsize c = some c') (dir' : Nat) (c1 : FileCache) :
    (readCache m dir' fuel dentry dsize c1).isSome := by
  induction fuel generalizing dentry dsize c c1 with
  | zero => cases h
  | succ fuel ih =>
    rw [readCache] at h ⊢
    split at h
    · rename_i hc
      rw [if_pos hc]
      exact ih h _
    · rename_i hc
      rw [if_neg hc]
      rfl

lemma updateDir_ends (hd : disk.isDirectory (c.nodes dir).inum = true)
    (h : updateDir disk c dir = some c') : disk.Ends (c.nodes dir).inum := by
  unfold updateDir at h
  rw [if_neg (by simp [hd])] at h
  exact fun dir' c1 => readCache_ends h dir' c1

lemma Disk.Ends.updateDir (h : disk.Ends (c.nodes dir).inum) :
    ∃ c', updateDir disk c dir = some c' := by
  unfold Creeks.updateDir
  dsimp only
  split
  · exact ⟨c, rfl⟩
  · exact Option.isSome_iff_exists.1 (h dir c)

namespace Chain

lemma lt (chain : Chain disk c d names) (tree : CacheTree c) : d < c.next := by
  induction chain with
  | root => exact tree.next_pos
  | leaf _ _ _ hk _ _ ih => exact (tree.leaf _ _ ih hk).2.1

/-- A chain survives the growth of the cache. -/
lemma grows (chain : Chain disk c d names) (tree : CacheTree c) (g : c.Grows c') :
    Chain disk c' d names := by
  induction chain with
  | root => exact .root
  | leaf chain hdir hends hk hn hs ih =>
    have hd := chain.lt tree
    have hlt := (tree.leaf _ _ hd hk).2.1
    rw [← g.inum _ hd] at hdir hends
    rw [← g.name _ hlt] at hn hs ⊢
    exact .leaf ih hdir hends (g.leaf _ hd hk) hn hs

lemma parent (chain : Chain disk c d names) (tree : CacheTree c) :
    ∃ names, Chain disk c (c.nodes d).parent names := by
  cases chain with
  | root =>
    rw [tree.root]
    exact ⟨[], .root⟩
  | leaf chain _ _ hk _ _ =>
    rw [(tree.leaf _ _ (chain.lt tree) hk).2.2.1]
    exact ⟨_, chain⟩

end Chain

/-- A cached name is found, and only the node that has it. -/
lemma isCachedLeaf_eq (tree : CacheTree c) (hd : d < c.next) (hk : k ∈ (c.nodes d).leaf) :
    c.isCachedLeaf d (c.nodes k).name = some k := by
  cases hf : c.isCachedLeaf d (c.nodes k).name with
  | none =>
    have := List.find?_eq_none.1 hf k hk
    simp at this
  | some j =>
    have hj := List.mem_of_find?_eq_some hf
    have hn : (c.nodes j).name = (c.nodes k).name := by simpa using List.find?_some hf
    rw [List.inj_on_of_nodup_map (tree.distinct d hd) hj hk hn]

/-- A name of the path is not empty and holds no slash. -/
lemma component (hb : begP.head? ≠ some 47) (hne : begP ≠ []) :
    begP.takeWhile (· ≠ 47) ≠ [] ∧ 47 ∉ begP.takeWhile (· ≠ 47) := by
  refine ⟨fun h => ?_, fun h => by simpa using List.mem_takeWhile_imp h⟩
  cases begP with
  | nil => exact hne rfl
  | cons b t =>
    have hbne : b ≠ 47 := fun e => hb (by rw [e]; rfl)
    rw [List.takeWhile_cons_of_pos (by simpa using hbne)] at h
    cases h

/-- Slashes are skipped before a name. -/
lemma head_skip (path : List UInt8) : (path.dropWhile (· = 47)).head? ≠ some 47 := by
  intro h
  have := List.head?_dropWhile_not (· = (47 : UInt8)) path
  rw [h] at this
  simp at this

/-- A lookup keeps the tree, and what it returns hangs on the root. -/
lemma pathLoop_found (tree : CacheTree c) (chain : Chain disk c d names)
    (hb : begP.head? ≠ some 47) (h : pathLoop disk fuel c d begP = some (c', r)) :
    CacheTree c' ∧ c.Grows c' ∧ ∀ k ∈ r, ∃ names, Chain disk c' k names := by
  induction fuel generalizing c d names begP with
  | zero => cases h
  | succ fuel ih =>
    rw [pathLoop] at h
    split at h
    · cases h
      refine ⟨tree, .refl _, fun k hk => ?_⟩
      cases hk
      exact ⟨names, chain⟩
    · rename_i hne
      split at h
      · cases h
        exact ⟨tree, .refl _, nofun⟩
      · rename_i hdir
        have hdir : disk.isDirectory (c.nodes d).inum = true := by simpa using hdir
        dsimp only at h
        split at h
        · obtain ⟨names, up⟩ := chain.parent tree
          exact ih tree up (head_skip _) h
        · split at h
          · exact ih tree chain (head_skip _) h
          · split at h
            · cases h
            · rename_i c1 hc1
              obtain ⟨tree1, g1⟩ := tree.updateDir (chain.lt tree) hc1
              split at h
              · cases h
                exact ⟨tree1, g1, nofun⟩
              · rename_i k hk
                have hd := chain.lt tree
                have hname : (c1.nodes k).name = begP.takeWhile (· ≠ 47) := by
                  simpa using List.find?_some hk
                have down : Chain disk c1 k (names ++ [(c1.nodes k).name]) := by
                  refine .leaf (chain.grows tree g1) ?_ ?_ (List.mem_of_find?_eq_some hk) ?_ ?_
                  · rw [g1.inum _ hd, hdir]
                  · rw [g1.inum _ hd]
                    exact updateDir_ends hdir hc1
                  · rw [hname]
                    exact (component hb hne).1
                  · rw [hname]
                    exact (component hb hne).2
                obtain ⟨tree2, g2, hr⟩ := ih tree1 down (head_skip _) h
                exact ⟨tree2, g1.trans g2, hr⟩

/-- What is left of a path behind its first name is shorter. -/
lemma skip_lt (hne : begP ≠ []) :
    ((begP.dropWhile (· ≠ 47)).dropWhile (· = 47)).length < begP.length := by
  cases begP with
  | nil => exact absurd rfl hne
  | cons b t =>
    rw [List.length_cons, Nat.lt_succ_iff]
    by_cases h : b = 47
    · rw [List.dropWhile_cons_of_neg (by simpa using h), List.dropWhile_cons_of_pos (by simpa using h)]
      exact List.length_dropWhile_le _ _
    · rw [List.dropWhile_cons_of_pos (by simpa using h)]
      exact (List.length_dropWhile_le _ _).trans (List.length_dropWhile_le _ _)

/-- A lookup returns when every directory can be read to its end. -/
lemma pathLoop_ends (hends : ∀ inum, disk.isDirectory inum = true → disk.Ends inum)
    (hf : begP.length < fuel) : (pathLoop disk fuel c d begP).isSome := by
  induction fuel generalizing c d begP with
  | zero => exact absurd hf (Nat.not_lt_zero _)
  | succ fuel ih =>
    rw [pathLoop]
    by_cases hne : begP = []
    · rw [if_pos hne]
      rfl
    · have hlt := skip_lt hne
      rw [if_neg hne]
      split
      · rfl
      · rename_i hdir
        dsimp only
        split
        · exact ih (by omega)
        · split
          · exact ih (by omega)
          · obtain ⟨c1, hc1⟩ := (hends (c.nodes d).inum (by simpa using hdir)).updateDir
            rw [hc1]
            dsimp only
            split
            · rfl
            · exact ih (by omega)

/-- The first name of a path and the rest. -/
lemma split_name (h47 : 47 ∉ name) (hrest : rest = [] ∨ rest.head? = some 47) :
    (name ++ rest).takeWhile (· ≠ 47) = name ∧ (name ++ rest).dropWhile (· ≠ 47) = rest := by
  have hall : ∀ b ∈ name, decide (b ≠ 47) = true := fun b hb =>
    decide_eq_true fun e => h47 (e ▸ hb)
  rw [List.takeWhile_append_of_pos hall, List.dropWhile_append_of_pos hall]
  rcases hrest with rfl | h
  · simp
  · cases rest with
    | nil => cases h
    | cons b t =>
      cases h
      simp

namespace Chain

/-- The directories of a chain are found one after the other. -/
lemma walk (chain : Chain disk c d names) (tree : CacheTree c)
    (hrest : rest = [] ∨ rest.head? = some 47) :
    ∃ c', CacheTree c' ∧ c.Grows c' ∧
      pathLoop disk (names.length + fuel) c 0 ((spell names ++ rest).dropWhile (· = 47)) =
        pathLoop disk fuel c' d (rest.dropWhile (· = 47)) := by
  induction chain generalizing fuel rest with
  | root => exact ⟨c, tree, .refl c, by rw [List.length_nil, Nat.zero_add]; rfl⟩
  | @leaf d k names chain hdir hends hk hn hs ih =>
    have hd := chain.lt tree
    obtain ⟨-, hlt, -, hdots, -⟩ := tree.leaf d k hd hk
    have hspell : spell (names ++ [(c.nodes k).name]) ++ rest =
        spell names ++ (47 :: ((c.nodes k).name ++ rest)) := by
      simp [spell]
    obtain ⟨c1, tree1, g1, e1⟩ :=
      @ih (fuel + 1) (47 :: ((c.nodes k).name ++ rest)) (.inr rfl)
    rw [← g1.inum d hd] at hdir hends
    obtain ⟨c2, hc2⟩ := hends.updateDir
    obtain ⟨tree2, g2⟩ := tree1.updateDir (lt_of_lt_of_le hd g1.next) hc2
    have g := g1.trans g2
    have hfind := isCachedLeaf_eq tree2 (lt_of_lt_of_le hd g.next) (g.leaf d hd hk)
    rw [g.name k hlt] at hfind
    refine ⟨c2, tree2, g, ?_⟩
    have hhead : (47 :: ((c.nodes k).name ++ rest)).dropWhile (· = 47) =
        (c.nodes k).name ++ rest := by
      rw [List.dropWhile_cons_of_pos (by decide)]
      cases hname : (c.nodes k).name with
      | nil => exact absurd hname hn
      | cons b t =>
        rw [List.cons_append, List.dropWhile_cons_of_neg]
        rw [hname] at hs
        simpa using fun e : b = 47 => hs (by rw [e]; exact .head _)
    obtain ⟨htake, hdrop⟩ := split_name hs hrest
    have hdots : (c.nodes k).name ≠ [46] ∧ (c.nodes k).name ≠ [46, 46] := by
      simpa [isDots] using hdots
    rw [hspell, List.length_append, List.length_singleton, Nat.add_assoc, Nat.add_comm 1, e1, hhead,
      pathLoop, if_neg (by simp [hn]), if_neg (by simp [hdir])]
    simp only [htake, hdrop]
    rw [if_neg hdots.2, if_neg hdots.1, hc2]
    simp only [hfind]

lemma length_spell (names : List (List UInt8)) : names.length ≤ (spell names).length := by
  induction names with
  | nil => exact Nat.zero_le _
  | cons name names ih =>
    have h : spell (name :: names) = 47 :: (name ++ spell names) := by simp [spell]
    rw [h]
    simp only [List.length_cons, List.length_append]
    omega

/-- The path of a node below the root leads to it, from every directory. -/
lemma lookup (chain : Chain disk c d names) (tree : CacheTree c) (hne : names ≠ []) (pwd : Nat) :
    ∃ c', c.Grows c' ∧ pathToFile disk c pwd (spell names) = some (c', some d) := by
  obtain ⟨fuel, hfuel⟩ : ∃ fuel, (spell names).length + 1 = names.length + (fuel + 1) :=
    ⟨(spell names).length - names.length, by have := length_spell names; omega⟩
  obtain ⟨c', -, g, e⟩ := @walk disk c d (fuel + 1) names [] chain tree (.inl rfl)
  have hhead : (spell names).head? = some 47 := by
    cases names with
    | nil => exact absurd rfl hne
    | cons name names => rfl
  rw [List.append_nil] at e
  refine ⟨c', g, ?_⟩
  rw [pathToFile, if_pos hhead, hfuel, e, List.dropWhile_nil, pathLoop, if_pos rfl]

/-- The path of a node holds no zero byte. -/
lemma no_zero (chain : Chain disk c d names) (tree : CacheTree c) : 0 ∉ spell names := by
  induction chain with
  | root => exact List.not_mem_nil
  | @leaf d k names chain _ _ hk _ _ ih =>
    obtain ⟨-, -, -, -, h0⟩ := tree.leaf d k (chain.lt tree) hk
    rw [spell, List.flatMap_append, List.mem_append]
    rintro (h | h)
    · exact ih h
    · simp only [List.flatMap_cons, List.flatMap_nil, List.append_nil, List.mem_cons] at h
      rcases h with h | h
      · exact absurd h (by decide)
      · exact h0 h

/-- Only the root has the empty path. -/
lemma eq_nil (chain : Chain disk c d names) (tree : CacheTree c) : names = [] ↔ d = 0 := by
  cases chain with
  | root => simp
  | @leaf d k names chain _ _ hk _ _ =>
    have := (tree.leaf d _ (chain.lt tree) hk).1
    constructor
    · intro h
      simp at h
    · omega

end Chain

/-- What lookups keep: the tree, and the chains of the nodes that were found. -/
structure Found (disk : Disk) (s : Lookups) : Prop where
  tree : CacheTree s.cache
  chain : ∀ d ∈ s.found, ∃ names, Chain disk s.cache d names

/-- The cache with the root alone. -/
lemma rootCache_tree (free : Nat → CacheNode) (inum : Nat) :
    CacheTree ⟨Function.update free 0 ⟨[47], inum, 0, []⟩, 1⟩ := by
  have h0 : ∀ d < 1, Function.update free 0 ⟨[47], inum, 0, []⟩ d = ⟨[47], inum, 0, []⟩ := by
    intro d hd
    rw [Nat.lt_one_iff.1 hd, Function.update_self]
  refine ⟨?_, Nat.one_pos, fun d k hd hk => ?_, fun k hk => ?_, fun d hd => ?_⟩
  · dsimp only
    rw [h0 0 Nat.one_pos]
  · dsimp only at hd hk
    rw [h0 d hd] at hk
    cases hk
  · dsimp only at hk ⊢
    rw [h0 k hk]
    exact Nat.one_pos
  · dsimp only at hd ⊢
    rw [h0 d hd]
    exact List.nodup_nil

lemma initRoot_found {inum : Nat} {free : Nat → CacheNode}
    (h : initRoot disk inum free = some c) : Found disk ⟨c, [0]⟩ := by
  refine ⟨((rootCache_tree free inum).updateDir Nat.one_pos h).1, fun d hd => ?_⟩
  rw [List.mem_singleton.1 hd]
  exact ⟨[], .root⟩

/-- `init_root` keeps the inode of the root. -/
lemma initRoot_inum {inum : Nat} {free : Nat → CacheNode}
    (h : initRoot disk inum free = some c) : (c.nodes 0).inum = inum := by
  rw [((rootCache_tree free inum).updateDir Nat.one_pos h).2.inum 0 Nat.one_pos]
  dsimp only
  rw [Function.update_self]

/-- A lookup starts at the root or at a node that was found. -/
lemma LookupStep.found {s s' : Lookups} {op : Lookup} (st : LookupStep disk s op s')
    (inv : Found disk s) : Found disk s' := by
  cases st with
  | lookup hpwd h =>
    rename_i pwd path cache fp
    obtain ⟨names, chain⟩ : ∃ names, Chain disk s.cache
        (if path.head? = some 47 then 0 else pwd) names := by
      split
      · exact ⟨[], .root⟩
      · exact inv.chain pwd hpwd
    obtain ⟨tree, g, hr⟩ := pathLoop_found inv.tree chain (head_skip path) h
    refine ⟨tree, fun d hd => ?_⟩
    rcases List.mem_append.1 hd with hd | hd
    · exact hr d (by simpa using hd)
    · obtain ⟨names, chain⟩ := inv.chain d hd
      exact ⟨names, chain.grows inv.tree g⟩

end Chain

end Creeks
