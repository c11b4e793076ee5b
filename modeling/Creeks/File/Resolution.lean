import Creeks.File.Pwd

/-!
# Path lookup and the tree on the disk

The cache is filled on the way, so what a lookup finds could depend on the lookups before it. Here the
directories on the disk form a tree, a path is resolved in it component by component, and the cache is a part
of the tree (`Mirrors`) that every call keeps. `path_resolution` says that a lookup returns the node of the
inode the path resolves to, whatever is in the cache.
-/

namespace Creeks
open Lib

/-- A tree of directories and files: the named entries of each directory, and the directory each inode is
in. -/
structure DirTree where
  inodes : Set Nat
  root : Nat
  isDir : Nat → Bool
  entries : Nat → List Leaf
  parent : Nat → Nat
  root_mem : root ∈ inodes
  root_dir : isDir root = true
  parent_root : parent root = root
  below : ∀ i ∈ inodes, isDir i = true → ∀ l ∈ entries i, l.inum ∈ inodes ∧ parent l.inum = i
  distinct : ∀ i ∈ inodes, isDir i = true → ((entries i).map Leaf.name).Nodup

/-- The entry of a name in a directory. -/
def DirTree.entry (t : DirTree) (i : Nat) (name : List UInt8) : Option Leaf :=
  (t.entries i).find? fun l => l.name = name

/-- The inode the names lead to, one by one. Without a result one of them is missing, or is looked up in what
is not a directory. -/
def DirTree.resolve (t : DirTree) : Nat → List (List UInt8) → Option Nat
  | i, [] => some i
  | i, name :: names =>
    if !t.isDir i then none
    else if name = [46, 46] then t.resolve (t.parent i) names
    else if name = [46] then t.resolve i names
    else
      match t.entry i name with
      | none => none
      | some l => t.resolve l.inum names

/-- The components of a path: what is between the slashes, where it is not empty. -/
def components (path : List UInt8) : List (List UInt8) := (path.splitOn 47).filter (· ≠ [])

/-- The bytes of the name of a record. -/
def recordName (m : Mem) (dentry : Nat) : List UInt8 :=
  (List.range (nameLen m dentry)).map fun i => m (dentry + 8 + i)

/-- The records of a directory on the disk: all in use, with names free of slashes and zeros. -/
structure RecordsOf (m : Mem) (mmap iSize : Nat) (records : List Nat) : Prop where
  tiles : Tiling 8 (recLen m) mmap records (mmap + iSize)
  fits : mmap + iSize < 4294967296
  used : ∀ r ∈ records, dentryInode m r ≠ 0
  names : ∀ r ∈ records, 0 ∉ recordName m r ∧ 47 ∉ recordName m r

/-- The entries of a tree are the named records of the directories on the disk. -/
structure Disk.Holds (disk : Disk) (t : DirTree) : Prop where
  dir : ∀ i ∈ t.inodes, disk.isDirectory i = t.isDir i
  records : ∀ i ∈ t.inodes, t.isDir i = true → ∃ records,
    RecordsOf (disk.content i) (disk.mmap i) (disk.iSize i) records ∧
    t.entries i = (records.filter fun r => !isDots (recordName (disk.content i) r)).map fun r =>
      ⟨recordName (disk.content i) r, dentryInode (disk.content i) r⟩

/-- A call that uses the cache. `sys_chdir` and `sys_open` look their path up. -/
inductive CacheCall where
  | pathToFile (pwd : Nat) (path : List UInt8)
  | getDirEntries (dir : Nat)
  | sysChdir (pwd : Nat) (path : List UInt8)
  | sysOpen (pwd : Nat) (path : List UInt8)

/-- A call of a process whose directory is a node of the cache. -/
inductive CacheStep (disk : Disk) : FileCache → CacheCall → FileCache → Prop where
  | pathToFile {c pwd path c' fp} :
    pwd < c.next →
    pathToFile disk c pwd path = some (c', fp) →
    CacheStep disk c (.pathToFile pwd path) c'
  | getDirEntries {c dir c'} :
    dir < c.next →
    updateDir disk c dir = some c' →
    CacheStep disk c (.getDirEntries dir) c'
  | sysChdir {c pwd path c' pwd' ret} :
    pwd < c.next →
    sysChdir disk c pwd path = some (c', pwd', ret) →
    CacheStep disk c (.sysChdir pwd path) c'
  | sysOpen {c pwd path c' fp} :
    pwd < c.next →
    pathToFile disk c pwd path = some (c', fp) →
    CacheStep disk c (.sysOpen pwd path) c'

/-- The inode of a node. -/
def FileCache.inumOf (c : FileCache) (k : Nat) : Nat := (c.nodes k).inum

/-- The cache is a part of the tree. -/
structure Mirrors (t : DirTree) (c : FileCache) : Prop where
  tree : CacheTree c
  root : c.inumOf 0 = t.root
  mem : ∀ k < c.next, c.inumOf k ∈ t.inodes
  leaf : ∀ d < c.next, ∀ k ∈ (c.nodes d).leaf,
    t.isDir (c.inumOf d) = true ∧ ⟨(c.nodes k).name, c.inumOf k⟩ ∈ t.entries (c.inumOf d)
  parent : ∀ k < c.next, c.inumOf (c.nodes k).parent = t.parent (c.inumOf k)

/-! ## Components -/

section Components

variable {path begP : List UInt8}

/-- Slashes at the beginning do not count. -/
lemma components_skip (path : List UInt8) : components (path.dropWhile (· = 47)) = components path := by
  induction path with
  | nil => rfl
  | cons b path ih =>
    by_cases h : b = 47
    · subst h
      rw [List.dropWhile_cons_of_pos (by decide), ih, components, components, List.splitOn_cons_eq_if_modifyHead,
        if_pos (by decide), List.filter_cons_of_neg (by decide)]
    · rw [List.dropWhile_cons_of_neg (by simpa using h)]

/-- The first component, and those of the rest. -/
lemma components_next (hb : begP.head? ≠ some 47) (hne : begP ≠ []) :
    components begP =
      begP.takeWhile (· ≠ 47) :: components ((begP.dropWhile (· ≠ 47)).dropWhile (· = 47)) := by
  obtain ⟨hname, h47⟩ := component hb hne
  rw [components_skip]
  have hsplit : begP.takeWhile (· ≠ 47) ++ begP.dropWhile (· ≠ 47) = begP := List.takeWhile_append_dropWhile
  have hfirst : [begP.takeWhile (· ≠ 47)].filter (fun name => decide (name ≠ [])) = [begP.takeWhile (· ≠ 47)] :=
    List.filter_cons_of_pos (decide_eq_true hname)
  cases hrest : begP.dropWhile (· ≠ 47) with
  | nil =>
    rw [hrest, List.append_nil] at hsplit
    rw [hsplit] at h47 hfirst ⊢
    rw [components, List.splitOn_eq_singleton h47, hfirst]
    rfl
  | cons b rest =>
    have hslash : b = 47 := by
      have h := List.head?_dropWhile_not (· ≠ (47 : UInt8)) begP
      rw [hrest] at h
      simpa using h
    subst hslash
    rw [hrest] at hsplit
    have hcons : components begP = begP.takeWhile (· ≠ 47) :: components rest := by
      conv_lhs => rw [components, ← hsplit]
      rw [List.splitOn_append_cons_self, List.splitOn_eq_singleton h47, List.filter_append, hfirst]
      rfl
    have hskip := components_skip (47 :: rest)
    rw [List.dropWhile_cons_of_pos (by decide), components_skip] at hskip
    rw [hcons, ← hskip]

end Components

/-! ## The cache -/

section Cache

variable {disk : Disk} {t : DirTree} {c c' : FileCache} {dir inum d k pwd : Nat} {name : List UInt8}

/-- A node keeps its inode. -/
lemma FileCache.Grows.inumOf (g : c.Grows c') (hk : k < c.next) : c'.inumOf k = c.inumOf k := g.inum k hk

/-- A cached name stays cached. -/
lemma isCachedLeaf_grows (tree : CacheTree c) (g : c.Grows c') (hd : dir < c.next)
    (h : (c.isCachedLeaf dir name).isSome) : (c'.isCachedLeaf dir name).isSome := by
  rw [FileCache.isCachedLeaf, List.find?_isSome] at h ⊢
  obtain ⟨k, hk, hname⟩ := h
  refine ⟨k, g.leaf dir hd hk, ?_⟩
  rwa [g.name k (tree.leaf dir k hd hk).2.1]

/-- A name without a zero is read in full. -/
lemma filename_eq {m : Mem} {r : Nat} (h : 0 ∉ recordName m r) : filename m r = recordName m r :=
  List.takeWhile_eq_self_iff.2 fun _ hb => decide_eq_true fun e => h (e ▸ hb)

namespace Mirrors

/-- A new node of an entry of the directory. -/
lemma addLeaf (inv : Mirrors t c) (hd : dir < c.next) (hdir : t.isDir (c.inumOf dir) = true)
    (hname : EntryName name) (hnew : c.isCachedLeaf dir name = none)
    (hentry : ⟨name, inum⟩ ∈ t.entries (c.inumOf dir)) : Mirrors t (c.addLeaf dir name inum) := by
  obtain ⟨tree, root, mem, leaf, parent⟩ := inv
  have g : c.Grows (c.addLeaf dir name inum) := addLeaf_grows
  have hnode : (c.addLeaf dir name inum).nodes c.next = ⟨name, inum, dir, []⟩ := addLeaf_new hd
  have hinum : (c.addLeaf dir name inum).inumOf c.next = inum := by rw [FileCache.inumOf, hnode]
  obtain ⟨hmem, hup⟩ := t.below _ (mem dir hd) hdir _ hentry
  refine ⟨tree.addLeaf hd hname hnew, ?_, fun k hk => ?_, fun e he k hk => ?_, fun k hk => ?_⟩
  · rw [g.inumOf tree.next_pos, root]
  · rcases Nat.lt_succ_iff_lt_or_eq.1 hk with hk | rfl
    · rw [g.inumOf hk]
      exact mem k hk
    · rwa [hinum]
  · rcases Nat.lt_succ_iff_lt_or_eq.1 he with he | rfl
    · have hold : ∀ k ∈ (c.nodes e).leaf, t.isDir (c.inumOf e) = true ∧
          ⟨((c.addLeaf dir name inum).nodes k).name, (c.addLeaf dir name inum).inumOf k⟩ ∈
            t.entries (c.inumOf e) := fun k hk => by
        have hlt := (tree.leaf e k he hk).2.1
        rw [g.name k hlt, g.inumOf hlt]
        exact leaf e he k hk
      rw [g.inumOf he]
      by_cases ed : e = dir
      · subst ed
        rw [addLeaf_dir] at hk
        rcases List.mem_cons.1 hk with rfl | hk
        · rw [hinum, hnode]
          exact ⟨hdir, hentry⟩
        · exact hold k hk
      · rw [addLeaf_other ed he] at hk
        exact hold k hk
    · rw [hnode] at hk
      cases hk
  · rcases Nat.lt_succ_iff_lt_or_eq.1 hk with hk | rfl
    · rw [g.parent k hk, g.inumOf (tree.parent k hk), g.inumOf hk]
      exact parent k hk
    · rw [hinum, hnode, hup]
      exact g.inumOf hd

/-- One record: its name is cached then, unless it is `.` or `..`. -/
lemma addEntry (inv : Mirrors t c) (hd : dir < c.next) (hdir : t.isDir (c.inumOf dir) = true) (h0 : 0 ∉ name)
    (hentry : isDots name = false → ⟨name, inum⟩ ∈ t.entries (c.inumOf dir)) :
    Mirrors t (c.addEntry dir name inum) ∧ c.Grows (c.addEntry dir name inum) ∧
      (isDots name = false → ((c.addEntry dir name inum).isCachedLeaf dir name).isSome) := by
  unfold FileCache.addEntry
  cases hdots : isDots name with
  | true => exact ⟨inv, .refl c, nofun⟩
  | false =>
    rw [if_neg (by decide)]
    by_cases hc : (c.isCachedLeaf dir name).isSome
    · rw [if_pos hc]
      exact ⟨inv, .refl c, fun _ => hc⟩
    · rw [if_neg hc]
      have hnone : c.isCachedLeaf dir name = none := by simpa using hc
      refine ⟨inv.addLeaf hd hdir ⟨hdots, h0⟩ hnone (hentry hdots), addLeaf_grows, fun _ => ?_⟩
      rw [FileCache.isCachedLeaf, List.find?_isSome, addLeaf_dir]
      refine ⟨c.next, List.mem_cons_self, ?_⟩
      rw [addLeaf_new hd]
      exact decide_eq_true rfl

/-- The loop of `get_dir_entries` over the records of the directory: the induction is on the records. -/
lemma readCache {m : Mem} {fuel a b : Nat} {records : List Nat} (tiles : Tiling 8 (recLen m) a records b)
    (hb : b < 4294967296) (hfuel : records.length < fuel) (inv : Mirrors t c) (hd : dir < c.next)
    (hdir : t.isDir (c.inumOf dir) = true) (hused : ∀ r ∈ records, dentryInode m r ≠ 0)
    (hentry : ∀ r ∈ records, isDots (filename m r) = false →
      ⟨filename m r, dentryInode m r⟩ ∈ t.entries (c.inumOf dir)) :
    ∃ c', Creeks.readCache m dir fuel a (b - a) c = some c' ∧ Mirrors t c' ∧ c.Grows c' ∧
      ∀ r ∈ records, isDots (filename m r) = false → (c'.isCachedLeaf dir (filename m r)).isSome := by
  induction tiles generalizing fuel c with
  | nil =>
    obtain ⟨fuel, rfl⟩ : ∃ k, fuel = k + 1 := ⟨fuel - 1, by rw [List.length_nil] at hfuel; omega⟩
    refine ⟨c, ?_, inv, .refl c, nofun⟩
    rw [Creeks.readCache, if_neg (by simp)]
  | @cons a r b h8 ht ih =>
    rw [List.length_cons] at hfuel
    obtain ⟨fuel, rfl⟩ : ∃ k, fuel = k + 1 := ⟨fuel - 1, by omega⟩
    have hle := ht.le
    have h0 : 0 ∉ filename m a := fun h0 => by
      simpa using List.mem_takeWhile_imp h0
    obtain ⟨inv1, g1, hcached⟩ := @addEntry t c dir (dentryInode m a) (filename m a) inv hd hdir h0
      (hentry a List.mem_cons_self)
    have hd1 : dir < (c.addEntry dir (filename m a) (dentryInode m a)).next := lt_of_lt_of_le hd g1.next
    have hsame := g1.inumOf hd
    obtain ⟨c2, e2, inv2, g2, hall⟩ := @ih _ fuel hb (by omega) inv1 hd1 (by rwa [hsame])
      (fun x hx => hused x (List.mem_cons_of_mem _ hx)) (fun x hx hn => by
        rw [hsame]
        exact hentry x (List.mem_cons_of_mem _ hx) hn)
    have hw : wrap (a + recLen m a) = a + recLen m a := wrap_of_lt (by omega)
    have hsize : wrap (b - a + 4294967296 - recLen m a) = b - (a + recLen m a) := by
      rw [wrap_eq]
      omega
    refine ⟨c2, ?_, inv2, g1.trans g2, fun x hx hn => ?_⟩
    · rw [Creeks.readCache, if_pos ⟨hused a List.mem_cons_self, by omega⟩, hw, hsize]
      exact e2
    · rcases List.mem_cons.1 hx with rfl | hx
      · exact isCachedLeaf_grows inv1.tree g2 hd1 (hcached hn)
      · exact hall x hx hn

/-- `get_dir_entries` caches every entry of the directory. -/
lemma updateDir (inv : Mirrors t c) (holds : disk.Holds t) (hd : dir < c.next) :
    ∃ c', Creeks.updateDir disk c dir = some c' ∧ Mirrors t c' ∧ c.Grows c' ∧
      (t.isDir (c.inumOf dir) = true →
        ∀ l ∈ t.entries (c.inumOf dir), (c'.isCachedLeaf dir l.name).isSome) := by
  have hdisk : disk.isDirectory (c.nodes dir).inum = t.isDir (c.inumOf dir) := holds.dir _ (inv.mem dir hd)
  rw [Creeks.updateDir, hdisk]
  cases hdir : t.isDir (c.inumOf dir) with
  | false => exact ⟨c, rfl, inv, .refl c, nofun⟩
  | true =>
    obtain ⟨records, ⟨tiles, fits, used, names⟩, hentries⟩ := holds.records _ (inv.mem dir hd) hdir
    have hlen := tiles.length_le
    have hfuel : records.length < disk.iSize (c.inumOf dir) + 1 := by omega
    obtain ⟨c', e, inv', g, hall⟩ := inv.readCache tiles fits hfuel hd hdir used fun r hr hn => by
      rw [filename_eq (names r hr).1] at hn ⊢
      rw [hentries]
      exact List.mem_map.2 ⟨r, List.mem_filter.2 ⟨hr, by rw [hn]; rfl⟩, rfl⟩
    rw [Nat.add_sub_cancel_left] at e
    refine ⟨c', e, inv', g, fun _ l hl => ?_⟩
    rw [hentries] at hl
    obtain ⟨r, hr, rfl⟩ := List.mem_map.1 hl
    obtain ⟨hr, hn⟩ := List.mem_filter.1 hr
    have hfile := filename_eq (names r hr).1
    have hcached := hall r hr (by rw [hfile]; simpa using hn)
    rwa [hfile] at hcached

/-- In a directory that has been read, a name is cached exactly when the tree has an entry of it, and for the
same inode. -/
lemma entry (inv : Mirrors t c) (hd : d < c.next) (hdir : t.isDir (c.inumOf d) = true)
    (hall : ∀ l ∈ t.entries (c.inumOf d), (c.isCachedLeaf d l.name).isSome) (name : List UInt8) :
    (c.isCachedLeaf d name).map c.inumOf = (t.entry (c.inumOf d) name).map Leaf.inum := by
  have hcached : ∀ l, t.entry (c.inumOf d) name = some l →
      l ∈ t.entries (c.inumOf d) ∧ l.name = name := fun l he =>
    ⟨List.mem_of_find?_eq_some he, by simpa using List.find?_some he⟩
  cases hf : c.isCachedLeaf d name with
  | none =>
    cases he : t.entry (c.inumOf d) name with
    | none => rfl
    | some l =>
      obtain ⟨hl, hname⟩ := hcached l he
      have hsome := hall l hl
      rw [hname, hf] at hsome
      cases hsome
  | some k =>
    have hname : (c.nodes k).name = name := by simpa using List.find?_some hf
    have hleaf := (inv.leaf d hd k (List.mem_of_find?_eq_some hf)).2
    rw [hname] at hleaf
    cases he : t.entry (c.inumOf d) name with
    | none =>
      have hnot := List.find?_eq_none.1 he _ hleaf
      exact absurd (decide_eq_true rfl) hnot
    | some l =>
      obtain ⟨hl, hl'⟩ := hcached l he
      rw [List.inj_on_of_nodup_map (t.distinct _ (inv.mem d hd) hdir) hl hleaf hl']
      rfl

/-- The loop of `path_to_file` resolves the components: the induction is on its turns. -/
lemma pathLoop {fuel : Nat} {begP : List UInt8} (inv : Mirrors t c) (holds : disk.Holds t) (hd : d < c.next)
    (hb : begP.head? ≠ some 47) (hf : begP.length < fuel) :
    ∃ c' fp, Creeks.pathLoop disk fuel c d begP = some (c', fp) ∧ Mirrors t c' ∧
      fp.map c'.inumOf = t.resolve (c.inumOf d) (components begP) := by
  induction fuel generalizing c d begP with
  | zero => exact absurd hf (Nat.not_lt_zero _)
  | succ fuel ih =>
    rw [Creeks.pathLoop]
    by_cases hne : begP = []
    · subst hne
      exact ⟨c, some d, rfl, inv, rfl⟩
    have hlt := skip_lt hne
    have hdisk : disk.isDirectory (c.nodes d).inum = t.isDir (c.inumOf d) := holds.dir _ (inv.mem d hd)
    rw [if_neg hne, hdisk, components_next hb hne, DirTree.resolve]
    cases hdir : t.isDir (c.inumOf d) with
    | false => exact ⟨c, none, rfl, inv, rfl⟩
    | true =>
      have hnot : ¬ (!true) = true := by decide
      rw [if_neg hnot, if_neg hnot]
      by_cases hup : begP.takeWhile (· ≠ 47) = [46, 46]
      · rw [if_pos hup, if_pos hup, ← inv.parent d hd]
        exact ih inv (inv.tree.parent d hd) (head_skip _) (by omega)
      by_cases hdot : begP.takeWhile (· ≠ 47) = [46]
      · rw [if_neg hup, if_neg hup, if_pos hdot, if_pos hdot]
        exact ih inv hd (head_skip _) (by omega)
      rw [if_neg hup, if_neg hup, if_neg hdot, if_neg hdot]
      obtain ⟨c1, e1, inv1, g1, hall⟩ := inv.updateDir holds hd
      have hd1 : d < c1.next := lt_of_lt_of_le hd g1.next
      have hsame := g1.inumOf hd
      have hentry := inv1.entry hd1 (by rwa [hsame]) (by rw [hsame]; exact hall hdir)
        (begP.takeWhile (· ≠ 47))
      rw [hsame] at hentry
      rw [e1]
      dsimp only
      cases hk : c1.isCachedLeaf d (begP.takeWhile (· ≠ 47)) with
      | none =>
        rw [hk, Option.map_none] at hentry
        rw [Option.map_eq_none_iff.1 hentry.symm]
        exact ⟨c1, none, rfl, inv1, rfl⟩
      | some k =>
        rw [hk, Option.map_some] at hentry
        obtain ⟨l, hl, hinum⟩ := Option.map_eq_some_iff.1 hentry.symm
        have hlt1 := (inv1.tree.leaf d k hd1 (List.mem_of_find?_eq_some hk)).2.1
        rw [hl]
        dsimp only
        rw [hinum]
        exact ih inv1 hlt1 (head_skip _) (by omega)

/-- `path_to_file` resolves the path in the tree. -/
lemma pathToFile (inv : Mirrors t c) (holds : disk.Holds t) (hpwd : pwd < c.next) (path : List UInt8) :
    ∃ c' fp, Creeks.pathToFile disk c pwd path = some (c', fp) ∧ Mirrors t c' ∧
      fp.map c'.inumOf =
        t.resolve (if path.head? = some 47 then t.root else c.inumOf pwd) (components path) := by
  have hlen : (path.dropWhile (· = 47)).length < path.length + 1 :=
    Nat.lt_succ_of_le (List.length_dropWhile_le _ _)
  rw [Creeks.pathToFile, ← components_skip]
  by_cases habs : path.head? = some 47
  · rw [if_pos habs, if_pos habs, ← inv.root]
    exact inv.pathLoop holds inv.tree.next_pos (head_skip path) hlen
  · rw [if_neg habs, if_neg habs]
    exact inv.pathLoop holds hpwd (head_skip path) hlen

/-- Every call keeps the cache a part of the tree. -/
lemma step {call : CacheCall} (inv : Mirrors t c) (holds : disk.Holds t) (st : CacheStep disk c call c') :
    Mirrors t c' := by
  cases st with
  | @pathToFile pwd path _ _ hpwd h =>
    obtain ⟨_, _, e, inv', -⟩ := inv.pathToFile holds hpwd path
    cases h.symm.trans e
    exact inv'
  | getDirEntries hd h =>
    obtain ⟨_, e, inv', -⟩ := inv.updateDir holds hd
    cases h.symm.trans e
    exact inv'
  | @sysChdir pwd path _ _ _ hpwd h =>
    obtain ⟨c1, fp, e, inv', -⟩ := inv.pathToFile holds hpwd path
    rw [Creeks.sysChdir, e] at h
    cases fp with
    | none =>
      cases h
      exact inv'
    | some fp =>
      rw [Option.map_some] at h
      dsimp only at h
      split at h
      · cases h
        exact inv'
      · cases h
        exact inv'
  | @sysOpen pwd path _ _ hpwd h =>
    obtain ⟨_, _, e, inv', -⟩ := inv.pathToFile holds hpwd path
    cases h.symm.trans e
    exact inv'

/-- `init_root` -/
lemma initRoot (holds : disk.Holds t) (free : Nat → CacheNode) :
    ∃ c, Creeks.initRoot disk t.root free = some c ∧ Mirrors t c := by
  obtain ⟨c0, hc0⟩ : ∃ c0 : FileCache, c0 = ⟨Function.update free 0 ⟨[47], t.root, 0, []⟩, 1⟩ := ⟨_, rfl⟩
  have hnode : c0.nodes 0 = ⟨[47], t.root, 0, []⟩ := by
    rw [hc0]
    dsimp only
    rw [Function.update_self]
  have hinum : c0.inumOf 0 = t.root := by rw [FileCache.inumOf, hnode]
  have hnext : c0.next = 1 := by rw [hc0]
  have hzero : ∀ k < c0.next, k = 0 := fun k hk => by omega
  have inv : Mirrors t c0 := by
    refine ⟨hc0 ▸ rootCache_tree free t.root, hinum, fun k hk => ?_, fun d hd k hk => ?_, fun k hk => ?_⟩
    · rw [hzero k hk, hinum]
      exact t.root_mem
    · rw [hzero d hd, hnode] at hk
      cases hk
    · rw [hzero k hk, hnode, hinum, t.parent_root]
  obtain ⟨c, e, inv', -⟩ := inv.updateDir holds inv.tree.next_pos
  rw [hc0] at e
  exact ⟨c, e, inv'⟩

end Mirrors

end Cache

/-- `path_to_file` returns, from every directory of the cache and for every path, the node of the inode that
the path resolves to, or nothing when it resolves to none. -/
def ResolvesPaths (disk : Disk) (t : DirTree) (c : FileCache) : Prop :=
  ∀ pwd < c.next, ∀ path, ∃ c' fp, pathToFile disk c pwd path = some (c', fp) ∧
    fp.map c'.inumOf = t.resolve (if path.head? = some 47 then t.root else c.inumOf pwd) (components path)

/-- After any calls since `init_root`, a lookup depends on the tree on the disk only. -/
theorem path_resolution {disk : Disk} {t : DirTree} (holds : disk.Holds t) (free : Nat → CacheNode) :
    ∃ c0, initRoot disk t.root free = some c0 ∧
      ∀ calls c, Run (CacheStep disk) c0 calls c → ResolvesPaths disk t c := by
  obtain ⟨c0, e, init⟩ := Mirrors.initRoot holds free
  refine ⟨c0, e, fun calls c run pwd hpwd path => ?_⟩
  have inv : Mirrors t c := run.invariant (I := Mirrors t) (fun _ _ _ inv st => inv.step holds st) init
  obtain ⟨c', fp, h, -, hres⟩ := inv.pathToFile holds hpwd path
  exact ⟨c', fp, h, hres⟩

/-- A block that begins with the bytes of a list. -/
def blockAt (base : Nat) (bytes : List UInt8) : Mem := fun x => if x < base then 0 else bytes.getD (x - base) 0

/-- Two directories of three records of 12 bytes: the root with `d`, and `d` with the file `f`. -/
def twoDirs : Disk where
  isDirectory i := i = 2 ∨ i = 11
  content i := blockAt 0x1000 (if i = 2 then
      [2, 0, 0, 0, 12, 0, 1, 2, 46, 0, 0, 0, 2, 0, 0, 0, 12, 0, 2, 2, 46, 46, 0, 0,
        11, 0, 0, 0, 12, 0, 1, 2, 100, 0, 0, 0]
    else
      [11, 0, 0, 0, 12, 0, 1, 2, 46, 0, 0, 0, 2, 0, 0, 0, 12, 0, 2, 2, 46, 46, 0, 0,
        12, 0, 0, 0, 12, 0, 1, 1, 102, 0, 0, 0])
  mmap _ := 0x1000
  iSize _ := 36

/-- The tree on that disk. -/
def twoTree : DirTree where
  inodes := {2, 11, 12}
  root := 2
  isDir i := i = 2 ∨ i = 11
  entries i := if i = 2 then [⟨[100], 11⟩] else [⟨[102], 12⟩]
  parent i := if i = 12 then 11 else 2
  root_mem := .inl rfl
  root_dir := rfl
  parent_root := rfl
  below := by
    rintro i (rfl | rfl | rfl) hi l hl
    · cases List.mem_singleton.1 hl
      exact ⟨.inr (.inl rfl), rfl⟩
    · cases List.mem_singleton.1 hl
      exact ⟨.inr (.inr rfl), rfl⟩
    · cases hi
  distinct := by
    rintro i (rfl | rfl | rfl) _ <;> decide

lemma twoDirs_holds : twoDirs.Holds twoTree := by
  have tiles : ∀ i ∈ twoTree.inodes, Tiling 8 (recLen (twoDirs.content i)) 0x1000 [0x1000, 0x100C, 0x1018] 0x1024 := by
    rintro i (rfl | rfl | rfl) <;>
      exact .cons (by decide) (.cons (by decide) (.cons (by decide) .nil))
  refine ⟨fun _ _ => rfl, fun i hi hdir => ⟨[0x1000, 0x100C, 0x1018], ⟨tiles i hi, (by decide : 0x1000 + 36 < 4294967296), ?_, ?_⟩, ?_⟩⟩
  · rcases hi with rfl | rfl | rfl <;> decide
  · rcases hi with rfl | rfl | rfl <;> decide
  · rcases hi with rfl | rfl | rfl
    · decide
    · decide
    · cases hdir

/-- The path `/d/.././/d/f/` on that disk. -/
theorem path_resolution_two : ∃ c0, initRoot twoDirs 2 (fun _ => ⟨[], 0, 0, []⟩) = some c0 ∧
    ResolvesPaths twoDirs twoTree c0 ∧
    twoTree.resolve 2 (components [47, 100, 47, 46, 46, 47, 46, 47, 47, 100, 47, 102, 47]) = some 12 := by
  obtain ⟨c0, e, h⟩ := path_resolution twoDirs_holds fun _ => ⟨[], 0, 0, []⟩
  exact ⟨c0, e, h [] c0 .nil, by decide⟩

end Creeks
