import Creeks.File.Pwd

/-!
# The type of the working directory

`is_directory` tests one bit of the type of an inode, and that bit is also set in the types of sockets and
block devices. `sys_chdir` and `path_to_file` rely on it. Here the disk has the mode of every inode, and a
lookup lists the inodes whose blocks it reads as records.

`working_directory` says that the working directory stays a directory, and that only blocks of directories
are read, exactly when no call ends at a socket or a block device or looks up a name in one.
-/

namespace Creeks
open Lib

abbrev EXT2_S_IFMT : BitVec 16 := 0xF000
abbrev EXT2_S_IFSOCK : BitVec 16 := 0xC000
abbrev EXT2_S_IFLNK : BitVec 16 := 0xA000
abbrev EXT2_S_IFREG : BitVec 16 := 0x8000
abbrev EXT2_S_IFBLK : BitVec 16 := 0x6000
abbrev EXT2_S_IFDIR : BitVec 16 := 0x4000
abbrev EXT2_S_IFCHR : BitVec 16 := 0x2000
abbrev EXT2_S_IFIFO : BitVec 16 := 0x1000

/-- The inodes of a disk while nothing is written: their modes, and their content as `ext2_read_file`
loads it. -/
structure Inodes where
  iMode : Nat → BitVec 16
  content : Nat → Mem
  mmap : Nat → Nat
  iSize : Nat → Nat

namespace Inodes

variable (inodes : Inodes)

/-- The type of an inode. -/
def type (inum : Nat) : BitVec 16 := inodes.iMode inum &&& EXT2_S_IFMT

/-- `is_directory()` -/
def isDirectory (inum : Nat) : Bool := inodes.iMode inum &&& EXT2_S_IFDIR ≠ 0

/-- The disk as lookups see it. -/
def disk : Disk := ⟨inodes.isDirectory, inodes.content, inodes.mmap, inodes.iSize⟩

/-- Every inode has one of the types of ext2. -/
def ValidTypes : Prop :=
  ∀ inum, inodes.type inum ∈ [EXT2_S_IFSOCK, EXT2_S_IFLNK, EXT2_S_IFREG, EXT2_S_IFBLK, EXT2_S_IFDIR,
    EXT2_S_IFCHR, EXT2_S_IFIFO]

/-- An inode that is a directory. -/
def IsDir (inum : Nat) : Prop := inodes.type inum = EXT2_S_IFDIR

/-- An inode that is a socket or a block device. -/
def IsSpecial (inum : Nat) : Prop :=
  inodes.type inum = EXT2_S_IFSOCK ∨ inodes.type inum = EXT2_S_IFBLK

/-- The inodes whose blocks the loop of `path_to_file` reads as directory records. -/
def pathReads : Nat → FileCache → Nat → List UInt8 → List Nat
  | 0, _, _, _ => []
  | fuel + 1, c, fp, begP =>
    if begP = [] then []
    else if !inodes.isDirectory (c.nodes fp).inum then []
    else
      let name := begP.takeWhile (· ≠ 47)
      let begP := (begP.dropWhile (· ≠ 47)).dropWhile (· = 47)
      if name = [46, 46] then pathReads fuel c (c.nodes fp).parent begP
      else if name = [46] then pathReads fuel c fp begP
      else (c.nodes fp).inum ::
        match updateDir inodes.disk c fp with
        | none => []
        | some c =>
          match c.isCachedLeaf fp name with
          | none => []
          | some fp => pathReads fuel c fp begP

/-- A path that does not end at a socket or a block device, and looks up no name but `.` and `..` in
one. -/
def PathPlain : Nat → FileCache → Nat → List UInt8 → Prop
  | 0, _, _, _ => True
  | fuel + 1, c, fp, begP =>
    if begP = [] then ¬ inodes.IsSpecial (c.nodes fp).inum
    else if !inodes.isDirectory (c.nodes fp).inum then True
    else
      let name := begP.takeWhile (· ≠ 47)
      let begP := (begP.dropWhile (· ≠ 47)).dropWhile (· = 47)
      if name = [46, 46] then PathPlain fuel c (c.nodes fp).parent begP
      else if name = [46] then PathPlain fuel c fp begP
      else ¬ inodes.IsSpecial (c.nodes fp).inum ∧
        match updateDir inodes.disk c fp with
        | none => True
        | some c =>
          match c.isCachedLeaf fp name with
          | none => True
          | some fp => PathPlain fuel c fp begP

end Inodes

/-- The cache, and the working directory of the process. -/
structure Cwd where
  cache : FileCache
  pwd : Nat

namespace Cwd

/-- The inode of the working directory. -/
def inum (s : Cwd) : Nat := (s.cache.nodes s.pwd).inum

/-- The arguments a call of `path_to_file` passes to its loop. -/
def walk {α : Type} (s : Cwd) (path : List UInt8)
    (loop : Nat → FileCache → Nat → List UInt8 → α) : α :=
  loop (path.length + 1) s.cache (if path.head? = some 47 then 0 else s.pwd) (path.dropWhile (· = 47))

/-- A `sys_chdir` that ends in a directory, where it was before if it fails, and reads the blocks of
directories only. -/
def ChdirOk (inodes : Inodes) (s : Cwd) (path : List UInt8) : Prop :=
  (∀ inum ∈ s.walk path inodes.pathReads, inodes.IsDir inum) ∧
    ∀ c pwd ret, sysChdir inodes.disk s.cache s.pwd path = some (c, pwd, ret) →
      inodes.IsDir (inum ⟨c, pwd⟩) ∧ (ret ≠ 0 → pwd = s.pwd)

/-- The path of a `sys_chdir` neither ends at nor goes through a socket or a block device. -/
def ChdirPlain (inodes : Inodes) (s : Cwd) (path : List UInt8) : Prop :=
  s.walk path inodes.PathPlain

/-- Every call of a sequence keeps the directory. -/
def AllOk (inodes : Inodes) : List (List UInt8) → Cwd → Prop
  | [], _ => True
  | path :: paths, s => s.ChdirOk inodes path ∧
      ∀ c pwd ret, sysChdir inodes.disk s.cache s.pwd path = some (c, pwd, ret) →
        AllOk inodes paths ⟨c, pwd⟩

/-- Every path of a sequence is plain when it is looked up. -/
def AllPlain (inodes : Inodes) : List (List UInt8) → Cwd → Prop
  | [], _ => True
  | path :: paths, s => s.ChdirPlain inodes path ∧
      ∀ c pwd ret, sysChdir inodes.disk s.cache s.pwd path = some (c, pwd, ret) →
        AllPlain inodes paths ⟨c, pwd⟩

end Cwd

/-! ## The type test -/

section Types

variable {inodes : Inodes} {inum : Nat}

/-- The bit `is_directory` tests is set in the types of directories, sockets and block devices. -/
lemma isDirectory_iff (valid : inodes.ValidTypes) :
    inodes.isDirectory inum = true ↔ inodes.IsDir inum ∨ inodes.IsSpecial inum := by
  have hbit : inodes.iMode inum &&& EXT2_S_IFDIR = inodes.type inum &&& EXT2_S_IFDIR := by
    rw [Inodes.type, BitVec.and_assoc]
    rfl
  have hmem := valid inum
  rw [Inodes.isDirectory, hbit, Inodes.IsDir, Inodes.IsSpecial]
  generalize inodes.type inum = t at hmem
  simp only [List.mem_cons, List.not_mem_nil, or_false] at hmem
  rcases hmem with rfl | rfl | rfl | rfl | rfl | rfl | rfl <;> decide

/-- A directory is no socket and no block device. -/
lemma not_isSpecial (h : inodes.IsDir inum) : ¬ inodes.IsSpecial inum := by
  rw [Inodes.IsDir] at h
  rw [Inodes.IsSpecial, h]
  decide

/-- What passes the test and is not special is a directory. -/
lemma isDir_iff (valid : inodes.ValidTypes) (h : inodes.isDirectory inum = true) :
    inodes.IsDir inum ↔ ¬ inodes.IsSpecial inum := by
  refine ⟨not_isSpecial, fun hs => ?_⟩
  rcases (isDirectory_iff valid).1 h with hd | hd
  · exact hd
  · exact absurd hd hs

end Types

/-! ## One call -/

section Call

variable {inodes : Inodes} {fuel d : Nat} {c : FileCache} {begP : List UInt8}

/-- A walk that stops without a node has read nothing that could be no directory. -/
lemma ends_plain {o : Option (FileCache × Option Nat)} {P : Nat → Prop} {Q R : FileCache → Nat → Prop}
    (ho : ∀ c' k, o ≠ some (c', some k)) :
    True ↔ (∀ inum ∈ ([] : List Nat), P inum) ∧ ∀ c' k, o = some (c', some k) → Q c' k → R c' k :=
  iff_of_true trivial ⟨List.forall_mem_nil _, fun c' k e => absurd e (ho c' k)⟩

/-- A lookup reads the blocks of directories only and does not end at what only passes the test, exactly
when its path is plain. -/
lemma pathPlain_iff (valid : inodes.ValidTypes) :
    inodes.PathPlain fuel c d begP ↔
      (∀ inum ∈ inodes.pathReads fuel c d begP, inodes.IsDir inum) ∧
        ∀ c' k, pathLoop inodes.disk fuel c d begP = some (c', some k) →
          inodes.isDirectory (c'.nodes k).inum = true → inodes.IsDir (c'.nodes k).inum := by
  induction fuel generalizing c d begP with
  | zero => exact ends_plain (by simp [pathLoop])
  | succ fuel ih =>
    rw [Inodes.PathPlain, Inodes.pathReads, pathLoop]
    by_cases hne : begP = []
    · rw [if_pos hne, if_pos hne, if_pos hne]
      constructor
      · intro hs
        refine ⟨List.forall_mem_nil _, fun c' k e hdir => ?_⟩
        cases e
        exact (isDir_iff valid hdir).2 hs
      · rintro ⟨-, hend⟩ hs
        have hdir : inodes.isDirectory (c.nodes d).inum = true := (isDirectory_iff valid).2 (.inr hs)
        exact not_isSpecial (hend c d rfl hdir) hs
    · rw [if_neg hne, if_neg hne, if_neg hne]
      cases hdir : inodes.isDirectory (c.nodes d).inum with
      | false =>
        have hdir' : inodes.disk.isDirectory (c.nodes d).inum = false := hdir
        rw [hdir']
        exact ends_plain (by simp)
      | true =>
        have hdir' : inodes.disk.isDirectory (c.nodes d).inum = true := hdir
        rw [hdir']
        simp only [Bool.not_true, Bool.false_eq_true, if_false]
        split
        case isTrue => exact ih
        case isFalse =>
          split
          case isTrue => exact ih
          case isFalse =>
            rw [← isDir_iff valid hdir, List.forall_mem_cons, and_assoc]
            refine and_congr_right fun _ => ?_
            cases updateDir inodes.disk c d with
            | none => exact ends_plain (by simp)
            | some c1 =>
              dsimp only
              cases c1.isCachedLeaf d (begP.takeWhile (· ≠ 47)) with
              | none => exact ends_plain (by simp)
              | some k => exact ih

/-- On a disk without sockets and block devices every path is plain. -/
lemma pathPlain_of_none (h : ∀ inum, ¬ inodes.IsSpecial inum) :
    inodes.PathPlain fuel c d begP := by
  induction fuel generalizing c d begP with
  | zero => trivial
  | succ fuel ih =>
    rw [Inodes.PathPlain]
    split
    case isTrue => exact h _
    case isFalse =>
      split
      case isTrue => trivial
      case isFalse =>
        dsimp only
        split
        case isTrue => exact ih
        case isFalse =>
          split
          case isTrue => exact ih
          case isFalse =>
            refine ⟨h _, ?_⟩
            cases updateDir inodes.disk c d with
            | none => trivial
            | some c1 =>
              dsimp only
              cases c1.isCachedLeaf d (begP.takeWhile (· ≠ 47)) with
              | none => trivial
              | some k => exact ih

lemma allPlain_of_none (h : ∀ inum, ¬ inodes.IsSpecial inum) (paths : List (List UInt8)) (s : Cwd) :
    Cwd.AllPlain inodes paths s := by
  induction paths generalizing s with
  | nil => trivial
  | cons path paths ih => exact ⟨pathPlain_of_none h, fun c pwd _ _ => ih ⟨c, pwd⟩⟩

end Call

/-- The working directory of a process, reached by names from the root, is a directory. -/
structure InDirectory (inodes : Inodes) (s : Cwd) : Prop where
  tree : CacheTree s.cache
  chain : ∃ names, Chain inodes.disk s.cache s.pwd names
  isDir : inodes.IsDir s.inum

namespace InDirectory

variable {inodes : Inodes} {s : Cwd} {path : List UInt8} {c : FileCache} {pwd : Nat} {ret : Int}

/-- What `sys_chdir` does with the node its lookup has found. -/
lemma chdir_cases (h : sysChdir inodes.disk s.cache s.pwd path = some (c, pwd, ret)) :
    (∃ k, s.walk path (pathLoop inodes.disk) = some (c, some k) ∧
        inodes.isDirectory (c.nodes k).inum = true ∧ pwd = k ∧ ret = 0) ∨
      (∃ r, s.walk path (pathLoop inodes.disk) = some (c, r) ∧ pwd = s.pwd ∧ ret ≠ 0) := by
  rw [sysChdir, pathToFile] at h
  obtain ⟨⟨c', r⟩, hloop, e⟩ := Option.map_eq_some_iff.1 h
  cases r with
  | none =>
    cases e
    exact .inr ⟨none, hloop, rfl, by decide⟩
  | some k =>
    dsimp only at e
    cases hdir : inodes.isDirectory (c'.nodes k).inum with
    | true =>
      have hdir' : inodes.disk.isDirectory (c'.nodes k).inum = true := hdir
      rw [hdir'] at e
      cases e
      exact .inl ⟨pwd, hloop, hdir, rfl, rfl⟩
    | false =>
      have hdir' : inodes.disk.isDirectory (c'.nodes k).inum = false := hdir
      rw [hdir'] at e
      cases e
      exact .inr ⟨some k, hloop, rfl, by decide⟩

/-- A lookup keeps the cache a tree, the inode of the working directory, and the names that lead to it and
to the node found. -/
lemma walk (inv : InDirectory inodes s) {r : Option Nat}
    (h : s.walk path (pathLoop inodes.disk) = some (c, r)) :
    CacheTree c ∧ (c.nodes s.pwd).inum = s.inum ∧
      (∃ names, Chain inodes.disk c s.pwd names) ∧
      ∀ k ∈ r, ∃ names, Chain inodes.disk c k names := by
  obtain ⟨names, chain⟩ := inv.chain
  obtain ⟨start, hstart⟩ : ∃ names, Chain inodes.disk s.cache
      (if path.head? = some 47 then 0 else s.pwd) names := by
    split
    · exact ⟨[], .root⟩
    · exact ⟨names, chain⟩
  obtain ⟨tree, g, hr⟩ := pathLoop_found inv.tree hstart (head_skip path) h
  exact ⟨tree, g.inum _ (chain.lt inv.tree), ⟨names, chain.grows inv.tree g⟩, hr⟩

/-- A call is ok when its path is plain, and only then. -/
lemma chdirOk_iff (inv : InDirectory inodes s) (valid : inodes.ValidTypes) :
    s.ChdirOk inodes path ↔ s.ChdirPlain inodes path := by
  rw [Cwd.ChdirPlain, Cwd.walk, pathPlain_iff valid]
  refine and_congr_right fun _ => ⟨fun hok c k hloop hdir => ?_, fun hend c pwd ret h => ?_⟩
  · refine (hok c k 0 ?_).1
    rw [sysChdir, pathToFile, hloop]
    have hdir' : inodes.disk.isDirectory (c.nodes k).inum = true := hdir
    simp only [Option.map_some, hdir', Bool.not_true, Bool.false_eq_true, if_false]
  · rcases chdir_cases h with ⟨k, hloop, hdir, rfl, rfl⟩ | ⟨r, hloop, rfl, hret⟩
    · exact ⟨hend c _ hloop hdir, fun h0 => absurd rfl h0⟩
    · obtain ⟨-, hinum, -⟩ := inv.walk hloop
      refine ⟨?_, fun _ => rfl⟩
      rw [Cwd.inum, hinum]
      exact inv.isDir

/-- A call with a plain path leaves the process in a directory. -/
lemma step (inv : InDirectory inodes s) (hok : s.ChdirOk inodes path)
    (h : sysChdir inodes.disk s.cache s.pwd path = some (c, pwd, ret)) :
    InDirectory inodes ⟨c, pwd⟩ := by
  have hdir := (hok.2 c pwd ret h).1
  rcases chdir_cases h with ⟨k, hloop, -, rfl, -⟩ | ⟨r, hloop, rfl, -⟩
  · obtain ⟨tree, -, -, hr⟩ := inv.walk hloop
    exact ⟨tree, hr _ rfl, hdir⟩
  · obtain ⟨tree, -, hchain, -⟩ := inv.walk hloop
    exact ⟨tree, hchain, hdir⟩

end InDirectory

/-- From the root of a disk whose root is a directory, a sequence of calls keeps the working directory a
directory and reads the blocks of directories only, exactly when every path is plain. -/
theorem working_directory {inodes : Inodes} {inum : Nat} {free : Nat → CacheNode} {c : FileCache}
    (valid : inodes.ValidTypes) (boot : initRoot inodes.disk inum free = some c)
    (root : inodes.IsDir inum) (paths : List (List UInt8)) :
    Cwd.AllOk inodes paths ⟨c, 0⟩ ↔ Cwd.AllPlain inodes paths ⟨c, 0⟩ := by
  have inv : InDirectory inodes ⟨c, 0⟩ := by
    refine ⟨(initRoot_found boot).tree, ⟨[], .root⟩, ?_⟩
    rw [Cwd.inum, initRoot_inum boot]
    exact root
  generalize (⟨c, 0⟩ : Cwd) = s at inv
  induction paths generalizing s with
  | nil => exact Iff.rfl
  | cons path paths ih =>
    rw [Cwd.AllOk, Cwd.AllPlain, inv.chdirOk_iff valid]
    refine and_congr_right fun hplain => ?_
    have hok := (inv.chdirOk_iff valid).2 hplain
    exact forall_congr' fun c => forall_congr' fun pwd => forall_congr' fun ret =>
      forall_congr' fun h => ih _ (inv.step hok h)

/-- The disk whose root holds `a`, with the mode of `a`. -/
def smallInodes (mode : BitVec 16) : Inodes where
  iMode inum := if inum = 2 then 0x41ED else mode
  content := smallDisk.content
  mmap := smallDisk.mmap
  iSize := smallDisk.iSize

lemma smallInodes_type (mode : BitVec 16) (inum : Nat) :
    (smallInodes mode).type inum = if inum = 2 then EXT2_S_IFDIR else mode &&& EXT2_S_IFMT := by
  show (if inum = 2 then _ else _) &&& EXT2_S_IFMT = _
  split
  case isTrue => decide
  case isFalse => rfl

/-- Two changes of directory on a disk with directories only. -/
theorem working_directory_small :
    ∃ c, initRoot (smallInodes 0x41ED).disk 2 blankNodes = some c ∧
      Cwd.AllOk (smallInodes 0x41ED) [[47, 97], [46, 46]] ⟨c, 0⟩ := by
  obtain ⟨c, hc⟩ : ∃ c, initRoot (smallInodes 0x41ED).disk 2 blankNodes = some c :=
    Option.isSome_iff_exists.1 (by decide +kernel)
  have htype : ∀ inum, (smallInodes 0x41ED).type inum = EXT2_S_IFDIR := fun inum => by
    rw [smallInodes_type]
    split <;> decide
  have valid : (smallInodes 0x41ED).ValidTypes := fun inum => by
    rw [htype inum]
    decide
  exact ⟨c, hc, (working_directory valid hc (htype 2) _).2
    (allPlain_of_none (fun inum => not_isSpecial (htype inum)) _ _)⟩

/-- A process can change to a socket. -/
theorem socket_directory :
    ∃ c, initRoot (smallInodes 0xC1ED).disk 2 blankNodes = some c ∧
      (smallInodes 0xC1ED).ValidTypes ∧ (smallInodes 0xC1ED).IsDir 2 ∧
      ¬ Cwd.AllOk (smallInodes 0xC1ED) [[47, 97]] ⟨c, 0⟩ := by
  obtain ⟨c, hc⟩ : ∃ c, initRoot (smallInodes 0xC1ED).disk 2 blankNodes = some c :=
    Option.isSome_iff_exists.1 (by decide +kernel)
  have hchdir : ((initRoot (smallInodes 0xC1ED).disk 2 blankNodes).bind fun c =>
      sysChdir (smallInodes 0xC1ED).disk c 0 [47, 97]).map (fun r => (r.1.nodes r.2.1).inum) =
        some 3 := by
    decide +kernel
  rw [hc, Option.bind_some] at hchdir
  obtain ⟨⟨c', pwd, ret⟩, hr, hinum⟩ := Option.map_eq_some_iff.1 hchdir
  refine ⟨c, hc, fun inum => ?_, smallInodes_type _ _, fun h => ?_⟩
  · rw [smallInodes_type]
    split <;> decide
  · have hdir := (h.1.2 c' pwd ret hr).1
    have hinum : Cwd.inum ⟨c', pwd⟩ = 3 := hinum
    rw [hinum, Inodes.IsDir, smallInodes_type] at hdir
    exact absurd hdir (by decide)

end Creeks
