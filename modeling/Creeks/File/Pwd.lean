import Creeks.File.Lookup
import Creeks.Lib.Run

/-!
# The current directory and its path

`sys_pwd` walks from the current directory up to the root twice: to add up the lengths of the names, and
to write them into the buffer of the caller from its end to its beginning. `pwd_round_trip` says that the
string leads `path_to_file` back to the directory, whichever lookups came before.
-/

namespace Creeks
open Lib

/-- The buffer of the caller. -/
abbrev UBuf := Int → UInt8

/-- `memcpy` to the buffer. -/
def UBuf.copy (buf : UBuf) (dst : Int) (src : List UInt8) : UBuf := fun x =>
  if dst ≤ x ∧ x < dst + src.length then src.getD (x - dst).toNat 0 else buf x

/-- The first loop of `sys_pwd`. It climbs from node to node, so it ends within as many turns as there
are nodes unless the links form a cycle. -/
def pwdSize (c : FileCache) : Nat → Nat → Int → Option Int
  | 0, _, _ => none
  | fuel + 1, fp, sz =>
    if (c.nodes fp).parent = 0 then some sz
    else
      let fp := (c.nodes fp).parent
      pwdSize c fuel fp (sz + ((c.nodes fp).name.length + 1))

/-- The second loop of `sys_pwd`. Every turn makes `sz` smaller, which bounds their number. -/
def pwdFill (c : FileCache) : Nat → Nat → Int → UBuf → UBuf
  | 0, _, _, buf => buf
  | fuel + 1, fp, sz, buf =>
    if sz > 0 then
      let name := (c.nodes fp).name
      let buf := buf.copy (sz - name.length) name
      let sz := sz - (name.length + 1)
      pwdFill c fuel (c.nodes fp).parent sz (Function.update buf sz 47)
    else buf

/-- `sys_pwd` for a process in the directory `pwd`. -/
def sysPwd (c : FileCache) (pwd : Nat) (buf : UBuf) : Option UBuf :=
  if pwd = 0 then some (Function.update (Function.update buf 0 47) 1 0)
  else
    (pwdSize c c.next pwd ((c.nodes pwd).name.length + 1)).map fun sz =>
      pwdFill c sz.toNat pwd sz (Function.update buf sz 0)

/-- `sys_chdir`, with the directory the process is in afterwards and the value returned. -/
def sysChdir (disk : Disk) (c : FileCache) (pwd : Nat) (path : List UInt8) :
    Option (FileCache × Nat × Int) :=
  (pathToFile disk c pwd path).map fun (c, fp) =>
    match fp with
    | none => (c, pwd, -1)
    | some fp => if !disk.isDirectory (c.nodes fp).inum then (c, pwd, -2) else (c, fp, 0)

/-- The buffer begins with a string and its terminating zero. -/
structure HasString (buf : UBuf) (s : List UInt8) : Prop where
  chars : ∀ i < s.length, buf i = s.getD i 0
  no_zero : 0 ∉ s
  zero : buf s.length = 0

/-- What `sys_pwd` writes in the directory `d` is a string that begins with a slash and leads back to
`d`, from every directory. A process that changes to it stays where it is. -/
structure PwdRoundTrip (disk : Disk) (c : FileCache) (d : Nat) (buf : UBuf) : Prop where
  path : ∃ buf' s, sysPwd c d buf = some buf' ∧ HasString buf' s ∧ s.head? = some 47 ∧
    (∀ pwd, ∃ c', pathToFile disk c pwd s = some (c', some d)) ∧
    ∃ c', sysChdir disk c d s = some (c', d, 0)

/-- The path of a directory: `sys_pwd` writes it and nothing behind it, and it leads back from every
directory, also when the cache has grown. -/
structure HomePath (disk : Disk) (c : FileCache) (d : Nat) (path : List UInt8) : Prop where
  written : ∀ buf, ∃ buf', sysPwd c d buf = some buf' ∧ HasString buf' path ∧
    ∀ x : Int, path.length < x → buf' x = buf x
  head : path.head? = some 47
  found : ∀ {c'}, CacheTree c' → c.Grows c' → ∀ pwd, ∃ c'', c'.Grows c'' ∧
    pathToFile disk c' pwd path = some (c'', some d)

section Pwd

variable {disk : Disk} {c : FileCache} {d fuel : Nat} {names : List (List UInt8)} {sz : Int}
  {buf : UBuf}

lemma spell_snoc (names : List (List UInt8)) (name : List UInt8) :
    spell (names ++ [name]) = spell names ++ 47 :: name := by
  simp [spell]

lemma length_spell_snoc (names : List (List UInt8)) (name : List UInt8) :
    (spell (names ++ [name])).length = (spell names).length + name.length + 1 := by
  rw [spell_snoc, List.length_append, List.length_cons]
  omega

namespace Chain

/-- The first loop adds the lengths of the names above. -/
lemma pwdSize (chain : Chain disk c d names) (tree : CacheTree c) (hd : d ≠ 0) (hf : d ≤ fuel) :
    pwdSize c fuel d sz =
      some (sz + (spell names).length - ((c.nodes d).name.length + 1)) := by
  induction chain generalizing fuel sz with
  | root => exact absurd rfl hd
  | @leaf d k names chain _ _ hk _ _ ih =>
    obtain ⟨hlt, -, hpar, -⟩ := tree.leaf d k (chain.lt tree) hk
    obtain ⟨fuel, rfl⟩ : ∃ f, fuel = f + 1 := ⟨fuel - 1, by omega⟩
    rw [Creeks.pwdSize, hpar, length_spell_snoc]
    by_cases h0 : d = 0
    · rw [if_pos h0, (chain.eq_nil tree).2 h0]
      congr 1
      push_cast
      change sz = sz + (0 + _ + 1) - _
      omega
    · rw [if_neg h0]
      dsimp only
      rw [ih h0 (by omega)]
      congr 1
      push_cast
      omega

/-- The second loop writes the path and nothing else. -/
lemma pwdFill (chain : Chain disk c d names) (tree : CacheTree c)
    (hf : (spell names).length ≤ fuel) :
    (∀ i < (spell names).length,
      pwdFill c fuel d (spell names).length buf i = (spell names).getD i 0) ∧
    ∀ x : Int, (spell names).length ≤ x →
      pwdFill c fuel d (spell names).length buf x = buf x := by
  induction chain generalizing fuel buf with
  | root =>
    refine ⟨fun i hi => absurd hi (Nat.not_lt_zero i), fun x _ => ?_⟩
    cases fuel with
    | zero => rfl
    | succ fuel => rw [Creeks.pwdFill, if_neg (by simp [spell])]
  | @leaf d k names chain _ _ hk _ _ ih =>
    obtain ⟨-, -, hpar, -⟩ := tree.leaf d k (chain.lt tree) hk
    have hlen := length_spell_snoc names (c.nodes k).name
    rw [spell_snoc] at hf hlen ⊢
    obtain ⟨fuel, rfl⟩ : ∃ f, fuel = f + 1 := ⟨fuel - 1, by omega⟩
    have hsz : ((spell names ++ 47 :: (c.nodes k).name).length : Int) -
        ((c.nodes k).name.length + 1) = (spell names).length := by omega
    obtain ⟨hin, hout⟩ := @ih fuel
      (Function.update (buf.copy ((spell names ++ 47 :: (c.nodes k).name).length -
        (c.nodes k).name.length) (c.nodes k).name) (spell names).length 47) (by omega)
    rw [Creeks.pwdFill, if_pos (by omega)]
    simp only [hsz, hpar]
    refine ⟨fun i hi => ?_, fun x hx => ?_⟩
    · by_cases hlt : i < (spell names).length
      · rw [hin i hlt, List.getD_append _ _ _ _ hlt]
      · rw [hout i (by omega), List.getD_append_right _ _ _ _ (by omega)]
        by_cases e : i = (spell names).length
        · rw [e, Function.update_self, Nat.sub_self]
          rfl
        · obtain ⟨j, rfl⟩ : ∃ j, i = (spell names).length + (j + 1) :=
            ⟨i - (spell names).length - 1, by omega⟩
          rw [Function.update_of_ne (by omega), UBuf.copy, if_pos (by omega), Nat.add_sub_cancel_left,
            List.getD_cons_succ]
          congr 1
          omega
    · rw [hout x (by omega), Function.update_of_ne (by omega), UBuf.copy, if_neg (by omega)]

/-- `sys_pwd` below the root. Behind the string the buffer is as it was. -/
lemma sysPwd (chain : Chain disk c d names) (tree : CacheTree c) (hd : d ≠ 0) (buf : UBuf) :
    ∃ buf', sysPwd c d buf = some buf' ∧ HasString buf' (spell names) ∧
      ∀ x : Int, (spell names).length < x → buf' x = buf x := by
  obtain ⟨hin, hout⟩ := @pwdFill disk c d (spell names).length names
    (Function.update buf (spell names).length 0) chain tree (le_refl _)
  refine ⟨_, ?_, ⟨hin, chain.no_zero tree, (hout _ (le_refl _)).trans (Function.update_self ..)⟩,
    fun x hx => (hout x hx.le).trans (Function.update_of_ne (ne_of_gt hx) ..)⟩
  rw [Creeks.sysPwd, if_neg hd, chain.pwdSize tree hd (chain.lt tree).le, Option.map_some]
  have h : (((c.nodes d).name.length : Int) + 1 + (spell names).length -
      ((c.nodes d).name.length + 1)) = (spell names).length := by omega
  rw [h, Int.toNat_natCast]

/-- Every directory that hangs on the root has a path. -/
lemma homePath (chain : Chain disk c d names) (tree : CacheTree c) : ∃ path, HomePath disk c d path := by
  by_cases hd : d = 0
  · subst hd
    refine ⟨[47], fun buf => ⟨_, rfl, ⟨fun i hi => ?_, by decide, Function.update_self ..⟩, fun x hx => ?_⟩,
      rfl, fun {c'} _ _ pwd => ⟨c', .refl c', by simp [pathToFile, pathLoop]⟩⟩
    · obtain rfl : i = 0 := Nat.lt_one_iff.1 hi
      exact (Function.update_of_ne (by decide) ..).trans (Function.update_self ..)
    · rw [List.length_singleton] at hx
      rw [Function.update_of_ne (by omega), Function.update_of_ne (by omega)]
  · have hne : names ≠ [] := fun h => hd ((chain.eq_nil tree).1 h)
    refine ⟨spell names, fun buf => chain.sysPwd tree hd buf, ?_, fun tree' g pwd =>
      (chain.grows tree g).lookup tree' hne pwd⟩
    cases names with
    | nil => exact absurd rfl hne
    | cons name names => rfl

end Chain

/-- A process that changes to the path is in the directory afterwards. -/
lemma HomePath.chdir {path : List UInt8} (home : HomePath disk c d path)
    (hdir : disk.isDirectory (c.nodes d).inum = true) (hd : d < c.next) {c' : FileCache}
    (tree' : CacheTree c') (g : c.Grows c') (pwd : Nat) :
    ∃ c'', sysChdir disk c' pwd path = some (c'', d, 0) := by
  obtain ⟨c'', g', e⟩ := home.found tree' g pwd
  refine ⟨c'', ?_⟩
  rw [sysChdir, e, Option.map_some]
  dsimp only
  rw [(g.trans g').inum d hd, hdir]
  rfl

/-- The round trip of a directory that hangs on the root. -/
lemma Chain.round_trip (chain : Chain disk c d names) (tree : CacheTree c)
    (hdir : disk.isDirectory (c.nodes d).inum = true) (buf : UBuf) :
    PwdRoundTrip disk c d buf := by
  obtain ⟨path, home⟩ := chain.homePath tree
  obtain ⟨buf', e, hs, -⟩ := home.written buf
  refine ⟨buf', path, e, hs, home.head, fun pwd => ?_,
    home.chdir hdir (chain.lt tree) tree (.refl c) d⟩
  obtain ⟨c', -, e⟩ := home.found tree (.refl c) pwd
  exact ⟨c', e⟩

end Pwd

/-- Whatever was looked up before, the path `sys_pwd` gives for a directory that was found leads back to
it. -/
theorem pwd_round_trip {disk : Disk} {inum : Nat} {free : Nat → CacheNode} {c : FileCache}
    {ls : List Lookup} {s : Lookups} {d : Nat} (boot : initRoot disk inum free = some c)
    (run : Run (LookupStep disk) ⟨c, [0]⟩ ls s) (found : d ∈ s.found)
    (hdir : disk.isDirectory (s.cache.nodes d).inum = true) (buf : UBuf) :
    PwdRoundTrip disk s.cache d buf := by
  have inv := run.invariant (I := Found disk) (fun _ _ _ inv st => st.found inv) (initRoot_found boot)
  obtain ⟨names, chain⟩ := inv.chain d found
  exact chain.round_trip inv.tree hdir buf

/-- A disk whose root, inode 2, holds one record: the empty directory `a`, inode 3. -/
def smallDisk : Disk where
  isDirectory _ := true
  content inum x :=
    if inum ≠ 2 then 0
    else if x = 0x1000 then 3
    else if x = 0x1004 then 12
    else if x = 0x1006 then 1
    else if x = 0x1008 then 97
    else 0
  mmap _ := 0x1000
  iSize inum := if inum = 2 then 12 else 0

/-- Nodes not in use yet. -/
def blankNodes : Nat → CacheNode := fun _ => ⟨[], 0, 0, []⟩

/-- The cache of the disk at boot. -/
def smallCache : FileCache := (initRoot smallDisk 2 blankNodes).getD ⟨blankNodes, 0⟩

theorem pwd_round_trip_sub :
    ∃ s, Run (LookupStep smallDisk) ⟨smallCache, [0]⟩ [⟨0, [47, 97]⟩] s ∧
      PwdRoundTrip smallDisk s.cache 1 fun _ => 0 := by
  have boot : initRoot smallDisk 2 blankNodes = some smallCache := by
    obtain ⟨c, hc⟩ : ∃ c, initRoot smallDisk 2 blankNodes = some c :=
      Option.isSome_iff_exists.1 (by decide +kernel)
    rw [smallCache, hc]
    rfl
  have look : (pathToFile smallDisk smallCache 0 [47, 97]).map Prod.snd = some (some 1) := by
    decide +kernel
  obtain ⟨⟨c, fp⟩, hc, rfl⟩ := Option.map_eq_some_iff.1 look
  have run : Run (LookupStep smallDisk) ⟨smallCache, [0]⟩ [⟨0, [47, 97]⟩] _ :=
    .snoc .nil (.lookup (.head _) hc)
  exact ⟨_, run, pwd_round_trip boot run (.head _) rfl _⟩

end Creeks
