import Creeks.File.Pwd
import Creeks.User.Shell

/-!
# The mkdir of the shell

The word behind `mkdir` is not copied: `beg_p` points into the line. Before the word is used, `pwd`
writes the path of the current directory over the line, to come back to it. `mkdir_exact_iff` says for
which lines the word is still there.
-/

namespace Creeks
open Lib

/-- The string at an address of the user. The characters the model looks at are bounded. -/
def stringAt (limit : Nat) (buf : UBuf) (a : Nat) : List UInt8 := cString limit fun i => buf (a + i : Nat)

/-- Where the word behind `mkdir` begins and ends. -/
def mkdirArgument (line : CText) : Except Misuse (Nat × Nat) := do
  let mem := line.1 ++ [0]
  let beg_p ← skip isBlank mem mem.length 0
  let beg_p ← skip isBlank mem mem.length (beg_p + 5)
  let end_p ← skip inWord mem mem.length beg_p
  .ok (beg_p, end_p)

/-- What is done with the path after the test: a message, or `create_dir`. -/
inductive MkdirUse where
  | exists (path : List UInt8)
  | notDirectory (path : List UInt8)
  | create (path : List UInt8)

/-- The path of the message or of `create_dir`. -/
def MkdirUse.path : MkdirUse → List UInt8
  | .exists path | .notDirectory path | .create path => path

/-- The test, what follows it, and the directory the shell is in at the end. Nothing follows a `chdir`
that does not return. -/
def testAndMake (limit : Nat) (disk : Disk) (c : FileCache) (pwd : Nat) (path : List UInt8) (buf : UBuf) :
    Option (MkdirUse × Nat) :=
  match sysChdir disk c pwd path with
  | none => none
  | some (c, pwd, ok) =>
    if ok = 0 then (sysChdir disk c pwd (stringAt limit buf 0)).map fun r => (.exists path, r.2.1)
    else if ok = -2 then some (.notDirectory path, pwd)
    else some (.create path, pwd)

/-- The path `chdir` was given for the test, and what came after it. -/
structure MkdirRun where
  tested : List UInt8
  after : Option (MkdirUse × Nat)

/-- The branch `mkdir` of the shell in the directory `pwd`. The line is at the start of `buf`. -/
def shellMkdir (limit : Nat) (disk : Disk) (c : FileCache) (pwd : Nat) (line : CText) (buf : UBuf) :
    Except Misuse MkdirRun := do
  let (beg_p, end_p) ← mkdirArgument line
  let buf := Function.update (buf.copy 0 (line.1 ++ [0])) end_p 0
  match sysPwd c pwd buf with
  | none => .error .endless
  | some buf =>
    let path := stringAt limit buf beg_p
    .ok ⟨path, testAndMake limit disk c pwd path buf⟩

/-- The line is `mkdir`, blanks and the word `w`, which begins at `p`. -/
structure MkdirLine (line : CText) (p : Nat) (w : List UInt8) : Prop where
  shape : ∃ lead blanks rest : List UInt8,
    line.1 = lead ++ [109, 107, 100, 105, 114] ++ blanks ++ w ++ rest ∧
    p = lead.length + 5 + blanks.length ∧ (∀ c ∈ lead, isBlank c) ∧ (∀ c ∈ blanks, isBlank c) ∧
    ∀ c ∈ rest.head?, inWord c = false
  word : w ≠ [] ∧ ∀ c ∈ w, inWord c

/-- The word is what is tested and used, and the shell is in the directory it started from. -/
structure MkdirExact (disk : Disk) (c : FileCache) (pwd : Nat) (w : List UInt8) (r : MkdirRun) : Prop where
  tested : r.tested = w
  after : (sysChdir disk c pwd w).isSome → ∃ use, r.after = some (use, pwd) ∧ use.path = w

/-! ## The word in the line -/

section

variable {limit a p : Nat} {buf buf' : UBuf} {s w : List UInt8} {line : CText}

/-- A string at an address. -/
lemma stringAt_eq (hlen : s.length < limit) (h0 : (0 : UInt8) ∉ s)
    (hc : ∀ i (hi : i < s.length), buf (a + i : Nat) = s[i]) (hz : buf (a + s.length : Nat) = 0) :
    stringAt limit buf a = s := by
  have hspells : Spells (fun i => buf (a + i : Nat)) 0 s := fun i hi => by
    rw [Nat.zero_add]
    exact hc i hi
  unfold stringAt
  rw [cString_eq hlen hspells hz]
  exact takeWhile_text h0

/-- What is behind `p` of a string that goes on to there. -/
lemma HasString.stringAt_drop (h : HasString buf s) (hlen : s.length < limit) (hp : p ≤ s.length) :
    stringAt limit buf p = s.drop p := by
  have hd : (s.drop p).length = s.length - p := List.length_drop
  refine stringAt_eq (by omega) (fun h0 => h.no_zero ((List.drop_suffix p s).mem h0)) (fun i hi => ?_) ?_
  · rw [h.chars (p + i) (by omega), List.getElem_drop, List.getD_eq_getElem _ _ (by omega)]
  · rw [hd, Nat.add_sub_cancel' hp]
    exact h.zero

/-- A loop goes over the characters it is for and stops in front of the next one. -/
lemma skip_over {go : UInt8 → Bool} {s : List UInt8} {n : Nat} (pre mid post : List UInt8)
    (h0 : go 0 = false) (hline : s = pre ++ (mid ++ post)) (hn : pre.length = n)
    (hmid : ∀ c ∈ mid, go c) (hpost : ∀ c ∈ post.head?, go c = false) :
    skip go (s ++ [0]) (s ++ [0]).length n = .ok (n + mid.length) := by
  have hstop : (mid ++ post).takeWhile go = mid := by
    rw [List.takeWhile_append_of_pos hmid]
    cases post with
    | nil => rw [List.takeWhile_nil, List.append_nil]
    | cons c post => rw [List.takeWhile_cons_of_neg (by simpa using hpost c rfl), List.append_nil]
  rw [← hn, (skip_line go h0 hline).1, hstop, List.length_append]

/-- The loops find the word of the line. -/
lemma MkdirLine.argument (h : MkdirLine line p w) : mkdirArgument line = .ok (p, p + w.length) := by
  obtain ⟨⟨lead, blanks, rest, hline, rfl, hlead, hblanks, hrest⟩, hne, hw⟩ := h
  have hword : ∀ c ∈ (w ++ rest).head?, isBlank c = false := by
    cases w with
    | nil => exact absurd rfl hne
    | cons c w =>
      rintro d hd
      cases hd
      cases hb : isBlank c with
      | false => rfl
      | true => exact absurd (hw c (.head _)) (by rw [inWord_blank hb]; decide)
  have h1 : skip isBlank (line.1 ++ [0]) (line.1 ++ [0]).length 0 = .ok (0 + lead.length) :=
    skip_over [] lead ([109, 107, 100, 105, 114] ++ blanks ++ w ++ rest) rfl
      (by rw [hline]; simp) rfl hlead (by rintro c ⟨⟩; rfl)
  have h2 : skip isBlank (line.1 ++ [0]) (line.1 ++ [0]).length (lead.length + 5) =
      .ok (lead.length + 5 + blanks.length) :=
    skip_over (lead ++ [109, 107, 100, 105, 114]) blanks (w ++ rest) rfl
      (by rw [hline]; simp) (by rw [List.length_append]; rfl) hblanks hword
  have h3 : skip inWord (line.1 ++ [0]) (line.1 ++ [0]).length (lead.length + 5 + blanks.length) =
      .ok (lead.length + 5 + blanks.length + w.length) :=
    skip_over (lead ++ [109, 107, 100, 105, 114] ++ blanks) w rest rfl
      (by rw [hline]; simp) (by rw [List.length_append, List.length_append]; rfl) hw hrest
  rw [Nat.zero_add] at h1
  unfold mkdirArgument
  dsimp only
  rw [h1, ok_bind, h2, ok_bind, h3, ok_bind]

/-- The line up to its word. -/
lemma MkdirLine.split (h : MkdirLine line p w) :
    ∃ pre rest, line.1 = pre ++ (w ++ rest) ∧ pre.length = p := by
  obtain ⟨⟨lead, blanks, rest, hline, rfl, -⟩, -⟩ := h
  refine ⟨lead ++ [109, 107, 100, 105, 114] ++ blanks, rest, by rw [hline]; simp, ?_⟩
  rw [List.length_append, List.length_append]
  rfl

/-- The word while nothing has been written over it. -/
lemma MkdirLine.stringAt_word (h : MkdirLine line p w) (hlen : line.1.length < limit)
    (hframe : ∀ x : Int, p ≤ x →
      buf' x = Function.update (buf.copy 0 (line.1 ++ [0])) (p + w.length : Nat) 0 x) :
    stringAt limit buf' p = w := by
  obtain ⟨pre, rest, hline, hpre⟩ := h.split
  have hwlen : p + (w.length + rest.length) = line.1.length := by
    rw [hline, List.length_append, List.length_append, hpre]
  have h0 : (0 : UInt8) ∉ w := fun h0 => line.2 (by rw [hline]; simp [h0])
  refine stringAt_eq (by omega) h0 (fun i hi => ?_) ?_
  · have hcell : (line.1 ++ [0]).getD (p + i) 0 = w[i] := by
      rw [hline, List.append_assoc, List.getD_append_right _ _ _ _ (by omega), hpre, Nat.add_sub_cancel_left,
        List.append_assoc, List.getD_append _ _ _ _ hi, List.getD_eq_getElem _ _ hi]
    have hlength : (line.1 ++ [0]).length = line.1.length + 1 := List.length_append
    rw [hframe _ (by omega), Function.update_of_ne (by omega), UBuf.copy, if_pos (by omega), ← hcell]
    congr 1
  · rw [hframe _ (by omega), Function.update_self]

end

/-! ## The way back -/

section

variable {disk : Disk} {c c' : FileCache} {d pwd p limit : Nat} {names : List (List UInt8)}
  {path w : List UInt8} {line : CText} {ok : Int} {buf buf' : UBuf}

/-- `chdir` keeps the tree, and leaves a directory only for another one. -/
lemma Chain.sysChdir (chain : Chain disk c d names) (tree : CacheTree c)
    (h : sysChdir disk c d path = some (c', pwd, ok)) :
    CacheTree c' ∧ c.Grows c' ∧ (ok ≠ 0 → pwd = d) := by
  obtain ⟨⟨c1, fp⟩, hfind, h⟩ := Option.map_eq_some_iff.1 h
  obtain ⟨names, start⟩ : ∃ names, Chain disk c (if path.head? = some 47 then 0 else d) names := by
    split
    · exact ⟨[], .root⟩
    · exact ⟨names, chain⟩
  obtain ⟨tree', g, -⟩ := pathLoop_found tree start (head_skip path) hfind
  cases fp with
  | none =>
    cases h
    exact ⟨tree', g, fun _ => rfl⟩
  | some fp =>
    dsimp only at h
    split at h
    · cases h
      exact ⟨tree', g, fun _ => rfl⟩
    · cases h
      exact ⟨tree', g, fun h => absurd rfl h⟩

/-- Whatever the test finds, the shell ends in the directory it started from. -/
lemma HomePath.returns (home : HomePath disk c d path) (chain : Chain disk c d names)
    (tree : CacheTree c) (hdir : disk.isDirectory (c.nodes d).inum = true)
    (hpath : stringAt limit buf 0 = path) (h : (sysChdir disk c d w).isSome) :
    ∃ use, testAndMake limit disk c d w buf = some (use, d) ∧ use.path = w := by
  obtain ⟨⟨c', pwd, ok⟩, h⟩ := Option.isSome_iff_exists.1 h
  obtain ⟨tree', g, hstay⟩ := chain.sysChdir tree h
  unfold testAndMake
  rw [h, hpath]
  dsimp only
  by_cases h0 : ok = 0
  · obtain ⟨c'', e⟩ := home.chdir hdir (chain.lt tree) tree' g pwd
    rw [if_pos h0, e]
    exact ⟨_, rfl, rfl⟩
  · rw [if_neg h0, hstay h0]
    split
    · exact ⟨_, rfl, rfl⟩
    · exact ⟨_, rfl, rfl⟩

/-- The branch in a directory with a path. -/
lemma HomePath.shellMkdir (home : HomePath disk c d path) (chain : Chain disk c d names)
    (tree : CacheTree c) (hdir : disk.isDirectory (c.nodes d).inum = true) (hline : MkdirLine line p w)
    (hlimit : path.length + line.1.length < limit) :
    ∃ r, shellMkdir limit disk c d line buf = .ok r ∧
      (MkdirExact disk c d w r ↔ path.length < p ∨ path.drop p = w) := by
  obtain ⟨buf', hpwd, hs, hframe⟩ :=
    home.written (Function.update (buf.copy 0 (line.1 ++ [0])) (p + w.length : Nat) 0)
  have hback : stringAt limit buf' 0 = path := hs.stringAt_drop (by omega) (Nat.zero_le _)
  refine ⟨⟨stringAt limit buf' p, testAndMake limit disk c d (stringAt limit buf' p) buf'⟩, ?_, ?_⟩
  · unfold Creeks.shellMkdir
    rw [hline.argument, ok_bind]
    dsimp only
    rw [hpwd]
  -- the word is used as soon as it is the string that is tested
  have hexact : MkdirExact disk c d w
      ⟨stringAt limit buf' p, testAndMake limit disk c d (stringAt limit buf' p) buf'⟩ ↔
      stringAt limit buf' p = w := by
    refine ⟨fun h => h.tested, fun h => ?_⟩
    rw [h]
    exact ⟨rfl, home.returns chain tree hdir hback⟩
  rw [hexact]
  by_cases hp : path.length < p
  · have hword : stringAt limit buf' p = w := by
      refine @MkdirLine.stringAt_word limit p buf buf' w line hline (by omega) fun x hx => hframe x ?_
      omega
    exact ⟨fun _ => .inl hp, fun _ => hword⟩
  · rw [hs.stringAt_drop (by omega) (Nat.not_lt.1 hp)]
    exact ⟨.inr, fun h => h.resolve_left hp⟩

end

/-- For every line `mkdir`, in every directory that was found, the typed word is what is tested and used,
and the shell stays in its directory, iff the path of the directory ends in front of the word, or happens
to hold the word in its place. -/
theorem mkdir_exact_iff {disk : Disk} {inum : Nat} {free : Nat → CacheNode} {c : FileCache}
    {ls : List Lookup} {s : Lookups} {d : Nat} (boot : initRoot disk inum free = some c)
    (run : Run (LookupStep disk) ⟨c, [0]⟩ ls s) (found : d ∈ s.found)
    (hdir : disk.isDirectory (s.cache.nodes d).inum = true) :
    ∃ path, (∀ buf, ∃ buf', sysPwd s.cache d buf = some buf' ∧ HasString buf' path) ∧
      ∀ line p w limit buf, MkdirLine line p w → path.length + line.1.length < limit →
        ∃ r, shellMkdir limit disk s.cache d line buf = .ok r ∧
          (MkdirExact disk s.cache d w r ↔ path.length < p ∨ path.drop p = w) := by
  have inv := run.invariant (I := Found disk) (fun _ _ _ inv st => st.found inv) (initRoot_found boot)
  obtain ⟨names, chain⟩ := inv.chain d found
  obtain ⟨path, home⟩ := chain.homePath inv.tree
  refine ⟨path, fun buf => ?_, fun line p w limit buf hline hlimit =>
    home.shellMkdir chain inv.tree hdir hline hlimit⟩
  obtain ⟨buf', hpwd, hs, -⟩ := home.written buf
  exact ⟨buf', hpwd, hs⟩

/-- A disk whose root, inode 2, holds one record: the empty directory `abcde`, inode 3. -/
def longDisk : Disk where
  isDirectory _ := true
  content inum x :=
    if inum ≠ 2 then 0
    else if x = 0x1000 then 3
    else if x = 0x1004 then 16
    else if x = 0x1006 then 5
    else if 0x1008 ≤ x ∧ x < 0x100d then UInt8.ofNat (97 + (x - 0x1008))
    else 0
  mmap _ := 0x1000
  iSize inum := if inum = 2 then 16 else 0

/-- The cache of the disk at boot. -/
def longCache : FileCache := (initRoot longDisk 2 blankNodes).getD ⟨blankNodes, 0⟩

/-- `mkdir b` -/
def mkdirB : CText := ⟨[109, 107, 100, 105, 114, 32, 98], by decide⟩

lemma mkdirB_line : MkdirLine mkdirB 6 [98] := by
  refine ⟨⟨[], [32], [], rfl, rfl, nofun, fun c hc => ?_, nofun⟩, by decide, fun c hc => ?_⟩
  · rw [List.mem_singleton.1 hc]
    rfl
  · rw [List.mem_singleton.1 hc]
    rfl

lemma longCache_boot : initRoot longDisk 2 blankNodes = some longCache := by
  obtain ⟨c, hc⟩ : ∃ c, initRoot longDisk 2 blankNodes = some c :=
    Option.isSome_iff_exists.1 (by decide +kernel)
  rw [longCache, hc]
  rfl

/-- In the directory `/abcde`, whose path has six characters. -/
theorem mkdir_exact_iff_long :
    ∃ s, Run (LookupStep longDisk) ⟨longCache, [0]⟩ [⟨0, [47, 97, 98, 99, 100, 101]⟩] s ∧
      ∃ (path : List UInt8) (limit : Nat) (r : MkdirRun), shellMkdir limit longDisk s.cache 1 mkdirB (fun _ => 0) = .ok r ∧
        (MkdirExact longDisk s.cache 1 [98] r ↔ path.length < 6 ∨ path.drop 6 = [98]) := by
  have look : (pathToFile longDisk longCache 0 [47, 97, 98, 99, 100, 101]).map Prod.snd = some (some 1) := by
    decide +kernel
  obtain ⟨⟨c, fp⟩, hc, rfl⟩ := Option.map_eq_some_iff.1 look
  have run : Run (LookupStep longDisk) ⟨longCache, [0]⟩ [⟨0, [47, 97, 98, 99, 100, 101]⟩] _ :=
    .snoc .nil (.lookup (.head _) hc)
  obtain ⟨path, -, h⟩ := mkdir_exact_iff longCache_boot run (d := 1) (.head _) rfl
  exact ⟨_, run, path, _, h mkdirB 6 [98] (path.length + 8) (fun _ => 0) mkdirB_line (Nat.lt_succ_self _)⟩

/-- There the path covers the line up to the end of the word: `chdir` is given the empty string. -/
theorem mkdir_tests_empty_path :
    ∃ s, Run (LookupStep longDisk) ⟨longCache, [0]⟩ [⟨0, [47, 97, 98, 99, 100, 101]⟩] s ∧ 1 ∈ s.found ∧
      MkdirLine mkdirB 6 [98] ∧ ∃ r, shellMkdir 64 longDisk s.cache 1 mkdirB (fun _ => 0) = .ok r ∧
        r.tested = [] ∧ ¬ MkdirExact longDisk s.cache 1 [98] r := by
  have look : (pathToFile longDisk longCache 0 [47, 97, 98, 99, 100, 101]).any (fun r =>
      r.2 = some 1 ∧ (shellMkdir 64 longDisk r.1 1 mkdirB fun _ => 0).toOption.map (·.tested) = some []) := by
    decide +kernel
  obtain ⟨⟨c, fp⟩, hc, h⟩ := (Option.any_eq_true ..).1 look
  obtain ⟨rfl, h⟩ := of_decide_eq_true h
  have run : Run (LookupStep longDisk) ⟨longCache, [0]⟩ [⟨0, [47, 97, 98, 99, 100, 101]⟩] _ :=
    .snoc .nil (.lookup (.head _) hc)
  refine ⟨_, run, .head _, mkdirB_line, ?_⟩
  dsimp only at h ⊢
  cases hr : shellMkdir 64 longDisk c 1 mkdirB fun _ => 0 with
  | error e =>
    rw [hr] at h
    cases h
  | ok r =>
    rw [hr] at h
    have htested : r.tested = [] := Option.some.inj h
    exact ⟨r, rfl, htested, fun exact => by simpa [htested] using exact.tested⟩

end Creeks
