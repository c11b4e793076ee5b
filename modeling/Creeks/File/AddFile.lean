import Creeks.Drive.Transfer
import Creeks.Text.Printk
import Creeks.Lib.Blocks

/-!
# The path of a new file

`add_file` cuts its path at the last slash: what is behind it is copied to `name`, the rest to `parent`,
both on the stack, and `name` into a block of the heap. `add_file_splits_iff` says when these are strings:
no zero is written behind either piece, the block is asked for without room for one, and without a slash
the first character is taken for the rest.
-/

namespace Creeks
open Lib

/-- The loop of `add_file` that looks for the last slash. `mem` is the path and its zero. -/
def lastSlash (mem : List UInt8) : Nat → Nat
  | 0 => 0
  | i + 1 => if mem.getD (i + 1) 0 ≠ 47 then lastSlash mem i else i + 1

/-- `memcpy` from the path into a block. The first number is what is left to copy. -/
def memcpyBlock (mem : List UInt8) (src : Nat) (dst : Ptr) : Nat → Nat → BlockHeap → Except Misuse BlockHeap
  | 0, _, h => .ok h
  | n + 1, i, h => do
    let c ← BlockHeap.readByte mem (src + i)
    let h ← h.storeByte dst i c
    memcpyBlock mem src dst n (i + 1) h

/-- `strcpy` from a block into a block. -/
def strcpyBlock (src dst : Ptr) : Nat → Nat → BlockHeap → Except Misuse BlockHeap
  | 0, _, _ => .error .endless
  | fuel + 1, i, h => do
    let c ← h.loadByte src i
    let h ← h.storeByte dst i c
    if c ≠ 0 then strcpyBlock src dst fuel (i + 1) h else .ok h

/-- The stack of `add_file`: `name[512]` is block 0 and `parent[512]` is block 1, with any content. -/
def addFileStack (bytes : Nat → Mem) : BlockHeap := ⟨[512, 512], [], bytes, fun _ _ => .null⟩

/-- `add_file` up to `fp->name`, which is block 2. `granted` is the number of bytes that a block of
`kmalloc` has for the number that was asked. -/
def addFileNames (granted : Nat → Nat) (path : CText) (bytes : Nat → Mem) : Except Misuse BlockHeap := do
  let mem := path.1 ++ [0]
  let taille := path.1.length
  let i := lastSlash mem taille + 1
  let h ← memcpyBlock mem i (.block 0) (unsigned ((taille : Int) - i)) 0 (addFileStack bytes)
  let h ← memcpyBlock mem 0 (.block 1) i 0 h
  let r := h.alloc (granted (unsigned ((taille : Int) - i)))
  strcpyBlock (.block 0) r.2 513 0 r.1

/-- What is behind the last slash, or the whole path. -/
def baseName (path : List UInt8) : List UInt8 := path.rtakeWhile (· ≠ 47)

/-- What is in front of it, with the slash. -/
def dirName (path : List UInt8) : List UInt8 := path.rdropWhile (· ≠ 47)

/-- Every write is inside its buffer, and the two pieces of the path are there with their zeros. -/
def AddFileSplits (granted : Nat → Nat) (path : CText) (bytes : Nat → Mem) : Prop :=
  ∃ h, addFileNames granted path bytes = .ok h ∧
    Spells (h.bytes 2) 0 (baseName path.1) ∧ h.bytes 2 (baseName path.1).length = 0 ∧
    Spells (h.bytes 1) 0 (dirName path.1) ∧ h.bytes 1 (dirName path.1).length = 0

/-! ## The scan -/

section

variable {rest name : List UInt8}

/-- No slash comes behind the last one. -/
lemma behind_ne (hname : 47 ∉ name) {j : Nat} (hj : rest.length ≤ j) :
    (rest ++ name ++ [0]).getD j 0 ≠ 47 := by
  rw [List.append_assoc, List.getD_append_right _ _ _ _ hj, List.getD_eq_getElem?_getD]
  cases e : (name ++ [0])[j - rest.length]? with
  | none => exact nofun
  | some c =>
    rw [Option.getD_some]
    rintro rfl
    rcases List.mem_append.1 (List.mem_of_getElem? e) with h | h
    · exact hname h
    · cases List.mem_singleton.1 h

/-- The scan stops at the last slash, or at the first character. -/
lemma lastSlash_spec (hname : 47 ∉ name) (hrest : ∀ c ∈ rest.getLast?, c = 47) :
    lastSlash (rest ++ name ++ [0]) (rest ++ name).length = rest.length - 1 := by
  have hstop : lastSlash (rest ++ name ++ [0]) (rest.length - 1) = rest.length - 1 := by
    cases hr : rest.length - 1 with
    | zero => rfl
    | succ j =>
      have hj : rest[j + 1]? = some 47 := by
        have hlast : rest.getLast? = rest[j + 1]? := by rw [List.getLast?_eq_getElem?, hr]
        cases e : rest[j + 1]? with
        | none => exact absurd (List.getElem?_eq_none_iff.1 e) (by omega)
        | some c => rw [hrest c (hlast.trans e)]
      rw [lastSlash, if_neg]
      rw [List.append_assoc, List.getD_append _ _ _ _ (by omega), List.getD_eq_getElem?_getD, hj]
      exact not_not.2 rfl
  have hscan : ∀ k, lastSlash (rest ++ name ++ [0]) (rest.length - 1 + k) = rest.length - 1 := by
    intro k
    induction k with
    | zero => exact hstop
    | succ k ih =>
      rw [← Nat.add_assoc, lastSlash, if_pos (behind_ne hname (by omega))]
      exact ih
  obtain ⟨k, hk⟩ : ∃ k, (rest ++ name).length = rest.length - 1 + k :=
    ⟨(rest ++ name).length - (rest.length - 1), by rw [List.length_append]; omega⟩
  rw [hk]
  exact hscan k

end

/-! ## The copies -/

section

variable {w : List UInt8} {h h' : BlockHeap} {src dst i k fuel : Nat}

/-- `memcpy` of a part of the path. -/
lemma memcpyBlock_spec {mem : List UInt8} {n : Nat} (pre post : List UInt8) (hmem : mem = pre ++ (w ++ post))
    (hn : w.length = n) (hsrc : src + i = pre.length) (hlive : dst ∉ h.freed)
    (hroom : i + n ≤ h.sizes.getD dst 0) :
    memcpyBlock mem src (.block dst) n i h =
      .ok { h with bytes := Function.update h.bytes dst (writeText (h.bytes dst) i w) } := by
  subst hn
  induction w generalizing pre i h with
  | nil =>
    unfold memcpyBlock writeText
    rw [Function.update_eq_self]
    rfl
  | cons c w ih =>
    rw [List.length_cons] at hroom ⊢
    have hread : BlockHeap.readByte mem (src + i) = .ok c := by
      rw [hsrc, hmem]
      exact BlockHeap.readByte_at
    unfold memcpyBlock BlockHeap.storeByte
    rw [hread, ok_bind, BlockHeap.access_ok hlive (by omega), ok_bind, ok_bind]
    rw [ih (h := { h with bytes := Function.update h.bytes dst (Function.update (h.bytes dst) i c) })
      (pre ++ [c]) (by rw [hmem]; simp) (by rw [List.length_append, List.length_singleton]; omega)
      hlive (by dsimp only; omega)]
    dsimp only
    rw [Function.update_idem, Function.update_self]
    rfl

/-- The characters from `i` on were copied up to a zero at `k`, and nothing else was written. -/
structure StrCopied (h h' : BlockHeap) (src dst i k : Nat) : Prop where
  start : i ≤ k
  inside : k < h.sizes.getD dst 0
  nonzero : ∀ j, i ≤ j → j < k → h.bytes src j ≠ 0
  zero : h.bytes src k = 0
  copied : ∀ j, i ≤ j → j ≤ k → h'.bytes dst j = h.bytes src j
  before : ∀ j, j < i → h'.bytes dst j = h.bytes dst j
  frame : ∀ id, id ≠ dst → h'.bytes id = h.bytes id

/-- A character that is read is stored. -/
lemma strcpyBlock_succ (hne : src ≠ dst) (e : strcpyBlock (.block src) (.block dst) (fuel + 1) i h = .ok h') :
    i < h.sizes.getD dst 0 ∧ ∃ h1 : BlockHeap, h1.sizes = h.sizes ∧
      h1.bytes dst = Function.update (h.bytes dst) i (h.bytes src i) ∧
      (∀ id, id ≠ dst → h1.bytes id = h.bytes id) ∧
      (if h.bytes src i ≠ 0 then strcpyBlock (.block src) (.block dst) fuel (i + 1) h1 else .ok h1) = .ok h' := by
  unfold strcpyBlock BlockHeap.loadByte at e
  dsimp only at e
  cases ha : h.access (.block src) i 1 with
  | error m =>
    rw [ha] at e
    cases e
  | ok a =>
    obtain ⟨rfl, -, -⟩ := BlockHeap.access_inv ha
    rw [ha, ok_bind, ok_bind] at e
    unfold BlockHeap.storeByte at e
    cases hb : h.access (.block dst) i 1 with
    | error m =>
      rw [hb] at e
      cases e
    | ok b =>
      obtain ⟨rfl, -, hin⟩ := BlockHeap.access_inv hb
      rw [hb, ok_bind, ok_bind] at e
      let bytes := Function.update h.bytes b (Function.update (h.bytes b) i (h.bytes a i))
      exact ⟨hin, { h with bytes }, rfl, Function.update_self .., fun id hid => Function.update_of_ne hid ..,
        e⟩

/-- What `strcpy` has done when it returns. -/
lemma strcpyBlock_ok (hne : src ≠ dst) (e : strcpyBlock (.block src) (.block dst) fuel i h = .ok h') :
    ∃ k, StrCopied h h' src dst i k := by
  induction fuel generalizing i h with
  | zero => cases e
  | succ fuel ih =>
    obtain ⟨hin, h1, hsizes, hdst, hother, e⟩ := strcpyBlock_succ hne e
    split at e
    · rename_i hc
      obtain ⟨k, r⟩ := ih e
      have hsrc := hother src hne
      refine ⟨k, by have := r.start; omega, by rw [← hsizes]; exact r.inside, fun j hj hk => ?_, ?_,
        fun j hj hk => ?_, fun j hj => ?_, fun id hid => (r.frame id hid).trans (hother id hid)⟩
      · by_cases hi : j = i
        · rwa [hi]
        · rw [← hsrc]
          exact r.nonzero j (by omega) hk
      · rw [← hsrc]
        exact r.zero
      · by_cases hi : j = i
        · rw [hi, r.before i (Nat.lt_succ_self i), hdst, Function.update_self]
        · rw [r.copied j (by omega) hk, hsrc]
      · rw [r.before j (by omega), hdst, Function.update_of_ne (by omega)]
    · rename_i hc
      cases e
      refine ⟨i, le_refl i, hin, fun j hj hk => absurd hk (by omega), not_not.1 hc, fun j hj hk => ?_,
        fun j hj => ?_, hother⟩
      · obtain rfl : j = i := by omega
        rw [hdst, Function.update_self]
      · rw [hdst, Function.update_of_ne (by omega)]

/-- `strcpy` returns when the zero is in both blocks. -/
lemma strcpyBlock_ends (hne : src ≠ dst) (hz : h.bytes src k = 0) (hi : i ≤ k) (hf : k < i + fuel)
    (hlive : src ∉ h.freed ∧ dst ∉ h.freed) (hsrc : k < h.sizes.getD src 0) (hdst : k < h.sizes.getD dst 0) :
    ∃ h', strcpyBlock (.block src) (.block dst) fuel i h = .ok h' := by
  induction fuel generalizing i h with
  | zero => omega
  | succ fuel ih =>
    unfold strcpyBlock BlockHeap.loadByte BlockHeap.storeByte
    dsimp only
    rw [BlockHeap.access_ok hlive.1 (by omega), ok_bind, ok_bind, BlockHeap.access_ok hlive.2 (by omega),
      ok_bind, ok_bind]
    split
    · rename_i hc
      have hik : i ≠ k := by
        rintro rfl
        exact hc hz
      refine ih ?_ (by omega) (by omega) hlive hsrc hdst
      dsimp only
      rw [Function.update_of_ne hne]
      exact hz
    · exact ⟨_, rfl⟩

end

/-! ## The pieces of the path -/

section

variable {granted : Nat → Nat} {path : CText} {bytes : Nat → Mem} {s rest name : List UInt8} {i : Nat}

/-- The cut of a path that does not end in a slash. -/
structure PathCut (s rest name : List UInt8) : Prop where
  whole : s = rest ++ name
  name_ne : name ≠ []
  no_slash : 47 ∉ name
  slash : ∀ c ∈ rest.getLast?, c = 47

lemma pathCut (hne : s ≠ []) (hend : s.getLast? ≠ some 47) : PathCut s (dirName s) (baseName s) := by
  have hwhole : s = dirName s ++ baseName s := List.rdropWhile_append_rtakeWhile.symm
  have hslash : ∀ c ∈ (dirName s).getLast?, c = 47 := fun c hc => by
    have hd : dirName s ≠ [] := by
      rintro h
      rw [h] at hc
      cases hc
    have hlast : ¬decide ((dirName s).getLast hd ≠ 47) = true := List.rdropWhile_last_not _ s hd
    rw [List.getLast?_eq_some_getLast hd] at hc
    cases hc
    simpa using hlast
  refine ⟨hwhole, fun h => ?_, fun h => by simpa using List.mem_rtakeWhile_imp h, hslash⟩
  rw [h, List.append_nil] at hwhole
  cases hs : s.getLast? with
  | none => exact hne (List.getLast?_eq_none_iff.1 hs)
  | some c =>
    rw [hwhole] at hs
    rw [hwhole, hs, hslash c hs] at hend
    exact hend rfl

/-- Up to `strcpy` both pieces are copied without their zeros. -/
lemma addFileNames_eq (hi : lastSlash (path.1 ++ [0]) path.1.length + 1 = i) (hle : i ≤ path.1.length)
    (hlen : path.1.length < 512) :
    addFileNames granted path bytes = strcpyBlock (.block 0) (.block 2) 513 0
      ⟨[512, 512, granted (path.1.length - i)], [],
        Function.update (Function.update bytes 0 (writeText (bytes 0) 0 (path.1.drop i))) 1
          (writeText (bytes 1) 0 (path.1.take i)), fun _ _ => .null⟩ := by
  have hcount : unsigned ((path.1.length : Int) - i) = path.1.length - i := by
    rw [unsigned]
    omega
  have hdrop : (path.1.drop i).length = path.1.length - i := List.length_drop
  have htake : (path.1.take i).length = i := List.length_take_of_le hle
  have hname : memcpyBlock (path.1 ++ [0]) i (.block 0) (path.1.length - i) 0 (addFileStack bytes) =
      .ok ⟨[512, 512], [], Function.update bytes 0 (writeText (bytes 0) 0 (path.1.drop i)),
        fun _ _ => .null⟩ := by
    refine memcpyBlock_spec (path.1.take i) [0] ?_ hdrop htake.symm List.not_mem_nil ?_
    · rw [← List.append_assoc, List.take_append_drop]
    · change 0 + _ ≤ 512
      omega
  have hparent : memcpyBlock (path.1 ++ [0]) 0 (.block 1) i 0
      ⟨[512, 512], [], Function.update bytes 0 (writeText (bytes 0) 0 (path.1.drop i)), fun _ _ => .null⟩ =
      .ok ⟨[512, 512], [], Function.update (Function.update bytes 0 (writeText (bytes 0) 0 (path.1.drop i))) 1
          (writeText (bytes 1) 0 (path.1.take i)), fun _ _ => .null⟩ := by
    refine memcpyBlock_spec [] (path.1.drop i ++ [0]) ?_ htake rfl List.not_mem_nil ?_
    · rw [List.nil_append, ← List.append_assoc, List.take_append_drop]
    · change 0 + _ ≤ 512
      omega
  unfold addFileNames
  dsimp only
  rw [hi, hcount, hname, ok_bind, hparent, ok_bind]
  rfl

/-- `strcpy` of a text that is followed by a zero or by something else. -/
lemma strcpyBlock_text {h : BlockHeap} {src dst : Nat} {w : List UInt8} (hne : src ≠ dst)
    (hw : Spells (h.bytes src) 0 w) (h0 : (0 : UInt8) ∉ w) (hlen : w.length < h.sizes.getD src 0)
    (hf : w.length < fuel) (hlive : src ∉ h.freed ∧ dst ∉ h.freed) :
    (∃ h', strcpyBlock (.block src) (.block dst) fuel 0 h = .ok h' ∧ Spells (h'.bytes dst) 0 w ∧
      h'.bytes dst w.length = 0) ↔ h.bytes src w.length = 0 ∧ w.length < h.sizes.getD dst 0 := by
  have hchar : ∀ j, j < w.length → h.bytes src j ≠ 0 := fun j hj hz => h0 (by
    have hcell := hw j hj
    rw [Nat.zero_add, hz] at hcell
    rw [hcell]
    exact List.getElem_mem hj)
  have hk : ∀ {h' k}, StrCopied h h' src dst 0 k → w.length ≤ k := fun {h' k} r =>
    Nat.le_of_not_lt fun hlt => hchar k hlt r.zero
  constructor
  · rintro ⟨h', e, -, hz⟩
    obtain ⟨k, r⟩ := strcpyBlock_ok hne e
    have hle := hk r
    rw [r.copied w.length (Nat.zero_le _) hle] at hz
    exact ⟨hz, lt_of_le_of_lt hle r.inside⟩
  · rintro ⟨hz, hroom⟩
    obtain ⟨h', e⟩ : ∃ h', strcpyBlock (.block src) (.block dst) fuel 0 h = .ok h' :=
      strcpyBlock_ends hne hz (Nat.zero_le _) (by omega) hlive hlen hroom
    obtain ⟨k, r⟩ := strcpyBlock_ok hne e
    have hle := hk r
    refine ⟨h', e, fun j hj => ?_, (r.copied _ (Nat.zero_le _) hle).trans hz⟩
    rw [Nat.zero_add, r.copied j (Nat.zero_le _) (by omega), ← hw j hj, Nat.zero_add]

/-- Without a slash the first character becomes the rest. -/
lemma PathCut.none_fails (cut : PathCut path.1 [] name) (hlen : path.1.length < 512) {h' : BlockHeap}
    (e : addFileNames granted path bytes = .ok h') : h'.bytes 1 0 ≠ 0 := by
  have hwhole := cut.whole
  rw [List.nil_append] at hwhole
  have hpos := List.length_pos_iff.2 cut.name_ne
  have hi : lastSlash (path.1 ++ [0]) path.1.length + 1 = 1 := by
    have hscan := lastSlash_spec cut.no_slash cut.slash
    rw [List.nil_append, ← hwhole] at hscan
    rw [hscan]
    rfl
  rw [addFileNames_eq hi (by rw [hwhole]; exact hpos) hlen] at e
  obtain ⟨k, r⟩ := strcpyBlock_ok (by decide) e
  have htake : 0 < (path.1.take 1).length := by
    rw [List.length_take_of_le (by rw [hwhole]; exact hpos)]
    exact Nat.one_pos
  have hfirst : h'.bytes 1 0 = (path.1.take 1)[0] := by
    rw [r.frame 1 (by decide)]
    exact writeText_spells 0 htake
  have hmem := List.getElem_mem htake
  rw [hfirst]
  intro hz
  rw [hz] at hmem
  exact path.2 ((List.take_prefix 1 path.1).mem hmem)

/-- With a slash the pieces are the right ones, and the bytes behind them decide. -/
lemma PathCut.slash_iff (cut : PathCut path.1 rest name) (hrest : rest ≠ []) (hlen : path.1.length < 512) :
    (∃ h, addFileNames granted path bytes = .ok h ∧ Spells (h.bytes 2) 0 name ∧ h.bytes 2 name.length = 0 ∧
      Spells (h.bytes 1) 0 rest ∧ h.bytes 1 rest.length = 0) ↔
      bytes 0 name.length = 0 ∧ bytes 1 rest.length = 0 ∧ name.length < granted name.length := by
  have hwhole := cut.whole
  have hlengths : path.1.length = rest.length + name.length := by rw [hwhole, List.length_append]
  have hpos := List.length_pos_iff.2 hrest
  have hi : lastSlash (path.1 ++ [0]) path.1.length + 1 = rest.length := by
    rw [hwhole, lastSlash_spec cut.no_slash cut.slash]
    exact Nat.sub_add_cancel hpos
  have hdrop : path.1.drop rest.length = name := by rw [hwhole, List.drop_left]
  have htake : path.1.take rest.length = rest := by rw [hwhole, List.take_left]
  have hcount : path.1.length - rest.length = name.length := by omega
  rw [addFileNames_eq hi (by omega) hlen, hdrop, htake, hcount]
  let h : BlockHeap := ⟨[512, 512, granted name.length], [],
    Function.update (Function.update bytes 0 (writeText (bytes 0) 0 name)) 1 (writeText (bytes 1) 0 rest),
    fun _ _ => .null⟩
  have h0 : (0 : UInt8) ∉ name := fun h => path.2 (by rw [hwhole]; exact List.mem_append_right _ h)
  have htext := @strcpyBlock_text 513 h 0 2 name (by decide) writeText_spells h0
    (by change _ < 512; omega) (by omega) ⟨List.not_mem_nil, List.not_mem_nil⟩
  have hname : h.bytes 0 name.length = bytes 0 name.length := writeText_other (.inr (Nat.zero_add _).le)
  have hparent : h.bytes 1 rest.length = bytes 1 rest.length := writeText_other (.inr (Nat.zero_add _).le)
  rw [hname] at htext
  constructor
  · rintro ⟨h', e, hs, hz, -, hz1⟩
    obtain ⟨k, r⟩ := strcpyBlock_ok (by decide) e
    obtain ⟨hzero, hroom⟩ := htext.1 ⟨h', e, hs, hz⟩
    rw [r.frame 1 (by decide)] at hz1
    exact ⟨hzero, hparent.symm.trans hz1, hroom⟩
  · rintro ⟨hzero, hz1, hroom⟩
    obtain ⟨h', e, hs, hz⟩ := htext.2 ⟨hzero, hroom⟩
    obtain ⟨k, r⟩ := strcpyBlock_ok (by decide) e
    refine ⟨h', e, hs, hz, ?_, ?_⟩
    · rw [r.frame 1 (by decide)]
      exact writeText_spells
    · rw [r.frame 1 (by decide)]
      exact hparent.trans hz1

/-- The strings are there iff the zeros happen to be behind the pieces and the block has room for one more
byte than was asked. -/
lemma addFileSplits_iff (hne : path.1 ≠ []) (hlen : path.1.length < 512) (hend : path.1.getLast? ≠ some 47) :
    AddFileSplits granted path bytes ↔
      47 ∈ path.1 ∧ bytes 0 (baseName path.1).length = 0 ∧ bytes 1 (dirName path.1).length = 0 ∧
        (baseName path.1).length < granted (baseName path.1).length := by
  have cut := pathCut hne hend
  have hwhole := cut.whole
  unfold AddFileSplits
  generalize baseName path.1 = name at cut hwhole ⊢
  generalize dirName path.1 = rest at cut hwhole ⊢
  by_cases hrest : rest = []
  · subst hrest
    refine iff_of_false ?_ fun h => cut.no_slash ?_
    · rintro ⟨h', e, -, -, -, hz⟩
      exact cut.none_fails hlen e hz
    · rw [hwhole, List.nil_append] at h
      exact h.1
  · have hlast := List.getLast?_eq_some_getLast hrest
    have hslash : 47 ∈ path.1 := by
      rw [hwhole, ← cut.slash _ hlast]
      exact List.mem_append_left _ (List.getLast_mem hrest)
    rw [cut.slash_iff hrest hlen]
    exact ⟨fun h => ⟨hslash, h⟩, fun h => h.2⟩

/-- A block of no more than the bytes that were asked has no room for the zero. -/
lemma not_addFileSplits (hne : path.1 ≠ []) (hlen : path.1.length < 512) (hend : path.1.getLast? ≠ some 47)
    (hgranted : ∀ n, granted n ≤ n) : ¬AddFileSplits granted path bytes := fun h =>
  absurd ((addFileSplits_iff hne hlen hend).1 h).2.2.2 (Nat.not_lt.2 (hgranted _))

end

/-- For every path and every content of the stack, `name` and `parent` are the two pieces as strings and
every write is inside its buffer iff the path has a slash, the stack happens to hold zeros behind both
pieces, and `kmalloc` gives a block longer than asked. -/
theorem add_file_splits_iff (granted : Nat → Nat) (path : CText) (bytes : Nat → Mem) (hne : path.1 ≠ [])
    (hlen : path.1.length < 512) (hend : path.1.getLast? ≠ some 47) :
    AddFileSplits granted path bytes ↔
      47 ∈ path.1 ∧ bytes 0 (baseName path.1).length = 0 ∧ bytes 1 (dirName path.1).length = 0 ∧
        (baseName path.1).length < granted (baseName path.1).length :=
  addFileSplits_iff hne hlen hend

/-- `/a` on a stack of zeros, in a record of the least size. -/
theorem add_file_splits_slash :
    AddFileSplits (fun n => realSize n - 4) ⟨[47, 97], by decide⟩ fun _ _ => 0 :=
  (add_file_splits_iff (fun n => realSize n - 4) ⟨[47, 97], by decide⟩ (fun _ _ => 0) (by decide)
    (by decide) (by decide)).2 ⟨by decide, rfl, rfl, by decide +kernel⟩

/-- Of `ab` the name becomes `b` and the parent `a`. -/
theorem add_file_drops_character :
    (∃ h, addFileNames (fun n => realSize n - 4) ⟨[97, 98], by decide⟩ (fun _ _ => 0) = .ok h ∧
      h.bytes 2 0 = 98 ∧ h.bytes 2 1 = 0 ∧ h.bytes 1 0 = 97 ∧ h.bytes 1 1 = 0) ∧
    ¬AddFileSplits (fun n => realSize n - 4) ⟨[97, 98], by decide⟩ fun _ _ => 0 := by
  have run : (addFileNames (fun n => realSize n - 4) ⟨[97, 98], by decide⟩ fun _ _ => 0).toOption.map
      (fun h => (h.bytes 2 0, h.bytes 2 1, h.bytes 1 0, h.bytes 1 1)) = some (98, 0, 97, 0) := by
    decide +kernel
  obtain ⟨h, e, hbytes⟩ := Option.map_eq_some_iff.1 run
  cases hr : addFileNames (fun n => realSize n - 4) ⟨[97, 98], by decide⟩ fun _ _ => 0 with
  | error m =>
    rw [hr] at e
    cases e
  | ok r =>
    rw [hr] at e
    cases e
    simp only [Prod.mk.injEq] at hbytes
    refine ⟨⟨h, rfl, hbytes⟩, ?_⟩
    rintro ⟨h', e, -, -, -, hz⟩
    cases hr.symm.trans e
    have hz : h.bytes 1 0 = 0 := hz
    rw [hbytes.2.2.1] at hz
    cases hz

end Creeks
