import Creeks.File.Entries
import Creeks.User.Discipline

/-!
# ls

The shell reads its directory once, into 512 bytes, and goes from record to record by `rec_len`. It stops
at an unused record as it does at the end of what it has read. `ls_complete_iff` says for which
directories it prints every name it should and reads nothing behind what `read` returned.
-/

namespace Creeks
open Lib

/-- What is printed, with its color. -/
abbrev PURPLE : Nat := 5
abbrev ORANGE : Nat := 6

/-- `dir->type` of a pipe. -/
abbrev DT_FIFO : UInt8 := 1

/-- A byte of the buffer, of which `read` has filled the first `count`. -/
def fetch (content : Mem) (count : Nat) (x : Int) : Except Misuse UInt8 :=
  if 0 ≤ x ∧ x < count then .ok (content x.toNat) else .error .outside

def fetchAll (content : Mem) (count : Nat) : Nat → Int → Except Misuse (List UInt8)
  | 0, _ => .ok []
  | n + 1, x => do
    let c ← fetch content count x
    let s ← fetchAll content count n (x + 1)
    .ok (c :: s)

/-- The number that bytes stand for, the lowest one first. -/
def little (s : List UInt8) : Nat := s.foldr (fun c n => c.toNat + 256 * n) 0

/-- A `short`. -/
def toShort (n : Nat) : Int := if n < 32768 then n else n - 65536

/-- The test for a leading point and the write of the name. -/
def lsShow (content : Mem) (count : Nat) (dir : Int) (out : List UInt8) :
    Except Misuse (List (List UInt8 × Nat)) := do
  let h := BlockHeap.none (fun _ _ => 0) fun _ _ => .null
  let r ← strncmpFrom h (.const [46]) (.const out) 1 0
  if r = 0 then .ok []
  else do
    let r ← strncmpFrom h (.const [46, 46]) (.const out) 2 0
    if r = 0 then .ok []
    else do
      let type ← fetch content count (dir + 7)
      .ok [(out, if type = DT_FIFO then PURPLE else ORANGE)]

/-- The loop of `ls`, with what is left of the count and the offset of the record. -/
def lsLoop (content : Mem) (count : Nat) :
    Nat → Int → Int → Except Misuse (List (List UInt8 × Nat))
  | 0, _, _ => .error .endless
  | fuel + 1, left, dir =>
    if left ≤ 0 then .ok []
    else do
      let inode ← fetchAll content count 4 dir
      if little inode = 0 then .ok []
      else do
        let name_len ← fetch content count (dir + 6)
        let name ← fetchAll content count name_len.toNat (dir + 8)
        let shown ← lsShow content count dir (name.takeWhile (· ≠ 0))
        let rec_len ← fetchAll content count 2 (dir + 4)
        let rest ← lsLoop content count fuel (left - toShort (little rec_len))
          (dir + toShort (little rec_len))
        .ok (shown ++ rest)

/-- The bytes `read(fd, buf, sizeof(buf))` returns for a directory. -/
def lsCount (size : Nat) : Nat := min 512 size

/-- The `ls` branch: what it prints. -/
def ls (content : Mem) (size : Nat) : Except Misuse (List (List UInt8 × Nat)) :=
  lsLoop content (lsCount size) 513 (lsCount size) 0

/-- A directory of any size: records from its start to its end, each with room for its name, and used ones
with a name. -/
structure Directory where
  content : Mem
  size : Nat
  records : List Nat
  tiles : Tiling 8 (recLen content) 0 records size
  short : ∀ c ∈ records, recLen content c < 32768
  room : ∀ c ∈ records, 8 + nameLen content c ≤ recLen content c
  named : ∀ c ∈ records, dentryInode content c ≠ 0 → 0 < nameLen content c

/-- A record whose name `ls` should print. -/
def Visible (content : Mem) (c : Nat) : Prop :=
  dentryInode content c ≠ 0 ∧ (filename content c).head? ≠ some 46

instance (content : Mem) : DecidablePred (Visible content) := fun _ => inferInstanceAs (Decidable (_ ∧ _))

/-- The names to print. -/
def visibleNames (content : Mem) (records : List Nat) : List (List UInt8) :=
  (records.filter (Visible content)).map (filename content)

/-- `ls` ends, has read nothing behind the bytes it got, and has printed these names and no other. -/
def LsComplete (d : Directory) : Prop :=
  ∃ out, ls d.content d.size = .ok out ∧ out.map Prod.fst = visibleNames d.content d.records

/-- The records in front of the first unused one that begin in the buffer have their names there, the
unused one its inode number, and behind them no name is to be printed. -/
def Shown (content : Mem) (count : Nat) : List Nat → Prop
  | [] => True
  | c :: l =>
    if c < count then
      if dentryInode content c = 0 then c + 4 ≤ count ∧ ∀ d ∈ l, ¬ Visible content d
      else c + 8 + nameLen content c ≤ count ∧ Shown content count l
    else ∀ d ∈ c :: l, ¬ Visible content d

section

variable {content : Mem} {count : Nat}

lemma fetch_ok {x : Nat} (h : x < count) : fetch content count x = .ok (content x) :=
  if_pos ⟨by omega, by omega⟩

lemma fetch_outside {x : Nat} (h : count ≤ x) : fetch content count x = .error .outside :=
  if_neg fun hx => by omega

lemma fetchAll_ok {n x : Nat} (h : x + n ≤ count) :
    fetchAll content count n x = .ok ((List.range n).map fun i => content (x + i)) := by
  induction n generalizing x with
  | zero => rfl
  | succ n ih =>
    have hrest := @ih (x + 1) (by omega)
    unfold fetchAll
    rw [fetch_ok (by omega), ok_bind, show (x : Int) + 1 = ((x + 1 : Nat) : Int) from rfl, hrest, ok_bind,
      List.range_succ_eq_map, List.map_cons, List.map_map]
    congr 3
    funext i
    change content (x + 1 + i) = content (x + (i + 1))
    congr 1
    omega

lemma fetchAll_outside {n x : Nat} (hn : 0 < n) (h : count < x + n) :
    fetchAll content count n x = .error .outside := by
  induction n generalizing x with
  | zero => cases hn
  | succ n ih =>
    unfold fetchAll
    by_cases hx : x < count
    · rw [fetch_ok hx, ok_bind, show (x : Int) + 1 = ((x + 1 : Nat) : Int) from rfl,
        ih (by omega) (by omega)]
      rfl
    · rw [fetch_outside (Nat.not_lt.1 hx)]
      rfl

lemma little_inode (c : Nat) :
    little ((List.range 4).map fun i => content (c + i)) = dentryInode content c := by
  change (content (c + 0)).toNat + 256 * ((content (c + 1)).toNat + 256 * ((content (c + 2)).toNat +
    256 * ((content (c + 3)).toNat + 256 * 0))) = load32 content c
  unfold load32
  rw [Nat.add_zero]
  omega

lemma little_recLen (c : Nat) :
    little ((List.range 2).map fun i => content (c + 4 + i)) = recLen content c := by
  change (content (c + 4 + 0)).toNat + 256 * ((content (c + 4 + 1)).toNat + 256 * 0) = _
  rfl

/-- A name is shown when it does not begin with a point. -/
lemma lsShow_spec (out : List UInt8) {dir : Nat} (h : dir + 7 < count) :
    ∃ shown, lsShow content count dir out = .ok shown ∧
      shown.map Prod.fst = if out.head? = some 46 then [] else [out] := by
  have htype : fetch content count ((dir : Int) + 7) = .ok (content (dir + 7)) := fetch_ok h
  unfold lsShow
  dsimp only
  cases out with
  | nil =>
    have h1 : ∀ g : BlockHeap, strncmpFrom g (.const [46]) (.const []) 1 0 = .ok 1 := fun _ => rfl
    have h2 : ∀ g : BlockHeap, strncmpFrom g (.const [46, 46]) (.const []) 2 0 = .ok 1 := fun _ => rfl
    rw [h1, ok_bind, if_neg (by decide), h2, ok_bind, if_neg (by decide), htype, ok_bind]
    exact ⟨_, rfl, rfl⟩
  | cons c s =>
    by_cases hc : c = 46
    · subst hc
      have h1 : ∀ g : BlockHeap, strncmpFrom g (.const [46]) (.const (46 :: s)) 1 0 = .ok 0 := fun _ => rfl
      rw [h1, ok_bind]
      exact ⟨[], rfl, rfl⟩
    · have h1 : ∀ (g : BlockHeap) (r : List UInt8) (n : Nat),
          strncmpFrom g (.const (46 :: r)) (.const (c :: s)) (n + 1) 0 = .ok 1 := fun _ _ _ =>
        if_neg (Ne.symm hc)
      rw [h1, ok_bind, if_neg (by decide), h1, ok_bind, if_neg (by decide), htype, ok_bind]
      exact ⟨_, rfl, by simp [hc]⟩

lemma visibleNames_cons (c : Nat) (l : List Nat) : visibleNames content (c :: l) =
    (if Visible content c then [filename content c] else []) ++ visibleNames content l := by
  unfold visibleNames
  by_cases h : Visible content c
  · rw [List.filter_cons_of_pos (by simpa using h), if_pos h]
    rfl
  · rw [List.filter_cons_of_neg (by simpa using h), if_neg h]
    rfl

lemma visibleNames_nil {l : List Nat} : visibleNames content l = [] ↔ ∀ d ∈ l, ¬ Visible content d := by
  unfold visibleNames
  rw [List.map_eq_nil_iff, List.filter_eq_nil_iff]
  exact forall₂_congr fun d _ => by simp

/-- The body of the loop for a used record whose name is in the buffer. -/
lemma lsLoop_used (fuel : Nat) {c : Nat} {left : Int} (hleft : 0 < left) (hused : dentryInode content c ≠ 0)
    (hname : 0 < nameLen content c) (hin : c + 8 + nameLen content c ≤ count)
    (hshort : recLen content c < 32768) :
    ∃ shown, shown.map Prod.fst = (if Visible content c then [filename content c] else []) ∧
      lsLoop content count (fuel + 1) left c =
        lsLoop content count fuel (left - recLen content c) (c + recLen content c) >>= fun rest =>
          .ok (shown ++ rest) := by
  obtain ⟨shown, hshow, hfst⟩ := @lsShow_spec content count (filename content c) c (by omega)
  refine ⟨shown, ?_, ?_⟩
  · rw [hfst]
    by_cases h : (filename content c).head? = some 46
    · have hv : ¬ Visible content c := fun hv => hv.2 h
      rw [if_pos h, if_neg hv]
    · have hv : Visible content c := ⟨hused, h⟩
      rw [if_neg h, if_pos hv]
  · have hshortLen : toShort (recLen content c) = recLen content c := if_pos hshort
    have hlen : fetch content count ((c : Int) + 6) = .ok (content (c + 6)) :=
      fetch_ok (x := c + 6) (by omega)
    have hbytes : fetchAll content count (content (c + 6)).toNat ((c : Int) + 8) =
        .ok ((List.range (nameLen content c)).map fun i => content (c + 8 + i)) :=
      fetchAll_ok (x := c + 8) hin
    have hrec : fetchAll content count 2 ((c : Int) + 4) =
        .ok ((List.range 2).map fun i => content (c + 4 + i)) := fetchAll_ok (x := c + 4) (by omega)
    have hshow : lsShow content count c
        (((List.range (nameLen content c)).map fun i => content (c + 8 + i)).takeWhile (· ≠ 0)) =
          .ok shown := hshow
    rw [lsLoop, if_neg (by omega), fetchAll_ok (by omega), ok_bind, little_inode, if_neg hused, hlen,
      ok_bind, hbytes, ok_bind, hshow, ok_bind, hrec, ok_bind, little_recLen, hshortLen]

/-- A used record whose name is not in the buffer is read all the same. -/
lemma lsLoop_cut {fuel c : Nat} {left : Int} (hleft : 0 < left) (hused : dentryInode content c ≠ 0)
    (hname : 0 < nameLen content c) (hout : count < c + 8 + nameLen content c)
    (out : List (List UInt8 × Nat)) : lsLoop content count (fuel + 1) left c ≠ .ok out := by
  rw [lsLoop, if_neg (by omega)]
  by_cases h4 : c + 4 ≤ count
  · rw [fetchAll_ok h4, ok_bind, little_inode, if_neg hused]
    by_cases h6 : c + 6 < count
    · have hlen : fetch content count ((c : Int) + 6) = .ok (content (c + 6)) := fetch_ok (x := c + 6) h6
      have hbytes : fetchAll content count (content (c + 6)).toNat ((c : Int) + 8) =
          .error .outside := fetchAll_outside (x := c + 8) hname hout
      rw [hlen, ok_bind, hbytes]
      exact nofun
    · have hlen : fetch content count ((c : Int) + 6) = .error .outside :=
        fetch_outside (x := c + 6) (by omega)
      rw [hlen]
      exact nofun
  · rw [fetchAll_outside (by decide) (by omega)]
    exact nofun

/-- A record whose inode number is not in the buffer. -/
lemma lsLoop_header {fuel c : Nat} {left : Int} (hleft : 0 < left) (hout : count < c + 4)
    (out : List (List UInt8 × Nat)) : lsLoop content count (fuel + 1) left c ≠ .ok out := by
  rw [lsLoop, if_neg (by omega), fetchAll_outside (by decide) hout]
  exact nofun

/-- The loop ends in front of an unused record. -/
lemma lsLoop_unused {fuel c : Nat} {left : Int} (hleft : 0 < left) (h4 : c + 4 ≤ count)
    (hunused : dentryInode content c = 0) : lsLoop content count (fuel + 1) left c = .ok [] := by
  rw [lsLoop, if_neg (by omega), fetchAll_ok h4, ok_bind, little_inode, if_pos hunused]

/-- Nothing more is printed. -/
lemma printed_nothing {x : Except Misuse (List (List UInt8 × Nat))} (h : x = .ok [])
    (names : List (List UInt8)) : (∃ out, x = .ok out ∧ out.map Prod.fst = names) ↔ [] = names := by
  rw [h]
  refine ⟨?_, fun h => ⟨[], rfl, h⟩⟩
  rintro ⟨out, he, hnames⟩
  cases he
  exact hnames

/-- What is printed from an unused record on. -/
lemma lsLoop_unused_iff {a fuel : Nat} {l : List Nat} {left : Int} (hleft : 0 < left)
    (hunused : dentryInode content a = 0) :
    (∃ out, lsLoop content count (fuel + 1) left a = .ok out ∧
      out.map Prod.fst = visibleNames content (a :: l)) ↔ a + 4 ≤ count ∧ ∀ d ∈ l, ¬ Visible content d := by
  have hinvisible : ¬ Visible content a := fun h => h.1 hunused
  rw [visibleNames_cons, if_neg hinvisible, List.nil_append, ← visibleNames_nil]
  by_cases h4 : a + 4 ≤ count
  · rw [printed_nothing (lsLoop_unused hleft h4 hunused)]
    exact ⟨fun h => ⟨h4, h.symm⟩, fun h => h.2.symm⟩
  · refine ⟨?_, fun h => absurd h.1 h4⟩
    rintro ⟨out, he, -⟩
    exact absurd he (lsLoop_header hleft (by omega) out)

/-- What is printed from a used record on, given what is printed behind it. -/
lemma lsLoop_used_iff {a fuel : Nat} {l : List Nat} {left : Int} {P : Prop} (hleft : 0 < left)
    (hused : dentryInode content a ≠ 0) (hname : 0 < nameLen content a) (hshort : recLen content a < 32768)
    (ih : (∃ out, lsLoop content count fuel (left - recLen content a) (a + recLen content a : Nat) = .ok out ∧
      out.map Prod.fst = visibleNames content l) ↔ P) :
    (∃ out, lsLoop content count (fuel + 1) left a = .ok out ∧
      out.map Prod.fst = visibleNames content (a :: l)) ↔ a + 8 + nameLen content a ≤ count ∧ P := by
  by_cases hin : a + 8 + nameLen content a ≤ count
  · obtain ⟨shown, hfst, hloop⟩ := lsLoop_used fuel hleft hused hname hin hshort
    rw [hloop, visibleNames_cons, ← hfst, ← ih]
    constructor
    · rintro ⟨out, he, hnames⟩
      obtain ⟨rest, hrest, he⟩ := bind_ok.1 he
      cases he
      rw [List.map_append] at hnames
      exact ⟨hin, rest, hrest, List.append_cancel_left hnames⟩
    · rintro ⟨-, rest, hrest, hnames⟩
      refine ⟨shown ++ rest, bind_ok.2 ⟨rest, hrest, rfl⟩, ?_⟩
      rw [List.map_append, hnames]
  · refine ⟨?_, fun h => absurd h.1 hin⟩
    rintro ⟨out, he, -⟩
    exact absurd he (lsLoop_cut hleft hused hname (by omega) out)

/-- The loop from a record on, by induction over the records that are left. -/
lemma lsLoop_iff {a size : Nat} {l : List Nat} (tiles : Tiling 8 (recLen content) a l size)
    (hshort : ∀ c ∈ l, recLen content c < 32768)
    (hnamed : ∀ c ∈ l, dentryInode content c ≠ 0 → 0 < nameLen content c) (hcount : count ≤ size)
    (fuel : Nat) (hfuel : count < a + fuel) (hpos : 0 < fuel) :
    (∃ out, lsLoop content count fuel ((count : Int) - a) a = .ok out ∧
      out.map Prod.fst = visibleNames content l) ↔ Shown content count l := by
  induction tiles generalizing fuel with
  | @nil a =>
    obtain ⟨fuel, rfl⟩ := Nat.exists_eq_succ_of_ne_zero (Nat.pos_iff_ne_zero.1 hpos)
    have hstop : lsLoop content count (fuel + 1) ((count : Int) - a) a = .ok [] := if_pos (by omega)
    rw [printed_nothing hstop]
    exact ⟨fun _ => trivial, fun _ => rfl⟩
  | @cons a l size hmin tiles ih =>
    obtain ⟨fuel, rfl⟩ := Nat.exists_eq_succ_of_ne_zero (Nat.pos_iff_ne_zero.1 hpos)
    have ih := @ih (fun c hc => hshort c (List.mem_cons_of_mem _ hc))
      (fun c hc => hnamed c (List.mem_cons_of_mem _ hc)) hcount
    unfold Shown
    by_cases hlt : a < count
    · have hleft : (0 : Int) < (count : Int) - a := by omega
      rw [if_pos hlt]
      by_cases hused : dentryInode content a = 0
      · rw [if_pos hused]
        exact lsLoop_unused_iff hleft hused
      · have hnext : (count : Int) - a - recLen content a = (count : Int) - (a + recLen content a : Nat) := by
          omega
        rw [if_neg hused]
        refine lsLoop_used_iff hleft hused (hnamed a (List.mem_cons_self ..) hused)
          (hshort a (List.mem_cons_self ..)) ?_
        rw [hnext]
        exact ih fuel (by omega) (by omega)
    · have hstop : lsLoop content count (fuel + 1) ((count : Int) - a) a = .ok [] := by
        rw [lsLoop, if_pos (by omega)]
      rw [if_neg hlt, ← visibleNames_nil, printed_nothing hstop]
      exact eq_comm

end

/-- The loop over a whole directory. -/
lemma lsComplete_iff (d : Directory) : LsComplete d ↔ Shown d.content (lsCount d.size) d.records := by
  have hle : lsCount d.size ≤ 512 := Nat.min_le_left ..
  exact lsLoop_iff d.tiles d.short d.named (Nat.min_le_right 512 d.size) 513
    (by change lsCount d.size < _; omega) (by decide)

/-- `ls` prints the names of a directory, each once and no other, and reads nothing else, exactly when
the records it reads are in the buffer and it stops in front of no name. -/
theorem ls_complete_iff (d : Directory) : LsComplete d ↔ Shown d.content (lsCount d.size) d.records :=
  lsComplete_iff d

/-- An unused record of twelve bytes and the file `a` behind it. -/
def holeContent : Mem := fun x =>
  [0, 0, 0, 0, 12, 0, 0, 0, 0, 0, 0, 0, 5, 0, 0, 0, 12, 0, 1, 8, 97, 0, 0, 0].getD x 0

def holeDirectory : Directory where
  content := holeContent
  size := 24
  records := [0, 12]
  tiles := .cons (by decide) (.cons (by decide) .nil)
  short := by decide
  room := by decide
  named := by decide

/-- Nothing is printed of a directory that begins with an unused record. -/
theorem ls_stops_at_hole : ¬ ∀ d, LsComplete d := by
  intro h
  obtain ⟨-, hnone⟩ : 0 + 4 ≤ lsCount 24 ∧ ∀ c ∈ [12], ¬ Visible holeContent c :=
    (lsComplete_iff holeDirectory).1 (h holeDirectory)
  exact hnone 12 (List.mem_singleton_self 12) (by decide)

end Creeks
