import Creeks.Lib.Blocks
import Creeks.Text.Printk

/-!
# The words of a command

The branch of the shell that starts a program: one loop counts the words of the line, another one cuts
them out, each into a block of its own. `shell_words` says that the two agree, that no access leaves the
line or a block, and that the array is the words and a null pointer. Every `malloc` is taken to return a
block.
-/

namespace Creeks
open Lib

/-- `*p == ' ' || *p == '\\t'` -/
def isBlank (c : UInt8) : Bool := c = 32 ∨ c = 9

/-- `*p && *p != '\\n' && *p != ' ' && *p != '\\t'` -/
def inWord (c : UInt8) : Bool := c ≠ 0 ∧ c ≠ 10 ∧ c ≠ 32 ∧ c ≠ 9

/-- `while (go(*p)) p++;` with the index of `p` in the memory it points to. -/
def skip (go : UInt8 → Bool) (mem : List UInt8) : Nat → Nat → Except Misuse Nat
  | 0, _ => .error .endless
  | fuel + 1, p => do
    let c ← BlockHeap.readByte mem p
    if go c then skip go mem fuel (p + 1) else .ok p

/-- The loop that counts the arguments. -/
def countWords (mem : List UInt8) : Nat → Nat → Nat → Except Misuse Nat
  | 0, _, _ => .error .endless
  | fuel + 1, end_p, ac => do
    let c ← BlockHeap.readByte mem end_p
    if c ≠ 0 ∧ c ≠ 10 then do
      let end_p ← skip inWord mem mem.length end_p
      let end_p ← skip isBlank mem mem.length end_p
      countWords mem fuel end_p (ac + 1)
    else .ok ac

/-- `strncpy` into a block, from the line. Both sides of its assignment use the old index. -/
def strncpyBlock (mem : List UInt8) (src : Nat) (dst : Ptr) :
    Nat → Nat → BlockHeap → Except Misuse BlockHeap
  | 0, _, h => .ok h
  | n + 1, i, h => do
    let c ← BlockHeap.readByte mem (src + i)
    let h ← h.storeByte dst i c
    if c ≠ 0 then strncpyBlock mem src dst n (i + 1) h else .ok h

/-- The loop that cuts the words, and the null pointer behind them. -/
def splitLoop (mem : List UInt8) (av : Ptr) : Nat → Nat → Nat → BlockHeap → Except Misuse BlockHeap
  | 0, i, _, h => h.storePtr av i .null
  | n + 1, i, end_p, h => do
    let beg_p ← skip isBlank mem mem.length end_p
    let end_p ← skip inWord mem mem.length beg_p
    let r := h.alloc (end_p - beg_p + 1)
    let h ← r.1.storePtr av i r.2
    let p ← h.loadPtr av i
    let h ← strncpyBlock mem beg_p p (end_p - beg_p) 0 h
    let p ← h.loadPtr av i
    let h ← h.storeByte p (end_p - beg_p) 0
    splitLoop mem av n (i + 1) end_p h

/-- The branch up to the call of `exec`: the blocks, `av` and `ac`. Without a word `exec` is not
called. -/
def splitCommand (line : CText) (h : BlockHeap) : Except Misuse (Option (BlockHeap × Ptr × Nat)) := do
  let mem := line.1 ++ [0]
  let beg_p ← skip isBlank mem mem.length 0
  let ac ← countWords mem mem.length beg_p 1
  if ac > 1 then do
    let r := h.alloc (4 * ac)
    let h ← splitLoop mem r.2 (ac - 1) 0 beg_p r.1
    .ok (some (h, r.2, ac))
  else .ok none

/-- The words of a line: what stands between its blanks, up to the first newline. -/
def wordsOf (s : List UInt8) : List (List UInt8) :=
  ((s.takeWhile (· ≠ 10)).splitOnP isBlank).filter (· ≠ [])

/-- The array in block 0 holds the words, each with its zero in a block of its own, and a null pointer. -/
structure Arguments (h : BlockHeap) (ws : List (List UInt8)) : Prop where
  sizes : h.sizes = 4 * (ws.length + 1) :: ws.map (·.length + 1)
  live : h.freed = []
  word : ∀ i (hi : i < ws.length), h.loadPtr (.block 0) i = .ok (.block (i + 1)) ∧
    Spells (h.bytes (i + 1)) 0 ws[i] ∧ h.bytes (i + 1) ws[i].length = 0
  ends : h.loadPtr (.block 0) ws.length = .ok .null

/-! ## The words of what is left of a line -/

section

variable {s : List UInt8} {c : UInt8}

lemma inWord_blank (h : isBlank c) : inWord c = false := by
  unfold isBlank at h
  unfold inWord
  rcases of_decide_eq_true h with rfl | rfl <;> rfl

/-- A character that is not in a word is a blank, a newline or the end. -/
lemma not_inWord (h : inWord c = false) : isBlank c ∨ c = 10 ∨ c = 0 := by
  unfold inWord at h
  unfold isBlank
  have h := of_decide_eq_false h
  by_contra hn
  simp only [not_or, decide_eq_true_eq] at hn
  exact h ⟨hn.2.2, hn.2.1, hn.1.1, hn.1.2⟩

/-- A blank in front changes no word. -/
lemma wordsOf_blank (h : isBlank c) : wordsOf (c :: s) = wordsOf s := by
  have hc : c ≠ 10 := by
    rintro rfl
    cases h
  unfold wordsOf
  rw [List.takeWhile_cons_of_pos (by simpa using hc), List.splitOnP_cons_eq_if_modifyHead, if_pos h,
    List.filter_cons_of_neg (by simp)]

lemma wordsOf_dropBlanks (s : List UInt8) : wordsOf (s.dropWhile isBlank) = wordsOf s := by
  induction s with
  | nil => rfl
  | cons c s ih =>
    by_cases h : isBlank c
    · rw [List.dropWhile_cons_of_pos h, ih, wordsOf_blank h]
    · rw [List.dropWhile_cons_of_neg h]

/-- There is no word at the end of the line. -/
lemma wordsOf_end (h : ∀ c ∈ s.head?, c = 10) : wordsOf s = [] := by
  cases s with
  | nil => rfl
  | cons c s =>
    have hc := h c rfl
    subst hc
    rfl

/-- The first word and the words of the rest. -/
lemma wordsOf_word (h0 : (0 : UInt8) ∉ s) (hs : ∃ c ∈ s.head?, inWord c) :
    wordsOf s = s.takeWhile inWord :: wordsOf (s.dropWhile inWord) := by
  have hne : s.takeWhile inWord ≠ [] := by
    obtain ⟨c, hc, hw⟩ := hs
    cases s with
    | nil => cases hc
    | cons d s =>
      cases hc
      rw [List.takeWhile_cons_of_pos hw]
      exact nofun
  have hword : ∀ c ∈ s.takeWhile inWord, inWord c := fun c hc => by
    have := List.all_takeWhile (l := s) (p := inWord)
    rw [List.all_eq_true] at this
    exact this c hc
  have hblank : ∀ c ∈ s.takeWhile inWord, isBlank c = false := fun c hc => by
    cases hb : isBlank c with
    | false => rfl
    | true => exact absurd (hword c hc) (by rw [inWord_blank hb]; decide)
  have hline : ∀ c ∈ s.takeWhile inWord, decide (c ≠ 10) = true := fun c hc => by
    have := of_decide_eq_true (hword c hc)
    exact decide_eq_true this.2.1
  conv_lhs => rw [← List.takeWhile_append_dropWhile (p := inWord) (l := s)]
  unfold wordsOf
  rw [List.takeWhile_append_of_pos hline]
  cases hr : s.dropWhile inWord with
  | nil =>
    rw [List.takeWhile_nil, List.append_nil, List.splitOnP_eq_singleton hblank,
      List.filter_cons_of_pos (by simpa using hne)]
    rfl
  | cons d r =>
    have hd : inWord d = false := by
      have := List.head?_dropWhile_not inWord s
      rw [hr] at this
      simpa using this
    rcases not_inWord hd with hb | rfl | rfl
    · have hd10 : d ≠ 10 := by
        rintro rfl
        cases hb
      rw [List.takeWhile_cons_of_pos (by simpa using hd10),
        List.splitOnP_append_cons_of_forall_mem hblank d hb, List.filter_cons_of_pos (by simpa using hne),
        List.splitOnP_cons_eq_if_modifyHead, if_pos hb, List.filter_cons_of_neg (by simp)]
    · rw [List.takeWhile_cons_of_neg (by decide), List.append_nil, List.splitOnP_eq_singleton hblank,
        List.filter_cons_of_pos (by simpa using hne)]
      rfl
    · refine absurd ?_ h0
      rw [← List.takeWhile_append_dropWhile (p := inWord) (l := s), hr]
      simp

end

/-! ## The loops over the line -/

section

variable {pre r : List UInt8} {fuel ac : Nat}

/-- A loop over characters stops behind those it goes over, at the latest at the zero. -/
lemma skip_spec {go : UInt8 → Bool} (h0 : go 0 = false) (hf : r.length < fuel) :
    skip go (pre ++ r ++ [0]) fuel pre.length = .ok (pre ++ r.takeWhile go).length := by
  induction r generalizing pre fuel with
  | nil =>
    cases fuel with
    | zero => cases hf
    | succ fuel =>
      unfold skip
      rw [List.append_nil, BlockHeap.readByte_at, ok_bind, h0, List.takeWhile_nil, List.append_nil]
      rfl
  | cons c r ih =>
    cases fuel with
    | zero => cases hf
    | succ fuel =>
      have hread : BlockHeap.readByte (pre ++ c :: r ++ [0]) pre.length = .ok c := by
        rw [List.append_assoc, List.cons_append]
        exact BlockHeap.readByte_at
      unfold skip
      rw [hread, ok_bind]
      by_cases hc : go c
      · have hnext := @ih (pre ++ [c]) fuel (Nat.lt_of_succ_lt_succ hf)
        rw [if_pos hc, List.takeWhile_cons_of_pos hc]
        simpa using hnext
      · rw [if_neg hc, List.takeWhile_cons_of_neg hc, List.append_nil]

/-- The same in a line, with what is left of it. -/
lemma skip_line (go : UInt8 → Bool) {line : List UInt8} (h0 : go 0 = false) (hline : line = pre ++ r) :
    skip go (line ++ [0]) (line ++ [0]).length pre.length = .ok (pre ++ r.takeWhile go).length ∧
      line = pre ++ r.takeWhile go ++ r.dropWhile go := by
  subst hline
  refine ⟨skip_spec h0 ?_, ?_⟩
  · rw [List.length_append, List.length_append, List.length_singleton]
    omega
  · rw [List.append_assoc, List.takeWhile_append_dropWhile]

lemma read_line {line : List UInt8} {c : UInt8} (hline : line = pre ++ c :: r) :
    BlockHeap.readByte (line ++ [0]) pre.length = .ok c := by
  rw [hline, List.append_assoc, List.cons_append]
  exact BlockHeap.readByte_at

lemma head_dropWhile {go : UInt8 → Bool} : ∀ c ∈ (r.dropWhile go).head?, go c = false := fun c hc => by
  have := List.head?_dropWhile_not go r
  rw [Option.mem_def.1 hc] at this
  simpa using this

/-- What is left behind a word, without its blanks, is shorter. -/
lemma rest_length (hs : ∃ c ∈ r.head?, inWord c) :
    ((r.dropWhile inWord).dropWhile isBlank).length < r.length := by
  obtain ⟨c, hc, hw⟩ := hs
  cases r with
  | nil => cases hc
  | cons d r =>
    cases hc
    rw [List.dropWhile_cons_of_pos hw]
    have h1 := (List.dropWhile_suffix isBlank (l := r.dropWhile inWord)).length_le
    have h2 := (List.dropWhile_suffix inWord (l := r)).length_le
    rw [List.length_cons]
    omega

/-- A line that goes on with neither a blank nor its end goes on with a word. -/
lemma head_inWord {c : UInt8} (h0 : c ≠ 0) (h10 : c ≠ 10) (hb : isBlank c = false) : inWord c := by
  cases hw : inWord c with
  | true => rfl
  | false => rcases not_inWord hw with h | h | h <;> simp_all

/-- The first loop counts the words. -/
lemma countWords_spec {line : List UInt8} (hline : line = pre ++ r) (hf : r.length < fuel)
    (h0 : (0 : UInt8) ∉ r) (hb : ∀ c ∈ r.head?, isBlank c = false) :
    countWords (line ++ [0]) fuel pre.length ac = .ok (ac + (wordsOf r).length) := by
  induction fuel generalizing pre r ac with
  | zero => cases hf
  | succ fuel ih =>
    unfold countWords
    cases r with
    | nil =>
      rw [List.append_nil] at hline
      rw [hline, BlockHeap.readByte_at]
      rfl
    | cons c r =>
      have hc0 : c ≠ 0 := fun e => h0 (e ▸ List.mem_cons_self ..)
      rw [read_line hline, ok_bind]
      by_cases h10 : c = 10
      · subst h10
        rw [if_neg fun h => h.2 rfl]
        rfl
      · have hs : ∃ d ∈ (c :: r).head?, inWord d := ⟨c, rfl, head_inWord hc0 h10 (hb c rfl)⟩
        have hshort := rest_length hs
        obtain ⟨hword, hline⟩ := skip_line inWord rfl hline
        obtain ⟨hblank, hline⟩ := skip_line isBlank rfl hline
        rw [if_pos ⟨hc0, h10⟩, hword, ok_bind, hblank, ok_bind, wordsOf_word h0 hs, ← wordsOf_dropBlanks]
        have h0' : (0 : UInt8) ∉ ((c :: r).dropWhile inWord).dropWhile isBlank := fun h =>
          h0 ((List.dropWhile_suffix _).mem ((List.dropWhile_suffix _).mem h))
        rw [ih hline (by omega) h0' head_dropWhile, List.length_cons]
        congr 1
        omega

end

/-! ## The blocks -/

/-- The array has room for `total` words, of which the first ones are there. -/
structure Cut (h : BlockHeap) (total : Nat) (done : List (List UInt8)) : Prop where
  sizes : h.sizes = 4 * (total + 1) :: done.map (·.length + 1)
  live : h.freed = []
  word : ∀ i (hi : i < done.length), h.ptrs 0 i = .block (i + 1) ∧
    Spells (h.bytes (i + 1)) 0 done[i] ∧ h.bytes (i + 1) done[i].length = 0

section

variable {h : BlockHeap} {total : Nat} {done : List (List UInt8)}

/-- A cell of the array. -/
lemma Cut.cell (cut : Cut h total done) {i : Nat} (hi : i ≤ total) :
    h.access (.block 0) (4 * i) 4 = .ok 0 := by
  refine BlockHeap.access_ok ?_ ?_
  · rw [cut.live]
    exact nofun
  · rw [cut.sizes, List.getD_cons_zero]
    omega

/-- `strncpy` of characters of the line other than zero. -/
lemma strncpyBlock_spec {line : List UInt8} (pre : List UInt8) {w r : List UInt8} {src i : Nat} (id : Nat)
    (hline : line = pre ++ (w ++ r)) (hsrc : src + i = pre.length) (h0 : (0 : UInt8) ∉ w) (hlive : id ∉ h.freed)
    (hroom : i + w.length ≤ h.sizes.getD id 0) :
    strncpyBlock (line ++ [0]) src (.block id) w.length i h =
      .ok { h with bytes := Function.update h.bytes id (writeText (h.bytes id) i w) } := by
  induction w generalizing pre i h with
  | nil =>
    unfold strncpyBlock writeText
    rw [Function.update_eq_self]
    rfl
  | cons c w ih =>
    rw [List.mem_cons, not_or] at h0
    rw [List.length_cons] at hroom ⊢
    unfold strncpyBlock BlockHeap.storeByte
    rw [hsrc, read_line (r := w ++ r) hline, ok_bind, BlockHeap.access_ok hlive (by omega), ok_bind, ok_bind,
      if_pos (Ne.symm h0.1)]
    rw [ih (h := { h with bytes := Function.update h.bytes id (Function.update (h.bytes id) i c) })
      (pre ++ [c]) (by rw [hline]; simp) (by rw [List.length_append, List.length_singleton]; omega)
      h0.2 hlive (by dsimp only; omega)]
    dsimp only
    rw [Function.update_idem, Function.update_self]
    rfl

/-- A new block holds the next word, and the next cell of the array points to it. -/
lemma Cut.extend (cut : Cut h total done) {w : List UInt8} {b : Nat → Mem} {p : Nat → Nat → Ptr}
    (hold : ∀ i < done.length, b (i + 1) = h.bytes (i + 1)) (hw : Spells (b (done.length + 1)) 0 w)
    (hz : b (done.length + 1) w.length = 0)
    (hp : p 0 = Function.update (h.ptrs 0) done.length (.block (done.length + 1))) :
    Cut ⟨h.sizes ++ [w.length + 1], h.freed, b, p⟩ total (done ++ [w]) := by
  refine ⟨?_, cut.live, fun i hi => ?_⟩
  · rw [cut.sizes, List.map_append]
    rfl
  · rw [List.length_append, List.length_singleton] at hi
    dsimp only
    rw [hp]
    by_cases hlast : i = done.length
    · subst hlast
      have hword : (done ++ [w])[done.length] = w := by
        rw [List.getElem_append_right (le_refl _)]
        simp
      rw [hword, Function.update_self]
      exact ⟨rfl, hw, hz⟩
    · have hi : i < done.length := by omega
      rw [List.getElem_append_left hi, hold i hi, Function.update_of_ne hlast]
      exact cut.word i hi

/-- The body of the second loop: a block of its own for the next word. -/
lemma Cut.next (cut : Cut h total done) (hroom : done.length < total)
    {line : List UInt8} (pre w r : List UInt8) (hline : line = pre ++ (w ++ r)) (h0 : (0 : UInt8) ∉ w)
    {g : BlockHeap → Except Misuse BlockHeap} :
    ∃ h', Cut h' total (done ++ [w]) ∧
      ((h.alloc (w.length + 1)).1.storePtr (.block 0) done.length (h.alloc (w.length + 1)).2 >>= fun h =>
        h.loadPtr (.block 0) done.length >>= fun p =>
        strncpyBlock (line ++ [0]) pre.length p w.length 0 h >>= fun h =>
        h.loadPtr (.block 0) done.length >>= fun p =>
        h.storeByte p w.length 0 >>= g) = g h' := by
  have hid : h.sizes.length = done.length + 1 := by rw [cut.sizes, List.length_cons, List.length_map]
  have hsizes : (h.sizes ++ [w.length + 1]).getD (done.length + 1) 0 = w.length + 1 := by
    rw [← hid, List.getD_append_right _ _ _ _ (le_refl _), Nat.sub_self]
    rfl
  have hzero : (h.sizes ++ [w.length + 1]).getD 0 0 = 4 * (total + 1) := by
    rw [cut.sizes]
    rfl
  have hlive : ∀ id, id ∉ h.freed := fun id => by
    rw [cut.live]
    exact nofun
  -- the blocks after each of the five accesses
  let p1 := Function.update h.ptrs 0 (Function.update (h.ptrs 0) done.length (.block (done.length + 1)))
  let b1 := Function.update h.bytes (done.length + 1) (writeText (h.bytes (done.length + 1)) 0 w)
  let b2 := Function.update b1 (done.length + 1) (Function.update (b1 (done.length + 1)) w.length 0)
  have hbytes : b2 (done.length + 1) =
      Function.update (writeText (h.bytes (done.length + 1)) 0 w) w.length 0 := by
    have htext : b1 (done.length + 1) = writeText (h.bytes (done.length + 1)) 0 w := Function.update_self ..
    rw [← htext]
    exact Function.update_self ..
  refine ⟨⟨h.sizes ++ [w.length + 1], h.freed, b2, p1⟩,
    cut.extend (fun i hi => ?_) ?_ ?_ (Function.update_self ..), ?_⟩
  · exact (Function.update_of_ne (by omega) ..).trans (Function.update_of_ne (by omega) ..)
  · rw [hbytes]
    exact writeText_spells.congr fun x _ hx => Function.update_of_ne (by omega) ..
  · rw [hbytes]
    exact Function.update_self ..
  · have hload : p1 0 done.length = .block (done.length + 1) := by
      rw [show p1 0 = _ from Function.update_self .., Function.update_self]
    have hstore : (h.alloc (w.length + 1)).1.storePtr (.block 0) done.length (h.alloc (w.length + 1)).2 =
        .ok ⟨h.sizes ++ [w.length + 1], h.freed, h.bytes, p1⟩ := by
      unfold BlockHeap.storePtr BlockHeap.alloc
      dsimp only
      rw [BlockHeap.access_ok (h := ⟨h.sizes ++ [w.length + 1], h.freed, h.bytes, h.ptrs⟩) (hlive 0)
        (by dsimp only; omega), hid]
      rfl
    have hget : ∀ b, (⟨h.sizes ++ [w.length + 1], h.freed, b, p1⟩ : BlockHeap).loadPtr (.block 0) done.length =
        .ok (.block (done.length + 1)) := fun b => by
      unfold BlockHeap.loadPtr
      rw [BlockHeap.access_ok (h := ⟨h.sizes ++ [w.length + 1], h.freed, b, p1⟩) (hlive 0)
        (by dsimp only; omega), ok_bind]
      exact congrArg Except.ok hload
    have hcopy := strncpyBlock_spec (h := ⟨h.sizes ++ [w.length + 1], h.freed, h.bytes, p1⟩) (i := 0)
      pre (done.length + 1) hline (Nat.add_zero _) h0 (hlive _) (by dsimp only; omega)
    rw [hstore, ok_bind, hget, ok_bind, hcopy, ok_bind, hget, ok_bind]
    unfold BlockHeap.storeByte
    rw [BlockHeap.access_ok (h := ⟨h.sizes ++ [w.length + 1], h.freed, b1, p1⟩) (hlive _)
      (by dsimp only; omega)]
    rfl

end

/-- The null pointer behind the last word. -/
lemma Cut.finish {h : BlockHeap} {done : List (List UInt8)} (cut : Cut h done.length done) :
    ∃ h', h.storePtr (.block 0) done.length .null = .ok h' ∧ Arguments h' done := by
  let p1 := Function.update h.ptrs 0 (Function.update (h.ptrs 0) done.length .null)
  have hrow : p1 0 = Function.update (h.ptrs 0) done.length .null := Function.update_self ..
  have cut' : Cut ⟨h.sizes, h.freed, h.bytes, p1⟩ done.length done := by
    refine ⟨cut.sizes, cut.live, fun i hi => ?_⟩
    dsimp only
    rw [hrow, Function.update_of_ne (by omega)]
    exact cut.word i hi
  refine ⟨⟨h.sizes, h.freed, h.bytes, p1⟩, ?_, cut.sizes, cut.live, fun i hi => ?_, ?_⟩
  · unfold BlockHeap.storePtr
    rw [cut.cell (le_refl _)]
    rfl
  · obtain ⟨hptr, htext⟩ := cut'.word i hi
    unfold BlockHeap.loadPtr
    rw [cut'.cell (by omega), ok_bind]
    exact ⟨congrArg Except.ok hptr, htext⟩
  · unfold BlockHeap.loadPtr
    rw [cut'.cell (le_refl _), ok_bind]
    dsimp only
    rw [hrow, Function.update_self]

/-- The second loop cuts the words that the first one counted. -/
lemma splitLoop_spec {line pre r : List UInt8} {n total : Nat} {h : BlockHeap} {done : List (List UInt8)}
    (hline : line = pre ++ r) (h0 : (0 : UInt8) ∉ r) (hn : (wordsOf r).length = n)
    (htotal : done.length + n = total) (cut : Cut h total done) :
    ∃ h', splitLoop (line ++ [0]) (.block 0) n done.length pre.length h = .ok h' ∧
      Arguments h' (done ++ wordsOf r) := by
  induction n generalizing pre r h done with
  | zero =>
    have hnil : wordsOf r = [] := List.length_eq_zero_iff.1 hn
    have htotal : total = done.length := by omega
    subst htotal
    rw [hnil, List.append_nil]
    exact cut.finish
  | succ n ih =>
    obtain ⟨hblank, hline⟩ := skip_line isBlank rfl hline
    have h0' : (0 : UInt8) ∉ r.dropWhile isBlank := fun h => h0 ((List.dropWhile_suffix _).mem h)
    -- words are left, so a word comes next
    have hs : ∃ c ∈ (r.dropWhile isBlank).head?, inWord c := by
      cases hr : (r.dropWhile isBlank).head? with
      | none =>
        rw [← wordsOf_dropBlanks, List.head?_eq_none_iff.1 hr] at hn
        cases hn
      | some c =>
        refine ⟨c, rfl, head_inWord ?_ ?_ (head_dropWhile c hr)⟩
        · rintro rfl
          exact h0' (List.mem_of_mem_head? hr)
        · rintro rfl
          rw [← wordsOf_dropBlanks, wordsOf_end fun d hd =>
            (Option.some.inj (hr.symm.trans hd)).symm] at hn
          cases hn
    have hwords : wordsOf r = (r.dropWhile isBlank).takeWhile inWord ::
        wordsOf ((r.dropWhile isBlank).dropWhile inWord) := by
      rw [← wordsOf_dropBlanks, wordsOf_word h0' hs]
    obtain ⟨hword, hrest⟩ := skip_line inWord rfl hline
    have hw0 : (0 : UInt8) ∉ (r.dropWhile isBlank).takeWhile inWord := fun h =>
      h0' ((List.takeWhile_prefix _).mem h)
    obtain ⟨h', cut', hnext⟩ := cut.next (by omega) (pre ++ r.takeWhile isBlank)
      ((r.dropWhile isBlank).takeWhile inWord) ((r.dropWhile isBlank).dropWhile inWord)
      (hrest.trans (List.append_assoc ..)) hw0
      (g := splitLoop (line ++ [0]) (.block 0) n (done.length + 1)
        (pre ++ r.takeWhile isBlank ++ (r.dropWhile isBlank).takeWhile inWord).length)
    have hcut : (pre ++ r.takeWhile isBlank ++ (r.dropWhile isBlank).takeWhile inWord).length -
        (pre ++ r.takeWhile isBlank).length = ((r.dropWhile isBlank).takeWhile inWord).length := by
      rw [List.length_append]
      omega
    rw [hwords, List.length_cons] at hn
    have hdone : (done ++ [(r.dropWhile isBlank).takeWhile inWord]).length = done.length + 1 :=
      List.length_append
    obtain ⟨h'', hrun, hargs⟩ := @ih _ _ h' _ hrest
      (fun h => h0' ((List.dropWhile_suffix _).mem h)) (by omega) (by omega) cut'
    refine ⟨h'', ?_, ?_⟩
    · unfold splitLoop
      rw [hblank, ok_bind, hword, ok_bind, hcut]
      refine hnext.trans ?_
      rw [← hdone]
      exact hrun
    · rw [hwords]
      simpa using hargs

/-- Both loops together. -/
lemma splitCommand_spec (line : CText) (bytes : Nat → Mem) (ptrs : Nat → Nat → Ptr) :
    (wordsOf line.1 = [] → splitCommand line (.none bytes ptrs) = .ok none) ∧
    (wordsOf line.1 ≠ [] → ∃ h,
      splitCommand line (.none bytes ptrs) =
          .ok (some (h, .block 0, (wordsOf line.1).length + 1)) ∧
        Arguments h (wordsOf line.1)) := by
  obtain ⟨s, h0⟩ := line
  obtain ⟨hblank, hline⟩ := @skip_line [] s isBlank s rfl rfl
  rw [List.nil_append] at hblank hline
  have h0' : (0 : UInt8) ∉ s.dropWhile isBlank := fun h => h0 ((List.dropWhile_suffix _).mem h)
  have hshort := (List.dropWhile_suffix isBlank (l := s)).length_le
  have hcount := @countWords_spec _ _ (s ++ [0]).length 1 _ hline
    (by rw [List.length_append, List.length_singleton]; omega) h0' head_dropWhile
  rw [wordsOf_dropBlanks] at hcount
  have hstart : ∀ h, splitCommand ⟨s, h0⟩ h =
      if 1 + (wordsOf s).length > 1 then
        splitLoop (s ++ [0]) (.block h.sizes.length) (1 + (wordsOf s).length - 1) 0
            (s.takeWhile isBlank).length (h.alloc (4 * (1 + (wordsOf s).length))).1 >>= fun h' =>
          .ok (some (h', .block h.sizes.length, 1 + (wordsOf s).length))
      else .ok none := fun h => by
    have hblank : skip isBlank (s ++ [0]) (s ++ [0]).length 0 = .ok (s.takeWhile isBlank).length := hblank
    unfold splitCommand
    dsimp only
    rw [hblank, ok_bind, hcount, ok_bind]
    rfl
  refine ⟨fun hnil => ?_, fun hne => ?_⟩
  · dsimp only at hnil
    rw [hstart, hnil]
    rfl
  · have hpos := List.length_pos_iff.2 hne
    have cut : Cut ((BlockHeap.none bytes ptrs).alloc (4 * (1 + (wordsOf s).length))).1
        (wordsOf s).length [] := by
      refine ⟨?_, rfl, nofun⟩
      rw [Nat.add_comm 1]
      rfl
    obtain ⟨h', hrun, hargs⟩ := splitLoop_spec (n := (wordsOf s).length) hline h0'
      (by rw [wordsOf_dropBlanks]) (Nat.zero_add _) cut
    refine ⟨h', ?_, ?_⟩
    · dsimp only at hpos ⊢
      rw [hstart, if_pos (by omega), Nat.add_sub_cancel_left]
      rw [show splitLoop (s ++ [0]) (.block (BlockHeap.none bytes ptrs).sizes.length) (wordsOf s).length 0 _ _ = _
        from hrun, Nat.add_comm 1]
      rfl
    · rw [wordsOf_dropBlanks] at hargs
      exact hargs

/-- For every line the array is its words with a null pointer behind them, each word with its zero in a
block of its own, and no access leaves the line or a block. Without a word `exec` is not called. -/
theorem shell_words (line : CText) (bytes : Nat → Mem) (ptrs : Nat → Nat → Ptr) :
    (wordsOf line.1 = [] → splitCommand line (.none bytes ptrs) = .ok none) ∧
    (wordsOf line.1 ≠ [] → ∃ h,
      splitCommand line (.none bytes ptrs) =
          .ok (some (h, .block 0, (wordsOf line.1).length + 1)) ∧
        Arguments h (wordsOf line.1)) :=
  splitCommand_spec line bytes ptrs

/-- A blank line, and ` a`, a tab and `bc` without a newline. -/
theorem shell_words_two :
    splitCommand ⟨[32, 9, 10], by decide⟩ (.none (fun _ _ => 1) fun _ _ => .null) = .ok none ∧
    ∃ h, splitCommand ⟨[32, 97, 9, 98, 99], by decide⟩ (.none (fun _ _ => 1) fun _ _ => .null) =
        .ok (some (h, .block 0, 3)) ∧ Arguments h [[97], [98, 99]] :=
  ⟨(shell_words ⟨[32, 9, 10], by decide⟩ _ _).1 (by decide),
    (shell_words ⟨[32, 97, 9, 98, 99], by decide⟩ _ _).2 (by decide)⟩

end Creeks
