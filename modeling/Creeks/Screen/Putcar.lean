import Creeks.Lib.Run

/-!
# The text screen

`putcar` and what it calls, with the address of every write. The column and the row are signed bytes, the
test for the right edge stands in one of the five cases only, and the cursor is drawn afterwards.
`screen_inside_iff` says for which characters the counters and all writes stay on the screen: a tab behind
the last tab stop of a line leaves it.
-/

namespace Creeks
open Lib

def RAMSCREEN : Int := 0xB8000
def SCREENLIM : Int := 0xB8FA0

/-- A value stored in a `char`. -/
def toChar (x : Int) : Int := x.bmod 256

/-- The variables of the screen, the memory behind them and the addresses written so far. -/
structure Screen where
  kX : Int
  kY : Int
  kattr : UInt8
  cursorX : Int
  cursorY : Int
  cursorA : UInt8
  cursorC : UInt8
  memory : Int → UInt8
  writes : List Int

namespace Screen

/-- The variables at boot. -/
def boot (memory : Int → UInt8) : Screen := ⟨0, 8, 0x07, 0, 8, 0x40, 32, memory, []⟩

def store (s : Screen) (a : Int) (b : UInt8) : Screen :=
  { s with memory := Function.update s.memory a b, writes := s.writes ++ [a] }

def hideCursor (s : Screen) : Screen :=
  s.store (RAMSCREEN + 2 * s.cursorX + 160 * s.cursorY + 1) 0

def showCursor (s : Screen) : Screen :=
  let s := { s with cursorX := s.kX, cursorY := s.kY }
  let video := RAMSCREEN + 2 * s.cursorX + 160 * s.cursorY
  (s.store video s.cursorC).store (video + 1) s.cursorA

/-- A round of the loop of `scrollup`. -/
def scrollCell (n : Nat) (s : Screen) (i : Nat) : Screen :=
  let video := RAMSCREEN + 2 * i
  let tmp := video + n * 160
  if tmp < SCREENLIM then
    let s := s.store video (s.memory tmp)
    s.store (video + 1) (s.memory (tmp + 1))
  else (s.store video 0).store (video + 1) 0x07

/-- The loop of `scrollup`. -/
def scrollCells (s : Screen) (n : Nat) : Screen := (List.range 2000).foldl (scrollCell n) s

/-- The row behind the loop of `scrollup`. -/
def lowerRow (s : Screen) (n : Nat) : Screen :=
  let s := { s with kY := toChar (s.kY - n) }
  if s.kY < 0 then { s with kY := 0 } else s

def scrollup (s : Screen) (n : Nat) : Screen := (s.scrollCells n).lowerRow n

/-- The five cases of `putcar`. -/
def character (s : Screen) (c : UInt8) : Screen :=
  let video := RAMSCREEN + 2 * s.kX + 160 * s.kY
  if c = 10 then { s with kX := 0, kY := toChar (s.kY + 1) }
  else if c = 8 then
    if s.kX ≠ 0 then
      let s := s.store (video + 1) 0
      { s with kX := toChar (s.kX - 1) }
    else s
  else if c = 9 then { s with kX := toChar (s.kX + 8 - s.kX.tmod 8) }
  else if c = 13 then { s with kX := 0 }
  else
    let s := (s.store video c).store (video + 1) s.kattr
    let s := { s with kX := toChar (s.kX + 1) }
    if s.kX > 79 then { s with kX := 0, kY := toChar (s.kY + 1) } else s

def putcar (s : Screen) (c : UInt8) : Screen :=
  let s := s.hideCursor.character c
  let s := if s.kY > 24 then s.scrollup (s.kY - 24).toNat else s
  s.showCursor

end Screen

/-- What the kernel does with the screen: a character, or the color of a `sys_console_write`. -/
inductive ScreenOp where
  | putcar (c : UInt8)
  | color (attr : UInt8)
  deriving DecidableEq

def Screen.step (s : Screen) : ScreenOp → Screen
  | .putcar c => s.putcar c
  | .color attr => { s with kattr := attr }

/-- The screen after a sequence of operations from boot. -/
def screenAfter (memory : Int → UInt8) (ops : List ScreenOp) : Screen :=
  ops.foldl Screen.step (.boot memory)

/-- An address of the video memory. -/
def InVideo (a : Int) : Prop := RAMSCREEN ≤ a ∧ a < SCREENLIM

/-- The counters are on the screen, and so is all that was written. -/
structure OnScreen (s : Screen) : Prop where
  column : 0 ≤ s.kX ∧ s.kX ≤ 79
  row : 0 ≤ s.kY ∧ s.kY ≤ 24
  writes : ∀ a ∈ s.writes, InVideo a

/-- The column behind a character on a line of 80. -/
def nextColumn (k : Nat) (c : UInt8) : Nat :=
  if c = 10 ∨ c = 13 then 0
  else if c = 8 then k - 1
  else if c = 9 then k / 8 * 8 + 8
  else if k = 79 then 0
  else k + 1

/-- The column a sequence of operations leads to. -/
def columnOf (ops : List ScreenOp) : Nat :=
  ops.foldl (fun k op => match op with | .putcar c => nextColumn k c | .color _ => k) 0

/-- No tab comes in the last eight columns. -/
def NoLateTab (ops : List ScreenOp) : Prop :=
  ∀ before, before ++ [.putcar 9] <+: ops → columnOf before < 72

lemma inVideo_iff {x : Int} : InVideo (RAMSCREEN + x) ↔ 0 ≤ x ∧ x < 4000 := by
  have hsize : SCREENLIM = RAMSCREEN + 4000 := rfl
  unfold InVideo
  rw [hsize]
  omega

namespace Screen

/-- The counters of two screens agree, and what was written between them is in the video memory. -/
structure Confined (s t : Screen) : Prop where
  kX : t.kX = s.kX
  kY : t.kY = s.kY
  cursorX : t.cursorX = s.cursorX
  cursorY : t.cursorY = s.cursorY
  writes : ∀ a ∈ t.writes, a ∈ s.writes ∨ InVideo a

namespace Confined

variable {s t u : Screen}

lemma refl (s : Screen) : Confined s s := ⟨rfl, rfl, rfl, rfl, fun _ => .inl⟩

lemma trans (h : Confined s t) (h' : Confined t u) : Confined s u := by
  refine ⟨h'.kX.trans h.kX, h'.kY.trans h.kY, h'.cursorX.trans h.cursorX, h'.cursorY.trans h.cursorY,
    fun a ha => ?_⟩
  rcases h'.writes a ha with ha | ha
  · exact h.writes a ha
  · exact .inr ha

lemma store {a : Int} (h : InVideo a) (b : UInt8) : Confined s (s.store a b) := by
  refine ⟨rfl, rfl, rfl, rfl, fun x hx => ?_⟩
  rcases List.mem_append.1 hx with hx | hx
  · exact .inl hx
  · exact .inr (List.mem_singleton.1 hx ▸ h)

/-- The two bytes of a cell. -/
lemma cell {a : Int} (h : InVideo a) (h' : InVideo (a + 1)) (b b' : UInt8) :
    Confined s ((s.store a b).store (a + 1) b') := (store h b).trans (store h' b')

/-- The loop of `scrollup` goes over the cells of the screen. -/
lemma scrollCells (s : Screen) (n : Nat) : Confined s (s.scrollCells n) := by
  have hl : ∀ i ∈ List.range 2000, i < 2000 := fun i hi => List.mem_range.1 hi
  unfold Screen.scrollCells
  generalize List.range 2000 = l at hl ⊢
  induction l generalizing s with
  | nil => exact refl s
  | cons i l ih =>
    have hi := hl i (List.mem_cons_self ..)
    have h1 : InVideo (RAMSCREEN + 2 * i) := inVideo_iff.2 (by omega)
    have h2 : InVideo (RAMSCREEN + 2 * i + 1) := by
      have hcell : InVideo (RAMSCREEN + (2 * i + 1)) := inVideo_iff.2 (by omega)
      rwa [← Int.add_assoc] at hcell
    have hrest := ih (scrollCell n s i) fun j hj => hl j (List.mem_cons_of_mem _ hj)
    rw [List.foldl_cons]
    refine trans ?_ hrest
    unfold scrollCell
    dsimp only
    split
    · exact cell h1 h2 ..
    · exact cell h1 h2 ..

lemma writes_in (h : Confined s t) (hs : ∀ a ∈ s.writes, InVideo a) : ∀ a ∈ t.writes, InVideo a :=
  fun a ha => (h.writes a ha).elim (hs a) id

end Confined

lemma toChar_eq {x : Int} (h : -128 ≤ x) (h' : x < 128) : toChar x = x := by
  unfold toChar
  exact Int.bmod_eq_of_le (by omega) (by omega)

/-- The address of a cell and of its attribute. -/
lemma inVideo_cell {x y : Int} (hx : 0 ≤ x) (hx' : x ≤ 79) (hy : 0 ≤ y) (hy' : y ≤ 24) :
    InVideo (RAMSCREEN + 2 * x + 160 * y) ∧ InVideo (RAMSCREEN + 2 * x + 160 * y + 1) := by
  have h1 : InVideo (RAMSCREEN + (2 * x + 160 * y)) := inVideo_iff.2 (by omega)
  have h2 : InVideo (RAMSCREEN + (2 * x + 160 * y + 1)) := inVideo_iff.2 (by omega)
  rw [← Int.add_assoc] at h1
  rw [← Int.add_assoc, ← Int.add_assoc] at h2
  exact ⟨h1, h2⟩

/-- The cursor is drawn where the next character goes, in column `k`. -/
structure Placed (s : Screen) (k : Nat) : Prop where
  kX : s.kX = k
  column : k ≤ 79
  row : 0 ≤ s.kY ∧ s.kY ≤ 24
  cursorX : s.cursorX = s.kX
  cursorY : s.cursorY = s.kY
  writes : ∀ a ∈ s.writes, InVideo a

namespace Placed

variable {s : Screen} {k : Nat} {c : UInt8}

lemma boot (memory : Int → UInt8) : Placed (.boot memory) 0 :=
  ⟨rfl, by decide, ⟨by change (0 : Int) ≤ 8; decide, by change (8 : Int) ≤ 24; decide⟩, rfl, rfl, nofun⟩

lemma onScreen (h : Placed s k) : OnScreen s := by
  have hk := h.column
  refine ⟨?_, h.row, h.writes⟩
  rw [h.kX]
  omega

lemma hideCursor (h : Placed s k) : Placed s.hideCursor k := by
  have hk := h.column
  have hx := h.kX
  have hcell := (inVideo_cell (x := s.cursorX) (y := s.cursorY) (by rw [h.cursorX]; omega)
    (by rw [h.cursorX]; omega) (by rw [h.cursorY]; exact h.row.1) (by rw [h.cursorY]; exact h.row.2)).2
  have confined : Confined s s.hideCursor := .store hcell 0
  refine ⟨confined.kX.trans h.kX, hk, ?_, ?_, ?_, confined.writes_in h.writes⟩
  · rw [confined.kY]
    exact h.row
  · rw [confined.kX, confined.cursorX, h.cursorX]
  · rw [confined.kY, confined.cursorY, h.cursorY]

/-- What a character does to the column and the row, before the screen scrolls. -/
lemma character (h : Placed s k) (htab : c = 9 → k < 72) :
    (s.character c).kX = nextColumn k c ∧ nextColumn k c ≤ 79 ∧
      (0 ≤ (s.character c).kY ∧ (s.character c).kY ≤ 25) ∧
      ∀ a ∈ (s.character c).writes, InVideo a := by
  have hk := h.column
  have hx := h.kX
  obtain ⟨hy, hy'⟩ := h.row
  have hcell := inVideo_cell (x := s.kX) (y := s.kY) (by omega) (by omega) hy hy'
  have hy25 : s.kY ≤ 25 := by omega
  have hlow : 0 ≤ toChar (s.kY + 1) ∧ toChar (s.kY + 1) ≤ 25 := by
    rw [toChar_eq (by omega) (by omega)]
    omega
  unfold Screen.character
  dsimp only
  by_cases h10 : c = 10
  · have hn : nextColumn k c = 0 := if_pos (.inl h10)
    rw [if_pos h10, hn]
    exact ⟨rfl, by omega, hlow, h.writes⟩
  rw [if_neg h10]
  by_cases h8 : c = 8
  · have hn : nextColumn k c = k - 1 := by
      subst h8
      rfl
    rw [if_pos h8, hn]
    split
    · have confined : Confined s (s.store (RAMSCREEN + 2 * s.kX + 160 * s.kY + 1) 0) :=
        .store hcell.2 0
      refine ⟨?_, by omega, ⟨hy, hy25⟩, confined.writes_in h.writes⟩
      change toChar (s.kX - 1) = _
      rw [toChar_eq (by omega) (by omega)]
      omega
    · exact ⟨by omega, by omega, ⟨hy, hy25⟩, h.writes⟩
  rw [if_neg h8]
  by_cases h9 : c = 9
  · have hlt := htab h9
    have hn : nextColumn k c = k / 8 * 8 + 8 := by
      subst h9
      rfl
    rw [if_pos h9, hn]
    refine ⟨?_, by omega, ⟨hy, hy25⟩, h.writes⟩
    change toChar (s.kX + 8 - s.kX.tmod 8) = _
    rw [hx, Int.tmod_eq_emod_of_nonneg (by omega), toChar_eq (by omega) (by omega)]
    omega
  rw [if_neg h9]
  by_cases h13 : c = 13
  · have hn : nextColumn k c = 0 := if_pos (.inr h13)
    rw [if_pos h13, hn]
    exact ⟨rfl, by omega, ⟨hy, hy25⟩, h.writes⟩
  have hn : nextColumn k c = if k = 79 then 0 else k + 1 := by
    unfold nextColumn
    rw [if_neg (not_or.2 ⟨h10, h13⟩), if_neg h8, if_neg h9]
  rw [if_neg h13, hn]
  have confined := Confined.cell (s := s) hcell.1 hcell.2 c s.kattr
  generalize (s.store (RAMSCREEN + 2 * s.kX + 160 * s.kY) c).store
    (RAMSCREEN + 2 * s.kX + 160 * s.kY + 1) s.kattr = t at confined ⊢
  have hnext : toChar (t.kX + 1) = k + 1 := by
    rw [confined.kX, hx, toChar_eq (by omega) (by omega)]
  have hrow := confined.kY
  by_cases hedge : k = 79
  · have hgt : toChar (t.kX + 1) > 79 := by omega
    rw [if_pos hgt, if_pos hedge]
    rw [← hrow] at hlow
    exact ⟨rfl, by omega, hlow, confined.writes_in h.writes⟩
  · have hle : ¬ toChar (t.kX + 1) > 79 := by omega
    rw [if_neg hle, if_neg hedge]
    rw [← hrow] at hy hy25
    exact ⟨hnext, by omega, ⟨hy, hy25⟩, confined.writes_in h.writes⟩

/-- The cursor is drawn where the counters are. -/
lemma drawn {k : Nat} (hx : s.kX = k) (hk : k ≤ 79) (hy : 0 ≤ s.kY) (hy' : s.kY ≤ 24)
    (hw : ∀ a ∈ s.writes, InVideo a) : Placed s.showCursor k := by
  have hcell := inVideo_cell (x := s.kX) (y := s.kY) (by omega) (by omega) hy hy'
  have confined : Confined { s with cursorX := s.kX, cursorY := s.kY } s.showCursor :=
    .cell hcell.1 hcell.2 ..
  exact ⟨hx, hk, ⟨hy, hy'⟩, rfl, rfl, confined.writes_in hw⟩

/-- The screen has scrolled, and the last row is free. -/
lemma lowered {k n : Nat} (hx : s.kX = k) (hk : k ≤ 79) (hrow : toChar (s.kY - n) = 24)
    (hw : ∀ a ∈ s.writes, InVideo a) : Placed (s.lowerRow n).showCursor k := by
  have hlast : s.lowerRow n = { s with kY := 24 } := by
    unfold lowerRow
    dsimp only
    rw [hrow, if_neg (by decide)]
  rw [hlast]
  exact drawn (s := { s with kY := 24 }) hx hk (by decide : (0 : Int) ≤ 24) (le_refl _) hw

/-- `putcar` moves the cursor to the next column. -/
lemma putcar (h : Placed s k) (htab : c = 9 → k < 72) : Placed (s.putcar c) (nextColumn k c) := by
  obtain ⟨hx, hk, ⟨hy, hy'⟩, hw⟩ := h.hideCursor.character htab
  unfold Screen.putcar
  dsimp only
  by_cases hscroll : (s.hideCursor.character c).kY > 24
  · rw [if_pos hscroll]
    have confined := Confined.scrollCells (s.hideCursor.character c)
      ((s.hideCursor.character c).kY - 24).toNat
    generalize s.hideCursor.character c = t at hx hy hy' hw hscroll confined ⊢
    have hrow : toChar ((t.scrollCells (t.kY - 24).toNat).kY - ((t.kY - 24).toNat : Int)) = 24 := by
      rw [confined.kY, toChar_eq (by omega) (by omega)]
      omega
    exact lowered (confined.kX.trans hx) hk hrow (confined.writes_in hw)
  · rw [if_neg hscroll]
    exact drawn hx hk hy (by omega) hw

/-- A tab in the last eight columns leaves the line. -/
lemma late_tab (h : Placed s k) (hk : 72 ≤ k) : ¬ OnScreen (s.putcar 9) := by
  have hk' := h.column
  have h := h.hideCursor
  have hx := h.kX
  have hcol : (s.hideCursor.character 9).kX = 80 := by
    change toChar (s.hideCursor.kX + 8 - s.hideCursor.kX.tmod 8) = 80
    rw [hx, Int.tmod_eq_emod_of_nonneg (by omega), toChar_eq (by omega) (by omega)]
    omega
  have hrow : ¬ (s.hideCursor.character 9).kY > 24 := Int.not_lt.2 h.row.2
  have hput : (s.putcar 9).kX = 80 := by
    unfold Screen.putcar
    dsimp only
    rw [if_neg hrow]
    exact hcol
  intro screen
  have := screen.column.2
  omega

end Placed

end Screen

section

variable {memory : Int → UInt8} {ops : List ScreenOp} {op : ScreenOp}

lemma screenAfter_snoc : screenAfter memory (ops ++ [op]) = (screenAfter memory ops).step op := by
  unfold screenAfter
  rw [List.foldl_append]
  rfl

lemma columnOf_snoc : columnOf (ops ++ [op]) =
    match op with
    | .putcar c => nextColumn (columnOf ops) c
    | .color _ => columnOf ops := by
  unfold columnOf
  rw [List.foldl_append]
  rfl

lemma noLateTab_snoc :
    NoLateTab (ops ++ [op]) ↔ NoLateTab ops ∧ (op = .putcar 9 → columnOf ops < 72) := by
  unfold NoLateTab
  constructor
  · intro h
    refine ⟨fun before hb => h before (hb.trans (List.prefix_append ..)), fun e => ?_⟩
    subst e
    exact h ops (List.prefix_refl _)
  · rintro ⟨h, hlast⟩ before hb
    rcases List.prefix_concat_iff.1 hb with heq | hb
    · obtain ⟨hops, hop⟩ := List.append_inj' heq rfl
      rw [hops]
      exact hlast (List.cons.inj hop).1.symm
    · exact h before hb

/-- Without a late tab the column is the one that the characters lead to. -/
lemma screenAfter_placed (h : NoLateTab ops) : (screenAfter memory ops).Placed (columnOf ops) := by
  induction ops using List.reverseRecOn with
  | nil => exact Screen.Placed.boot memory
  | append_singleton ops op ih =>
    obtain ⟨h, htab⟩ := noLateTab_snoc.1 h
    have placed := ih h
    rw [screenAfter_snoc, columnOf_snoc]
    cases op with
    | putcar c => exact placed.putcar fun e => htab (by rw [e])
    | color attr => exact ⟨placed.kX, placed.column, placed.row, placed.cursorX, placed.cursorY,
        placed.writes⟩

end

/-- From boot on, the column, the row and every write stay on the screen exactly as long as no tab comes
in the last eight columns of a line. -/
theorem screen_inside_iff (memory : Int → UInt8) (ops : List ScreenOp) :
    (∀ before, before <+: ops → OnScreen (screenAfter memory before)) ↔ NoLateTab ops := by
  constructor
  · intro h
    induction ops using List.reverseRecOn with
    | nil =>
      intro before hb
      have := List.prefix_nil.1 hb
      simp at this
    | append_singleton ops op ih =>
      have hops := ih fun before hb => h before (hb.trans (List.prefix_append ..))
      refine noLateTab_snoc.2 ⟨hops, fun e => ?_⟩
      by_contra hlate
      subst e
      have screen := h _ (List.prefix_refl _)
      rw [screenAfter_snoc] at screen
      exact (screenAfter_placed hops).late_tab (Nat.not_lt.1 hlate) screen
  · intro h before hb
    exact (screenAfter_placed fun b hb' => h b (hb'.trans hb)).onScreen

lemma tabs_placed (memory : Int → UInt8) {n : Nat} (hn : n ≤ 9) :
    (screenAfter memory (List.replicate n (.putcar 9))).Placed (8 * n) := by
  induction n with
  | zero => exact Screen.Placed.boot memory
  | succ n ih =>
    have hcol : nextColumn (8 * n) 9 = 8 * (n + 1) := by
      change 8 * n / 8 * 8 + 8 = _
      omega
    rw [List.replicate_succ', screenAfter_snoc, ← hcol]
    exact (ih (by omega)).putcar fun _ => by omega

/-- The tenth tab of a line puts the cursor in column 80. -/
theorem tenth_tab_leaves_screen : ¬ ∀ ops, OnScreen (screenAfter (fun _ => 0) ops) := by
  intro h
  have screen := h (List.replicate 9 (.putcar 9) ++ [.putcar 9])
  rw [screenAfter_snoc] at screen
  exact (tabs_placed _ (le_refl 9)).late_tab (by decide) screen

end Creeks
