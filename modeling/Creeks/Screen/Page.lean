import Creeks.Lib.Window
import Creeks.Screen.Putcar

/-!
# The screen as a window

The abstract terminal writes on a page without an end: it never scrolls, and what it has written stays
where it is. `screen_shows_page` says that the video memory is at any time the last 25 rows of that page up
to the one with the cursor, with glyphs and attributes: the in-place loop of `scrollup` moves the window and
loses nothing else. `printed_text_stays` is what a user sees of it.
-/

namespace Creeks
open Lib

/-- A glyph and its attribute. -/
abbrev Cell := UInt8 × UInt8

/-- A page: its cells by row and column, and the cursor. -/
structure TextPage where
  cell : Nat → Nat → Cell
  row : Nat
  col : Nat
  attr : UInt8

namespace TextPage

/-- The page at boot: the rows of the video memory, and blank ones behind. -/
def boot (memory : Int → UInt8) : TextPage :=
  ⟨fun r x => if r < 25 then (memory (RAMSCREEN + 2 * (80 * r + x : Nat)),
    memory (RAMSCREEN + 2 * (80 * r + x : Nat) + 1)) else (0, 0x07), 8, 0, 0x07⟩

/-- A cell is written at the cursor. -/
def put (p : TextPage) (a : Cell) : TextPage :=
  { p with cell := Function.update p.cell p.row (Function.update (p.cell p.row) p.col a) }

@[simp] lemma cell_put (p : TextPage) (a : Cell) : (p.put a).cell p.row p.col = a := by
  unfold put
  dsimp only
  rw [Function.update_self, Function.update_self]

/-- The cursor leaves its cell: the glyph stays, its attribute is dark. -/
def leave (p : TextPage) : TextPage := p.put ((p.cell p.row p.col).1, 0)

/-- The cursor is a blank on red. -/
def mark (p : TextPage) : TextPage := p.put (32, 0x40)

/-- Where a character leads from a row and a column. -/
def place (at_ : Nat × Nat) (c : UInt8) : Nat × Nat :=
  (if c = 10 then at_.1 + 1 else if c = 8 ∨ c = 9 ∨ c = 13 then at_.1
    else if at_.2 = 79 then at_.1 + 1 else at_.1, nextColumn at_.2 c)

/-- A character with a glyph. -/
def Printable (c : UInt8) : Prop := c ≠ 10 ∧ c ≠ 8 ∧ c ≠ 9 ∧ c ≠ 13

instance (c : UInt8) : Decidable (Printable c) := inferInstanceAs (Decidable (_ ∧ _))

/-- A character on the page. -/
def character (p : TextPage) (c : UInt8) : TextPage :=
  let q := if Printable c then p.put (c, p.attr) else p
  { q with row := (place (p.row, p.col) c).1, col := (place (p.row, p.col) c).2 }

def step (p : TextPage) : ScreenOp → TextPage
  | .putcar c => (p.leave.character c).mark
  | .color attr => { p with attr := attr }

/-- The first row that is shown. -/
def top (p : TextPage) : Nat := p.row - 24

end TextPage

/-- The page after a sequence of operations from boot. -/
def pageAfter (memory : Int → UInt8) (ops : List ScreenOp) : TextPage := ops.foldl TextPage.step (.boot memory)

/-- Cell `i` of the video memory. -/
def Screen.cell (s : Screen) (i : Nat) : Cell :=
  (s.memory (RAMSCREEN + 2 * i), s.memory (RAMSCREEN + 2 * i + 1))

/-- The colors of the characters and of the cursor. -/
def Screen.colors (s : Screen) : UInt8 × UInt8 × UInt8 := (s.kattr, s.cursorA, s.cursorC)

/-- The screen is the window on the page that ends with the row of the cursor or below. -/
structure Screen.Shows (s : Screen) (p : TextPage) (top : Nat) : Prop where
  kX : s.kX = p.col
  kY : s.kY + top = p.row
  column : p.col ≤ 79
  above : top ≤ p.row
  colors : s.colors = (p.attr, 0x40, 32)
  views : Views 80 25 s.cell p.cell top
  below : ∀ r x, top + 25 ≤ r → p.cell r x = (0, 0x07)

namespace Screen

variable {s : Screen} {p : TextPage} {top i : Nat}

@[simp] lemma memory_store (s : Screen) (a : Int) (b : UInt8) :
    (s.store a b).memory = Function.update s.memory a b := rfl

/-- An attribute is stored. -/
lemma cell_attr (s : Screen) (i : Nat) (a : UInt8) :
    (s.store (RAMSCREEN + 2 * i + 1) a).cell = Function.update s.cell i ((s.cell i).1, a) := by
  funext j
  unfold cell
  rw [memory_store]
  by_cases hj : j = i
  · subst hj
    rw [Function.update_self, Function.update_self, Function.update_of_ne (by omega)]
  · rw [Function.update_of_ne hj, Function.update_of_ne (by omega), Function.update_of_ne (by omega)]

/-- A glyph and its attribute are stored. -/
lemma cell_store (s : Screen) (i : Nat) (g a : UInt8) :
    ((s.store (RAMSCREEN + 2 * i) g).store (RAMSCREEN + 2 * i + 1) a).cell =
      Function.update s.cell i (g, a) := by
  rw [cell_attr]
  funext j
  by_cases hj : j = i
  · subst hj
    rw [Function.update_self, Function.update_self]
    congr 1
    exact Function.update_self ..
  · rw [Function.update_of_ne hj, Function.update_of_ne hj]
    unfold cell
    rw [memory_store, Function.update_of_ne (by omega), Function.update_of_ne (by omega)]

/-- A round of `scrollup` is one of the loop that moves the window. -/
lemma cell_scrollCell (s : Screen) (n i : Nat) :
    (scrollCell n s i).cell = shiftCell 2000 (80 * n) (0, 0x07) s.cell i := by
  have hsize : SCREENLIM = RAMSCREEN + 4000 := rfl
  have htmp : RAMSCREEN + 2 * (i : Int) + (n : Int) * 160 = RAMSCREEN + 2 * ((i + 80 * n : Nat) : Int) := by
    push_cast
    omega
  unfold scrollCell shiftCell
  dsimp only
  rw [htmp, hsize]
  by_cases h : i + 80 * n < 2000
  · rw [if_pos (by omega), if_pos h, cell_store]
    have hattr : (s.store (RAMSCREEN + 2 * (i : Int)) (s.memory (RAMSCREEN + 2 * ((i + 80 * n : Nat) : Int)))).memory
        (RAMSCREEN + 2 * ((i + 80 * n : Nat) : Int) + 1) = s.memory (RAMSCREEN + 2 * ((i + 80 * n : Nat) : Int) + 1) :=
      Function.update_of_ne (by omega) ..
    rw [hattr]
    rfl
  · rw [if_neg (by omega), if_neg h, cell_store]

@[simp] lemma colors_store (s : Screen) (a : Int) (b : UInt8) : (s.store a b).colors = s.colors := rfl

lemma colors_scrollCell (n : Nat) (s : Screen) (i : Nat) : (scrollCell n s i).colors = s.colors := by
  unfold scrollCell
  dsimp only
  split
  · rw [colors_store, colors_store]
  · rw [colors_store, colors_store]

/-- The loop of `scrollup` moves the cells and keeps the colors. -/
lemma scrollCells_cell (s : Screen) (n : Nat) :
    (s.scrollCells n).cell = (List.range 2000).foldl (shiftCell 2000 (80 * n) (0, 0x07)) s.cell ∧
      (s.scrollCells n).colors = s.colors := by
  unfold scrollCells
  generalize List.range 2000 = l
  induction l generalizing s with
  | nil => exact ⟨rfl, rfl⟩
  | cons i l ih =>
    obtain ⟨hcell, hcolors⟩ := ih (scrollCell n s i)
    rw [List.foldl_cons, List.foldl_cons, ← cell_scrollCell s n i]
    exact ⟨hcell, hcolors.trans (colors_scrollCell n s i)⟩

namespace Shows

/-- The cell under the counters is the one of the page. -/
lemma address (h : Shows s p top) :
    RAMSCREEN + 2 * s.kX + 160 * s.kY = RAMSCREEN + 2 * ((80 * (p.row - top) + p.col : Nat) : Int) := by
  have hx := h.kX
  have hy := h.kY
  have ha := h.above
  push_cast [Nat.cast_sub ha]
  omega

/-- A cell is written at the cursor, on the screen and on the page. -/
lemma put (h : Shows s p top) (hrow : p.row < top + 25) {t : Screen} (a : Cell)
    (hcell : t.cell = Function.update s.cell (80 * (p.row - top) + p.col) a) (hx : t.kX = s.kX)
    (hy : t.kY = s.kY) (hcolors : t.colors = s.colors) : Shows t (p.put a) top := by
  have ha := h.above
  have hat : top + (p.row - top) = p.row := by omega
  refine ⟨hx.trans h.kX, by rw [hy]; exact h.kY, h.column, ha, hcolors.trans h.colors, ?_, fun r x hr => ?_⟩
  · have views := h.views.update (y := p.row - top) (x := p.col) (Nat.lt_succ_of_le h.column) a
    rw [hat] at views
    rw [hcell]
    exact views
  · have hne : r ≠ p.row := by omega
    have hother : (p.put a).cell r = p.cell r := Function.update_of_ne hne ..
    rw [hother]
    exact h.below r x hr

/-- `hide_cursor` -/
lemma leave (h : Shows s p top) (hrow : p.row < top + 25) (hx : s.cursorX = s.kX) (hy : s.cursorY = s.kY) :
    Shows s.hideCursor p.leave top := by
  have ha := h.above
  have hat : top + (p.row - top) = p.row := by omega
  have hglyph := h.views (p.row - top) p.col (by omega) (Nat.lt_succ_of_le h.column)
  rw [hat] at hglyph
  refine h.put hrow _ ?_ rfl rfl rfl
  unfold hideCursor
  rw [hx, hy, h.address, cell_attr, hglyph]

/-- `show_cursor` -/
lemma mark (h : Shows s p top) (hrow : p.row < top + 25) : Shows s.showCursor p.mark top := by
  have hcolors := h.colors
  have hA : s.cursorA = 0x40 := congrArg (fun x => x.2.1) hcolors
  have hC : s.cursorC = 32 := congrArg (fun x => x.2.2) hcolors
  refine h.put hrow _ ?_ rfl rfl rfl
  have hcell := cell_store { s with cursorX := s.kX, cursorY := s.kY } (80 * (p.row - top) + p.col)
    s.cursorC s.cursorA
  rw [← h.address, hA, hC] at hcell
  unfold showCursor
  dsimp only
  rw [hA, hC]
  exact hcell

/-- A glyph with the current attribute. -/
lemma glyph (h : Shows s p top) (hrow : p.row < top + 25) (c : UInt8) :
    Shows ((s.store (RAMSCREEN + 2 * s.kX + 160 * s.kY) c).store
      (RAMSCREEN + 2 * s.kX + 160 * s.kY + 1) s.kattr) (p.put (c, p.attr)) top := by
  have hattr : s.kattr = p.attr := congrArg Prod.fst h.colors
  refine h.put hrow _ ?_ rfl rfl rfl
  rw [h.address, hattr]
  exact cell_store ..

/-- The counters move, and nothing is written. -/
lemma move (h : Shows s p top) {row col : Nat} {kX kY : Int} (hx : kX = col) (hy : kY + top = row)
    (hcol : col ≤ 79) (habove : top ≤ row) :
    Shows { s with kX := kX, kY := kY } { p with row := row, col := col } top :=
  ⟨hx, hy, hcol, habove, h.colors, h.views, h.below⟩

/-- The window moves down to the row of the cursor. -/
lemma scroll (h : Shows s p top) (hrow : p.row = top + 25) : Shows (s.scrollup 1) p (top + 1) := by
  have hx := h.kX
  have hy := h.kY
  obtain ⟨hcell, hcolors⟩ := scrollCells_cell s 1
  have confined := Confined.scrollCells s 1
  have views := h.views.scroll (by decide : 80 * 25 = 2000) fun x _ => h.below (top + 25) x (le_refl _)
  rw [Nat.mul_one] at hcell
  rw [← hcell] at views
  unfold scrollup
  generalize s.scrollCells 1 = t at hcolors confined views ⊢
  have hlow : toChar (t.kY - ((1 : Nat) : Int)) = 24 := by
    rw [confined.kY, toChar_eq (by omega) (by omega)]
    omega
  have hlast : t.lowerRow 1 = { t with kY := 24 } := by
    unfold lowerRow
    dsimp only
    rw [hlow, if_neg (by decide)]
  rw [hlast]
  refine ⟨confined.kX.trans hx, ?_, h.column, by omega, hcolors.trans h.colors, views,
    fun r x hr => h.below r x (by omega)⟩
  change (24 : Int) + ((top + 1 : Nat) : Int) = p.row
  omega

/-- A character that is not printed only moves the cursor. -/
lemma moved (h : Shows s p top) {c : UInt8} (hc : ¬ TextPage.Printable c) {kX kY : Int}
    (hx : kX = (TextPage.place (p.row, p.col) c).2) (hy : kY + top = (TextPage.place (p.row, p.col) c).1)
    (hcol : (TextPage.place (p.row, p.col) c).2 ≤ 79) (habove : top ≤ (TextPage.place (p.row, p.col) c).1) :
    Shows { s with kX := kX, kY := kY } (p.character c) top := by
  unfold TextPage.character
  rw [if_neg hc]
  exact ⟨hx, hy, hcol, habove, h.colors, h.views, h.below⟩

/-- The attribute of a dark cell is stored again. -/
lemma dark (h : Shows s p top) (hrow : p.row < top + 25) (hdark : (p.cell p.row p.col).2 = 0) :
    Shows (s.store (RAMSCREEN + 2 * s.kX + 160 * s.kY + 1) 0) p top := by
  have habove := h.above
  have hat : top + (p.row - top) = p.row := by omega
  have hglyph := h.views (p.row - top) p.col (by omega) (Nat.lt_succ_of_le h.column)
  have hself : p.put (p.cell p.row p.col) = p := by
    unfold TextPage.put
    rw [Function.update_eq_self, Function.update_eq_self]
  rw [hat] at hglyph
  rw [← hself]
  refine h.put hrow _ ?_ rfl rfl rfl
  rw [h.address, cell_attr, hglyph, ← hdark]

/-- What a character does to the screen is what it does to the page. -/
lemma character (h : Shows s p top) (hrow : p.row < top + 25) (hdark : (p.cell p.row p.col).2 = 0)
    (c : UInt8) (htab : c = 9 → p.col < 72) : Shows (s.character c) (p.character c) top := by
  have hx := h.kX
  have hy := h.kY
  have hcol := h.column
  have habove := h.above
  have hdown : toChar (s.kY + 1) + top = (p.row + 1 : Nat) := by
    rw [toChar_eq (by omega) (by omega)]
    push_cast
    omega
  unfold Screen.character
  dsimp only
  by_cases h10 : c = 10
  · subst h10
    rw [if_pos rfl]
    exact h.moved (by decide) rfl hdown (Nat.zero_le _) (Nat.le_succ_of_le habove)
  rw [if_neg h10]
  by_cases h8 : c = 8
  · subst h8
    rw [if_pos rfl]
    by_cases h0 : s.kX = 0
    · rw [if_neg (not_not.2 h0)]
      have hstay : Shows { s with kX := s.kX, kY := s.kY } (p.character 8) top :=
        h.moved (by decide) (by change s.kX = (p.col - 1 : Nat); omega) hy (by change p.col - 1 ≤ 79; omega) habove
      exact hstay
    · have hback : toChar (s.kX - 1) = (p.col - 1 : Nat) := by
        rw [toChar_eq (by omega) (by omega)]
        omega
      rw [if_pos h0]
      exact (h.dark hrow hdark).moved (by decide) hback hy (by change p.col - 1 ≤ 79; omega) habove
  rw [if_neg h8]
  by_cases h9 : c = 9
  · subst h9
    have hlt := htab rfl
    rw [if_pos rfl]
    refine h.moved (by decide) ?_ hy ?_ habove
    · change toChar (s.kX + 8 - s.kX.tmod 8) = (p.col / 8 * 8 + 8 : Nat)
      rw [hx, Int.tmod_eq_emod_of_nonneg (by omega), toChar_eq (by omega) (by omega)]
      omega
    · change p.col / 8 * 8 + 8 ≤ 79
      omega
  rw [if_neg h9]
  by_cases h13 : c = 13
  · subst h13
    rw [if_pos rfl]
    exact h.moved (by decide) rfl hy (Nat.zero_le _) habove
  rw [if_neg h13]
  have printable : TextPage.Printable c := ⟨h10, h8, h9, h13⟩
  have hother : ¬ (c = 8 ∨ c = 9 ∨ c = 13) := not_or.2 ⟨h8, not_or.2 ⟨h9, h13⟩⟩
  have hnext : nextColumn p.col c = if p.col = 79 then 0 else p.col + 1 := by
    unfold nextColumn
    rw [if_neg (not_or.2 ⟨h10, h13⟩), if_neg h8, if_neg h9]
  have hright : toChar (s.kX + 1) = p.col + 1 := by
    rw [toChar_eq (by omega) (by omega)]
    omega
  have glyph := h.glyph hrow c
  unfold TextPage.character TextPage.place
  dsimp only
  rw [if_pos printable, if_neg h10, if_neg hother, hnext]
  by_cases hedge : p.col = 79
  · have hgt : toChar (s.kX + 1) > 79 := by omega
    rw [if_pos hedge, if_pos hedge]
    exact if_pos hgt ▸ ⟨rfl, hdown, Nat.zero_le _, Nat.le_succ_of_le habove, glyph.colors, glyph.views,
      glyph.below⟩
  · have hle : ¬ toChar (s.kX + 1) > 79 := by omega
    rw [if_neg hedge, if_neg hedge]
    exact if_neg hle ▸ ⟨hright, hy, by change p.col + 1 ≤ 79; omega, habove, glyph.colors, glyph.views, glyph.below⟩

end Shows

/-- The cursor is drawn, and the window is as low as the cursor needs. -/
structure Mirrors (s : Screen) (p : TextPage) : Prop where
  shows : s.Shows p p.top
  cursorX : s.cursorX = s.kX
  cursorY : s.cursorY = s.kY

/-- A character moves the cursor down by a row at most. -/
lemma place_row (k : Nat × Nat) (c : UInt8) : k.1 ≤ (TextPage.place k c).1 ∧ (TextPage.place k c).1 ≤ k.1 + 1 := by
  unfold TextPage.place
  dsimp only
  split_ifs <;> omega

namespace Mirrors

lemma boot (memory : Int → UInt8) : Mirrors (.boot memory) (.boot memory) := by
  refine ⟨⟨rfl, rfl, Nat.zero_le _, Nat.zero_le _, rfl, fun y x hy hx => ?_, fun r x hr => ?_⟩, rfl, rfl⟩
  · have hrow : (TextPage.boot memory).top + y < 25 := by
      change 8 - 24 + y < 25
      omega
    have hzero : (TextPage.boot memory).top + y = y := Nat.zero_add y
    change _ = if _ then _ else _
    rw [if_pos hrow, hzero]
    rfl
  · have hlow : ¬ r < 25 := by
      change 8 - 24 + 25 ≤ r at hr
      omega
    exact if_neg hlow

/-- `putcar` is a step of the page, seen through the window. -/
lemma putcar (h : Mirrors s p) (c : UInt8) (htab : c = 9 → p.col < 72) :
    Mirrors (s.putcar c) (p.step (.putcar c)) := by
  have hwindow : p.row < p.top + 25 := by
    unfold TextPage.top
    omega
  have hdark : (p.leave.cell p.row p.col).2 = 0 := by
    rw [TextPage.leave, TextPage.cell_put]
  have left := h.shows.leave hwindow h.cursorX h.cursorY
  have shows := left.character hwindow hdark c htab
  have hy := shows.kY
  obtain ⟨hle, hge⟩ := place_row (p.row, p.col) c
  have hrow : (p.leave.character c).row = (TextPage.place (p.row, p.col) c).1 := rfl
  unfold Screen.putcar
  dsimp only
  by_cases hscroll : (s.hideCursor.character c).kY > 24
  · have hone : ((s.hideCursor.character c).kY - 24).toNat = 1 := by omega
    have htop : p.top + 1 = (p.step (.putcar c)).top := by
      change p.top + 1 = (TextPage.place (p.row, p.col) c).1 - 24
      omega
    rw [if_pos hscroll, hone]
    refine ⟨?_, rfl, rfl⟩
    rw [← htop]
    exact (shows.scroll (by omega)).mark (by omega)
  · have htop : p.top = (p.step (.putcar c)).top := by
      change p.row - 24 = (TextPage.place (p.row, p.col) c).1 - 24
      have : p.top = p.row - 24 := rfl
      omega
    rw [if_neg hscroll]
    refine ⟨?_, rfl, rfl⟩
    rw [← htop]
    exact shows.mark (by omega)

end Mirrors

end Screen

section

variable {memory : Int → UInt8} {ops : List ScreenOp} {op : ScreenOp}

lemma pageAfter_append (more : List ScreenOp) :
    pageAfter memory (ops ++ more) = more.foldl TextPage.step (pageAfter memory ops) := List.foldl_append

/-- The column of the page is the one that the characters lead to. -/
lemma pageAfter_col (memory : Int → UInt8) (ops : List ScreenOp) :
    (pageAfter memory ops).col = columnOf ops := by
  induction ops using List.reverseRecOn with
  | nil => rfl
  | append_singleton ops op ih =>
    rw [pageAfter_append, columnOf_snoc, ← ih]
    cases op with
    | putcar c => rfl
    | color attr => rfl

/-- As long as no tab leaves the line the screen is the window on the page. -/
lemma screenAfter_mirrors (h : NoLateTab ops) : (screenAfter memory ops).Mirrors (pageAfter memory ops) := by
  induction ops using List.reverseRecOn with
  | nil => exact Screen.Mirrors.boot memory
  | append_singleton ops op ih =>
    obtain ⟨h, htab⟩ := noLateTab_snoc.1 h
    have mirrors := ih h
    rw [screenAfter_snoc, pageAfter_append]
    cases op with
    | putcar c => exact mirrors.putcar c fun e => by rw [pageAfter_col]; exact htab (by rw [e])
    | color attr =>
      obtain ⟨shows, hx, hy⟩ := mirrors
      exact ⟨⟨shows.kX, shows.kY, shows.column, shows.above,
        congrArg (fun x => (attr, x.2)) shows.colors, shows.views, shows.below⟩, hx, hy⟩

/-- A sequence without tabs. -/
lemma noLateTab_of_no_tab (h : .putcar 9 ∉ ops) : NoLateTab ops := fun before hb =>
  absurd (hb.subset (List.mem_append_right before (List.mem_singleton_self _))) h

end

/-- What the video memory holds is the last 25 rows of everything that was printed, up to the row of the
cursor, cell by cell with its attribute. -/
theorem screen_shows_page (memory : Int → UInt8) (ops : List ScreenOp) (h : NoLateTab ops) {x y : Nat}
    (hx : x < 80) (hy : y < 25) :
    (screenAfter memory ops).cell (80 * y + x) =
      (pageAfter memory ops).cell ((pageAfter memory ops).row - 24 + y) x :=
  (screenAfter_mirrors h).shows.views y x hy hx

/-- Twenty newlines and a letter: the window has moved by four rows. -/
theorem screen_shows_page_scrolled :
    (screenAfter (fun _ => 0) (List.replicate 20 (.putcar 10) ++ [.putcar 65])).cell (80 * 24 + 0) =
      (pageAfter (fun _ => 0) (List.replicate 20 (.putcar 10) ++ [.putcar 65])).cell
        ((pageAfter (fun _ => 0) (List.replicate 20 (.putcar 10) ++ [.putcar 65])).row - 24 + 24) 0 :=
  screen_shows_page (fun _ => 0) _ (noLateTab_of_no_tab (by decide)) (by decide) (by decide)

namespace TextPage

variable {p : TextPage} {r x : Nat} {c : UInt8}

/-- The cell stands in front of the cursor. -/
def Before (p : TextPage) (r x : Nat) : Prop := r < p.row ∨ (r = p.row ∧ x < p.col)

/-- A write at the cursor is not in front of it. -/
lemma put_before (h : p.Before r x) (a : Cell) : (p.put a).cell r x = p.cell r x := by
  unfold put
  dsimp only
  rcases h with h | ⟨rfl, h⟩
  · rw [Function.update_of_ne (by omega)]
  · rw [Function.update_self, Function.update_of_ne (by omega)]

/-- A character of a text is printed, or ends the line. -/
def Text : ScreenOp → Prop
  | .putcar c => Printable c ∨ c = 10
  | .color _ => True

/-- The cursor of a text goes forward. -/
lemma Before.place (h : p.Before r x) (hc : Printable c ∨ c = 10) : (p.character c).Before r x := by
  unfold Before TextPage.character TextPage.place nextColumn
  dsimp only
  rcases hc with ⟨h10, h8, h9, h13⟩ | rfl
  · rw [if_neg h10, if_neg (not_or.2 ⟨h8, not_or.2 ⟨h9, h13⟩⟩), if_neg (not_or.2 ⟨h10, h13⟩), if_neg h8,
      if_neg h9]
    rcases h with h | ⟨rfl, h⟩
    · split_ifs <;> omega
    · split_ifs <;> omega
  · rw [if_pos rfl]
    rcases h with h | ⟨rfl, h⟩
    · omega
    · omega

/-- The cursor stands behind a character that was just printed. -/
lemma character_before (hc : Printable c) : (p.character c).Before p.row p.col := by
  obtain ⟨h10, h8, h9, h13⟩ := hc
  unfold Before TextPage.character TextPage.place nextColumn
  dsimp only
  rw [if_neg h10, if_neg (not_or.2 ⟨h8, not_or.2 ⟨h9, h13⟩⟩), if_neg (not_or.2 ⟨h10, h13⟩), if_neg h8,
    if_neg h9]
  split_ifs <;> omega

/-- What stands in front of the cursor of a text is not written again. -/
lemma step_before {op : ScreenOp} (hop : Text op) (h : p.Before r x) :
    (p.step op).Before r x ∧ (p.step op).cell r x = p.cell r x := by
  cases op with
  | color attr => exact ⟨h, rfl⟩
  | putcar c =>
    have left : p.leave.Before r x := h
    have forward := left.place hop
    refine ⟨forward, (put_before forward _).trans ?_⟩
    have hcharacter : (p.leave.character c).cell r x = p.leave.cell r x := by
      unfold character
      dsimp only
      split
      · exact put_before left _
      · rfl
    exact hcharacter.trans (put_before h _)

lemma text_before {ops : List ScreenOp} (hops : ∀ op ∈ ops, Text op) (h : p.Before r x) :
    (ops.foldl step p).cell r x = p.cell r x := by
  induction ops generalizing p with
  | nil => rfl
  | cons op ops ih =>
    obtain ⟨forward, hcell⟩ := step_before (hops op (List.mem_cons_self ..)) h
    rw [List.foldl_cons, ih (fun o ho => hops o (List.mem_cons_of_mem _ ho)) forward, hcell]

/-- A printed character stands in the cell of the cursor. -/
lemma step_printed (hc : Printable c) :
    (p.step (.putcar c)).Before p.row p.col ∧ (p.step (.putcar c)).cell p.row p.col = (c, p.attr) := by
  have behind : (p.leave.character c).Before p.row p.col := character_before (p := p.leave) hc
  refine ⟨behind, (put_before behind _).trans ?_⟩
  unfold character
  rw [if_pos hc]
  exact cell_put p.leave (c, p.attr)

/-- The cursor never goes up. -/
lemma row_le (p : TextPage) (ops : List ScreenOp) : p.row ≤ (ops.foldl step p).row := by
  induction ops generalizing p with
  | nil => exact le_refl _
  | cons op ops ih =>
    have hstep : p.row ≤ (p.step op).row := by
      cases op with
      | putcar c => exact (Screen.place_row (p.row, p.col) c).1
      | color attr => exact le_refl _
    exact hstep.trans (ih (p.step op))

end TextPage

/-- A text has no tab. -/
lemma noLateTab_append {ops text : List ScreenOp} (h : NoLateTab ops) (htext : ∀ op ∈ text, op ≠ .putcar 9) :
    NoLateTab (ops ++ text) := by
  induction text using List.reverseRecOn with
  | nil => rwa [List.append_nil]
  | append_singleton text op ih =>
    rw [← List.append_assoc]
    refine noLateTab_snoc.2 ⟨ih fun o ho => htext o (List.mem_append_left _ ho), fun e => ?_⟩
    exact absurd e (htext op (List.mem_append_right _ (List.mem_singleton_self _)))

lemma TextPage.Text.no_tab {op : ScreenOp} (h : TextPage.Text op) : op ≠ .putcar 9 := by
  rintro rfl
  rcases h with ⟨-, -, h, -⟩ | h
  · exact h rfl
  · exact absurd h (by decide)

/-- A character that was printed stays on the screen with its color, in its column and as many rows higher
as the screen has scrolled since, whatever text and colors follow, until its row leaves the screen. -/
theorem printed_text_stays (memory : Int → UInt8) (ops text : List ScreenOp) (c : UInt8)
    (h : NoLateTab ops) (hc : TextPage.Printable c) (htext : ∀ op ∈ text, TextPage.Text op)
    (hrow : (pageAfter memory (ops ++ .putcar c :: text)).row ≤ (pageAfter memory ops).row + 24) :
    (screenAfter memory (ops ++ .putcar c :: text)).cell
      (80 * ((pageAfter memory ops).row - ((pageAfter memory (ops ++ .putcar c :: text)).row - 24)) +
        columnOf ops) = (c, (screenAfter memory ops).kattr) := by
  have mirrors : (screenAfter memory ops).Mirrors (pageAfter memory ops) := screenAfter_mirrors h
  have hlate : NoLateTab (ops ++ .putcar c :: text) := noLateTab_append h fun op ho => by
    rcases List.mem_cons.1 ho with rfl | ho
    · exact TextPage.Text.no_tab (.inl hc)
    · exact (htext op ho).no_tab
  have later : (screenAfter memory (ops ++ .putcar c :: text)).Mirrors _ := screenAfter_mirrors hlate
  have views := later.shows.views
  obtain ⟨behind, hcell⟩ := TextPage.step_printed (p := pageAfter memory ops) hc
  have hkept := TextPage.text_before htext behind
  have hdown := TextPage.row_le (pageAfter memory ops) (.putcar c :: text)
  rw [← List.foldl_cons (f := TextPage.step), ← pageAfter_append, hcell] at hkept
  rw [← pageAfter_append] at hdown
  have hcol := mirrors.shows.column
  rw [pageAfter_col] at hcol hkept
  have hattr : (screenAfter memory ops).kattr = (pageAfter memory ops).attr :=
    congrArg Prod.fst mirrors.shows.colors
  have hat : (pageAfter memory (ops ++ .putcar c :: text)).top + ((pageAfter memory ops).row -
      ((pageAfter memory (ops ++ .putcar c :: text)).row - 24)) = (pageAfter memory ops).row := by
    unfold TextPage.top
    omega
  rw [views _ _ (by omega) (Nat.lt_succ_of_le hcol), hat, hattr]
  exact hkept

/-- A letter in row 28 with nine newlines behind it. -/
theorem printed_text_stays_line :
    (screenAfter (fun _ => 0) (List.replicate 20 (.putcar 10) ++ .putcar 65 :: List.replicate 9 (.putcar 10))).cell
      (80 * ((pageAfter (fun _ => 0) (List.replicate 20 (.putcar 10))).row -
        ((pageAfter (fun _ => 0) (List.replicate 20 (.putcar 10) ++ .putcar 65 ::
          List.replicate 9 (.putcar 10))).row - 24)) + columnOf (List.replicate 20 (.putcar 10))) =
      (65, (screenAfter (fun _ => 0) (List.replicate 20 (.putcar 10))).kattr) := by
  refine printed_text_stays (fun _ => 0) _ _ 65 (noLateTab_of_no_tab (by decide)) (by decide) (fun op ho => ?_)
    (by decide)
  rw [List.eq_of_mem_replicate ho]
  exact .inr rfl

end Creeks
