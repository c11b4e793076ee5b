import Mathlib.Data.List.Basic
import Mathlib.Logic.Function.Basic

/-!
# Windows

A window of `N` cells that is moved down in place: every cell takes the one `k` behind it, in rising order,
and the last `k` are cleared. The order is what makes it right: a cell is read before it is overwritten.
-/

namespace Creeks.Lib

variable {α : Type*}

/-- A round of the loop: cell `i` takes the cell `k` behind it. -/
def shiftCell (N k : Nat) (blank : α) (m : Nat → α) (i : Nat) : Nat → α :=
  Function.update m i (if i + k < N then m (i + k) else blank)

lemma shiftCell_self (N k : Nat) (blank : α) (m : Nat → α) (i : Nat) :
    shiftCell N k blank m i i = if i + k < N then m (i + k) else blank := Function.update_self ..

lemma shiftCell_other (N k : Nat) (blank : α) (m : Nat → α) {i j : Nat} (h : j ≠ i) :
    shiftCell N k blank m i j = m j := Function.update_of_ne h ..

/-- The first `n` cells have been moved. -/
lemma foldl_shiftCell (N k : Nat) (blank : α) (m : Nat → α) (n i : Nat) :
    (List.range n).foldl (shiftCell N k blank) m i =
      if i < n then (if i + k < N then m (i + k) else blank) else m i := by
  induction n generalizing i with
  | zero =>
    rw [if_neg (Nat.not_lt_zero i)]
    rfl
  | succ n ih =>
    rw [List.range_succ, List.foldl_append, List.foldl_cons, List.foldl_nil]
    by_cases hi : i = n
    · subst hi
      rw [shiftCell_self, if_pos (Nat.lt_succ_self i), ih, if_neg (Nat.not_lt.2 (Nat.le_add_right i k))]
    · rw [shiftCell_other _ _ _ _ hi, ih]
      by_cases hlt : i < n
      · rw [if_pos hlt, if_pos (Nat.lt_succ_of_lt hlt)]
      · rw [if_neg hlt, if_neg fun h => hi (Nat.le_antisymm (Nat.le_of_lt_succ h) (Nat.not_lt.1 hlt))]

/-- A window on row `top` of a page of rows of `w` cells: cell `w * y + x` shows column `x` of row
`top + y`. -/
def Views (w h : Nat) (m : Nat → α) (page : Nat → Nat → α) (top : Nat) : Prop :=
  ∀ y x, y < h → x < w → m (w * y + x) = page (top + y) x

/-- Two cells of a window are the same only if their rows and columns are. -/
lemma cell_inj {w x y x' y' : Nat} (hx : x < w) (hx' : x' < w) (h : w * y + x = w * y' + x') :
    y = y' ∧ x = x' := by
  have hpos : 0 < w := by omega
  have hy : (w * y + x) / w = y := by
    rw [Nat.mul_add_div hpos, Nat.div_eq_of_lt hx, Nat.add_zero]
  have hy' : (w * y' + x') / w = y' := by
    rw [Nat.mul_add_div hpos, Nat.div_eq_of_lt hx', Nat.add_zero]
  have hrow : y = y' := by rw [← hy, ← hy', h]
  subst hrow
  exact ⟨rfl, by omega⟩

/-- A cell is written in the window and on the page. -/
lemma Views.update {w h top x y : Nat} {m : Nat → α} {page : Nat → Nat → α} (v : Views w h m page top)
    (hx : x < w) (a : α) : Views w h (Function.update m (w * y + x) a)
      (Function.update page (top + y) (Function.update (page (top + y)) x a)) top := by
  intro y' x' hy' hx'
  by_cases hrow : y' = y
  · subst hrow
    rw [Function.update_self]
    by_cases hcol : x' = x
    · subst hcol
      rw [Function.update_self, Function.update_self]
    · rw [Function.update_of_ne hcol, Function.update_of_ne (by omega)]
      exact v y' x' hy' hx'
  · have hne : w * y' + x' ≠ w * y + x := fun e => hrow (cell_inj hx' hx e).1
    rw [Function.update_of_ne hne, Function.update_of_ne (by omega)]
    exact v y' x' hy' hx'

/-- The window is moved one row down, to a row that is still blank. -/
lemma Views.scroll {w h N top : Nat} (hN : w * h = N) {m : Nat → α} {page : Nat → Nat → α} {blank : α}
    (v : Views w h m page top) (hblank : ∀ x, x < w → page (top + h) x = blank) :
    Views w h ((List.range N).foldl (shiftCell N w blank) m) page (top + 1) := by
  subst hN
  intro y x hy hx
  have hin : w * y + x < w * h := calc
    w * y + x < w * y + w := by omega
    _ = w * (y + 1) := (Nat.mul_succ w y).symm
    _ ≤ w * h := Nat.mul_le_mul_left w hy
  have hnext : w * y + x + w = w * (y + 1) + x := by rw [Nat.mul_succ]; omega
  rw [foldl_shiftCell, if_pos hin, hnext]
  by_cases hlast : y + 1 < h
  · have hin' : w * (y + 1) + x < w * h := calc
      w * (y + 1) + x < w * (y + 1) + w := by omega
      _ = w * (y + 1 + 1) := (Nat.mul_succ w (y + 1)).symm
      _ ≤ w * h := Nat.mul_le_mul_left w hlast
    rw [if_pos hin', v (y + 1) x hlast hx]
    congr 1
    omega
  · have hy : y + 1 = h := by omega
    rw [hy, if_neg (by omega), show top + 1 + y = top + h by omega]
    exact (hblank x hx).symm

end Creeks.Lib
