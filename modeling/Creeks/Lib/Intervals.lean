import Creeks.Lib.Run

/-!
# Lists of spaced intervals

A free list keeps half-open intervals in increasing order, none of them empty and no two of them
touching (`Spaced`): it is then the shortest list that covers what it covers (`Covers`). The elements
are of any type with a lower and an upper bound.

`scan` walks to the first interval above a point and keeps what it has passed, last element first.
Every edit of such a list replaces a stretch of it by one element or by none: `Spaced.replace` and
`covers_replace` say what that does, once for taking, extending, joining and inserting.
-/

namespace Creeks.Lib

variable {α : Type*} (lo hi : α → Nat)

/-- Non-empty intervals in increasing order with a gap between any two. -/
structure Spaced (l : List α) : Prop where
  apart : l.Pairwise fun a b => hi a < lo b
  nonempty : ∀ a ∈ l, lo a < hi a

/-- The point `x` lies in one of the intervals of `l`. -/
def Covers (l : List α) (x : Nat) : Prop := ∃ a ∈ l, lo a ≤ x ∧ x < hi a

/-- The walk to the first interval that starts above `v`: the intervals passed, last one first, and
the rest. -/
def scan (v : Nat) : List α → List α → List α × List α
  | before, [] => (before, [])
  | before, a :: l => if lo a > v then (before, a :: l) else scan v (a :: before) l

variable {lo hi} {l r mid : List α} {a b q : α} {x v : Nat}

@[simp] lemma covers_nil : ¬ Covers lo hi [] x := fun ⟨_, h, _⟩ => nomatch h

@[simp] lemma covers_cons :
    Covers lo hi (a :: l) x ↔ (lo a ≤ x ∧ x < hi a) ∨ Covers lo hi l x := by
  simp [Covers]

@[simp] lemma covers_append :
    Covers lo hi (l ++ r) x ↔ Covers lo hi l x ∨ Covers lo hi r x := by
  simp [Covers, or_and_right, exists_or]

@[simp] lemma covers_reverse : Covers lo hi l.reverse x ↔ Covers lo hi l x := by
  simp [Covers]

namespace Spaced

lemma singleton (h : lo a < hi a) : Spaced lo hi [a] :=
  ⟨List.pairwise_singleton _ _, fun b hb => by cases List.mem_singleton.1 hb; exact h⟩

/-- Two spaced lists make one when there is a gap between them. -/
lemma append_iff : Spaced lo hi (l ++ r) ↔
    Spaced lo hi l ∧ Spaced lo hi r ∧ ∀ a ∈ l, ∀ b ∈ r, hi a < lo b := by
  constructor
  · rintro ⟨h1, h2⟩
    obtain ⟨hl, hr, hlr⟩ := List.pairwise_append.1 h1
    exact ⟨⟨hl, fun a ha => h2 a (List.mem_append_left _ ha)⟩,
      ⟨hr, fun a ha => h2 a (List.mem_append_right _ ha)⟩, hlr⟩
  · rintro ⟨hl, hr, hlr⟩
    refine ⟨List.pairwise_append.2 ⟨hl.apart, hr.apart, hlr⟩, fun a ha => ?_⟩
    rcases List.mem_append.1 ha with h | h
    · exact hl.nonempty a h
    · exact hr.nonempty a h

lemma cons_iff : Spaced lo hi (a :: l) ↔
    lo a < hi a ∧ Spaced lo hi l ∧ ∀ b ∈ l, hi a < lo b := by
  constructor
  · rintro ⟨h1, h2⟩
    obtain ⟨ha, hl⟩ := List.pairwise_cons.1 h1
    exact ⟨h2 a List.mem_cons_self, ⟨hl, fun b hb => h2 b (List.mem_cons_of_mem _ hb)⟩, ha⟩
  · rintro ⟨ha, hl, hal⟩
    refine ⟨List.pairwise_cons.2 ⟨hal, hl.apart⟩, fun b hb => ?_⟩
    rcases List.mem_cons.1 hb with rfl | hb
    · exact ha
    · exact hl.nonempty b hb

/-- A stretch of the list is replaced by one interval with a gap on both sides. -/
lemma replace (h : Spaced lo hi (l ++ mid ++ r)) (hq : lo q < hi q)
    (hl : ∀ a ∈ l, hi a < lo q) (hr : ∀ b ∈ r, hi q < lo b) : Spaced lo hi (l ++ q :: r) := by
  obtain ⟨h1, h2, h3⟩ := append_iff.1 h
  obtain ⟨h4, -, -⟩ := append_iff.1 h1
  refine append_iff.2 ⟨h4, cons_iff.2 ⟨hq, h2, hr⟩, fun a ha b hb => ?_⟩
  rcases List.mem_cons.1 hb with rfl | hb
  · exact hl a ha
  · exact h3 a (List.mem_append_left _ ha) b hb

end Spaced

/-- An interval that starts at or below a point that is not covered ends at or below it. -/
lemma hi_le_of_not_covers (hv : ¬ Covers lo hi l v) (ha : a ∈ l) (hlo : lo a ≤ v) : hi a ≤ v := by
  by_contra hlt
  exact hv ⟨a, ha, hlo, not_le.1 hlt⟩

/-- What is covered after a stretch `mid` has been replaced by an interval that covers `mid` and the
points of `B`. -/
lemma covers_replace {B : Prop} (h : (lo q ≤ x ∧ x < hi q) ↔ Covers lo hi mid x ∨ B) :
    Covers lo hi (l ++ q :: r) x ↔ Covers lo hi (l ++ mid ++ r) x ∨ B := by
  simp only [covers_append, covers_cons, h]
  tauto

/-- The walk splits the list, passes only intervals that start at or below `v`, and stops at one that
starts above. -/
lemma scan_spec (before : List α) (hb : ∀ a ∈ before, lo a ≤ v) :
    (scan lo v before l).1.reverse ++ (scan lo v before l).2 = before.reverse ++ l ∧
      (∀ a ∈ (scan lo v before l).1, lo a ≤ v) ∧
      ∀ a ∈ (scan lo v before l).2.head?, v < lo a := by
  induction l generalizing before with
  | nil => exact ⟨rfl, hb, nofun⟩
  | cons a l ih =>
    rw [scan]
    split
    case isTrue h =>
      refine ⟨rfl, hb, fun b hb' => ?_⟩
      cases hb'
      exact h
    case isFalse h =>
      obtain ⟨h1, h2, h3⟩ := ih (a :: before) (by
        intro b hb'
        rcases List.mem_cons.1 hb' with rfl | hb'
        · exact not_lt.1 h
        · exact hb b hb')
      exact ⟨by rw [h1]; simp, h2, h3⟩

/-- In a spaced list every interval after the walk starts above `v`. -/
lemma scan_above (h : Spaced lo hi r) (hhead : ∀ a ∈ r.head?, v < lo a) : ∀ a ∈ r, v < lo a := by
  cases r with
  | nil => exact nofun
  | cons b r =>
    obtain ⟨hb, -, hbr⟩ := Spaced.cons_iff.1 h
    have hv : v < lo b := hhead b rfl
    intro a ha
    rcases List.mem_cons.1 ha with rfl | ha
    · exact hv
    · have := hbr a ha
      omega

end Creeks.Lib
