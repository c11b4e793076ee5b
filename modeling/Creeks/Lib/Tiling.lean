import Creeks.Lib.Run

/-!
# Blocks laid end to end

`Tiling m size a l b`: starting at `a` and stepping by the size each block records, the blocks visited
are those of `l`, every one has size at least `m`, and the walk lands exactly on `b`. This is the
shape of a heap whose headers are stored in the memory they divide. The three edits an allocator
makes are `Tiling.grow` (a block appended at the end), `Tiling.split` and `Tiling.join`.
-/

namespace Creeks.Lib

/-- The blocks `l` tile `[a, b)`, each of size at least `m`. -/
inductive Tiling (m : Nat) (size : Nat → Nat) : Nat → List Nat → Nat → Prop where
  | nil {a} : Tiling m size a [] a
  | cons {a l b} :
    m ≤ size a →
    Tiling m size (a + size a) l b →
    Tiling m size a (a :: l) b

namespace Tiling

variable {m : Nat} {size size' : Nat → Nat} {a b c : Nat} {l r : List Nat}

/-- A tiled interval does not end before it starts. -/
lemma le (h : Tiling m size a l b) : a ≤ b := by
  induction h with
  | nil => exact le_refl _
  | cons _ _ ih => omega

/-- Two tilings that meet are a tiling. -/
lemma append (h : Tiling m size a l b) (h' : Tiling m size b r c) :
    Tiling m size a (l ++ r) c := by
  induction h with
  | nil => exact h'
  | cons hm _ ih => exact .cons hm (ih h')

/-- A tiling around one of its blocks. -/
lemma split_at {x : Nat} (h : Tiling m size a (l ++ x :: r) b) :
    Tiling m size a l x ∧ m ≤ size x ∧ Tiling m size (x + size x) r b := by
  induction l generalizing a with
  | nil =>
    cases h with
    | cons hm ht => exact ⟨.nil, hm, ht⟩
  | cons y l ih =>
    cases h with
    | cons hm ht =>
      obtain ⟨h1, h2, h3⟩ := ih ht
      exact ⟨.cons hm h1, h2, h3⟩

/-- Every block of a tiling has the minimal size and lies inside the interval. -/
lemma mem_bounds (h : Tiling m size a l b) {x : Nat} (hx : x ∈ l) :
    a ≤ x ∧ m ≤ size x ∧ x + size x ≤ b := by
  induction h with
  | nil => cases hx
  | cons hm ht ih =>
    have hle := ht.le
    cases hx with
    | head => exact ⟨le_refl _, hm, hle⟩
    | tail _ hx =>
      obtain ⟨h1, h2, h3⟩ := ih hx
      exact ⟨by omega, h2, h3⟩

/-- Two different blocks of a tiling do not overlap. -/
lemma disjoint (h : Tiling m size a l b) {x y : Nat} (hx : x ∈ l) (hy : y ∈ l) (hne : x ≠ y) :
    x + size x ≤ y ∨ y + size y ≤ x := by
  induction h with
  | nil => cases hx
  | cons hm ht ih =>
    cases hx with
    | head =>
      cases hy with
      | head => exact absurd rfl hne
      | tail _ hy => exact .inl (ht.mem_bounds hy).1
    | tail _ hx =>
      cases hy with
      | head => exact .inr (ht.mem_bounds hx).1
      | tail _ hy => exact ih hx hy

/-- The blocks of a tiling are pairwise different. -/
lemma nodup (hm : 0 < m) (h : Tiling m size a l b) : l.Nodup := by
  induction h with
  | nil => exact List.nodup_nil
  | @cons a l b hsz ht ih =>
    refine List.nodup_cons.2 ⟨fun hx => ?_, ih⟩
    have := (ht.mem_bounds hx).1
    omega

/-- A tiling only depends on the sizes its blocks record. -/
lemma congr (h : Tiling m size a l b) (e : ∀ x ∈ l, size' x = size x) :
    Tiling m size' a l b := by
  induction h with
  | nil => exact .nil
  | @cons a l b hm ht ih =>
    have ea := e a List.mem_cons_self
    refine .cons (ea ▸ hm) ?_
    rw [ea]
    exact ih fun x hx => e x (List.mem_cons_of_mem _ hx)

/-- The sizes of the blocks of a tiling add up to the length of the interval. -/
lemma sum_size (h : Tiling m size a l b) : a + (l.map size).sum = b := by
  induction h with
  | nil => rfl
  | cons _ _ ih =>
    rw [List.map_cons, List.sum_cons, ← Nat.add_assoc]
    exact ih

/-- A tiling has at most as many blocks as the minimal size fits. -/
lemma length_le (h : Tiling m size a l b) : a + m * l.length ≤ b := by
  induction h with
  | nil => simp
  | cons hm _ ih =>
    rw [List.length_cons, Nat.mul_succ]
    omega

/-- The blocks are decided by the sizes they record. -/
lemma unique (hm : 0 < m) (h : Tiling m size a l b) (h' : Tiling m size a r b) : l = r := by
  induction h generalizing r with
  | nil =>
    cases h' with
    | nil => rfl
    | cons hsz ht =>
      have := ht.le
      omega
  | @cons a l b hsz ht ih =>
    cases h' with
    | nil =>
      have := ht.le
      omega
    | cons hsz' ht' => rw [ih ht']

/-- Appending one block at the end. -/
lemma grow (h : Tiling m size a l b) (e : ∀ x ∈ l, size' x = size x) (hm : m ≤ size' b) :
    Tiling m size' a (l ++ [b]) (b + size' b) :=
  (h.congr e).append (.cons hm .nil)

/-- Dividing a block in two. -/
lemma split {x n : Nat} (h : Tiling m size a (l ++ x :: r) b)
    (el : ∀ y ∈ l, size' y = size y) (er : ∀ y ∈ r, size' y = size y)
    (hx : size' x = n) (hy : size' (x + n) = size x - n) (h1 : m ≤ n) (h2 : m ≤ size x - n)
    (hn : n ≤ size x) :
    Tiling m size' a (l ++ x :: (x + n) :: r) b := by
  obtain ⟨hl, -, hr⟩ := h.split_at
  refine (hl.congr el).append (.cons (by omega) ?_)
  rw [hx]
  refine .cons (by omega) ?_
  rw [hy, show x + n + (size x - n) = x + size x by omega]
  exact hr.congr er

/-- Merging a block with the one after it. -/
lemma join {x y : Nat} (h : Tiling m size a (l ++ x :: y :: r) b)
    (el : ∀ z ∈ l, size' z = size z) (er : ∀ z ∈ r, size' z = size z)
    (hx : size' x = size x + size y) :
    y = x + size x ∧ Tiling m size' a (l ++ x :: r) b := by
  obtain ⟨hl, hm, hr⟩ := h.split_at
  cases hr with
  | cons hm' hr =>
    refine ⟨rfl, (hl.congr el).append (.cons (by omega) ?_)⟩
    rw [hx, ← Nat.add_assoc]
    exact hr.congr er

end Tiling

end Creeks.Lib
