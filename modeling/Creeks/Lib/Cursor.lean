import Mathlib

/-!
# Reading a sequence in pieces

`readAt l p n` is what a reader at position `p` gets when it asks for `n` elements, and `readsFrom` the
pieces of successive reads, each from where the one before it stopped. `flatten_readsFrom` says that the
pieces put together are a prefix of what was left, and `readsFrom_eof` that they are all of it once a
read of at least one element gives nothing.
-/

namespace Creeks.Lib

variable {α : Type*}

/-- At most `n` elements from position `p` on. -/
def readAt (l : List α) (p n : Nat) : List α := (l.drop p).take n

/-- Successive reads, the first at position `p`. -/
def readsFrom (l : List α) : Nat → List Nat → List (List α)
  | _, [] => []
  | p, n :: ns => readAt l p n :: readsFrom l (p + (readAt l p n).length) ns

/-- The length of a piece. -/
lemma length_readAt (l : List α) (p n : Nat) : (readAt l p n).length = min n (l.length - p) := by
  rw [readAt, List.length_take, List.length_drop]

/-- A piece and what is left after it. -/
lemma readAt_append_drop (l : List α) (p n : Nat) :
    readAt l p n ++ l.drop (p + (readAt l p n).length) = l.drop p := by
  have h : l.drop (p + (readAt l p n).length) = (l.drop p).drop n := by
    rw [length_readAt, List.drop_drop]
    rcases Nat.le_total n (l.length - p) with hle | hle
    · rw [Nat.min_eq_left hle]
    · rw [Nat.min_eq_right hle, List.drop_eq_nil_of_le (by omega), List.drop_eq_nil_of_le (by omega)]
  rw [h]
  exact List.take_append_drop n (l.drop p)

/-- A read of at least one element gives nothing only at the end. -/
lemma drop_of_readAt_nil {l : List α} {p n : Nat} (hn : 0 < n) (h : readAt l p n = []) :
    l.drop p = [] := by
  rcases List.take_eq_nil_iff.1 h with rfl | h
  · exact absurd hn (Nat.lt_irrefl 0)
  · exact h

/-- The pieces put together are a prefix of what was left. -/
lemma flatten_readsFrom (l : List α) (p : Nat) (ns : List Nat) :
    (readsFrom l p ns).flatten <+: l.drop p := by
  induction ns generalizing p with
  | nil => exact List.nil_prefix
  | cons n ns ih =>
    rw [readsFrom, List.flatten_cons, ← readAt_append_drop l p n]
    exact (List.prefix_append_right_inj _).2 (ih _)

/-- Once a read of at least one element gives nothing, the pieces before it are all there was. -/
lemma readsFrom_eof {l : List α} {p : Nat} {ns : List Nat} {i n : Nat} (hn : ns[i]? = some n)
    (hpos : 0 < n) (hnil : (readsFrom l p ns)[i]? = some []) :
    ((readsFrom l p ns).take i).flatten = l.drop p := by
  induction ns generalizing p i with
  | nil => cases hn
  | cons m ns ih =>
    cases i with
    | zero =>
      cases hn
      have h : readAt l p n = [] := Option.some.inj hnil
      exact (drop_of_readAt_nil hpos h).symm
    | succ i =>
      rw [readsFrom, List.take_succ_cons, List.flatten_cons, ih hn hnil, readAt_append_drop]

end Creeks.Lib
