import Creeks.Lib.Run

/-!
# Rotations

A function that takes each element of a list to the one behind it, and the last element back to the
first, visits the whole list from any of its elements in as many steps as the list is long. This is
the shape of a round-robin selection.
-/

namespace Creeks.Lib

variable {α : Type*}

/-- `f` steps through `xs` and from its end back to its head. -/
structure Rotates (f : α → α) (xs : List α) : Prop where
  next : ∀ l a b r, xs = l ++ a :: b :: r → f a = b
  wrap : ∀ h l a, xs.head? = some h → xs = l ++ [a] → f a = h

namespace Rotates

variable {f : α → α} {xs : List α}

/-- From an element of the list `f` visits the elements behind it. -/
lemma walk (rot : Rotates f xs) (zs : List α) :
    ∀ {l : List α} {c : α} {r : List α}, xs = l ++ c :: (zs ++ r) →
      List.iterate f (f c) zs.length = zs ∧ f^[zs.length] c = (c :: zs).getLast (by simp) := by
  induction zs with
  | nil => exact fun _ => ⟨rfl, rfl⟩
  | cons z zs ih =>
    intro l c r e
    have hz : f c = z := rot.next l c z (zs ++ r) e
    obtain ⟨h1, h2⟩ := ih (l := l ++ [c]) (c := z) (r := r) (by simpa using e)
    refine ⟨?_, ?_⟩
    · rw [List.length_cons, List.iterate, hz, h1]
    · rw [List.length_cons, Function.iterate_succ_apply, hz, h2,
        List.getLast_cons (List.cons_ne_nil z zs)]

/-- From any element `f` visits what is behind it, then what is before it, then the element. -/
lemma round (rot : Rotates f xs) {ys zs : List α} {c : α} (e : xs = ys ++ c :: zs) :
    List.iterate f (f c) xs.length = zs ++ (ys ++ [c]) := by
  obtain ⟨h, mid, hm⟩ : ∃ h mid, ys ++ [c] = h :: mid := by
    cases ys with
    | nil => exact ⟨c, [], rfl⟩
    | cons y ys => exact ⟨y, ys ++ [c], rfl⟩
  have e' : xs = h :: (mid ++ zs) := by
    rw [e, ← List.cons_append, ← hm]
    simp
  obtain ⟨h1, h2⟩ := rot.walk zs (l := ys) (c := c) (r := []) (by simpa using e)
  obtain ⟨h3, -⟩ := rot.walk mid (l := []) (c := h) (r := zs) e'
  have hlast : f (f^[zs.length] c) = h := by
    obtain ⟨l, hl⟩ : ∃ l, xs = l ++ [(c :: zs).getLast (by simp)] := by
      refine ⟨ys ++ (c :: zs).dropLast, ?_⟩
      rw [List.append_assoc, List.dropLast_append_getLast, e]
    rw [h2]
    exact rot.wrap h l _ (by rw [e']; rfl) hl
  have hlen : xs.length = zs.length + (mid.length + 1) := by
    rw [e', List.length_cons, List.length_append]
    omega
  rw [hlen, List.iterate_add, h1, hm, ← Function.iterate_succ_apply, Function.iterate_succ_apply',
    hlast, List.iterate, h3]

/-- One round is a permutation of the list. -/
lemma round_perm (rot : Rotates f xs) {c : α} (hc : c ∈ xs) :
    (List.iterate f (f c) xs.length).Perm xs := by
  obtain ⟨ys, zs, e⟩ := List.append_of_mem hc
  rw [rot.round e, e]
  have h : (ys ++ [c]) ++ zs = ys ++ c :: zs := by simp
  rw [← h]
  exact List.perm_append_comm

/-- `f` stays in the list. -/
lemma mem (rot : Rotates f xs) {c : α} (hc : c ∈ xs) : f c ∈ xs := by
  obtain ⟨n, hn⟩ : ∃ n, xs.length = n + 1 := by
    cases xs with
    | nil => cases hc
    | cons x xs => exact ⟨xs.length, rfl⟩
  refine (rot.round_perm hc).subset ?_
  rw [hn, List.iterate]
  exact List.mem_cons_self

end Rotates

end Creeks.Lib
