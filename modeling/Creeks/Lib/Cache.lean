import Creeks.Lib.Memory

/-!
# Filling a cache

A cache is a list of entries, each under a key. `insertNew` adds an entry at the front unless its key is
there, and `insertAll` does so for a list of entries. `insertAll_complete` says when the result holds
every entry of a larger list.
-/

namespace Creeks.Lib

variable {α κ : Type*} [DecidableEq κ] (key : α → κ)

/-- Add an entry unless its key is cached. -/
def insertNew (cache : List α) (x : α) : List α :=
  if key x ∈ cache.map key then cache else x :: cache

/-- Add the entries of a list, the first one first. -/
def insertAll (cache : List α) (xs : List α) : List α := xs.foldl (insertNew key) cache

variable {key} {cache xs : List α} {x y : α}

lemma insertNew_suffix : cache <:+ insertNew key cache x := by
  rw [insertNew]
  split
  · exact List.suffix_refl _
  · exact List.suffix_cons _ _

/-- The cache is what the result ends with. -/
lemma insertAll_suffix : cache <:+ insertAll key cache xs := by
  induction xs generalizing cache with
  | nil => exact List.suffix_refl _
  | cons x xs ih => exact insertNew_suffix.trans ih

/-- The entries of the result were cached or were added. -/
lemma mem_insertAll (h : y ∈ insertAll key cache xs) : y ∈ cache ∨ y ∈ xs := by
  induction xs generalizing cache with
  | nil => exact .inl h
  | cons x xs ih =>
    rcases ih h with h' | h'
    · rw [insertNew] at h'
      split at h'
      · exact .inl h'
      · cases h' with
        | head => exact .inr (.head _)
        | tail _ h' => exact .inl h'
    · exact .inr (.tail _ h')

/-- Every key of the list is in the result. -/
lemma key_mem_insertAll (h : x ∈ xs) : key x ∈ (insertAll key cache xs).map key := by
  induction xs generalizing cache with
  | nil => cases h
  | cons z xs ih =>
    cases h with
    | head =>
      have hnew : key x ∈ (insertNew key cache x).map key := by
        rw [insertNew]
        split
        case isTrue h => exact h
        case isFalse => exact .head _
      obtain ⟨y, hy, e⟩ := List.mem_map.1 hnew
      have hsuf : insertNew key cache x <:+ insertAll key (insertNew key cache x) xs :=
        insertAll_suffix
      exact List.mem_map.2 ⟨y, hsuf.subset hy, e⟩
    | tail _ h => exact ih h

/-- No key comes twice. -/
lemma nodup_insertAll (h : (cache.map key).Nodup) : ((insertAll key cache xs).map key).Nodup := by
  induction xs generalizing cache with
  | nil => exact h
  | cons x xs ih =>
    apply ih
    rw [insertNew]
    split
    case isTrue => exact h
    case isFalse hx => exact List.nodup_cons.2 ⟨hx, h⟩

/-- Inserting the first part `xs` of a list `zs` of entries gives a cache that holds all of them, each
key once, exactly when the keys decide the entries and the rest of the list was there already. -/
lemma insertAll_complete {zs : List α} (hsub : xs ⊆ zs) :
    (((insertAll key cache xs).map key).Nodup ∧ ∀ z ∈ zs, z ∈ insertAll key cache xs) ↔
      (cache.map key).Nodup ∧ (∀ x ∈ cache ++ zs, ∀ y ∈ cache ++ zs, key x = key y → x = y) ∧
        ∀ z ∈ zs, z ∉ xs → z ∈ cache := by
  have hsuf : cache <:+ insertAll key cache xs := insertAll_suffix
  constructor
  · rintro ⟨hnd, hall⟩
    have hmem : ∀ x ∈ cache ++ zs, x ∈ insertAll key cache xs := by
      intro x hx
      rcases List.mem_append.1 hx with h | h
      · exact hsuf.subset h
      · exact hall x h
    have hsub' : (cache.map key).Sublist ((insertAll key cache xs).map key) :=
      hsuf.sublist.map key
    refine ⟨hsub'.nodup hnd, fun x hx y hy e => ?_, fun z hz hnot => ?_⟩
    · exact List.inj_on_of_nodup_map hnd (hmem x hx) (hmem y hy) e
    · exact (mem_insertAll (hall z hz)).resolve_right hnot
  · rintro ⟨hnd, hagree, hrest⟩
    refine ⟨nodup_insertAll hnd, fun z hz => ?_⟩
    by_cases hx : z ∈ xs
    · have hkey : key z ∈ (insertAll key cache xs).map key := key_mem_insertAll hx
      obtain ⟨y, hy, e⟩ := List.mem_map.1 hkey
      have hy' : y ∈ cache ++ zs := by
        rcases mem_insertAll hy with h | h
        · exact List.mem_append_left _ h
        · exact List.mem_append_right _ (hsub h)
      rwa [← hagree y hy' z (List.mem_append_right _ hz) e]
    · exact hsuf.subset (hrest z hz hx)

end Creeks.Lib
