import Mathlib.Logic.Function.Basic
import Mathlib.Tactic.Common

/-!
# Cached translations

A page table with a cache of its entries in front of it. An access uses the cached entry of its page when
there is one, and caches the entry of the table otherwise. The cache may lose an entry at any time, and
nothing takes an entry out of it when the table changes.

`Mmu.Sees m a b` says that the next access to `a` uses `b`, whatever the cache loses before. It is kept by
every operation but a change of the table at `a` itself, and `Mmu.sees_iff` says what it comes to.
-/

namespace Creeks.Lib

/-- A page table and the translations cached from it. -/
structure Mmu (α β : Type*) where
  table : α → Option β
  cache : α → Option β

namespace Mmu

variable {α β : Type*} [DecidableEq α] {m m' : Mmu α β} {a a' : α} {b : β}

/-- What an access to `a` uses. -/
def translate (m : Mmu α β) (a : α) : Option β := (m.cache a).or (m.table a)

/-- An access to `a`. -/
def access (m : Mmu α β) (a : α) : Mmu α β :=
  { m with cache := Function.update m.cache a (m.translate a) }

/-- The cache loses its entry for `a`. -/
def evict (m : Mmu α β) (a : α) : Mmu α β :=
  { m with cache := Function.update m.cache a none }

lemma access_cache : (m.access a).cache = Function.update m.cache a (m.translate a) := rfl

lemma evict_cache : (m.evict a).cache = Function.update m.cache a none := rfl

/-- Every access to `a` uses `b`, with the entry that may be cached and without it. -/
def Sees (m : Mmu α β) (a : α) (b : β) : Prop :=
  m.translate a = some b ∧ (m.evict a).translate a = some b

/-- The table has the entry, and a cached entry is the same. -/
lemma sees_iff : m.Sees a b ↔ m.table a = some b ∧ ∀ b', m.cache a = some b' → b' = b := by
  have hmiss : (m.evict a).translate a = m.table a := by
    rw [translate, evict_cache, Function.update_self, Option.none_or]
    rfl
  rw [Sees, hmiss, and_comm]
  refine and_congr_right fun ht => ?_
  rw [translate, ht]
  cases m.cache a with
  | none => exact iff_of_true rfl nofun
  | some b' =>
    constructor
    · intro h b'' e
      cases e
      exact Option.some.inj h
    · intro h
      rw [h b' rfl]
      rfl

/-- What an access sees depends on the entries of its page, and the cached one may be lost. -/
lemma Sees.congr (h : m.Sees a b) (ht : m'.table a = m.table a)
    (hc : m'.cache a = none ∨ m'.cache a = m.cache a) : m'.Sees a b := by
  obtain ⟨h1, h2⟩ := sees_iff.1 h
  refine sees_iff.2 ⟨ht.trans h1, fun b' e => ?_⟩
  rcases hc with hc | hc
  · rw [hc] at e
    cases e
  · exact h2 b' (hc ▸ e)

/-- An access caches nothing that is not seen already. -/
lemma Sees.access (h : m.Sees a b) (a' : α) : (m.access a').Sees a b := by
  obtain ⟨ht, hc⟩ := sees_iff.1 h
  refine sees_iff.2 ⟨ht, fun b' e => ?_⟩
  rw [access_cache] at e
  obtain rfl | hne := eq_or_ne a a'
  · rw [Function.update_self, h.1] at e
    exact (Option.some.inj e).symm
  · rw [Function.update_of_ne hne] at e
    exact hc b' e

end Mmu

end Creeks.Lib
