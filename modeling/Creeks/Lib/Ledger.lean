import Creeks.Lib.Run

/-!
# Ledgers of resources

An allocator hands out resources and takes them back. A ledger says what is out in a state (`holds`)
and what the owner of a resource can see of it (`view`). `Effect s A t B` is the judgment about a piece
of code: whatever else is out, it turns the resources `A` into the resources `B`, and the owners of the
others see no difference. `Effect.trans` composes two pieces of code, `Effect.frame` adds resources that
neither of them touches, and `Effect.foldlM` is the rule for loops.
-/

namespace Creeks.Lib

/-- What is out, as a multiset, and what an owner sees. -/
structure Ledger (σ α β : Type*) where
  holds : σ → Multiset α → Prop
  view : α → σ → β

namespace Ledger

variable {σ α β : Type*} {L : Ledger σ α β} {s t u : σ} {A A' B B' C R : Multiset α}

/-- From `s` to `t` the resources `A` become the resources `B`, whatever else is out. -/
def Effect (L : Ledger σ α β) (s : σ) (A : Multiset α) (t : σ) (B : Multiset α) : Prop :=
  ∀ F, L.holds s (A + F) → L.holds t (B + F) ∧ ∀ a ∈ F, L.view a t = L.view a s

namespace Effect

lemma refl (s : σ) (A : Multiset α) : L.Effect s A s A := fun _ h => ⟨h, fun _ _ => rfl⟩

/-- Resources are counted, not ordered. -/
lemma cast (e : L.Effect s A t B) (hA : A = A') (hB : B = B') : L.Effect s A' t B' := by
  subst hA hB
  exact e

/-- One piece of code after the other. -/
lemma trans (e : L.Effect s A t B) (e' : L.Effect t B u C) : L.Effect s A u C := by
  intro F h
  obtain ⟨h1, v1⟩ := e F h
  obtain ⟨h2, v2⟩ := e' F h1
  exact ⟨h2, fun a ha => (v2 a ha).trans (v1 a ha)⟩

/-- Resources the code does not touch. -/
lemma frame (e : L.Effect s A t B) (R : Multiset α) : L.Effect s (A + R) t (B + R) := by
  intro F h
  rw [add_assoc] at h ⊢
  obtain ⟨h1, v1⟩ := e (R + F) h
  exact ⟨h1, fun a ha => v1 a (Multiset.mem_add.2 (.inr ha))⟩

/-- A second piece of code that works on other resources. -/
lemma add (e : L.Effect s A t B) (e' : L.Effect t A' u B') : L.Effect s (A + A') u (B + B') :=
  (e.frame A').trans (((e'.frame B).cast (add_comm _ _) (add_comm _ _)))

/-- What is out after the code, when nothing is framed. -/
lemma holds (e : L.Effect s A t B) (h : L.holds s A) : L.holds t B := by
  have h' := (e 0 (by rwa [add_zero])).1
  rwa [add_zero] at h'

/-- What the owner of a framed resource sees. -/
lemma view (e : L.Effect s A t B) (h : L.holds s (A + R)) {a : α} (ha : a ∈ R) :
    L.view a t = L.view a s := (e R h).2 a ha

/-- A loop whose turns only move resources between the components of its state. -/
lemma foldlM {ε γ δ : Type} {f : γ → δ → Except ε γ} {mm : γ → σ} {own : γ → Multiset α} {l : List δ}
    (hf : ∀ c, ∀ d ∈ l, ∀ c', f c d = .ok c' → L.Effect (mm c) (own c) (mm c') (own c')) {c c' : γ}
    (h : l.foldlM f c = .ok c') : L.Effect (mm c) (own c) (mm c') (own c') :=
  foldlM_mem (P := fun b => L.Effect (mm c) (own c) (mm b) (own b))
    (fun b d hd b' hb e => hb.trans (hf b d hd b' e)) (refl _ _) h

end Effect

end Ledger

end Creeks.Lib
