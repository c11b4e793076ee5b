import Mathlib

/-!
# Serving requests in order

A system with a finite set of pending requests, numbered by priority, that serves one of them in a step.
`served_of_least` is the rule for its progress: when every step serves the least pending request, or
stops the system, then the requests up to a bound are served after as many steps as there are of them.
-/

namespace Creeks.Lib

variable {σ : Type*} {step : σ → σ} {pending : σ → Finset ℕ} {I Stopped : σ → Prop}
  {Served : σ → ℕ → Prop} {b : ℕ}

/-- A step serves the least pending request up to `b`, or stops the system. -/
structure ServesLeast (step : σ → σ) (pending : σ → Finset ℕ) (I Stopped : σ → Prop)
    (Served : σ → ℕ → Prop) (b : ℕ) : Prop where
  serve : ∀ s g, I s → g ∈ pending s → g ≤ b → (∀ h ∈ pending s, g ≤ h) →
    Stopped (step s) ∨
      (I (step s) ∧ pending (step s) = (pending s).erase g ∧ Served (step s) g)
  served : ∀ s g, Served s g → Served (step s) g
  stopped : ∀ s, Stopped s → Stopped (step s)

namespace ServesLeast

/-- What has been served stays so. -/
lemma served_iterate (hs : ServesLeast step pending I Stopped Served b) {s : σ} {g : ℕ}
    (h : Served s g) (n : ℕ) : Served (step^[n] s) g := by
  induction n generalizing s with
  | zero => exact h
  | succ n ih => exact ih (hs.served s g h)

/-- A system that has stopped stays so. -/
lemma stopped_iterate (hs : ServesLeast step pending I Stopped Served b) {s : σ}
    (h : Stopped s) (n : ℕ) : Stopped (step^[n] s) := by
  induction n generalizing s with
  | zero => exact h
  | succ n ih => exact ih (hs.stopped s h)

/-- After as many steps as there are requests up to `b`, each of them has been served or the system has
stopped. -/
lemma served_of_least (hs : ServesLeast step pending I Stopped Served b) {s : σ} (init : I s) {n : ℕ}
    (hn : ((pending s).filter (· ≤ b)).card ≤ n) {g : ℕ} (hg : g ∈ pending s) (hb : g ≤ b) :
    Stopped (step^[n] s) ∨ Served (step^[n] s) g := by
  induction n generalizing s with
  | zero =>
    have hmem : g ∈ (pending s).filter (· ≤ b) := Finset.mem_filter.2 ⟨hg, hb⟩
    exact absurd hn (Nat.not_le.2 (Finset.card_pos.2 ⟨g, hmem⟩))
  | succ n ih =>
    -- the least request is below `g`, so below the bound
    obtain ⟨least, hleast⟩ : ∃ l, IsLeast (pending s : Set ℕ) l :=
      ⟨_, (pending s).isLeast_min' ⟨g, hg⟩⟩
    have hmem : least ∈ pending s := hleast.1
    have hle : least ≤ b := (hleast.2 hg).trans hb
    rw [Function.iterate_succ_apply]
    rcases hs.serve s least init hmem hle fun h hh => hleast.2 hh with hstop | ⟨hI, hpend, hserved⟩
    · exact .inl (hs.stopped_iterate hstop n)
    · by_cases hgl : g = least
      · subst hgl
        exact .inr (hs.served_iterate hserved n)
      · have hcard : ((pending (step s)).filter (· ≤ b)).card ≤ n := by
          rw [hpend, Finset.filter_erase,
            Finset.card_erase_of_mem (Finset.mem_filter.2 ⟨hmem, hle⟩)]
          omega
        refine ih hI hcard ?_
        rw [hpend]
        exact Finset.mem_erase.2 ⟨hgl, hg⟩

end ServesLeast

end Creeks.Lib
