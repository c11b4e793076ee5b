import Creeks.Process.Console
import Creeks.Lib.Priority

/-!
# The delivery of signals

`dequeue_signal` and `handle_signal`, as `switch_to_task` calls them each time it switches to a process:
one signal a dispatch, the lowest first. What `handle_signal` does to the registers and the stack of the
process is in `Creeks.Process.Sigreturn`; here is what it does to the mask and the table of handlers.

`signal_delivery` says when every pending signal is reached. A pending `SIGCHLD` is never cleared, so it
is the lowest one again in the next dispatch and nothing above it is ever handled, unless the process
ignores it or dies of a signal below.
-/

namespace Creeks
open Lib

abbrev SIGHUP : Nat := 1
abbrev SIGINT : Nat := 2
abbrev SIGQUIT : Nat := 3
abbrev SIG_DFL : BitVec 32 := 0
abbrev SIG_IGN : BitVec 32 := 1

/-- The fields `signal` and `sigfn` of a process. -/
structure Signals where
  signal : BitVec 32
  sigfn : Nat → BitVec 32

/-- What `handle_signal` does with a signal: it is ignored, ends the process, stays pending, or its handler
is entered. -/
inductive Delivery where
  | ignored
  | ended
  | kept
  | entered
deriving DecidableEq, Repr

namespace Signals

/-- Clear a signal of the mask. -/
def clear (p : Signals) (sig : Nat) : Signals := { p with signal := clearSignal p.signal sig }

/-- `handle_signal` -/
def handleSignal (p : Signals) (sig : Nat) : Signals × Delivery :=
  if p.sigfn sig = SIG_IGN then (p.clear sig, .ignored)
  else if p.sigfn sig = SIG_DFL then
    if sig = SIGHUP ∨ sig = SIGINT ∨ sig = SIGQUIT then (p, .ended)
    else if sig = SIGCHLD then (p, .kept)
    else (p.clear sig, .ignored)
  else
    let p := { p with sigfn := Function.update p.sigfn sig SIG_DFL }
    (if sig ≠ SIGCHLD then p.clear sig else p, .entered)

/-- The signals of a mask. -/
def pending (p : Signals) : Finset Nat :=
  (Finset.Icc 1 31).filter fun g => p.signal.getLsbD (g - 1) = true

end Signals

/-- The signals of a process, and what has been done with those it was sent. -/
structure Dispatched where
  signals : Signals
  log : List (Nat × Delivery)

namespace Dispatched

/-- The process has been ended by a default action. -/
def Ended (d : Dispatched) : Prop := ∃ g, (g, .ended) ∈ d.log

/-- A signal has been ignored, or its handler entered. -/
def Answered (d : Dispatched) (g : Nat) : Prop := (g, .ignored) ∈ d.log ∨ (g, .entered) ∈ d.log

/-- The part of `switch_to_task` that handles a signal. A process that has exited is not switched to. -/
def dispatch (d : Dispatched) : Dispatched :=
  let sig := dequeueSignal d.signals.signal
  if d.log.any (fun e => e.2 = .ended) ∨ sig = 0 then d
  else
    let r := d.signals.handleSignal sig
    ⟨r.1, d.log ++ [(sig, r.2)]⟩

end Dispatched

/-- Every pending signal other than `SIGCHLD` has been handled after 32 dispatches. -/
def AllHandled (p : Signals) : Prop :=
  ∀ g ∈ p.pending, g ≠ SIGCHLD →
    let d := Dispatched.dispatch^[32] ⟨p, []⟩
    d.Ended ∨ d.Answered g

/-- No pending `SIGCHLD` stays in front of another signal: it is not pending, or it is ignored, or it is
the highest one, or the process dies of a signal below it. -/
def Unobstructed (p : Signals) : Prop :=
  SIGCHLD ∉ p.pending ∨ p.sigfn SIGCHLD = SIG_IGN ∨ (∀ g ∈ p.pending, g ≤ SIGCHLD) ∨
    ∃ g ∈ p.pending, g ≤ SIGQUIT ∧ p.sigfn g = SIG_DFL

/-! ## The mask -/

section Mask

variable {mask : BitVec 32} {p : Signals} {sig g : Nat}

lemma mem_pending : g ∈ p.pending ↔ (1 ≤ g ∧ g ≤ 31) ∧ p.signal.getLsbD (g - 1) = true := by
  rw [Signals.pending, Finset.mem_filter, Finset.mem_Icc]

/-- The bits of a mask with a signal cleared. -/
lemma getLsbD_clearSignal (h1 : 1 ≤ sig) (h2 : sig ≤ 32) (i : Nat) :
    (clearSignal mask sig).getLsbD i = (mask.getLsbD i && decide (i ≠ sig - 1)) := by
  have hshift : (((sig : Int) - 1) % 32).toNat = sig - 1 := by omega
  have hbit : (1#32 <<< (sig - 1)) = BitVec.twoPow 32 (sig - 1) := by
    rw [BitVec.twoPow_eq]
  rw [clearSignal, hshift, hbit, BitVec.getLsbD_and, BitVec.getLsbD_not, BitVec.getLsbD_twoPow]
  by_cases hi : i < 32
  · by_cases e : i = sig - 1
    · subst e
      simp [hi]
    · have e' : sig - 1 ≠ i := Ne.symm e
      simp [hi, e, e']
  · rw [BitVec.getLsbD_of_ge mask i (by omega)]
    rfl

/-- A signal that is handled and cleared leaves the others pending. -/
lemma pending_clear (h1 : 1 ≤ sig) (h2 : sig ≤ 31) : (p.clear sig).pending = p.pending.erase sig := by
  ext g
  rw [Finset.mem_erase, mem_pending, mem_pending, Signals.clear,
    getLsbD_clearSignal h1 (by omega), Bool.and_eq_true, decide_eq_true_eq]
  constructor
  · rintro ⟨hr, hbit, hne⟩
    exact ⟨by omega, hr, hbit⟩
  · rintro ⟨hne, hr, hbit⟩
    exact ⟨hr, hbit, by omega⟩

/-- `dequeue_signal` finds the lowest signal of the mask, and 0 when there is none. -/
lemma dequeueSignal_cases (h : p.signal.getLsbD 31 = false) :
    (dequeueSignal p.signal = 0 ∧ p.pending = ∅) ∨
      IsLeast (p.pending : Set Nat) (dequeueSignal p.signal) := by
  rw [dequeueSignal]
  cases hf : (List.range 32).find? fun i => p.signal.getLsbD i with
  | none =>
    refine .inl ⟨rfl, Finset.eq_empty_iff_forall_notMem.2 fun g hg => ?_⟩
    obtain ⟨hr, hbit⟩ := mem_pending.1 hg
    have hn := List.find?_eq_none.1 hf (g - 1) (List.mem_range.2 (by omega))
    exact hn hbit
  | some i =>
    obtain ⟨hbit, hlt, hmin⟩ := List.find?_range_eq_some.1 hf
    have hi : i < 31 := by
      rcases Nat.lt_or_ge i 31 with hi | hi
      · exact hi
      · have e : i = 31 := by
          have := List.mem_range.1 hlt
          omega
        rw [e, h] at hbit
        exact absurd hbit Bool.false_ne_true
    refine .inr ⟨mem_pending.2 ⟨⟨Nat.le_add_left 1 i, hi⟩, hbit⟩, fun g hg => ?_⟩
    obtain ⟨hr, hg⟩ := mem_pending.1 hg
    by_contra hlt
    have hlt : g < i + 1 := Nat.not_le.1 hlt
    have hn := hmin (g - 1) (by omega)
    rw [hg] at hn
    exact absurd hn (by decide)

end Mask

/-! ## One dispatch -/

/-- What `handle_signal` can do with a signal. Only `SIGCHLD` stays pending. -/
inductive Handles (p : Signals) (g : Nat) : Signals × Delivery → Prop where
  | ended :
    g ≤ SIGQUIT →
    p.sigfn g = SIG_DFL →
    Handles p g (p, .ended)
  | stays {q a} :
    g = SIGCHLD →
    p.sigfn g ≠ SIG_IGN →
    q.signal = p.signal →
    q.sigfn g ≠ SIG_IGN →
    (∀ k, k ≠ g → q.sigfn k = p.sigfn k) →
    a ≠ .ended →
    Handles p g (q, a)
  | cleared {q a} :
    (g = SIGCHLD → p.sigfn g = SIG_IGN) →
    (g ≤ SIGQUIT → p.sigfn g ≠ SIG_DFL) →
    q.signal = clearSignal p.signal g →
    (p.sigfn g = SIG_IGN → q.sigfn g = SIG_IGN) →
    (∀ k, k ≠ g → q.sigfn k = p.sigfn k) →
    a = .ignored ∨ a = .entered →
    Handles p g (q, a)

/-- The cases of `handle_signal`. -/
lemma handleSignal_handles (p : Signals) {g : Nat} (hg : 1 ≤ g) : Handles p g (p.handleSignal g) := by
  rw [Signals.handleSignal]
  by_cases hign : p.sigfn g = SIG_IGN
  · rw [if_pos hign]
    exact .cleared (fun _ => hign) (fun _ => by rw [hign]; decide) rfl id (fun _ _ => rfl) (.inl rfl)
  · rw [if_neg hign]
    by_cases hdfl : p.sigfn g = SIG_DFL
    · rw [if_pos hdfl]
      by_cases hend : g = SIGHUP ∨ g = SIGINT ∨ g = SIGQUIT
      · rw [if_pos hend]
        refine .ended ?_ hdfl
        rcases hend with rfl | rfl | rfl <;> decide
      · rw [if_neg hend]
        by_cases hchld : g = SIGCHLD
        · rw [if_pos hchld]
          exact .stays hchld hign rfl hign (fun _ _ => rfl) nofun
        · rw [if_neg hchld]
          refine .cleared (fun h => absurd h hchld) (fun hle => ?_) rfl id (fun _ _ => rfl) (.inl rfl)
          have hle : g ≤ 3 := hle
          have hend : ¬ (g = 1 ∨ g = 2 ∨ g = 3) := hend
          omega
    · rw [if_neg hdfl]
      have hother : ∀ k, k ≠ g → Function.update p.sigfn g SIG_DFL k = p.sigfn k :=
        fun k hk => Function.update_of_ne hk _ _
      by_cases hchld : g = SIGCHLD
      · refine .stays hchld hign ?_ ?_ ?_ nofun
        · rw [if_neg (not_not.2 hchld)]
        · rw [if_neg (not_not.2 hchld)]
          show Function.update p.sigfn g SIG_DFL g ≠ SIG_IGN
          rw [Function.update_self]
          decide
        · rwa [if_neg (not_not.2 hchld)]
      · refine .cleared (fun h => absurd h hchld) (fun _ => hdfl) ?_ (fun h => absurd h hign) ?_ (.inr rfl)
        · rw [if_pos hchld]
          rfl
        · rwa [if_pos hchld]

namespace Dispatched

variable {d : Dispatched} {g : Nat}

/-- A process that has ended is not dispatched. -/
lemma dispatch_ended (h : d.Ended) : d.dispatch = d := by
  obtain ⟨g, hg⟩ := h
  rw [dispatch, if_pos]
  exact .inl (List.any_eq_true.2 ⟨_, hg, rfl⟩)

/-- Another process handles its lowest signal. -/
lemma dispatch_least (hend : ¬ d.Ended) (h31 : d.signals.signal.getLsbD 31 = false)
    (hg : IsLeast (d.signals.pending : Set Nat) g) :
    d.dispatch = ⟨(d.signals.handleSignal g).1, d.log ++ [(g, (d.signals.handleSignal g).2)]⟩ := by
  have hpos : 1 ≤ g := (mem_pending.1 hg.1).1.1
  have hsig : dequeueSignal d.signals.signal = g := by
    rcases dequeueSignal_cases h31 with ⟨-, hnone⟩ | hleast
    · have hmem := hg.1
      rw [hnone] at hmem
      exact absurd hmem (Finset.notMem_empty g)
    · exact hleast.unique hg
  rw [dispatch, if_neg, hsig]
  rintro (hany | h0)
  · obtain ⟨⟨k, a⟩, hmem, ha⟩ := List.any_eq_true.1 hany
    have ha : a = .ended := of_decide_eq_true ha
    exact hend ⟨k, by rwa [ha] at hmem⟩
  · omega

/-- An entry of the log stays there. -/
lemma mem_dispatch {e : Nat × Delivery} (h : e ∈ d.log) : e ∈ d.dispatch.log := by
  rw [dispatch]
  split
  · exact h
  · exact List.mem_append_left _ h

lemma Ended.dispatch (h : d.Ended) : d.dispatch.Ended := by
  rwa [dispatch_ended h]

lemma Answered.dispatch (h : d.Answered g) : d.dispatch.Answered g :=
  h.imp mem_dispatch mem_dispatch

/-- The mask and the handlers after a signal has been cleared. -/
lemma clear_dispatch {q : Signals} {a : Delivery} (hr : 1 ≤ g ∧ g ≤ 31)
    (hsig : q.signal = clearSignal d.signals.signal g) (ha : a = .ignored ∨ a = .entered)
    (h31 : d.signals.signal.getLsbD 31 = false) :
    q.signal.getLsbD 31 = false ∧ q.pending = d.signals.pending.erase g ∧
      (Dispatched.mk q (d.log ++ [(g, a)])).Answered g := by
  refine ⟨?_, ?_, ?_⟩
  · rw [hsig, getLsbD_clearSignal hr.1 (by omega), h31, Bool.false_and]
  · rw [← pending_clear hr.1 hr.2]
    exact Finset.filter_congr fun _ _ => by rw [hsig, Signals.clear]
  · have hmem : (g, a) ∈ d.log ++ [(g, a)] := List.mem_append_right _ List.mem_cons_self
    rcases ha with rfl | rfl
    · exact .inl hmem
    · exact .inr hmem

end Dispatched

/-! ## Progress -/

section Progress

open Dispatched

/-- A mask of the signals 1 to 31, and nothing pending up to `b` that stays. -/
structure Clears (b : Nat) (d : Dispatched) : Prop where
  mask : d.signals.signal.getLsbD 31 = false
  clears : b < SIGCHLD ∨ SIGCHLD ∉ d.signals.pending ∨ d.signals.sigfn SIGCHLD = SIG_IGN

/-- A dispatch serves the lowest pending signal, as long as that is not a `SIGCHLD` that stays. -/
lemma servesLeast_clears (b : Nat) :
    ServesLeast dispatch (fun d => d.signals.pending) (Clears b) Ended Dispatched.Answered b where
  serve := by
    intro d g hI hg hb hmin
    by_cases hend : d.Ended
    · exact .inl hend.dispatch
    · rw [dispatch_least hend hI.mask ⟨hg, hmin⟩]
      have hr := (mem_pending.1 hg).1
      have hh := handleSignal_handles d.signals hr.1
      revert hh
      generalize d.signals.handleSignal g = r
      intro hh
      cases hh with
      | ended =>
        exact .inl ⟨g, List.mem_append_right _ List.mem_cons_self⟩
      | stays hchld hign =>
        subst hchld
        rcases hI.clears with h | h | h
        · omega
        · exact absurd hg h
        · exact absurd h hign
      | @cleared q a hchld _ hsig hkeep hother ha =>
        obtain ⟨h31, hpend, hans⟩ := clear_dispatch hr hsig ha hI.mask
        refine .inr ⟨⟨h31, hI.clears.imp_right (Or.imp (fun h => ?_) fun h => ?_)⟩, hpend, hans⟩
        · show SIGCHLD ∉ q.pending
          rw [hpend]
          exact fun hmem => h (Finset.mem_of_mem_erase hmem)
        · by_cases e : SIGCHLD = g
          · rw [e] at h ⊢
            exact hkeep h
          · exact (hother _ e).trans h
  served := fun _ _ h => h.dispatch
  stopped := fun _ h => h.dispatch

/-- A signal the process dies of when it is handled. -/
structure Deadly (k : Nat) (d : Dispatched) : Prop where
  mask : d.signals.signal.getLsbD 31 = false
  pending : k ∈ d.signals.pending
  deadly : d.signals.sigfn k = SIG_DFL

/-- A dispatch serves the signals below one the process dies of, then the process dies. -/
lemma servesLeast_deadly {k : Nat} (hk : k ≤ SIGQUIT) :
    ServesLeast dispatch (fun d => d.signals.pending) (Deadly k) Ended (fun _ g => g ≠ k) k where
  serve := by
    intro d g hI hg hb hmin
    by_cases hend : d.Ended
    · exact .inl hend.dispatch
    · rw [dispatch_least hend hI.mask ⟨hg, hmin⟩]
      have hr := (mem_pending.1 hg).1
      have hh := handleSignal_handles d.signals hr.1
      revert hh
      generalize d.signals.handleSignal g = r
      intro hh
      cases hh with
      | ended =>
        exact .inl ⟨g, List.mem_append_right _ List.mem_cons_self⟩
      | stays hchld =>
        subst hchld
        exact absurd (hb.trans hk) (by decide)
      | @cleared q a _ hdfl hsig _ hother ha =>
        have hne : g ≠ k := fun e => hdfl (hb.trans hk) (by rw [e]; exact hI.deadly)
        obtain ⟨h31, hpend, -⟩ := clear_dispatch hr hsig ha hI.mask
        refine .inr ⟨⟨h31, ?_, ?_⟩, hpend, hne⟩
        · show k ∈ q.pending
          rw [hpend]
          exact Finset.mem_erase.2 ⟨hne.symm, hI.pending⟩
        · exact (hother k hne.symm).trans hI.deadly
  served := fun _ _ h => h
  stopped := fun _ h => h.dispatch

/-- There are at most 31 signals. -/
lemma card_pending_le (p : Signals) (b : Nat) : (p.pending.filter (· ≤ b)).card ≤ 32 := by
  calc (p.pending.filter (· ≤ b)).card
      ≤ p.pending.card := Finset.card_filter_le _ _
    _ ≤ (Finset.Icc 1 31).card := Finset.card_filter_le _ _
    _ ≤ 32 := by decide

/-- A pending `SIGCHLD` that stays, and a signal above it. -/
structure Obstructed (d : Dispatched) : Prop where
  mask : d.signals.signal.getLsbD 31 = false
  pending : SIGCHLD ∈ d.signals.pending
  stays : d.signals.sigfn SIGCHLD ≠ SIG_IGN
  survives : ∀ g ∈ d.signals.pending, g ≤ SIGQUIT → d.signals.sigfn g ≠ SIG_DFL
  log : ∀ e ∈ d.log, e.1 ≤ SIGCHLD ∧ e.2 ≠ .ended

lemma Obstructed.not_ended {d : Dispatched} (h : Obstructed d) : ¬ d.Ended :=
  fun ⟨_, hmem⟩ => (h.log _ hmem).2 rfl

/-- A dispatch handles no signal above a `SIGCHLD` that stays. -/
lemma Obstructed.dispatch {d : Dispatched} (h : Obstructed d) : Obstructed d.dispatch := by
  obtain ⟨g, hg⟩ : ∃ g, IsLeast (d.signals.pending : Set Nat) g :=
    ⟨_, Finset.isLeast_min' _ ⟨_, h.pending⟩⟩
  have hle : g ≤ SIGCHLD := hg.2 h.pending
  have hr := (mem_pending.1 hg.1).1
  rw [dispatch_least h.not_ended h.mask hg]
  have hlog : ∀ a, a ≠ .ended → ∀ e ∈ d.log ++ [(g, a)], e.1 ≤ SIGCHLD ∧ e.2 ≠ .ended := by
    intro a ha e he
    rcases List.mem_append.1 he with he | he
    · exact h.log e he
    · cases List.mem_singleton.1 he
      exact ⟨hle, ha⟩
  have hh := handleSignal_handles d.signals hr.1
  revert hh
  generalize d.signals.handleSignal g = r
  intro hh
  cases hh with
  | ended hq hdfl => exact absurd hdfl (h.survives g hg.1 hq)
  | @stays q a hchld _ hsig hign hother ha =>
    subst hchld
    have hpend : q.pending = d.signals.pending := Finset.filter_congr fun _ _ => by rw [hsig]
    refine ⟨?_, ?_, hign, fun k hk hq => ?_, hlog a ha⟩
    · exact (congrArg (BitVec.getLsbD · 31) hsig).trans h.mask
    · show SIGCHLD ∈ q.pending
      rw [hpend]
      exact h.pending
    · have hk : k ∈ q.pending := hk
      rw [hpend] at hk
      show q.sigfn k ≠ SIG_DFL
      rw [hother k (fun e => absurd hq (by rw [e]; decide))]
      exact h.survives k hk hq
  | @cleared q a hchld hdfl hsig _ hother ha =>
    have hne : SIGCHLD ≠ g := fun e => h.stays (by rw [e]; exact hchld e.symm)
    obtain ⟨h31, hpend, -⟩ := clear_dispatch hr hsig ha h.mask
    refine ⟨h31, ?_, ?_, fun k hk hq => ?_, hlog a (by rcases ha with rfl | rfl <;> nofun)⟩
    · show SIGCHLD ∈ q.pending
      rw [hpend]
      exact Finset.mem_erase.2 ⟨hne, h.pending⟩
    · show q.sigfn SIGCHLD ≠ SIG_IGN
      rw [hother _ hne]
      exact h.stays
    · have hk : k ∈ q.pending := hk
      rw [hpend] at hk
      show q.sigfn k ≠ SIG_DFL
      rw [hother k (Finset.ne_of_mem_erase hk)]
      exact h.survives k (Finset.mem_of_mem_erase hk) hq

lemma Obstructed.iterate {d : Dispatched} (h : Obstructed d) (n : Nat) :
    Obstructed (Dispatched.dispatch^[n] d) := by
  induction n generalizing d with
  | zero => exact h
  | succ n ih => exact ih h.dispatch

/-- A signal above it is not handled. -/
lemma Obstructed.starves {p : Signals} (h : Obstructed ⟨p, []⟩) {g : Nat} (hg : g ∈ p.pending)
    (hgt : SIGCHLD < g) : ¬ AllHandled p := by
  intro hall
  have hend := h.iterate 32
  rcases hall g hg (Nat.ne_of_gt hgt) with hstop | hign | hent
  · exact hend.not_ended hstop
  · exact absurd (hend.log _ hign).1 (Nat.not_le.2 hgt)
  · exact absurd (hend.log _ hent).1 (Nat.not_le.2 hgt)

end Progress

/-- For a mask of the signals 1 to 31, every pending signal other than `SIGCHLD` is handled in 32
dispatches exactly when no `SIGCHLD` is in its way. -/
theorem signal_delivery {p : Signals} (h31 : p.signal.getLsbD 31 = false) :
    AllHandled p ↔ Unobstructed p := by
  constructor
  · intro hall
    by_contra hun
    rw [Unobstructed] at hun
    push Not at hun
    obtain ⟨hpend, hign, ⟨g, hg, hgt⟩, hdfl⟩ := hun
    exact Obstructed.starves ⟨h31, hpend, hign, hdfl, nofun⟩ hg hgt hall
  · intro hun g hg hne
    have hserved : ∀ b, Clears b ⟨p, []⟩ → g ≤ b → _ := fun b hI hb =>
      (servesLeast_clears b).served_of_least hI (card_pending_le p b) hg hb
    rcases hun with h | h | h | ⟨k, hk, hq, hdfl⟩
    · exact hserved 31 ⟨h31, .inr (.inl h)⟩ (mem_pending.1 hg).1.2
    · exact hserved 31 ⟨h31, .inr (.inr h)⟩ (mem_pending.1 hg).1.2
    · exact hserved 16 ⟨h31, .inl (by decide)⟩ (Nat.le_of_lt_succ (lt_of_le_of_ne (h g hg) hne))
    · have hI : Deadly k ⟨p, []⟩ := ⟨h31, hk, hdfl⟩
      rcases (servesLeast_deadly hq).served_of_least hI (card_pending_le p k) hk le_rfl with hstop | hkk
      · exact .inl hstop
      · exact absurd rfl hkk

/-- With `SIGCHLD` ignored, `SIGUSR1` and `SIGCONT` are both reached. -/
theorem signal_delivery_ignored :
    AllHandled ⟨0x30200#32, fun g => if g = SIGCHLD then SIG_IGN else SIG_DFL⟩ :=
  (signal_delivery (by decide)).2 (.inr (.inl rfl))

/-- With the default action of `SIGCHLD` a pending `SIGCONT` is never handled. -/
theorem child_signal_starves : ¬ AllHandled ⟨0x30000#32, fun _ => SIG_DFL⟩ :=
  @Obstructed.starves ⟨0x30000#32, fun _ => SIG_DFL⟩
    ⟨by decide, by decide, by decide, by decide, nofun⟩ 18 (by decide) (by decide)

end Creeks
