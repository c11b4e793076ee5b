import Creeks.Lib.Rotation
import Creeks.Process.Count

/-!
# Round robin

`schedule` looks for the next ready slot in two scans, both of which stop before slot `MAXPID`, while
`load_task` gives out the slots up to `MAXPID` and even the one behind the array. `round_robin` is
the consequence: the selection is fair exactly when no ready process has been given one of those
last slots.
-/

namespace Creeks
open Lib

/-- The processes `n` consecutive calls of `schedule` run. -/
def scheduled (t : Table) : Nat → List Nat
  | 0 => []
  | n + 1 => (schedule t).current :: scheduled (schedule t) n

/-- `S` is the set of processes that can run, among the pids `load_task` can assign; one of them is
running. Each was counted when it was created. -/
structure ReadySet (t : Table) (S : Finset Nat) : Prop where
  mem : ∀ p, p ∈ S ↔ 1 ≤ p ∧ p ≤ MAXPID + 1 ∧ (t.pList p).state = 1
  pid : ∀ p ∈ S, (t.pList p).pid = p
  kernel_pid : (t.pList 0).pid = 0
  two : 2 ≤ S.card
  count : S.card ≤ t.nProc
  current : t.current ∈ S

/-- The slot `schedule` would make current from slot `c`. -/
def after (t : Table) (c : Nat) : Nat := (t.pList (newpid { t with current := c })).pid

/-- With two processes `schedule` always selects. -/
lemma schedule_eq {t : Table} (h : 2 ≤ t.nProc) :
    schedule t = { t with current := after t t.current } := by
  unfold schedule
  rw [if_neg (by omega), if_neg (by omega)]
  rfl

lemma scheduled_eq {t : Table} (h : 2 ≤ t.nProc) (n : Nat) :
    scheduled t n = List.iterate (after t) (after t t.current) n := by
  induction n generalizing t with
  | zero => rfl
  | succ n ih =>
    have e := schedule_eq h
    rw [scheduled, List.iterate, ih (by rwa [schedule_nProc]), e]
    rfl

section Scan

variable {t : Table} {c b : Nat}

/-- The next ready slot above is chosen. -/
lemma newpid_above (hp : (t.pList t.current).pid = c) (h1 : c < b) (h2 : b < MAXPID)
    (hb : (t.pList b).state = 1) (hn : ∀ i, c < i → i < b → (t.pList i).state ≠ 1) :
    newpid t = b := by
  have h : (List.range' (c + 1) (MAXPID - (c + 1))).find? (fun i => (t.pList i).state == 1)
      = some b := by
    rw [List.find?_range'_eq_some]
    refine ⟨by simp [hb], List.mem_range'_1.2 ⟨by omega, by omega⟩, fun i hi hib => ?_⟩
    simpa using hn i (by omega) hib
  unfold newpid
  rw [hp]
  dsimp only
  rw [h]

/-- Without one above, the first ready slot below is chosen. -/
lemma newpid_below (hp : (t.pList t.current).pid = c) (h1 : 1 ≤ b) (h2 : b < c)
    (hb : (t.pList b).state = 1) (hn : ∀ i, 1 ≤ i → i < b → (t.pList i).state ≠ 1)
    (ha : ∀ i, c < i → i < MAXPID → (t.pList i).state ≠ 1) :
    newpid t = b := by
  have h : (List.range' (c + 1) (MAXPID - (c + 1))).find? (fun i => (t.pList i).state == 1)
      = none := by
    rw [List.find?_range'_eq_none]
    intro i hi hlt
    simpa using ha i (by omega) (by omega)
  have h' : (List.range' 1 (c - 1)).find? (fun i => (t.pList i).state == 1) = some b := by
    rw [List.find?_range'_eq_some]
    refine ⟨by simp [hb], List.mem_range'_1.2 ⟨h1, by omega⟩, fun i hi hib => ?_⟩
    simpa using hn i hi hib
  unfold newpid
  rw [hp]
  dsimp only
  rw [h]
  dsimp only
  rw [h', Option.getD_some]

end Scan

section Sorted

variable {S : Finset Nat} {l r : List Nat} {a b h : Nat}

/-- Nothing of a set lies between two neighbours of its sorted list. -/
lemma sort_neighbours (e : S.sort (· ≤ ·) = l ++ a :: b :: r) :
    a ∈ S ∧ b ∈ S ∧ a < b ∧ ∀ i ∈ S, i ≤ a ∨ b ≤ i := by
  have hm : ∀ p, p ∈ S ↔ p ∈ l ++ a :: b :: r := fun p => by rw [← e, Finset.mem_sort]
  have hs : (l ++ a :: b :: r).Pairwise (· < ·) := e ▸ (Finset.sortedLT_sort S).pairwise
  obtain ⟨-, hs2, hs3⟩ := List.pairwise_append.1 hs
  obtain ⟨hs4, hs5⟩ := List.pairwise_cons.1 hs2
  refine ⟨(hm a).2 (by simp), (hm b).2 (by simp), hs4 b List.mem_cons_self, fun i hi => ?_⟩
  rcases List.mem_append.1 ((hm i).1 hi) with h | h
  · exact .inl (hs3 i h a List.mem_cons_self).le
  rcases List.mem_cons.1 h with rfl | h
  · exact .inl (le_refl _)
  rcases List.mem_cons.1 h with rfl | h
  · exact .inr (le_refl _)
  · exact .inr ((List.pairwise_cons.1 hs5).1 i h).le

/-- The sorted list goes from the least element to the greatest. -/
lemma sort_ends (e : S.sort (· ≤ ·) = h :: l ++ [a]) :
    h ∈ S ∧ a ∈ S ∧ h < a ∧ ∀ i ∈ S, h ≤ i ∧ i ≤ a := by
  have hm : ∀ p, p ∈ S ↔ p ∈ h :: l ++ [a] := fun p => by rw [← e, Finset.mem_sort]
  have hs : (h :: l ++ [a]).Pairwise (· < ·) := e ▸ (Finset.sortedLT_sort S).pairwise
  obtain ⟨hs1, -, hs2⟩ := List.pairwise_append.1 hs
  have ha := List.mem_singleton_self a
  have hha : h < a := hs2 h List.mem_cons_self a ha
  refine ⟨(hm h).2 (by simp), (hm a).2 (by simp), hha, fun i hi => ?_⟩
  rcases List.mem_append.1 ((hm i).1 hi) with hi | hi
  · refine ⟨?_, (hs2 i hi a ha).le⟩
    rcases List.mem_cons.1 hi with rfl | hi
    · exact le_refl _
    · exact ((List.pairwise_cons.1 hs1).1 i hi).le
  · rw [List.mem_singleton.1 hi]
    exact ⟨hha.le, le_refl _⟩

end Sorted

namespace ReadySet

variable {t : Table} {S : Finset Nat}

lemma nProc (ready : ReadySet t S) : 2 ≤ t.nProc := by
  have h1 := ready.two
  have h2 := ready.count
  omega

/-- `schedule` steps through the ready processes in order of pid, and from the last to the first. -/
lemma rotates (ready : ReadySet t S) (hS : ∀ p ∈ S, p < MAXPID) : Rotates (after t) (S.sort (· ≤ ·)) where
  next := by
    intro l a b r e
    obtain ⟨ha, hb, hab, hnone⟩ := sort_neighbours e
    have hgap : ∀ i, a < i → i < b → (t.pList i).state ≠ 1 := by
      intro i h1 h2 hi
      have hlt := hS b hb
      have := hnone i ((ready.mem i).2 ⟨by omega, by omega, hi⟩)
      omega
    have hn : newpid { t with current := a } = b :=
      newpid_above (t := { t with current := a }) (ready.pid a ha) hab (hS b hb)
        ((ready.mem b).1 hb).2.2 hgap
    rw [after, hn]
    exact ready.pid b hb
  wrap := by
    intro h l a eh e
    have hlen : (l ++ [a]).length = S.card := by rw [← e, Finset.length_sort]
    obtain ⟨l', rfl⟩ : ∃ l', l = h :: l' := by
      rw [e] at eh
      cases l with
      | nil =>
        have := ready.two
        simp only [List.nil_append, List.length_singleton] at hlen
        omega
      | cons x l' =>
        simp only [List.cons_append, List.head?_cons, Option.some.injEq] at eh
        exact ⟨l', by rw [eh]⟩
    obtain ⟨hh, ha, hha, hbetween⟩ := sort_ends e
    have hlow : ∀ i, 1 ≤ i → i < h → (t.pList i).state ≠ 1 := by
      intro i h1 h2 hi
      have hlt := hS h hh
      have := hbetween i ((ready.mem i).2 ⟨h1, by omega, hi⟩)
      omega
    have hhigh : ∀ i, a < i → i < MAXPID → (t.pList i).state ≠ 1 := by
      intro i h1 h2 hi
      have := hbetween i ((ready.mem i).2 ⟨by omega, by omega, hi⟩)
      omega
    have hn : newpid { t with current := a } = h :=
      newpid_below (t := { t with current := a }) (ready.pid a ha) ((ready.mem h).1 hh).1 hha
        ((ready.mem h).1 hh).2.2 hlow hhigh
    rw [after, hn]
    exact ready.pid h hh

/-- A call of `schedule` leaves the set as it is. -/
lemma schedule (ready : ReadySet t S) (hS : ∀ p ∈ S, p < MAXPID) :
    ReadySet (schedule t) S := by
  refine ⟨fun p => ?_, fun p hp => ?_, ?_, ready.two, ?_, ?_⟩
  · rw [schedule_pList, ready.mem]
  · rw [schedule_pList, ready.pid p hp]
  · rw [schedule_pList, ready.kernel_pid]
  · rw [schedule_nProc]
    exact ready.count
  · have h := (ready.rotates hS).mem ((Finset.mem_sort _).2 ready.current)
    rw [schedule_eq ready.nProc]
    exact (Finset.mem_sort _).1 h

lemma iterate (ready : ReadySet t S) (hS : ∀ p ∈ S, p < MAXPID) (k : Nat) :
    ReadySet (Creeks.schedule^[k] t) S := by
  induction k with
  | zero => exact ready
  | succ k ih =>
    rw [Function.iterate_succ_apply']
    exact ih.schedule hS

/-- What a call of `schedule` runs is the kernel thread or a ready process below the last slots. -/
lemma after_lt (ready : ReadySet t S) {c : Nat} (hc : c = 0 ∨ c ∈ S) :
    (after t c = 0 ∨ after t c ∈ S) ∧ after t c < max MAXPID c := by
  have hpid : (t.pList c).pid = c := by
    rcases hc with rfl | hc
    · exact ready.kernel_pid
    · exact ready.pid c hc
  have hle : c ≤ MAXPID + 1 := by
    rcases hc with rfl | hc
    · exact Nat.zero_le _
    · exact ((ready.mem c).1 hc).2.1
  unfold after
  rcases newpid_cases { t with current := c } with h | ⟨h1, h2, h3⟩
  · rw [h, ready.kernel_pid]
    exact ⟨.inl rfl, lt_max_of_lt_left (by decide)⟩
  · dsimp only at h2 h3
    rw [hpid] at h2
    have hS : newpid { t with current := c } ∈ S := (ready.mem _).2 ⟨h1, by omega, h3⟩
    rw [ready.pid _ hS]
    exact ⟨.inr hS, h2⟩

/-- From the second call on, nothing runs in the last slots. -/
lemma iterate_lt (ready : ReadySet t S) (n : Nat) {c : Nat} (hc : c = 0 ∨ c ∈ S)
    (hle : c ≤ MAXPID) : ∀ p ∈ List.iterate (after t) (after t c) n, p < MAXPID := by
  induction n generalizing c with
  | zero => exact fun p h => absurd h (List.not_mem_nil)
  | succ n ih =>
    obtain ⟨h1, h2⟩ := ready.after_lt hc
    have hlt : after t c < MAXPID := by omega
    intro p hp
    rw [List.iterate] at hp
    rcases List.mem_cons.1 hp with rfl | hp
    · exact hlt
    · exact ih h1 hlt.le p hp

end ReadySet

/-- A ready process in one of the last slots is never selected again. -/
lemma ReadySet.unfair {t : Table} {S : Finset Nat} (ready : ReadySet t S) {p : Nat}
    (hle : MAXPID ≤ p) : p ∉ scheduled (Creeks.schedule t) S.card := by
  have hn := ready.nProc
  obtain ⟨h1, h2⟩ := ready.after_lt (.inr ready.current)
  have hcur := ((ready.mem _).1 ready.current).2.1
  rw [scheduled_eq (by rwa [schedule_nProc]), schedule_eq hn]
  intro h
  have := ready.iterate_lt S.card h1 (by omega) p h
  omega

/-- Any `S.card` consecutive calls of `schedule` run every ready process once, and nothing else,
exactly when `schedule` can reach all of their slots. -/
theorem round_robin {t : Table} {S : Finset Nat} (ready : ReadySet t S) :
    (∀ k, (scheduled (schedule^[k] t) S.card).Perm S.toList) ↔ ∀ p ∈ S, p < MAXPID := by
  constructor
  · intro fair p hp
    by_contra hle
    have hperm := fair 1
    rw [Function.iterate_one] at hperm
    exact ready.unfair (by omega) (hperm.mem_iff.2 (Finset.mem_toList.2 hp))
  · intro hS k
    have ready' := ready.iterate hS k
    have h := (ready'.rotates hS).round_perm ((Finset.mem_sort (· ≤ ·)).2 ready'.current)
    rw [Finset.length_sort] at h
    rw [scheduled_eq ready'.nProc]
    exact h.trans (Finset.sort_perm_toList S (· ≤ ·))

/-- The ready processes of a reachable state in which a process runs, none of them behind the
array. -/
lemma ReadySet.of_run {beyond : Nat → Process} {ls : List TableOp} {t : Table}
    (run : Run TableStep (bootTable beyond) ls t) (h0 : t.current ≠ 0)
    (hb : (t.pList (MAXPID + 1)).state ≠ 1)
    (h2 : 2 ≤ ((Finset.Icc 1 MAXPID).filter fun p => (t.pList p).state = 1).card) :
    ReadySet t ((Finset.Icc 1 MAXPID).filter fun p => (t.pList p).state = 1) := by
  have seats := Seats.run run
  have hm : ∀ p, p ∈ (Finset.Icc 1 MAXPID).filter (fun p => (t.pList p).state = 1) ↔
      1 ≤ p ∧ p ≤ MAXPID ∧ (t.pList p).state = 1 := fun p => by
    rw [Finset.mem_filter, Finset.mem_Icc, and_assoc]
  refine ⟨fun p => ?_, fun p hp => ?_, seats.kernel_pid, h2, ?_, ?_⟩
  · rw [hm]
    refine ⟨fun ⟨h1, h2, h⟩ => ⟨h1, by omega, h⟩, fun ⟨h1, h2, h⟩ => ⟨h1, ?_, h⟩⟩
    by_contra hgt
    exact hb (by rwa [show MAXPID + 1 = p by omega])
  · obtain ⟨h1, h2, h⟩ := (hm p).1 hp
    exact seats.pid p h1 h2 (by omega)
  · have hsub : (Finset.Icc 1 MAXPID).filter (fun p => (t.pList p).state = 1) ⊆ live t := by
      intro p hp
      obtain ⟨h1, h2, h⟩ := (hm p).1 hp
      exact mem_live.2 ⟨h1, h2, by omega⟩
    have hcard := Finset.card_le_card hsub
    have hex := excess_nonneg run
    unfold excess at hex
    omega
  · have hlt := seats.current_lt
    exact (hm _).2 ⟨by omega, by omega, seats.running⟩

/-! ## A full array -/

lemma freeSlot_eq {t : Table} {p : Nat} (h1 : 1 ≤ p) (h2 : p ≤ MAXPID)
    (hs : (t.pList p).state = 0) (hb : ∀ i, 1 ≤ i → i < p → (t.pList i).state ≠ 0) :
    freeSlot t = p := by
  have h : (List.range' 1 MAXPID).find? (fun i => (t.pList i).state == 0) = some p := by
    rw [List.find?_range'_eq_some]
    refine ⟨by simp [hs], List.mem_range'_1.2 ⟨h1, by omega⟩, fun i hi hlt => ?_⟩
    simpa using hb i hi hlt
  rw [freeSlot, h, Option.getD_some]

/-- The table after `n` programs have been loaded. -/
def loads (n : Nat) : Table :=
  (fun t => (loadTask t bareElf).1)^[n] (bootTable fun _ => blankProcess)

lemma loads_spec (n : Nat) (h : n ≤ MAXPID) :
    Run TableStep (bootTable fun _ => blankProcess) (List.replicate n (.loadTask bareElf)) (loads n) ∧
      (loads n).current = 0 ∧ (loads n).nProc = n ∧
      ∀ p, ((loads n).pList p).state = if p ≤ n then 1 else 0 := by
  induction n with
  | zero =>
    refine ⟨.nil, rfl, rfl, fun p => ?_⟩
    by_cases e : p = 0
    · rw [e]
      rfl
    · have hb : (bootTable fun _ => blankProcess).pList p = blankProcess := by
        simp [bootTable, e]
      rw [loads, Function.iterate_zero, id, hb, if_neg (by omega)]
      rfl
  | succ n ih =>
    obtain ⟨run, hc, hn, hs⟩ := ih (by omega)
    have e : loads (n + 1) = (loadTask (loads n) bareElf).1 := Function.iterate_succ_apply' ..
    have hfree : freeSlot (loads n) = n + 1 := by
      refine freeSlot_eq (by omega) h ?_ fun i _ hi => ?_
      · rw [hs, if_neg (by omega)]
      · rw [hs, if_pos (by omega)]
        decide
    have hfs : ((loads n).pList (n + 1)).state = 0 := by rw [hs, if_neg (by omega)]
    rw [e, List.replicate_succ']
    refine ⟨.snoc run .loadTask, ?_⟩
    rcases loadTask_cases (loads n) bareElf with ⟨h, -⟩ | ⟨-, h, -⟩ | ⟨-, -, h⟩
    · rw [hfree] at h
      exact absurd hfs h
    · exact absurd h (by decide)
    · rw [h, hfree]
      refine ⟨?_, ?_, fun p => ?_⟩
      · rw [fillSlot_current, claimSlot_current, hc]
      · rw [fillSlot_nProc, claimSlot_nProc, hn, Nat.cast_succ]
      · rw [fillSlot_state, claimSlot_state, hs]
        by_cases ep : p = n + 1
        · rw [if_pos ep, if_pos (by omega)]
        · rw [if_neg ep]
          by_cases hp : p ≤ n
          · rw [if_pos hp, if_pos (by omega)]
          · rw [if_neg hp, if_neg (by omega)]

/-- After `n` loads, between two and the size of the array, the first process runs and all `n` are
ready. -/
lemma loads_ready {n : Nat} (h2 : 2 ≤ n) (h : n ≤ MAXPID) :
    ReadySet (schedule (loads n)) (Finset.Icc 1 n) := by
  obtain ⟨run, hc, hn, hs⟩ := loads_spec n h
  have seats := Seats.run run
  have hpid : ((loads n).pList (loads n).current).pid = 0 := by rw [hc, seats.kernel_pid]
  have hnew : newpid (loads n) = 1 := by
    refine newpid_above hpid (by omega) (by decide) ?_ fun i h1 h2 => by omega
    rw [hs, if_pos (by omega)]
  have hcur : (schedule (loads n)).current = 1 := by
    rw [schedule_eq (by omega)]
    change ((loads n).pList (newpid (loads n))).pid = 1
    rw [hnew]
    exact seats.pid 1 (le_refl _) (by decide) (by rw [hs, if_pos (by omega)]; decide)
  have hm : (Finset.Icc 1 MAXPID).filter (fun p => ((schedule (loads n)).pList p).state = 1)
      = Finset.Icc 1 n := by
    ext p
    rw [Finset.mem_filter, Finset.mem_Icc, Finset.mem_Icc, schedule_pList, hs]
    by_cases hp : p ≤ n
    · rw [if_pos hp]
      refine ⟨fun h => ⟨h.1.1, hp⟩, fun h => ⟨⟨h.1, by omega⟩, rfl⟩⟩
    · rw [if_neg hp]
      exact ⟨fun h => absurd h.2 (by decide), fun h => absurd h.2 hp⟩
  rw [← hm]
  refine ReadySet.of_run (.snoc run .schedule) (by omega) ?_ ?_
  · rw [schedule_pList, hs, if_neg (by omega)]
    decide
  · rw [hm, Nat.card_Icc]
    omega

theorem round_robin_two :
    (∀ k, (scheduled (schedule^[k] (schedule (loads 2))) (Finset.Icc 1 2).card).Perm
      (Finset.Icc 1 2).toList) ↔ ∀ p ∈ Finset.Icc 1 2, p < MAXPID :=
  round_robin (loads_ready (le_refl _) (by decide))

/-- In a full array the last process is ready and is not selected by the next calls. -/
theorem last_slot_starves :
    ReadySet (schedule (loads 32)) (Finset.Icc 1 32) ∧
      ¬ ∀ k, (scheduled (schedule^[k] (schedule (loads 32))) (Finset.Icc 1 32).card).Perm
        (Finset.Icc 1 32).toList := by
  have ready := loads_ready (n := 32) (by decide) (le_refl _)
  have hm : 32 ∈ Finset.Icc 1 32 := Finset.mem_Icc.2 ⟨by decide, le_refl _⟩
  generalize schedule (loads 32) = t at ready ⊢
  refine ⟨ready, fun fair => ready.unfair (le_refl _) ?_⟩
  have h := fair 1
  rw [Function.iterate_one] at h
  exact h.mem_iff.2 (Finset.mem_toList.2 hm)

end Creeks
