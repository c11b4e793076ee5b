import Creeks.Process.Effect

/-!
# The count of live processes

`n_proc` is kept beside the states of the slots: `load_task` adds one before it knows whether the
file can be loaded, and only `sys_exit` takes one off. `live_process_count` says when the counter is
the number of live slots: as long as no `load_task` has counted a process it did not create inside
the array.
-/

namespace Creeks
open Lib

/-- The kernel thread and the running process sit in slots that say so. -/
structure Seats (t : Table) : Prop where
  kernel : (t.pList 0).state = 1
  kernel_pid : (t.pList 0).pid = 0
  pid : ∀ p, 1 ≤ p → p ≤ MAXPID → (t.pList p).state ≠ 0 → (t.pList p).pid = p
  current_lt : t.current < MAXPID
  running : (t.pList t.current).state = 1

namespace Seats

variable {t t' : Table} {op : TableOp}

lemma current_pid (seats : Seats t) : (t.pList t.current).pid = t.current := by
  by_cases h : t.current = 0
  · rw [h, seats.kernel_pid]
  · refine seats.pid _ (by omega) seats.current_lt.le ?_
    rw [seats.running]
    decide

lemma newParent_eq (seats : Seats t) : newParent t = t.current := by
  unfold newParent
  rw [seats.running]
  rfl

/-- A free slot is not the one that runs. -/
lemma slot_ne_current (seats : Seats t) {p : Nat} (h : (t.pList p).state = 0) : p ≠ t.current := by
  rintro rfl
  rw [seats.running] at h
  exact absurd h (by decide)

lemma boot (beyond : Nat → Process) : Seats (bootTable beyond) := by
  refine ⟨rfl, rfl, fun p h1 h2 hs => ?_, Nat.zero_lt_succ 31, rfl⟩
  refine absurd ?_ hs
  change (ite _ _ _ : Process).state = 0
  rw [if_neg (by omega), if_pos h2]
  rfl

lemma claim (seats : Seats t) :
    Seats (claimSlot t (freeSlot t)) := by
  have h1 := one_le_freeSlot t
  refine ⟨?_, ?_, fun p hp1 hp2 h => ?_, seats.current_lt, ?_⟩
  · rw [claimSlot_state, seats.kernel]
  · rw [claimSlot_pid, if_neg (by omega), seats.kernel_pid]
  · rw [claimSlot_pid]
    by_cases e : p = freeSlot t
    · rw [if_pos e, e]
    · rw [if_neg e]
      exact seats.pid p hp1 hp2 (by simpa using h)
  · rw [claimSlot_state]
    exact seats.running

lemma fill (seats : Seats t) (hs : (t.pList (freeSlot t)).state = 0) :
    Seats (fillSlot (claimSlot t (freeSlot t)) (freeSlot t) (newParent t)) := by
  have h1 := one_le_freeSlot t
  have hne := seats.slot_ne_current hs
  have seats' := seats.claim
  refine ⟨?_, ?_, fun p hp1 hp2 h => ?_, seats.current_lt, ?_⟩
  · rw [fillSlot_state, if_neg (by omega), seats'.kernel]
  · rw [fillSlot_pid, seats'.kernel_pid]
  · rw [fillSlot_pid]
    by_cases e : p = freeSlot t
    · rw [claimSlot_pid, if_pos e, e]
    · rw [fillSlot_state, if_neg e] at h
      exact seats'.pid p hp1 hp2 h
  · rw [fillSlot_current, fillSlot_state, claimSlot_current, if_neg hne.symm]
    exact seats'.running

lemma exit (seats : Seats t) (h0 : t.current ≠ 0) (status : Int) : Seats (sysExit t status) := by
  have hk : ((sysExit t status).pList 0).state = 1 := by
    rw [sysExit_state, if_neg (Ne.symm h0), seats.kernel]
  refine ⟨hk, ?_, fun p hp1 hp2 h => ?_, by rw [sysExit_current]; decide, ?_⟩
  · rw [sysExit_pid, seats.kernel_pid]
  · rw [sysExit_pid]
    by_cases e : p = t.current
    · rw [e, seats.current_pid]
    · rw [sysExit_state, if_neg e] at h
      exact seats.pid p hp1 hp2 h
  · rw [sysExit_current, hk]

lemma collect (seats : Seats t) {p : Nat} (hp : (t.pList p).state = -1) :
    Seats (collected t p) := by
  have hlive : ∀ j, (t.pList j).state = 1 → ((collected t p).pList j).state = 1 := by
    intro j hj
    rw [collected_state, if_neg, hj]
    rintro rfl
    rw [hj] at hp
    exact absurd hp (by decide)
  refine ⟨hlive 0 seats.kernel, ?_, fun q h1 h2 h => ?_, seats.current_lt, hlive _ seats.running⟩
  · rw [collected_pid, seats.kernel_pid]
  · rw [collected_pid]
    refine seats.pid q h1 h2 fun hq => h ?_
    rw [collected_state, hq, ite_self]

/-- The slot `schedule` chooses holds its own index. -/
lemma newpid_pid (seats : Seats t) :
    (t.pList (newpid t)).pid = newpid t ∧ newpid t < MAXPID ∧
      (t.pList (newpid t)).state = 1 := by
  have hlt := seats.current_lt
  rcases newpid_cases t with h | ⟨h1, h2, h3⟩
  · rw [h]
    exact ⟨seats.kernel_pid, by decide, seats.kernel⟩
  · rw [seats.current_pid] at h2
    refine ⟨seats.pid _ h1 (by omega) ?_, by omega, h3⟩
    rw [h3]
    decide

lemma sched (seats : Seats t) : Seats (schedule t) := by
  rcases schedule_cases t with h | h
  · rw [h]
    exact seats
  · obtain ⟨h1, h2, h3⟩ := seats.newpid_pid
    rw [h]
    refine ⟨seats.kernel, seats.kernel_pid, seats.pid, ?_, ?_⟩
    · dsimp only
      omega
    · dsimp only
      rw [h1, h3]

/-- Every step keeps the seats. -/
lemma step (seats : Seats t) (st : TableStep t op t') : Seats t' := by
  cases st with
  | loadTask =>
    rename_i file
    rcases loadTask_cases t file with ⟨-, e⟩ | ⟨-, -, e⟩ | ⟨hs, -, e⟩
    · rw [e]
      exact seats
    · rw [e]
      exact seats.claim
    · rw [e]
      exact seats.fill hs
  | sysExit h0 => exact seats.exit h0 _
  | sysWait h0 h =>
    obtain ⟨-, ⟨p, -, hp, rfl, -⟩ | ⟨-, rfl, -⟩⟩ := sysWait_cases h
    · exact seats.collect hp
    · exact seats
  | schedule => exact seats.sched

lemma run {beyond : Nat → Process} {ls : List TableOp}
    (run : Run TableStep (bootTable beyond) ls t) : Seats t :=
  run.invariant (I := Seats) (fun _ _ _ h st => h.step st) (boot beyond)

end Seats

/-- The slots of the array that hold a live process. -/
def live (t : Table) : Finset Nat :=
  (Finset.Icc 1 MAXPID).filter fun p => 0 < (t.pList p).state

lemma mem_live {t : Table} {p : Nat} :
    p ∈ live t ↔ 1 ≤ p ∧ p ≤ MAXPID ∧ 0 < (t.pList p).state := by
  rw [live, Finset.mem_filter, Finset.mem_Icc, and_assoc]

/-- How far the counter is above the number of live slots. -/
def excess (t : Table) : Int := t.nProc - (live t).card

/-- A `load_task` that counts a process without creating one in the array: the file is refused, or
the slot found is the one behind the array. -/
def TableOp.Miscounts (t : Table) : TableOp → Prop
  | .loadTask file =>
    (t.pList (freeSlot t)).state = 0 ∧ (loadElf file = 0 ∨ freeSlot t = MAXPID + 1)
  | _ => False

lemma live_congr {t t' : Table}
    (h : ∀ p, 1 ≤ p → p ≤ MAXPID → (0 < (t'.pList p).state ↔ 0 < (t.pList p).state)) :
    live t' = live t := by
  ext p
  rw [mem_live, mem_live]
  constructor
  · rintro ⟨h1, h2, hp⟩
    exact ⟨h1, h2, (h p h1 h2).1 hp⟩
  · rintro ⟨h1, h2, hp⟩
    exact ⟨h1, h2, (h p h1 h2).2 hp⟩

lemma live_claim (t : Table) (pid : Nat) : live (claimSlot t pid) = live t :=
  live_congr fun p _ _ => by rw [claimSlot_state]

/-- A new process in the array is one more live slot. -/
lemma card_live_fill {t : Table} {pid : Nat} (parent : Nat) (h1 : 1 ≤ pid) (h2 : pid ≤ MAXPID)
    (hs : (t.pList pid).state = 0) :
    (live (fillSlot t pid parent)).card = (live t).card + 1 := by
  have hn : pid ∉ live t := by
    intro h
    obtain ⟨-, -, h⟩ := mem_live.1 h
    omega
  rw [← Finset.card_insert_of_notMem hn]
  congr 1
  ext p
  rw [Finset.mem_insert, mem_live, mem_live, fillSlot_state]
  by_cases e : p = pid
  · simp [e, h1, h2]
  · simp [e]

/-- A process behind the array changes no slot of it. -/
lemma live_fill_beyond (t : Table) (parent : Nat) :
    live (fillSlot t (MAXPID + 1) parent) = live t :=
  live_congr fun p _ h2 => by rw [fillSlot_state, if_neg (by omega)]

/-- An exit is one live slot less. -/
lemma card_live_exit {t : Table} (seats : Seats t) (h0 : t.current ≠ 0) (status : Int) :
    (live (sysExit t status)).card + 1 = (live t).card := by
  have hlt := seats.current_lt
  have hm : t.current ∈ live t := by
    refine mem_live.2 ⟨by omega, by omega, ?_⟩
    rw [seats.running]
    decide
  rw [← Finset.card_erase_add_one hm]
  congr 2
  ext p
  rw [Finset.mem_erase, mem_live, mem_live, sysExit_state]
  by_cases e : p = t.current
  · simp [e]
  · simp [e]

/-- Each step keeps the excess, but a miscounting one, which raises it by one. -/
lemma excess_step {t t' : Table} {op : TableOp} (seats : Seats t) (st : TableStep t op t') :
    (¬ op.Miscounts t → excess t' = excess t) ∧ (op.Miscounts t → excess t' = excess t + 1) := by
  unfold excess
  cases st with
  | loadTask =>
    rename_i file
    rcases loadTask_cases t file with ⟨hs, e⟩ | ⟨hs, hf, e⟩ | ⟨hs, hf, e⟩
    · rw [e]
      exact ⟨fun _ => rfl, fun h => absurd h.1 hs⟩
    · rw [e]
      dsimp only
      rw [live_claim, claimSlot_nProc]
      exact ⟨fun h => absurd ⟨hs, .inl hf⟩ h, fun _ => by omega⟩
    · rw [e]
      dsimp only
      rw [fillSlot_nProc, claimSlot_nProc]
      by_cases hb : freeSlot t = MAXPID + 1
      · rw [hb, live_fill_beyond, live_claim]
        exact ⟨fun h => absurd ⟨hs, .inr hb⟩ h, fun _ => by omega⟩
      · have hle := freeSlot_le t
        rw [card_live_fill _ (one_le_freeSlot t) (by omega) (by rwa [claimSlot_state]), live_claim]
        refine ⟨fun _ => by omega, fun h => ?_⟩
        rcases h.2 with h | h
        · exact absurd h hf
        · exact absurd h hb
  | sysExit h0 =>
    rename_i status
    have h := card_live_exit seats h0 status
    rw [sysExit_nProc]
    exact ⟨fun _ => by omega, False.elim⟩
  | sysWait h0 h =>
    refine ⟨fun _ => ?_, False.elim⟩
    obtain ⟨-, ⟨p, -, hp, rfl, -⟩ | ⟨-, rfl, -⟩⟩ := sysWait_cases h
    · rw [live_congr, collected_nProc]
      intro q _ _
      rw [collected_state]
      by_cases e : q = p
      · subst e
        rw [if_pos rfl, hp]
        decide
      · rw [if_neg e]
    · rfl
  | schedule =>
    refine ⟨fun _ => ?_, False.elim⟩
    have hl : live (schedule t) = live t := live_congr fun p _ _ => by rw [schedule_pList]
    rw [schedule_nProc, hl]

lemma excess_boot (beyond : Nat → Process) : excess (bootTable beyond) = 0 := by
  have h : live (bootTable beyond) = ∅ := by
    ext p
    rw [mem_live]
    refine ⟨fun ⟨h1, h2, h⟩ => ?_, fun h => absurd h (Finset.notMem_empty p)⟩
    change 0 < (ite _ _ _ : Process).state at h
    rw [if_neg (by omega), if_pos h2] at h
    exact absurd h (by decide)
  rw [excess, h]
  rfl

/-- The counter is never below the number of live slots. -/
lemma excess_nonneg {beyond : Nat → Process} {ls : List TableOp} {t : Table}
    (run : Run TableStep (bootTable beyond) ls t) : 0 ≤ excess t := by
  induction run with
  | nil => rw [excess_boot]
  | @snoc ls t op u run st ih =>
    obtain ⟨h1, h2⟩ := excess_step (Seats.run run) st
    by_cases h : op.Miscounts t
    · rw [h2 h]
      omega
    · rw [h1 h]
      exact ih

/-- A step that does not miscount. -/
def CountingStep (t : Table) (op : TableOp) (t' : Table) : Prop :=
  TableStep t op t' ∧ ¬ op.Miscounts t

/-- `n_proc` is the number of live slots, and its tests against 0 and 1 mean what they say. -/
structure CountExact (t : Table) : Prop where
  count : t.nProc = (live t).card
  none : t.nProc = 0 ↔ live t = ∅
  single : t.nProc = 1 ↔ ∃ p, live t = {p}

lemma CountExact.of_excess {t : Table} (h : excess t = 0) : CountExact t := by
  have hc : t.nProc = (live t).card := by
    unfold excess at h
    omega
  refine ⟨hc, ?_, ?_⟩
  · rw [hc, ← Finset.card_eq_zero]
    exact Int.natCast_eq_zero
  · rw [hc, ← Finset.card_eq_one]
    exact Nat.cast_eq_one

lemma CountExact.excess {t : Table} (h : CountExact t) : excess t = 0 := by
  have := h.count
  unfold Creeks.excess
  omega

/-- The counter is exact in the states reached without miscounting, and in no other. -/
theorem live_process_count {beyond : Nat → Process} {ls : List TableOp} {t : Table}
    (run : Run TableStep (bootTable beyond) ls t) :
    CountExact t ↔ Run CountingStep (bootTable beyond) ls t := by
  constructor
  · intro h
    have he := h.excess
    clear h
    induction run with
    | nil => exact .nil
    | @snoc ls t op u run st ih =>
      obtain ⟨h1, h2⟩ := excess_step (Seats.run run) st
      have hn := excess_nonneg run
      by_cases h : op.Miscounts t
      · rw [h2 h] at he
        omega
      · rw [h1 h] at he
        exact .snoc (ih he) ⟨st, h⟩
  · intro good
    refine .of_excess ?_
    clear run
    induction good with
    | nil => exact excess_boot beyond
    | snoc good st ih =>
      have run := good.mono fun _ _ _ h => h.1
      rw [(excess_step (Seats.run run) st.1).1 st.2, ih]

theorem live_process_count_load :
    CountExact (loadTask (bootTable fun _ => blankProcess) bareElf).1 ↔
      Run CountingStep (bootTable fun _ => blankProcess) [.loadTask bareElf]
        (loadTask (bootTable fun _ => blankProcess) bareElf).1 :=
  live_process_count (.snoc .nil .loadTask)

/-- A file of zeros given to the first `load_task` is refused and counted. -/
theorem refused_load_counted :
    ∃ t, Run TableStep (bootTable fun _ => blankProcess) [.loadTask fun _ => 0] t ∧
      t.nProc = 1 ∧ live t = ∅ ∧ ¬ CountExact t :=
  ⟨_, .snoc .nil .loadTask, by decide, by decide,
    fun h => absurd (h.none.2 (by decide)) (by decide)⟩

end Creeks
