import Creeks.Process.Recycle

/-!
# Exits and waits

A child that exits sets the `SIGCHLD` bit of its parent and `sys_wait` clears it, so one bit stands
for all the dead children of a process. `exit_wait` says that the bit is enough when every wait is
made with one dead child there is to collect; `exit_wait_lost` is the run with two of them.

The history of a run keeps, beside the table, the exits that no `sys_wait` has returned yet.
-/

namespace Creeks
open Lib

/-- `sys_kill`, with the value it returns. -/
def sysKill (t : Table) (pid : Nat) (sig : Int) : Table × Int :=
  if (t.pList pid).state > 0 then
    (t.modify pid fun p => { p with signal := setSignal p.signal sig }, 0)
  else (t, -1)

/-- The table, and the pid and status of each exit no `sys_wait` has returned yet. -/
structure History where
  table : Table
  exited : List (Nat × Int)

/-- The calls a run is made of. -/
inductive CallOp where
  | table (op : TableOp)
  | sysKill (pid : Nat) (sig : Int)

/-- The exits not yet returned after a call. -/
def exitedAfter (h : History) : TableOp → List (Nat × Int)
  | .sysExit status => ((h.table.pList h.table.current).pid, status) :: h.exited
  | .sysWait junk =>
    match sysWait h.table junk with
    | some (_, pid, some status) => h.exited.erase (pid, status)
    | _ => h.exited
  | _ => h.exited

/-- One call. -/
inductive CallStep : History → CallOp → History → Prop where
  | table {h op t'} :
    TableStep h.table op t' →
    CallStep h (.table op) ⟨t', exitedAfter h op⟩
  | sysKill {h pid sig} : CallStep h (.sysKill pid sig) ⟨(sysKill h.table pid sig).1, h.exited⟩

/-- The history at boot. -/
def bootHistory (beyond : Nat → Process) : History := ⟨bootTable beyond, []⟩

/-- A dead child of `q` in its child list. -/
def Dead (t : Table) (q c : Nat) : Prop := c ∈ (t.pList q).child ∧ (t.pList c).state = -1

/-- The running process has a `sys_wait` return one of its children, with the status of an exit not
returned before. -/
def Answered (h : History) (junk : Nat) : Prop :=
  ∀ t' pid status, sysWait h.table junk = some (t', pid, status) →
    pid ∈ (h.table.pList h.table.current).child ∧ ∃ st, status = some st ∧ (pid, st) ∈ h.exited

/-- Every live process with a dead child has been told. -/
def Told (t : Table) : Prop :=
  ∀ q ≤ MAXPID, 0 < (t.pList q).state → ∀ c, Dead t q c →
    isSignal (t.pList q).signal SIGCHLD = true

/-- A call one bit is enough for: a wait with one dead child to collect, an exit that hands no dead
child to a kernel thread that has not been told. -/
def CallOp.Suits (t : Table) : CallOp → Prop
  | .table (.sysWait _) => ∃ c, Dead t t.current c ∧ ∀ d, Dead t t.current d → d = c
  | .table (.sysExit _) =>
    (∀ c, ¬ Dead t t.current c) ∨ (t.pList t.current).parent = 0 ∨
      isSignal (t.pList 0).signal SIGCHLD = true
  | _ => True

/-- A call one bit is enough for. A `sys_wait` that spins makes no step. -/
def SuitedStep (h : History) (op : CallOp) (h' : History) : Prop :=
  CallStep h op h' ∧ op.Suits h.table

/-! ## The bit -/

lemma isSignal_eq (mask : BitVec 32) : isSignal mask SIGCHLD = mask.getLsbD 16 := by
  have e : (1#32 <<< ((((SIGCHLD : Nat) : Int) - 1) % 32).toNat) = BitVec.twoPow 32 16 := by decide
  unfold isSignal
  rw [e, BitVec.and_twoPow]
  cases mask.getLsbD 16 <;> decide

/-- No signal clears another. -/
lemma isSignal_set {mask : BitVec 32} (sig : Int) (h : isSignal mask SIGCHLD = true) :
    isSignal (setSignal mask sig) SIGCHLD = true := by
  rw [isSignal_eq] at h ⊢
  unfold setSignal
  rw [BitVec.getLsbD_or, h, Bool.true_or]

lemma isSignal_set_same (mask : BitVec 32) :
    isSignal (setSignal mask SIGCHLD) SIGCHLD = true := by
  have e : (1#32 <<< ((((SIGCHLD : Nat) : Int) - 1) % 32).toNat).getLsbD 16 = true := by decide
  rw [isSignal_eq]
  unfold setSignal
  rw [BitVec.getLsbD_or, e, Bool.or_true]

section Kill

variable (t : Table) (pid j : Nat) (sig : Int)

@[simp] lemma sysKill_current : (sysKill t pid sig).1.current = t.current := by
  unfold sysKill
  split <;> rfl

lemma sysKill_field {α : Type} (g : Process → α)
    (hg : ∀ (p : Process) (m : BitVec 32), g { p with signal := m } = g p) :
    g ((sysKill t pid sig).1.pList j) = g (t.pList j) := by
  unfold sysKill
  split
  · rw [modify_field g (hg _ _)]
  · rfl

lemma sysKill_signal (h : isSignal (t.pList j).signal SIGCHLD = true) :
    isSignal ((sysKill t pid sig).1.pList j).signal SIGCHLD = true := by
  unfold sysKill
  split
  · by_cases e : j = pid
    · subst e
      rw [modify_same]
      exact isSignal_set sig h
    · rw [modify_other _ e]
      exact h
  · exact h

end Kill

/-- An exit takes no signal from anyone and tells the parent. -/
lemma sysExit_told {t : Table} (status : Int)
    (hne : (t.pList t.current).parent ≠ t.current) (j : Nat)
    (h : isSignal (t.pList j).signal SIGCHLD = true ∨
      j = (t.pList t.current).parent ∧ 0 < (t.pList j).state) :
    isSignal ((sysExit t status).pList j).signal SIGCHLD = true := by
  rw [sysExit_signal status j hne]
  split
  · exact isSignal_set_same _
  · rename_i hn
    exact h.resolve_right hn

/-! ## The invariant -/

/-- Every zombie has been announced to its parent and its exit is still to be returned. -/
structure Announced (last : Nat) (h : History) : Prop where
  told : ∀ c, InUse last h.table c → (h.table.pList c).state = -1 →
    0 < (h.table.pList (h.table.pList c).parent).state →
    isSignal (h.table.pList (h.table.pList c).parent).signal SIGCHLD = true
  array : ∀ c, InUse last h.table c → (h.table.pList c).state = -1 → c ≤ MAXPID
  logged : ∀ c, InUse last h.table c → (h.table.pList c).state = -1 →
    (c, (h.table.pList c).status) ∈ h.exited

namespace Announced

variable {last : Nat} {h : History} {t' : Table}

/-- Only what zombies and their parents hold matters. -/
lemma congr (ann : Announced last h) (hs : ∀ p, (t'.pList p).state = (h.table.pList p).state)
    (hp : ∀ p, (t'.pList p).parent = (h.table.pList p).parent)
    (hst : ∀ p, (t'.pList p).status = (h.table.pList p).status)
    (hsig : ∀ p, isSignal (h.table.pList p).signal SIGCHLD = true →
      isSignal (t'.pList p).signal SIGCHLD = true) :
    Announced last ⟨t', h.exited⟩ := by
  have hu : ∀ p, InUse last t' p → InUse last h.table p := fun p hu => by
    unfold InUse at *
    rwa [hs] at hu
  refine ⟨fun c hc hz hl => ?_, fun c hc hz => ?_, fun c hc hz => ?_⟩
  · dsimp only at hz hl ⊢
    rw [hs] at hz
    rw [hp, hs] at hl
    rw [hp]
    exact hsig _ (ann.told c (hu c hc) hz hl)
  · dsimp only at hz
    rw [hs] at hz
    exact ann.array c (hu c hc) hz
  · dsimp only at hz ⊢
    rw [hs] at hz
    rw [hst]
    exact ann.logged c (hu c hc) hz

/-- At boot no slot is in use. -/
lemma boot {beyond : Nat → Process} (tree : Tree last (bootTable beyond)) :
    Announced last (bootHistory beyond) := by
  have hnil : ∀ q, q ≤ MAXPID → ((bootTable beyond).pList q).child = [] := by
    intro q hq
    change (ite _ _ _ : Process).child = []
    by_cases e : q = 0
    · rw [if_pos e]
      rfl
    · rw [if_neg e, if_pos hq]
      rfl
  have hnone : ∀ p, ¬ InUse last (bootTable beyond) p := by
    intro p hp
    have hc := tree.count_parent hp
    have hl := (tree.parent_listed hp).1
    have hb : MAXPID < ((bootTable beyond).pList p).parent := by
      by_contra hle
      rw [hnil _ (by omega), List.count_nil] at hc
      exact absurd hc Nat.zero_ne_one
    -- only the slot behind the array is left, and a slot is not its own parent
    by_cases hp' : p ≤ MAXPID
    · have h1 := hp.1
      have hs := hp.2.2
      change (ite _ _ _ : Process).state ≠ 0 at hs
      rw [if_neg (by omega), if_pos hp'] at hs
      exact hs rfl
    · have h1 := hp.2.1
      have h2 := tree.last_le
      exact (tree.rooted p hp).parent_ne (by omega) (by omega)
  exact ⟨fun c hc => absurd hc (hnone c), fun c hc => absurd hc (hnone c),
    fun c hc => absurd hc (hnone c)⟩

/-- A new process has no dead child and is not dead. -/
lemma fill (ann : Announced last h) (tree : Tree last h.table)
    (hs : (h.table.pList (freeSlot h.table)).state = 0) :
    Announced last ⟨fillSlot (claimSlot h.table (freeSlot h.table)) (freeSlot h.table)
      (newParent h.table), h.exited⟩ := by
  have h1 := one_le_freeSlot h.table
  generalize freeSlot h.table = pid at hs h1
  generalize newParent h.table = parent
  have hstate : ∀ j, ((fillSlot (claimSlot h.table pid) pid parent).pList j).state =
      if j = pid then 1 else (h.table.pList j).state := fun j => by
    rw [fillSlot_state, claimSlot_state]
  have hold : ∀ c, InUse last (fillSlot (claimSlot h.table pid) pid parent) c →
      ((fillSlot (claimSlot h.table pid) pid parent).pList c).state = -1 →
      c ≠ pid ∧ InUse last h.table c ∧ (h.table.pList c).state = -1 := by
    intro c hc hz
    have hne : c ≠ pid := by
      rintro rfl
      rw [hstate, if_pos rfl] at hz
      exact absurd hz (by decide)
    rw [hstate, if_neg hne] at hz
    exact ⟨hne, ⟨hc.1, hc.2.1, by rw [hz]; decide⟩, hz⟩
  refine ⟨fun c hc hz hl => ?_, fun c hc hz => ?_, fun c hc hz => ?_⟩
  · obtain ⟨hne, hu, hz'⟩ := hold c hc hz
    have hpar : ((fillSlot (claimSlot h.table pid) pid parent).pList c).parent =
        (h.table.pList c).parent := by
      rw [fillSlot_parent, if_neg hne, claimSlot_parent]
    have hnp : (h.table.pList c).parent ≠ pid := tree.parent_ne hu (by omega) (by omega)
    dsimp only at hl ⊢
    rw [hpar, hstate, if_neg hnp] at hl
    rw [hpar, fillSlot_signal, if_neg hnp, claimSlot_signal]
    exact ann.told c hu hz' hl
  · obtain ⟨-, hu, hz'⟩ := hold c hc hz
    exact ann.array c hu hz'
  · obtain ⟨hne, hu, hz'⟩ := hold c hc hz
    dsimp only
    rw [fillSlot_status, if_neg hne, claimSlot_status]
    exact ann.logged c hu hz'

/-- An exit announces the process, and its dead children to the kernel thread. -/
lemma exit (ann : Announced last h) (tree : Tree last h.table) (seats : Seats h.table)
    (h0 : h.table.current ≠ 0) (status : Int)
    (suits : (CallOp.table (.sysExit status)).Suits h.table) :
    Announced last ⟨sysExit h.table status, exitedAfter h (.sysExit status)⟩ := by
  have hcur := tree.inUse_current seats h0
  have hmem := tree.mem_child_current seats
  have hne := (tree.rooted _ hcur).parent_ne h0
  have hold : ∀ c, InUse last (sysExit h.table status) c → c ≠ h.table.current →
      ((sysExit h.table status).pList c).state = -1 →
      InUse last h.table c ∧ (h.table.pList c).state = -1 := by
    intro c hc e hz
    rw [sysExit_state, if_neg e] at hz
    exact ⟨⟨hc.1, hc.2.1, by rw [hz]; decide⟩, hz⟩
  refine ⟨fun c hc hz hl => ?_, fun c hc hz => ?_, fun c hc hz => ?_⟩
  · dsimp only at hl ⊢
    rw [sysExit_parent] at hl ⊢
    by_cases hk : c ∈ (h.table.pList h.table.current).child
    · -- a child of the process, dead before it: it goes to the kernel thread
      have e : c ≠ h.table.current := by
        rintro rfl
        exact hne ((hmem _).1 hk).2
      have hz' := (hold c hc e hz).2
      rw [if_pos hk]
      refine sysExit_told status hne 0 ?_
      rcases suits with hn | hp | hsig
      · exact absurd ⟨hk, hz'⟩ (hn c)
      · refine .inr ⟨hp.symm, ?_⟩
        rw [seats.kernel]
        decide
      · exact .inl hsig
    · rw [if_neg hk] at hl ⊢
      rw [sysExit_state] at hl
      have hpc : (h.table.pList c).parent ≠ h.table.current := by
        intro e
        rw [if_pos e] at hl
        exact absurd hl (by decide)
      rw [if_neg hpc] at hl
      refine sysExit_told status hne _ ?_
      by_cases e : c = h.table.current
      · rw [e] at hl ⊢
        exact .inr ⟨rfl, hl⟩
      · obtain ⟨hu, hz'⟩ := hold c hc e hz
        exact .inl (ann.told c hu hz' hl)
  · by_cases e : c = h.table.current
    · rw [e]
      exact seats.current_lt.le
    · obtain ⟨hu, hz'⟩ := hold c hc e hz
      exact ann.array c hu hz'
  · change (c, _) ∈ (_ :: h.exited)
    dsimp only
    rw [sysExit_status]
    by_cases e : c = h.table.current
    · rw [if_pos e, seats.current_pid, e]
      exact List.mem_cons_self
    · rw [if_neg e]
      obtain ⟨hu, hz'⟩ := hold c hc e hz
      exact List.mem_cons_of_mem _ (ann.logged c hu hz')

/-- A wait that collects the only dead child leaves the caller nothing to be told. -/
lemma collect (ann : Announced last h) (tree : Tree last h.table) (seats : Seats h.table)
    {d : Nat} (only : ∀ c, Dead h.table h.table.current c → c = d) :
    Announced last ⟨collected h.table d, h.exited.erase (d, (h.table.pList d).status)⟩ := by
  have hold : ∀ c, InUse last (collected h.table d) c →
      ((collected h.table d).pList c).state = -1 →
      c ≠ d ∧ InUse last h.table c ∧ (h.table.pList c).state = -1 := by
    intro c hc hz
    rw [collected_state] at hz
    split at hz
    · exact absurd hz (by decide)
    · rename_i hne
      exact ⟨hne, ⟨hc.1, hc.2.1, by rw [hz]; decide⟩, hz⟩
  refine ⟨fun c hc hz hl => ?_, fun c hc hz => ?_, fun c hc hz => ?_⟩
  · obtain ⟨hne, hu, hz'⟩ := hold c hc hz
    dsimp only at hl ⊢
    rw [collected_parent] at hl ⊢
    have hpc : (h.table.pList c).parent ≠ h.table.current := fun e =>
      hne (only c ⟨(tree.mem_child_current seats c).2 ⟨hu, e⟩, hz'⟩)
    rw [collected_state] at hl
    split at hl
    · exact absurd hl (by decide)
    · rw [collected_signal_other hpc]
      exact ann.told c hu hz' hl
  · obtain ⟨-, hu, hz'⟩ := hold c hc hz
    exact ann.array c hu hz'
  · obtain ⟨hne, hu, hz'⟩ := hold c hc hz
    dsimp only
    rw [collected_status]
    refine (List.mem_erase_of_ne fun e => hne (congrArg Prod.fst e)).2 ?_
    exact ann.logged c hu hz'

/-- What a wait that returns does when there is a dead child: it collects one. -/
lemma wait_cases (ann : Announced last h) (tree : Tree last h.table) (seats : Seats h.table)
    (dead : ∃ c, Dead h.table h.table.current c) {junk : Nat} {r : Nat × Option Int}
    (hw : sysWait h.table junk = some (t', r)) :
    ∃ d, Dead h.table h.table.current d ∧ InUse last h.table d ∧ t' = collected h.table d ∧
      r = (d, some (h.table.pList d).status) := by
  obtain ⟨-, ⟨d, hd, hz, ht, hr⟩ | ⟨hn, -, -⟩⟩ := sysWait_cases hw
  · have hu := ((tree.mem_child_current seats d).1 hd).1
    have hpid := seats.pid d hu.1 (ann.array d hu hz) hu.2.2
    rw [hpid] at hr
    exact ⟨d, ⟨hd, hz⟩, hu, ht, hr⟩
  · obtain ⟨c, hc, hz⟩ := dead
    exact absurd hz (hn c hc)

/-- Every suited call keeps the announcements. -/
lemma step {op : CallOp} {h' : History} (ann : Announced last h) (tree : Tree last h.table)
    (seats : Seats h.table) (st : SuitedStep h op h') : Announced last h' := by
  obtain ⟨st, suits⟩ := st
  cases st with
  | table st =>
    cases st with
    | loadTask =>
      rename_i file
      change Announced last ⟨_, h.exited⟩
      rcases loadTask_cases h.table file with ⟨-, e⟩ | ⟨-, -, e⟩ | ⟨hs, -, e⟩
      · rw [e]
        exact ann
      · rw [e]
        exact ann.congr (fun _ => claimSlot_state ..) (fun _ => claimSlot_parent ..)
          (fun _ => claimSlot_status ..) fun p hp => by rwa [claimSlot_signal]
      · rw [e]
        exact ann.fill tree hs
    | sysExit h0 => exact ann.exit tree seats h0 _ suits
    | sysWait h0 hw =>
      obtain ⟨c, hc, only⟩ := suits
      obtain ⟨d, hd, -, rfl, rfl⟩ := ann.wait_cases tree seats ⟨c, hc⟩ hw
      dsimp only [exitedAfter]
      rw [hw]
      exact ann.collect tree seats fun e he => (only e he).trans (only d hd).symm
    | schedule =>
      have e := schedule_pList h.table
      exact ann.congr (fun _ => by rw [e]) (fun _ => by rw [e]) (fun _ => by rw [e])
        fun p hp => by rwa [e]
  | sysKill =>
    exact ann.congr (fun p => sysKill_field _ _ p _ Process.state fun _ _ => rfl)
      (fun p => sysKill_field _ _ p _ Process.parent fun _ _ => rfl)
      (fun p => sysKill_field _ _ p _ Process.status fun _ _ => rfl)
      fun p hp => sysKill_signal _ _ p _ hp

end Announced

/-! ## Runs -/

/-- A kill leaves everybody in his seat. -/
lemma Seats.kill {t : Table} (seats : Seats t) (pid : Nat) (sig : Int) :
    Seats (sysKill t pid sig).1 := by
  have hstate := fun p => sysKill_field t pid p sig Process.state fun _ _ => rfl
  have hpid := fun p => sysKill_field t pid p sig Process.pid fun _ _ => rfl
  refine ⟨?_, ?_, fun p h1 h2 h => ?_, ?_, ?_⟩
  · rw [hstate, seats.kernel]
  · rw [hpid, seats.kernel_pid]
  · rw [hstate] at h
    rw [hpid]
    exact seats.pid p h1 h2 h
  · rw [sysKill_current]
    exact seats.current_lt
  · rw [sysKill_current, hstate, seats.running]

lemma Seats.call {h h' : History} {op : CallOp} (seats : Seats h.table) (st : CallStep h op h') :
    Seats h'.table := by
  cases st with
  | table st => exact seats.step st
  | sysKill => exact seats.kill _ _

lemma Tree.call {last : Nat} {h h' : History} {op : CallOp} (tree : Tree last h.table)
    (seats : Seats h.table) (st : CallStep h op h') : Tree last h'.table := by
  cases st with
  | table st => exact tree.step seats st
  | sysKill =>
    exact tree.congr (fun p => sysKill_field _ _ p _ Process.state fun _ _ => rfl)
      (fun p => sysKill_field _ _ p _ Process.parent fun _ _ => rfl)
      fun p => sysKill_field _ _ p _ Process.child fun _ _ => rfl

/-- What holds in every state a run of suited calls reaches. -/
lemma suited_run {beyond : Nat → Process} {ls : List CallOp} {h : History}
    (run : Run SuitedStep (bootHistory beyond) ls h) :
    ∃ last, Seats h.table ∧ Tree last h.table ∧ Announced last h := by
  obtain ⟨last, tree⟩ : ∃ last, Tree last (bootTable beyond) := ⟨_, Tree.boot beyond⟩
  have hinv := run.invariant
    (I := fun h => Seats h.table ∧ Tree last h.table ∧ Announced last h)
    (fun _ _ _ h st => ⟨h.1.call st.1, h.2.1.call h.1 st.1, h.2.2.step h.2.1 h.1 st⟩)
    ⟨Seats.boot beyond, tree, .boot tree⟩
  exact ⟨last, hinv⟩

/-- In every state reached by suited calls each live process with a dead child has been told, so its
`sys_wait` returns; and a suited `sys_wait` returns a child whose exit was not returned before, and
leaves its caller no dead child. -/
theorem exit_wait {beyond : Nat → Process} {ls : List CallOp} {h : History}
    (run : Run SuitedStep (bootHistory beyond) ls h) :
    Told h.table ∧
      ((∃ c, Dead h.table h.table.current c) → ∀ junk, (sysWait h.table junk).isSome) ∧
      ∀ junk h', SuitedStep h (.table (.sysWait junk)) h' →
        Answered h junk ∧ ∀ c, ¬ Dead h'.table h.table.current c := by
  obtain ⟨last, seats, tree, ann⟩ := suited_run run
  have htold : Told h.table := by
    intro q hq hl c ⟨hc, hz⟩
    obtain ⟨hu, rfl⟩ := (tree.child q (by have := tree.le_last; omega) (.inl hq) c).1 hc
    exact ann.told c hu hz hl
  refine ⟨htold, fun ⟨c, hc⟩ junk => ?_, fun junk h' ⟨st, suits⟩ => ⟨?_, fun c hc => ?_⟩⟩
  · have hsig := htold _ seats.current_lt.le (by rw [seats.running]; decide) c hc
    unfold sysWait
    rw [if_pos hsig]
    split <;> rfl
  · obtain ⟨c, hc, -⟩ := suits
    intro t' pid status hw
    obtain ⟨d, hd, hu, -, hr⟩ := ann.wait_cases tree seats ⟨c, hc⟩ hw
    obtain ⟨rfl, rfl⟩ := Prod.mk.inj hr
    exact ⟨hd.1, _, rfl, ann.logged _ hu hd.2⟩
  · obtain ⟨e, he, only⟩ := suits
    cases st with
    | table st =>
      cases st with
      | sysWait h0 hw =>
        obtain ⟨d, hd, -, rfl, -⟩ := ann.wait_cases tree seats ⟨e, he⟩ hw
        obtain ⟨hc, hz⟩ := hc
        dsimp only at hc hz
        rw [collected_child_current] at hc
        rw [collected_state] at hz
        split at hz
        · exact absurd hz (by decide)
        · rename_i hne
          exact hne ((only c ⟨List.mem_of_mem_erase hc, hz⟩).trans (only d hd).symm)

/-- The first process has started another. -/
def twoRunning : Table :=
  (loadTask (schedule (loadTask (bootTable fun _ => blankProcess) bareElf).1) bareElf).1

/-- The child has exited and its parent runs. -/
def oneDead : Table := schedule (sysExit (schedule twoRunning) 5)

/-- A second child has exited before the parent waited. -/
def twoDead : Table := schedule (sysExit (schedule (loadTask oneDead bareElf).1) 6)

theorem exit_wait_one :
    ∃ h, Run SuitedStep (bootHistory fun _ => blankProcess)
        [.table (.loadTask bareElf), .table .schedule, .table (.loadTask bareElf),
          .table .schedule, .table (.sysExit 5), .table .schedule] h ∧
      h.table = oneDead ∧ Dead h.table h.table.current 2 ∧
      Told h.table ∧
      ((∃ c, Dead h.table h.table.current c) → ∀ junk, (sysWait h.table junk).isSome) ∧
      ∀ junk h', SuitedStep h (.table (.sysWait junk)) h' →
        Answered h junk ∧ ∀ c, ¬ Dead h'.table h.table.current c := by
  have childless : ∀ c, ¬ Dead (schedule twoRunning) (schedule twoRunning).current c := by
    intro c hc
    have e : ((schedule twoRunning).pList (schedule twoRunning).current).child = [] := by
      decide +kernel
    have hm := hc.1
    rw [e] at hm
    exact List.not_mem_nil hm
  have run := Run.snoc (.snoc (.snoc (.snoc (.snoc (.snoc
    (.nil : Run SuitedStep (bootHistory fun _ => blankProcess) _ _)
    ⟨.table (@TableStep.loadTask _ bareElf), trivial⟩) ⟨.table .schedule, trivial⟩)
    ⟨.table (@TableStep.loadTask _ bareElf), trivial⟩) ⟨.table .schedule, trivial⟩)
    ⟨.table (@TableStep.sysExit _ 5 (by decide +kernel)), .inl childless⟩)
    ⟨.table .schedule, trivial⟩
  exact ⟨_, run, rfl, ⟨by decide +kernel, by decide +kernel⟩, exit_wait run⟩

/-- Two children exit before the first of two waits: the bit is gone with one of them left, and the
second wait spins. A process that sends itself `SIGCHLD` has a wait return without a child. -/
theorem exit_wait_lost :
    (∃ h, Run CallStep (bootHistory fun _ => blankProcess)
        [.table (.loadTask bareElf), .table .schedule, .table (.loadTask bareElf),
          .table .schedule, .table (.sysExit 5), .table .schedule, .table (.loadTask bareElf),
          .table .schedule, .table (.sysExit 6), .table .schedule, .table (.sysWait 0)] h ∧
      h.table.current = 1 ∧ Dead h.table 1 2 ∧ (2, 5) ∈ h.exited ∧ ¬ Told h.table ∧
      ∀ junk, sysWait h.table junk = none) ∧
    ∃ h, Run CallStep (bootHistory fun _ => blankProcess)
        [.table (.loadTask bareElf), .table .schedule, .sysKill 1 SIGCHLD] h ∧
      ∀ junk, ∃ h', CallStep h (.table (.sysWait junk)) h' ∧ ¬ Answered h junk := by
  constructor
  · have hw : sysWait twoDead 0 = some (collected twoDead 3, 3, some 6) := by
      have hd : deadChild twoDead = some 3 := by decide +kernel
      have hp : (twoDead.pList 3).pid = 3 := by decide +kernel
      have hs : (twoDead.pList 3).status = 6 := by decide +kernel
      unfold sysWait
      rw [if_pos (by decide +kernel), hd]
      dsimp only
      rw [hp, hs]
      rfl
    have run := Run.snoc (.snoc (.snoc (.snoc (.snoc (.snoc (.snoc (.snoc (.snoc (.snoc (.snoc
      (.nil : Run CallStep (bootHistory fun _ => blankProcess) _ _)
      (.table (@TableStep.loadTask _ bareElf))) (.table .schedule))
      (.table (@TableStep.loadTask _ bareElf))) (.table .schedule))
      (.table (@TableStep.sysExit _ 5 (by decide +kernel)))) (.table .schedule))
      (.table (@TableStep.loadTask _ bareElf))) (.table .schedule))
      (.table (@TableStep.sysExit _ 6 (by decide +kernel)))) (.table .schedule))
      (.table (.sysWait (by decide +kernel) hw))
    have dead : Dead (collected twoDead 3) 1 2 := ⟨by decide +kernel, by decide +kernel⟩
    have clear : isSignal ((collected twoDead 3).pList 1).signal SIGCHLD = false := by
      decide +kernel
    refine ⟨_, run, by decide +kernel, dead, by decide +kernel, fun told => ?_, fun junk => ?_⟩
    · have h := told 1 (by decide) (by decide +kernel) 2 dead
      exact absurd (clear.symm.trans h) (by decide)
    · unfold sysWait
      exact if_neg (by decide +kernel)
  · have run := Run.snoc (.snoc (.snoc
      (.nil : Run CallStep (bootHistory fun _ => blankProcess) _ _)
      (.table (@TableStep.loadTask _ bareElf))) (.table .schedule))
      (@CallStep.sysKill _ 1 SIGCHLD)
    refine ⟨_, run, fun junk => ?_⟩
    generalize ht : (sysKill (schedule (loadTask (bootTable fun _ => blankProcess) bareElf).1) 1
      SIGCHLD).1 = t
    have hw : sysWait t junk = some (t, junk, none) := by
      have hd : deadChild t = none := by
        rw [← ht]
        decide +kernel
      unfold sysWait
      rw [if_pos (by rw [← ht]; decide +kernel), hd]
    have h0 : t.current ≠ 0 := by
      rw [← ht]
      decide +kernel
    subst ht
    refine ⟨_, .table (.sysWait h0 hw), fun ans => ?_⟩
    obtain ⟨-, st, e, -⟩ := ans _ _ _ hw
    cases e

end Creeks
