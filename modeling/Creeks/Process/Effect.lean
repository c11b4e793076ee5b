import Creeks.Process.Table

/-!
# Effects of the process functions

One lemma for each field a function of the table changes. Proofs about runs use these and never the
functions' bodies.
-/

namespace Creeks
open Lib

/-! ## Creation -/

section Create

variable (t : Table) (pid parent j : Nat)

private lemma claimSlot_pList :
    (claimSlot t pid).pList = (t.modify pid fun p => { p with pid := pid }).pList := rfl

private lemma claimSlot_field {α : Type} (g : Process → α)
    (hg : ∀ p : Process, g { p with pid := pid } = g p) :
    g ((claimSlot t pid).pList j) = g (t.pList j) := by
  rw [claimSlot_pList, modify_field g (hg _)]

@[simp] lemma claimSlot_current : (claimSlot t pid).current = t.current := rfl
@[simp] lemma claimSlot_nProc : (claimSlot t pid).nProc = t.nProc + 1 := rfl
@[simp] lemma claimSlot_state : ((claimSlot t pid).pList j).state = (t.pList j).state :=
  claimSlot_field t pid j Process.state fun _ => rfl
@[simp] lemma claimSlot_parent : ((claimSlot t pid).pList j).parent = (t.pList j).parent :=
  claimSlot_field t pid j Process.parent fun _ => rfl
@[simp] lemma claimSlot_child : ((claimSlot t pid).pList j).child = (t.pList j).child :=
  claimSlot_field t pid j Process.child fun _ => rfl
@[simp] lemma claimSlot_signal : ((claimSlot t pid).pList j).signal = (t.pList j).signal :=
  claimSlot_field t pid j Process.signal fun _ => rfl
@[simp] lemma claimSlot_status : ((claimSlot t pid).pList j).status = (t.pList j).status :=
  claimSlot_field t pid j Process.status fun _ => rfl

lemma claimSlot_pid : ((claimSlot t pid).pList j).pid = if j = pid then pid else (t.pList j).pid := by
  rw [claimSlot_pList]
  by_cases h : j = pid
  · subst h
    rw [modify_same, if_pos rfl]
  · rw [modify_other _ h, if_neg h]

@[simp] lemma fillSlot_current : (fillSlot t pid parent).current = t.current := rfl
@[simp] lemma fillSlot_nProc : (fillSlot t pid parent).nProc = t.nProc := rfl
@[simp] lemma fillSlot_pid : ((fillSlot t pid parent).pList j).pid = (t.pList j).pid := by
  unfold fillSlot
  rw [modify_field Process.pid rfl, modify_field Process.pid rfl]

lemma fillSlot_state :
    ((fillSlot t pid parent).pList j).state = if j = pid then 1 else (t.pList j).state := by
  unfold fillSlot
  rw [modify_field Process.state rfl]
  by_cases h : j = pid
  · subst h
    rw [modify_same, if_pos rfl]
  · rw [modify_other _ h, if_neg h]

lemma fillSlot_parent :
    ((fillSlot t pid parent).pList j).parent = if j = pid then parent else (t.pList j).parent := by
  unfold fillSlot
  rw [modify_field Process.parent rfl]
  by_cases h : j = pid
  · subst h
    rw [modify_same, if_pos rfl]
  · rw [modify_other _ h, if_neg h]

lemma fillSlot_signal :
    ((fillSlot t pid parent).pList j).signal = if j = pid then 0#32 else (t.pList j).signal := by
  unfold fillSlot
  rw [modify_field Process.signal rfl]
  by_cases h : j = pid
  · subst h
    rw [modify_same, if_pos rfl]
  · rw [modify_other _ h, if_neg h]

lemma fillSlot_status :
    ((fillSlot t pid parent).pList j).status = if j = pid then 0 else (t.pList j).status := by
  unfold fillSlot
  rw [modify_field Process.status rfl]
  by_cases h : j = pid
  · subst h
    rw [modify_same, if_pos rfl]
  · rw [modify_other _ h, if_neg h]

variable {t pid parent j}

lemma fillSlot_child_parent (h : parent ≠ pid) :
    ((fillSlot t pid parent).pList parent).child = pid :: (t.pList parent).child := by
  unfold fillSlot
  rw [modify_same, modify_other _ h]

lemma fillSlot_child_new (h : parent ≠ pid) : ((fillSlot t pid parent).pList pid).child = [] := by
  unfold fillSlot
  rw [modify_other _ h.symm, modify_same]

lemma fillSlot_child_other (h : j ≠ pid) (h' : j ≠ parent) :
    ((fillSlot t pid parent).pList j).child = (t.pList j).child := by
  unfold fillSlot
  rw [modify_other _ h', modify_other _ h]

end Create

/-! ## Exit -/

section Exit

variable (t : Table) (status : Int) (proc j : Nat) (cs : List Nat)

/-- The state in which a process has been marked dead, before its parent is told. -/
private def marked : Table :=
  { t.modify t.current fun p => { p with state := -1, status := status } with nProc := t.nProc - 1 }

private lemma marked_pList :
    (marked t status).pList =
      (t.modify t.current fun p => { p with state := -1, status := status }).pList := rfl

private lemma becomeZombie_cases :
    becomeZombie t status = marked t status ∨
      becomeZombie t status = (marked t status).modify ((marked t status).pList t.current).parent
        fun p => { p with signal := setSignal p.signal SIGCHLD } := by
  unfold becomeZombie
  by_cases h : ((marked t status).pList ((marked t status).pList t.current).parent).state > 0
  · exact .inr (if_pos h)
  · exact .inl (if_neg h)

private lemma becomeZombie_field {α : Type} (g : Process → α)
    (hg : ∀ p : Process, g { p with signal := setSignal p.signal SIGCHLD } = g p) :
    g ((becomeZombie t status).pList j) = g ((marked t status).pList j) := by
  rcases becomeZombie_cases t status with h | h
  · rw [h]
  · rw [h, modify_field g (hg _)]

private lemma marked_field {α : Type} (g : Process → α)
    (hg : ∀ p : Process, g { p with state := -1, status := status } = g p) :
    g ((marked t status).pList j) = g (t.pList j) := by
  rw [marked_pList, modify_field g (hg _)]

@[simp] lemma becomeZombie_current : (becomeZombie t status).current = t.current := by
  rcases becomeZombie_cases t status with h | h <;> rw [h] <;> rfl
@[simp] lemma becomeZombie_nProc : (becomeZombie t status).nProc = t.nProc - 1 := by
  rcases becomeZombie_cases t status with h | h <;> rw [h] <;> rfl
@[simp] lemma becomeZombie_pid : ((becomeZombie t status).pList j).pid = (t.pList j).pid :=
  (becomeZombie_field t status j Process.pid fun _ => rfl).trans
    (marked_field t status j Process.pid fun _ => rfl)
@[simp] lemma becomeZombie_parent : ((becomeZombie t status).pList j).parent = (t.pList j).parent :=
  (becomeZombie_field t status j Process.parent fun _ => rfl).trans
    (marked_field t status j Process.parent fun _ => rfl)
@[simp] lemma becomeZombie_child : ((becomeZombie t status).pList j).child = (t.pList j).child :=
  (becomeZombie_field t status j Process.child fun _ => rfl).trans
    (marked_field t status j Process.child fun _ => rfl)

lemma becomeZombie_state :
    ((becomeZombie t status).pList j).state = if j = t.current then -1 else (t.pList j).state := by
  rw [becomeZombie_field t status j Process.state fun _ => rfl, marked_pList]
  by_cases h : j = t.current
  · subst h
    rw [modify_same, if_pos rfl]
  · rw [modify_other _ h, if_neg h]

lemma becomeZombie_status :
    ((becomeZombie t status).pList j).status =
      if j = t.current then status else (t.pList j).status := by
  rw [becomeZombie_field t status j Process.status fun _ => rfl, marked_pList]
  by_cases h : j = t.current
  · subst h
    rw [modify_same, if_pos rfl]
  · rw [modify_other _ h, if_neg h]

variable {t} in
/-- The parent of the process is told, when it is live. -/
lemma becomeZombie_signal (hne : (t.pList t.current).parent ≠ t.current) :
    ((becomeZombie t status).pList j).signal =
      if j = (t.pList t.current).parent ∧ 0 < (t.pList j).state then
        setSignal (t.pList j).signal SIGCHLD
      else (t.pList j).signal := by
  have hpar : ((marked t status).pList t.current).parent = (t.pList t.current).parent :=
    marked_field t status _ Process.parent fun _ => rfl
  have hstate : ((marked t status).pList (t.pList t.current).parent).state =
      (t.pList (t.pList t.current).parent).state := by
    rw [marked_pList, modify_other _ hne]
  have hsig : ∀ j, ((marked t status).pList j).signal = (t.pList j).signal :=
    fun j => marked_field t status j Process.signal fun _ => rfl
  change ((if ((marked t status).pList ((marked t status).pList t.current).parent).state > 0 then
    (marked t status).modify ((marked t status).pList t.current).parent
      fun p => { p with signal := setSignal p.signal SIGCHLD }
    else marked t status).pList j).signal = _
  rw [hpar, hstate]
  by_cases hs : 0 < (t.pList (t.pList t.current).parent).state
  · rw [if_pos hs]
    by_cases hj : j = (t.pList t.current).parent
    · subst hj
      rw [modify_same, if_pos ⟨rfl, hs⟩]
      change setSignal _ _ = _
      rw [hsig]
    · rw [modify_other _ hj, hsig, if_neg fun h => hj h.1]
  · rw [if_neg hs, hsig, if_neg]
    rintro ⟨rfl, h⟩
    exact hs h

@[simp] lemma reparent_current : (reparent t proc).current = t.current := rfl
@[simp] lemma reparent_nProc : (reparent t proc).nProc = t.nProc := rfl

private lemma reparent_field {α : Type} (g : Process → α)
    (hp : ∀ p : Process, g { p with parent := 0 } = g p)
    (hc : ∀ (p : Process) (l : List Nat), g { p with child := l } = g p) :
    g ((reparent t proc).pList j) = g (t.pList j) := by
  unfold reparent
  rw [modify_field g (hc _ _), modify_field g (hc _ _), modify_field g (hp _)]

lemma reparent_parent :
    ((reparent t proc).pList j).parent = if j = proc then 0 else (t.pList j).parent := by
  unfold reparent
  rw [modify_field Process.parent rfl, modify_field Process.parent rfl]
  by_cases h : j = proc
  · subst h
    rw [modify_same, if_pos rfl]
  · rw [modify_other _ h, if_neg h]

variable {t proc j}

lemma reparent_child_root (h : t.current ≠ 0) :
    ((reparent t proc).pList 0).child = proc :: (t.pList 0).child := by
  unfold reparent
  rw [modify_same]
  change proc :: _ = _
  rw [modify_other _ (Ne.symm h), modify_field Process.child rfl]

lemma reparent_child_current (h : t.current ≠ 0) :
    ((reparent t proc).pList t.current).child = (t.pList t.current).child.erase proc := by
  unfold reparent
  rw [modify_other _ h, modify_same]
  change List.erase _ _ = _
  rw [modify_field Process.child rfl]

lemma reparent_child_other (h : j ≠ 0) (h' : j ≠ t.current) :
    ((reparent t proc).pList j).child = (t.pList j).child := by
  unfold reparent
  rw [modify_other _ h, modify_other _ h', modify_field Process.child rfl]

variable (t j)

lemma foldl_reparent_field {α : Type} (g : Process → α)
    (hp : ∀ p : Process, g { p with parent := 0 } = g p)
    (hc : ∀ (p : Process) (l : List Nat), g { p with child := l } = g p) :
    g ((cs.foldl reparent t).pList j) = g (t.pList j) := by
  induction cs generalizing t with
  | nil => rfl
  | cons c cs ih => rw [List.foldl_cons, ih, reparent_field t c j g hp hc]

@[simp] lemma foldl_reparent_current : (cs.foldl reparent t).current = t.current := by
  induction cs generalizing t with
  | nil => rfl
  | cons c cs ih => rw [List.foldl_cons, ih, reparent_current]

@[simp] lemma foldl_reparent_nProc : (cs.foldl reparent t).nProc = t.nProc := by
  induction cs generalizing t with
  | nil => rfl
  | cons c cs ih => rw [List.foldl_cons, ih, reparent_nProc]

lemma foldl_reparent_parent :
    ((cs.foldl reparent t).pList j).parent = if j ∈ cs then 0 else (t.pList j).parent := by
  induction cs generalizing t with
  | nil => simp
  | cons c cs ih =>
    rw [List.foldl_cons, ih, reparent_parent]
    by_cases h : j ∈ cs
    · simp [h]
    · by_cases h' : j = c <;> simp [h, h']

variable {t j}

lemma foldl_reparent_root (h : t.current ≠ 0) :
    ((cs.foldl reparent t).pList 0).child = cs.reverse ++ (t.pList 0).child := by
  induction cs generalizing t with
  | nil => rfl
  | cons c cs ih =>
    rw [List.foldl_cons, ih (by simpa using h), reparent_child_root h, List.reverse_cons,
      List.append_assoc]
    rfl

lemma foldl_reparent_walked (h : t.current ≠ 0) (hc : (t.pList t.current).child = cs) :
    ((cs.foldl reparent t).pList t.current).child = [] := by
  induction cs generalizing t with
  | nil => exact hc
  | cons c cs ih =>
    rw [List.foldl_cons]
    refine ih (t := reparent t c) h ?_
    rw [reparent_current, reparent_child_current h, hc, List.erase_cons_head]

lemma foldl_reparent_other (h : j ≠ 0) (h' : j ≠ t.current) :
    ((cs.foldl reparent t).pList j).child = (t.pList j).child := by
  induction cs generalizing t with
  | nil => rfl
  | cons c cs ih => rw [List.foldl_cons, ih (by simpa using h'), reparent_child_other h h']

variable (t j)

@[simp] lemma sysExit_current : (sysExit t status).current = 0 := rfl

private lemma sysExit_fold :
    sysExit t status =
      { (t.pList t.current).child.foldl reparent (becomeZombie t status) with current := 0 } := by
  unfold sysExit
  dsimp only
  rw [becomeZombie_current, becomeZombie_child]

private lemma sysExit_pList :
    (sysExit t status).pList =
      ((t.pList t.current).child.foldl reparent (becomeZombie t status)).pList := by
  rw [sysExit_fold]

@[simp] lemma sysExit_nProc : (sysExit t status).nProc = t.nProc - 1 := by
  rw [sysExit_fold]
  dsimp only
  rw [foldl_reparent_nProc, becomeZombie_nProc]

@[simp] lemma sysExit_pid : ((sysExit t status).pList j).pid = (t.pList j).pid := by
  rw [sysExit_pList, foldl_reparent_field _ _ _ Process.pid (fun _ => rfl) (fun _ _ => rfl),
    becomeZombie_pid]

lemma sysExit_state :
    ((sysExit t status).pList j).state = if j = t.current then -1 else (t.pList j).state := by
  rw [sysExit_pList, foldl_reparent_field _ _ _ Process.state (fun _ => rfl) (fun _ _ => rfl),
    becomeZombie_state]

lemma sysExit_status :
    ((sysExit t status).pList j).status =
      if j = t.current then status else (t.pList j).status := by
  rw [sysExit_pList, foldl_reparent_field _ _ _ Process.status (fun _ => rfl) (fun _ _ => rfl),
    becomeZombie_status]

variable {t} in
lemma sysExit_signal (hne : (t.pList t.current).parent ≠ t.current) :
    ((sysExit t status).pList j).signal =
      if j = (t.pList t.current).parent ∧ 0 < (t.pList j).state then
        setSignal (t.pList j).signal SIGCHLD
      else (t.pList j).signal := by
  rw [sysExit_pList, foldl_reparent_field _ _ _ Process.signal (fun _ => rfl) (fun _ _ => rfl),
    becomeZombie_signal _ _ hne]

lemma sysExit_parent :
    ((sysExit t status).pList j).parent =
      if j ∈ (t.pList t.current).child then 0 else (t.pList j).parent := by
  rw [sysExit_pList, foldl_reparent_parent, becomeZombie_parent]

variable {t j}

lemma sysExit_child_root (h : t.current ≠ 0) :
    ((sysExit t status).pList 0).child =
      (t.pList t.current).child.reverse ++ (t.pList 0).child := by
  rw [sysExit_pList, foldl_reparent_root _ (by simpa using h), becomeZombie_child]

lemma sysExit_child_current (h : t.current ≠ 0) :
    ((sysExit t status).pList t.current).child = [] := by
  have hc := becomeZombie_current t status
  rw [sysExit_pList, ← hc]
  refine foldl_reparent_walked _ (by rwa [hc]) ?_
  rw [hc, becomeZombie_child]

lemma sysExit_child_other (h : j ≠ 0) (h' : j ≠ t.current) :
    ((sysExit t status).pList j).child = (t.pList j).child := by
  rw [sysExit_pList, foldl_reparent_other _ h (by simpa using h'), becomeZombie_child]

end Exit

/-! ## Wait -/

/-- The table after `sys_wait` has collected `p`. -/
def collected (t : Table) (p : Nat) : Table :=
  (t.modify p fun q => { q with state := 0 }).modify t.current
    fun q => { q with child := q.child.erase p, signal := clearSignal q.signal SIGCHLD }

/-- What a `sys_wait` that returns does: it collects a dead child, or nothing. -/
lemma sysWait_cases {t t' : Table} {junk : Nat} {r : Nat × Option Int}
    (h : sysWait t junk = some (t', r)) :
    isSignal (t.pList t.current).signal SIGCHLD = true ∧
    ((∃ p, p ∈ (t.pList t.current).child ∧ (t.pList p).state = -1 ∧ t' = collected t p ∧
        r = ((t.pList p).pid, some (t.pList p).status)) ∨
      ((∀ p ∈ (t.pList t.current).child, (t.pList p).state ≠ -1) ∧ t' = t ∧ r = (junk, none))) := by
  unfold sysWait at h
  split at h
  · rename_i hs
    refine ⟨hs, ?_⟩
    split at h
    · rename_i p hp
      obtain ⟨rfl, rfl⟩ := Prod.mk.inj (Option.some.inj h)
      have := List.find?_some hp
      exact .inl ⟨p, List.mem_of_find?_eq_some hp, by simpa using this, rfl, rfl⟩
    · rename_i hp
      obtain ⟨rfl, rfl⟩ := Prod.mk.inj (Option.some.inj h)
      refine .inr ⟨fun p hc => ?_, rfl, rfl⟩
      have := List.find?_eq_none.1 hp p hc
      simpa using this
  · cases h

section Wait

variable (t : Table) (p j : Nat)

@[simp] lemma collected_current : (collected t p).current = t.current := rfl
@[simp] lemma collected_nProc : (collected t p).nProc = t.nProc := rfl
@[simp] lemma collected_pid : ((collected t p).pList j).pid = (t.pList j).pid := by
  unfold collected
  rw [modify_field Process.pid rfl, modify_field Process.pid rfl]
@[simp] lemma collected_parent : ((collected t p).pList j).parent = (t.pList j).parent := by
  unfold collected
  rw [modify_field Process.parent rfl, modify_field Process.parent rfl]
@[simp] lemma collected_status : ((collected t p).pList j).status = (t.pList j).status := by
  unfold collected
  rw [modify_field Process.status rfl, modify_field Process.status rfl]

lemma collected_state :
    ((collected t p).pList j).state = if j = p then 0 else (t.pList j).state := by
  unfold collected
  rw [modify_field Process.state rfl]
  by_cases h : j = p
  · subst h
    rw [modify_same, if_pos rfl]
  · rw [modify_other _ h, if_neg h]

lemma collected_child_current :
    ((collected t p).pList t.current).child = (t.pList t.current).child.erase p := by
  unfold collected
  rw [modify_same]
  change List.erase _ _ = _
  rw [modify_field Process.child rfl]

variable {t p j}

lemma collected_signal_other (h : j ≠ t.current) :
    ((collected t p).pList j).signal = (t.pList j).signal := by
  unfold collected
  rw [modify_other _ h, modify_field Process.signal rfl]

lemma collected_child_other (h : j ≠ t.current) :
    ((collected t p).pList j).child = (t.pList j).child := by
  unfold collected
  rw [modify_other _ h, modify_field Process.child rfl]

end Wait

/-! ## Scheduling -/

/-- `schedule` moves `current` to a process that can run or leaves it. -/
lemma schedule_cases (t : Table) :
    schedule t = t ∨ schedule t = { t with current := (t.pList (newpid t)).pid } := by
  unfold schedule
  split
  · exact .inl rfl
  · split
    · exact .inl rfl
    · exact .inr rfl

@[simp] lemma schedule_pList (t : Table) : (schedule t).pList = t.pList := by
  rcases schedule_cases t with h | h <;> rw [h]
@[simp] lemma schedule_nProc (t : Table) : (schedule t).nProc = t.nProc := by
  rcases schedule_cases t with h | h <;> rw [h]

end Creeks
