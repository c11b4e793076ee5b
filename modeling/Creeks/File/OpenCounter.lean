import Creeks.File.Descriptors

/-!
# The counter of descriptors

`sys_open` and `sys_exit` keep the field `opened` of a file, `sys_close` does not, and nothing sets it when
the node of the file is created. `open_counter` is the result: without closes, and on nodes whose
chunk happened to hold a zero there, the counter of a file is the number of its descriptors over all live
processes, and the buffer goes with the last of them.
-/

namespace Creeks
open Lib

/-- The descriptors of the list that point to file `f`. -/
abbrev fdCount (l : List OpenFile) (f : Nat) : Nat := l.countP fun of => of.file = some f

/-- The descriptors that point to file `f`, over all live processes. -/
def entries (s : Files) (f : Nat) : Nat := ∑ p ∈ live s.table, fdCount (s.fd p) f

/-- A step that keeps the counters: a node is created over a zero, a `sys_close` closes nothing. -/
def FileOp.Counts (s : Files) : FileOp → Prop
  | .node _ opened => opened = 0
  | .sysClose fd => ¬ OpenFd s.currentFd fd
  | _ => True

def CountedStep (s : Files) (op : FileOp) (s' : Files) : Prop := FileStep s op s' ∧ op.Counts s

/-- The counter of each file of the cache is the number of its descriptors, and an exit frees the buffer
of a file exactly when it drops the last of them. -/
structure OpenExact (s : Files) : Prop where
  count : ∀ f ∈ s.cached, (s.file f).opened = entries s f
  exit_frees : ∀ status s', FileStep s (.sysExit status) s' → ∀ f ∈ s.cached,
    (s'.file f).mmap =
      if 0 < fdCount s.currentFd f ∧ entries s' f = 0 then 0 else (s.file f).mmap

/-- What the counted steps keep. -/
structure Counted (s : Files) : Prop where
  seats : Seats s.table
  count : ∀ f ∈ s.cached, (s.file f).opened = entries s f
  pointed : ∀ f ∉ s.cached, entries s f = 0

/-! ## Lists of descriptors -/

section Lists

variable {l : List OpenFile} {fd f fp : Nat} {of : OpenFile}

/-- An open descriptor counts for its file. -/
lemma fdCount_cons {g : Nat} (h : of.file = some g) (l : List OpenFile) (f : Nat) :
    fdCount (of :: l) f = fdCount l f + if g = f then 1 else 0 := by
  rw [fdCount, List.countP_cons, h]
  simp

/-- The new descriptor is the only change `sys_open` makes to the list. -/
lemma fdCount_allotFd (fp : Nat) (l : List OpenFile) (f : Nat) :
    fdCount (allotFd fp l).1 f = fdCount l f + if f = fp then 1 else 0 := by
  induction l with
  | nil => simp [allotFd, eq_comm]
  | cons of next ih =>
    rw [allotFd]
    split
    case isTrue =>
      dsimp only
      rw [fdCount, List.countP_cons, fdCount, List.countP_cons]
      change fdCount (allotFd fp next).1 f + _ = fdCount next f + _ + _
      rw [ih]
      omega
    case isFalse h =>
      split
      case isTrue hnone =>
        rw [fdCount, List.countP_cons, fdCount, List.countP_cons, hnone]
        simp [eq_comm]
      case isFalse hsome =>
        have hnil : next = [] := by
          by_contra hne
          exact h ⟨hsome, hne⟩
        rw [hnil]
        simp only [fdCount, List.countP_cons, List.countP_nil, decide_eq_true_eq,
          Option.some.injEq, eq_comm (a := fp), Nat.zero_add]
        exact Nat.add_comm _ _

/-- Moving the pointer of a descriptor does not change what it points to. -/
lemma fdCount_set (h : l[fd]? = some of) (ptr f : Nat) :
    fdCount (l.set fd { of with ptr := ptr }) f = fdCount l f := by
  induction l generalizing fd with
  | nil => rfl
  | cons a l ih =>
    cases fd with
    | zero =>
      cases h
      rw [List.set_cons_zero, fdCount, List.countP_cons, fdCount, List.countP_cons]
    | succ fd =>
      rw [List.set_cons_succ, fdCount, List.countP_cons, fdCount, List.countP_cons]
      exact congrArg (· + _) (ih h)

/-- The walk ends at the descriptor of the number. -/
lemma seekFd_get {rest : List OpenFile} (h : seekFd fd l = .ok (some (of :: rest))) :
    l[fd]? = some of := by
  have hne : l ≠ [] := by
    rintro rfl
    rcases seek_nil fd with e | e <;> rw [e] at h <;> cases h
  rcases seek_cases hne fd with ⟨_, _, _, hget, -, e⟩ | ⟨_, _, hget, -, e⟩ | ⟨-, e⟩
  · rw [e] at h
    cases h
    exact hget
  · rw [e] at h
    cases h
    exact hget
  · rw [e] at h
    cases h

/-- The buffer of a file after its descriptors have been dropped, when its counter was not too small. -/
lemma dropFds_mmap {file file' : Nat → File} (h : dropFds l file = .ok file')
    (hle : (fdCount l f : Int) ≤ (file f).opened) :
    (file' f).mmap =
      if 0 < fdCount l f ∧ (file f).opened = fdCount l f then 0 else (file f).mmap := by
  induction l generalizing file with
  | nil =>
    cases h
    simp
  | cons a l ih =>
    cases ha : a.file with
    | none =>
      rw [dropFds, derefFd_closed ha, error_bind] at h
      cases h
    | some g =>
      rw [dropFds, derefFd_open ha, ok_bind] at h
      rw [fdCount_cons ha] at hle ⊢
      by_cases hf : g = f
      · subst hf
        rw [if_pos rfl] at hle ⊢
        push_cast at hle
        rw [ih h (by rw [Function.update_self]; dsimp only; omega), Function.update_self]
        dsimp only
        push_cast
        by_cases hlast : (file g).opened = fdCount l g + 1
        · -- the last descriptor is this one, or one of those that follow
          rw [if_pos (c := 0 < fdCount l g + 1 ∧ _) ⟨Nat.succ_pos _, hlast⟩]
          by_cases hz : fdCount l g = 0
          · rw [if_neg (fun h => absurd h.1 (by omega)), if_pos (by rw [hlast, hz]; rfl)]
          · rw [if_pos ⟨Nat.pos_of_ne_zero hz, by omega⟩]
        · rw [if_neg (c := 0 < fdCount l g + 1 ∧ _) (fun h => hlast h.2),
            if_neg (fun h => hlast (by omega)), if_neg (by omega)]
      · rw [if_neg hf, Nat.add_zero] at hle ⊢
        have hother : ∀ x : File, Function.update file g x f = file f :=
          fun x => Function.update_of_ne (Ne.symm hf) ..
        rw [ih h (by rw [hother]; exact hle), hother]

end Lists

/-! ## Steps -/

namespace Counted

variable {s s' : Files}

/-- The process that makes a call is live. -/
lemma current_live (seats : Seats s.table) (h0 : s.table.current ≠ 0) :
    s.table.current ∈ live s.table := by
  have := seats.current_lt
  refine mem_live.2 ⟨Nat.one_le_iff_ne_zero.2 h0, by omega, ?_⟩
  rw [seats.running]
  decide

/-- Other descriptors for the running process change the entries by their difference. -/
lemma entries_current (seats : Seats s.table) (h0 : s.table.current ≠ 0) (l : List OpenFile)
    (f : Nat) :
    entries (s.setCurrentFd l) f + fdCount s.currentFd f = entries s f + fdCount l f := by
  have hm := current_live seats h0
  unfold entries
  change ∑ p ∈ live s.table, _ + _ = _
  rw [← Finset.add_sum_erase _ _ hm, ← Finset.add_sum_erase (live s.table) _ hm]
  have hrest : ∑ p ∈ (live s.table).erase s.table.current, fdCount ((s.setCurrentFd l).fd p) f =
      ∑ p ∈ (live s.table).erase s.table.current, fdCount (s.fd p) f := by
    refine Finset.sum_congr rfl fun p hp => ?_
    have hfd : (s.setCurrentFd l).fd p = s.fd p :=
      Function.update_of_ne (Finset.ne_of_mem_erase hp) ..
    rw [hfd]
  rw [hrest]
  have hcur : (s.setCurrentFd l).fd s.table.current = l := Function.update_self ..
  rw [hcur]
  change _ + fdCount (s.fd s.table.current) f = _
  omega

/-- The entries only depend on the live processes and their descriptors. -/
lemma entries_congr {f : Nat} (hl : live s'.table = live s.table)
    (hfd : ∀ p ∈ live s.table, fdCount (s'.fd p) f = fdCount (s.fd p) f) :
    entries s' f = entries s f := by
  unfold entries
  rw [hl]
  exact Finset.sum_congr rfl hfd

/-- A state with the same files and as many descriptors for each of them. -/
lemma congr (inv : Counted s) (seats : Seats s'.table) (hc : s'.cached = s.cached)
    (hf : ∀ f, (s'.file f).opened = (s.file f).opened) (he : ∀ f, entries s' f = entries s f) :
    Counted s' := by
  refine ⟨seats, fun f h => ?_, fun f h => ?_⟩
  · rw [hf, he]
    exact inv.count f (hc ▸ h)
  · rw [he]
    exact inv.pointed f (hc ▸ h)

/-- A process that is created has no descriptor: the others are those of before. -/
lemma mem_loadFiles {file : Mem} {p : Nat} {of : OpenFile} (hp : p ∈ live (loadFiles s file).table)
    (h : of ∈ (loadFiles s file).fd p) : p ∈ live s.table ∧ of ∈ s.fd p := by
  have h1 := one_le_freeSlot s.table
  rcases loadTask_cases s.table file with ⟨-, e⟩ | ⟨-, -, e⟩ | ⟨hs, -, e⟩
  · rw [loadFiles, e] at hp h
    exact ⟨hp, h⟩
  · rw [loadFiles, e] at hp h
    exact ⟨live_claim _ _ ▸ hp, h⟩
  · rw [loadFiles, e] at hp h
    dsimp only at hp h
    rw [if_neg (by omega), Function.update_apply] at h
    by_cases hne : p = freeSlot s.table
    · rw [if_pos hne] at h
      cases h
    · rw [if_neg hne] at h
      obtain ⟨p1, p2, hp⟩ := mem_live.1 hp
      rw [fillSlot_state, if_neg hne, claimSlot_state] at hp
      exact ⟨mem_live.2 ⟨p1, p2, hp⟩, h⟩

lemma entries_load (s : Files) (file : Mem) (f : Nat) : entries (loadFiles s file) f = entries s f := by
  have h1 := one_le_freeSlot s.table
  rcases loadTask_cases s.table file with ⟨-, e⟩ | ⟨-, -, e⟩ | ⟨hs, -, e⟩
  · refine entries_congr (by rw [loadFiles, e]) fun p _ => by rw [loadFiles, e]; rfl
  · refine entries_congr (by rw [loadFiles, e]; exact live_claim _ _) fun p _ => by
      rw [loadFiles, e]; rfl
  · have hfd : ∀ p, (loadFiles s file).fd p = if p = freeSlot s.table then [] else s.fd p := by
      intro p
      rw [loadFiles, e]
      dsimp only
      rw [if_neg (by omega), Function.update_apply]
    have hnot : freeSlot s.table ∉ live s.table := by
      intro h
      obtain ⟨-, -, h⟩ := mem_live.1 h
      omega
    have hsub : ∀ p ∈ live (loadFiles s file).table, p ≠ freeSlot s.table → p ∈ live s.table := by
      intro p hp hne
      rw [loadFiles, e] at hp
      obtain ⟨p1, p2, hp⟩ := mem_live.1 hp
      rw [fillSlot_state, if_neg hne, claimSlot_state] at hp
      exact mem_live.2 ⟨p1, p2, hp⟩
    have hsup : live s.table ⊆ live (loadFiles s file).table := by
      intro p hp
      obtain ⟨p1, p2, hs'⟩ := mem_live.1 hp
      rw [loadFiles, e]
      refine mem_live.2 ⟨p1, p2, ?_⟩
      dsimp only
      have hne : p ≠ freeSlot s.table := fun h => hnot (h ▸ hp)
      rw [fillSlot_state, if_neg hne, claimSlot_state]
      exact hs'
    -- the new slot adds nothing to the sum
    unfold entries
    rw [← Finset.sum_subset hsup fun p hp hn => ?_]
    · refine Finset.sum_congr rfl fun p hp => ?_
      have hne : p ≠ freeSlot s.table := fun h => hnot (h ▸ hp)
      rw [hfd, if_neg hne]
    · by_cases hp' : p = freeSlot s.table
      · rw [hfd, if_pos hp']
        rfl
      · exact absurd (hsub p hp hp') hn

/-- A new process has no descriptor. -/
lemma load (inv : Counted s) (file : Mem) : Counted (loadFiles s file) :=
  inv.congr (inv.seats.step .loadTask) rfl (fun _ => rfl) (entries_load s file)

/-- A successful wait collects a process that is not live. -/
lemma live_wait {t t' : Table} {junk : Nat} {r : Nat × Option Int} (h : Creeks.sysWait t junk = some (t', r)) :
    live t' = live t := by
  obtain ⟨-, ⟨p, -, hp, rfl, -⟩ | ⟨-, rfl, -⟩⟩ := sysWait_cases h
  · refine live_congr fun q _ _ => ?_
    rw [collected_state]
    by_cases e : q = p
    · rw [if_pos e, e, hp]
      decide
    · rw [if_neg e]
  · rfl

lemma wait {junk : Nat} {t' : Table} {r : Nat × Option Int} (inv : Counted s)
    (h0 : s.table.current ≠ 0) (h : Creeks.sysWait s.table junk = some (t', r)) :
    Counted { s with table := t' } :=
  inv.congr (inv.seats.step (.sysWait h0 h)) rfl (fun _ => rfl) fun _ =>
    entries_congr (live_wait h) fun _ _ => rfl

lemma entries_open (seats : Seats s.table) (h0 : s.table.current ≠ 0) (fp buf f : Nat) :
    entries (Creeks.sysOpen s (some fp) buf).1 f = entries s f + if f = fp then 1 else 0 := by
  have h := entries_current seats h0 (allotFd fp s.currentFd).1 f
  rw [fdCount_allotFd] at h
  have h' : entries (Creeks.sysOpen s (some fp) buf).1 f =
      entries (s.setCurrentFd (allotFd fp s.currentFd).1) f := rfl
  omega

/-- `sys_open` adds a descriptor and counts it. -/
lemma opened {fp : Option Nat} {buf : Nat} (inv : Counted s) (h0 : s.table.current ≠ 0)
    (hfp : ∀ f, fp = some f → f ∈ s.cached) : Counted (Creeks.sysOpen s fp buf).1 := by
  cases fp with
  | none => exact inv
  | some fp =>
    have he := entries_open inv.seats h0 fp buf
    refine ⟨inv.seats, fun f hf => ?_, fun f hf => ?_⟩
    · rw [he, Creeks.sysOpen]
      dsimp only
      by_cases e : f = fp
      · subst e
        rw [Function.update_self, if_pos rfl, inv.count f hf]
        rfl
      · rw [Function.update_of_ne e, if_neg e, inv.count f hf]
        rfl
    · have hne : f ≠ fp := fun e => hf (e ▸ hfp fp rfl)
      rw [he, if_neg hne, inv.pointed f hf]

/-- A `sys_read` that follows no null pointer moves the pointer of an open descriptor, or does nothing. -/
lemma sysRead_cases {fd bufsize : Nat} {r : Files × Nat × Option (Nat × Nat)}
    (h : Creeks.sysRead s fd bufsize = .ok r) : r.1 = s ∨ ∃ f ptr, s.currentFd[fd]? = some ⟨some f, ptr⟩ ∧
      r.1 = s.setCurrentFd (s.currentFd.set fd
        ⟨some f, wrap (ptr + readCount (s.file f).iSize ptr bufsize)⟩) := by
  rw [Creeks.sysRead] at h
  obtain ⟨o, hseek, h⟩ := bind_ok.1 h
  cases o with
  | none =>
    cases h
    exact .inl rfl
  | some rest =>
    obtain ⟨d, hd, h⟩ := bind_ok.1 h
    cases h
    cases rest with
    | nil => cases hd
    | cons of rest =>
      obtain ⟨file, ptr⟩ := of
      cases file with
      | none => cases hd
      | some f =>
        cases hd
        exact .inr ⟨f, ptr, seekFd_get hseek, rfl⟩

lemma entries_read {fd bufsize f : Nat} {r : Files × Nat × Option (Nat × Nat)} (seats : Seats s.table)
    (h0 : s.table.current ≠ 0) (h : Creeks.sysRead s fd bufsize = .ok r) : entries r.1 f = entries s f := by
  rcases sysRead_cases h with e | ⟨g, ptr, hget, e⟩
  · rw [e]
  · rw [e]
    have he := entries_current seats h0 (s.currentFd.set fd
      ⟨some g, wrap (ptr + readCount (s.file g).iSize ptr bufsize)⟩) f
    rw [fdCount_set hget] at he
    exact Nat.add_right_cancel he

/-- `sys_read` moves the pointer of a descriptor. -/
lemma read {fd bufsize : Nat} {r : Files × Nat × Option (Nat × Nat)} (inv : Counted s)
    (h0 : s.table.current ≠ 0) (h : Creeks.sysRead s fd bufsize = .ok r) : Counted r.1 := by
  have he := fun f => @entries_read s fd bufsize f r inv.seats h0 h
  rcases sysRead_cases h with e | ⟨g, ptr, -, e⟩
  · rwa [e]
  · rw [e] at he ⊢
    exact inv.congr inv.seats rfl (fun _ => rfl) he

/-- A `sys_close` that follows no null pointer closes an open descriptor, or does nothing. -/
lemma sysClose_cases {fd : Nat} (h : Creeks.sysClose s fd = .ok s') : (¬ OpenFd s.currentFd fd ∧ s' = s) ∨
    ∃ f ptr, s.currentFd[fd]? = some ⟨some f, ptr⟩ ∧ s' = { s.setCurrentFd (s.currentFd.set fd ⟨none, 0⟩) with
      file := Function.update s.file f { s.file f with mmap := 0 } } := by
  by_cases hl : s.currentFd = []
  · rw [Creeks.sysClose, hl] at h
    rcases seek_nil fd with hs | hs <;> rw [hs] at h <;> cases h
  · rcases seek_cases hl fd with ⟨of, f, rest, hget, hf, hs⟩ | ⟨of, rest, -, hf, hs⟩ | ⟨hget, hs⟩
    · rw [Creeks.sysClose, hs, ok_bind] at h
      dsimp only at h
      rw [derefFd_open hf, ok_bind] at h
      cases h
      obtain ⟨file, ptr⟩ := of
      cases hf
      exact .inr ⟨f, ptr, hget, rfl⟩
    · rw [Creeks.sysClose, hs, ok_bind] at h
      dsimp only at h
      rw [derefFd_closed hf, error_bind] at h
      cases h
    · rw [Creeks.sysClose, hs, ok_bind] at h
      cases h
      refine .inl ⟨?_, rfl⟩
      rintro ⟨of, hof, -⟩
      rw [hget] at hof
      cases hof

/-- A `sys_close` on a number that is not an open descriptor. -/
lemma close {fd : Nat} (inv : Counted s) (h : Creeks.sysClose s fd = .ok s')
    (hnot : ¬ OpenFd s.currentFd fd) : Counted s' := by
  rcases sysClose_cases h with ⟨-, rfl⟩ | ⟨f, ptr, hget, -⟩
  · exact inv
  · exact absurd ⟨_, hget, nofun⟩ hnot

/-- What an exit that follows no null pointer leaves of the entries. -/
lemma entries_exit {status : Int} (seats : Seats s.table) (h0 : s.table.current ≠ 0)
    (h : Creeks.exitFiles s status = .ok s') (f : Nat) :
    entries s' f + fdCount s.currentFd f = entries s f := by
  obtain ⟨file, -, h⟩ := bind_ok.1 h
  cases h
  have hm := current_live seats h0
  have hl : live (Creeks.sysExit s.table status) = (live s.table).erase s.table.current := by
    ext p
    rw [Finset.mem_erase, mem_live, mem_live, sysExit_state]
    by_cases e : p = s.table.current
    · simp [e]
    · simp [e]
  unfold entries
  rw [← Finset.add_sum_erase (live s.table) _ hm, ← hl]
  exact Nat.add_comm _ _

/-- `sys_exit` takes the descriptors of the process off the counters. -/
lemma exit {status : Int} (inv : Counted s) (h0 : s.table.current ≠ 0)
    (h : Creeks.exitFiles s status = .ok s') : Counted s' := by
  have hexit := entries_exit inv.seats h0 h
  have hopen : ∀ of ∈ s.currentFd, of.file ≠ none := by
    intro of hof hnone
    rw [exitFiles, dropFds_closed hof hnone, error_bind] at h
    cases h
  obtain ⟨file, e, hcount⟩ := @dropFds_ok s.currentFd s.file hopen
  rw [exitFiles, e, ok_bind] at h
  cases h
  refine ⟨inv.seats.exit h0 status, fun f hf => ?_, fun f hf => ?_⟩
  · have h1 := inv.count f hf
    have h2 := hexit f
    have h3 := hcount f
    dsimp only at h2 ⊢
    rw [h3, h1]
    change (entries s f : Int) - (fdCount s.currentFd f : Nat) = _
    omega
  · have h1 := inv.pointed f hf
    have h2 := hexit f
    omega

/-- A new node over a zero. -/
lemma node {f iSize : Nat} (inv : Counted s) (hf : f ∉ s.cached) :
    Counted { s with
      cached := f :: s.cached
      file := Function.update s.file f ⟨false, iSize, 0, 0⟩ } := by
  refine ⟨inv.seats, fun g hg => ?_, fun g hg => ?_⟩
  · change (Function.update s.file f _ g).opened = entries s g
    by_cases e : g = f
    · rw [e, Function.update_self, inv.pointed f hf]
      rfl
    · rw [Function.update_of_ne e]
      cases hg with
      | head => exact absurd rfl e
      | tail _ hg => exact inv.count g hg
  · exact inv.pointed g fun h => hg (List.mem_cons_of_mem _ h)

/-- Every counted step keeps the counters. -/
lemma step {op : FileOp} (inv : Counted s) (st : CountedStep s op s') : Counted s' := by
  obtain ⟨st, good⟩ := st
  cases st with
  | loadTask => exact inv.load _
  | sysWait h0 h => exact inv.wait h0 h
  | schedule =>
    refine inv.congr (inv.seats.step .schedule) rfl (fun _ => rfl) fun f => ?_
    exact entries_congr (live_congr fun p _ _ => by rw [schedule_pList]) fun _ _ => rfl
  | node hf =>
    cases good
    exact inv.node hf
  | sysOpen h0 hfp => exact inv.opened h0 hfp
  | sysRead h0 h => exact inv.read h0 h
  | sysClose h0 h => exact inv.close h good
  | sysExit h0 h => exact inv.exit h0 h

lemma boot (beyond : Nat → Process) (file : Nat → File) : Counted (bootFiles beyond file) :=
  ⟨Seats.boot beyond, nofun, fun _ _ => Finset.sum_eq_zero fun _ _ => rfl⟩

/-- Exact counters free the buffer of a file with its last descriptor. -/
lemma exact (inv : Counted s) : OpenExact s := by
  refine ⟨inv.count, fun status s' st f hf => ?_⟩
  cases st with
  | sysExit h0 h =>
    have he := entries_exit inv.seats h0 h f
    obtain ⟨file, hdrop, h⟩ := bind_ok.1 h
    cases h
    have hc := inv.count f hf
    rw [dropFds_mmap hdrop (by omega), hc]
    congr 1
    exact propext (and_congr_right fun _ => by omega)

end Counted

/-- In every state reached by counted steps the counters are exact. -/
theorem open_counter {beyond : Nat → Process} {file : Nat → File} {ops : List FileOp} {s : Files}
    (run : Run CountedStep (bootFiles beyond file) ops s) : OpenExact s :=
  (run.invariant (I := Counted) (fun _ _ _ => Counted.step) (Counted.boot beyond file)).exact

/-- One process, with one file whose node has been created over a zero. -/
def oneReader : Files where
  table := schedule (loadTask (bootTable fun _ => blankProcess) bareElf).1
  fd := Function.update (fun _ => []) 1 []
  cached := [0]
  file := Function.update (fun _ => ⟨false, 0, 0, 0⟩) 0 ⟨false, 5, 0, 0⟩

lemma oneReader_run : Run CountedStep (bootFiles (fun _ => blankProcess) fun _ => ⟨false, 0, 0, 0⟩)
    [.loadTask bareElf, .schedule, .node 0 0] oneReader :=
  .snoc (.snoc (.snoc .nil ⟨.loadTask, trivial⟩) ⟨.schedule, trivial⟩)
    ⟨.node List.not_mem_nil, rfl⟩

theorem open_counter_one : OpenExact (sysOpen oneReader (some 0) 100).1 :=
  open_counter (.snoc oneReader_run ⟨.sysOpen (by decide) (by simp [oneReader]), trivial⟩)

/-- A file that has been opened and closed is still counted as open. -/
theorem closed_file_counted : ∃ s, Run FileStep
      (bootFiles (fun _ => blankProcess) fun _ => ⟨false, 0, 0, 0⟩)
      [.loadTask bareElf, .schedule, .node 0 0, .sysOpen (some 0) 100, .sysClose 0] s ∧
    0 ∈ s.cached ∧ (s.file 0).opened = 1 ∧ entries s 0 = 0 ∧ ¬ OpenExact s := by
  have run : Run FileStep _ _ oneReader := oneReader_run.mono fun _ _ _ h => h.1
  have hopen : FileStep oneReader (.sysOpen (some 0) 100) (sysOpen oneReader (some 0) 100).1 :=
    .sysOpen (by decide) (by simp [oneReader])
  generalize e : (sysOpen oneReader (some 0) 100).1 = s1 at hopen
  have hclose : ∃ s2, sysClose s1 0 = .ok s2 ∧ 0 ∈ s2.cached ∧ (s2.file 0).opened = 1 ∧
      entries s2 0 = 0 := by
    subst e
    exact ⟨_, rfl, by decide, by decide, by decide⟩
  obtain ⟨s2, hs2, hm, ho, he⟩ := hclose
  refine ⟨s2, .snoc (.snoc run hopen) (.sysClose (by subst e; decide) hs2), hm, ho, he, fun h => ?_⟩
  have hc := h.count 0 hm
  rw [ho, he] at hc
  exact absurd hc (by decide)

end Creeks
