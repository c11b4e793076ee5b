import Creeks.Mm.ListEnds
import Creeks.Process.Accounts

/-!
# The chunks of the processes

The kernel heap over whole runs. Every chunk that is out, other than the nodes of the list of free areas, is a
page or a table of a live process, its directory or its console, or one of the records that `load_task` has
forgotten, and `chunks_accounted` says how many these are: two for each file that was loaded, and for a refused
file that of its directory and those of its user pages.

Without arguments `param` has no value when `load_task` frees it after a refused file; such calls are left out
(`MachineOp.Given`).
-/

namespace Creeks
open Lib

/-- The chunks of the kernel heap that process `p` has. -/
def holdings (m : Machine) (p : Nat) : Multiset (Nat × Nat) :=
  userChunks m.kernel p + (m.kernel.pd p).elim 0 (fun pd => {directoryChunk pd}) + {(m.console p, VCONSOLE_SIZE)}

/-- The records that a call of `load_task` forgets: those of the pages of its directory and its kernel stack, or of
the directory and the user pages of a refused file. -/
def forgotten (m m' : Machine) : MachineOp → Nat
  | .load _ =>
    let pid := freeSlot m.kernel.table
    if (m.kernel.table.pList pid).state ≠ 0 then 0
    else if (m'.kernel.table.pList pid).state = 0 then (m'.kernel.pglist pid).length + 1
    else 2
  | _ => 0

/-- The chunks that are out are those of the processes and `n` others. -/
def Booked (m : Machine) (n : Nat) : Prop :=
  ∃ A : Multiset (Nat × Nat), A.card = n ∧
    heapLedger.holds m.kernel.mm (∑ p ∈ liveSlots m.kernel.table, holdings m p + A)

section Steps

variable {m m' : Machine} {live : List Nat} {dir : Nat → PageDirectory} {kstack : Nat → Page} {lost : List Page}
  {op : MachineOp} {x : ExecArgs} {pid n p : Nat} {pd : PageDirectory} {t t' : Table}

lemma holdings_eq (h : m.kernel.pd p = some pd) : holdings m p = taskChunks m p pd := by
  rw [holdings, taskChunks, h, Option.elim_some]

lemma holdings_congr (hpd : m'.kernel.pd p = m.kernel.pd p) (hlist : m'.kernel.pglist p = m.kernel.pglist p)
    (hconsole : m'.console p = m.console p) : holdings m' p = holdings m p := by
  rw [holdings, holdings, userChunks, userChunks, hpd, hlist, hconsole]

lemma liveSlots_congr (h : ∀ p, (t'.pList p).state = 1 ↔ (t.pList p).state = 1) : liveSlots t' = liveSlots t := by
  unfold liveSlots
  exact Finset.filter_congr fun p _ => h p

lemma mem_liveSlots : p ∈ liveSlots t ↔ (1 ≤ p ∧ p ≤ MAXPID + 1) ∧ (t.pList p).state = 1 := by
  rw [liveSlots, Finset.mem_filter, Finset.mem_Icc]

/-- The processes that can run are the same after a step that takes no chunk. -/
lemma MachineStep.liveSlots_quiet (st : MachineStep m op m') (hq : op.Quiet) :
    liveSlots m'.kernel.table = liveSlots m.kernel.table := by
  cases st with
  | load => cases hq
  | fault => cases hq
  | exit => cases hq
  | store h0 h =>
    obtain ⟨-, -, hstore, -⟩ := Isolated.store_storeUser h
    rw [(storeUser_moves hstore).table]
  | sbrk => rfl
  | wait h0 h =>
    refine liveSlots_congr fun p => ?_
    obtain ⟨-, ⟨c, -, hc, rfl, -⟩ | ⟨-, rfl, -⟩⟩ := sysWait_cases h
    · rw [collected_state]
      by_cases hpc : p = c
      · rw [if_pos hpc, hpc, hc]
        decide
      · rw [if_neg hpc]
    · rfl
  | schedule =>
    unfold Machine.schedule
    dsimp only
    split
    · rfl
    · refine liveSlots_congr fun p => ?_
      rcases schedule_cases m.kernel.table with e | e
      · rw [Kernel.setCr3_table, e]
      · rw [Kernel.setCr3_table, e]

lemma Booked.quiet (h : Booked m n) (st : MachineStep m op m') (hq : op.Quiet) : Booked m' n := by
  obtain ⟨A, hcard, holds⟩ := h
  have same := st.quiet hq
  refine ⟨A, hcard, ?_⟩
  rw [st.liveSlots_quiet hq, Finset.sum_congr rfl fun p _ =>
    holdings_congr (congrFun same.pd p) (congrFun same.pglist p) (congrFun same.console p)]
  exact same.holds holds

/-- A page fault adds to the chunks of the process that runs. -/
lemma Booked.fault {a : Nat} (h : Booked m n) (iso : Isolated m live dir kstack lost) (h0 : m.current ≠ 0)
    (hf : m.fault a = .ok (some m')) : Booked m' n := by
  obtain ⟨A, hcard, holds⟩ := h
  obtain ⟨touch, -, hconsole⟩ := fault_ok hf
  have run : TouchRun m.current m.kernel m'.kernel := .tail .refl touch
  have htable := run.table
  have hlive : m.current ∈ liveSlots m.kernel.table := by
    rw [← iso.toFinset, List.mem_toFinset]
    exact iso.current_live h0
  have own := (iso.apart.guests _ (iso.current_live h0)).own
  obtain ⟨pt, hpd, e⟩ := run.effect own
  have hothers : ∀ p ∈ (liveSlots m.kernel.table).erase m.current, holdings m' p = holdings m p := fun p hp => by
    have hne := Finset.ne_of_mem_erase hp
    obtain ⟨r, -, h⟩ := bind_ok.1 hf
    cases r <;> cases h
    exact holdings_congr (Function.update_of_ne hne ..) (Function.update_of_ne hne ..) rfl
  rw [← Finset.add_sum_erase _ _ hlive, holdings_eq own, taskChunks, add_assoc, add_assoc, add_assoc] at holds
  refine ⟨A, hcard, ?_⟩
  rw [htable, ← Finset.add_sum_erase _ _ hlive, Finset.sum_congr rfl hothers, holdings_eq hpd, taskChunks, hconsole,
    add_assoc, add_assoc, add_assoc]
  exact (e _ holds).1

/-- `sys_exit` gives back the chunks of the process that runs. -/
lemma Booked.exit {status : Int} (h : Booked m n) (iso : Isolated m live dir kstack lost) (h0 : m.current ≠ 0)
    (e : m.sysExit status = .ok m') : Booked m' n := by
  obtain ⟨A, hcard, holds⟩ := h
  obtain ⟨pd, s1, s2, s3, s4, hpd, ex⟩ := sysExit_ok e
  have hlive : m.current ∈ liveSlots m.kernel.table := by
    rw [← iso.toFinset, List.mem_toFinset]
    exact iso.current_live h0
  rw [← Finset.add_sum_erase _ _ hlive, holdings_eq hpd, add_assoc] at holds
  have alive : Alive m.current pd.base _ m pd := ⟨hpd, rfl, holds⟩
  have after := alive.exit e
  have hslots : liveSlots m'.kernel.table = (liveSlots m.kernel.table).erase m.current := by
    ext p
    rw [Finset.mem_erase, mem_liveSlots, mem_liveSlots, ex.kernel]
    dsimp only
    rw [sysExit_state]
    split
    case isTrue hp => exact ⟨fun h => absurd h.2 (by decide), fun h => absurd hp h.1⟩
    case isFalse hp => exact ⟨fun h => ⟨hp, h⟩, And.right⟩
  have hothers : ∀ p ∈ (liveSlots m.kernel.table).erase m.current, holdings m' p = holdings m p := fun p hp => by
    have hne := Finset.ne_of_mem_erase hp
    refine holdings_congr ?_ ?_ ?_
    · rw [ex.kernel]
    · rw [ex.kernel]
      exact Function.update_of_ne hne ..
    · rw [ex.consoles]
      exact Function.update_of_ne hne ..
  refine ⟨A, hcard, ?_⟩
  rw [hslots, Finset.sum_congr rfl hothers]
  exact after

/-- A file that is loaded without arguments is accepted. -/
def MachineOp.Given : MachineOp → Prop
  | .load x => x.argv = [] → loadElf x.file ≠ 0
  | _ => True

/-- A refused call leaves the records of the pages of the file and of the directory. -/
lemma Booked.refused {l : Loading} {k : Kernel} (h : Booked m n) (iso : Isolated m live dir kstack lost)
    (tame : TameLoad m x) (hs : (m.kernel.table.pList (freeSlot m.kernel.table)).state = 0) (hne : x.argv ≠ [])
    (hl : loadImage m.kernel x = .ok l)
    (hu : undo l.kernel (freeSlot m.kernel.table) l.previous x.argv.length l.param = .ok k) (no : NoFlags k.mm) :
    Booked { m with kernel := k } (n + ((k.pglist (freeSlot m.kernel.table)).length + 1)) ∧
      (k.table.pList (freeSlot m.kernel.table)).state = 0 := by
  obtain ⟨A, hcard, holds⟩ := h
  obtain ⟨pd, boarded⟩ := loadImage_boards iso.apart iso.runs tame.sized tame.segments hl (Isolated.undo_down hu no)
  obtain ⟨-, e, -, -, htable, -⟩ := boarded.undo iso.apart (iso.slot_free hs) iso.runs iso.cr3 hu no
  have hstate : ∀ p, (k.table.pList p).state = (m.kernel.table.pList p).state := fun p => by
    rw [htable, claimSlot_state]
  refine ⟨?_, (hstate _).trans hs⟩
  -- the copies of the arguments, the directory and its tables are given back
  obtain ⟨c, pd1, hcopy, hparam, hown, effect⟩ := loadImage_effect tame.sized hl
  have spec := fun hF => copyArgs_spec (F := ∑ p ∈ liveSlots m.kernel.table, holdings m p + A) tame.sized hF hcopy
  obtain ⟨strings, copied, h1, -⟩ := spec holds
  rw [← zero_add (argChunks _ _ _ + _)] at h1
  obtain ⟨h2, v2⟩ := effect _ h1
  have copied2 : Copied l.kernel.mm x.argv.length l.param strings := by
    rw [hparam]
    exact copied.congr fun a ha => v2 a (Multiset.mem_add.2 (.inl ha))
  obtain ⟨k6, pd0, mm, h6, hpd0, hd, rfl⟩ := undo_ok hu
  have f6 := freeArgs_frame h6
  have e3 := freeArgs_effect copied2 (mt List.length_eq_zero_iff.1 hne) h6
  have hpd6 : k6.pd (freeSlot m.kernel.table) = some pd1 := by rw [f6.pd, hown]
  obtain rfl : pd1 = pd0 := Option.some.inj (hpd6.symm.trans hpd0)
  have e4 : HeapEffect k6.mm 0 ((k6.setCurrent l.previous).setCr3 (k6.regsCr3 l.previous)).mm 0 :=
    heapEffect_outside rfl rfl rfl
  have all := (e3.add e4).add (pdDestroy_effect hd)
  have hlist : k6.pglist (freeSlot m.kernel.table) = l.kernel.pglist (freeSlot m.kernel.table) := by rw [f6.pglist]
  refine ⟨listChunks (l.kernel.pglist (freeSlot m.kernel.table)) + {pageChunk pd1.base} + A, ?_, ?_⟩
  · change _ = n + ((k6.pglist (freeSlot m.kernel.table)).length + 1)
    rw [hlist, Multiset.card_add, Multiset.card_add, Multiset.card_singleton, listChunks, Multiset.card_map,
      Multiset.coe_card, hcard]
    omega
  · have hslots : liveSlots k6.table = liveSlots m.kernel.table := liveSlots_congr fun p => by
      have hp := hstate p
      change (k6.table.pList p).state = _ at hp
      rw [hp]
    have hothers : ∀ p ∈ liveSlots m.kernel.table, holdings { m with kernel := { (k6.setCurrent l.previous).setCr3
        (k6.regsCr3 l.previous) with mm := mm } } p = holdings m p := fun p hp => by
      have hne : p ≠ freeSlot m.kernel.table := fun e => by
        rw [mem_liveSlots, e, hs] at hp
        exact absurd hp.2 (by decide)
      obtain ⟨h1, h2, -⟩ := e.slots p hne
      exact holdings_congr h1 h2 rfl
    change heapLedger.holds mm (∑ p ∈ liveSlots k6.table, _ + _)
    rw [hslots, Finset.sum_congr rfl hothers]
    rw [userChunks, hown, Option.elim_some, ← hparam] at h2
    have done := (all (listChunks (l.kernel.pglist (freeSlot m.kernel.table)) + {pageChunk pd1.base} +
      (∑ p ∈ liveSlots m.kernel.table, holdings m p + A)) (by convert h2 using 1; abel)).1
    convert done using 1
    abel

lemma start_state (h : m.start pid previous stackp = .ok m') : (m'.kernel.table.pList pid).state = 1 := by
  obtain ⟨g, -, h⟩ := bind_ok.1 h
  obtain ⟨q, -, h⟩ := bind_ok.1 h
  dsimp only at h
  split at h
  · cases h
  · cases h
    dsimp only
    rw [Kernel.setCr3_table, fillSlot_state, if_pos rfl]

lemma start_console {previous stackp : Nat} (h : m.start pid previous stackp = .ok m') (hp : p ≠ pid) :
    m'.console p = m.console p := by
  obtain ⟨g, -, h⟩ := bind_ok.1 h
  obtain ⟨q, -, h⟩ := bind_ok.1 h
  dsimp only at h
  split at h
  · cases h
  · cases h
    exact Function.update_of_ne hp ..

/-- An accepted file has its chunks, and two records are forgotten. -/
lemma Booked.born (h : Booked m n) (iso : Isolated m live dir kstack lost) (tame : TameLoad m x)
    (hload : m.loadTask x = .ok (m', pid)) (hpid : pid ≠ 0) (no : NoFlags m'.kernel.mm) :
    Booked m' (n + 2) ∧ (m'.kernel.table.pList pid).state = 1 := by
  obtain ⟨A, hcard, holds⟩ := h
  obtain ⟨pd, pg, hown, after⟩ := loadTask_effect tame.sized hload hpid holds
  obtain ⟨rfl, hs, l, c, hl, -, hc, hm⟩ := loadTask_ok hload hpid
  have push := pushArgs_moves tame.sized.array (tame.arguments l hl) hc
  have noc : NoFlags c.1.mm := Isolated.start_down hm no
  obtain ⟨pd0, boarded⟩ := loadImage_boards iso.apart iso.runs tame.sized tame.segments hl (push.flags.down noc)
  obtain ⟨pd1, pg1, -, e, -, -, -, -, htable⟩ := boarded.start iso.apart (iso.slot_free hs) push hm no
  have hstate : ∀ p, (m'.kernel.table.pList p).state =
      if p = freeSlot m.kernel.table then 1 else (m.kernel.table.pList p).state := fun p => by
    rw [htable, fillSlot_state, claimSlot_state]
  have hnew : freeSlot m.kernel.table ∉ liveSlots m.kernel.table := fun h => by
    rw [mem_liveSlots, hs] at h
    exact absurd h.2 (by decide)
  have hslots : liveSlots m'.kernel.table = insert (freeSlot m.kernel.table) (liveSlots m.kernel.table) := by
    ext p
    rw [Finset.mem_insert, mem_liveSlots, mem_liveSlots, hstate]
    by_cases hp : p = freeSlot m.kernel.table
    · rw [if_pos hp, hp]
      exact ⟨fun _ => .inl rfl, fun _ => ⟨⟨one_le_freeSlot _, freeSlot_le _⟩, rfl⟩⟩
    · rw [if_neg hp]
      exact ⟨.inr, fun h => h.resolve_left hp⟩
  have hothers : ∀ p ∈ liveSlots m.kernel.table, holdings m' p = holdings m p := fun p hp => by
    have hne : p ≠ freeSlot m.kernel.table := fun e => hnew (e ▸ hp)
    obtain ⟨h1, h2, -⟩ := e.slots p hne
    exact holdings_congr h1 h2 (start_console (m := { m with kernel := c.1 }) hm hne)
  refine ⟨⟨{pageChunk pd.base} + {pageChunk pg} + A, ?_, ?_⟩, by rw [hstate, if_pos rfl]⟩
  · rw [Multiset.card_add, Multiset.card_add, Multiset.card_singleton, Multiset.card_singleton, hcard]
    omega
  · rw [hslots, Finset.sum_insert hnew, Finset.sum_congr rfl hothers, holdings_eq hown]
    convert after using 1
    abel

lemma loadImage_entry {k : Kernel} {l : Loading} (h : loadImage k x = .ok l) : l.eEntry = loadElf x.file := by
  obtain ⟨c, -, h⟩ := bind_ok.1 h
  obtain ⟨d, -, h⟩ := bind_ok.1 h
  obtain ⟨f, -, h⟩ := bind_ok.1 h
  obtain ⟨e, he, h⟩ := bind_ok.1 h
  obtain ⟨k, -, h⟩ := bind_ok.1 h
  cases h
  exact (loadElfInto_spec he).2

/-- Every clean step keeps the account. -/
lemma Booked.step (h : Booked m n) (iso : Isolated m live dir kstack lost) (st : CleanStep m op m') (given : op.Given) :
    Booked m' (n + forgotten m m' op) := by
  obtain ⟨st, tame, no⟩ := st
  cases st with
  | @load y _ pid hload =>
    by_cases hs : (m.kernel.table.pList (freeSlot m.kernel.table)).state = 0
    · have hforget : forgotten m m' (.load y) = if (m'.kernel.table.pList (freeSlot m.kernel.table)).state = 0 then
          (m'.kernel.pglist (freeSlot m.kernel.table)).length + 1 else 2 := if_neg (not_not.2 hs)
      rw [hforget]
      by_cases hpid : pid = 0
      · unfold Machine.loadTask at hload
        dsimp only at hload
        rw [if_neg (not_not.2 hs)] at hload
        obtain ⟨l, hl, hload⟩ := bind_ok.1 hload
        split at hload
        case isTrue hentry =>
          obtain ⟨k, hu, hload⟩ := bind_ok.1 hload
          cases hload
          have hne : y.argv ≠ [] := fun hnil => given hnil ((loadImage_entry hl).symm.trans hentry)
          obtain ⟨booked, hstate⟩ := h.refused iso tame hs hne hl hu no
          rw [if_pos hstate]
          exact booked
        case isFalse =>
          obtain ⟨c, -, hload⟩ := bind_ok.1 hload
          obtain ⟨m1, -, hload⟩ := bind_ok.1 hload
          cases hload
          exact absurd hpid (Nat.one_le_iff_ne_zero.1 (one_le_freeSlot _))
      · obtain ⟨booked, hstate⟩ := h.born iso tame hload hpid no
        have hslot := (loadTask_ok hload hpid).1
        rw [hslot] at hstate
        rw [if_neg (by rw [hstate]; decide)]
        exact booked
    · unfold Machine.loadTask at hload
      dsimp only at hload
      rw [if_pos hs] at hload
      cases hload
      have hforget : forgotten m m (.load y) = 0 := if_pos hs
      rwa [hforget]
  | fault h0 hf => exact h.fault iso h0 hf
  | exit h0 he => exact h.exit iso h0 he
  | store h0 hs => exact h.quiet (.store h0 hs) trivial
  | sbrk h0 => exact h.quiet (.sbrk h0) trivial
  | wait h0 hw => exact h.quiet (.wait h0 hw) trivial
  | schedule => exact h.quiet .schedule trivial

end Steps

/-- A clean step with the number of the records that have been forgotten. -/
def BookedStep (y : Machine × Nat) (op : MachineOp) (y' : Machine × Nat) : Prop :=
  CleanStep y.1 op y'.1 ∧ op.Given ∧ y'.2 = y.2 + forgotten y.1 y'.1 op

section Runs

variable {boot s0 : Mm} {highMem n : Nat} {ops : List MachineOp} {m : Machine}

/-- Every run can be booked. -/
lemma booked_run {m m' : Machine} (run : Run CleanStep m ops m') (given : ∀ op ∈ ops, op.Given) (n : Nat) :
    ∃ n', Run BookedStep (m, n) ops (m', n') := by
  induction run with
  | nil => exact ⟨n, .nil⟩
  | @snoc ops m1 op m2 _ st ih =>
    obtain ⟨n1, h1⟩ := ih fun op hop => given op (List.mem_append_left _ hop)
    exact ⟨n1 + forgotten m1 m2 op, .snoc h1 ⟨st, given op (List.mem_append_right _ List.mem_cons_self), rfl⟩⟩

lemma Booked.run (init : initMm boot highMem = .ok s0) (run : Run BookedStep (bootMachine s0, 0) ops (m, n)) :
    Booked m n := by
  have start : Booked (bootMachine s0) 0 := by
    refine ⟨0, rfl, ?_⟩
    rw [← (Isolated.boot init).toFinset, List.toFinset_nil, Finset.sum_empty]
    exact (VmInv.init init).holds
  obtain ⟨live, dir, kstack, lost, -, booked⟩ := run.invariant (I := fun y => ∃ live dir kstack lost,
    Isolated y.1 live dir kstack lost ∧ Booked y.1 y.2) (by
      rintro ⟨m, n⟩ op ⟨m', n'⟩ ⟨live, dir, kstack, lost, iso, booked⟩ ⟨st, given, hn⟩
      obtain ⟨live', dir', kstack', lost', kept⟩ := iso.step st
      dsimp only at hn booked ⊢
      rw [hn]
      exact ⟨live', dir', kstack', lost', kept.isolated, booked.step iso st given⟩)
    ⟨_, _, _, _, .boot init, start⟩
  exact booked

/-- In every clean run from boot in which no file without arguments is refused, the chunks of the kernel heap that
are out, other than the nodes of the list of free areas, are those of the live processes and the records that
`load_task` has forgotten. -/
theorem chunks_accounted (init : initMm boot highMem = .ok s0)
    (run : Run BookedStep (bootMachine s0, 0) ops (m, n)) : ∃ A : Multiset (Nat × Nat), A.card = n ∧
      heapLedger.holds m.kernel.mm (∑ p ∈ liveSlots m.kernel.table, holdings m p + A) :=
  Booked.run init run

theorem chunks_accounted_bare : ∃ (m : Machine) (A : Multiset (Nat × Nat)), A.card = 2 ∧
    heapLedger.holds m.kernel.mm (∑ p ∈ liveSlots m.kernel.table, holdings m p + A) := by
  obtain ⟨s0, init, seated⟩ := Seated.boot
  obtain ⟨m', kernel, others, pd, kstack, load, first, -⟩ := (seated.mono (by decide)).next (n := 0)
    (by decide +kernel) (by decide +kernel) (by decide +kernel) (by decide +kernel)
  have clean : CleanStep (bootMachine s0) (.load bareArgs) m' :=
    ⟨.load load, bareArgs_tame _, schedule_flags ⟨first.idle.supply.oom, first.idle.stale⟩⟩
  have hforget : 0 + forgotten (bootMachine s0) m' (.load bareArgs) = 2 := by
    obtain ⟨-, hfree, l, c, -, -, -, hm⟩ := loadTask_ok load (by decide +kernel)
    have hborn : (m'.kernel.table.pList (freeSlot (bootMachine s0).kernel.table)).state = 1 := start_state hm
    change ((bootMachine s0).kernel.table.pList (freeSlot (bootMachine s0).kernel.table)).state = 0 at hfree
    unfold forgotten
    dsimp only
    rw [if_neg (not_not.2 hfree), if_neg (by rw [hborn]; decide)]
  have run : Run BookedStep (bootMachine s0, 0) [.load bareArgs]
      (m', 0 + forgotten (bootMachine s0) m' (.load bareArgs)) :=
    .snoc .nil ⟨clean, fun _ => by decide, rfl⟩
  obtain ⟨A, hcard, holds⟩ := chunks_accounted init run
  exact ⟨m', A, hcard.trans hforget, holds⟩

end Runs

end Creeks
