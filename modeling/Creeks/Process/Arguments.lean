import Creeks.Process.Holdings
import Creeks.Process.Stocked

/-!
# The arguments of main

A process that waits after its load finds the frame of a call of `main` when it first runs, whatever the other
processes have done (`arguments_passed`): what it sees is kept by the steps of the others, like what it has
stored itself.
-/

namespace Creeks
open Lib

/-! ## The process that starts -/

section Start

variable {m m' m1 m2 : Machine} {pid previous stackp : Nat} {pd : PageDirectory} {kernel users : List Page}
  {x : ExecArgs} {live : List Nat} {dir : Nat → PageDirectory} {kstack : Nat → Page} {lost : List Page}
  {A : Multiset (Nat × Nat)}

lemma start_esp (h : m.start pid previous stackp = .ok m') :
    m'.regsEsp = Function.update m.regsEsp pid stackp := by
  obtain ⟨g, -, h⟩ := bind_ok.1 h
  obtain ⟨q, -, h⟩ := bind_ok.1 h
  dsimp only at h
  split at h
  · cases h
  · cases h
    rfl

/-- The end of `load_task` leaves the bytes of the new process. -/
lemma InSpace.byte_start {a : Nat} (space : InSpace m.kernel pid pd kernel users)
    (h : m.start pid previous stackp = .ok m') (no : NoFlags m'.kernel.mm) (hlo : USER_OFFSET ≤ a)
    (hhi : a < USER_STACK) : processByte m'.kernel pid a = userByte m.kernel.mm a := by
  obtain ⟨pg, s1, s2, started⟩ := start_ok space.own h
  have hmm := started.mm
  have no2 : NoFlags s2 := by
    rw [hmm] at no
    exact ⟨no.oom, no.stale⟩
  have no1 : NoFlags s1 := (FlagsKept.kmalloc started.kmalloc).down no2
  obtain ⟨held, hcr3, hout⟩ := space.frames.held.get space.dirMap started.get no1.oom
  have hdir : s1.dir = m.kernel.mm.dir := by rw [Mm.dir, Mm.dir, hcr3]
  have grows := kmalloc_frame (hdir ▸ space.dirMap.sameOutside hout) held.lower held.upper (by decide) started.kmalloc
  refine space.byte_outside ?_ ?_ hlo hhi
  · change SameOutside m.kernel.mm.ram m'.kernel.mm.ram
    rw [hmm]
    exact hout.trans (grows.sameOutside held.lower)
  · change m'.kernel.regsCr3 pid / 4096 = m.kernel.mm.dir
    rw [started.regsCr3, Function.update_self, space.dir]
    rfl

/-- The file is loaded, and the copies of the arguments are still there. -/
lemma Isolated.copies {l : Loading} (iso : Isolated m live dir kstack lost) (heap : heapLedger.holds m.kernel.mm A)
    (sized : Sized x) (hstart : StartsBelow ((List.range (ePhnum x.file)).map (phdr x.file)))
    (hl : loadImage m.kernel x = .ok l) (hne : x.argv ≠ []) (no : NoFlags l.kernel.mm) :
    ∃ pd strings G, Writable l.kernel (freeSlot m.kernel.table) pd (live.flatMap (heldPages dir kstack))
        (live.flatMap m.kernel.pglist ++ lost) (argChunks x.argv.length l.param strings + G) ∧
      Copies l.kernel.mm x.argv l.param strings := by
  obtain ⟨pd, boarded⟩ := loadImage_boards iso.apart iso.runs sized hstart hl no
  obtain ⟨c, pd0, hcopy, hparam, -, effect⟩ := loadImage_effect sized hl
  obtain ⟨strings, copies, holds⟩ := copyArgs_text sized hne
    (show heapLedger.holds ({ m.kernel with
      table := claimSlot m.kernel.table (freeSlot m.kernel.table), allocated := [] } : Kernel).mm A from heap) hcopy
  rw [← zero_add (argChunks _ _ _ + A)] at holds
  obtain ⟨after, same⟩ := effect _ holds
  rw [add_assoc, add_left_comm _ (argChunks _ _ _)] at after
  rw [hparam]
  exact ⟨pd, strings, _, ⟨boarded.space, after⟩, copies.congr fun a ha => same a (Multiset.mem_add.2 (.inl ha))⟩

/-- A load with arguments leaves the frame of `main`. -/
lemma Isolated.frame (iso : Isolated m live dir kstack lost) (heap : heapLedger.holds m.kernel.mm A)
    (tame : TameLoad m x) (h : m.loadTask x = .ok (m', pid)) (hpid : pid ≠ 0) (no : NoFlags m'.kernel.mm)
    (hne : x.argv ≠ []) (hz : ∀ arg ∈ x.argv, 0 ∉ arg) :
    ∃ ptr, MainFrame (processByte m'.kernel pid) (m'.regsEsp pid) x.argv ptr := by
  obtain ⟨rfl, -, l, c, hl, -, hc, hm⟩ := loadTask_ok h hpid
  have push := pushArgs_moves tame.sized.array (tame.arguments l hl) hc
  have noc : NoFlags c.1.mm := Isolated.start_down hm no
  obtain ⟨pd, strings, G, writable, copies⟩ :=
    iso.copies heap tame.sized tame.segments hl hne (push.flags.down noc)
  obtain ⟨pd', ptr, space, frame⟩ := writable.pushArgs hne tame.sized.array copies
    (fun a ha => Multiset.mem_add.2 (.inl ha)) hz (tame.arguments l hl) hc noc
  refine ⟨ptr, ?_⟩
  rw [start_esp hm, Function.update_self]
  refine frame.mono hne fun a b hlo hhi hb => ?_
  rw [InSpace.byte_start (m := { m with kernel := c.1 }) space hm no hlo hhi]
  exact hb

/-- The saved stack pointer of a process is its own. -/
lemma MachineStep.regsEsp {op : MachineOp} (st : MachineStep m op m') (hs : (m.kernel.table.pList pid).state = 1) :
    m'.regsEsp pid = m.regsEsp pid := by
  cases st with
  | @load y _ q h =>
    by_cases hq : q = 0
    · unfold Machine.loadTask at h
      dsimp only at h
      split at h
      · cases h
        rfl
      · obtain ⟨l, -, h⟩ := bind_ok.1 h
        split at h
        · obtain ⟨k, -, h⟩ := bind_ok.1 h
          cases h
          rfl
        · obtain ⟨c, -, h⟩ := bind_ok.1 h
          obtain ⟨m1, -, h⟩ := bind_ok.1 h
          cases h
          exact absurd hq (Nat.one_le_iff_ne_zero.1 (one_le_freeSlot _))
    · obtain ⟨rfl, h0, l, c, -, -, -, hm⟩ := loadTask_ok h hq
      have hne : pid ≠ freeSlot m.kernel.table := fun e => by
        rw [e, h0] at hs
        exact absurd hs (by decide)
      rw [start_esp hm, Function.update_of_ne hne]
  | fault h0 h =>
    obtain ⟨r, -, h⟩ := bind_ok.1 h
    cases r <;> cases h
    rfl
  | store h0 h =>
    unfold Machine.store at h
    split at h
    · obtain ⟨y, -, rfl⟩ := Option.map_eq_some_iff.1 h
      rfl
    · cases h
  | sbrk h0 => rfl
  | exit h0 h =>
    obtain ⟨s1, -, h⟩ := bind_ok.1 h
    obtain ⟨s2, -, h⟩ := bind_ok.1 h
    obtain ⟨r, -, h⟩ := bind_ok.1 h
    split at h
    · cases h
    · obtain ⟨s4, -, h⟩ := bind_ok.1 h
      cases h
      rfl
  | wait h0 h => rfl
  | schedule =>
    unfold Machine.schedule
    dsimp only
    split <;> rfl

/-- What a process that waits remembers is not touched. -/
lemma note_waits {op : MachineOp} {y : Notes} (hs : (m.kernel.table.pList pid).state = 1) (hcur : m.current ≠ pid) :
    note m y op pid = y pid := by
  cases op with
  | load z =>
    unfold note
    dsimp only
    split
    case isTrue h0 =>
      have hne : pid ≠ freeSlot m.kernel.table := fun e => by
        rw [e, h0] at hs
        exact absurd hs (by decide)
      exact Function.update_of_ne hne ..
    case isFalse => rfl
  | store a b => exact Function.update_of_ne hcur.symm ..
  | _ => rfl

section Boot

variable {text : List UInt8}

/-- The first `load_task` after the boot loads a file with an argument. -/
lemma OneArgument.boot (hx : OneArgument x text) (hz : 0 ∉ text) : ∃ s0 m', initMm blankMm 16384 = .ok s0 ∧
    (bootMachine s0).loadTask x = .ok (m', 1) ∧ CleanStep (bootMachine s0) (.load x) m' := by
  obtain ⟨s0, init, seated⟩ := Seated.boot
  obtain ⟨A, hA⟩ := seated.idle.supply.heap.holds
  have hslot : freeSlot (bootMachine s0).kernel.table = 1 := by
    change freeSlot (bootTable fun _ => blankProcess) = 1
    decide
  have hfree : ((bootMachine s0).kernel.table.pList (freeSlot (bootMachine s0).kernel.table)).state = 0 := by
    rw [hslot]
    change ((bootTable fun _ => blankProcess).pList 1).state = 0
    decide
  have hshort := hx.short
  have idle : Idle (bootMachine s0).kernel.mm [] [] []
      (0 + 2 + 2 + 4 * (4 * 4) + 4 * (text.length + 1) + 1 + 5 + 3 + 2) :=
    { seated.idle with supply := seated.idle.supply.mono (by omega) }
  obtain ⟨l, pd, others, hl, hentry, ready⟩ := hx.image idle hA
  have hne : x.argv ≠ [] := by
    rw [hx.argv]
    exact List.cons_ne_nil _ _
  have hstart : StartsBelow ((List.range (ePhnum x.file)).map (phdr x.file)) := by
    rw [hx.segments]
    exact nofun
  obtain ⟨pd', strings, G, writable, copies⟩ :=
    (Isolated.boot init).copies hA hx.sized hstart hl hne ready.flags
  rw [hslot] at ready writable
  obtain ⟨str, rfl⟩ : ∃ str, strings = [str] := List.length_eq_one_iff.1 (by rw [copies.copied.length, hx.argv]; rfl)
  have hstr := copies.chunks 0 (by rw [hx.argv]; exact Nat.one_pos) Nat.one_pos
  have hword := copies.copied.words 0 Nat.one_pos
  have chunks : argChunks x.argv.length l.param [str] + G = {str} + ({(l.param, 8)} + G) := by
    rw [hx.argv, List.length_singleton, argChunks, if_neg Nat.one_ne_zero, add_assoc]
    rfl
  rw [chunks] at writable
  simp only [hx.argv] at hstr
  have stock : Stock l.kernel 1 pd [] [] _ ({str} + ({(l.param, 8)} + G)) := ⟨⟨_, ready⟩, .with ready writable⟩
  obtain ⟨r, pd2, epush, ⟨others2, ready2⟩, -⟩ := stock.pushArg hstr hz hword (lt_of_le_of_lt hshort (by decide))
  obtain ⟨m', start⟩ := Supply.start (m := { bootMachine s0 with kernel := r.1 }) ready2.supply ready2.space.own
    l.previous r.2
  have no := Supply.start_flags (m := { bootMachine s0 with kernel := r.1 }) ready2.supply ready2.stale
    ready2.space.frames ready2.space.own start
  have load : (bootMachine s0).loadTask x = .ok (m', 1) := by
    unfold Machine.loadTask
    dsimp only
    rw [if_neg (not_not.2 hfree), hl, ok_bind, if_neg (hentry ▸ hx.entry), hslot, hx.argv, List.length_singleton, epush,
      ok_bind, start]
    rfl
  refine ⟨s0, m', init, load, .load load, ⟨hx.sized, hstart, fun l' hl' u c i n hu hi hc hn => ?_⟩, no⟩
  obtain rfl : l = l' := Except.ok.inj (hl.symm.trans hl')
  rw [hx.argv, List.length_singleton] at hu hi
  obtain rfl : i = 0 := Nat.lt_one_iff.1 hi
  cases hc
  -- the array of the addresses is another chunk
  have started : Writable l.kernel 1 pd [] [] (0 + ({str} + ({(l.param, 8)} + G))) := by
    rw [zero_add]
    exact stock.writable
  have taken : Pushes l.kernel u.1 1 pd pd [] [] ({(u.2, 4 * 1)} + ({str} + ({(l.param, 8)} + G)))
      ({str} + ({(l.param, 8)} + G)) 0 0 :=
    started.heap (.kmalloc (by decide) hu) (Kernel.kmalloc_effect (by decide) hu)
  have same := taken.same
  rw [load32_payload (same (l.param, 8) ?_) (by decide), hword] at hn
  · have hlen := strlen_text hz (hstr.congr (same _ ?_)).bytes hn
    · dsimp only
      simp only [USER_STACK]
      omega
    · exact Multiset.mem_add.2 (.inl (Multiset.mem_singleton_self _))
  · exact Multiset.mem_add.2 (.inr (Multiset.mem_add.2 (.inl (Multiset.mem_singleton_self _))))

end Boot

variable {boot s0 : Mm} {highMem : Nat} {ops rest : List MachineOp}

/-- What `main` finds when the process first runs: its arguments, whatever the other processes did since the
load. -/
theorem arguments_passed (init : initMm boot highMem = .ok s0) (run : Run CleanStep (bootMachine s0) ops m)
    (given : ∀ op ∈ ops, op.Given) (clean : CleanStep m (.load x) m1)
    (load : m.loadTask x = .ok (m1, pid)) (hpid : pid ≠ 0) (hne : x.argv ≠ []) (hz : ∀ arg ∈ x.argv, 0 ∉ arg)
    (wait : Run (fun m op m' => CleanStep m op m' ∧ m.current ≠ pid) m1 rest m2) :
    ∃ ptr, MainFrame (processByte m2.kernel pid) (m2.regsEsp pid) x.argv ptr := by
  obtain ⟨y, noted⟩ := noted_run run fun _ _ => none
  obtain ⟨live, dir, kstack, lost, iso, -⟩ := Isolated.run init noted
  obtain ⟨live1, dir1, kstack1, lost1, kept⟩ := iso.step clean
  -- the kernel heap is well formed when the program is loaded
  obtain ⟨n, booked⟩ := booked_run run given 0
  obtain ⟨A, -, heap⟩ := Booked.run init booked
  obtain ⟨ptr, frame⟩ := iso.frame heap clean.tame load hpid clean.flags hne hz
  -- the process has joined the others
  have hmem : pid ∈ live1 := by
    obtain ⟨hslot, -, l, c, -, -, -, hm⟩ := loadTask_ok load hpid
    exact kept.isolated.listed pid (hslot ▸ one_le_freeSlot _) (hslot ▸ freeSlot_le _) (start_state hm)
  -- it remembers everything it sees
  generalize hnote : (fun a => if USER_OFFSET ≤ a ∧ a < USER_STACK then processByte m1.kernel pid a else none) = seen
  have waits : ∃ live dir kstack lost, Isolated m2 live dir kstack lost ∧ pid ∈ live ∧
      m2.regsEsp pid = m1.regsEsp pid ∧ ∃ y : Notes, Remembered m2.kernel live y ∧ y pid = seen := by
    refine wait.invariant (I := fun m2 => ∃ live dir kstack lost, Isolated m2 live dir kstack lost ∧ pid ∈ live ∧
      m2.regsEsp pid = m1.regsEsp pid ∧ ∃ y : Notes, Remembered m2.kernel live y ∧ y pid = seen) ?_ ?_
    · rintro m op m' ⟨live, dir, kstack, lost, iso, hlive, hesp, y, rem, hy⟩ ⟨st, hcur⟩
      obtain ⟨live', dir', kstack', lost', kept⟩ := iso.step st
      have hs := (iso.running pid hlive).2
      exact ⟨live', dir', kstack', lost', kept.isolated, kept.stays pid hlive hcur.symm,
        (st.step.regsEsp hs).trans hesp, _, kept.remembered y rem, (note_waits hs hcur).trans hy⟩
    · refine ⟨live1, dir1, kstack1, lost1, kept.isolated, hmem, rfl, Function.update (fun _ _ => none) pid seen,
        fun p hp a b hb => ?_, Function.update_self ..⟩
      by_cases hpp : p = pid
      · rw [hpp, Function.update_self, ← hnote] at hb
        dsimp only at hb
        split at hb
        case isTrue hrange => exact ⟨hrange.1, hrange.2, hpp ▸ hb⟩
        case isFalse => cases hb
      · rw [Function.update_of_ne hpp] at hb
        cases hb
  obtain ⟨live2, dir2, kstack2, lost2, iso2, hlive, hesp, y2, rem, hy⟩ := waits
  rw [hesp]
  refine ⟨ptr, frame.mono hne fun a b hlo hhi hb => ?_⟩
  refine (rem pid hlive a b ?_).2.2
  rw [hy, ← hnote]
  dsimp only
  rw [if_pos ⟨hlo, hhi⟩]
  exact hb

theorem arguments_passed_letter : ∃ (m : Machine) (ptr : Nat → Nat),
    MainFrame (processByte m.kernel 1) (m.regsEsp 1) [[97]] ptr := by
  have hx : OneArgument ⟨[[97]], bareElf, 1024, 28, [], 0⟩ [97] :=
    ⟨rfl, by decide, by decide, by decide, rfl, by decide, by decide, by decide⟩
  obtain ⟨s0, m', init, load, clean⟩ := hx.boot (by decide)
  obtain ⟨ptr, frame⟩ := arguments_passed init .nil nofun clean load Nat.one_ne_zero (List.cons_ne_nil _ _)
    (by decide) .nil
  exact ⟨m', ptr, frame⟩

end Start

end Creeks
