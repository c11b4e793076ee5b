import Creeks.Process.Console

/-!
# Lines typed and lines returned

Beside the consoles a run keeps, for each process, the line it was given and has not returned yet.
`line_delivery` says that no line is lost as long as no key ends the input between a reader's store of
`pread` and its store of `inlock`, and no reader stores itself over another one. Both stores of
`sys_console_read` can be cut off from the test before them, so both can happen.
-/

namespace Creeks
open Lib

/-- The string in `inb`. After the newline that fills the buffer its end is the byte behind. -/
def VConsole.line (v : VConsole) : List UInt8 := ((List.range INBUFSIZE).map v).takeWhile (· ≠ 0)

/-- The line each process was given and has not returned. -/
abbrev Lines := Nat → Option (List UInt8)

/-- A step gives a line when a key ends the input of a reader, and the copy returns it. -/
def noteLine (s : Consoles) (given : Lines) : ConsoleOp → Lines
  | .key c =>
    match s.pread with
    | none => given
    | some p =>
      if 0 < s.state p ∧ (s.console p).Ends c then
        Function.update given p (some ((s.console p).putc c).line)
      else given
  | .read =>
    if s.pc s.table.current = .copy then Function.update given s.table.current none else given
  | .loadTask file _ =>
    if (loadTask s.table file).2 = 0 then given
    else Function.update given (loadTask s.table file).2 none
  | _ => given

/-- A step with the lines it gives and returns. -/
def LineStep (step : Consoles → ConsoleOp → Consoles → Prop) (x : Consoles × Lines) (op : ConsoleOp)
    (x' : Consoles × Lines) : Prop :=
  step x.1 op x'.1 ∧ x'.2 = noteLine x.1 x.2 op

/-- Every run gives and returns some lines. -/
lemma lineRun {step : Consoles → ConsoleOp → Consoles → Prop} {s t : Consoles}
    {ls : List ConsoleOp} (run : Run step s ls t) (given : Lines) :
    ∃ given', Run (LineStep step) (s, given) ls (t, given') := by
  induction run with
  | nil => exact ⟨given, .nil⟩
  | snoc _ st ih =>
    obtain ⟨given', ih⟩ := ih
    exact ⟨_, .snoc ih ⟨st, rfl⟩⟩

/-- A key ends the input before the reader has stored `inlock`, or a reader takes the terminal from
another one. -/
def ConsoleOp.Races (s : Consoles) : ConsoleOp → Prop
  | .key c => ∃ p, s.pread = some p ∧ s.pc p = .setInlock ∧ (s.console p).Ends c
  | .read => s.pc s.table.current = .setPread ∧ s.pread ≠ none
  | _ => False

/-- A step of an owned console in which no process races. -/
def KeepingStep (s : Consoles) (op : ConsoleOp) (s' : Consoles) : Prop :=
  OwnedStep s op s' ∧ ¬ op.Races s

/-- No line is lost. One that was given is still in the buffer and the reader finds its lock open; what
is returned was given; and a key that ends the input gives the line to the process that waits, if there
is one, and to no other. -/
structure LinesKept (s : Consoles) (given : Lines) : Prop where
  kept : ∀ p line, 0 < s.state p → given p = some line →
    ((s.pc p = .testInlock ∧ (s.console p).inlock = 0) ∨ s.pc p = .copy) ∧
      (s.console p).line = line
  returned : ∀ p, 0 < s.state p → s.pc p = .copy → given p ≠ none
  waiting : ∀ p, 0 < s.state p → s.Blocked p → s.pread = some p
  delivered : ∀ p c, 0 < s.state p → s.Blocked p → (s.console p).Ends c →
    noteLine s given (.key c) = Function.update given p (some ((s.console p).putc c).line)

/-- What `LinesKept` needs of the state before a step. -/
structure Unlost (s : Consoles) (given : Lines) : Prop where
  held : TerminalHeld s
  kept : ∀ p line, 0 < s.state p → given p = some line →
    ((s.pc p = .testInlock ∧ (s.console p).inlock = 0) ∨ s.pc p = .copy) ∧
      (s.console p).line = line
  open_given : ∀ p, 0 < s.state p →
    s.pc p = .copy ∨ (s.pc p = .testInlock ∧ (s.console p).inlock ≠ 1) → given p ≠ none
  waiting : ∀ p, 0 < s.state p → s.Blocked p → s.pread = some p

namespace Unlost

variable {s s' : Consoles} {given : Lines} {op : ConsoleOp} {p : Nat}

lemma boot (beyond : Nat → Process) (console : Nat → VConsole) :
    Unlost (bootConsoles beyond console) fun _ => none := by
  refine ⟨TerminalHeld.boot beyond console, fun _ _ _ => nofun, fun p _ h => ?_, fun p _ h => ?_⟩
  · rcases h with h | ⟨h, -⟩ <;> cases h
  · rcases h with h | ⟨h, -⟩ <;> cases h

/-- The clauses for a process whose program counter, console and line a step leaves alone. -/
lemma other (inv : Unlost s given) {given' : Lines} (hs : 0 < s.state p) (hpc : s'.pc p = s.pc p)
    (hc : s'.console p = s.console p) (hg : given' p = given p) :
    (∀ line, given' p = some line →
      ((s'.pc p = .testInlock ∧ (s'.console p).inlock = 0) ∨ s'.pc p = .copy) ∧
        (s'.console p).line = line) ∧
    (s'.pc p = .copy ∨ (s'.pc p = .testInlock ∧ (s'.console p).inlock ≠ 1) → given' p ≠ none) ∧
    (s'.Blocked p → s.pread = some p) := by
  unfold Consoles.Blocked
  rw [hpc, hc, hg]
  exact ⟨fun line => inv.kept p line hs, inv.open_given p hs, inv.waiting p hs⟩

/-- After a step that touches the process `q` only, what is left to show is about `q`. -/
lemma touch (inv : Unlost s given) {given' : Lines} (q : Nat) (held : TerminalHeld s')
    (rest : ∀ p, p ≠ q → 0 < s'.state p →
      0 < s.state p ∧ s'.pc p = s.pc p ∧ s'.console p = s.console p ∧ given' p = given p)
    (pread : ∀ p, p ≠ q → s.pread = some p → s'.pread = some p)
    (kept : ∀ line, given' q = some line →
      ((s'.pc q = .testInlock ∧ (s'.console q).inlock = 0) ∨ s'.pc q = .copy) ∧
        (s'.console q).line = line)
    (opened : s'.pc q = .copy ∨ (s'.pc q = .testInlock ∧ (s'.console q).inlock ≠ 1) → given' q ≠ none)
    (waits : s'.Blocked q → s'.pread = some q) : Unlost s' given' := by
  refine ⟨held, fun p line hp h => ?_, fun p hp h => ?_, fun p hp h => ?_⟩
  · by_cases e : p = q
    · rw [e] at h ⊢
      exact kept line h
    · obtain ⟨hs, hpc, hc, hg⟩ := rest p e hp
      exact (inv.other hs hpc hc hg).1 line h
  · by_cases e : p = q
    · rw [e] at h ⊢
      exact opened h
    · obtain ⟨hs, hpc, hc, hg⟩ := rest p e hp
      exact (inv.other hs hpc hc hg).2.1 h
  · by_cases e : p = q
    · rw [e] at h ⊢
      exact waits h
    · obtain ⟨hs, hpc, hc, hg⟩ := rest p e hp
      exact pread p e ((inv.other hs hpc hc hg).2.2 h)

/-- A step that changes the table only, and brings nobody to life. -/
lemma table (inv : Unlost s given) {t : Table} (held : TerminalHeld { s with table := t })
    (h : ∀ p, 0 < (t.pList p).state → 0 < s.state p) : Unlost { s with table := t } given := by
  refine ⟨held, fun p line hp => inv.kept p line (h p hp), fun p hp => inv.open_given p (h p hp),
    fun p hp => inv.waiting p (h p hp)⟩

/-- A process outside the copy and the last test has no line. -/
lemma no_line (inv : Unlost s given) (hs : 0 < s.state p) (h1 : s.pc p ≠ .testInlock)
    (h2 : s.pc p ≠ .copy) : given p = none := by
  cases hg : given p with
  | none => rfl
  | some line =>
    rcases (inv.kept p line hs hg).1 with ⟨h, -⟩ | h
    · exact absurd h h1
    · exact absurd h h2

/-- The running process goes on to a step in which it neither waits nor has been given a line. -/
lemma goto (inv : Unlost s given) {pc : Pc} (held : TerminalHeld (s.goto pc)) {given' : Lines}
    (hg : ∀ p, p ≠ s.table.current → given' p = given p) (hcur : given' s.table.current = none)
    (hpc : pc = .user ∨ pc = .testPread ∨ pc = .setPread) : Unlost (s.goto pc) given' := by
  have hto := goto_pc_current s pc
  refine inv.touch s.table.current held (fun p e hs => ⟨hs, goto_pc_other pc e, rfl, hg p e⟩)
    (fun _ _ h => h) (fun line h => ?_) (fun h => ?_) fun h => ?_
  · rw [hcur] at h
    cases h
  · rw [hto] at h
    rcases hpc with rfl | rfl | rfl <;> rcases h with h | ⟨h, -⟩ <;> cases h
  · unfold Consoles.Blocked at h
    rw [hto] at h
    rcases hpc with rfl | rfl | rfl <;> rcases h with h | ⟨h, -⟩ <;> cases h

/-- A step of the call that does not take the terminal from another reader. -/
lemma read (inv : Unlost s given) (held : TerminalHeld (sysConsoleRead s)) (hr : ¬ ConsoleOp.Races s .read) :
    Unlost (sysConsoleRead s) (noteLine s given .read) := by
  have hlive := inv.held.current_live
  have other := @sysConsoleRead_other s
  have keep : s.pc s.table.current ≠ .copy → noteLine s given .read = given := fun h => if_neg h
  rcases sysConsoleRead_cases s with
    ⟨e, h⟩ | ⟨hpc, -, e⟩ | ⟨hpc, e⟩ | ⟨hpc, e⟩ | ⟨hpc, hl, e⟩ | ⟨hpc, e⟩
  · have hne : s.pc s.table.current ≠ .copy := by
      rcases h with h | ⟨h, -⟩ | ⟨h, -⟩ <;> rw [h] <;> decide
    rw [e, keep hne]
    exact inv
  · rw [e] at held other ⊢
    rw [keep (by rw [hpc]; decide)]
    refine inv.goto held (fun _ _ => rfl) (inv.no_line hlive ?_ ?_) (.inr (.inr rfl))
    · rw [hpc]
      decide
    · rw [hpc]
      decide
  · -- nobody else waits, since the terminal was free
    have hfree : s.pread = none := by
      by_contra h
      exact hr ⟨hpc, h⟩
    have hg := inv.no_line hlive (by rw [hpc]; decide) (by rw [hpc]; decide)
    rw [e] at held other ⊢
    rw [keep (by rw [hpc]; decide)]
    refine inv.touch s.table.current held (fun p h hs => ⟨hs, (other h).1, (other h).2, rfl⟩)
      (fun p _ h => absurd (hfree.symm.trans h) nofun) (fun line h => ?_) (fun h => ?_) fun _ => rfl
    · rw [hg] at h
      cases h
    · rw [goto_pc_current] at h
      rcases h with h | ⟨h, -⟩ <;> cases h
  · have hg := inv.no_line hlive (by rw [hpc]; decide) (by rw [hpc]; decide)
    rw [e] at held other ⊢
    rw [keep (by rw [hpc]; decide)]
    refine inv.touch s.table.current held (fun p h hs => ⟨hs, (other h).1, (other h).2, rfl⟩)
      (fun _ _ h => h) (fun line h => ?_) (fun h => ?_) fun _ => inv.waiting _ hlive (.inl hpc)
    · rw [hg] at h
      cases h
    · rw [goto_pc_current] at h
      rcases h with h | ⟨-, h⟩
      · cases h
      · refine absurd ?_ h
        change VConsole.inlock (Function.update s.console _ _ _) = 1
        rw [Function.update_self, VConsole.inlock_setInlock]
  · have hg := inv.open_given _ hlive (.inr ⟨hpc, hl⟩)
    rw [e] at held other ⊢
    rw [keep (by rw [hpc]; decide)]
    refine inv.touch s.table.current held (fun p h hs => ⟨hs, (other h).1, (other h).2, rfl⟩)
      (fun _ _ h => h) (fun line h => ?_) (fun _ => hg) fun h => ?_
    · exact ⟨.inr (goto_pc_current ..), (inv.kept _ line hlive h).2⟩
    · unfold Consoles.Blocked at h
      rw [goto_pc_current] at h
      rcases h with h | ⟨h, -⟩ <;> cases h
  · have hn : noteLine s given .read = Function.update given s.table.current none := if_pos hpc
    rw [e] at held other ⊢
    rw [hn]
    exact inv.goto held (fun p h => Function.update_of_ne h ..) (Function.update_self ..) (.inl rfl)

/-- What a key does when the terminal points to nobody, and when it ends the input of a reader. -/
lemma noteLine_free {c : UInt8} (h : s.pread = none) :
    putcConsole s c = s ∧ noteLine s given (.key c) = given := by
  unfold putcConsole noteLine
  rw [h]
  exact ⟨rfl, rfl⟩

lemma noteLine_owner {c : UInt8} (hp : s.pread = some p) (hs : 0 < s.state p) :
    noteLine s given (.key c) =
      if (s.console p).Ends c then Function.update given p (some ((s.console p).putc c).line)
      else given := by
  unfold noteLine
  rw [hp]
  by_cases he : (s.console p).Ends c = true <;> simp [hs, he]

/-- A key is for the only process that waits, and releases it when it has stored `inlock`. -/
lemma key (inv : Unlost s given) {c : UInt8} (held : TerminalHeld (putcConsole s c))
    (hr : ¬ ConsoleOp.Races s (.key c)) :
    Unlost (putcConsole s c) (noteLine s given (.key c)) := by
  cases hq : s.pread with
  | none =>
    obtain ⟨h1, h2⟩ := @noteLine_free s given c hq
    rw [h1, h2]
    exact inv
  | some q =>
    obtain ⟨hs, hb⟩ := inv.held.owner q hq
    obtain ⟨h1, h2⟩ := putcConsole_owner c hq hs
    have hpc := congrFun (putcConsole_pc s c)
    have hst : ∀ p, (putcConsole s c).state p = s.state p := fun p => by
      unfold Consoles.state
      rw [putcConsole_table]
    have hoth : ∀ p, p ≠ q → (putcConsole s c).console p = s.console p := fun p hp =>
      putcConsole_other c fun h => hp (Option.some.inj (h.symm.trans hq))
    have hnote : ∀ p, p ≠ q → noteLine s given (.key c) p = given p := fun p hp => by
      rw [noteLine_owner hq hs]
      split
      · exact Function.update_of_ne hp ..
      · rfl
    have hrest : ∀ p, p ≠ q → 0 < (putcConsole s c).state p → 0 < s.state p ∧
        (putcConsole s c).pc p = s.pc p ∧ (putcConsole s c).console p = s.console p ∧
        noteLine s given (.key c) p = given p :=
      fun p hp hs => ⟨hst p ▸ hs, hpc p, hoth p hp, hnote p hp⟩
    have howner : ∀ p, s.pread = some p → p = q := fun p h => Option.some.inj (h.symm.trans hq)
    -- a process that waits was not given a line before
    have hno : ∀ line, given q ≠ some line := fun line h => by
      obtain ⟨h, -⟩ := inv.kept q line hs h
      rcases hb with hb | ⟨hb, hl⟩ <;> rcases h with ⟨h, h0⟩ | h
      · exact absurd (hb.symm.trans h) nofun
      · exact absurd (hb.symm.trans h) nofun
      · exact absurd (hl.symm.trans h0) nofun
      · exact absurd (hb.symm.trans h) nofun
    by_cases he : (s.console q).Ends c = true
    · have hnq : noteLine s given (.key c) q = some ((s.console q).putc c).line := by
        rw [noteLine_owner hq hs, if_pos he, Function.update_self]
      have hwait : s.pc q = .testInlock := by
        rcases hb with h | ⟨h, -⟩
        · exact absurd ⟨q, hq, h, he⟩ hr
        · exact h
      have hopen : ((putcConsole s c).console q).inlock = 0 := by
        rw [h1, VConsole.putc_ends he]
      refine inv.touch q held hrest (fun p e h => absurd (howner p h) e) (fun line h => ?_) (fun _ => ?_)
        fun h => ?_
      · rw [hnq] at h
        rw [hpc, h1]
        exact ⟨.inl ⟨hwait, VConsole.putc_ends he⟩, Option.some.inj h⟩
      · rw [hnq]
        exact nofun
      · unfold Consoles.Blocked at h
        rw [hpc, hwait, hopen] at h
        rcases h with h | ⟨-, h⟩ <;> cases h
    · have hnq : noteLine s given (.key c) q = given q := by
        rw [noteLine_owner hq hs, if_neg he]
      have hpread : (putcConsole s c).pread = some q := by rw [h2, if_neg he]
      have hstill := (held.owner q hpread).2
      refine inv.touch q held hrest (fun p e h => absurd (howner p h) e) (fun line h => ?_) (fun h => ?_)
        fun _ => hpread
      · rw [hnq] at h
        exact absurd h (hno line)
      · rcases hstill with h' | ⟨h', hl⟩ <;> rcases h with h | ⟨h, hn⟩
        · exact absurd (h'.symm.trans h) nofun
        · exact absurd (h'.symm.trans h) nofun
        · exact absurd (h'.symm.trans h) nofun
        · exact absurd hl hn

/-- A new process has no line, and every other one keeps its own. -/
lemma load (inv : Unlost s given) {file inb : Mem} (held : TerminalHeld (loadConsole s file inb)) :
    Unlost (loadConsole s file inb) (noteLine s given (.loadTask file inb)) := by
  rcases loadConsole_cases s file inb with ⟨t, h0, e, ht⟩ | ⟨t, hs, h0, hpid, e, ht⟩
  · have hn : noteLine s given (.loadTask file inb) = given := if_pos h0
    rw [e] at held ⊢
    rw [hn]
    refine inv.table held fun p hp => ?_
    rw [ht] at hp
    exact hp
  · have hn : noteLine s given (.loadTask file inb) =
        Function.update given (freeSlot s.table) none := by
      rw [← hpid]
      exact if_neg (by rwa [hpid])
    rw [e] at held ⊢
    rw [hn]
    refine inv.touch (freeSlot s.table) held (fun p hp h => ⟨?_, Function.update_of_ne hp ..,
      Function.update_of_ne hp .., Function.update_of_ne hp ..⟩) (fun _ _ h => h) (fun line h => ?_)
      (fun h => ?_) fun h => ?_
    · change 0 < (t.pList p).state at h
      rwa [ht, if_neg hp] at h
    · rw [Function.update_self] at h
      cases h
    · dsimp only at h
      rw [Function.update_self] at h
      rcases h with h | ⟨h, -⟩ <;> cases h
    · unfold Consoles.Blocked at h
      dsimp only at h
      rw [Function.update_self] at h
      rcases h with h | ⟨h, -⟩ <;> cases h

/-- Every step without a race. -/
lemma step (inv : Unlost s given) (st : KeepingStep s op s') :
    Unlost s' (noteLine s given op) := by
  obtain ⟨owned, hr⟩ := st
  have held := inv.held.step owned
  obtain ⟨st, -, -⟩ := owned
  cases st with
  | call h0 hpc =>
    refine inv.goto held (fun _ _ => rfl) (inv.no_line inv.held.current_live ?_ ?_)
      (.inr (.inl rfl))
    · rw [hpc]
      decide
    · rw [hpc]
      decide
  | read => exact inv.read held hr
  | key => exact inv.key held hr
  | loadTask => exact inv.load held
  | sysExit _ _ h =>
    refine inv.table held fun p hp => ?_
    rw [exitTask_state h] at hp
    split at hp
    · cases hp
    · exact hp
  | sysWait _ _ h =>
    refine inv.table held fun p hp => ?_
    obtain ⟨-, ⟨q, -, -, rfl, -⟩ | ⟨-, rfl, -⟩⟩ := sysWait_cases h
    · rw [collected_state] at hp
      split at hp
      · cases hp
      · exact hp
    · exact hp
  | sysKill =>
    refine inv.table held fun p hp => ?_
    rw [sysKill_field _ _ _ _ Process.state fun _ _ => rfl] at hp
    exact hp
  | schedule h =>
    refine inv.table held fun p hp => ?_
    rcases preempt_cases h with rfl | rfl | ⟨-, -, -, h⟩
    · exact hp
    · rw [handleDefault_state, schedule_pList] at hp
      exact hp
    · rw [exitTask_state h, schedule_pList] at hp
      split at hp
      · cases hp
      · exact hp

end Unlost

/-- In a run without races no line is lost, in whatever order the steps of the readers, the keys and the
clock come. -/
theorem line_delivery {beyond : Nat → Process} {console : Nat → VConsole} {ls : List ConsoleOp}
    {x : Consoles × Lines}
    (run : Run (LineStep KeepingStep) (bootConsoles beyond console, fun _ => none) ls x) :
    LinesKept x.1 x.2 := by
  have inv := run.invariant (I := fun x => Unlost x.1 x.2)
    (fun _ _ _ inv st => st.2 ▸ inv.step st.1) (Unlost.boot beyond console)
  refine ⟨inv.kept, fun p hs h => inv.open_given p hs (.inl h), inv.waiting, fun p c hs hb he => ?_⟩
  rw [Unlost.noteLine_owner (inv.waiting p hs hb) hs, if_pos he]

/-- The shell reads a line: the newline comes when it waits. -/
theorem line_delivery_reader :
    ∃ s given, Run (LineStep KeepingStep) (zeroConsoles, fun _ => none)
        [.loadTask bareElf fun _ => 0, .schedule, .call, .read, .read, .read, .key 10, .read]
        (s, given) ∧
      s.pc 1 = .copy ∧ LinesKept s given := by
  have run : Run KeepingStep zeroConsoles
      [.loadTask bareElf fun _ => 0, .schedule, .call, .read, .read, .read, .key 10, .read] _ :=
    .snoc (.snoc (.snoc (.snoc (.snoc (.snoc (.snoc (.snoc .nil
      ⟨⟨.loadTask rfl, nofun, nofun⟩, nofun⟩)
      ⟨⟨.schedule rfl, fun _ _ => nofun, nofun⟩, nofun⟩)
      ⟨⟨.call (by decide) rfl, nofun, nofun⟩, nofun⟩)
      ⟨⟨.read, nofun, nofun⟩, fun h => absurd h.1 (by decide)⟩)
      ⟨⟨.read, nofun, nofun⟩, fun h => h.2 rfl⟩)
      ⟨⟨.read, nofun, nofun⟩, fun h => absurd h.1 (by decide)⟩)
      ⟨⟨.key, nofun, fun h => h.1 rfl⟩, fun ⟨p, hp, h, _⟩ => by
        cases hp
        exact absurd h (by decide +kernel)⟩)
      ⟨⟨.read, nofun, nofun⟩, fun h => absurd h.1 (by decide +kernel)⟩
  obtain ⟨given, run⟩ := lineRun run fun _ => none
  exact ⟨_, given, run, by decide +kernel, line_delivery run⟩

/-- The newline comes between the two stores of the shell: it closes its lock behind the line and waits,
with nobody to open it again. And the shell, stopped between its test and its store, takes the terminal
from its child: the child waits for ever. -/
theorem line_lost :
    (∃ s given, Run (LineStep ConsoleStep) (zeroConsoles, fun _ => none)
        [.loadTask bareElf fun _ => 0, .schedule, .call, .read, .read, .key 10, .read] (s, given) ∧
      s.Blocked 1 ∧ s.pread = none ∧ ¬ LinesKept s given) ∧
    ∃ s given, Run (LineStep ConsoleStep) (zeroConsoles, fun _ => none)
        [.loadTask bareElf fun _ => 0, .schedule, .loadTask bareElf fun _ => 0, .call, .read,
          .schedule, .call, .read, .read, .read, .schedule, .read, .read] (s, given) ∧
      s.Blocked 2 ∧ s.pread = some 1 ∧ ¬ LinesKept s given := by
  constructor
  · have run : Run ConsoleStep zeroConsoles
        [.loadTask bareElf fun _ => 0, .schedule, .call, .read, .read, .key 10, .read] _ :=
      .snoc (.snoc (.snoc (.snoc (.snoc (.snoc (.snoc .nil (.loadTask rfl)) (.schedule rfl))
        (.call (by decide) rfl)) .read) .read) .key) .read
    obtain ⟨given, run⟩ := lineRun run fun _ => none
    refine ⟨_, given, run, .inr ⟨by decide +kernel, by decide +kernel⟩, by decide +kernel, fun h => ?_⟩
    have hp := h.waiting 1 (by decide +kernel) (.inr ⟨by decide +kernel, by decide +kernel⟩)
    exact absurd hp (by decide +kernel)
  · have run : Run ConsoleStep zeroConsoles
        [.loadTask bareElf fun _ => 0, .schedule, .loadTask bareElf fun _ => 0, .call, .read,
          .schedule, .call, .read, .read, .read, .schedule, .read, .read] _ :=
      .snoc (.snoc (.snoc (.snoc (.snoc (.snoc (.snoc (.snoc (.snoc (.snoc (.snoc (.snoc (.snoc .nil
        (.loadTask rfl)) (.schedule rfl)) (.loadTask rfl)) (.call (by decide) rfl)) .read)
        (.schedule rfl)) (.call (by decide) rfl)) .read) .read) .read) (.schedule rfl)) .read) .read
    obtain ⟨given, run⟩ := lineRun run fun _ => none
    refine ⟨_, given, run, .inr ⟨by decide +kernel, by decide +kernel⟩, by decide +kernel, fun h => ?_⟩
    have hp := h.waiting 2 (by decide +kernel) (.inr ⟨by decide +kernel, by decide +kernel⟩)
    exact absurd hp (by decide +kernel)

end Creeks
