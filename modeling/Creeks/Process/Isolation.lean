import Creeks.Process.Arrival
import Creeks.Process.Leak

/-!
# Isolation

The processes do not see each other. In a run from boot in which the processes and the kernel thread take
their steps in any order, what a process has stored at an address is what it reads there, whatever the
others do in between (`private_memory`), and no two processes have a frame in common
(`frames_not_shared`).

A run is clean when `get_page_frame` does not fail, no page table is put in service with its first word left
present, and the files that are loaded keep to user space: `load_elf` only looks at the wrapped end of a
segment, and `load_task` does not look at the length of the arguments.
-/

namespace Creeks
open Lib

/-- The file and its arguments keep to user space. -/
structure TameLoad (m : Machine) (x : ExecArgs) : Prop where
  sized : Sized x
  segments : StartsBelow ((List.range (ePhnum x.file)).map (phdr x.file))
  arguments : ∀ l, loadImage m.kernel x = .ok l →
    StackHolds (freeSlot m.kernel.table) l.kernel x.argv.length l.param

/-- A load keeps to user space, and a page fault happens where no page is mapped. -/
def MachineOp.Tame (m : Machine) : MachineOp → Prop
  | .load x => TameLoad m x
  | .fault a => ¬ (walk m.kernel.mm.ram m.kernel.mm.dir a).isSome
  | _ => True

/-- A step of the machine that finds its frames. -/
structure CleanStep (m : Machine) (op : MachineOp) (m' : Machine) : Prop where
  step : MachineStep m op m'
  tame : op.Tame m
  flags : NoFlags m'.kernel.mm

/-- What the processes remember: the bytes that each has stored since it was loaded. -/
abbrev Notes := Nat → Nat → Option UInt8

/-- A new process remembers nothing, and a store is remembered by the process that runs. -/
def note (m : Machine) (x : Notes) : MachineOp → Notes
  | .load _ =>
    if (m.kernel.table.pList (freeSlot m.kernel.table)).state = 0 then
      Function.update x (freeSlot m.kernel.table) fun _ => none
    else x
  | .store a b => Function.update x m.current (Function.update (x m.current) a (some b))
  | _ => x

/-- A clean step with what is remembered. -/
def NotedStep (y : Machine × Notes) (op : MachineOp) (y' : Machine × Notes) : Prop :=
  CleanStep y.1 op y'.1 ∧ y'.2 = note y.1 y.2 op

/-- The live processes are those of the table, each with a directory, frames and a kernel stack of its
own. -/
structure Isolated (m : Machine) (live : List Nat) (dir : Nat → PageDirectory) (kstack : Nat → Page)
    (lost : List Page) : Prop where
  seats : Seats m.kernel.table
  running : ∀ p ∈ live, (p ≠ 0 ∧ p ≤ MAXPID + 1) ∧ (m.kernel.table.pList p).state = 1
  listed : ∀ p, 1 ≤ p → p ≤ MAXPID + 1 → (m.kernel.table.pList p).state = 1 → p ∈ live
  apart : Apart m.kernel live dir kstack lost
  cr3 : m.kernel.mm.cr3 = m.kernel.regsCr3 m.current
  stack : ∀ p ∈ live, m.esp0 p &&& 0xFFFFF000 = (kstack p).vAddr

/-- What the live processes remember is what they see. -/
def Remembered (k : Kernel) (live : List Nat) (x : Notes) : Prop :=
  ∀ p ∈ live, ∀ a b, x p a = some b → USER_OFFSET ≤ a ∧ a < USER_STACK ∧ processByte k p a = some b

/-- The frames of a refused file stay in use: they are those of the pages left on `pglist`. -/
def leaked (m m' : Machine) : MachineOp → Nat
  | .load _ =>
    let pid := freeSlot m.kernel.table
    if (m.kernel.table.pList pid).state = 0 ∧ (m'.kernel.table.pList pid).state = 0 then
      (m'.kernel.pglist pid).length
    else 0
  | _ => 0

/-- The frames that are left, and those of the processes and of the refused files. -/
def total (k : Kernel) (live : List Nat) (dir : Nat → PageDirectory) (kstack : Nat → Page)
    (lost : List Page) : Nat :=
  framesLeft k.mm + (allPages k dir kstack live lost).length

/-- What a step leaves behind. -/
structure StepKept (m m' : Machine) (op : MachineOp) (live : List Nat) (dir : Nat → PageDirectory)
    (kstack : Nat → Page) (lost : List Page) (live' : List Nat) (dir' : Nat → PageDirectory)
    (kstack' : Nat → Page) (lost' : List Page) : Prop where
  isolated : Isolated m' live' dir' kstack' lost'
  remembered : ∀ x, Remembered m.kernel live x → Remembered m'.kernel live' (note m x op)
  total : total m'.kernel live' dir' kstack' lost' = total m.kernel live dir kstack lost
  lost : lost'.length = lost.length + leaked m m' op
  stays : ∀ p ∈ live, p ≠ m.current → p ∈ live'

def Kept (m m' : Machine) (op : MachineOp) (live : List Nat) (dir : Nat → PageDirectory)
    (kstack : Nat → Page) (lost : List Page) : Prop :=
  ∃ live' dir' kstack' lost', StepKept m m' op live dir kstack lost live' dir' kstack' lost'

namespace Isolated

variable {m m' : Machine} {live others : List Nat} {dir : Nat → PageDirectory} {kstack : Nat → Page}
  {lost : List Page} {op : MachineOp} {x : Notes} {t : Table}

lemma perm (iso : Isolated m live dir kstack lost) (e : live.Perm others) : Isolated m others dir kstack lost :=
  ⟨iso.seats, fun p hp => iso.running p (e.mem_iff.2 hp), fun p h1 h2 hs => e.mem_iff.1 (iso.listed p h1 h2 hs),
    iso.apart.perm e, iso.cr3, fun p hp => iso.stack p (e.mem_iff.2 hp)⟩

lemma current_live (iso : Isolated m live dir kstack lost) (h0 : m.current ≠ 0) : m.current ∈ live :=
  iso.listed _ (Nat.one_le_iff_ne_zero.2 h0) (Nat.le_succ_of_le iso.seats.current_lt.le) iso.seats.running

lemma runs (iso : Isolated m live dir kstack lost) : Runs m.kernel dir live := by
  by_cases h0 : m.current = 0
  · refine .inl ?_
    rw [iso.cr3, h0]
    exact iso.apart.registers
  · have hmem := iso.current_live h0
    refine .inr ⟨m.current, hmem, ?_⟩
    rw [iso.cr3]
    exact (iso.apart.guests _ hmem).registers

/-- A process elsewhere sees what it saw. -/
lemma byte {pages : List Page} {k' : Kernel} {q pid a : Nat} (apart : Apart m.kernel live dir kstack lost)
    (hq : q ∈ live) (e : Elsewhere m.kernel k' pid pages) (hne : q ≠ pid)
    (hsub : (dir q).pages ++ m.kernel.pglist q ⊆ pages) (hlo : USER_OFFSET ≤ a) (hhi : a < USER_STACK) :
    processByte k' q a = processByte m.kernel q a :=
  (apart.guests q hq).byte e hne hsub (apart.perm (List.perm_cons_erase hq)).inSpace hlo hhi

/-- The process that runs in its space. -/
lemma space (iso : Isolated m (m.current :: others) dir kstack lost) : InSpace m.kernel m.current
    (dir m.current) (kstack m.current :: others.flatMap (heldPages dir kstack))
    (others.flatMap m.kernel.pglist ++ lost) := by
  have space := iso.apart.inSpace
  rwa [Kernel.setCr3_self iso.cr3] at space

/-- The process that runs has written the bytes `A` in its space. -/
lemma moved {pd : PageDirectory} {A : Nat → Prop} (iso : Isolated m (m.current :: others) dir kstack lost)
    (h0 : m.current ≠ 0) (hslots : ∀ q, q ≠ m.current → m'.kernel.pd q = m.kernel.pd q ∧
      m'.kernel.pglist q = m.kernel.pglist q)
    (hregs : m'.kernel.regsCr3 = m.kernel.regsCr3) (hb : Bounded m'.kernel m.current)
    (htable : m'.kernel.table = m.kernel.table) (hesp0 : m'.esp0 = m.esp0)
    (level : Level m.current m.kernel m'.kernel) (no : NoFlags m'.kernel.mm)
    (wrote : Wrote m.kernel m'.kernel m.current (dir m.current) pd
      (kstack m.current :: others.flatMap (heldPages dir kstack)) (others.flatMap m.kernel.pglist ++ lost) A) :
    Isolated m' (m.current :: others) (Function.update dir m.current pd) kstack lost ∧
      total m'.kernel (m.current :: others) (Function.update dir m.current pd) kstack lost =
        total m.kernel (m.current :: others) dir kstack lost ∧
      (∀ q ∈ others, ∀ a, USER_OFFSET ≤ a → a < USER_STACK →
        processByte m'.kernel q a = processByte m.kernel q a) ∧
      ∀ a b, USER_OFFSET ≤ a → a < USER_STACK → ¬ A a → processByte m.kernel m.current a = some b →
        processByte m'.kernel m.current a = some b := by
  have hp := (List.nodup_cons.1 iso.apart.nodup).1
  have hcurrent : m'.current = m.current := by
    unfold Machine.current
    rw [htable]
  have hself := Kernel.setCr3_self iso.cr3
  obtain ⟨apart, e⟩ := iso.apart.moved h0 (by rwa [hself]) hslots hregs hb
  have hcr3 : m'.kernel.mm.cr3 = m'.kernel.regsCr3 m.current := by
    rw [wrote.space.cr3, wrote.base, hregs]
    exact ((iso.apart.guests _ List.mem_cons_self).registers).symm
  refine ⟨⟨?_, ?_, ?_, apart, ?_, ?_⟩, ?_, fun q hq a hlo hhi => ?_, fun a b hlo hhi hA hbyte => ?_⟩
  · rw [htable]
    exact iso.seats
  · rw [htable]
    exact iso.running
  · rw [htable]
    exact iso.listed
  · rw [hcurrent]
    exact hcr3
  · rw [hesp0]
    exact iso.stack
  · obtain ⟨pd', hown, taken⟩ := level _ (iso.apart.guests _ List.mem_cons_self).own
    obtain rfl : pd' = pd := Option.some.inj (hown.symm.trans wrote.space.own)
    have hleft := taken.left iso.apart.frames.held.upper no.oom
    have hrest : allPages m'.kernel (Function.update dir m.current pd')
        (Function.update kstack m.current (kstack m.current)) others lost =
          allPages m.kernel dir kstack others lost := Apart.allPages_elsewhere e hp _ _
    rw [Function.update_eq_self] at hrest
    unfold total
    rw [Apart.length_allPages_cons, Apart.length_allPages_cons, hrest]
    unfold heldPages
    rw [Function.update_self]
    simp only [List.length_append] at hleft ⊢
    omega
  · exact byte iso.apart (List.mem_cons_of_mem _ hq) e (fun h => hp (h ▸ hq)) (Apart.sub_allPages hq) hlo hhi
  · unfold processByte at hbyte ⊢
    rw [hself] at hbyte
    rw [Kernel.setCr3_self hcr3]
    exact wrote.keeps a b hlo hhi hA hbyte

lemma total_perm (e : live.Perm others) : total m.kernel live dir kstack lost =
    total m.kernel others dir kstack lost := by
  unfold total
  rw [Apart.length_allPages_perm e]

/-- The live processes are the current one and others. -/
lemma front (iso : Isolated m live dir kstack lost) (h0 : m.current ≠ 0) :
    live.Perm (m.current :: live.erase m.current) := List.perm_cons_erase (iso.current_live h0)

lemma fault {a : Nat} (iso : Isolated m live dir kstack lost) (h0 : m.current ≠ 0)
    (hnone : ¬ (walk m.kernel.mm.ram m.kernel.mm.dir a).isSome) (h : m.fault a = .ok (some m'))
    (no : NoFlags m'.kernel.mm) : Kept m m' (.fault a) live dir kstack lost := by
  have front := iso.front h0
  have iso1 := iso.perm front
  obtain ⟨r, hr, h⟩ := bind_ok.1 h
  cases r with
  | none => cases h
  | some r =>
    have htouch : touch m.kernel m.current a = .ok m'.kernel := by
      unfold touch
      rw [if_neg hnone, hr]
      cases h
      rfl
    have hesp0 : m'.esp0 = m.esp0 := by
      cases h
      rfl
    obtain ⟨-, htable, hregs, hslots, hbound⟩ := touch_same htouch
    obtain ⟨pd, wrote⟩ := iso1.space.touch htouch no.oom no.stale
    obtain ⟨iso2, hcount, hothers, hown⟩ := iso1.moved h0 hslots hregs
      (hbound (iso1.apart.guests _ List.mem_cons_self).bounded) htable hesp0 (.touch htouch) no wrote
    refine ⟨_, _, _, _, iso2, fun x rem q hq c b hx => ?_, hcount.trans (total_perm front).symm, rfl,
      fun p hp _ => front.mem_iff.1 hp⟩
    obtain ⟨hlo, hhi, hbyte⟩ := rem q (front.mem_iff.2 hq) c b hx
    refine ⟨hlo, hhi, ?_⟩
    rcases List.mem_cons.1 hq with rfl | hq
    · exact hown c b hlo hhi id hbyte
    · exact (hothers q hq c hlo hhi).trans hbyte

/-- A store is a store of `load_task`'s kind to a page that is there. -/
lemma store_storeUser {a : Nat} {b : UInt8} (h : m.store a b = some m') :
    USER_OFFSET ≤ a ∧ a < USER_STACK ∧ storeUser m.current m.kernel a b = .ok m'.kernel ∧ m'.esp0 = m.esp0 := by
  unfold Machine.store at h
  split at h
  case isFalse => cases h
  case isTrue hrange =>
    obtain ⟨y, hy, rfl⟩ := Option.map_eq_some_iff.1 h
    refine ⟨hrange.1, hrange.2, ?_, rfl⟩
    unfold storeUser touch
    rw [if_neg (not_lt.2 hrange.1), hy]
    dsimp only [Option.isSome_some]
    rw [if_pos rfl, ok_bind, hy]
    rfl

lemma store {a : Nat} {b : UInt8} (iso : Isolated m live dir kstack lost) (h0 : m.current ≠ 0)
    (h : m.store a b = some m') (no : NoFlags m'.kernel.mm) : Kept m m' (.store a b) live dir kstack lost := by
  have front := iso.front h0
  have iso1 := iso.perm front
  obtain ⟨hlo, hhi, hstore, hesp0⟩ := store_storeUser h
  have moves := storeUser_moves hstore
  have guest := iso1.apart.guests _ List.mem_cons_self
  obtain ⟨pd, wrote, hself⟩ := iso1.space.store hhi hstore no.oom no.stale
  obtain ⟨-, hbound, -⟩ := moves.wrote _ _ _ no iso1.space guest.bounded hhi.le
  obtain ⟨iso2, hcount, hothers, hown⟩ := iso1.moved h0 moves.others moves.regsCr3 hbound moves.table hesp0
    moves.level no wrote
  have hcurrent : m'.current = m.current := congrArg Table.current moves.table
  have hp := (List.nodup_cons.1 iso1.apart.nodup).1
  refine ⟨_, _, _, _, iso2, fun x rem q hq c v hx => ?_, hcount.trans (total_perm front).symm, rfl,
      fun p hp _ => front.mem_iff.1 hp⟩
  rcases List.mem_cons.1 hq with rfl | hq
  · change Function.update x m.current _ m.current c = some v at hx
    rw [Function.update_self] at hx
    by_cases hc : c = a
    · rw [hc, Function.update_self] at hx
      rw [hc, ← Option.some.inj hx]
      refine ⟨hlo, hhi, ?_⟩
      unfold processByte
      rw [← hcurrent, Kernel.setCr3_self iso2.cr3]
      exact hself
    · rw [Function.update_of_ne hc] at hx
      obtain ⟨h1, h2, hbyte⟩ := rem _ (front.mem_iff.2 List.mem_cons_self) c v hx
      exact ⟨h1, h2, hown c v h1 h2 hc hbyte⟩
  · have hne : q ≠ m.current := fun e => hp (e ▸ hq)
    change Function.update x m.current _ q c = some v at hx
    rw [Function.update_of_ne hne] at hx
    obtain ⟨h1, h2, hbyte⟩ := rem q (front.mem_iff.2 (List.mem_cons_of_mem _ hq)) c v hx
    exact ⟨h1, h2, (hothers q hq c h1 h2).trans hbyte⟩

/-- Only the table and the loaded directory change. -/
lemma switched (iso : Isolated m live dir kstack lost) (seats : Seats t)
    (hstate : ∀ p, (t.pList p).state = 1 ↔ (m.kernel.table.pList p).state = 1)
    (hk : m'.kernel = Kernel.setCr3 { m.kernel with table := t } (m.kernel.regsCr3 t.current))
    (hesp0 : m'.esp0 = m.esp0) (hop : ∀ x, note m x op = x) (hleak : leaked m m' op = 0) :
    Kept m m' op live dir kstack lost := by
  refine ⟨live, dir, kstack, lost, ⟨?_, fun p hp => ?_, fun p h1 h2 hs => ?_, ?_, ?_, ?_⟩,
    fun x rem p hp a b hx => ?_, ?_, by rw [hleak, Nat.add_zero], fun p hp _ => hp⟩
  · rw [hk]
    exact seats
  · rw [hk]
    exact ⟨(iso.running p hp).1, (hstate p).2 (iso.running p hp).2⟩
  · rw [hk] at hs
    exact iso.listed p h1 h2 ((hstate p).1 hs)
  · rw [hk]
    exact iso.apart.switch t m.kernel.allocated _
  · rw [Machine.current, hk]
    rfl
  · rw [hesp0]
    exact iso.stack
  · rw [hop] at hx
    obtain ⟨h1, h2, hbyte⟩ := rem p hp a b hx
    rw [hk]
    exact ⟨h1, h2, hbyte⟩
  · rw [hk]
    exact congrArg (· + _) (framesLeft_congr rfl rfl)

/-- The processes that were live still see what they remember. -/
lemma remembered_load {k' : Kernel} {y : ExecArgs} (iso : Isolated m live dir kstack lost)
    (hs : (m.kernel.table.pList (freeSlot m.kernel.table)).state = 0)
    (e : Elsewhere m.kernel k' (freeSlot m.kernel.table) (allPages m.kernel dir kstack live lost))
    (rem : Remembered m.kernel live x) :
    Remembered k' (freeSlot m.kernel.table :: live) (note m x (.load y)) := by
  intro p hp a b hx
  unfold note at hx
  dsimp only at hx
  rw [if_pos hs] at hx
  by_cases hne : p = freeSlot m.kernel.table
  · rw [hne, Function.update_self] at hx
    cases hx
  · rw [Function.update_of_ne hne] at hx
    have hlive := (List.mem_cons.1 hp).resolve_left hne
    obtain ⟨h1, h2, hbyte⟩ := rem p hlive a b hx
    exact ⟨h1, h2, (byte iso.apart hlive e hne (Apart.sub_allPages hlive) h1 h2).trans hbyte⟩

/-- No frame was missing before the end of `load_task` when none is after it. -/
lemma start_down {pid previous stackp : Nat} (h : m.start pid previous stackp = .ok m') (no : NoFlags m'.kernel.mm) :
    NoFlags m.kernel.mm := by
  obtain ⟨g, hg, h⟩ := bind_ok.1 h
  obtain ⟨q, hq, h⟩ := bind_ok.1 h
  dsimp only at h
  split at h
  · cases h
  · cases h
    have low := (HeapOnly.kmalloc (by decide) hq).flags.down ⟨no.oom, no.stale⟩
    exact (FlagsKept.getPageFromHeap hg).down ⟨low.oom, low.stale⟩

lemma undo_down {k k' : Kernel} {pid previous argc param : Nat} (h : undo k pid previous argc param = .ok k')
    (no : NoFlags k'.mm) : NoFlags k.mm := by
  obtain ⟨k6, pd, mm, h6, -, hd, rfl⟩ := undo_ok h
  have low := (FlagsKept.pdDestroy hd).down no
  exact (HeapOnly.freeArgs h6).flags.down ⟨low.oom, low.stale⟩

lemma slot_free (iso : Isolated m live dir kstack lost) (hs : (m.kernel.table.pList (freeSlot m.kernel.table)).state = 0) :
    freeSlot m.kernel.table ∉ live := fun hmem => by
  rw [(iso.running _ hmem).2] at hs
  exact absurd hs (by decide)

lemma load {y : ExecArgs} {pid : Nat} (iso : Isolated m live dir kstack lost) (tame : TameLoad m y)
    (h : m.loadTask y = .ok (m', pid)) (no : NoFlags m'.kernel.mm) : Kept m m' (.load y) live dir kstack lost := by
  unfold Machine.loadTask at h
  dsimp only at h
  split at h
  · rename_i hs
    cases h
    refine ⟨live, dir, kstack, lost, iso, fun x rem => ?_, rfl, ?_, fun p hp _ => hp⟩
    · unfold note
      dsimp only
      rwa [if_neg hs]
    · unfold leaked
      dsimp only
      rw [if_neg fun h => hs h.1, Nat.add_zero]
  · rename_i hs
    rw [not_not] at hs
    have hfree := iso.slot_free hs
    obtain ⟨l, hl, h⟩ := bind_ok.1 h
    split at h
    · obtain ⟨k1, hu, h⟩ := bind_ok.1 h
      cases h
      obtain ⟨pd, boarded⟩ := loadImage_boards iso.apart iso.runs tame.sized tame.segments hl
        (undo_down hu no)
      obtain ⟨apart, e, taken, hcr3, htable, hregs⟩ := boarded.undo iso.apart hfree iso.runs iso.cr3 hu no
      refine ⟨live, dir, kstack, _, ⟨?_, fun p hp => ?_, fun p h1 h2 hst => ?_, apart, ?_, iso.stack⟩,
        fun x rem p hp => remembered_load iso hs e rem p (List.mem_cons_of_mem _ hp), ?_, ?_, fun p hp _ => hp⟩
      · dsimp only
        rw [htable]
        exact iso.seats.claim
      · dsimp only
        rw [htable, claimSlot_state]
        exact iso.running p hp
      · dsimp only at hst
        rw [htable, claimSlot_state] at hst
        exact iso.listed p h1 h2 hst
      · rw [Machine.current]
        dsimp only
        rw [hcr3, hregs, htable, claimSlot_current]
        exact iso.cr3
      · have hleft := taken.left iso.apart.frames.held.upper no.oom
        unfold total allPages
        rw [Apart.pglist_elsewhere e hfree]
        simp only [List.length_append]
        omega
      · have hstill : (k1.table.pList (freeSlot m.kernel.table)).state = 0 := by rw [htable, claimSlot_state, hs]
        unfold leaked
        dsimp only
        rw [if_pos ⟨hs, hstill⟩, List.length_append, Nat.add_comm]
    · obtain ⟨c, hc, h⟩ := bind_ok.1 h
      obtain ⟨m1, hm, h⟩ := bind_ok.1 h
      cases h
      have push := pushArgs_moves tame.sized.array (tame.arguments l hl) hc
      obtain ⟨pd, boarded⟩ := loadImage_boards iso.apart iso.runs tame.sized tame.segments hl
        (push.flags.down (start_down hm no))
      obtain ⟨pd', pg, apart, e, taken, hesp0, hpage, hcr3, htable⟩ := boarded.start iso.apart hfree push hm no
      have hstate : ∀ p, (m'.kernel.table.pList p).state =
          if p = freeSlot m.kernel.table then 1 else (m.kernel.table.pList p).state := fun p => by
        rw [htable, fillSlot_state, claimSlot_state]
      refine ⟨_, _, _, _, ⟨?_, fun p hp => ?_, fun p h1 h2 hst => ?_, apart, ?_, fun p hp => ?_⟩,
        fun x rem => remembered_load iso hs e rem, ?_, ?_, fun p hp _ => List.mem_cons_of_mem _ hp⟩
      · have hparent : newParent (claimSlot m.kernel.table (freeSlot m.kernel.table)) =
            newParent m.kernel.table := by
          unfold newParent
          rw [claimSlot_current, claimSlot_state]
        rw [htable, hparent]
        exact iso.seats.fill hs
      · rw [hstate]
        rcases List.mem_cons.1 hp with rfl | hp
        · exact ⟨⟨Nat.one_le_iff_ne_zero.1 (one_le_freeSlot _), freeSlot_le _⟩, if_pos rfl⟩
        · have hne : p ≠ freeSlot m.kernel.table := fun e => hfree (e ▸ hp)
          rw [if_neg hne]
          exact iso.running p hp
      · rw [hstate] at hst
        by_cases hne : p = freeSlot m.kernel.table
        · exact List.mem_cons.2 (.inl hne)
        · rw [if_neg hne] at hst
          exact List.mem_cons_of_mem _ (iso.listed p h1 h2 hst)
      · have hcurrent : m'.current = m.kernel.table.current := by
          rw [Machine.current, htable]
          rfl
        rw [hcurrent]
        exact hcr3
      · rw [hesp0]
        by_cases hne : p = freeSlot m.kernel.table
        · have haligned := hpage.aligned
          have hupper := hpage.upper
          rw [hne, Function.update_self, Function.update_self, land_page,
            wrap_of_lt (by simp only [PAGESIZE]; omega)]
          simp only [PAGESIZE]
          omega
        · rw [Function.update_of_ne hne, Function.update_of_ne hne]
          exact iso.stack p ((List.mem_cons.1 hp).resolve_left hne)
      · have hleft := taken.left iso.apart.frames.held.upper no.oom
        unfold total
        rw [Apart.length_allPages_cons, Apart.allPages_elsewhere e hfree]
        unfold heldPages
        rw [Function.update_self, Function.update_self]
        simp only [List.length_append, List.length_singleton] at hleft ⊢
        omega
      · have hborn : ¬ ((m.kernel.table.pList (freeSlot m.kernel.table)).state = 0 ∧
            (m'.kernel.table.pList (freeSlot m.kernel.table)).state = 0) := fun h => by
          rw [hstate, if_pos rfl] at h
          exact absurd h.2 (by decide)
        unfold leaked
        dsimp only
        rw [if_neg hborn, Nat.add_zero]

lemma exit {status : Int} (iso : Isolated m live dir kstack lost) (h0 : m.current ≠ 0)
    (h : m.sysExit status = .ok m') (no : NoFlags m'.kernel.mm) : Kept m m' (.exit status) live dir kstack lost := by
  have front := iso.front h0
  have iso1 := iso.perm front
  have hp := (List.nodup_cons.1 iso1.apart.nodup).1
  obtain ⟨apart, e, taken, hcr3, htable, hesp0⟩ := iso1.apart.exit h0 iso.cr3 (iso1.stack _ List.mem_cons_self) h
  have hmem : ∀ {p}, p ∈ live.erase m.current → p ∈ live := fun hq => front.mem_iff.2 (List.mem_cons_of_mem _ hq)
  refine ⟨live.erase m.current, dir, kstack, lost, ⟨?_, fun p hq => ?_, fun p h1 h2 hst => ?_, apart, ?_, fun p hq => ?_⟩,
    fun x rem p hq a b hx => ?_, ?_, rfl, fun p hq hne => (List.mem_erase_of_ne hne).2 hq⟩
  · rw [htable]
    exact iso.seats.exit h0 status
  · have hne : p ≠ m.kernel.table.current := by
      rintro rfl
      exact hp hq
    rw [htable, sysExit_state, if_neg hne]
    exact iso.running p (hmem hq)
  · rw [htable, sysExit_state] at hst
    split at hst
    · exact absurd hst (by decide)
    · rename_i hne
      exact (List.mem_cons.1 (front.mem_iff.1 (iso.listed p h1 h2 hst))).resolve_left hne
  · have hcurrent : m'.current = 0 := by
      rw [Machine.current, htable, sysExit_current]
    rw [hcurrent]
    exact hcr3
  · rw [hesp0]
    exact iso.stack p (hmem hq)
  · obtain ⟨h1, h2, hbyte⟩ := rem p (hmem hq) a b hx
    exact ⟨h1, h2, (byte iso1.apart (List.mem_cons_of_mem _ hq) e (fun e => hp (e ▸ hq)) (Apart.sub_allPages hq)
      h1 h2).trans hbyte⟩
  · have hleft := taken.left iso.apart.frames.held.upper no.oom
    rw [total_perm front]
    unfold total
    rw [Apart.length_allPages_cons]
    have hrest : allPages m'.kernel dir kstack (live.erase m.current) lost =
        allPages m.kernel dir kstack (live.erase m.current) lost := by
      unfold allPages
      rw [Apart.pglist_elsewhere e hp]
    rw [hrest]
    omega

/-- Every clean step keeps the processes isolated. -/
lemma step (iso : Isolated m live dir kstack lost) (st : CleanStep m op m') :
    Kept m m' op live dir kstack lost := by
  obtain ⟨st, tame, no⟩ := st
  cases st with
  | load h => exact iso.load tame h no
  | fault h0 h => exact iso.fault h0 tame h no
  | store h0 h => exact iso.store h0 h no
  | sbrk h0 =>
    refine ⟨live, dir, kstack, lost, ⟨iso.seats, iso.running, iso.listed, iso.apart, iso.cr3, iso.stack⟩,
      fun x rem => rem, rfl, rfl, fun p hp _ => hp⟩
  | exit h0 h => exact iso.exit h0 h no
  | @wait junk t r h0 h =>
    have st : TableStep m.kernel.table (.sysWait junk) t := .sysWait h0 h
    have hcurrent : t.current = m.kernel.table.current := by
      obtain ⟨-, ⟨p, -, -, rfl, -⟩ | ⟨-, rfl, -⟩⟩ := sysWait_cases h <;> rfl
    refine iso.switched (iso.seats.step st) (fun p => ?_) ?_ rfl (fun _ => rfl) rfl
    · obtain ⟨-, ⟨c, -, hc, rfl, -⟩ | ⟨-, rfl, -⟩⟩ := sysWait_cases h
      · rw [collected_state]
        by_cases hpc : p = c
        · rw [if_pos hpc, hpc, hc]
          decide
        · rw [if_neg hpc]
      · rfl
    · rw [hcurrent]
      have hcr3 : ({ m.kernel with table := t } : Kernel).mm.cr3 = m.kernel.regsCr3 m.kernel.table.current :=
        iso.cr3
      exact (Kernel.setCr3_self hcr3).symm
  | schedule =>
    unfold Machine.schedule
    dsimp only
    split
    · exact ⟨live, dir, kstack, lost, iso, fun x rem => rem, rfl, rfl, fun p hp _ => hp⟩
    · refine iso.switched iso.seats.sched (fun p => ?_) rfl rfl (fun _ => rfl) rfl
      rcases schedule_cases m.kernel.table with e | e <;> rw [e]

/-- Nothing is live after the boot. -/
lemma boot {b s0 : Mm} {highMem : Nat} (init : initMm b highMem = .ok s0) :
    Isolated (bootMachine s0) [] (fun _ => ⟨0, ⟨0, 0, 0⟩, []⟩) (fun _ => ⟨0, 0, 0⟩) [] := by
  have inv : SpaceInv ⟨s0, [], []⟩ := SpaceInv.init init
  refine ⟨.boot _, nofun, fun p h1 h2 hs => ?_, ⟨List.nodup_nil, nofun, ?_, rfl, inv.maps.kernel⟩, ?_, nofun⟩
  · change ((bootTable fun _ => blankProcess).pList p).state = 1 at hs
    unfold bootTable at hs
    dsimp only at hs
    rw [if_neg (by omega), ite_self] at hs
    exact absurd hs (by decide)
  · exact ⟨inv.held, List.nodup_nil, nofun, nofun⟩
  · rcases inv.loaded with h | ⟨pd, hpd, -⟩
    · exact h
    · cases hpd

/-- A clean run from boot keeps the processes isolated, and what they remember is what they see. -/
lemma run {b s0 : Mm} {highMem : Nat} {ops : List MachineOp} {y : Machine × Notes}
    (init : initMm b highMem = .ok s0) (run : Run NotedStep (bootMachine s0, fun _ _ => none) ops y) :
    ∃ live dir kstack lost, Isolated y.1 live dir kstack lost ∧ Remembered y.1.kernel live y.2 := by
  refine run.invariant (I := fun y => ∃ live dir kstack lost, Isolated y.1 live dir kstack lost ∧
    Remembered y.1.kernel live y.2) ?_ ⟨_, _, _, _, boot init, nofun⟩
  rintro ⟨m, x⟩ op ⟨m', x'⟩ ⟨live, dir, kstack, lost, iso, rem⟩ ⟨st, hx⟩
  obtain ⟨live', dir', kstack', lost', kept⟩ := iso.step st
  dsimp only at hx
  rw [hx]
  exact ⟨live', dir', kstack', lost', kept.isolated, kept.remembered x rem⟩

end Isolated

/-- Notes can be taken in every run. -/
lemma noted_run {m m' : Machine} {ops : List MachineOp} (run : Run CleanStep m ops m') (x : Notes) :
    ∃ x', Run NotedStep (m, x) ops (m', x') := by
  induction run with
  | nil => exact ⟨x, .nil⟩
  | @snoc ops m1 op m2 _ st ih =>
    obtain ⟨x1, h1⟩ := ih
    exact ⟨note m1 x1 op, .snoc h1 ⟨st, rfl⟩⟩

/-- A process that can run, in the table or in the slot behind it, which `load_task` picks when the table is
full. -/
def Machine.Live (m : Machine) (p : Nat) : Prop := 1 ≤ p ∧ p ≤ MAXPID + 1 ∧ (m.kernel.table.pList p).state = 1

/-- The frame that process `p` reaches at the address `a`. -/
def frameAt (k : Kernel) (p a : Nat) : Option Nat := (walk k.mm.ram (k.regsCr3 p / 4096) a).map (· / 4096)

section Frames

variable {k : Kernel} {live : List Nat} {dir : Nat → PageDirectory} {kstack : Nat → Page} {lost : List Page}
  {p q a b f : Nat}

/-- What a process reaches lies in a page of its `pglist`. -/
lemma Apart.frameAt_page (h : Apart k live dir kstack lost) (hp : p ∈ live) (hlo : USER_OFFSET ≤ a)
    (hhi : a < USER_STACK) (hf : frameAt k p a = some f) :
    ∃ pg ∈ k.pglist p, pg.vAddr = a / 4096 * 4096 ∧ pg.pAddr / 4096 = f := by
  have space := (h.perm (List.perm_cons_erase hp)).inSpace
  obtain ⟨x, hx, rfl⟩ := Option.map_eq_some_iff.1 hf
  obtain ⟨pg, hpg, hv, rfl⟩ := space.page hlo hhi hx
  obtain ⟨-, -, hpage⟩ := space.frames.user_frame (List.mem_append_left _ hpg)
  exact ⟨pg, hpg, hv, by omega⟩

/-- A frame is reached by one process, at one page. -/
lemma Apart.frameAt_unique (h : Apart k live dir kstack lost) (hp : p ∈ live) (hq : q ∈ live)
    (hlo : USER_OFFSET ≤ a) (hhi : a < USER_STACK) (hf : frameAt k p a = some f) (hlo' : USER_OFFSET ≤ b)
    (hhi' : b < USER_STACK) (hf' : frameAt k q b = some f) : p = q ∧ a / 4096 = b / 4096 := by
  have space := (h.perm (List.perm_cons_erase hp)).inSpace
  obtain ⟨pg, hpg, hv, hpf⟩ := h.frameAt_page hp hlo hhi hf
  obtain ⟨pg', hpg', hv', hpf'⟩ := h.frameAt_page hq hlo' hhi' hf'
  have heq : q = p := by
    by_contra hne
    have hother : pg' ∈ (live.erase p).flatMap k.pglist ++ lost :=
      List.mem_append_left _ (List.mem_flatMap.2 ⟨q, (List.mem_erase_of_ne hne).2 hq, hpg'⟩)
    obtain ⟨-, hapart⟩ := space.apart (List.mem_append_right _ hother)
    exact hapart pg (List.mem_append_right _ hpg) (hpf.trans hpf'.symm)
  subst heq
  have hmem := List.mem_append_left ((live.erase q).flatMap k.pglist ++ lost) hpg
  have hmem' := List.mem_append_left ((live.erase q).flatMap k.pglist ++ lost) hpg'
  obtain ⟨-, -, hpage⟩ := space.frames.user_frame hmem
  obtain ⟨-, -, hpage'⟩ := space.frames.user_frame hmem'
  have hsame : pg = pg' := List.inj_on_of_nodup_map space.frames.nodup hmem hmem' (by omega)
  subst hsame
  exact ⟨rfl, by omega⟩

/-- It is in use, and no page that the kernel holds for a process. -/
lemma Apart.frameAt_kernel (h : Apart k live dir kstack lost) (hp : p ∈ live) (hq : q ∈ live)
    (hlo : USER_OFFSET ≤ a) (hhi : a < USER_STACK) (hf : frameAt k p a = some f) :
    frameUsed k.mm.memBitmap f = true ∧ ∀ pd, k.pd q = some pd → ∀ t ∈ pd.pages, t.pAddr / 4096 ≠ f := by
  obtain ⟨pg, hpg, -, rfl⟩ := h.frameAt_page hp hlo hhi hf
  have hmem : pg ∈ live.flatMap k.pglist ++ lost :=
    List.mem_append_left _ (List.mem_flatMap.2 ⟨p, hp, hpg⟩)
  refine ⟨?_, fun pd hpd t ht => ?_⟩
  · obtain ⟨g, hg, -, -, hused⟩ := h.frames.used pg hmem
    rwa [hg, Nat.mul_div_cancel _ (by decide)]
  · have hown : dir q = pd := Option.some.inj ((h.guests q hq).own.symm.trans hpd)
    exact h.frames.frame_ne hmem (List.mem_flatMap.2 ⟨q, hq, List.mem_append_left _ (hown ▸ ht)⟩)

end Frames

section Boot

variable {boot s0 : Mm} {highMem : Nat} {ops : List MachineOp}

/-! ## A run -/

lemma schedule_flags {m : Machine} (no : NoFlags m.schedule.kernel.mm) : NoFlags m.kernel.mm := by
  unfold Machine.schedule at no
  dsimp only at no
  split at no
  · exact no
  · exact ⟨no.oom, no.stale⟩

lemma bareArgs_tame (m : Machine) : TameLoad m bareArgs := by
  refine ⟨bareArgs_sized, ?_, fun l _ u c i n _ hi => ?_⟩
  · unfold StartsBelow
    decide
  · cases hi

/-- A task is loaded and runs, and stores a byte in a page that it has not used before. -/
lemma bare_store {a : Nat} (b : UInt8) (hlo : USER_OFFSET ≤ a) (hhi : a < USER_STACK) :
    ∃ (s0 : Mm) (ops : List MachineOp) (y : Machine × Notes), initMm blankMm 16384 = .ok s0 ∧
      Run CleanStep (bootMachine s0) ops y.1 ∧ Run NotedStep (bootMachine s0, fun _ _ => none) ops y ∧
      y.1.Live 1 ∧ y.2 1 a = some b := by
  obtain ⟨s0, init, seated⟩ := Seated.boot
  obtain ⟨m1, kernel1, others1, pd1, kstack1, load1, first, ending⟩ := (seated.mono (by decide)).next (n := 100)
    (by decide +kernel) (by decide +kernel) (by decide +kernel) (by decide +kernel)
  have no2 : NoFlags m1.schedule.kernel.mm := ⟨first.idle.supply.oom, first.idle.stale⟩
  have st1 : CleanStep (bootMachine s0) (.load bareArgs) m1 :=
    ⟨.load load1, bareArgs_tame _, schedule_flags no2⟩
  have st2 : CleanStep m1 .schedule m1.schedule := ⟨.schedule, trivial, no2⟩
  have hcur : m1.schedule.current = 1 := by
    rw [Machine.current, first.table]
    decide +kernel
  have h0 : m1.schedule.current ≠ 0 := by
    rw [hcur]
    exact Nat.one_ne_zero
  obtain ⟨live1, dir1, kstack1, lost1, kept1⟩ := (Isolated.boot init).step st1
  obtain ⟨live2, dir2, kstack2, lost2, kept2⟩ := kept1.isolated.step st2
  have iso2 := kept2.isolated
  generalize m1.schedule = m2 at first ending iso2 hcur h0 st2
  have space := (iso2.perm (iso2.front h0)).space
  have ready : Ready m2.kernel m2.current _ _ _ _ 102 := ⟨space, first.idle.supply, first.idle.fresh, first.idle.stale⟩
  obtain ⟨k3, pd3, l3, htouch, ready3, hsome⟩ := (ready.mono (n := 102) (m := 98 + 4) (by decide)).touch hlo hhi
  have hnone : ¬ (walk m2.kernel.mm.ram m2.kernel.mm.dir a).isSome := by
    intro h
    obtain ⟨x, hx⟩ := Option.isSome_iff_exists.1 h
    obtain ⟨pg, hpg, -⟩ := space.page hlo hhi hx
    rw [ending.pglist] at hpg
    cases hpg
  obtain ⟨-, htable, -⟩ := touch_same htouch
  have hfault : m2.fault a = .ok (some { m2 with kernel := k3 }) := by
    unfold touch at htouch
    rw [if_neg hnone] at htouch
    obtain ⟨r, hr, htouch⟩ := bind_ok.1 htouch
    unfold Machine.fault
    dsimp only
    rw [hr, ok_bind]
    cases r with
    | none => cases htouch
    | some r =>
      cases htouch
      rfl
  have hcur3 : ({ m2 with kernel := k3 } : Machine).current = 1 := (congrArg Table.current htable).trans hcur
  obtain ⟨x, hx⟩ := Option.isSome_iff_exists.1 hsome
  have hstore : ∃ m4, ({ m2 with kernel := k3 } : Machine).store a b = some m4 ∧ m4.kernel.table = k3.table ∧
      NoFlags m4.kernel.mm := by
    unfold Machine.store
    rw [if_pos ⟨hlo, hhi⟩, hx]
    exact ⟨_, rfl, rfl, ready3.supply.oom, ready3.stale⟩
  obtain ⟨m4, hstore, htable4, no4⟩ := hstore
  have st3 : CleanStep m2 (.fault a) { m2 with kernel := k3 } :=
    ⟨.fault h0 hfault, hnone, ready3.supply.oom, ready3.stale⟩
  have st4 : CleanStep { m2 with kernel := k3 } (.store a b) m4 :=
    ⟨.store (by rw [hcur3]; exact Nat.one_ne_zero) hstore, trivial, no4⟩
  have run3 := Run.snoc (.snoc (.snoc .nil st1) st2) st3
  obtain ⟨x3, noted⟩ := noted_run run3 fun _ _ => none
  refine ⟨s0, _, (m4, note { m2 with kernel := k3 } x3 (.store a b)), init, .snoc run3 st4,
    .snoc noted ⟨st4, rfl⟩, ⟨Nat.le_refl 1, by decide, ?_⟩, ?_⟩
  · rw [htable4, htable, first.table]
    decide +kernel
  · unfold note
    dsimp only
    rw [hcur3, Function.update_self, Function.update_self]

/-- In a clean run from boot, whatever the order of the steps, a process sees at an address the byte that it
has last stored there, as long as it lives. -/
theorem private_memory {y : Machine × Notes} {p a : Nat} {b : UInt8} (init : initMm boot highMem = .ok s0)
    (run : Run NotedStep (bootMachine s0, fun _ _ => none) ops y) (hp : y.1.Live p) (hx : y.2 p a = some b) :
    processByte y.1.kernel p a = some b := by
  obtain ⟨live, dir, kstack, lost, iso, rem⟩ := Isolated.run init run
  obtain ⟨h1, h2, hs⟩ := hp
  obtain ⟨-, -, hbyte⟩ := rem p (iso.listed p h1 h2 hs) a b hx
  exact hbyte

theorem private_memory_bare : ∃ y : Machine × Notes, y.2 1 USER_OFFSET = some 7 ∧
    processByte y.1.kernel 1 USER_OFFSET = some 7 := by
  obtain ⟨s0, ops, y, init, -, run, hlive, hx⟩ := bare_store (a := USER_OFFSET) 7 le_rfl (by decide)
  exact ⟨y, hx, private_memory init run hlive hx⟩

/-- In a clean run from boot no frame that a live process reaches is free, reached by another live process or
at another page, or a directory or a page table of a live process. -/
theorem frames_not_shared {m : Machine} {p a f : Nat} (init : initMm boot highMem = .ok s0)
    (run : Run CleanStep (bootMachine s0) ops m) (hp : m.Live p) (hlo : USER_OFFSET ≤ a) (hhi : a < USER_STACK)
    (hf : frameAt m.kernel p a = some f) :
    frameUsed m.kernel.mm.memBitmap f = true ∧
      (∀ q b, m.Live q → USER_OFFSET ≤ b → b < USER_STACK → frameAt m.kernel q b = some f →
        q = p ∧ b / 4096 = a / 4096) ∧
      ∀ q pd, m.Live q → m.kernel.pd q = some pd → ∀ t ∈ pd.pages, t.pAddr / 4096 ≠ f := by
  obtain ⟨x, noted⟩ := noted_run run fun _ _ => none
  obtain ⟨live, dir, kstack, lost, iso, -⟩ := Isolated.run init noted
  have hmem : ∀ {q}, m.Live q → q ∈ live := fun hq => iso.listed _ hq.1 hq.2.1 hq.2.2
  refine ⟨(iso.apart.frameAt_kernel (hmem hp) (hmem hp) hlo hhi hf).1, fun q b hq hlo' hhi' hf' => ?_,
    fun q pd hq => (iso.apart.frameAt_kernel (hmem hp) (hmem hq) hlo hhi hf).2 pd⟩
  exact iso.apart.frameAt_unique (hmem hq) (hmem hp) hlo' hhi' hf' hlo hhi hf

theorem frames_not_shared_bare : ∃ (m : Machine) (f : Nat), frameAt m.kernel 1 USER_OFFSET = some f ∧
    frameUsed m.kernel.mm.memBitmap f = true ∧ ∀ b, USER_OFFSET ≤ b → b < USER_STACK →
      frameAt m.kernel 1 b = some f → b / 4096 = USER_OFFSET / 4096 := by
  obtain ⟨s0, ops, y, init, run, noted, hlive, hx⟩ := bare_store (a := USER_OFFSET) 7 le_rfl (by decide)
  obtain ⟨live, dir, kstack, lost, iso, rem⟩ := Isolated.run init noted
  obtain ⟨-, -, hbyte⟩ := rem 1 (iso.listed 1 hlive.1 hlive.2.1 hlive.2.2) USER_OFFSET 7 hx
  obtain ⟨x, hw, -⟩ := Option.map_eq_some_iff.1 hbyte
  have hf : frameAt y.1.kernel 1 USER_OFFSET = some (x / 4096) := Option.map_eq_some_iff.2 ⟨x, hw, rfl⟩
  obtain ⟨hused, hsame, -⟩ := frames_not_shared init run hlive le_rfl (by decide) hf
  exact ⟨y.1, _, hf, hused, fun b hlo hhi hb => (hsame 1 b hlive hlo hhi hb).2⟩

end Boot

end Creeks
