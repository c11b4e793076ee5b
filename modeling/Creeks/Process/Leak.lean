import Creeks.Process.Boarding
import Creeks.Process.Chunks

/-!
# What a process leaves in the kernel heap

A process takes chunks of the kernel heap when it is loaded and at its page faults, and `sys_exit` gives
them back. Two are forgotten: `get_page_from_heap` makes a `struct page` for the page of the directory and
one for the kernel stack, and `release_page_from_heap` only takes the page. `chunks_leaked` is the account
of a whole life.
-/

namespace Creeks
open Lib

/-- What takes no chunk and gives none back. -/
def MachineOp.Quiet : MachineOp → Prop
  | .store _ _ | .sbrk _ | .wait _ | .schedule => True
  | .load _ | .fault _ | .exit _ => False

/-- A step in the life of process `pid`: the page faults are its own. -/
def LifeStep (pid : Nat) (m : Machine) (op : MachineOp) (m' : Machine) : Prop :=
  MachineStep m op m' ∧ (op.Quiet ∨ m.current = pid ∧ ∃ a, op = .fault a)

/-- A step between the exit of a process and the `sys_wait` of its parent. -/
def QuietStep (m : Machine) (op : MachineOp) (m' : Machine) : Prop := MachineStep m op m' ∧ op.Quiet

/-- The life of process `pid` from the call of `load_task`, in `m`, to the `sys_wait` that collects it. -/
inductive Life (x : ExecArgs) (pid : Nat) (m m' : Machine) : Prop where
  | intro {m1 m2 m3 m4 : Machine} {ops quiet : List MachineOp} {status code : Int} {junk : Nat} :
    Sized x →
    m.loadTask x = .ok (m1, pid) →
    pid ≠ 0 →
    Run (LifeStep pid) m1 ops m2 →
    m2.current = pid →
    m2.sysExit status = .ok m3 →
    Run QuietStep m3 quiet m4 →
    MachineStep m4 (.wait junk) m' →
    sysWait m4.kernel.table junk = some (m'.kernel.table, pid, some code) →
    Life x pid m m'

/-- The number of the chunks that are out. -/
lemma heapLedger_card {s : Mm} {A B : Multiset (Nat × Nat)} (hA : heapLedger.holds s A)
    (hB : heapLedger.holds s B) : A.card = B.card := by
  obtain ⟨chunks, live, rep, e⟩ := hA
  obtain ⟨chunks', live', rep', e'⟩ := hB
  have hchunks : chunks = chunks' := rep.tiles.unique (by decide) rep'.tiles
  subst hchunks
  -- the addresses of the live chunks are read in the headers
  have hsub : ∀ {l l' : List (Nat × Nat)}, HeapRep s chunks l → HeapRep s chunks l' →
      l.map Prod.fst ⊆ l'.map Prod.fst := by
    intro l l' r r' p hp
    obtain ⟨a, ha, rfl⟩ := List.mem_map.1 hp
    obtain ⟨c, hc, hpc, -⟩ := r.room a.1 a.2 ha
    rw [hpc] at hp ⊢
    exact (r'.used c hc).1 ((r.used c hc).2 hp)
  have hperm : (live.map Prod.fst).Perm (live'.map Prod.fst) :=
    (List.perm_ext_iff_of_nodup rep.nodup rep'.nodup).2 fun p =>
      ⟨fun h => hsub rep rep' h, fun h => hsub rep' rep h⟩
  have hlen := hperm.length_eq
  rw [List.length_map, List.length_map] at hlen
  have h1 := congrArg Multiset.card e
  have h2 := congrArg Multiset.card e'
  rw [Multiset.card_add, Multiset.coe_card] at h1 h2
  omega

/-! ## The parts of a life -/

section Parts

variable {m m' : Machine} {x : ExecArgs} {pid : Nat} {pd : PageDirectory} {A : Multiset (Nat × Nat)}
  {op : MachineOp}

/-- The end of `load_task` takes the `struct page` of the kernel stack and the console. -/
lemma start_effect {previous stackp : Nat} (hpd : m.kernel.pd pid = some pd)
    (h : m.start pid previous stackp = .ok m') : ∃ kstack, m'.kernel.pd = m.kernel.pd ∧
      m'.kernel.pglist = m.kernel.pglist ∧ HeapEffect m.kernel.mm 0 m'.kernel.mm
        ({pageChunk kstack} + {(m'.console pid, VCONSOLE_SIZE)}) := by
  obtain ⟨kstack, s1, s2, started⟩ := start_ok hpd h
  have e := (getPageFromHeap_effect started.get).add (kmalloc_effect (by decide) started.kmalloc)
  rw [add_zero] at e
  refine ⟨kstack, started.dirs, started.pglist, e.trans ?_⟩
  rw [started.mm]
  exact heapEffect_outside rfl rfl rfl

/-- `load_task` takes the chunks of the process, and two for the pages of its directory and its kernel
stack. -/
lemma loadTask_effect (sized : Sized x) (h : m.loadTask x = .ok (m', pid)) (hpid : pid ≠ 0)
    (hA : heapLedger.holds m.kernel.mm A) : ∃ pd kstack, m'.kernel.pd pid = some pd ∧
      heapLedger.holds m'.kernel.mm
        (taskChunks m' pid pd + ({pageChunk pd.base} + {pageChunk kstack} + A)) := by
  obtain ⟨rfl, -, l, c, hl, -, hc, hm⟩ := loadTask_ok h hpid
  obtain ⟨r, pd, hr, hparam, hpd, e2⟩ := loadImage_effect sized hl
  have spec := fun hF : heapLedger.holds _ A => copyArgs_spec sized hF hr
  obtain ⟨strings, copied, h1, -⟩ := spec hA
  rw [← zero_add (argChunks _ _ _ + A)] at h1
  obtain ⟨h2, v2⟩ := e2 _ h1
  -- the copies of the arguments are what they were while the file is loaded
  have copied2 : Copied l.kernel.mm x.argv.length l.param strings := by
    rw [hparam]
    exact copied.congr fun a ha => v2 a (Multiset.mem_add.2 (.inl ha))
  obtain ⟨pt, hpd3, e3⟩ := pushArgs_effect sized.array copied2 hpd hc
  obtain ⟨kstack, hdirs, hlist, e4⟩ := start_effect hpd3 hm
  have huser : userChunks m'.kernel (freeSlot m.kernel.table) =
      userChunks c.1 (freeSlot m.kernel.table) := by
    rw [userChunks, userChunks, hdirs, hlist]
  rw [hparam] at e3
  have e := e3.add e4
  rw [add_zero] at e
  have h5 := (e ({directoryChunk pd} + {pageChunk pd.base} + A) (by convert h2 using 1; abel)).1
  refine ⟨{ pd with pt := pt }, kstack, by rw [hdirs, hpd3], ?_⟩
  rw [taskChunks, huser]
  convert h5 using 1
  change _ + {directoryChunk pd} + _ + ({pageChunk pd.base} + _ + A) = _
  abel

/-- The chunks of process `pid` are out, besides those of `A`. -/
structure Alive (pid : Nat) (base : Page) (A : Multiset (Nat × Nat)) (m : Machine) (pd : PageDirectory) :
    Prop where
  own : m.kernel.pd pid = some pd
  base : pd.base = base
  holds : heapLedger.holds m.kernel.mm (taskChunks m pid pd + A)

/-- What a quiet step leaves as it is. -/
structure SameChunks (m m' : Machine) : Prop where
  pd : m'.kernel.pd = m.kernel.pd
  pglist : m'.kernel.pglist = m.kernel.pglist
  console : m'.console = m.console
  effect : HeapEffect m.kernel.mm 0 m'.kernel.mm 0

lemma SameChunks.refl (m : Machine) : SameChunks m m := ⟨rfl, rfl, rfl, .refl _ _⟩

lemma MachineStep.quiet (st : MachineStep m op m') (hq : op.Quiet) : SameChunks m m' := by
  cases st with
  | load => cases hq
  | fault => cases hq
  | exit => cases hq
  | store h0 h =>
    unfold Machine.store at h
    split at h
    case isFalse => cases h
    case isTrue =>
      obtain ⟨y, -, rfl⟩ := Option.map_eq_some_iff.1 h
      exact ⟨rfl, rfl, rfl, heapEffect_outside rfl rfl rfl⟩
  | sbrk => exact ⟨rfl, rfl, rfl, .refl _ _⟩
  | wait => exact ⟨rfl, rfl, rfl, .refl _ _⟩
  | schedule =>
    unfold Machine.schedule
    dsimp only
    split
    · exact .refl m
    · exact ⟨rfl, rfl, rfl, heapEffect_outside rfl rfl rfl⟩

lemma SameChunks.holds (h : SameChunks m m') (hA : heapLedger.holds m.kernel.mm A) :
    heapLedger.holds m'.kernel.mm A := by
  rw [← zero_add A] at hA ⊢
  exact (h.effect A hA).1

lemma SameChunks.taskChunks (h : SameChunks m m') : taskChunks m' pid pd = taskChunks m pid pd := by
  rw [Creeks.taskChunks, Creeks.taskChunks, userChunks, userChunks, h.pd, h.pglist, h.console]

variable {base : Page}

/-- The page faults of the process add to its chunks. -/
lemma Alive.step (h : Alive pid base A m pd) (st : LifeStep pid m op m') :
    ∃ pd', Alive pid base A m' pd' := by
  obtain ⟨st, hq | ⟨hcur, a, rfl⟩⟩ := st
  · have same := st.quiet hq
    refine ⟨pd, same.pd ▸ h.own, h.base, ?_⟩
    rw [same.taskChunks]
    exact same.holds h.holds
  · cases st with
    | fault h0 hf =>
      obtain ⟨touch, -, hconsole⟩ := fault_ok hf
      rw [hcur] at touch
      have run : TouchRun pid m.kernel m'.kernel := .tail .refl touch
      obtain ⟨pt, hpd, e⟩ := run.effect h.own
      refine ⟨_, hpd, h.base, ?_⟩
      have hF := h.holds
      unfold taskChunks at hF ⊢
      rw [add_assoc, add_assoc] at hF ⊢
      rw [hconsole]
      exact (e _ hF).1

lemma Alive.run {ops : List MachineOp} (h : Alive pid base A m pd) (run : Run (LifeStep pid) m ops m') :
    ∃ pd', Alive pid base A m' pd' :=
  run.invariant (I := fun m => ∃ pd, Alive pid base A m pd) (fun _ _ _ ⟨_, h⟩ st => h.step st) ⟨pd, h⟩

/-- The `struct page` of the pages of a process are freed. -/
lemma releasePages_effect {s s' : Mm} {pages : List Page} (h : releasePages pages s = .ok s') :
    HeapEffect s (listChunks pages) s' 0 := by
  induction pages generalizing s with
  | nil =>
    cases h
    exact .refl _ _
  | cons pg pages ih =>
    obtain ⟨s1, h1, h⟩ := bind_ok.1 h
    have e0 : HeapEffect s {pageChunk pg} { s with memBitmap := releasePageFrame s.memBitmap pg.pAddr }
        {pageChunk pg} := heapEffect_outside rfl rfl rfl
    rw [listChunks_cons]
    exact ((e0.trans (kfree_effect h1)).add (ih h)).cast rfl (add_zero _)

/-- `sys_exit` gives back the chunks it knows, and no others. -/
lemma Alive.exit {status : Int} (h : Alive m.current base A m pd) (e : m.sysExit status = .ok m') :
    heapLedger.holds m'.kernel.mm A := by
  obtain ⟨pd', s1, s2, s3, s4, hpd, ex⟩ := sysExit_ok e
  obtain rfl : pd = pd' := Option.some.inj (h.own.symm.trans hpd)
  obtain ⟨r, hr⟩ := ex.kstack
  have e1 := releasePages_effect ex.pages
  have e2 := kfree_effect (n := VCONSOLE_SIZE) ex.console
  have e3 := releasePageFromHeap_effect hr
  have e4 : HeapEffect s3 (listChunks pd.pt + {directoryChunk pd}) { s3 with cr3 := KERN_PDIR }
      (listChunks pd.pt + {directoryChunk pd}) := heapEffect_outside rfl rfl rfl
  have e5 := e4.trans (pdDestroy_effect ex.directory)
  have e6 : HeapEffect s4 0 { s4 with cr3 := m.kernel.regsCr3 0 } 0 := heapEffect_outside rfl rfl rfl
  have all := (((e1.add e2).add e3).add e5).add e6
  have hmm : m'.kernel.mm = { s4 with cr3 := m.kernel.regsCr3 0 } := by rw [ex.kernel]
  have hF := h.holds
  rw [taskChunks, userChunks, h.own, Option.elim_some] at hF
  rw [hmm]
  have hall := (all A (by convert hF using 1; abel)).1
  rwa [add_zero, add_zero, add_zero, add_zero, zero_add] at hall

lemma holds_quiet {ops : List MachineOp} (hA : heapLedger.holds m.kernel.mm A)
    (run : Run QuietStep m ops m') : heapLedger.holds m'.kernel.mm A :=
  run.invariant (I := fun m => heapLedger.holds m.kernel.mm A)
    (fun _ _ _ h st => (st.1.quiet st.2).holds h) hA

/-- The chunks of a whole life. -/
lemma Life.leaks (life : Life x pid m m') (hA : heapLedger.holds m.kernel.mm A) :
    (∃ base kstack, heapLedger.holds m'.kernel.mm ({pageChunk base} + {pageChunk kstack} + A)) ∧
      ¬ heapLedger.holds m'.kernel.mm A := by
  obtain ⟨sized, load, hpid, run, hcur, exit, quiet, wait, -⟩ := life
  obtain ⟨pd, kstack, hpd, h1⟩ := loadTask_effect sized load hpid hA
  have alive : Alive pid pd.base ({pageChunk pd.base} + {pageChunk kstack} + A) _ pd := ⟨hpd, rfl, h1⟩
  obtain ⟨pd2, alive2⟩ := alive.run run
  subst hcur
  have h3 := (wait.quiet trivial).holds (holds_quiet (alive2.exit exit) quiet)
  refine ⟨⟨pd.base, kstack, h3⟩, fun h => ?_⟩
  have hcard := heapLedger_card h3 h
  rw [Multiset.card_add, Multiset.card_add, Multiset.card_singleton, Multiset.card_singleton] at hcard
  omega

end Parts

/-! ## A life -/

/-- The table after a `load_task` that returned a pid. -/
def bornTable (t : Table) : Table :=
  let pid := freeSlot t
  let t := { claimSlot t pid with current := t.current }
  fillSlot t pid (newParent t)

/-- A file of a header only, without arguments. -/
def bareArgs : ExecArgs := ⟨[], bareElf, 1024, 28, [], 0⟩

lemma bareArgs_header : HeaderFile bareArgs := by
  refine ⟨rfl, by decide, by decide, rfl, by decide, by decide, by decide⟩

lemma bareArgs_sized : Sized bareArgs :=
  ⟨by decide, nofun, by decide, by decide, nofun⟩

/-- The tables of a boot, two loads with a switch to the new process after each, the exit of the second
process and the switch back to its parent. -/
def firstBorn : Table := schedule (bornTable (bootTable fun _ => blankProcess))
def secondBorn : Table := schedule (bornTable firstBorn)
def secondDead : Table := schedule (sysExit secondBorn 5)

/-- The switch to the current process of the table `t`. -/
def Machine.switchTo (m : Machine) (t : Table) : Machine :=
  let k := { m.kernel with table := t }
  { m with kernel := k.setCr3 (k.regsCr3 t.current) }

lemma schedule_switch {m : Machine} {t : Table} (ht : m.kernel.table = t)
    (hs : ¬(t.nProc = 0 ∨ t.nProc = 1 ∧ (t.pList t.current).pid ≠ 0)) :
    m.schedule = m.switchTo (schedule t) := by
  subst ht
  unfold Machine.schedule
  exact if_neg hs

/-- Some chunks are out of every kernel heap. -/
lemma PageHeap.holds {s : Mm} {others : List (Nat × Nat)} (ph : PageHeap s others) :
    ∃ A, heapLedger.holds s A := by
  obtain ⟨hnodup, chunks, live, rep, hsub⟩ := ph.owned
  have hle : (chunksOf s.kernFreeVm : Multiset (Nat × Nat)) ≤ live :=
    Multiset.coe_le.2 (List.subperm_of_subset (List.nodup_append.1 hnodup).1
      fun a ha => hsub (List.mem_append_left _ ha))
  exact ⟨live - chunksOf s.kernFreeVm, chunks, live, rep, (add_tsub_cancel_of_le hle).symm⟩

lemma initMm_headWords {boot s0 : Mm} {highMem : Nat} (h : initMm boot highMem = .ok s0) :
    s0.headWords = boot.headWords := by
  obtain ⟨t, p, grows, rfl⟩ := initMm_grows h
  rw [withVm_headWords, grows.fields.2.1, initPaging_headWords]

/-- A machine with the process table `t` that can load a task: the kernel pages and the chunks that are out,
and what is left. -/
structure Seated (m : Machine) (t : Table) (kernel : List Page) (others : List (Nat × Nat)) (n : Nat) :
    Prop where
  table : m.kernel.table = t
  idle : Idle m.kernel.mm kernel [] others n
  loaded : m.kernel.regsCr3 t.current = KERN_PDIR ∨ ∃ pg ∈ kernel, m.kernel.regsCr3 t.current = pg.pAddr
  map : KernelMap m.kernel.mm.ram (m.kernel.regsCr3 t.current / 4096)
  head : ∀ v, HeapPage v → m.kernel.mm.headWords.2 ≠ v

section Seated

variable {m : Machine} {t : Table} {kernel : List Page} {others : List (Nat × Nat)} {n : Nat}

/-- The machine after the boot. -/
lemma Seated.boot : ∃ s0, initMm blankMm 16384 = .ok s0 ∧
    Seated (bootMachine s0) (bootTable fun _ => blankProcess) [] [] 1000 := by
  obtain ⟨s0, init, idle⟩ := initMm_idle
  refine ⟨s0, init, rfl, idle, .inl rfl, ?_, fun v hv => ?_⟩
  · have hone : KERN_PDIR / 4096 = 1 := Nat.div_self (by decide)
    change KernelMap s0.ram (KERN_PDIR / 4096)
    rw [hone]
    exact idle.pd0
  have hhead : (bootMachine s0).kernel.mm.headWords = blankMm.headWords := initMm_headWords init
  have hlow := hv.lower
  rw [hhead]
  change 0 ≠ v
  omega

/-- A task is loaded and runs next: the machine can load another one, and this one can be ended. -/
lemma Seated.next (h : Seated m t kernel others (n + 2 + 2 + 2 + 5 + 3))
    (hfree : (t.pList (freeSlot t)).state = 0) (hcur : t.current ≠ freeSlot t)
    (hs : ¬((bornTable t).nProc = 0 ∨
      (bornTable t).nProc = 1 ∧ ((bornTable t).pList (bornTable t).current).pid ≠ 0))
    (hnext : (schedule (bornTable t)).current = freeSlot t) :
    ∃ m' kernel' others' pd kstack, m.loadTask bareArgs = .ok (m', freeSlot t) ∧
      Seated m'.schedule (schedule (bornTable t)) kernel' others' (n + 2) ∧
      Endable m'.schedule pd kstack kernel
        (pageChunk kstack :: pageChunk pd.base :: directoryChunk pd :: others) := by
  obtain ⟨rfl, idle, loaded, map, head⟩ := h
  obtain ⟨m', pd, kstack, load, born, settled⟩ :=
    @HeaderFile.board m bareArgs kernel [] others (n + 2) bareArgs_header idle hfree hcur loaded map
  have htable : m'.kernel.table = bornTable m.kernel.table := born.table
  have hcr3 : m'.kernel.regsCr3 (schedule (bornTable m.kernel.table)).current = pd.base.pAddr := by
    rw [hnext, born.regsCr3, Function.update_self]
  refine ⟨m', kstack :: pd.base :: kernel, (m'.console (freeSlot m.kernel.table), VCONSOLE_SIZE) ::
    pageChunk kstack :: pageChunk pd.base :: directoryChunk pd :: others, pd, kstack, load, ?_⟩
  rw [schedule_switch htable hs]
  generalize schedule (bornTable m.kernel.table) = T at hcr3 hnext ⊢
  have hmm : (m'.switchTo T).kernel.mm = { m'.kernel.mm with cr3 := pd.base.pAddr } := by
    rw [← hcr3]
    rfl
  have hbase : pd.base ∈ kstack :: pd.base :: kernel := List.mem_cons_of_mem _ List.mem_cons_self
  have settled' := @Settled.load _ _ _ _ _ _ _ pd.base.pAddr settled settled.map
  have idle' := settled'.idle idle.pd0 (.inr ⟨pd.base, hbase, rfl⟩) hbase
  rw [← hmm] at idle'
  have hhead : (m'.switchTo T).kernel.mm.headWords = m.kernel.mm.headWords := by
    rw [hmm]
    exact settled.head
  have hcurrent : (m'.switchTo T).current = freeSlot m.kernel.table := hnext
  refine ⟨⟨rfl, idle', .inr ⟨pd.base, hbase, hcr3⟩, ?_, ?_⟩, ?_⟩
  · rw [hmm]
    change KernelMap m'.kernel.mm.ram (m'.kernel.regsCr3 T.current / 4096)
    rw [hcr3]
    exact settled.map
  · rw [hhead]
    exact head
  · have hlimit := idle'.supply.limit
    refine ⟨?_, born.tables, ?_, ?_, ?_, ?_, idle'.frames.held, idle'.pd0, ?_, ?_⟩
    · rw [hcurrent]
      exact born.own
    · rw [hcurrent]
      exact born.pglist
    · rw [hcurrent]
      exact born.esp0
    · rw [hcurrent]
      exact idle'.supply.heap
    · exact List.mem_cons_of_mem _ (List.mem_cons_of_mem _ List.mem_cons_self)
    · exact (Nat.add_le_add_left (Nat.mul_le_mul_right _ (Nat.le_add_left 2 n)) _).trans hlimit
    · rw [hhead]
      exact head

lemma Seated.mono {n' : Nat} (h : Seated m t kernel others n) (hn : n' ≤ n) : Seated m t kernel others n' :=
  ⟨h.table, { h.idle with supply := h.idle.supply.mono hn }, h.loaded, h.map, h.head⟩

end Seated

/-- After the boot a task loads another one, which exits at once and is waited for. -/
lemma bareLife : ∃ s0 m m' A, initMm blankMm 16384 = .ok s0 ∧
    Run MachineStep (bootMachine s0) [.load bareArgs, .schedule] m ∧
    heapLedger.holds m.kernel.mm A ∧ Life bareArgs 2 m m' := by
  obtain ⟨s0, init, boot⟩ := Seated.boot
  obtain ⟨m1, kernel1, others1, pd1, kstack1, load1, first, -⟩ := (boot.mono (by decide)).next (n := 100)
    (by decide +kernel) (by decide +kernel) (by decide +kernel) (by decide +kernel)
  obtain ⟨m3, kernel3, others3, pd3, kstack3, load3, second, ending⟩ := (first.mono (by decide)).next (n := 10)
    (by decide +kernel) (by decide +kernel) (by decide +kernel) (by decide +kernel)
  obtain ⟨m5, exit⟩ := ending.exit 5
  obtain ⟨A, hA⟩ := first.idle.supply.heap.holds
  have hslot : freeSlot firstBorn = 2 := by decide +kernel
  have hpid : m3.schedule.current = 2 := by
    rw [Machine.current, second.table]
    decide +kernel
  obtain ⟨pd, s1, s2, s3, s4, -, exited⟩ := sysExit_ok exit
  have htable : m5.kernel.table = sysExit secondBorn 5 := by
    rw [exited.kernel]
    dsimp only
    rw [second.table]
    rfl
  have hback := schedule_switch htable (by decide +kernel)
  have hwait : (sysWait secondDead 0).map Prod.snd = some (2, some 5) := by decide +kernel
  obtain ⟨⟨t, r⟩, hw, rfl⟩ := Option.map_eq_some_iff.1 hwait
  have hw' : sysWait m5.schedule.kernel.table 0 = some (t, 2, some 5) := by
    rw [hback]
    exact hw
  have hparent : m5.schedule.current ≠ 0 := by
    rw [hback]
    change secondDead.current ≠ 0
    decide +kernel
  rw [show freeSlot (schedule (bornTable _)) = 2 from hslot] at load3
  refine ⟨s0, m1.schedule, _, A, init, .snoc (.snoc .nil (.load load1)) .schedule, hA,
    .intro bareArgs_sized load3 (by decide) (.snoc .nil ⟨.schedule, .inl trivial⟩) hpid exit
      (.snoc .nil ⟨.schedule, trivial⟩) (.wait hparent hw') hw'⟩

/-- Every life leaves two chunks: the `struct page` of the page directory and that of the kernel stack are
still out when the process has been waited for. So the chunks that are out are never those that were. -/
theorem chunks_leaked {m m' : Machine} {x : ExecArgs} {pid : Nat} {A : Multiset (Nat × Nat)}
    (hA : heapLedger.holds m.kernel.mm A) (life : Life x pid m m') :
    (∃ base kstack, heapLedger.holds m'.kernel.mm ({pageChunk base} + {pageChunk kstack} + A)) ∧
      ¬ heapLedger.holds m'.kernel.mm A :=
  life.leaks hA

theorem chunks_leaked_bare : ∃ m m' A, heapLedger.holds m.kernel.mm A ∧ Life bareArgs 2 m m' ∧
    (∃ base kstack, heapLedger.holds m'.kernel.mm ({pageChunk base} + {pageChunk kstack} + A)) ∧
      ¬ heapLedger.holds m'.kernel.mm A := by
  obtain ⟨s0, m, m', A, -, -, hA, life⟩ := bareLife
  exact ⟨m, m', A, hA, life, chunks_leaked hA life⟩

/-- The second task after the boot, without arguments and without a page fault, does not leave the kernel
heap as it was. -/
theorem bare_life_leaks : ¬ ∀ s0 m m' A, initMm blankMm 16384 = .ok s0 →
    Run MachineStep (bootMachine s0) [.load bareArgs, .schedule] m → heapLedger.holds m.kernel.mm A →
    Life bareArgs 2 m m' → heapLedger.holds m'.kernel.mm A := fun h => by
  obtain ⟨s0, m, m', A, init, run, hA, life⟩ := bareLife
  exact (life.leaks hA).2 (h s0 m m' A init run hA life)

end Creeks
