import Creeks.Process.Exec

/-!
# The life of a process

`load_task` as a whole, the page faults of the processes and `sys_exit`, with what they do to the
process table, to memory and to the resources of a process: its page directory, the pages in `pglist`,
its kernel stack and its console. `sys_exit` is modelled for a process without open files.

`Machine` is the kernel of the failed executions with the fields of a `struct process` that a loaded
process has. `MachineStep` is one call or one access of any process, so that the runs of a machine are
the interleavings of its processes.
-/

namespace Creeks
open Lib

/-- `sizeof(struct vconsole)` -/
abbrev VCONSOLE_SIZE : Nat := 4112

/-- The kernel with the loaded processes: their kernel stacks, the addresses of their consoles, and
their stack pointers and heaps in user space. -/
structure Machine where
  kernel : Kernel
  esp0 : Nat → Nat
  console : Nat → Nat
  regsEsp : Nat → Nat
  eHeap : Nat → Nat

/-- The variables of `load_task` when `load_elf` has returned and the file has been freed. -/
structure Loading where
  kernel : Kernel
  previous : Nat
  param : Nat
  eEntry : Nat

/-- `load_task` up to the test of `e_entry`. -/
def loadImage (k : Kernel) (x : ExecArgs) : Except Stop Loading := do
  let pid := freeSlot k.table
  let k := { k with table := claimSlot k.table pid, allocated := [] }
  let c ← copyArgs k x.argv x.param
  let d ← pdCreate c.1.mm
  let previous := c.1.table.current
  let k := { c.1 with
    mm := d.1
    pd := Function.update c.1.pd pid (some d.2)
    pglist := Function.update c.1.pglist pid [] }
  let k := (k.setCurrent pid).setCr3 d.2.base.pAddr
  let f ← ext2ReadFile k x
  let e ← loadElfInto pid x.file f.1
  let k ← e.1.kfree f.2
  return ⟨k, previous, c.2, e.2⟩

/-- `strlen` of a string in the kernel heap. -/
def strlen (m : Mem) : Nat → Nat → Except Stop Nat
  | 0, _ => .error .fuel
  | fuel + 1, a =>
    if m a = 0 then .ok 0
    else do
      let n ← strlen m fuel (a + 1)
      return n + 1

/-- `strcpy` from the kernel heap to user memory. -/
def strcpyUser (pid : Nat) : Nat → Kernel → Nat → Nat → Except Stop Kernel
  | 0, _, _, _ => .error .fuel
  | fuel + 1, k, dst, src => do
    let b := k.mm.mem src
    let k ← storeUser pid k dst b
    if b = 0 then return k else strcpyUser pid fuel k (wrap (dst + 1)) (src + 1)

/-- One turn of the loop that copies the arguments to the user stack, with `stackp`. -/
def pushString (pid param uparam : Nat) (c : Kernel × Nat) (i : Nat) :
    Except Stop (Kernel × Nat) := do
  let str := load32 c.1.mm.mem (param + 4 * i)
  let n ← strlen c.1.mm.mem LOOP_MAX str
  let stackp := wrap (c.2 + 4294967296 - (n + 1))
  let k ← strcpyUser pid LOOP_MAX c.1 stackp str
  return (k.withMem (store32 k.mm.mem (uparam + 4 * i) stackp), stackp)

/-- A word pushed on the user stack. -/
def pushWord (pid : Nat) (c : Kernel × Nat) (w : Nat) : Except Stop (Kernel × Nat) := do
  let stackp := wrap (c.2 + 4294967296 - 4)
  let k ← (List.range 4).foldlM
    (fun k i => storeUser pid k (wrap (stackp + i)) (UInt8.ofNat (w / 256 ^ i))) c.1
  return (k, stackp)

/-- The part of `load_task` that puts the arguments of `main` on the user stack and frees their copies,
with `stackp`. -/
def pushArgs (pid : Nat) (k : Kernel) (argc param : Nat) : Except Stop (Kernel × Nat) :=
  let stackp := USER_STACK - 16
  if argc = 0 then .ok (k, stackp)
  else do
    let u ← k.kmalloc (4 * argc)
    let c ← (List.range argc).foldlM (pushString pid param u.2) (u.1, stackp)
    let c := (c.1, c.2 &&& 0xFFFFFFF0)
    let c ← pushWord pid c 0
    -- `argv[argc - 1]` is pushed first
    let c ← (List.range argc).reverse.foldlM
      (fun c i => pushWord pid c (load32 c.1.mm.mem (u.2 + 4 * i))) c
    let c ← pushWord pid c c.2
    let c ← pushWord pid c argc
    let k ← freeArgs c.1 argc param
    let k ← k.kfree u.2
    return (k, wrap (c.2 + 4294967296 - 4))

/-- The list `pglist` of a process given back by `sys_exit`. -/
def releasePages : List Page → Mm → Except Stop Mm
  | [], s => .ok s
  | pg :: l, s => do
    let s ← kfree { s with memBitmap := releasePageFrame s.memBitmap pg.pAddr } pg.addr
    releasePages l s

namespace Machine

/-- The process that runs. -/
abbrev current (m : Machine) : Nat := m.kernel.table.current

/-- The end of `load_task`: the kernel stack, the console and the fields of the new process. -/
def start (m : Machine) (pid previous stackp : Nat) : Except Stop Machine := do
  let g ← getPageFromHeap m.kernel.mm
  let q ← ({ m.kernel with mm := g.1 }).kmalloc VCONSOLE_SIZE
  match q.1.pd pid with
  | none => .error (.wild 0)
  | some pd =>
    let table := { q.1.table with current := previous }
    let bHeap := wrap (((q.1.image pid).eBss &&& 0xFFFFF000) + PAGESIZE)
    let regsCr3 := Function.update q.1.regsCr3 pid pd.base.pAddr
    let k := { q.1 with table := fillSlot table pid (newParent table), regsCr3 := regsCr3 }
    return { m with
      kernel := k.setCr3 (regsCr3 previous)
      esp0 := Function.update m.esp0 pid (wrap (g.2.vAddr + PAGESIZE - 16))
      console := Function.update m.console pid q.2
      regsEsp := Function.update m.regsEsp pid stackp
      eHeap := Function.update m.eHeap pid bHeap }

/-- `load_task`, with the pid it returns; 0 means failure. -/
def loadTask (m : Machine) (x : ExecArgs) : Except Stop (Machine × Nat) :=
  let pid := freeSlot m.kernel.table
  if (m.kernel.table.pList pid).state ≠ 0 then .ok (m, 0)
  else do
    let l ← loadImage m.kernel x
    if l.eEntry = 0 then
      let k ← undo l.kernel pid l.previous x.argv.length l.param
      return ({ m with kernel := k }, 0)
    else
      let c ← pushArgs pid l.kernel x.argv.length l.param
      let m ← start { m with kernel := c.1 } pid l.previous c.2
      return (m, pid)

/-- A page fault of the current process. Without a result the address lies outside user space, and
the process is ended by `sys_exit(1)`. -/
def fault (m : Machine) (faultingAddr : Nat) : Except Stop (Option Machine) := do
  let pid := m.current
  let r ← isrPfExc m.kernel.mm (m.kernel.pglist pid) (m.kernel.pd pid) faultingAddr
  return r.map fun (mm, pages, pd) => { m with kernel := { m.kernel with
    mm := mm
    pglist := Function.update m.kernel.pglist pid pages
    pd := Function.update m.kernel.pd pid pd } }

/-- A byte stored by the current process in a user page that is there. -/
def store (m : Machine) (a : Nat) (b : UInt8) : Option Machine :=
  if USER_OFFSET ≤ a ∧ a < USER_STACK then
    (walk m.kernel.mm.ram m.kernel.mm.dir a).map fun x => { m with kernel := { m.kernel with
      mm := { m.kernel.mm with
        ram := setWord m.kernel.mm.ram (x / 4096) (x % 4096 / 4)
          (setByte (m.kernel.mm.ram (x / 4096) (x % 4096 / 4)) (x % 4) b) } } }
  else none

/-- `sys_sbrk()`, with the address it returns. -/
def sysSbrk (m : Machine) (size : Int) : Machine × Nat :=
  let ret := m.eHeap m.current
  let e := ((ret + size) % 4294967296).toNat
  ({ m with eHeap := Function.update m.eHeap m.current e }, ret)

/-- `sys_exit()` of a process without open files, up to the switch to the kernel thread. -/
def sysExit (m : Machine) (status : Int) : Except Stop Machine := do
  let k := m.kernel
  let pid := m.current
  let s ← releasePages (k.pglist pid) k.mm
  let s ← kfree s (m.console pid)
  let r ← releasePageFromHeap s (m.esp0 pid &&& 0xFFFFF000)
  match k.pd pid with
  | none => .error (.wild 0)
  | some pd =>
    let s ← pdDestroy { r.1 with cr3 := KERN_PDIR } pd
    return { m with
      kernel := { k with
        table := Creeks.sysExit k.table status
        mm := { s with cr3 := k.regsCr3 0 }
        pglist := Function.update k.pglist pid [] }
      console := Function.update m.console pid 0 }

/-- `schedule()` and the switch to the process it has chosen. -/
def schedule (m : Machine) : Machine :=
  let t := m.kernel.table
  if t.nProc = 0 ∨ t.nProc = 1 ∧ (t.pList t.current).pid ≠ 0 then m
  else
    let k := { m.kernel with table := Creeks.schedule t }
    { m with kernel := k.setCr3 (k.regsCr3 k.table.current) }

end Machine

/-- What the processes and the kernel thread do. -/
inductive MachineOp where
  | load (x : ExecArgs)
  | fault (faultingAddr : Nat)
  | store (a : Nat) (b : UInt8)
  | sbrk (size : Int)
  | exit (status : Int)
  | wait (junk : Nat)
  | schedule

/-- One step of the machine. The kernel thread loads tasks; it makes no system call and has no user
memory. -/
inductive MachineStep : Machine → MachineOp → Machine → Prop where
  | load {m x m' pid} : m.loadTask x = .ok (m', pid) → MachineStep m (.load x) m'
  | fault {m a m'} :
    m.current ≠ 0 →
    m.fault a = .ok (some m') →
    MachineStep m (.fault a) m'
  | store {m a b m'} : m.current ≠ 0 → m.store a b = some m' → MachineStep m (.store a b) m'
  | sbrk {m size} : m.current ≠ 0 → MachineStep m (.sbrk size) (m.sysSbrk size).1
  | exit {m status m'} : m.current ≠ 0 → m.sysExit status = .ok m' → MachineStep m (.exit status) m'
  | wait {m junk t r} :
    m.current ≠ 0 →
    sysWait m.kernel.table junk = some (t, r) →
    MachineStep m (.wait junk) { m with kernel := { m.kernel with table := t } }
  | schedule {m} : MachineStep m .schedule m.schedule

/-- The failed executions are those of the whole `load_task`: they share its beginning. -/
lemma execTask_eq (k : Kernel) (x : ExecArgs) : execTask k x =
    if (k.table.pList (freeSlot k.table)).state ≠ 0 then .ok (k, some 0)
    else do
      let l ← loadImage k x
      if l.eEntry = 0 then
        let k ← undo l.kernel (freeSlot k.table) l.previous x.argv.length l.param
        return (k, some 0)
      else return (l.kernel, none) := by
  simp only [execTask, loadImage, bind_assoc, pure_bind]

/-! ## What the parts of the system calls do -/

/-- What the end of `load_task` does: a page for the kernel stack, a console, and the fields of the
process. -/
structure Started (m m' : Machine) (pid previous : Nat) (pd : PageDirectory) (kstack : Page)
    (s1 s2 : Mm) : Prop where
  get : getPageFromHeap m.kernel.mm = .ok (s1, kstack)
  kmalloc : Creeks.kmalloc s1 VCONSOLE_SIZE = .ok (s2, m'.console pid)
  mm : m'.kernel.mm = { s2 with cr3 := m'.kernel.regsCr3 previous }
  table : m'.kernel.table = fillSlot { m.kernel.table with current := previous } pid
    (newParent { m.kernel.table with current := previous })
  dirs : m'.kernel.pd = m.kernel.pd
  pglist : m'.kernel.pglist = m.kernel.pglist
  regsCr3 : m'.kernel.regsCr3 = Function.update m.kernel.regsCr3 pid pd.base.pAddr
  esp0 : m'.esp0 = Function.update m.esp0 pid (wrap (kstack.vAddr + PAGESIZE - 16))
  console : ∀ p, p ≠ pid → m'.console p = m.console p

/-- What `sys_exit` does: the four kinds of resources are given back in turn. -/
structure Exited (m m' : Machine) (status : Int) (pd : PageDirectory) (s1 s2 s3 s4 : Mm) : Prop where
  pages : releasePages (m.kernel.pglist m.current) m.kernel.mm = .ok s1
  console : kfree s1 (m.console m.current) = .ok s2
  kstack : ∃ r, releasePageFromHeap s2 (m.esp0 m.current &&& 0xFFFFF000) = .ok (s3, r)
  directory : pdDestroy { s3 with cr3 := KERN_PDIR } pd = .ok s4
  kernel : m'.kernel = { m.kernel with
    table := sysExit m.kernel.table status
    mm := { s4 with cr3 := m.kernel.regsCr3 0 }
    pglist := Function.update m.kernel.pglist m.current [] }
  esp0 : m'.esp0 = m.esp0
  consoles : m'.console = Function.update m.console m.current 0

section Inversion

variable {m m' : Machine} {pid previous stackp : Nat} {pd : PageDirectory} {x : ExecArgs}

lemma start_ok (hpd : m.kernel.pd pid = some pd) (h : m.start pid previous stackp = .ok m') :
    ∃ kstack s1 s2, Started m m' pid previous pd kstack s1 s2 := by
  obtain ⟨⟨s1, kstack⟩, hg, h⟩ := bind_ok.1 h
  obtain ⟨⟨k2, console⟩, hk, h⟩ := bind_ok.1 h
  obtain ⟨⟨s2, p⟩, hm, hk⟩ := bind_ok.1 hk
  cases hk
  dsimp only at h
  rw [hpd] at h
  cases h
  refine ⟨kstack, s1, s2, hg, ?_, rfl, rfl, rfl, rfl, rfl, rfl,
    fun p hp => Function.update_of_ne hp ..⟩
  dsimp only
  rw [Function.update_self]
  exact hm

/-- A `load_task` that returns a pid has gone through its three parts. -/
lemma loadTask_ok (h : m.loadTask x = .ok (m', pid)) (hpid : pid ≠ 0) :
    pid = freeSlot m.kernel.table ∧ (m.kernel.table.pList pid).state = 0 ∧
      ∃ l c, loadImage m.kernel x = .ok l ∧ l.eEntry ≠ 0 ∧
        pushArgs pid l.kernel x.argv.length l.param = .ok c ∧
        Machine.start { m with kernel := c.1 } pid l.previous c.2 = .ok m' := by
  unfold Machine.loadTask at h
  dsimp only at h
  split at h
  · cases h
    exact absurd rfl hpid
  · rename_i hs
    obtain ⟨l, hl, h⟩ := bind_ok.1 h
    split at h
    · obtain ⟨k1, -, h⟩ := bind_ok.1 h
      cases h
      exact absurd rfl hpid
    · rename_i he
      obtain ⟨c, hc, h⟩ := bind_ok.1 h
      obtain ⟨m1, hm, h⟩ := bind_ok.1 h
      cases h
      exact ⟨rfl, not_not.1 hs, l, c, hl, he, hc, hm⟩

/-- A `pushArgs` with arguments has pushed the copies, the null pointer, the pointers and the two arguments of
`main`, and has freed the kernel copies. -/
lemma pushArgs_ok {k : Kernel} {argc param : Nat} {r : Kernel × Nat} (hne : argc ≠ 0)
    (h : pushArgs pid k argc param = .ok r) :
    ∃ k1 u c2 c3 c4 c5 c6 k7, k.kmalloc (4 * argc) = .ok (k1, u) ∧
      (List.range argc).foldlM (pushString pid param u) (k1, USER_STACK - 16) = .ok c2 ∧
      pushWord pid (c2.1, c2.2 &&& 0xFFFFFFF0) 0 = .ok c3 ∧
      (List.range argc).reverse.foldlM
        (fun c i => pushWord pid c (load32 c.1.mm.mem (u + 4 * i))) c3 = .ok c4 ∧
      pushWord pid c4 c4.2 = .ok c5 ∧ pushWord pid c5 argc = .ok c6 ∧
      freeArgs c6.1 argc param = .ok k7 ∧ k7.kfree u = .ok r.1 := by
  rw [pushArgs, if_neg hne] at h
  obtain ⟨⟨k1, u⟩, h1, h⟩ := bind_ok.1 h
  obtain ⟨c2, h2, h⟩ := bind_ok.1 h
  obtain ⟨c3, h3, h⟩ := bind_ok.1 h
  obtain ⟨c4, h4, h⟩ := bind_ok.1 h
  obtain ⟨c5, h5, h⟩ := bind_ok.1 h
  obtain ⟨c6, h6, h⟩ := bind_ok.1 h
  obtain ⟨k7, h7, h⟩ := bind_ok.1 h
  obtain ⟨k8, h8, h⟩ := bind_ok.1 h
  cases h
  exact ⟨k1, u, c2, c3, c4, c5, c6, k7, h1, h2, h3, h4, h5, h6, h7, h8⟩

lemma sysExit_ok {status : Int} (h : m.sysExit status = .ok m') :
    ∃ pd s1 s2 s3 s4, m.kernel.pd m.current = some pd ∧ Exited m m' status pd s1 s2 s3 s4 := by
  obtain ⟨s1, h1, h⟩ := bind_ok.1 h
  obtain ⟨s2, h2, h⟩ := bind_ok.1 h
  obtain ⟨⟨s3, r⟩, h3, h⟩ := bind_ok.1 h
  split at h
  case h_1 => cases h
  case h_2 pd hpd =>
    obtain ⟨s4, h4, h⟩ := bind_ok.1 h
    cases h
    exact ⟨pd, s1, s2, s3, s4, hpd, h1, h2, ⟨r, h3⟩, h4, rfl, rfl, rfl⟩

/-- A page fault is a step of the stores to user memory of the current process. -/
lemma fault_ok {a : Nat} (h : m.fault a = .ok (some m')) :
    TouchStep m.current m.kernel m'.kernel ∧ m'.esp0 = m.esp0 ∧ m'.console = m.console := by
  obtain ⟨r, hr, h⟩ := bind_ok.1 h
  cases r with
  | none => cases h
  | some r =>
    cases h
    exact ⟨.fault hr, rfl, rfl⟩

end Inversion

end Creeks
