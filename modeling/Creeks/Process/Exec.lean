import Creeks.Mm.Exhaustion
import Creeks.Process.Count

/-!
# Failed executions

`load_task` with what it does to memory, up to the point where the file has been refused and the call
undone. The process table is the one of `Table`; the page directory and the page list of a process are
kept by slot, beside it.

`failed_exec` says when a refused file leaves everything as it was. A call that goes on after
`load_elf` has no result here: the stack, the console and the registers of the new process are not
modelled.

`allocated` and `strayFree` are ghost fields: the chunks `load_task` and `ext2_read_file` have
allocated in the running call and not yet freed, and whether they have freed anything else.
-/

namespace Creeks
open Lib

abbrev PF_X : Nat := 1
abbrev PF_W : Nat := 2
abbrev PF_R : Nat := 4

/-- The bounds of the sections of a process. -/
structure Image where
  bExec : Nat
  eExec : Nat
  bBss : Nat
  eBss : Nat

/-- The kernel as `load_task` sees it, the fields of a `struct process` by slot. -/
structure Kernel where
  table : Table
  mm : Mm
  pd : Nat → Option PageDirectory
  pglist : Nat → List Page
  image : Nat → Image
  regsCr3 : Nat → Nat
  allocated : List Nat
  strayFree : Bool

/-- What `load_task` is given: the arguments, the contents of the file from the address of the buffer
`ext2_read_file` returns on, the block size of the disk, the size of the file, the sizes of the
buffers `disk_read` takes in turn, and the value the variable `param` happens to have. -/
structure ExecArgs where
  argv : List (List UInt8)
  file : Mem
  blocksize : Nat
  size : Nat
  reads : List Nat
  param : Nat

namespace Kernel

/-- `kmalloc` called by `load_task`. -/
def kmalloc (k : Kernel) (size : Nat) : Except Stop (Kernel × Nat) := do
  let r ← Creeks.kmalloc k.mm size
  return ({ k with mm := r.1, allocated := r.2 :: k.allocated }, r.2)

/-- `kfree` called by `load_task`. -/
def kfree (k : Kernel) (vAddr : Nat) : Except Stop Kernel := do
  let mm ← Creeks.kfree k.mm vAddr
  return { k with
    mm := mm
    allocated := k.allocated.erase vAddr
    strayFree := k.strayFree || !k.allocated.contains vAddr }

/-- The state with other contents of the kernel heap. -/
def withMem (k : Kernel) (mem : Mem) : Kernel :=
  { k with mm := k.mm.withHeap mem k.mm.kmallocUsed }

/-- The state with another page directory loaded. -/
def setCr3 (k : Kernel) (cr3 : Nat) : Kernel := { k with mm := { k.mm with cr3 := cr3 } }

/-- The state with another current process. -/
def setCurrent (k : Kernel) (pid : Nat) : Kernel :=
  { k with table := { k.table with current := pid } }

@[simp] lemma setCr3_table (k : Kernel) (cr3 : Nat) : (k.setCr3 cr3).table = k.table := rfl
@[simp] lemma setCurrent_table (k : Kernel) (pid : Nat) :
    (k.setCurrent pid).table = { k.table with current := pid } := rfl

end Kernel

/-- A string stored with its final zero. -/
def storeString (m : Mem) (a : Nat) (str : List UInt8) : Mem := fun x =>
  if a ≤ x ∧ x ≤ a + str.length then str.getD (x - a) 0 else m x

/-- One turn of the loop that copies the arguments. -/
def copyArg (param : Nat) (k : Kernel) (arg : List UInt8 × Nat) : Except Stop Kernel := do
  let r ← k.kmalloc (arg.1.length + 1)
  return r.1.withMem (storeString (store32 r.1.mm.mem (param + 4 * arg.2) r.2) r.2 arg.1)

/-- The copy of the arguments, with the value of `param` after it. -/
def copyArgs (k : Kernel) (argv : List (List UInt8)) (param : Nat) : Except Stop (Kernel × Nat) :=
  if argv = [] then .ok (k, param)
  else do
    let r ← k.kmalloc (4 * (argv.length + 1))
    let k ← argv.zipIdx.foldlM (copyArg r.2) r.1
    return (k.withMem (store32 k.mm.mem (r.2 + 4 * argv.length) 0), r.2)

/-- The loop that frees the copies of the arguments. -/
def freeArgs (k : Kernel) (argc param : Nat) : Except Stop Kernel := do
  let k ← (List.range argc).foldlM (fun k i => k.kfree (load32 k.mm.mem (param + 4 * i))) k
  k.kfree param

/-- `ext2_read_file`: the chunks it takes and gives back. The bytes it copies are not stored. -/
def ext2ReadFile (k : Kernel) (x : ExecArgs) : Except Stop (Kernel × Nat) := do
  let buf ← k.kmalloc x.blocksize
  let p ← buf.1.kmalloc x.blocksize
  let pp ← p.1.kmalloc x.blocksize
  let ppp ← pp.1.kmalloc x.blocksize
  let base ← ppp.1.kmalloc x.size
  let k ← x.reads.foldlM (fun k n => do
    let r ← k.kmalloc n
    r.1.kfree r.2) base.1
  let k ← k.kfree buf.2
  let k ← k.kfree p.2
  let k ← k.kfree pp.2
  let k ← k.kfree ppp.2
  return (k, base.2)

/-- Byte `i` of a word replaced. -/
def setByte (w i : Nat) (b : UInt8) : Nat :=
  w - w / 256 ^ i % 256 * 256 ^ i + b.toNat * 256 ^ i

/-- The page of a user address is there, or `isr_PF_exc` maps it. Outside user space `isr_PF_exc` ends
the process and the call does not return. -/
def touch (k : Kernel) (pid a : Nat) : Except Stop Kernel :=
  if (walk k.mm.ram k.mm.dir a).isSome then .ok k
  else do
    match ← isrPfExc k.mm (k.pglist pid) (k.pd pid) a with
    | some (mm, pages, pd) =>
      return { k with
        mm := mm
        pglist := Function.update k.pglist pid pages
        pd := Function.update k.pd pid pd }
    | none => .error (.fault a)

/-- A byte stored through the directory of process `pid`. -/
def storeUser (pid : Nat) (k : Kernel) (a : Nat) (b : UInt8) : Except Stop Kernel :=
  if a < USER_OFFSET then .error (.wild a)
  else do
    let k ← touch k pid a
    match walk k.mm.ram k.mm.dir a with
    | some x =>
      return { k with mm := { k.mm with
        ram := setWord k.mm.ram (x / 4096) (x % 4096 / 4)
          (setByte (k.mm.ram (x / 4096) (x % 4096 / 4)) (x % 4) b) } }
    | none => .error (.fault a)

/-- The two copy loops of `load_elf` for one segment. -/
def copySegment (pid : Nat) (file : Mem) (k : Kernel) (ph : Phdr) : Except Stop Kernel := do
  let k ← (List.range ph.pFilesz).foldlM
    (fun k i => storeUser pid k (wrap (ph.pVaddr + i)) (file (ph.pOffset + i))) k
  (List.range' ph.pFilesz (ph.pMemsz - ph.pFilesz)).foldlM
    (fun k i => storeUser pid k (wrap (ph.pVaddr + i)) 0) k

/-- The description of a segment in the process. -/
def Image.describe (image : Image) (ph : Phdr) : Image :=
  let vEnd := wrap (ph.pVaddr + ph.pMemsz)
  if ph.pFlags = PF_X + PF_R then { image with bExec := ph.pVaddr, eExec := vEnd }
  else if ph.pFlags = PF_W + PF_R then { image with bBss := ph.pVaddr, eBss := vEnd }
  else image

/-- The loop of `load_elf` over the program headers. -/
def loadSegments (pid : Nat) (file : Mem) : List Phdr → Kernel → Except Stop (Kernel × Nat)
  | [], k => .ok (k, eEntry file)
  | ph :: l, k =>
    if ph.pType ≠ PT_LOAD then loadSegments pid file l k
    else if ph.refused then .ok (k, 0)
    else do
      let k := { k with image := Function.update k.image pid ((k.image pid).describe ph) }
      let k ← copySegment pid file k ph
      loadSegments pid file l k

/-- `load_elf`, with what it does to the process. -/
def loadElfInto (pid : Nat) (file : Mem) (k : Kernel) : Except Stop (Kernel × Nat) :=
  if !isElf file then .ok (k, 0)
  else loadSegments pid file ((List.range (ePhnum file)).map (phdr file)) k

/-- The part of `load_task` that undoes a refused call. -/
def undo (k : Kernel) (pid previous argc param : Nat) : Except Stop Kernel := do
  let k ← freeArgs k argc param
  let k := (k.setCurrent previous).setCr3 (k.regsCr3 previous)
  match k.pd pid with
  | some pd =>
    let mm ← pdDestroy k.mm pd
    return { k with mm := mm }
  | none => .error (.wild 0)

/-- `load_task` with its return value, or without one when the file has been loaded and the call goes
on. -/
def execTask (k : Kernel) (x : ExecArgs) : Except Stop (Kernel × Option Nat) :=
  let pid := freeSlot k.table
  if (k.table.pList pid).state ≠ 0 then .ok (k, some 0)
  else do
    let k := { k with table := claimSlot k.table pid, allocated := [] }
    let c ← copyArgs k x.argv x.param
    let d ← pdCreate c.1.mm
    let previous := c.1.table.current
    let k := { c.1 with
      mm := d.1
      pd := Function.update c.1.pd pid (some d.2)
      pglist := Function.update c.1.pglist pid [] }
    let k := (k.setCurrent pid).setCr3 d.2.base.pAddr
    let f ← ext2ReadFile k x
    let e ← loadElfInto pid x.file f.1
    let k ← e.1.kfree f.2
    if e.2 = 0 then do
      let k ← undo k pid previous x.argv.length c.2
      return (k, some 0)
    else return (k, none)

/-- A chunk of the kernel heap. -/
inductive ChunkAt (s : Mm) : Nat → Prop where
  | first : ChunkAt s KERN_HEAP
  | next {c} :
    ChunkAt s c →
    c + hdrSize s.mem c < s.kernHeap →
    ChunkAt s (c + hdrSize s.mem c)

/-- A chunk of the kernel heap that is allocated. -/
def LiveChunk (s : Mm) (c : Nat) : Prop := ChunkAt s c ∧ hdrUsed s.mem c ≠ 0

/-- A frame of a page `ksbrk` has added to the heap between two states. -/
def HeapFrame (s s' : Mm) (q : Nat) : Prop :=
  ∃ v, s.kernHeap ≤ v ∧ v < s'.kernHeap ∧ frameOf (kernPte s'.ram v) = q

/-- A call that has left everything as it was. -/
structure Undone (k k' : Kernel) : Prop where
  nProc : k'.table.nProc = k.table.nProc
  current : k'.table.current = k.table.current
  cr3 : k'.mm.cr3 = k.mm.cr3
  state : ∀ p, (k'.table.pList p).state = (k.table.pList p).state
  child : ∀ p, (k'.table.pList p).child = (k.table.pList p).child
  frames : ∀ q, frameUsed k'.mm.memBitmap q = true ↔
    frameUsed k.mm.memBitmap q = true ∨ HeapFrame k.mm k'.mm q
  pages : ∀ v, PageFree k'.mm.kernFreeVm v ↔ PageFree k.mm.kernFreeVm v
  chunks : ∀ c, LiveChunk k'.mm c ↔ LiveChunk k.mm c
  freed : k'.strayFree = k.strayFree

/-- The call returns 0 and has changed nothing. -/
def FailsClean (k : Kernel) (x : ExecArgs) : Prop :=
  ∃ k', execTask k x = .ok (k', some 0) ∧ Undone k k'

/-! ## User memory -/

/-- What a store to user memory does to the kernel: a page fault of the process, and words of frames.
`load_elf` also describes the segments. -/
inductive TouchStep (pid : Nat) : Kernel → Kernel → Prop where
  | fault {k a mm pages pd} :
    isrPfExc k.mm (k.pglist pid) (k.pd pid) a = .ok (some (mm, pages, pd)) →
    TouchStep pid k { k with
      mm := mm
      pglist := Function.update k.pglist pid pages
      pd := Function.update k.pd pid pd }
  | ram {k ram} : TouchStep pid k { k with mm := { k.mm with ram := ram } }
  | image {k image} : TouchStep pid k { k with image := image }

/-- Any number of stores to user memory. -/
abbrev TouchRun (pid : Nat) : Kernel → Kernel → Prop := Relation.ReflTransGen (TouchStep pid)

section UserMemory

variable {k k' : Kernel} {pid a : Nat} {file : Mem}

lemma touch_run (h : touch k pid a = .ok k') : TouchRun pid k k' := by
  unfold touch at h
  split at h
  · cases h
    exact .refl
  · obtain ⟨r, hr, h⟩ := bind_ok.1 h
    cases r with
    | none => cases h
    | some r =>
      cases h
      exact .single (.fault hr)

lemma storeUser_run {b : UInt8} (h : storeUser pid k a b = .ok k') : TouchRun pid k k' := by
  unfold storeUser at h
  split at h
  · cases h
  · obtain ⟨k1, h1, h⟩ := bind_ok.1 h
    split at h
    · cases h
      exact (touch_run h1).tail .ram
    · cases h

/-- A loop of stores. -/
lemma storeLoop_run {α : Type} {f : Kernel → α → Except Stop Kernel}
    (hf : ∀ k a k', f k a = .ok k' → TouchRun pid k k') {l : List α} (h : l.foldlM f k = .ok k') :
    TouchRun pid k k' :=
  foldlM_ok (P := TouchRun pid k) (fun j a j' hj e => hj.trans (hf j a j' e)) .refl h

lemma copySegment_run {ph : Phdr} (h : copySegment pid file k ph = .ok k') : TouchRun pid k k' := by
  obtain ⟨k1, h1, h2⟩ := bind_ok.1 h
  exact (storeLoop_run (fun _ _ _ => storeUser_run) h1).trans
    (storeLoop_run (fun _ _ _ => storeUser_run) h2)

/-- The loop over the program headers returns 0 when one of them is refused, else the entry point. -/
private lemma loadSegments_spec {l : List Phdr} {r : Kernel × Nat}
    (h : loadSegments pid file l k = .ok r) :
    TouchRun pid k r.1 ∧ r.2 = if l.any Phdr.refused then 0 else eEntry file := by
  induction l generalizing k with
  | nil =>
    cases h
    exact ⟨.refl, rfl⟩
  | cons ph l ih =>
    unfold loadSegments at h
    split at h
    · rename_i ht
      have hr : ph.refused = false := by
        unfold Phdr.refused
        rw [beq_false_of_ne ht, Bool.false_and]
      rw [List.any_cons, hr, Bool.false_or]
      exact ih h
    · split at h
      · rename_i hr
        cases h
        rw [List.any_cons, hr]
        exact ⟨.refl, rfl⟩
      · rename_i hr
        obtain ⟨k1, h1, h⟩ := bind_ok.1 h
        obtain ⟨e1, e2⟩ := ih h
        rw [List.any_cons, Bool.eq_false_iff.2 hr, Bool.false_or]
        exact ⟨((Relation.ReflTransGen.single .image).trans (copySegment_run h1)).trans e1, e2⟩

/-- What `load_elf` returns does not depend on the state. -/
lemma loadElfInto_spec {r : Kernel × Nat} (h : loadElfInto pid file k = .ok r) :
    TouchRun pid k r.1 ∧ r.2 = loadElf file := by
  unfold loadElfInto at h
  unfold loadElf
  split at h
  · rename_i he
    cases h
    rw [if_pos he]
    exact ⟨.refl, rfl⟩
  · rename_i he
    obtain ⟨e1, e2⟩ := loadSegments_spec h
    rw [List.any_map] at e2
    rw [if_neg he]
    exact ⟨e1, e2⟩

end UserMemory

/-! ## The process table -/

/-- Two kernels that differ in their memory and the ghost fields at most. -/
structure MemoryOnly (k k' : Kernel) : Prop where
  table : k'.table = k.table
  pd : k'.pd = k.pd
  pglist : k'.pglist = k.pglist
  image : k'.image = k.image
  regsCr3 : k'.regsCr3 = k.regsCr3

lemma MemoryOnly.refl (k : Kernel) : MemoryOnly k k := ⟨rfl, rfl, rfl, rfl, rfl⟩

lemma MemoryOnly.trans {k1 k2 k3 : Kernel} (h : MemoryOnly k1 k2) (h' : MemoryOnly k2 k3) :
    MemoryOnly k1 k3 :=
  ⟨h'.table.trans h.table, h'.pd.trans h.pd, h'.pglist.trans h.pglist, h'.image.trans h.image,
    h'.regsCr3.trans h.regsCr3⟩

section Table

variable {k k' : Kernel} {pid a n argc param : Nat}

lemma Kernel.kmalloc_frame {r : Kernel × Nat} (h : k.kmalloc n = .ok r) : MemoryOnly k r.1 := by
  obtain ⟨q, -, h⟩ := bind_ok.1 h
  cases h
  exact ⟨rfl, rfl, rfl, rfl, rfl⟩

lemma Kernel.kfree_frame (h : k.kfree a = .ok k') : MemoryOnly k k' := by
  obtain ⟨mm, -, h⟩ := bind_ok.1 h
  cases h
  exact ⟨rfl, rfl, rfl, rfl, rfl⟩

lemma Kernel.withMem_frame (k : Kernel) (mem : Mem) : MemoryOnly k (k.withMem mem) :=
  ⟨rfl, rfl, rfl, rfl, rfl⟩

/-- A loop of calls that leave everything but the memory alone. -/
lemma memoryLoop_frame {α : Type} {f : Kernel → α → Except Stop Kernel}
    (hf : ∀ k a k', f k a = .ok k' → MemoryOnly k k') {l : List α} (h : l.foldlM f k = .ok k') :
    MemoryOnly k k' :=
  foldlM_ok (P := MemoryOnly k) (fun j a j' hj e => hj.trans (hf j a j' e)) (.refl k) h

lemma copyArg_frame {arg : List UInt8 × Nat} (h : copyArg param k arg = .ok k') :
    MemoryOnly k k' := by
  obtain ⟨r, hr, h⟩ := bind_ok.1 h
  cases h
  exact (Kernel.kmalloc_frame hr).trans (Kernel.withMem_frame _ _)

lemma copyArgs_frame {argv : List (List UInt8)} {r : Kernel × Nat}
    (h : copyArgs k argv param = .ok r) : MemoryOnly k r.1 := by
  unfold copyArgs at h
  split at h
  · cases h
    exact .refl k
  · obtain ⟨q, hq, h⟩ := bind_ok.1 h
    obtain ⟨k1, h1, h⟩ := bind_ok.1 h
    cases h
    exact ((Kernel.kmalloc_frame hq).trans (memoryLoop_frame (fun _ _ _ => copyArg_frame) h1)).trans
      (Kernel.withMem_frame _ _)

lemma freeArgs_frame (h : freeArgs k argc param = .ok k') : MemoryOnly k k' := by
  obtain ⟨k1, h1, h⟩ := bind_ok.1 h
  exact (memoryLoop_frame (fun _ _ _ => Kernel.kfree_frame) h1).trans (Kernel.kfree_frame h)

/-- An `ext2_read_file` that returns has taken its four buffers and that of the file, has made its reads and has
given the four buffers back. -/
lemma ext2ReadFile_ok {x : ExecArgs} {r : Kernel × Nat} (h : ext2ReadFile k x = .ok r) :
    ∃ r1 r2 r3 r4 k5 k6 k7 k8 k9, k.kmalloc x.blocksize = .ok r1 ∧ r1.1.kmalloc x.blocksize = .ok r2 ∧
      r2.1.kmalloc x.blocksize = .ok r3 ∧ r3.1.kmalloc x.blocksize = .ok r4 ∧
      r4.1.kmalloc x.size = .ok (k5, r.2) ∧
      x.reads.foldlM (fun k n => k.kmalloc n >>= fun r => r.1.kfree r.2) k5 = .ok k6 ∧
      k6.kfree r1.2 = .ok k7 ∧ k7.kfree r2.2 = .ok k8 ∧ k8.kfree r3.2 = .ok k9 ∧ k9.kfree r4.2 = .ok r.1 := by
  obtain ⟨r1, h1, h⟩ := bind_ok.1 h
  obtain ⟨r2, h2, h⟩ := bind_ok.1 h
  obtain ⟨r3, h3, h⟩ := bind_ok.1 h
  obtain ⟨r4, h4, h⟩ := bind_ok.1 h
  obtain ⟨⟨k5, base⟩, h5, h⟩ := bind_ok.1 h
  obtain ⟨k6, h6, h⟩ := bind_ok.1 h
  obtain ⟨k7, h7, h⟩ := bind_ok.1 h
  obtain ⟨k8, h8, h⟩ := bind_ok.1 h
  obtain ⟨k9, h9, h⟩ := bind_ok.1 h
  obtain ⟨k10, h10, h⟩ := bind_ok.1 h
  cases h
  exact ⟨r1, r2, r3, r4, k5, k6, k7, k8, k9, h1, h2, h3, h4, h5, h6, h7, h8, h9, h10⟩

lemma ext2ReadFile_frame {x : ExecArgs} {r : Kernel × Nat}
    (h : ext2ReadFile k x = .ok r) : MemoryOnly k r.1 := by
  obtain ⟨r1, r2, r3, r4, k5, k6, k7, k8, k9, h1, h2, h3, h4, h5, h6, h7, h8, h9, h10⟩ := ext2ReadFile_ok h
  have buffers : MemoryOnly k k5 :=
    ((((Kernel.kmalloc_frame h1).trans (Kernel.kmalloc_frame h2)).trans
      (Kernel.kmalloc_frame h3)).trans (Kernel.kmalloc_frame h4)).trans (Kernel.kmalloc_frame h5)
  have reads : MemoryOnly k5 k6 := by
    refine memoryLoop_frame (fun j n j' e => ?_) h6
    obtain ⟨q, hq, e⟩ := bind_ok.1 e
    exact (Kernel.kmalloc_frame hq).trans (Kernel.kfree_frame e)
  have frees : MemoryOnly k6 r.1 :=
    (((Kernel.kfree_frame h7).trans (Kernel.kfree_frame h8)).trans (Kernel.kfree_frame h9)).trans
      (Kernel.kfree_frame h10)
  exact (buffers.trans reads).trans frees

/-- Stores to user memory do not touch the process table. -/
lemma TouchRun.table (h : TouchRun pid k k') : k'.table = k.table := by
  induction h with
  | refl => rfl
  | tail _ st ih =>
    rw [← ih]
    cases st <;> rfl

end Table

/-- On a refused file `load_task` returns 0 and does to the table what the model of the table says: it
counts a process. -/
lemma execTask_refused {k k' : Kernel} {x : ExecArgs} {r : Option Nat}
    (hf : loadElf x.file = 0) (h : execTask k x = .ok (k', r)) :
    r = some 0 ∧ k'.table = (loadTask k.table x.file).1 := by
  unfold execTask at h
  dsimp only at h
  unfold loadTask
  dsimp only
  by_cases hs : (k.table.pList (freeSlot k.table)).state = 0
  · rw [if_neg (by simpa using hs)] at h ⊢
    rw [if_pos hf]
    obtain ⟨c, hc, h⟩ := bind_ok.1 h
    obtain ⟨d, -, h⟩ := bind_ok.1 h
    obtain ⟨f, hread, h⟩ := bind_ok.1 h
    obtain ⟨e, helf, h⟩ := bind_ok.1 h
    obtain ⟨k1, h1, h⟩ := bind_ok.1 h
    obtain ⟨et, ev⟩ := loadElfInto_spec helf
    rw [if_pos (ev.trans hf)] at h
    obtain ⟨k2, h2, h⟩ := bind_ok.1 h
    cases h
    obtain ⟨k3, h3, h2⟩ := bind_ok.1 h2
    have ec := copyArgs_frame hc
    have e3 : k3.table =
        { claimSlot k.table (freeSlot k.table) with current := freeSlot k.table } := by
      rw [(freeArgs_frame h3).table, (Kernel.kfree_frame h1).table, et.table,
        (ext2ReadFile_frame hread).table, Kernel.setCr3_table, Kernel.setCurrent_table]
      dsimp only
      rw [ec.table]
    dsimp only at h2
    split at h2
    · obtain ⟨mm, -, h2⟩ := bind_ok.1 h2
      cases h2
      refine ⟨rfl, ?_⟩
      dsimp only
      rw [Kernel.setCr3_table, Kernel.setCurrent_table, e3, ec.table]
    · cases h2
  · rw [if_pos hs] at h ⊢
    cases h
    exact ⟨rfl, rfl⟩

/-- A refused file leaves everything as it was exactly when no slot is free, so that the call ends
before it has counted the process. -/
theorem failed_exec {x : ExecArgs} (hf : loadElf x.file = 0) (k : Kernel) :
    FailsClean k x ↔ ∀ p, 1 ≤ p → p ≤ MAXPID + 1 → (k.table.pList p).state ≠ 0 := by
  constructor
  · rintro ⟨k', h, undone⟩ p h1 h2 hp
    have ht := (execTask_refused hf h).2
    rcases loadTask_cases k.table x.file with ⟨hs, -⟩ | ⟨-, -, e⟩ | ⟨-, hne, -⟩
    · rcases freeSlot_cases k.table with ⟨-, -, hz⟩ | ⟨e, hall⟩
      · exact hs hz
      · by_cases hlast : p ≤ MAXPID
        · exact hall p h1 hlast hp
        · rw [e, show MAXPID + 1 = p by omega] at hs
          exact hs hp
    · have hn := undone.nProc
      rw [ht, e, claimSlot_nProc] at hn
      omega
    · exact hne hf
  · intro full
    have hs := full _ (one_le_freeSlot k.table) (freeSlot_le k.table)
    refine ⟨k, if_pos hs, ⟨rfl, rfl, rfl, fun _ => rfl, fun _ => rfl, fun q => ?_,
      fun _ => .rfl, fun _ => .rfl, rfl⟩⟩
    refine ⟨.inl, fun h => h.resolve_right ?_⟩
    rintro ⟨v, h1, h2, -⟩
    omega

/-- The kernel at boot over a memory manager, with the kernel directory in the registers of every
process. -/
def bootKernel (mm : Mm) (table : Table) : Kernel where
  table := table
  mm := mm
  pd _ := none
  pglist _ := []
  image _ := ⟨0, 0, 0, 0⟩
  regsCr3 _ := KERN_PDIR
  allocated := []
  strayFree := false

/-- A file of zeros without arguments. -/
def zeroArgs (param : Nat) : ExecArgs := ⟨[], fun _ => 0, 1024, 0, [], param⟩

lemma zeroArgs_refused (param : Nat) : loadElf (zeroArgs param).file = 0 := by
  change loadElf (fun _ => 0) = 0
  decide

theorem failed_exec_full :
    FailsClean (bootKernel blankMm ⟨fun _ => { blankProcess with state := 1 }, 0, 32⟩)
      (zeroArgs 0) := by
  refine (failed_exec (by decide) _).2 fun p _ _ => ?_
  change (1 : Int) ≠ 0
  decide

/-- A file of zeros given to the first `load_task` after `init_mm`: the call returns 0 with the process
counted. -/
theorem failed_exec_counts :
    ∃ s, initMm blankMm 16384 = .ok s ∧ ∀ param,
      ¬ FailsClean (bootKernel s (bootTable fun _ => blankProcess)) (zeroArgs param) ∧
      ∀ k' r, execTask (bootKernel s (bootTable fun _ => blankProcess)) (zeroArgs param) =
        .ok (k', r) → r = some 0 ∧ k'.table.nProc = 1 := by
  obtain ⟨s, init, -, -⟩ := initMm_blank
  refine ⟨s, init, fun param => ⟨fun h => ?_, fun k' r h => ?_⟩⟩
  · have e : ((bootTable fun _ => blankProcess).pList 1).state = 0 := by decide
    exact (failed_exec (zeroArgs_refused param) _).1 h 1 (by decide) (by decide) e
  · obtain ⟨hr, ht⟩ := execTask_refused (zeroArgs_refused param) h
    refine ⟨hr, ?_⟩
    rw [ht]
    change (loadTask (bootTable fun _ => blankProcess) fun _ => 0).1.nProc = 1
    decide

end Creeks
