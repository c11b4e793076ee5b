import Creeks.Process.Progress

/-!
# The heap of a process and its segments

`load_task` puts the heap of a process one page above `e_bss`, and `sys_sbrk` moves its end. `load_elf`
sets `e_bss` to the end of a segment with the flags `PF_W + PF_R`; a segment with any other flags
leaves it as it is, and a file without such a segment leaves the value of the process that had the slot
before.

`bssEnd` is this end, read off the file and the old value, and `segments` are the segments of the
file. `heap_above_segments` says for which files the heap begins above all of them.
-/

namespace Creeks
open Lib

/-! ## The segments of a file -/

/-- The segments `load_elf` copies to memory. -/
def segments (file : Mem) : List Phdr :=
  ((List.range (ePhnum file)).map (phdr file)).filter (·.pType = PT_LOAD)

/-- The end of a segment. -/
def Phdr.vEnd (ph : Phdr) : Nat := ph.pVaddr + ph.pMemsz

/-- A segment with the flags of the bss. -/
def Phdr.isBss (ph : Phdr) : Bool := ph.pFlags = PF_W + PF_R

/-- The end of the bss after a list of segments, `eBss` being the one before. The last segment with the
flags of the bss counts, its end taken in 32 bits. -/
def bssEnd (l : List Phdr) (eBss : Nat) : Nat :=
  match l.reverse.find? (·.isBss) with
  | some ph => wrap ph.vEnd
  | none => eBss

/-- The first page boundary above an address, in 32 bits. -/
def nextPage (a : Nat) : Nat := wrap ((a / PAGESIZE + 1) * PAGESIZE)

/-- The heap begins at a page boundary above every segment. -/
structure HeapAbove (file : Mem) (bHeap : Nat) : Prop where
  aligned : bHeap % PAGESIZE = 0
  above : ∀ ph ∈ segments file, ph.vEnd ≤ bHeap

/-- No segment ends above the page boundary that follows the bss. -/
def BssLast (file : Mem) (eBss : Nat) : Prop :=
  ∀ ph ∈ segments file, ph.vEnd ≤ nextPage (bssEnd (segments file) eBss)

/-- Describing a list of segments leaves the end of the bss. -/
lemma eBss_describe (l : List Phdr) (image : Image) :
    (l.foldl Image.describe image).eBss = bssEnd l image.eBss := by
  induction l using List.reverseRecOn with
  | nil => rfl
  | append_singleton l ph ih =>
    rw [List.foldl_concat, bssEnd, List.reverse_append, List.reverse_singleton,
      List.singleton_append, List.find?_cons]
    unfold Image.describe
    dsimp only
    split
    case isTrue hx =>
      rw [show ph.isBss = false by rw [Phdr.isBss, hx]; rfl]
      exact ih
    case isFalse hx =>
      split
      case isTrue hw =>
        rw [show ph.isBss = true by rw [Phdr.isBss, hw]; rfl]
        rfl
      case isFalse hw =>
        rw [show ph.isBss = false from decide_eq_false hw]
        exact ih

/-- `b_heap` is the page boundary above `e_bss`. -/
lemma bHeap_eq (e : Nat) : wrap ((e &&& 0xFFFFF000) + PAGESIZE) = nextPage e := by
  rw [nextPage, wrap_eq, wrap_eq, land_page]
  simp only [PAGESIZE]
  omega

lemma nextPage_aligned (a : Nat) : nextPage a % PAGESIZE = 0 := by
  rw [nextPage, wrap_eq]
  simp only [PAGESIZE]
  omega

/-- A heap that begins above the bss is above the segments when the bss is the last of them. -/
lemma heapAbove_iff (file : Mem) (eBss : Nat) :
    HeapAbove file (nextPage (bssEnd (segments file) eBss)) ↔ BssLast file eBss :=
  ⟨fun h => h.above, fun h => ⟨nextPage_aligned _, h⟩⟩

/-! ## The description of the segments -/

section Image

variable {k k' : Kernel} {pid a : Nat} {file : Mem}

lemma touch_image (h : touch k pid a = .ok k') : k'.image = k.image := by
  unfold touch at h
  split at h
  · cases h
    rfl
  · obtain ⟨r, -, h⟩ := bind_ok.1 h
    cases r with
    | none => cases h
    | some r =>
      cases h
      rfl

lemma storeUser_image {b : UInt8} (h : storeUser pid k a b = .ok k') : k'.image = k.image := by
  unfold storeUser at h
  split at h
  · cases h
  · obtain ⟨k1, h1, h⟩ := bind_ok.1 h
    have ih := touch_image h1
    split at h
    · cases h
      exact ih
    · cases h

/-- A loop of calls that leave the descriptions alone. -/
lemma imageLoop {α β : Type} {f : β → α → Except Stop β} {g : β → Kernel}
    (hf : ∀ k a k', f k a = .ok k' → (g k').image = (g k).image) {l : List α} {k k' : β}
    (h : l.foldlM f k = .ok k') : (g k').image = (g k).image :=
  foldlM_ok (P := fun j => (g j).image = (g k).image) (fun j a j' hj e => (hf j a j' e).trans hj) rfl h

lemma copySegment_image {ph : Phdr} (h : copySegment pid file k ph = .ok k') :
    k'.image = k.image := by
  obtain ⟨k1, h1, h2⟩ := bind_ok.1 h
  exact (imageLoop (g := id) (fun _ _ _ => storeUser_image) h2).trans
    (imageLoop (g := id) (fun _ _ _ => storeUser_image) h1)

/-- The loop over the program headers describes the segments, unless it refuses one. -/
lemma loadSegments_image {l : List Phdr} {r : Kernel × Nat} (h : loadSegments pid file l k = .ok r)
    (hr : r.2 ≠ 0) :
    r.1.image pid = (l.filter (·.pType = PT_LOAD)).foldl Image.describe (k.image pid) := by
  induction l generalizing k with
  | nil =>
    cases h
    rfl
  | cons ph l ih =>
    unfold loadSegments at h
    split at h
    case isTrue ht =>
      rw [List.filter_cons_of_neg (by simpa using ht)]
      exact ih h
    case isFalse ht =>
      rw [List.filter_cons_of_pos (by simpa using ht), List.foldl_cons]
      split at h
      · cases h
        exact absurd rfl hr
      · obtain ⟨k1, h1, h⟩ := bind_ok.1 h
        have e := ih h
        rw [copySegment_image h1] at e
        dsimp only at e
        rwa [Function.update_self] at e

/-- `load_elf` leaves the end of the bss in the process. -/
lemma loadElfInto_eBss {r : Kernel × Nat} (h : loadElfInto pid file k = .ok r) (hr : r.2 ≠ 0) :
    (r.1.image pid).eBss = bssEnd (segments file) (k.image pid).eBss := by
  unfold loadElfInto at h
  split at h
  · cases h
    exact absurd rfl hr
  · rw [loadSegments_image h hr, eBss_describe]
    rfl

lemma loadImage_eBss {x : ExecArgs} {l : Loading} (h : loadImage k x = .ok l) (hl : l.eEntry ≠ 0) :
    (l.kernel.image (freeSlot k.table)).eBss =
      bssEnd (segments x.file) (k.image (freeSlot k.table)).eBss := by
  obtain ⟨c, hc, h⟩ := bind_ok.1 h
  obtain ⟨d, -, h⟩ := bind_ok.1 h
  obtain ⟨f, hf, h⟩ := bind_ok.1 h
  obtain ⟨e, he, h⟩ := bind_ok.1 h
  obtain ⟨k4, hk, h⟩ := bind_ok.1 h
  cases h
  have hk4 := (Kernel.kfree_frame hk).image
  have hf2 := (ext2ReadFile_frame hf).image
  have hc1 := (copyArgs_frame hc).image
  dsimp only at hk4 ⊢
  rw [hk4, loadElfInto_eBss he hl, hf2]
  change bssEnd _ (c.1.image _).eBss = _
  rw [hc1]

end Image

section Start

variable {k : Kernel} {m m' : Machine} {pid previous stackp : Nat} {x : ExecArgs}

lemma strcpyUser_image {fuel dst src : Nat} {k' : Kernel}
    (h : strcpyUser pid fuel k dst src = .ok k') : k'.image = k.image := by
  induction fuel generalizing k dst src with
  | zero => cases h
  | succ fuel ih =>
    obtain ⟨k1, h1, h⟩ := bind_ok.1 h
    have e := storeUser_image h1
    split at h
    · cases h
      exact e
    · exact (ih h).trans e

lemma pushString_image {param uparam i : Nat} {c r : Kernel × Nat}
    (h : pushString pid param uparam c i = .ok r) : r.1.image = c.1.image := by
  obtain ⟨n, -, h⟩ := bind_ok.1 h
  obtain ⟨k1, h1, h⟩ := bind_ok.1 h
  cases h
  have e := strcpyUser_image h1
  exact e

lemma pushWord_image {c r : Kernel × Nat} {w : Nat} (h : pushWord pid c w = .ok r) :
    r.1.image = c.1.image := by
  obtain ⟨k1, h1, h⟩ := bind_ok.1 h
  cases h
  exact imageLoop (g := id) (fun _ _ _ => storeUser_image) h1

lemma pushArgs_image {argc param : Nat} {r : Kernel × Nat} (h : pushArgs pid k argc param = .ok r) :
    r.1.image = k.image := by
  by_cases hne : argc = 0
  · rw [pushArgs, if_pos hne] at h
    cases h
    rfl
  obtain ⟨k1, u, c2, c3, c4, c5, c6, k7, h1, h2, h3, h4, h5, h6, h7, h8⟩ := pushArgs_ok hne h
  have e2 := imageLoop (g := Prod.fst) (fun _ _ _ => pushString_image) h2
  have e3 := pushWord_image h3
  have e4 := imageLoop (g := Prod.fst) (fun _ _ _ => pushWord_image) h4
  calc r.1.image = c6.1.image := ((freeArgs_frame h7).trans (Kernel.kfree_frame h8)).image
    _ = c3.1.image := (pushWord_image h6).trans ((pushWord_image h5).trans e4)
    _ = c2.1.image := e3
    _ = k.image := e2.trans (Kernel.kmalloc_frame h1).image

/-- The heap of a new process begins above its bss. -/
lemma start_eHeap (h : m.start pid previous stackp = .ok m') :
    m'.eHeap = Function.update m.eHeap pid (nextPage (m.kernel.image pid).eBss) := by
  obtain ⟨g, -, h⟩ := bind_ok.1 h
  obtain ⟨q, hq, h⟩ := bind_ok.1 h
  have hi := (Kernel.kmalloc_frame hq).image
  split at h
  · cases h
  · cases h
    dsimp only
    rw [bHeap_eq, hi]

/-- Where `load_task` puts the heap. -/
lemma loadTask_eHeap (h : m.loadTask x = .ok (m', pid)) (hpid : pid ≠ 0) :
    m'.eHeap pid = nextPage (bssEnd (segments x.file) (m.kernel.image pid).eBss) := by
  obtain ⟨rfl, -, l, c, hl, he, hc, hm⟩ := loadTask_ok h hpid
  rw [start_eHeap hm, Function.update_self]
  dsimp only
  rw [pushArgs_image hc, loadImage_eBss hl he]

end Start

/-! ## The end of the heap -/

/-- The addresses of a block `sys_sbrk` grants, in 32 bits. -/
def Granted (m : Machine) (size : Int) (a : Nat) : Prop :=
  ∃ i : Nat, i < size ∧ a = wrap ((m.sysSbrk size).2 + i)

/-- A call of `sys_sbrk` that leaves the end of the heap above `bHeap`, without wrapping around. -/
def KeepsBreak (bHeap : Nat) (m : Machine) (size : Int) : Prop :=
  bHeap ≤ m.eHeap m.current + size ∧ m.eHeap m.current + size < 4294967296

/-- A step while the process `pid` has its slot, in which `pid` keeps the end of its heap above
`bHeap`. -/
inductive BreakStep (pid bHeap : Nat) : Machine → MachineOp → Machine → Prop where
  | step {m op m'} :
    (m.kernel.table.pList pid).state ≠ 0 →
    (∀ size, op = .sbrk size → m.current = pid → KeepsBreak bHeap m size) →
    MachineStep m op m' →
    BreakStep pid bHeap m op m'

/-- No block `sys_sbrk` grants to `pid` has a byte in common with a segment. -/
def BlocksApart (file : Mem) (pid bHeap : Nat) (m : Machine) : Prop :=
  ∀ size, m.current = pid → KeepsBreak bHeap m size →
    ∀ a, Granted m size a → ∀ ph ∈ segments file, ¬ (ph.pVaddr ≤ a ∧ a < ph.vEnd)

section Heap

variable {m m' : Machine} {pid bHeap : Nat} {x : ExecArgs} {op : MachineOp} {file : Mem}

/-- A call of `load_task` leaves the heap of a process that has its slot. -/
lemma loadTask_eHeap_other {new : Nat} (h : m.loadTask x = .ok (m', new))
    (hs : (m.kernel.table.pList pid).state ≠ 0) : m'.eHeap pid = m.eHeap pid := by
  by_cases hnew : new = 0
  · unfold Machine.loadTask at h
    dsimp only at h
    split at h
    · cases h
      rfl
    · obtain ⟨l, -, h⟩ := bind_ok.1 h
      split at h
      · obtain ⟨k, -, h⟩ := bind_ok.1 h
        cases h
        rfl
      · obtain ⟨c, -, h⟩ := bind_ok.1 h
        obtain ⟨m1, -, h⟩ := bind_ok.1 h
        cases h
        exact absurd hnew (Nat.pos_iff_ne_zero.1 (one_le_freeSlot _))
  · obtain ⟨e, hfree, l, c, -, -, -, hm⟩ := loadTask_ok h hnew
    rw [start_eHeap hm, Function.update_of_ne]
    rintro rfl
    exact hs hfree

/-- The end of the heap stays above its beginning. -/
lemma BreakStep.keeps (h : bHeap ≤ m.eHeap pid) (st : BreakStep pid bHeap m op m') :
    bHeap ≤ m'.eHeap pid := by
  obtain ⟨hs, hkeep, st⟩ := st
  cases st with
  | load hl => rwa [loadTask_eHeap_other hl hs]
  | fault _ hf =>
    obtain ⟨r, -, hf⟩ := bind_ok.1 hf
    cases r with
    | none => cases hf
    | some r =>
      cases hf
      exact h
  | store _ hst =>
    unfold Machine.store at hst
    split at hst
    · obtain ⟨x, -, rfl⟩ := Option.map_eq_some_iff.1 hst
      exact h
    · cases hst
  | @sbrk size _ =>
    change bHeap ≤ Function.update m.eHeap m.current _ pid
    by_cases hp : m.current = pid
    · obtain ⟨h1, h2⟩ := hkeep size rfl hp
      rw [hp] at h1 h2 ⊢
      rw [Function.update_self]
      omega
    · rwa [Function.update_of_ne (Ne.symm hp)]
  | exit _ he =>
    obtain ⟨s1, -, he⟩ := bind_ok.1 he
    obtain ⟨s2, -, he⟩ := bind_ok.1 he
    obtain ⟨s3, -, he⟩ := bind_ok.1 he
    split at he
    · cases he
    · obtain ⟨s4, -, he⟩ := bind_ok.1 he
      cases he
      exact h
  | wait => exact h
  | schedule =>
    unfold Machine.schedule
    dsimp only
    split
    · exact h
    · exact h

/-- Blocks granted above the segments have no byte in common with them. -/
lemma HeapAbove.apart (h : HeapAbove file bHeap) (hb : bHeap ≤ m.eHeap pid) :
    BlocksApart file pid bHeap m := by
  rintro size hcur ⟨-, hhi⟩ a ⟨i, hi, rfl⟩ ph hph ⟨-, hlt⟩
  have hend := h.above ph hph
  have hret : (m.sysSbrk size).2 = m.eHeap pid := congrArg m.eHeap hcur
  rw [hcur] at hhi
  rw [hret, wrap_of_lt (by omega)] at hlt
  omega

/-- The heap of a new process begins at a page boundary above all segments of its file exactly when no
segment ends above the page boundary that follows the bss: the last segment with the flags
`PF_W + PF_R`, or where there is none the bss of the process that had the slot before. No block granted
later then overlaps a segment, while the process keeps the end of its heap above the beginning. -/
theorem heap_above_segments (h : m.loadTask x = .ok (m', pid)) (hpid : pid ≠ 0) :
    (HeapAbove x.file (m'.eHeap pid) ↔ BssLast x.file (m.kernel.image pid).eBss) ∧
    (BssLast x.file (m.kernel.image pid).eBss → ∀ ops m1,
      Run (BreakStep pid (m'.eHeap pid)) m' ops m1 → BlocksApart x.file pid (m'.eHeap pid) m1) := by
  have heap : HeapAbove x.file (m'.eHeap pid) ↔ BssLast x.file (m.kernel.image pid).eBss := by
    rw [loadTask_eHeap h hpid]
    exact heapAbove_iff _ _
  refine ⟨heap, fun last ops m1 run => (heap.2 last).apart ?_⟩
  exact run.invariant (I := fun m1 => m'.eHeap pid ≤ m1.eHeap pid) (fun _ _ _ h st => st.keeps h)
    (le_refl _)

end Heap

/-! ## Two files -/

/-- The call of `load_task` on a file of 118 bytes. -/
def smallArgs (f : Mem) : ExecArgs := ⟨[], f, 1024, 118, [], 0⟩

/-- The file `smallElf` with other flags for its second segment. -/
def flaggedElf (flags : UInt8) : Mem := Function.update smallElf 108 flags

/-- The memory with the code of `smallElf`. -/
def smallCode : Mem
  | 0x40000000 => 0xeb
  | 0x40000001 => 0xfe
  | _ => 0

section Flagged

variable {flags : UInt8}

lemma flaggedElf_phdr (hf : flags = 6 ∨ flags = 7) :
    (List.range (ePhnum (flaggedElf flags))).map (phdr (flaggedElf flags)) =
      [⟨1, 116, 0x40000000, 2, 2, 5⟩, ⟨1, 0, 0x40001000, 0, 4, flags.toNat⟩] := by
  rcases hf with rfl | rfl
  · decide
  · decide

lemma flaggedElf_segments (hf : flags = 6 ∨ flags = 7) : segments (flaggedElf flags) =
    [⟨1, 116, 0x40000000, 2, 2, 5⟩, ⟨1, 0, 0x40001000, 0, 4, flags.toNat⟩] := by
  rw [segments, flaggedElf_phdr hf]
  rfl

lemma flaggedElf_small (hf : flags = 6 ∨ flags = 7) : SmallFile (smallArgs (flaggedElf flags)) 118 smallCode where
  argv := rfl
  block := show 1024 < 4092 by decide
  file := show 118 < 4092 by decide
  reads := rfl
  elf := by rcases hf with rfl | rfl <;> decide
  segments := fun ph hph _ => by
    change ph ∈ (List.range (ePhnum (flaggedElf flags))).map (phdr (flaggedElf flags)) at hph
    rw [flaggedElf_phdr hf, List.mem_cons, List.mem_singleton] at hph
    rcases hph with rfl | rfl
    · refine ⟨⟨by decide, by decide, by decide, by decide⟩, fun i hi => ?_⟩
      have hi : i < 2 := hi
      interval_cases i <;> rfl
    · refine ⟨⟨show 0x40000000 ≤ 0x40001000 by decide, show 0x40001000 + 4 ≤ 0xE0000000 by decide,
        show 0 ≤ 4 by decide, show 0 + 0 ≤ 118 by decide⟩, fun i hi => ?_⟩
      have hi : i < 4 := hi
      interval_cases i <;> rfl

/-- The first `load_task` after the boot loads the file. -/
lemma flaggedElf_loads (hf : flags = 6 ∨ flags = 7) : ∃ s0 m', initMm blankMm 16384 = .ok s0 ∧
    (bootMachine s0).loadTask (smallArgs (flaggedElf flags)) = .ok (m', 1) := by
  have hentry : eEntry (flaggedElf flags) ≠ 0 := by
    rcases hf with rfl | rfl <;> decide
  refine boot_loadTask (flaggedElf_small hf) hentry ?_
  change imageSize ((List.range (ePhnum (flaggedElf flags))).map (phdr (flaggedElf flags))) ≤ 200
  rw [flaggedElf_phdr hf]
  exact show 2 + (4 + 0) ≤ 200 by decide

end Flagged

/-- The bss is the last segment. -/
theorem heap_above_segments_bss : ∃ s0 m', initMm blankMm 16384 = .ok s0 ∧
    (bootMachine s0).loadTask (smallArgs (flaggedElf 6)) = .ok (m', 1) ∧
    HeapAbove (flaggedElf 6) (m'.eHeap 1) := by
  obtain ⟨s0, m', init, e⟩ := flaggedElf_loads (.inl rfl)
  refine ⟨s0, m', init, e, (heap_above_segments e (by decide)).1.2 ?_⟩
  change ∀ ph ∈ segments (flaggedElf 6), ph.vEnd ≤ nextPage (bssEnd (segments (flaggedElf 6)) 0)
  have hend : nextPage (wrap 0x40001004) = 0x40002000 := by
    rw [wrap_of_lt (show 0x40001004 < 4294967296 by decide), nextPage, wrap_of_lt (by decide)]
    rfl
  rw [flaggedElf_segments (.inl rfl)]
  intro ph hph
  change ph.vEnd ≤ nextPage (wrap 0x40001004)
  rw [hend]
  revert ph
  decide

/-- The data of the program may also be executed: the heap begins at the first page, below the program. -/
theorem heap_below_segments : ∃ s0 m', initMm blankMm 16384 = .ok s0 ∧
    (bootMachine s0).loadTask (smallArgs (flaggedElf 7)) = .ok (m', 1) ∧ m'.eHeap 1 = 0x1000 ∧
    ¬ HeapAbove (flaggedElf 7) (m'.eHeap 1) := by
  obtain ⟨s0, m', init, e⟩ := flaggedElf_loads (.inr rfl)
  have heap := loadTask_eHeap e one_ne_zero
  change m'.eHeap 1 = nextPage (bssEnd (segments (flaggedElf 7)) 0) at heap
  rw [flaggedElf_segments (.inr rfl)] at heap
  have hfirst : m'.eHeap 1 = 0x1000 := by
    rw [heap]
    change nextPage 0 = 0x1000
    rw [nextPage, wrap_of_lt (by decide)]
    rfl
  refine ⟨s0, m', init, e, hfirst, fun h => ?_⟩
  have hend := h.above ⟨1, 0, 0x40001000, 0, 4, 7⟩ (by
    rw [flaggedElf_segments (.inr rfl)]
    exact List.mem_cons_of_mem _ List.mem_cons_self)
  rw [hfirst] at hend
  exact absurd hend (by decide)

end Creeks
