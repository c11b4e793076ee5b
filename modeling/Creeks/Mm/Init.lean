import Creeks.Kmalloc.Spec

/-!
# Initialisation of the memory manager

`init_mm` in the three parts its later users need: the bitmap and the kernel page directory
(`initPaging`), the first page of the kernel heap (`ksbrk(1)`), and the list of free pages of the
kernel page heap. The boot state is arbitrary: nothing is known of the contents of memory.
-/

namespace Creeks
open Lib

abbrev PG1 : Nat := 0x400000
abbrev PG1_END : Nat := 0x800000

/-- The number of the last page frame. -/
def pgLimit (highMem : Nat) : Nat := wrap (highMem * 1024) / PAGESIZE

/-- The loop that reserves the first `n` frames. -/
@[irreducible] def reserveFrames (n : Nat) (bitmap : Nat → BitVec 8) : Nat → BitVec 8 :=
  (List.range n).foldl setPageFrameUsed bitmap

/-- The bitmap: whole bytes below the limit are free, the frames below `pg1_end` are the kernel's. -/
def initBitmap (highMem : Nat) : Nat → BitVec 8 :=
  reserveFrames (PG1_END / PAGESIZE) fun byte => if byte < pgLimit highMem / 8 then 0#8 else 0xFF#8

/-- The loop that enters the tables of `pg1` in the directory in frame `d`, from entry `i` on. -/
@[irreducible] def enterTables (d i n : Nat) (ram : Nat → Nat → Nat) : Nat → Nat → Nat :=
  (List.range' i n).foldl
    (fun ram i => setWord ram d i ((PG1 + PAGESIZE * i) ||| (PG_PRESENT ||| PG_WRITE))) ram

/-- The kernel page directory: two 4 MB pages, the tables of `pg1` and the recursive entry. -/
def initPd0 (ram : Nat → Nat → Nat) : Nat → Nat → Nat :=
  let d := KERN_PDIR / PAGESIZE
  let ram := setWord ram d 0 (PG_PRESENT ||| PG_WRITE ||| PG_4MB)
  let ram := setWord ram d 1 (PG1 ||| (PG_PRESENT ||| PG_WRITE ||| PG_4MB))
  let ram := enterTables d 2 1021 ram
  setWord ram d 1023 (KERN_PDIR ||| (PG_PRESENT ||| PG_WRITE))

/-- `init_mm()` up to the kernel heap. -/
def initPaging (boot : Mm) (highMem : Nat) : Mm :=
  { boot with
    memBitmap := initBitmap highMem
    ram := initPd0 boot.ram
    cr3 := KERN_PDIR
    kernHeap := KERN_HEAP
    oom := false
    stale := false }

/-- `init_mm()`. -/
def initMm (boot : Mm) (highMem : Nat) : Except Stop Mm := do
  let r ← ksbrk (initPaging boot highMem) 1
  let r ← kmalloc r.1 16
  return r.1.withVm [⟨r.2, KERN_PG_HEAP, KERN_PG_HEAP_LIM⟩] r.1.headWords

/-- Marking the frames of a list used. -/
lemma frameUsed_foldl (l : List Nat) (bitmap : Nat → BitVec 8) (q : Nat) :
    frameUsed (l.foldl setPageFrameUsed bitmap) q = true ↔ q ∈ l ∨ frameUsed bitmap q = true := by
  induction l generalizing bitmap with
  | nil => simp
  | cons a l ih =>
    rw [List.foldl_cons, ih, frameUsed_set]
    by_cases h : q = a <;> simp [h]

lemma frameUsed_reserve (n : Nat) (bitmap : Nat → BitVec 8) (q : Nat) :
    frameUsed (reserveFrames n bitmap) q = true ↔ q < n ∨ frameUsed bitmap q = true := by
  rw [reserveFrames, frameUsed_foldl, List.mem_range]

/-- The frames `init_mm` leaves free are those above `pg1` in the whole bytes below the limit. -/
lemma frameUsed_init (highMem q : Nat) :
    frameUsed (initBitmap highMem) q = false ↔ 2048 ≤ q ∧ q / 8 < pgLimit highMem / 8 := by
  have hpg : PG1_END / PAGESIZE = 2048 := by decide
  have h8 : q % 8 < 8 := Nat.mod_lt q (by decide)
  have hbyte : frameUsed (fun byte => if byte < pgLimit highMem / 8 then 0#8 else 0xFF#8) q = true ↔
      ¬ q / 8 < pgLimit highMem / 8 := by
    rw [frameUsed]
    split
    case isTrue h => simp [h]
    case isFalse h =>
      refine iff_of_true ?_ h
      interval_cases q % 8 <;> rfl
  rw [← Bool.not_eq_true, initBitmap, frameUsed_reserve, hbyte, hpg]
  omega

/-- The frames `init_mm` leaves free lie above `pg1` and below `high_mem`. -/
lemma initBitmap_free {highMem q : Nat} (h : frameUsed (initBitmap highMem) q = false) :
    2048 ≤ q ∧ q < pgLimit highMem := by
  obtain ⟨h1, h2⟩ := (frameUsed_init highMem q).1 h
  exact ⟨h1, by omega⟩

/-- A loop that fills entries of one directory, seen from one of its entries. -/
lemma setWord_foldl (g : Nat → Nat) (d : Nat) (l : List Nat) (ram : Nat → Nat → Nat) (f i : Nat) :
    l.foldl (fun ram i => setWord ram d i (g i)) ram f i =
      if f = d ∧ i ∈ l then g i else ram f i := by
  induction l generalizing ram with
  | nil => simp
  | cons a l ih =>
    rw [List.foldl_cons, ih]
    by_cases hd : f = d ∧ i ∈ l
    · rw [if_pos hd, if_pos ⟨hd.1, List.mem_cons_of_mem _ hd.2⟩]
    · rw [if_neg hd]
      by_cases ha : f = d ∧ i = a
      · rw [if_pos ⟨ha.1, ha.2 ▸ List.mem_cons_self⟩, ha.1, ha.2, setWord_same]
      · rw [if_neg, setWord_other (by tauto)]
        rintro ⟨h1, h2⟩
        rcases List.mem_cons.1 h2 with h | h
        · exact ha ⟨h1, h⟩
        · exact hd ⟨h1, h⟩

/-- The entries of the kernel page directory after `init_mm`. -/
lemma initPd0_eq (ram : Nat → Nat → Nat) (i : Nat) :
    initPd0 ram 1 i =
      if i = 1023 then 0x1003
      else if 2 ≤ i ∧ i < 1023 then (PG1 + PAGESIZE * i) ||| 3
      else if i = 1 then 0x400083
      else if i = 0 then 0x83
      else ram 1 i := by
  unfold initPd0
  by_cases h1 : i = 1023
  · rw [if_pos h1, h1]
    exact setWord_same _ _ _ _
  · rw [if_neg h1, setWord_other (.inr h1), enterTables, setWord_foldl]
    by_cases h2 : 2 ≤ i ∧ i < 1023
    · rw [if_pos h2, if_pos ⟨rfl, List.mem_range'_1.2 ⟨h2.1, by omega⟩⟩]
      rfl
    · have hnot : ¬ i ∈ List.range' 2 1021 := by
        rw [List.mem_range'_1]
        omega
      rw [if_neg h2, if_neg fun h => hnot h.2]
      by_cases h3 : i = 1
      · rw [if_pos h3, h3]
        exact setWord_same _ _ _ _
      · rw [if_neg h3, setWord_other (.inr h3)]
        by_cases h4 : i = 0
        · rw [if_pos h4, h4]
          exact setWord_same _ _ _ _
        · rw [if_neg h4, setWord_other (.inr h4)]

/-- The kernel page directory maps the kernel. -/
lemma initPd0_map (ram : Nat → Nat → Nat) : KernelMap (initPd0 ram) 1 := by
  have hself : initPd0 ram 1 1023 = 0x1003 := by rw [initPd0_eq, if_pos rfl]
  refine ⟨⟨?_, ?_, ?_⟩, ?_, ?_, ?_, .inl (by decide)⟩
  · rw [hself]; decide
  · rw [hself]; decide
  · rw [hself]; decide
  · rw [initPd0_eq, if_neg (by decide), if_neg (by decide), if_neg (by decide), if_pos rfl]
  · rw [initPd0_eq, if_neg (by decide), if_neg (by decide), if_pos rfl]
  · intro i h1 h2
    rw [initPd0_eq, if_neg (by omega), if_pos ⟨h1, by omega⟩]
    unfold kernTable
    rw [lor_low (n := 12) (by simp only [PG1, PAGESIZE]; omega) (by decide)]
    simp only [PG1, PAGESIZE]
    omega

@[simp] lemma initPaging_memBitmap (boot : Mm) (highMem : Nat) :
    (initPaging boot highMem).memBitmap = initBitmap highMem := by
  rw [initPaging]

@[simp] lemma initPaging_kernHeap (boot : Mm) (highMem : Nat) :
    (initPaging boot highMem).kernHeap = KERN_HEAP := by
  rw [initPaging]

@[simp] lemma initPaging_headWords (boot : Mm) (highMem : Nat) :
    (initPaging boot highMem).headWords = boot.headWords := by
  rw [initPaging]

@[simp] lemma initPaging_cr3 (boot : Mm) (highMem : Nat) :
    (initPaging boot highMem).cr3 = KERN_PDIR := by
  rw [initPaging]

@[simp] lemma initPaging_oom (boot : Mm) (highMem : Nat) :
    (initPaging boot highMem).oom = false := by
  rw [initPaging]

/-- The loaded directory is the kernel's, in frame 1. -/
lemma initPaging_dir (boot : Mm) (highMem : Nat) : (initPaging boot highMem).dir = 1 := by
  rw [Mm.dir, initPaging_cr3]
  decide

/-- The loaded directory maps the kernel when `init_mm` has set up paging. -/
lemma initPaging_map (boot : Mm) (highMem : Nat) :
    KernelMap (initPaging boot highMem).ram (initPaging boot highMem).dir := by
  rw [initPaging_dir, initPaging]
  exact initPd0_map boot.ram

/-- One page fits the kernel heap. -/
lemma initPaging_room (boot : Mm) (highMem : Nat) :
    (initPaging boot highMem).kernHeap + 1 * PAGESIZE ≤ KERN_HEAP_LIM := by
  rw [initPaging_kernHeap]
  decide

/-- The header of the first page of the heap: a free chunk of a page. -/
lemma grown_header {s : Mm} (hk : s.kernHeap = KERN_HEAP) :
    hdrSize (grown s 1).mem KERN_HEAP = 4096 ∧ hdrUsed (grown s 1).mem KERN_HEAP = 0 := by
  rw [grown, withHeap_mem, hk, hdrSize_setUsed]
  exact ⟨hdrSize_setSize (by decide), hdrUsed_setUsed (by decide)⟩

/-- The kernel heap after the first `ksbrk(1)`: one free chunk of a page. -/
lemma heapRep_init {s : Mm} (hk : s.kernHeap = KERN_HEAP) :
    HeapRep (grown s 1) [KERN_HEAP] [] := by
  obtain ⟨hsize, hused⟩ := grown_header hk
  have hkern : (grown s 1).kernHeap = KERN_HEAP + 4096 := by
    rw [grown_kernHeap, hk, Nat.one_mul]
  refine ⟨?_, ?_, by simp, by simp, ?_, by simp⟩
  · rw [hkern]
    have hnil : Tiling KMALLOC_MINSIZE (hdrSize (grown s 1).mem)
        (KERN_HEAP + hdrSize (grown s 1).mem KERN_HEAP) [] (KERN_HEAP + 4096) := by
      rw [hsize]
      exact .nil
    exact .cons (by rw [hsize]; decide) hnil
  · rw [hkern]
    decide
  · intro c hc
    cases List.mem_singleton.1 hc
    simp [hused]

/-- The first `ksbrk` of `init_mm`. -/
lemma initPaging_ksbrk (boot : Mm) (highMem : Nat) :
    ksbrk (initPaging boot highMem) 1 =
      .ok (grown (initPaging boot highMem) 1, KERN_HEAP) := by
  rw [ksbrk_eq (initPaging_map boot highMem) (initPaging_kernHeap boot highMem).ge
    (initPaging_room boot highMem), initPaging_kernHeap]

/-- The kernel half of the loaded directory survives the first `ksbrk` of `init_mm`. -/
lemma initPaging_grown_map (boot : Mm) (highMem : Nat) :
    KernelMap (grown (initPaging boot highMem) 1).ram (grown (initPaging boot highMem) 1).dir := by
  have hmap := growStep_iterate_map (n := 1) (initPaging_map boot highMem)
    (initPaging_kernHeap boot highMem).ge (initPaging_room boot highMem)
  obtain ⟨_, _, _, e, -⟩ := growStep_iterate (initPaging boot highMem) 1
  have hdir : (growStep^[1] (initPaging boot highMem)).dir = (initPaging boot highMem).dir := by
    rw [e, Mm.dir, Mm.dir]
  simpa only [grown, withHeap_ram, withHeap_dir, hdir] using hmap

end Creeks
