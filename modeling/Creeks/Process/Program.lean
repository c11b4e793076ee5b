import Creeks.Process.Exec

/-!
# The image of a program

`load_elf` on the memory it works on: the file is in a buffer of the kernel heap, the segments are
copied to user space, and a program header is looked up again at each turn of the loop. `Loadable` are
the files whose segments fit and do not overlap. `Placed` is the invariant of the loop: the segments of
the headers before the current one are in place and nothing else has changed. A later segment is
disjoint from an earlier one, and the file, in kernel memory, from all of them.
-/

namespace Creeks
open Lib

/-! ## `load_elf` -/

/-- The file in the buffer at `file`. -/
def fileAt (mem : Mem) (file : Nat) : Mem := fun a => mem (wrap (file + a))

/-- `memcpy`, both buffers in one memory. -/
def copyIn (dst src n : Nat) (mem : Mem) : Mem :=
  (List.range n).foldl
    (fun mem i => Function.update mem (wrap (dst + i)) (mem (wrap (src + i)))) mem

/-- The loop that clears the bytes `i` to `n` of the segment at `p`. Its `int i` is compared with a `u32`
and counts on from 2^31 to the negative values, which address the same bytes. -/
def clearIn (p i n : Nat) (mem : Mem) : Mem :=
  (List.range' i (n - i)).foldl (fun mem i => Function.update mem (wrap (p + i)) 0) mem

/-- The copy of one segment. -/
def copySegmentIn (file : Nat) (ph : Phdr) (mem : Mem) : Mem :=
  clearIn ph.pVaddr ph.pFilesz ph.pMemsz (copyIn ph.pVaddr (file + ph.pOffset) ph.pFilesz mem)

/-- What `load_elf` changes: the memory, and the description of the segments in the process. -/
structure Load where
  mem : Mem
  image : Image

/-- The loop of `load_elf` from header `pe` on, with `n` headers left. The header of a turn is read
before its segment is copied. -/
def loadFrom (file : Nat) : Nat → Nat → Load → Load × Nat
  | _, 0, s => (s, eEntry (fileAt s.mem file))
  | pe, n + 1, s =>
    let ph := phdr (fileAt s.mem file) pe
    if ph.pType ≠ PT_LOAD then loadFrom file (pe + 1) n s
    else if ph.refused then (s, 0)
    else loadFrom file (pe + 1) n ⟨copySegmentIn file ph s.mem, s.image.describe ph⟩

/-- `load_elf` -/
def loadElfAt (file : Nat) (s : Load) : Load × Nat :=
  if !isElf (fileAt s.mem file) then (s, 0)
  else loadFrom file 0 (ePhnum (fileAt s.mem file)) s

/-! ## The segments of a file -/

/-- An address of the segment. -/
def Phdr.Covers (ph : Phdr) (x : Nat) : Prop := ph.pVaddr ≤ x ∧ x < ph.pVaddr + ph.pMemsz

/-- Byte `i` of the segment: the file's, and 0 after them. -/
def Phdr.byte (f : Mem) (ph : Phdr) (i : Nat) : UInt8 :=
  if i < ph.pFilesz then f (ph.pOffset + i) else 0

/-- A segment that lies in user space and comes from the first `size` bytes of the file. -/
structure Phdr.Fits (ph : Phdr) (size : Nat) : Prop where
  low : USER_OFFSET ≤ ph.pVaddr
  high : ph.pVaddr + ph.pMemsz ≤ USER_STACK
  sizes : ph.pFilesz ≤ ph.pMemsz
  inside : ph.pOffset + ph.pFilesz ≤ size

/-- Header `pe` of the file is that of a segment to load. -/
def IsLoad (f : Mem) (pe : Nat) : Prop := pe < ePhnum f ∧ (phdr f pe).pType = PT_LOAD

/-- An ELF file of `size` bytes whose segments fit and are pairwise disjoint. -/
structure Loadable (f : Mem) (size : Nat) : Prop where
  elf : isElf f = true
  header : 52 ≤ size
  table : ∀ pe < ePhnum f, ePhoff f + 32 * pe + 32 ≤ size
  fits : ∀ pe, IsLoad f pe → (phdr f pe).Fits size
  disjoint : ∀ i j x, IsLoad f i → IsLoad f j → (phdr f i).Covers x → (phdr f j).Covers x → i = j

section Congr

variable {f f' : Mem} {size pe : Nat}

/-- The headers depend on the bytes of the file. -/
lemma phdr_congr (h : ∀ x < size, f' x = f x) (hhdr : 52 ≤ size)
    (htable : ePhoff f + 32 * pe + 32 ≤ size) : phdr f' pe = phdr f pe := by
  have hword : ∀ a, a + 4 ≤ size → load32 f' a = load32 f a := fun a ha =>
    load32_congr fun x _ hx => h x (by omega)
  have hoff : ePhoff f' = ePhoff f := hword 28 (by omega)
  unfold phdr
  rw [hoff, hword _ (by omega), hword _ (by omega), hword _ (by omega), hword _ (by omega),
    hword _ (by omega), hword _ (by omega)]

lemma ePhnum_congr (h : ∀ x < size, f' x = f x) (hhdr : 52 ≤ size) : ePhnum f' = ePhnum f := by
  unfold ePhnum load16
  rw [h 44 (by omega), h 45 (by omega)]

lemma eEntry_congr (h : ∀ x < size, f' x = f x) (hhdr : 52 ≤ size) : eEntry f' = eEntry f :=
  load32_congr fun x _ hx => h x (by omega)

lemma isElf_congr (h : ∀ x < size, f' x = f x) (hhdr : 52 ≤ size) : isElf f' = isElf f := by
  unfold isElf
  rw [h 0 (by omega), h 1 (by omega), h 2 (by omega), h 3 (by omega)]

end Congr

/-! ## One segment -/

section Copy

variable {dst src n p i x : Nat} {mem : Mem}

lemma copyIn_eq (hdst : dst + n ≤ 4294967296) (hsrc : src + n ≤ dst) :
    copyIn dst src n mem x = if dst ≤ x ∧ x < dst + n then mem (src + (x - dst)) else mem x := by
  induction n generalizing x with
  | zero => rw [if_neg (by omega)]; rfl
  | succ n ih =>
    have ih : ∀ y, copyIn dst src n mem y =
        if dst ≤ y ∧ y < dst + n then mem (src + (y - dst)) else mem y :=
      fun y => ih (by omega) (by omega)
    have hstep : copyIn dst src (n + 1) mem = Function.update (copyIn dst src n mem)
        (wrap (dst + n)) (copyIn dst src n mem (wrap (src + n))) := by
      rw [copyIn, List.range_succ, List.foldl_concat]
      rfl
    -- the source is below the destination, and still what it was
    rw [hstep, wrap_of_lt (by omega), wrap_of_lt (by omega), ih (src + n), if_neg (by omega)]
    by_cases hx : x = dst + n
    · rw [hx, Function.update_self, if_pos (by omega), Nat.add_sub_cancel_left]
    · rw [Function.update_of_ne hx, ih]
      exact if_congr (by omega) rfl rfl

lemma clearIn_eq (hp : p + n ≤ 4294967296) :
    clearIn p i n mem x = if p + i ≤ x ∧ x < p + n then 0 else mem x := by
  have run : ∀ c y, i + c ≤ n →
      (List.range' i c).foldl (fun mem i => Function.update mem (wrap (p + i)) 0) mem y =
        if p + i ≤ y ∧ y < p + (i + c) then 0 else mem y := by
    intro c
    induction c with
    | zero =>
      intro y _
      rw [if_neg (by omega)]
      rfl
    | succ c ih =>
      intro y hc
      rw [List.range'_1_concat, List.foldl_concat, wrap_of_lt (by omega)]
      by_cases hy : y = p + (i + c)
      · rw [hy, Function.update_self, if_pos (by omega)]
      · rw [Function.update_of_ne hy, ih y (by omega)]
        exact if_congr (by omega) rfl rfl
  by_cases hi : i ≤ n
  · rw [clearIn, run _ x (by omega)]
    exact if_congr (by omega) rfl rfl
  · rw [clearIn, Nat.sub_eq_zero_of_le (by omega), if_neg (by omega)]
    rfl

section Segment

variable {file size : Nat} {ph : Phdr}

lemma copySegmentIn_covered (hfile : file + size ≤ USER_OFFSET) (h : ph.Fits size)
    (hi : i < ph.pMemsz) :
    copySegmentIn file ph mem (ph.pVaddr + i) = ph.byte (fun a => mem (file + a)) i := by
  obtain ⟨low, high, sizes, inside⟩ := h
  simp only [USER_OFFSET, USER_STACK] at hfile low high
  rw [copySegmentIn, clearIn_eq (by omega), copyIn_eq (by omega) (by omega), Phdr.byte]
  by_cases hcopy : i < ph.pFilesz
  · rw [if_neg (by omega), if_pos (by omega), if_pos hcopy, Nat.add_sub_cancel_left, Nat.add_assoc]
  · rw [if_pos (by omega), if_neg hcopy]

lemma copySegmentIn_other (hfile : file + size ≤ USER_OFFSET) (h : ph.Fits size)
    (hx : ¬ ph.Covers x) : copySegmentIn file ph mem x = mem x := by
  obtain ⟨low, high, sizes, inside⟩ := h
  simp only [USER_OFFSET, USER_STACK] at hfile low high
  unfold Phdr.Covers at hx
  rw [copySegmentIn, clearIn_eq (by omega), copyIn_eq (by omega) (by omega), if_neg (by omega),
    if_neg (by omega)]

end Segment

end Copy

/-! ## The loop -/

section Loop

variable {mem m : Mem} {file size pe n x : Nat}

/-- The bytes below user space lie in no segment. -/
lemma Loadable.outside {f : Mem} (h : Loadable f size) (hx : x < USER_OFFSET) (j : Nat)
    (hj : IsLoad f j) : ¬ (phdr f j).Covers x :=
  fun hc => absurd ((h.fits j hj).low.trans hc.1) (not_le.2 hx)

/-- The memory after the headers before `pe`, `mem` being the one before `load_elf`. -/
structure Placed (mem : Mem) (file pe : Nat) (m : Mem) : Prop where
  segments : ∀ j < pe, IsLoad (fileAt mem file) j → ∀ i < (phdr (fileAt mem file) j).pMemsz,
    m ((phdr (fileAt mem file) j).pVaddr + i) =
      (phdr (fileAt mem file) j).byte (fun a => mem (file + a)) i
  others : ∀ x, (∀ j < pe, IsLoad (fileAt mem file) j → ¬ (phdr (fileAt mem file) j).Covers x) →
    m x = mem x

namespace Placed

lemma start : Placed mem file 0 mem where
  segments := nofun
  others := fun _ _ => rfl

/-- The file is as it was. -/
lemma file_eq (h : Placed mem file pe m) (hf : Loadable (fileAt mem file) size)
    (hfile : file + size ≤ USER_OFFSET) : ∀ a < size, m (file + a) = mem (file + a) :=
  fun a ha => h.others _ fun j _ hj => hf.outside (by omega) j hj

lemma fileAt_eq (h : Placed mem file pe m) (hf : Loadable (fileAt mem file) size)
    (hfile : file + size ≤ USER_OFFSET) : ∀ a < size, fileAt m file a = fileAt mem file a := by
  intro a ha
  simp only [USER_OFFSET] at hfile
  rw [fileAt, fileAt, wrap_of_lt (by omega)]
  exact h.file_eq hf hfile a ha

/-- A header that is not loaded. -/
lemma skip (h : Placed mem file pe m) (hpe : ¬ IsLoad (fileAt mem file) pe) :
    Placed mem file (pe + 1) m where
  segments := fun j hj hl => h.segments j ((Nat.lt_succ_iff_lt_or_eq.1 hj).resolve_right
    fun e => hpe (e ▸ hl)) hl
  others := fun x hx => h.others x fun j hj => hx j (Nat.lt_succ_of_lt hj)

/-- A segment is copied: it covers no byte of those before it. -/
lemma copy (h : Placed mem file pe m) (hf : Loadable (fileAt mem file) size)
    (hfile : file + size ≤ USER_OFFSET) (hpe : IsLoad (fileAt mem file) pe) :
    Placed mem file (pe + 1) (copySegmentIn file (phdr (fileAt mem file) pe) m) where
  segments := fun j hj hl i hi => by
    rcases Nat.lt_succ_iff_lt_or_eq.1 hj with hj | rfl
    · rw [copySegmentIn_other hfile (hf.fits pe hpe), h.segments j hj hl i hi]
      intro hc
      have hself : (phdr (fileAt mem file) j).Covers ((phdr (fileAt mem file) j).pVaddr + i) :=
        ⟨Nat.le_add_right _ _, Nat.add_lt_add_left hi _⟩
      exact hj.ne (hf.disjoint j pe _ hl hpe hself hc)
    · rw [copySegmentIn_covered hfile (hf.fits j hl) hi, Phdr.byte, Phdr.byte]
      have inside := (hf.fits j hl).inside
      by_cases hcopy : i < (phdr (fileAt mem file) j).pFilesz
      · rw [if_pos hcopy, if_pos hcopy]
        exact h.file_eq hf hfile _ (by omega)
      · rw [if_neg hcopy, if_neg hcopy]
  others := fun x hx => by
    rw [copySegmentIn_other hfile (hf.fits pe hpe) (hx pe (Nat.lt_succ_self pe) hpe)]
    exact h.others x fun j hj => hx j (Nat.lt_succ_of_lt hj)

end Placed

/-- A segment in user space is not refused. -/
lemma Phdr.Fits.not_refused {ph : Phdr} (h : ph.Fits size) : ¬ ph.refused = true := by
  obtain ⟨low, high, -, -⟩ := h
  simp only [USER_OFFSET, USER_STACK] at low high
  unfold Phdr.refused
  rw [wrap_of_lt (by omega)]
  simp only [Bool.and_eq_true, beq_iff_eq, Bool.or_eq_true, decide_eq_true_eq, USER_OFFSET, USER_STACK]
  omega

/-- The bytes of a segment lie in the buffer of the file. -/
lemma Phdr.Fits.byte_fileAt {ph : Phdr} {i : Nat} (h : ph.Fits size) (hfile : file + size ≤ USER_OFFSET) :
    ph.byte (fileAt mem file) i = ph.byte (fun a => mem (file + a)) i := by
  have inside := h.inside
  simp only [USER_OFFSET] at hfile
  unfold Phdr.byte fileAt
  by_cases hi : i < ph.pFilesz
  · rw [if_pos hi, if_pos hi, wrap_of_lt (by omega)]
  · rw [if_neg hi, if_neg hi]

lemma loadFrom_placed {image : Image} (hf : Loadable (fileAt mem file) size)
    (hfile : file + size ≤ USER_OFFSET) (h : Placed mem file pe m)
    (hn : pe + n = ePhnum (fileAt mem file)) :
    (loadFrom file pe n ⟨m, image⟩).2 = eEntry (fileAt mem file) ∧
      Placed mem file (pe + n) (loadFrom file pe n ⟨m, image⟩).1.mem := by
  have hsame := h.fileAt_eq hf hfile
  induction n generalizing pe m image with
  | zero => exact ⟨eEntry_congr hsame hf.header, h⟩
  | succ n ih =>
    have hlt : pe < ePhnum (fileAt mem file) := by omega
    have hph : phdr (fileAt m file) pe = phdr (fileAt mem file) pe :=
      phdr_congr hsame hf.header (hf.table pe hlt)
    have hn' : pe + 1 + n = ePhnum (fileAt mem file) := by omega
    rw [loadFrom, hph, show pe + (n + 1) = pe + 1 + n by omega]
    dsimp only
    by_cases ht : (phdr (fileAt mem file) pe).pType = PT_LOAD
    · have hload : IsLoad (fileAt mem file) pe := ⟨hlt, ht⟩
      have hnext := h.copy hf hfile hload
      rw [if_neg (not_not.2 ht), if_neg (hf.fits pe hload).not_refused]
      exact ih hnext hn' (hnext.fileAt_eq hf hfile)
    · have hnext := h.skip (fun hl => ht hl.2)
      rw [if_pos ht]
      exact ih hnext hn' hsame

/-- The run of `load_elf` on a file it accepts. -/
lemma loadElfAt_placed {image : Image} (hfile : file + size ≤ USER_OFFSET)
    (hf : Loadable (fileAt mem file) size) :
    (loadElfAt file ⟨mem, image⟩).2 = eEntry (fileAt mem file) ∧
      Placed mem file (ePhnum (fileAt mem file)) (loadElfAt file ⟨mem, image⟩).1.mem := by
  have helf : ¬ (!isElf (fileAt mem file)) = true := by
    rw [hf.elf]
    exact Bool.false_ne_true
  have hrun : loadElfAt file ⟨mem, image⟩ =
      loadFrom file 0 (ePhnum (fileAt mem file)) ⟨mem, image⟩ := if_neg helf
  obtain ⟨hret, hend⟩ := @loadFrom_placed _ _ _ _ _ _ image hf hfile .start (Nat.zero_add _)
  rw [Nat.zero_add] at hend
  rw [hrun]
  exact ⟨hret, hend⟩

/-- `load_elf` realises the image of the file: it returns the entry point, each segment holds the bytes of
the file and zeros after them, and every other byte of memory is what it was. -/
theorem program_image (image : Image) (hfile : file + size ≤ USER_OFFSET)
    (hf : Loadable (fileAt mem file) size) :
    (loadElfAt file ⟨mem, image⟩).2 = eEntry (fileAt mem file) ∧
      (∀ pe, IsLoad (fileAt mem file) pe → ∀ i < (phdr (fileAt mem file) pe).pMemsz,
        (loadElfAt file ⟨mem, image⟩).1.mem ((phdr (fileAt mem file) pe).pVaddr + i) =
          if i < (phdr (fileAt mem file) pe).pFilesz
          then mem (file + ((phdr (fileAt mem file) pe).pOffset + i)) else 0) ∧
      ∀ x, (∀ pe, IsLoad (fileAt mem file) pe → ¬ (phdr (fileAt mem file) pe).Covers x) →
        (loadElfAt file ⟨mem, image⟩).1.mem x = mem x := by
  obtain ⟨hret, hend⟩ := @loadElfAt_placed _ _ _ image hfile hf
  exact ⟨hret, fun pe hl => hend.segments pe hl.1 hl, fun x hx => hend.others x fun j _ => hx j⟩

end Loop

/-- A file with two segments, two bytes of code and four bytes of bss. -/
def smallElf : Mem
  | 0 => 0x7f
  | 1 => 0x45
  | 2 => 0x4c
  | 3 => 0x46
  | 27 => 0x40
  | 28 => 52
  | 44 => 2
  -- the code: two bytes at 116 of the file
  | 52 => 1
  | 56 => 116
  | 63 => 0x40
  | 68 => 2
  | 72 => 2
  | 76 => 5
  -- the bss, on the next page
  | 84 => 1
  | 93 => 0x10
  | 95 => 0x40
  | 104 => 4
  | 108 => 6
  | 116 => 0xeb
  | 117 => 0xfe
  | _ => 0

/-- The memory with a file at `KERN_HEAP`. -/
def fileInHeap (f : Mem) : Mem := fun x => f (x - KERN_HEAP)

lemma fileAt_fileInHeap {f : Mem} {x : Nat} (hx : x < 118) :
    fileAt (fileInHeap f) KERN_HEAP x = f x := by
  unfold fileAt fileInHeap
  rw [wrap_of_lt (by simp only [KERN_HEAP]; omega), Nat.add_sub_cancel_left]

lemma smallElf_phdr {pe : Nat} (h : pe < 2) : phdr (fileAt (fileInHeap smallElf) KERN_HEAP) pe =
    if pe = 0 then ⟨1, 116, 0x40000000, 2, 2, 5⟩ else ⟨1, 0, 0x40001000, 0, 4, 6⟩ := by
  rw [phdr_congr (fun _ => fileAt_fileInHeap) (by decide)]
  · interval_cases pe <;> decide
  · interval_cases pe <;> decide

lemma smallElf_phnum : ePhnum (fileAt (fileInHeap smallElf) KERN_HEAP) = 2 := by
  rw [ePhnum_congr (fun _ => fileAt_fileInHeap) (by decide)]
  decide

lemma smallElf_loadable : Loadable (fileAt (fileInHeap smallElf) KERN_HEAP) 118 where
  elf := by
    rw [isElf_congr (fun _ => fileAt_fileInHeap) (by decide)]
    decide
  header := by decide
  table := fun pe h => by
    rw [smallElf_phnum] at h
    have hoff : ePhoff (fileAt (fileInHeap smallElf) KERN_HEAP) = 52 :=
      load32_congr (m := smallElf) (fun x _ hx => fileAt_fileInHeap (by omega))
    rw [hoff]
    omega
  fits := fun pe h => by
    have hpe := smallElf_phnum ▸ h.1
    rw [smallElf_phdr hpe]
    interval_cases pe
    · exact ⟨by decide, by decide, by decide, by decide⟩
    · exact ⟨by decide, by decide, by decide, by decide⟩
  disjoint := fun i j x hi hj hx hy => by
    have hi := smallElf_phnum ▸ hi.1
    have hj := smallElf_phnum ▸ hj.1
    rw [smallElf_phdr hi] at hx
    rw [smallElf_phdr hj] at hy
    unfold Phdr.Covers at hx hy
    interval_cases i <;> interval_cases j <;> simp at hx hy ⊢ <;> omega

theorem program_image_small :
    KERN_HEAP + 118 ≤ USER_OFFSET ∧
      (loadElfAt KERN_HEAP ⟨fileInHeap smallElf, ⟨0, 0, 0, 0⟩⟩).1.mem (0x40000000 + 1) = 0xfe := by
  refine ⟨by decide, ?_⟩
  have hload : IsLoad (fileAt (fileInHeap smallElf) KERN_HEAP) 0 :=
    ⟨by rw [smallElf_phnum]; decide, by rw [smallElf_phdr (by decide)]; rfl⟩
  have h := (program_image ⟨0, 0, 0, 0⟩ (by decide) smallElf_loadable).2.1 0 hload 1
  rw [smallElf_phdr (by decide), if_pos rfl] at h
  rw [h (by decide), if_pos (by decide), fileInHeap, Nat.add_sub_cancel_left]
  decide

end Creeks
