import Creeks.Mm.Directory

/-!
# Running out of page frames

`get_page_frame` reports failure as `(char *) -1`. `get_page_from_heap` and `ksbrk` test its result
with `p_addr < 0`, which is never true of a pointer, and `isr_PF_exc` does not test it. For each of
the three, `memory_exhaustion` says that it is safe exactly while the frames it asks for are there.
-/

namespace Creeks
open Lib

/-- The part of `isr_PF_exc` that fills the `struct page` of the faulting page. -/
def faultPage (s : Mm) (faultingAddr : Nat) : Except Stop (Mm × Page) := do
  let q ← kmalloc s 16
  let r := getPageFrame q.1
  return (r.1, ⟨q.2, faultingAddr &&& 0xFFFFF000, r.2⟩)

/-- `isr_PF_exc` of a process with the pages `pglist` and the directory `pd`. Without a result the
address lies outside user space, and the process is ended by `sys_exit(1)`. -/
def isrPfExc (s : Mm) (pglist : List Page) (pd : Option PageDirectory) (faultingAddr : Nat) :
    Except Stop (Option (Mm × List Page × Option PageDirectory)) :=
  if USER_OFFSET ≤ faultingAddr ∧ faultingAddr < USER_STACK then do
    let r ← faultPage s faultingAddr
    let t ← pdAddPage r.1 r.2.vAddr r.2.pAddr PG_USER pd
    return some (t.1, r.2 :: pglist, t.2)
  else return none

/-- Some page frame is free. -/
def FrameFree (s : Mm) : Prop := ∃ page, page < RAM_MAXPAGE ∧ frameUsed s.memBitmap page = false

/-- The free page frames. -/
@[irreducible] def freeFrames (s : Mm) : Finset Nat :=
  (Finset.range RAM_MAXPAGE).filter fun page => frameUsed s.memBitmap page = false

/-- `a` is the address of a frame that was free in `s` and is reserved in `s'`. -/
def Reserves (s s' : Mm) (a : Nat) : Prop :=
  ∃ page, page < RAM_MAXPAGE ∧ a = page * PAGESIZE ∧
    frameUsed s.memBitmap page = false ∧ frameUsed s'.memBitmap page = true

section Reserve

variable {s s' t : Mm} {a q : Nat}

/-- While a frame is free `get_page_frame` reserves one. -/
lemma getPageFrame_reserves (h : FrameFree s) :
    Reserves s (getPageFrame s).1 (getPageFrame s).2 := by
  obtain ⟨free, hlt, hfree⟩ := h
  rcases getPageFrame_cases s with ⟨page, hp, hpf, e⟩ | e
  · rw [e]
    exact ⟨page, hp, rfl, hpf, by simp [frameUsed_set]⟩
  · unfold getPageFrame at e
    cases hs : scanBitmap s.memBitmap (RAM_MAXPAGE / 8) 0 with
    | none =>
      have hused : frameUsed s.memBitmap free = true :=
        scanBitmap_none hs (Nat.zero_le _) (by simpa [RAM_MAXPAGE] using hlt)
      rw [hfree] at hused
      cases hused
    | some page =>
      rw [hs] at e
      have h2 := (Prod.mk.inj e).2
      simp only [MINUS_ONE, PAGESIZE] at h2
      omega

/-- Without a free frame `get_page_frame` fails. -/
lemma getPageFrame_full (h : ¬ FrameFree s) :
    getPageFrame s = ({ s with oom := true }, MINUS_ONE) := by
  rcases getPageFrame_cases s with ⟨page, hp, hpf, -⟩ | e
  · exact absurd ⟨page, hp, hpf⟩ h
  · exact e

lemma Reserves.ne (h : Reserves s s' a) : a ≠ MINUS_ONE := by
  obtain ⟨page, -, rfl, -⟩ := h
  simp only [MINUS_ONE, PAGESIZE]
  omega

lemma Reserves.mono (h : Reserves s s' a)
    (ht : ∀ q, frameUsed s'.memBitmap q = true → frameUsed t.memBitmap q = true) :
    Reserves s t a := by
  obtain ⟨page, h1, h2, h3, h4⟩ := h
  exact ⟨page, h1, h2, h3, ht page h4⟩

lemma mem_freeFrames : q ∈ freeFrames s ↔ q < RAM_MAXPAGE ∧ frameUsed s.memBitmap q = false := by
  unfold freeFrames
  rw [Finset.mem_filter, Finset.mem_range]

lemma frameFree_iff : FrameFree s ↔ 0 < (freeFrames s).card := by
  rw [Finset.card_pos]
  constructor
  · rintro ⟨page, h⟩
    exact ⟨page, mem_freeFrames.2 h⟩
  · rintro ⟨page, h⟩
    exact ⟨page, mem_freeFrames.1 h⟩

end Reserve

section Grow

variable {s : Mm} {n i : Nat}

lemma growStep_ram (s : Mm) : (growStep s).ram = setKernPte s.ram s.kernHeap
    ((getPageFrame s).2 ||| (PG_PRESENT ||| PG_WRITE ||| 0)) := rfl

lemma growStep_used {q : Nat} (h : frameUsed s.memBitmap q = true) :
    frameUsed (growStep s).memBitmap q = true := getPageFrame_used h

lemma growStep_iterate_used {q : Nat} (h : frameUsed s.memBitmap q = true) :
    frameUsed (growStep^[n] s).memBitmap q = true := by
  induction n with
  | zero => exact h
  | succ n ih =>
    rw [Function.iterate_succ_apply']
    exact growStep_used ih

lemma growStep_iterate_kernHeap (s : Mm) (n : Nat) :
    (growStep^[n] s).kernHeap = s.kernHeap + n * PAGESIZE := by
  obtain ⟨_, _, _, e, -⟩ := growStep_iterate s n
  rw [e]

/-- One more page takes one free frame, if there is one. -/
lemma card_freeFrames_growStep (s : Mm) :
    (freeFrames (growStep s)).card = (freeFrames s).card - 1 := by
  by_cases h : FrameFree s
  · rcases getPageFrame_cases s with ⟨page, hlt, hfree, e⟩ | e
    · have hm : page ∈ freeFrames s := mem_freeFrames.2 ⟨hlt, hfree⟩
      rw [← Finset.card_erase_of_mem hm]
      congr 1
      ext q
      rw [Finset.mem_erase, mem_freeFrames, mem_freeFrames, growStep_memBitmap, e, frameUsed_set,
        Bool.or_eq_false_iff, decide_eq_false_iff_not]
      exact and_left_comm
    · exact absurd (by rw [e]) (getPageFrame_reserves h).ne
  · have hz : (freeFrames s).card = 0 := by
      rw [frameFree_iff] at h
      omega
    have e : freeFrames (growStep s) = freeFrames s := by
      ext q
      rw [mem_freeFrames, mem_freeFrames, growStep_memBitmap, getPageFrame_full h]
    rw [e, hz]

lemma card_freeFrames_iterate (s : Mm) (n : Nat) :
    (freeFrames (growStep^[n] s)).card = (freeFrames s).card - n := by
  induction n with
  | zero => rw [Function.iterate_zero_apply, Nat.sub_zero]
  | succ n ih => rw [Function.iterate_succ_apply', card_freeFrames_growStep, ih, Nat.sub_sub]

lemma growStep_iterate_le (h : i ≤ n) {q : Nat}
    (hq : frameUsed (growStep^[i] s).memBitmap q = true) :
    frameUsed (growStep^[n] s).memBitmap q = true := by
  obtain ⟨k, rfl⟩ := Nat.exists_eq_add_of_le h
  rw [Nat.add_comm, Function.iterate_add_apply]
  exact growStep_iterate_used hq

/-- The frame the growth takes for its page `i`. -/
def growFrame (s : Mm) (i : Nat) : Nat := (getPageFrame (growStep^[i] s)).2 / PAGESIZE

/-- With enough frames a growth takes a free one for each page. -/
lemma growFrame_spec (hi : i < (freeFrames s).card) :
    growFrame s i < RAM_MAXPAGE ∧
      (getPageFrame (growStep^[i] s)).2 = growFrame s i * PAGESIZE ∧
      frameUsed (growStep^[i] s).memBitmap (growFrame s i) = false ∧
      frameUsed (growStep^[i + 1] s).memBitmap (growFrame s i) = true := by
  have hfree : FrameFree (growStep^[i] s) := by
    rw [frameFree_iff, card_freeFrames_iterate]
    omega
  obtain ⟨page, h1, h2, h3, h4⟩ := getPageFrame_reserves hfree
  have e : growFrame s i = page := by
    rw [growFrame, h2, Nat.mul_div_cancel _ (by decide)]
  rw [e, Function.iterate_succ_apply']
  exact ⟨h1, h2, h3, h4⟩

/-- The frames of a growth were free, and they are pairwise different. -/
lemma growFrame_free (hi : i < (freeFrames s).card) :
    frameUsed s.memBitmap (growFrame s i) = false := by
  by_contra h
  rw [Bool.not_eq_false] at h
  have h3 := (growFrame_spec hi).2.2.1
  rw [growStep_iterate_used h] at h3
  cases h3

lemma growFrame_ne {j : Nat} (hj : j < (freeFrames s).card) (hij : i < j) :
    growFrame s i ≠ growFrame s j := by
  intro e
  have h3 := (growFrame_spec hj).2.2.1
  rw [← e, growStep_iterate_le hij (growFrame_spec (hij.trans hj)).2.2.2] at h3
  cases h3

/-- Every page of a growth is mapped to the frame taken for it. -/
lemma growStep_iterate_pte (hlo : KERN_HEAP ≤ s.kernHeap)
    (hhi : s.kernHeap + n * PAGESIZE ≤ KERN_HEAP_LIM) (hi : i < n) :
    kernPte (growStep^[n] s).ram (s.kernHeap + i * PAGESIZE) =
      (getPageFrame (growStep^[i] s)).2 ||| (PG_PRESENT ||| PG_WRITE) := by
  induction n with
  | zero => omega
  | succ n ih =>
    have hhi' : s.kernHeap + n * PAGESIZE ≤ KERN_HEAP_LIM :=
      le_trans (Nat.add_le_add_left (Nat.mul_le_mul_right _ n.le_succ) _) hhi
    simp only [KERN_HEAP, KERN_HEAP_LIM, PAGESIZE] at hlo hhi
    rw [Function.iterate_succ_apply', growStep_ram, growStep_iterate_kernHeap s n]
    by_cases e : i = n
    · rw [e, kernPte_setKernPte, Nat.or_zero]
    · rw [← ih hhi' (by omega)]
      have hi' : InTables (s.kernHeap + i * PAGESIZE) :=
        ⟨by omega, by simp only [PAGESIZE]; omega⟩
      have hn' : InTables (s.kernHeap + n * PAGESIZE) :=
        ⟨by omega, by simp only [PAGESIZE]; omega⟩
      exact kernPte_setKernPte_other hi' hn' (by simp only [PAGESIZE]; omega) _

end Grow

section Callers

variable {s : Mm} {others : List (Nat × Nat)}

lemma faultPage_eq {q : Mm × Nat} {faultingAddr : Nat} (h : kmalloc s 16 = .ok q) :
    faultPage s faultingAddr =
      .ok ((getPageFrame q.1).1, ⟨q.2, faultingAddr &&& 0xFFFFF000, (getPageFrame q.1).2⟩) := by
  rw [faultPage, h]
  rfl

end Callers

/-- The page heap does not depend on the bitmap. -/
lemma PageHeap.bitmap {s : Mm} {others : List (Nat × Nat)} (ph : PageHeap s others)
    (bitmap : Nat → BitVec 8) : PageHeap { s with memBitmap := bitmap } others :=
  ⟨ph.map, ph.owned.congr rfl rfl, ph.areas⟩

end Creeks
