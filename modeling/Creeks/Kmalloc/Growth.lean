import Creeks.Mm.Exhaustion

/-!
# Growing the kernel heap

`kmalloc` asks `ksbrk` for `realsize / PAGESIZE + 1` pages, a number that depends on the whole 32-bit
size. `ksbrk` compares `kern_heap + n * PAGESIZE` with the limit after the addition has wrapped around,
its failure value is a pointer, and `kmalloc` tests that pointer with `< 0`. `heap_growth` says which
requests are answered in spite of that: those the heap has room and frames for, and those `ksbrk` would
refuse but a free chunk can take.
-/

namespace Creeks
open Lib

/-- `ksbrk(n)` has made a chunk of exactly the `n` pages behind the old end of the heap, each mapped to a
frame that was free and is reserved for this page alone. -/
structure NewChunk (s s' : Mm) (n : Nat) : Prop where
  size : hdrSize s'.mem s.kernHeap = n * PAGESIZE
  free : hdrUsed s'.mem s.kernHeap = 0
  heap : s'.kernHeap = s.kernHeap + n * PAGESIZE
  limit : s'.kernHeap ≤ KERN_HEAP_LIM
  mapped : ∃ frame : Nat → Nat, Set.InjOn frame (Set.Iio n) ∧ ∀ i < n,
    frame i < RAM_MAXPAGE ∧ frameUsed s.memBitmap (frame i) = false ∧
      frameUsed s'.memBitmap (frame i) = true ∧
      kernPte s'.ram (s.kernHeap + i * PAGESIZE) =
        frame i * PAGESIZE ||| (PG_PRESENT ||| PG_WRITE)

/-- `ksbrk`, asked for the pages of a request, makes a chunk of them or fails without having done
anything, and `kmalloc` does not go on behind a failure. -/
structure GrowthSafe (s : Mm) (size : Nat) : Prop where
  grows : (∃ s', ksbrk s (growPages size) = .ok (s', s.kernHeap) ∧
      NewChunk s s' (growPages size)) ∨
    ∃ s', ksbrk s (growPages size) = .ok (s', MINUS_ONE) ∧ s'.kernHeap = s.kernHeap ∧
      s'.ram = s.ram ∧ s'.memBitmap = s.memBitmap
  failure : ∀ s', ksbrk s (growPages size) = .ok (s', MINUS_ONE) →
    (∃ r, kmalloc s size = .ok r) ∨ kmalloc s size = .error .noMemory

/-- A free chunk of the heap is large enough for a request. -/
def HasRoom (s : Mm) (size : Nat) : Prop :=
  ∃ chunks, Tiling KMALLOC_MINSIZE (hdrSize s.mem) KERN_HEAP chunks s.kernHeap ∧
    ∃ c ∈ chunks, hdrUsed s.mem c = 0 ∧ realSize size ≤ hdrSize s.mem c

/-- The pages of a request fit below the limit and there are frames for them, or the limit test refuses
them and `kmalloc` does not need them. -/
def GrowthServed (s : Mm) (size : Nat) : Prop :=
  (s.kernHeap + growPages size * PAGESIZE ≤ KERN_HEAP_LIM ∧
    growPages size ≤ (freeFrames s).card) ∨
  (KERN_HEAP_LIM < s.kernHeap + growPages size * PAGESIZE ∧
    s.kernHeap + growPages size * PAGESIZE < 4294967296 ∧ HasRoom s size)

/-- What happens to the heap. -/
inductive GrowthOp where
  | kmalloc (size : Nat)
  | kfree (vAddr : Nat)
  | write (addr : Nat) (b : UInt8)
  | other

/-- One step: a request of any size that returns and whose growth does not wrap around, a free, a write
to what was allocated, or anything the rest of the system does that leaves the heap and the kernel half
of the loaded directory in place. A request owns the record behind its header. -/
inductive GrowthStep : Client → GrowthOp → Client → Prop where
  | kmalloc {s live size s' p} :
    s.kernHeap + growPages size * PAGESIZE < 4294967296 →
    kmalloc s size = .ok (s', p) →
    GrowthStep ⟨s, live⟩ (.kmalloc size) ⟨s', (p, realSize size - 4) :: live⟩
  | kfree {s live p n s'} :
    (p, n) ∈ live →
    kfree s p = .ok s' →
    GrowthStep ⟨s, live⟩ (.kfree p) ⟨s', live.erase (p, n)⟩
  | write {s live p n i b} :
    (p, n) ∈ live →
    i < n →
    GrowthStep ⟨s, live⟩ (.write (p + i) b)
      ⟨s.withHeap (Function.update s.mem (p + i) b) s.kmallocUsed, live⟩
  | other {s s' live} :
    s'.mem = s.mem →
    s'.kernHeap = s.kernHeap →
    KernelMap s'.ram s'.dir →
    GrowthStep ⟨s, live⟩ .other ⟨s', live⟩

section Growth

variable {s s' : Mm} {chunks : List Nat} {live : List (Nat × Nat)} {n size : Nat}

/-- The test for a failure in the loop of `ksbrk` never holds. -/
lemma growHeap_true {r : Mm × Bool} (h : growHeap n s = .ok r) : r.2 = true := by
  induction n generalizing s with
  | zero =>
    cases h
    rfl
  | succ n ih =>
    rw [growHeap, if_neg (Nat.not_lt_zero _)] at h
    obtain ⟨t, -, h⟩ := bind_ok.1 h
    exact ih h

/-- `ksbrk` only fails at its limit test. -/
lemma ksbrk_fails (hk : s.kernHeap ≠ MINUS_ONE) (h : ksbrk s n = .ok (s', MINUS_ONE)) :
    KERN_HEAP_LIM < wrap (s.kernHeap + n * PAGESIZE) := by
  unfold ksbrk at h
  split at h
  · assumption
  · obtain ⟨r, hr, h⟩ := bind_ok.1 h
    rw [if_pos (growHeap_true hr)] at h
    exact absurd (Prod.mk.inj (Except.ok.inj h)).2 hk

lemma growPages_le (size : Nat) : growPages size * PAGESIZE ≤ 4294967296 := by
  have h : realSize size < 4294967296 := by
    unfold realSize
    simp only [wrap_eq, KMALLOC_MINSIZE]
    split <;> omega
  unfold growPages
  simp only [PAGESIZE]
  omega

/-- As many frames as a growth has mapped were free. -/
lemma NewChunk.frames (new : NewChunk s s' n) : n ≤ (freeFrames s).card := by
  obtain ⟨frame, hinj, hframe⟩ := new.mapped
  rw [← Finset.card_range n]
  refine Finset.card_le_card_of_injOn frame (fun i hi => ?_) fun i hi j hj => hinj ?_ ?_
  · obtain ⟨h1, h2, -⟩ := hframe i (Finset.mem_range.1 hi)
    exact mem_freeFrames.2 ⟨h1, h2⟩
  · exact Finset.mem_range.1 hi
  · exact Finset.mem_range.1 hj

/-- With the frames for it a growth below the limit makes the chunk it should. -/
lemma HeapRep.newChunk (rep : HeapRep s chunks live) (hn : 0 < n)
    (hhi : s.kernHeap + n * PAGESIZE ≤ KERN_HEAP_LIM) (hf : n ≤ (freeFrames s).card) :
    NewChunk s (grown s n) n := by
  obtain ⟨-, hfree, hsize⟩ := HeapRep.grow rep hn hhi
  refine ⟨hsize, hfree, grown_kernHeap s n, by rwa [grown_kernHeap], growFrame s, ?_, fun i hi => ?_⟩
  · intro i hi j hj e
    have hi' : i < (freeFrames s).card := lt_of_lt_of_le hi hf
    have hj' : j < (freeFrames s).card := lt_of_lt_of_le hj hf
    rcases lt_trichotomy i j with h | h | h
    · exact absurd e (growFrame_ne hj' h)
    · exact h
    · exact absurd e.symm (growFrame_ne hi' h)
  · have hi' : i < (freeFrames s).card := lt_of_lt_of_le hi hf
    obtain ⟨h1, h2, -, h4⟩ := growFrame_spec hi'
    refine ⟨h1, growFrame_free hi', ?_, ?_⟩
    · rw [grown, withHeap_memBitmap]
      exact growStep_iterate_le hi h4
    · rw [grown, withHeap_ram, ← h2]
      exact growStep_iterate_pte rep.le_kernHeap hhi hi

/-- In a well-formed heap the growth for a request is safe exactly when it is served. -/
lemma HeapRep.growth_iff (rep : HeapRep s chunks live) (km : KernelMap s.ram s.dir) (size : Nat) :
    GrowthSafe s size ↔ GrowthServed s size := by
  have hlo := rep.le_kernHeap
  have hlim := rep.limit
  have hpages := growPages_le size
  have hk : s.kernHeap ≠ MINUS_ONE := by
    simp only [KERN_HEAP_LIM, MINUS_ONE] at hlim ⊢
    omega
  constructor
  · rintro ⟨grows, failure⟩
    rcases grows with ⟨s', e, new⟩ | ⟨s', e, -⟩
    · exact .inl ⟨new.heap ▸ new.limit, new.frames⟩
    · have hfull := ksbrk_fails hk e
      have hwrap : s.kernHeap + growPages size * PAGESIZE < 4294967296 := by
        by_contra h
        rw [wrap_eq] at hfull
        simp only [KERN_HEAP_LIM] at hlim hfull
        omega
      rw [wrap_of_lt hwrap] at hfull
      refine .inr ⟨hfull, hwrap, ?_⟩
      rcases kmalloc_outcomes rep km hwrap with ⟨l, c, r, hc, hfree, hfit, -⟩ | ⟨-, ⟨h, -⟩ | ⟨-, h⟩⟩
      · exact ⟨chunks, rep.tiles, c, by rw [hc]; simp, hfree, hfit⟩
      · omega
      · rcases failure s' e with ⟨r, h'⟩ | h'
        · rw [h] at h'
          cases h'
        · rw [h] at h'
          cases h'
  · rintro (⟨hhi, hf⟩ | ⟨hfull, hwrap, chunks', tiles, c, hc, hfree, hfit⟩)
    · have e := ksbrk_eq (n := growPages size) km hlo hhi
      refine ⟨.inl ⟨_, e, rep.newChunk (Nat.succ_pos _) hhi hf⟩, fun s' h => ?_⟩
      rw [e] at h
      exact absurd (Prod.mk.inj (Except.ok.inj h)).2 hk
    · refine ⟨.inr ⟨s, ksbrk_full hwrap hfull, rfl, rfl, rfl⟩, fun _ _ => .inl ?_⟩
      rw [tiles.unique (by decide) rep.tiles] at hc
      rcases kmalloc_outcomes rep km hwrap with ⟨_, _, _, -, -, -, h⟩ | ⟨hnone, -⟩
      · exact ⟨_, h⟩
      · have := hnone c hc hfree
        omega

/-- Every step keeps a well-formed heap under a kernel half in place. -/
lemma GrowthStep.inv {c c' : Client} {op : GrowthOp} (st : GrowthStep c op c')
    (inv : ClientInv c) : ClientInv c' := by
  obtain ⟨⟨chunks, rep⟩, map⟩ := inv
  cases st with
  | kmalloc hwrap h =>
    rename_i s live size s' p
    obtain ⟨h16, -⟩ := realSize_le_growPages size
    obtain ⟨hrep, hmap, -⟩ :=
      kmalloc_record (k := realSize size - 4) rep map hwrap (by omega) h
    exact ⟨hrep, hmap⟩
  | kfree hp h => exact ClientInv.step ⟨⟨chunks, rep⟩, map⟩ (.kfree hp h)
  | write hp hi => exact ClientInv.step ⟨⟨chunks, rep⟩, map⟩ (.write hp hi)
  | other hm hk hmap => exact ⟨⟨chunks, rep.congr hm hk⟩, hmap⟩

end Growth

/-- In every heap the system reaches, a request of any size has its growth done, or refused where it is
not needed, exactly when it is served. -/
theorem heap_growth {boot : Mm} {highMem : Nat} {ls : List GrowthOp} {c : Client}
    (run : Run GrowthStep ⟨grown (initPaging boot highMem) 1, []⟩ ls c) (size : Nat) :
    GrowthSafe c.mm size ↔ GrowthServed c.mm size := by
  obtain ⟨⟨chunks, rep⟩, map⟩ := run.invariant (I := ClientInv) (fun _ _ _ inv st => st.inv inv)
    (ClientInv.init boot highMem)
  exact rep.growth_iff map size

/-- The kernel heap after `init_mm` on a machine with 16 MB. -/
def bootHeap : Mm := grown (initPaging blankMm 16384) 1

theorem heap_growth_boot : GrowthSafe bootHeap 100 ↔ GrowthServed bootHeap 100 :=
  heap_growth (c := ⟨bootHeap, []⟩) .nil 100

lemma bootHeap_kernHeap : bootHeap.kernHeap = 0x10001000 := by
  rw [bootHeap, grown_kernHeap, initPaging_kernHeap]
  rfl

lemma growPages_of_lt {size : Nat} (h : 12 ≤ size) (hlt : size < 4294967292) :
    growPages size = (4 + size) / 4096 + 1 := by
  have h16 : ¬ 4 + size < KMALLOC_MINSIZE := by
    simp only [KMALLOC_MINSIZE]
    omega
  rw [growPages, realSize, wrap_of_lt (by omega), if_neg h16]

/-- A request for 3.5 GB on the first heap: `ksbrk` refuses it, and `kmalloc` reads the header at
`kern_heap`. With 3.75 GB the sum in the limit test wraps around and the test lets the growth pass. -/
theorem refused_growth :
    ksbrk bootHeap (growPages 0xE0000000) = .ok (bootHeap, MINUS_ONE) ∧
      kmalloc bootHeap 0xE0000000 = .error (.fault bootHeap.kernHeap) ∧
      ¬ GrowthSafe bootHeap 0xE0000000 ∧
      wrap (bootHeap.kernHeap + growPages 0xF0000000 * PAGESIZE) ≤ KERN_HEAP_LIM ∧
      ¬ GrowthSafe bootHeap 0xF0000000 := by
  have inv : ClientInv ⟨bootHeap, []⟩ := ClientInv.init blankMm 16384
  have hk := bootHeap_kernHeap
  generalize bootHeap = s at inv hk ⊢
  obtain ⟨⟨chunks, rep⟩, map⟩ := inv
  replace rep : HeapRep s chunks [] := rep
  replace map : KernelMap s.ram s.dir := map
  have h1 : growPages 0xE0000000 = 0xE0001 := growPages_of_lt (by decide) (by decide)
  have h2 : growPages 0xF0000000 = 0xF0001 := growPages_of_lt (by decide) (by decide)
  have hwrap : s.kernHeap + growPages 0xE0000000 * PAGESIZE < 4294967296 := by
    rw [hk, h1]
    decide
  have hfull : KERN_HEAP_LIM < s.kernHeap + growPages 0xE0000000 * PAGESIZE := by
    rw [hk, h1]
    decide
  have e := ksbrk_full hwrap hfull
  have hreal : realSize 0xE0000000 = 0xE0000004 := by
    rw [realSize, wrap_of_lt (by decide), if_neg (by decide)]
  have hfault : kmalloc s 0xE0000000 = .error (.fault s.kernHeap) := by
    rcases kmalloc_outcomes rep map hwrap with ⟨l, c, r, -, -, hfit, -⟩ | ⟨-, ⟨h, -⟩ | ⟨-, h⟩⟩
    · have := hdrSize_lt s.mem c
      rw [hreal] at hfit
      omega
    · exact absurd hfull (not_lt.2 h)
    · exact h
  refine ⟨e, hfault, fun safe => ?_, ?_, fun safe => ?_⟩
  · rcases safe.failure _ e with ⟨r, h⟩ | h
    · rw [hfault] at h
      cases h
    · rw [hfault] at h
      cases h
  · rw [hk, h2, wrap_eq]
    decide
  · rcases (rep.growth_iff map _).1 safe with ⟨h, -⟩ | ⟨-, h, -⟩
    · rw [hk, h2] at h
      exact absurd h (by decide)
    · rw [hk, h2] at h
      exact absurd h (by decide)

end Creeks
