import Creeks.Kmalloc.Invariant

/-!
# What `kmalloc` and `kfree` do

`kmalloc_cases` lists the three outcomes of `kmalloc` in a well-formed heap: a free chunk is taken, the
heap is grown and the new chunk is taken, or the kernel has no address space left for the growth and
the search reads a header above the end of the heap. `kmalloc_ok` and `kfree_ok` are the
preservation of the invariant.
-/

namespace Creeks
open Lib

/-- The number of pages `kmalloc` asks `ksbrk` for. -/
def growPages (size : Nat) : Nat := realSize size / PAGESIZE + 1

/-- The state `kmalloc` leaves after taking `chunk`. -/
def taken (s : Mm) (chunk size : Nat) : Mm :=
  s.withHeap (takeChunk s.mem chunk (realSize size)) (wrap (s.kmallocUsed + realSize size))

/-- The record of a request that fits the kernel heap. -/
lemma realSize_spec {size : Nat} (h : size + 4 < KERN_HEAP_LIM - KERN_HEAP) :
    16 ≤ realSize size ∧ size + 4 ≤ realSize size ∧ realSize size < 0x30000000 := by
  simp only [KERN_HEAP_LIM, KERN_HEAP] at h
  have hwrap : wrap (4 + size) = 4 + size := wrap_of_lt (by omega)
  unfold realSize
  rw [hwrap]
  simp only [KMALLOC_MINSIZE]
  split <;> omega

/-- `kmalloc` asks for one page when the record fits in one. -/
lemma growPages_small {size : Nat} (h : size < 4092) : growPages size = 1 := by
  have hwrap : wrap (4 + size) = 4 + size := wrap_of_lt (by omega)
  rw [growPages, realSize, hwrap]
  simp only [KMALLOC_MINSIZE, PAGESIZE]
  split <;> omega

/-- A heap that is tiled from `KERN_HEAP` starts with the chunk at `KERN_HEAP`. -/
lemma HeapRep.first {s : Mm} {chunks : List Nat} {live : List (Nat × Nat)}
    (rep : HeapRep s chunks live) : ∃ r, chunks = KERN_HEAP :: r := by
  have h := rep.tiles
  have hne := rep.nonempty
  generalize s.kernHeap = b at h
  cases h with
  | nil => exact absurd rfl hne
  | cons _ _ => exact ⟨_, rfl⟩

/-- A record has room for a header and 12 bytes, and the pages asked for have room for the record. -/
lemma realSize_le_growPages (size : Nat) :
    16 ≤ realSize size ∧ realSize size ≤ growPages size * PAGESIZE := by
  unfold growPages
  simp only [PAGESIZE]
  refine ⟨?_, by omega⟩
  unfold realSize
  simp only [KMALLOC_MINSIZE]
  split <;> omega

/-- The iterations the search of `kmalloc` needs in a well-formed heap. -/
lemma HeapRep.length_lt {s : Mm} {chunks : List Nat} {live : List (Nat × Nat)}
    (rep : HeapRep s chunks live) : chunks.length < LOOP_MAX := by
  have hlim := rep.limit
  have hlen := rep.tiles.length_le
  simp only [KERN_HEAP, KERN_HEAP_LIM, KMALLOC_MINSIZE] at hlim hlen
  rw [loopMax_eq]
  omega

/-- The three outcomes of `kmalloc` in a well-formed heap, for a growth that does not wrap around the
address space. -/
lemma kmalloc_outcomes {s : Mm} {chunks : List Nat} {live : List (Nat × Nat)} {size : Nat}
    (rep : HeapRep s chunks live) (km : KernelMap s.ram s.dir)
    (hwrap : s.kernHeap + growPages size * PAGESIZE < 4294967296) :
    (∃ l c r, chunks = l ++ c :: r ∧ hdrUsed s.mem c = 0 ∧ realSize size ≤ hdrSize s.mem c ∧
      kmalloc s size = .ok (taken s c size, c + 4)) ∨
    (∀ c ∈ chunks, hdrUsed s.mem c = 0 → hdrSize s.mem c < realSize size) ∧
      ((s.kernHeap + growPages size * PAGESIZE ≤ KERN_HEAP_LIM ∧
        kmalloc s size =
          .ok (taken (grown s (growPages size)) s.kernHeap size, s.kernHeap + 4)) ∨
      (KERN_HEAP_LIM < s.kernHeap + growPages size * PAGESIZE ∧
        kmalloc s size = .error (.fault s.kernHeap))) := by
  obtain ⟨-, hreal⟩ := realSize_le_growPages size
  obtain ⟨r, rfl⟩ := rep.first
  have hlim := rep.limit
  simp only [KERN_HEAP_LIM] at hlim
  rcases HeapRep.search (l := []) rep rep.length_lt with ⟨l', c, r', e, hfree, hfit, -, hs⟩ | ⟨hnone, k, hs⟩
  · left
    have hc : c ∈ KERN_HEAP :: r := by
      have : c ∈ l' ++ c :: r' := by simp
      rwa [← e] at this
    obtain ⟨-, h16, hle, -⟩ := rep.bounds hc
    refine ⟨l', c, r', e, hfree, hfit, ?_⟩
    have hwrap : wrap (c + 4) = c + 4 := wrap_of_lt (by omega)
    rw [kmalloc, hs, ok_bind]
    simp only [hwrap, pure_eq_ok, taken]
  · right
    refine ⟨hnone, ?_⟩
    rw [← growPages] at hs
    by_cases hfit : s.kernHeap + growPages size * PAGESIZE ≤ KERN_HEAP_LIM
    · left
      refine ⟨hfit, ?_⟩
      obtain ⟨hrep, hfree, hsz⟩ := HeapRep.grow (n := growPages size) rep (Nat.succ_pos _) hfit
      obtain ⟨-, hc16, hle, hend⟩ := hrep.bounds (c := s.kernHeap) (by simp)
      have hbig : realSize size ≤ hdrSize (grown s (growPages size)).mem s.kernHeap := by
        rw [hsz]
        exact hreal
      have hsearch : kmallocSearch (realSize size) (k + 1) (grown s (growPages size)) s.kernHeap =
          .ok (grown s (growPages size), s.kernHeap) := by
        rw [kmallocSearch, if_neg (by omega), if_neg]
        rw [not_or, not_not, not_lt]
        exact ⟨hfree, hbig⟩
      have hwrap : wrap (s.kernHeap + 4) = s.kernHeap + 4 := wrap_of_lt (by omega)
      rw [ksbrk_eq km rep.le_kernHeap hfit, ok_bind, if_neg (Nat.not_lt_zero _), hsearch] at hs
      rw [kmalloc, hs, ok_bind]
      simp only [hwrap, pure_eq_ok, taken]
    · right
      have hfull : KERN_HEAP_LIM < s.kernHeap + growPages size * PAGESIZE := not_le.1 hfit
      refine ⟨hfull, ?_⟩
      have hsearch : kmallocSearch (realSize size) (k + 1) s s.kernHeap =
          .error (.fault s.kernHeap) := by
        rw [kmallocSearch, if_pos (le_refl _)]
      rw [ksbrk_full hwrap hfull, ok_bind, if_neg (Nat.not_lt_zero _), hsearch] at hs
      rw [kmalloc, hs, error_bind]

/-- The growth for a request that fits the kernel heap does not wrap around. -/
lemma HeapRep.growth_lt {s : Mm} {chunks : List Nat} {live : List (Nat × Nat)} {size : Nat}
    (rep : HeapRep s chunks live) (hsize : size + 4 < KERN_HEAP_LIM - KERN_HEAP) :
    s.kernHeap + growPages size * PAGESIZE < 4294967296 := by
  obtain ⟨-, -, hreal⟩ := realSize_spec hsize
  have hlim := rep.limit
  unfold growPages
  simp only [KERN_HEAP_LIM, PAGESIZE] at hlim ⊢
  omega

/-- The three outcomes of `kmalloc` for a request that fits the kernel heap. -/
lemma kmalloc_cases {s : Mm} {chunks : List Nat} {live : List (Nat × Nat)} {size : Nat}
    (rep : HeapRep s chunks live) (km : KernelMap s.ram s.dir)
    (hsize : size + 4 < KERN_HEAP_LIM - KERN_HEAP) :
    (∃ l c r, chunks = l ++ c :: r ∧ hdrUsed s.mem c = 0 ∧ realSize size ≤ hdrSize s.mem c ∧
      kmalloc s size = .ok (taken s c size, c + 4)) ∨
    (s.kernHeap + growPages size * PAGESIZE ≤ KERN_HEAP_LIM ∧
      kmalloc s size =
        .ok (taken (grown s (growPages size)) s.kernHeap size, s.kernHeap + 4)) ∨
    (KERN_HEAP_LIM < s.kernHeap + growPages size * PAGESIZE ∧
      kmalloc s size = .error (.fault s.kernHeap)) := by
  rcases kmalloc_outcomes rep km (rep.growth_lt hsize) with h | ⟨-, h⟩
  · exact .inl h
  · exact .inr h

/-- A `kmalloc` that returns leaves a heap in which the payload of the record it took is allocated, and
writes no byte of an allocation, whatever the page tables contain. -/
lemma HeapRep.kmalloc {s s' : Mm} {chunks : List Nat} {live : List (Nat × Nat)} {size k p : Nat}
    (rep : HeapRep s chunks live) (hwrap : s.kernHeap + growPages size * PAGESIZE < 4294967296)
    (hk : k + 4 ≤ realSize size) (h : Creeks.kmalloc s size = .ok (s', p)) :
    (∃ chunks', HeapRep s' chunks' ((p, k) :: live)) ∧ s'.kernFreeVm = s.kernFreeVm ∧
      ∀ q k i, (q, k) ∈ live → i < k → s'.mem (q + i) = s.mem (q + i) := by
  obtain ⟨h16, hreal⟩ := realSize_le_growPages size
  -- the chunk the search has found is taken
  have finish : ∀ {t l c r}, HeapRep t (l ++ c :: r) live → hdrUsed t.mem c = 0 →
      realSize size ≤ hdrSize t.mem c →
      (∃ chunks', HeapRep (taken t c size) chunks' ((wrap (c + 4), k) :: live)) ∧
        (taken t c size).kernFreeVm = t.kernFreeVm ∧
        ∀ q k i, (q, k) ∈ live → i < k → (taken t c size).mem (q + i) = t.mem (q + i) := by
    intro t l c r hrep hfree hfit
    obtain ⟨-, -, hle, -⟩ := hrep.bounds (c := c) (by simp)
    have hlim := hrep.limit
    have hc : wrap (c + 4) = c + 4 := wrap_of_lt (by simp only [KERN_HEAP_LIM] at hlim; omega)
    obtain ⟨hrep', hframe⟩ := hrep.take (t := taken t c size) hfree hfit h16 hk
      (withHeap_mem _ _ _) (withHeap_kernHeap _ _ _)
    rw [hc]
    exact ⟨hrep', withHeap_kernFreeVm _ _ _,
      fun q k i hq hi => hrep.blocks.payload hfree hframe hq hi⟩
  obtain ⟨r, rfl⟩ := rep.first
  rw [Creeks.kmalloc] at h
  obtain ⟨⟨t, c⟩, hs, h⟩ := bind_ok.1 h
  cases h
  rcases HeapRep.search (l := []) rep rep.length_lt with ⟨l', c', r', e, hfree, hfit, -, e'⟩ | ⟨-, j, e'⟩
  · rw [e'] at hs
    cases hs
    have hrep : HeapRep s (l' ++ c :: r') live := by rwa [← e]
    exact finish hrep hfree hfit
  · rw [e', ← growPages] at hs
    obtain ⟨⟨u, c'⟩, hb, hs⟩ := bind_ok.1 hs
    rw [if_neg (Nat.not_lt_zero _)] at hs
    by_cases hgrow : s.kernHeap + growPages size * PAGESIZE ≤ KERN_HEAP_LIM
    · obtain ⟨rfl, hmem, hkern, hvm⟩ := ksbrk_frame hgrow hb
      obtain ⟨hrep, hfree, hsz⟩ := HeapRep.grow (n := growPages size) rep (Nat.succ_pos _) hgrow
      rw [← hmem] at hfree hsz
      have hbig : realSize size ≤ hdrSize u.mem s.kernHeap := by
        rw [hsz]
        exact hreal
      have hrep' := hrep.congr hmem hkern
      obtain ⟨-, hc16, hle, -⟩ := hrep'.bounds (c := s.kernHeap) (by simp)
      have hfit : ¬ (hdrUsed u.mem s.kernHeap ≠ 0 ∨ hdrSize u.mem s.kernHeap < realSize size) := by
        rw [not_or, not_not, not_lt]
        exact ⟨hfree, hbig⟩
      dsimp only at hs
      rw [kmallocSearch, if_neg (by omega), if_neg hfit] at hs
      cases hs
      obtain ⟨h1, h2, h3⟩ := finish hrep' hfree hbig
      refine ⟨h1, h2.trans hvm, fun q k i hq hi => (h3 q k i hq hi).trans ?_⟩
      obtain ⟨d, hd, rfl, hroom⟩ := rep.room q k hq
      obtain ⟨-, -, hle', -⟩ := rep.bounds hd
      rw [hmem, grown, withHeap_mem, setUsed_other (by omega), setSize_other (by omega)]
    · rw [ksbrk_full hwrap (not_le.1 hgrow)] at hb
      cases hb
      rw [kmallocSearch, if_pos (le_refl _)] at hs
      cases hs

/-- A `kmalloc` that returns leaves a heap in which the payload of the record it took is allocated, and
writes no byte of an allocation. -/
lemma kmalloc_record {s s' : Mm} {chunks : List Nat} {live : List (Nat × Nat)} {size k p : Nat}
    (rep : HeapRep s chunks live) (km : KernelMap s.ram s.dir)
    (hwrap : s.kernHeap + growPages size * PAGESIZE < 4294967296) (hk : k + 4 ≤ realSize size)
    (h : kmalloc s size = .ok (s', p)) :
    (∃ chunks', HeapRep s' chunks' ((p, k) :: live)) ∧ KernelMap s'.ram s'.dir ∧
      ∀ q k i, (q, k) ∈ live → i < k → s'.mem (q + i) = s.mem (q + i) := by
  obtain ⟨hrep, -, hpay⟩ := rep.kmalloc hwrap hk h
  refine ⟨hrep, ?_, hpay⟩
  rcases kmalloc_outcomes rep km hwrap with ⟨l, c, r, -, -, -, e⟩ | ⟨-, ⟨hgrow, e⟩ | ⟨-, e⟩⟩
  · rw [e] at h
    cases h
    simpa only [taken, withHeap_ram, withHeap_dir] using km
  · rw [e] at h
    cases h
    have hmap := growStep_iterate_map km rep.le_kernHeap hgrow
    obtain ⟨_, _, _, e, -⟩ := growStep_iterate s (growPages size)
    have hdir : (growStep^[growPages size] s).dir = s.dir := by rw [e, Mm.dir, Mm.dir]
    simpa only [taken, grown, withHeap_ram, withHeap_dir, hdir] using hmap
  · rw [e] at h
    cases h

/-- A successful `kmalloc` keeps the invariant, with its result as a new allocation, and writes no byte
of an allocation. -/
lemma kmalloc_ok {s s' : Mm} {chunks : List Nat} {live : List (Nat × Nat)} {size p : Nat}
    (rep : HeapRep s chunks live) (km : KernelMap s.ram s.dir)
    (hsize : size + 4 < KERN_HEAP_LIM - KERN_HEAP) (h : kmalloc s size = .ok (s', p)) :
    (∃ chunks', HeapRep s' chunks' ((p, size) :: live)) ∧ KernelMap s'.ram s'.dir ∧
      ∀ q k i, (q, k) ∈ live → i < k → s'.mem (q + i) = s.mem (q + i) := by
  obtain ⟨-, hreal, -⟩ := realSize_spec hsize
  exact kmalloc_record rep km (rep.growth_lt hsize) hreal h

/-- `kfree` of a live allocation succeeds, keeps the invariant without that allocation, and writes no
byte of the others. -/
lemma kfree_ok {s : Mm} {chunks : List Nat} {live : List (Nat × Nat)} {p n : Nat}
    (rep : HeapRep s chunks live) (hp : (p, n) ∈ live) :
    ∃ mem used, kfree s p = .ok (s.withHeap mem used) ∧
      (∃ chunks', HeapRep (s.withHeap mem used) chunks' (live.erase (p, n))) ∧
      ∀ q k i, (q, k) ∈ live.erase (p, n) → i < k → mem (q + i) = s.mem (q + i) := by
  obtain ⟨c, hc, rfl, hroom⟩ := rep.room p n hp
  obtain ⟨l, r, rfl⟩ := List.append_of_mem hc
  obtain ⟨hlo, h16, hle, hlim⟩ := rep.bounds hc
  have hwrap : wrap (c + 4 + 4294967296 - 4) = c := by
    rw [wrap_eq]
    omega
  -- the chunk is marked free first: every size and every other flag is kept
  have hsep : ∀ d ∈ l ++ r, d + 4 ≤ c ∨ c + 4 ≤ d := by
    intro d hd
    rcases rep.blocks.header_apart hd with h | h <;> omega
  have hsize : ∀ d ∈ l ++ c :: r, hdrSize (setUsed s.mem c 0) d = hdrSize s.mem d := by
    intro d hd
    by_cases h : d = c
    · rw [h, hdrSize_setUsed]
    · exact (hdr_setUsed_other (hsep d (rep.blocks.mem_sides.2 ⟨hd, h⟩))).1
  have htiles := rep.tiles.congr hsize
  have hlen := htiles.length_le
  simp only [KMALLOC_MINSIZE, KERN_HEAP, List.length_append, List.length_cons] at hlen
  have hfuel : r.length < LOOP_MAX := by
    rw [loopMax_eq]
    omega
  have hmax : mergedSize s.kernHeap LOOP_MAX (setUsed s.mem c 0) c
      (hdrSize (setUsed s.mem c 0) c) < 2147483648 := by
    have h : c + mergedSize s.kernHeap LOOP_MAX (setUsed s.mem c 0) c
        (hdrSize (setUsed s.mem c 0) c) ≤ s.kernHeap := mergedSize_le htiles.split_at.2.2
    omega
  obtain ⟨m', r0, r', e, rfl, hfree0, ht, hu, -, hframe⟩ := coalesce_ok htiles (by omega)
    (le_trans rep.limit (by decide)) hfuel hmax
  have hframe' : ∀ x, x < c ∨ c + 4 ≤ x → m' x = s.mem x := by
    intro x hx
    rw [hframe x hx, setUsed_other hx]
  have hfree' : ∀ d ∈ r0, hdrUsed s.mem d = 0 := by
    intro d hd
    have h := hfree0 d hd
    rwa [(hdr_setUsed_other (hsep d (by simp [hd]))).2] at h
  have hused : hdrUsed m' c = 0 := by
    rw [hu, hdrUsed_setUsed (by decide)]
  obtain ⟨hblocks, hpay⟩ := rep.blocks.free hp hfree' ht hused hframe'
  refine ⟨m', wrap (s.kmallocUsed + 4294967296 - hdrSize (setUsed s.mem c 0) c), ?_,
    ⟨l ++ c :: r', .of_blocks ?_ ?_ (by simp)⟩, hpay⟩
  · rw [kfree]
    simp only [hwrap, e, ok_bind, pure_eq_ok]
  · rw [withHeap_mem, withHeap_kernHeap]
    exact hblocks
  · rw [withHeap_kernHeap]
    exact rep.limit

end Creeks
