import Creeks.Kmalloc.Blocks

/-!
# The kernel heap invariant

`HeapRep s chunks live` says that the headers stored in the heap tile `[KERN_HEAP, kern_heap)` as
`chunks`, that the chunks marked used are those of the allocations `live` (pointer and requested
size), and that each is large enough. `ksbrk_eq`, `kmalloc_cases` and `kfree_ok` say once what the
three functions do in such a heap; the preservation lemmas are read off them.
-/

namespace Creeks
open Lib

/-- One iteration of the loop of `ksbrk`, on a heap page below the limit. -/
def growStep (s : Mm) : Mm :=
  { (getPageFrame s).1 with
    ram := setKernPte s.ram s.kernHeap
      ((getPageFrame s).2 ||| (PG_PRESENT ||| PG_WRITE ||| 0))
    kernHeap := s.kernHeap + PAGESIZE }

/-- The heap pages `ksbrk` has not reached are left to the caller: taking a frame only changes the
bitmap and the ghost flag. -/
lemma getPageFrame_frame (s : Mm) :
    ∃ bitmap oom, (getPageFrame s).1 = { s with memBitmap := bitmap, oom := oom } ∧
      (s.oom = true → oom = true) := by
  rcases getPageFrame_cases s with ⟨page, -, -, e⟩ | e
  · exact ⟨_, _, by rw [e], id⟩
  · exact ⟨_, _, by rw [e], fun _ => rfl⟩

@[simp] lemma getPageFrame_ram (s : Mm) : (getPageFrame s).1.ram = s.ram := by
  obtain ⟨_, _, e, -⟩ := getPageFrame_frame s
  rw [e]

@[simp] lemma getPageFrame_dir (s : Mm) : (getPageFrame s).1.dir = s.dir := by
  obtain ⟨_, _, e, -⟩ := getPageFrame_frame s
  rw [e]
  rfl

@[simp] lemma getPageFrame_kernHeap (s : Mm) : (getPageFrame s).1.kernHeap = s.kernHeap := by
  obtain ⟨_, _, e, -⟩ := getPageFrame_frame s
  rw [e]

@[simp] lemma getPageFrame_mem (s : Mm) : (getPageFrame s).1.mem = s.mem := by
  obtain ⟨_, _, e, -⟩ := getPageFrame_frame s
  rw [e]

@[simp] lemma growStep_memBitmap (s : Mm) :
    (growStep s).memBitmap = (getPageFrame s).1.memBitmap := rfl

@[simp] lemma growStep_oom (s : Mm) : (growStep s).oom = (getPageFrame s).1.oom := rfl

/-- A page address of the kernel heap has its entry in the tables of `pg1`. -/
lemma inTables_heap {v : Nat} (h1 : KERN_HEAP ≤ v) (h2 : v < KERN_HEAP_LIM) : InTables v :=
  ⟨le_trans (by decide) h1, h2⟩

/-- The loop of `ksbrk` below the limit. -/
lemma growHeap_eq {s : Mm} {n : Nat} (km : KernelMap s.ram s.dir) (hlo : KERN_HEAP ≤ s.kernHeap)
    (hhi : s.kernHeap + n * PAGESIZE ≤ KERN_HEAP_LIM) :
    growHeap n s = .ok (growStep^[n] s, true) := by
  induction n generalizing s with
  | zero => rfl
  | succ n ih =>
    simp only [KERN_HEAP, KERN_HEAP_LIM, PAGESIZE] at hlo hhi
    have hv : InTables s.kernHeap := inTables_heap hlo (by simp only [KERN_HEAP_LIM]; omega)
    have hwrap : wrap (s.kernHeap + PAGESIZE) = s.kernHeap + PAGESIZE :=
      wrap_of_lt (by simp only [PAGESIZE]; omega)
    have hadd : pd0AddPage (getPageFrame s).1 s.kernHeap (getPageFrame s).2 0 =
        .ok { (getPageFrame s).1 with
          ram := setKernPte s.ram s.kernHeap
            ((getPageFrame s).2 ||| (PG_PRESENT ||| PG_WRITE ||| 0)) } := by
      rw [pd0AddPage_eq (by simpa using km) hv, getPageFrame_ram]
    have hstep : growHeap (n + 1) s = growHeap n (growStep s) := by
      rw [growHeap]
      simp only [Nat.not_lt_zero, if_false, getPageFrame_kernHeap, hadd, ok_bind, hwrap]
      rfl
    rw [hstep, Function.iterate_succ_apply]
    apply ih
    · have hd : (growStep s).dir = s.dir := getPageFrame_dir s
      rw [hd]
      exact km.setKernPte hv _
    · exact le_trans hlo (Nat.le_add_right _ _)
    · change s.kernHeap + PAGESIZE + n * PAGESIZE ≤ KERN_HEAP_LIM
      simp only [KERN_HEAP_LIM, PAGESIZE]
      omega

/-- What `n` iterations of the loop of `ksbrk` leave alone. -/
lemma growStep_iterate (s : Mm) (n : Nat) :
    ∃ bitmap ram oom, growStep^[n] s =
      { s with
        memBitmap := bitmap, ram := ram, oom := oom, kernHeap := s.kernHeap + n * PAGESIZE } ∧
      (s.oom = true → oom = true) := by
  induction n generalizing s with
  | zero => exact ⟨_, _, _, by simp only [Nat.zero_mul]; rfl, id⟩
  | succ n ih =>
    obtain ⟨b1, o1, e1, h1⟩ := getPageFrame_frame s
    obtain ⟨b2, r2, o2, e2, h2⟩ := ih (growStep s)
    refine ⟨b2, r2, o2, ?_, fun h => h2 ?_⟩
    · rw [Function.iterate_succ_apply, e2]
      simp only [growStep, e1, Nat.succ_mul, Nat.add_assoc, Nat.add_comm PAGESIZE]
    · simpa only [growStep, e1] using h1 h

/-- The kernel half of the loaded directory survives the growth of the heap. -/
lemma growStep_iterate_map {s : Mm} {n : Nat} (km : KernelMap s.ram s.dir)
    (hlo : KERN_HEAP ≤ s.kernHeap) (hhi : s.kernHeap + n * PAGESIZE ≤ KERN_HEAP_LIM) :
    KernelMap (growStep^[n] s).ram s.dir := by
  induction n generalizing s with
  | zero => exact km
  | succ n ih =>
    simp only [KERN_HEAP, KERN_HEAP_LIM, PAGESIZE] at hlo hhi
    have hv : InTables s.kernHeap := inTables_heap hlo (by simp only [KERN_HEAP_LIM]; omega)
    have hd : (growStep s).dir = s.dir := getPageFrame_dir s
    rw [Function.iterate_succ_apply, ← hd]
    apply ih
    · rw [hd]
      exact km.setKernPte hv _
    · exact le_trans hlo (Nat.le_add_right _ _)
    · change s.kernHeap + PAGESIZE + n * PAGESIZE ≤ KERN_HEAP_LIM
      simp only [KERN_HEAP_LIM, PAGESIZE]
      omega

/-- The heap after `ksbrk(n)`: `n` more pages, the first of which starts with the header of a free
chunk that covers them. -/
def grown (s : Mm) (n : Nat) : Mm :=
  (growStep^[n] s).withHeap (setUsed (setSize s.mem s.kernHeap (PAGESIZE * n)) s.kernHeap 0)
    s.kmallocUsed

@[simp] lemma grown_kernHeap (s : Mm) (n : Nat) :
    (grown s n).kernHeap = s.kernHeap + n * PAGESIZE := by
  obtain ⟨_, _, _, e, -⟩ := growStep_iterate s n
  simp only [grown, e, withHeap_kernHeap]

@[simp] lemma grown_headWords (s : Mm) (n : Nat) : (grown s n).headWords = s.headWords := by
  obtain ⟨_, _, _, e, -⟩ := growStep_iterate s n
  simp only [grown, e, withHeap_headWords]

/-- `ksbrk` below the limit. -/
lemma ksbrk_eq {s : Mm} {n : Nat} (km : KernelMap s.ram s.dir) (hlo : KERN_HEAP ≤ s.kernHeap)
    (hhi : s.kernHeap + n * PAGESIZE ≤ KERN_HEAP_LIM) :
    ksbrk s n = .ok (grown s n, s.kernHeap) := by
  have hle : s.kernHeap + n * PAGESIZE < 4294967296 :=
    lt_of_le_of_lt hhi (by decide)
  have hif : ¬ wrap (s.kernHeap + n * PAGESIZE) > KERN_HEAP_LIM := by
    rw [wrap_of_lt hle]
    exact not_lt.2 hhi
  have hmem : (growStep^[n] s).mem = s.mem ∧ (growStep^[n] s).kmallocUsed = s.kmallocUsed := by
    obtain ⟨_, _, _, e, -⟩ := growStep_iterate s n
    rw [e]
    exact ⟨rfl, rfl⟩
  rw [ksbrk, if_neg hif, growHeap_eq km hlo hhi]
  simp only [ok_bind, if_true, hmem, pure_eq_ok, grown]

/-- `ksbrk` beyond the limit changes nothing. -/
lemma ksbrk_full {s : Mm} {n : Nat} (hlt : s.kernHeap + n * PAGESIZE < 4294967296)
    (hhi : KERN_HEAP_LIM < s.kernHeap + n * PAGESIZE) : ksbrk s n = .ok (s, MINUS_ONE) := by
  rw [ksbrk, if_pos]
  rw [wrap_of_lt hlt]
  exact hhi

/-- What `ksbrk` below the limit does to the heap, whatever the page tables contain. -/
lemma ksbrk_frame {s t : Mm} {n c : Nat} (hhi : s.kernHeap + n * PAGESIZE ≤ KERN_HEAP_LIM)
    (h : ksbrk s n = .ok (t, c)) :
    c = s.kernHeap ∧ t.mem = (grown s n).mem ∧ t.kernHeap = (grown s n).kernHeap ∧
      t.kernFreeVm = s.kernFreeVm := by
  have hlt : s.kernHeap + n * PAGESIZE < 4294967296 := lt_of_le_of_lt hhi (by decide)
  have hif : ¬ wrap (s.kernHeap + n * PAGESIZE) > KERN_HEAP_LIM := by
    rw [wrap_of_lt hlt]
    exact not_lt.2 hhi
  rw [ksbrk, if_neg hif] at h
  obtain ⟨⟨u, b⟩, hg, h⟩ := bind_ok.1 h
  obtain ⟨rfl, hmem, hkern, hvm⟩ := growHeap_frame hlt hg
  cases h
  refine ⟨rfl, ?_, ?_, ?_⟩
  · rw [withHeap_mem, grown, withHeap_mem, hmem]
  · rw [withHeap_kernHeap, grown_kernHeap, hkern]
  · rw [withHeap_kernFreeVm, hvm]

/-- A chunk that serves a record: it is free and large enough. -/
def fits (m : Mem) (realsize chunk : Nat) : Bool :=
  hdrUsed m chunk = 0 ∧ realsize ≤ hdrSize m chunk

lemma fits_iff {m : Mem} {realsize chunk : Nat} :
    fits m realsize chunk = true ↔ ¬ (hdrUsed m chunk ≠ 0 ∨ hdrSize m chunk < realsize) := by
  rw [fits, decide_eq_true_eq, not_or, not_not, not_lt]

/-- The headers of the heap tile it, and the used chunks are the live allocations. -/
structure HeapRep (s : Mm) (chunks : List Nat) (live : List (Nat × Nat)) : Prop where
  tiles : Tiling KMALLOC_MINSIZE (hdrSize s.mem) KERN_HEAP chunks s.kernHeap
  limit : s.kernHeap ≤ KERN_HEAP_LIM
  nonempty : chunks ≠ []
  nodup : (live.map Prod.fst).Nodup
  used : ∀ c ∈ chunks, (hdrUsed s.mem c ≠ 0 ↔ c + 4 ∈ live.map Prod.fst)
  room : ∀ p n, (p, n) ∈ live → ∃ c ∈ chunks, p = c + 4 ∧ n + 4 ≤ hdrSize s.mem c

namespace HeapRep

variable {s : Mm} {chunks l r : List Nat} {live : List (Nat × Nat)} {c n size : Nat}

lemma le_kernHeap (rep : HeapRep s chunks live) : KERN_HEAP ≤ s.kernHeap := rep.tiles.le

/-- The chunks of the kernel heap are its blocks. -/
lemma blocks (rep : HeapRep s chunks live) : Blocks s.mem KERN_HEAP s.kernHeap chunks live :=
  ⟨rep.tiles, le_trans rep.limit (by decide), rep.nodup, rep.used, rep.room⟩

/-- Blocks below the limit of the heap make it well formed. -/
lemma of_blocks (blocks : Blocks s.mem KERN_HEAP s.kernHeap chunks live)
    (limit : s.kernHeap ≤ KERN_HEAP_LIM) (nonempty : chunks ≠ []) : HeapRep s chunks live :=
  ⟨blocks.tiles, limit, nonempty, blocks.nodup, blocks.used, blocks.room⟩

/-- A chunk lies between the ends of the heap. -/
lemma bounds (rep : HeapRep s chunks live) (hc : c ∈ chunks) :
    0x10000000 ≤ c ∧ 16 ≤ hdrSize s.mem c ∧ c + hdrSize s.mem c ≤ s.kernHeap ∧
      s.kernHeap ≤ 0x40000000 := by
  obtain ⟨h1, h2, h3, -⟩ := rep.blocks.bounds hc
  exact ⟨h1, h2, h3, rep.limit⟩

/-- The invariant does not depend on the rest of the memory manager. -/
lemma congr {s' : Mm} (rep : HeapRep s chunks live) (hm : s'.mem = s.mem)
    (hk : s'.kernHeap = s.kernHeap) : HeapRep s' chunks live where
  tiles := by rw [hm, hk]; exact rep.tiles
  limit := by rw [hk]; exact rep.limit
  nonempty := rep.nonempty
  nodup := rep.nodup
  used := by rw [hm]; exact rep.used
  room := by rw [hm]; exact rep.room

/-- The heap grown by `ksbrk` is the old one with a free chunk at its end. -/
lemma grow (rep : HeapRep s chunks live) (hn : 0 < n)
    (hhi : s.kernHeap + n * PAGESIZE ≤ KERN_HEAP_LIM) :
    HeapRep (grown s n) (chunks ++ [s.kernHeap]) live ∧
      hdrUsed (grown s n).mem s.kernHeap = 0 ∧
      hdrSize (grown s n).mem s.kernHeap = n * PAGESIZE := by
  have hlim : s.kernHeap + PAGESIZE * n ≤ 4294963200 := by
    rw [Nat.mul_comm]
    exact le_trans hhi (by decide)
  have h16 : 16 ≤ PAGESIZE * n := by
    simp only [PAGESIZE]
    omega
  have hlt : PAGESIZE * n < 2147483648 := by
    simp only [KERN_HEAP_LIM, PAGESIZE] at hhi ⊢
    omega
  have hm : (grown s n).mem = setUsed (setSize s.mem s.kernHeap (PAGESIZE * n)) s.kernHeap 0 :=
    withHeap_mem _ _ _
  obtain ⟨hblocks, hus, hsz, -⟩ := rep.blocks.grow h16 hlt hlim hm
  rw [Nat.mul_comm] at hsz
  refine ⟨of_blocks ?_ ?_ (by simp), hus, hsz⟩
  · rw [grown_kernHeap, Nat.mul_comm]
    exact hblocks
  · rw [grown_kernHeap]
    exact hhi

/-- The search loop of `kmalloc` stops at the first free chunk that is large enough, or finds none, reaches
the end of the heap and asks for more. -/
lemma search (rep : HeapRep s (l ++ c :: r) live) {realsize fuel : Nat}
    (hfuel : r.length + 1 < fuel) :
    (∃ l' c' r', l ++ c :: r = l' ++ c' :: r' ∧ hdrUsed s.mem c' = 0 ∧
      realsize ≤ hdrSize s.mem c' ∧ (c :: r).find? (fits s.mem realsize) = some c' ∧
      kmallocSearch realsize fuel s c = .ok (s, c')) ∨
    (∀ d ∈ c :: r, hdrUsed s.mem d = 0 → hdrSize s.mem d < realsize) ∧ ∃ k, kmallocSearch realsize fuel s c =
      (ksbrk s (realsize / PAGESIZE + 1) >>= fun x =>
        if x.2 < 0 then .error .noMemory
        else kmallocSearch realsize (k + 1) x.1 s.kernHeap) := by
  induction r generalizing l c fuel with
  | nil =>
    obtain ⟨k, rfl⟩ : ∃ k, fuel = k + 2 := ⟨fuel - 2, by simp at hfuel; omega⟩
    obtain ⟨-, h16, hle, hlim⟩ := rep.bounds (c := c) (by simp)
    rw [kmallocSearch, if_neg (by omega)]
    by_cases hfit : hdrUsed s.mem c ≠ 0 ∨ hdrSize s.mem c < realsize
    · right
      refine ⟨fun d hd h0 => ?_, k, ?_⟩
      · cases List.mem_singleton.1 hd
        exact hfit.resolve_left (not_not.2 h0)
      obtain ⟨-, hend⟩ : _ ∧ c + hdrSize s.mem c = s.kernHeap :=
        rep.blocks.next.resolve_right (by simp)
      have hwrap : wrap (c + hdrSize s.mem c) = s.kernHeap := by
        rw [hend]
        exact wrap_of_lt (by omega)
      rw [if_pos hfit, if_neg (by omega)]
      simp only [hwrap, if_true]
    · have hfind := List.find?_cons_of_pos (l := []) (fits_iff.2 hfit)
      rw [if_neg hfit]
      rw [not_or, not_not, not_lt] at hfit
      exact .inl ⟨l, c, [], rfl, hfit.1, hfit.2, hfind, rfl⟩
  | cons d r ih =>
    obtain ⟨k, rfl⟩ : ∃ k, fuel = k + 1 := ⟨fuel - 1, by simp at hfuel; omega⟩
    obtain ⟨-, h16, hle, hlim⟩ := rep.bounds (c := c) (by simp)
    obtain ⟨-, h16', hle', -⟩ := rep.bounds (c := d) (by simp)
    have hsplit : l ++ c :: d :: r = (l ++ [c]) ++ d :: r := by simp
    rw [kmallocSearch, if_neg (by omega)]
    by_cases hfit : hdrUsed s.mem c ≠ 0 ∨ hdrSize s.mem c < realsize
    · have hnext : c + hdrSize s.mem c = d := by
        rcases rep.blocks.next with ⟨e, -⟩ | ⟨d', r', e, hnext⟩
        · cases e
        · cases e; exact hnext
      have hwrap : wrap (c + hdrSize s.mem c) = d := by
        rw [hnext]
        exact wrap_of_lt (by omega)
      rw [if_pos hfit, if_neg (by omega)]
      simp only [hwrap]
      rw [if_neg (show ¬ d = s.kernHeap by omega), if_neg (show ¬ d > s.kernHeap by omega), hsplit]
      rcases ih (hsplit ▸ rep) (by simp at hfuel; omega) with ⟨l', c', r', e, h0, h1, hfind, h⟩ | ⟨hnone, h⟩
      · refine .inl ⟨l', c', r', e, h0, h1, ?_, h⟩
        rwa [List.find?_cons_of_neg (fun h => fits_iff.1 h hfit)]
      · refine .inr ⟨fun e he h0 => ?_, h⟩
        rcases List.mem_cons.1 he with rfl | he
        · exact hfit.resolve_left (not_not.2 h0)
        · exact hnone e he h0
    · have hfind := List.find?_cons_of_pos (l := d :: r) (fits_iff.2 hfit)
      rw [if_neg hfit]
      rw [not_or, not_not, not_lt] at hfit
      exact .inl ⟨l, c, d :: r, rfl, hfit.1, hfit.2, hfind, rfl⟩

/-- Taking a free chunk that is large enough makes it the allocation of its payload. -/
lemma take (rep : HeapRep s (l ++ c :: r) live) {realsize : Nat} (hfree : hdrUsed s.mem c = 0)
    (hfit : realsize ≤ hdrSize s.mem c) (h16 : 16 ≤ realsize) (hsize : size + 4 ≤ realsize)
    {t : Mm} (hm : t.mem = takeChunk s.mem c realsize) (hk : t.kernHeap = s.kernHeap) :
    (∃ chunks', HeapRep t chunks' ((c + 4, size) :: live)) ∧
      ∀ x, x < c ∨ c + hdrSize s.mem c ≤ x → t.mem x = s.mem x := by
  obtain ⟨⟨mid, hblocks, -⟩, hframe⟩ := rep.blocks.take hfree hfit h16 hsize hm
  refine ⟨⟨l ++ c :: mid ++ r, of_blocks ?_ ?_ (by simp)⟩, hframe⟩
  · rw [hk]
    exact hblocks
  · rw [hk]
    exact rep.limit

end HeapRep

end Creeks
