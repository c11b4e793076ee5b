import Creeks.Mm.Init

/-!
# Safety of the kernel heap

Runs of `kmalloc` and `kfree` by clients that only free what they were given and only write inside
what they own. `heap_safe` is the result: after any such run the headers tile the heap, the used
chunks are the live allocations, and neither function reads a header it should not or writes a byte
that belongs to a client.
-/

namespace Creeks
open Lib

/-- The kernel heap together with the allocations that have not been freed. -/
structure Client where
  mm : Mm
  live : List (Nat × Nat)

/-- What a client does with the heap. -/
inductive HeapOp where
  | kmalloc (size : Nat)
  | kfree (vAddr : Nat)
  | write (addr : Nat) (b : UInt8)

/-- One step of a client: a request that does not fail for lack of frames, a free of a live
allocation, or a write inside one. -/
inductive HeapStep : Client → HeapOp → Client → Prop where
  | kmalloc {s live size s' p} :
    size + 4 < KERN_HEAP_LIM - KERN_HEAP →
    kmalloc s size = .ok (s', p) →
    s'.oom = false →
    HeapStep ⟨s, live⟩ (.kmalloc size) ⟨s', (p, size) :: live⟩
  | kfree {s live p n s'} :
    (p, n) ∈ live →
    kfree s p = .ok s' →
    HeapStep ⟨s, live⟩ (.kfree p) ⟨s', live.erase (p, n)⟩
  | write {s live p n i b} :
    (p, n) ∈ live →
    i < n →
    HeapStep ⟨s, live⟩ (.write (p + i) b)
      ⟨s.withHeap (Function.update s.mem (p + i) b) s.kmallocUsed, live⟩

/-- The invariant of a client: a well-formed heap whose used chunks are the live allocations. -/
structure ClientInv (c : Client) : Prop where
  rep : ∃ chunks, HeapRep c.mm chunks c.live
  map : KernelMap c.mm.ram c.mm.dir

/-- An edit inside an allocation changes no header and no other allocation. -/
lemma HeapRep.edit {s : Mm} {chunks : List Nat} {live : List (Nat × Nat)} {p n used : Nat} {mem : Mem}
    (rep : HeapRep s chunks live) (hp : (p, n) ∈ live)
    (hout : ∀ x, x < p ∨ p + n ≤ x → mem x = s.mem x) :
    HeapRep (s.withHeap mem used) chunks live ∧
      ∀ q k i, (q, k) ∈ live → q ≠ p → i < k → mem (q + i) = s.mem (q + i) := by
  obtain ⟨hblocks, -⟩ := rep.blocks.edit hp hout
  refine ⟨.of_blocks ?_ ?_ rep.nonempty, fun q k i hq hne hi => hout _ ?_⟩
  · rw [withHeap_mem, withHeap_kernHeap]
    exact hblocks
  · rw [withHeap_kernHeap]
    exact rep.limit
  · by_contra hin
    have h := rep.blocks.payload_disjoint hq hp hne hi (show q + i - p < n by omega)
    omega

/-- Writing inside an allocation changes no header. -/
lemma HeapRep.write {s : Mm} {chunks : List Nat} {live : List (Nat × Nat)} {p n i : Nat} {b : UInt8}
    (rep : HeapRep s chunks live) (hp : (p, n) ∈ live) (hi : i < n) :
    HeapRep (s.withHeap (Function.update s.mem (p + i) b) s.kmallocUsed) chunks live :=
  (rep.edit hp fun _ hx => Function.update_of_ne (by omega) ..).1

/-- Every step of a client keeps the invariant. -/
lemma ClientInv.step {c c' : Client} {op : HeapOp} (inv : ClientInv c) (st : HeapStep c op c') :
    ClientInv c' := by
  obtain ⟨⟨chunks, rep⟩, map⟩ := inv
  cases st with
  | kmalloc hsize h _ =>
    obtain ⟨hrep, hmap, -⟩ := kmalloc_ok rep map hsize h
    exact ⟨hrep, hmap⟩
  | kfree hp h =>
    obtain ⟨mem, used, e, hrep, -⟩ := kfree_ok rep hp
    rw [e] at h
    cases h
    exact ⟨hrep, by simpa only [withHeap_ram, withHeap_dir] using map⟩
  | write hp hi =>
    exact ⟨⟨chunks, rep.write hp hi⟩, by simpa only [withHeap_ram, withHeap_dir] using map⟩

/-- The heap after `ksbrk(1)`, with no allocation. -/
lemma ClientInv.init (boot : Mm) (highMem : Nat) :
    ClientInv ⟨grown (initPaging boot highMem) 1, []⟩ :=
  ⟨⟨_, heapRep_init (initPaging_kernHeap _ _)⟩, initPaging_grown_map boot highMem⟩

/-- What a client relies on: the state of the heap and the next call of each function. -/
structure HeapSafe (s : Mm) (live : List (Nat × Nat)) : Prop where
  /-- The walk from `KERN_HEAP` by `chunk->size` lands on `kern_heap`, the used chunks are the live
  allocations, and each of them has room for what was asked. -/
  walk : ∃ chunks, Tiling KMALLOC_MINSIZE (hdrSize s.mem) KERN_HEAP chunks s.kernHeap ∧
    (∀ c ∈ chunks, hdrUsed s.mem c ≠ 0 ↔ c + 4 ∈ live.map Prod.fst) ∧
    ∀ p n, (p, n) ∈ live → ∃ c ∈ chunks, p = c + 4 ∧ n + 4 ≤ hdrSize s.mem c
  distinct : (live.map Prod.fst).Nodup
  disjoint : ∀ p n q k, (p, n) ∈ live → (q, k) ∈ live → p ≠ q → p + n ≤ q ∨ q + k ≤ p
  /-- Neither function writes a byte of an allocation that is live before and after the call. -/
  kmalloc_frame : ∀ size s' r p n i, size + 4 < KERN_HEAP_LIM - KERN_HEAP →
    kmalloc s size = .ok (s', r) → (p, n) ∈ live → i < n → s'.mem (p + i) = s.mem (p + i)
  kfree_frame : ∀ q k s' p n i, (q, k) ∈ live → kfree s q = .ok s' →
    (p, n) ∈ live.erase (q, k) → i < n → s'.mem (p + i) = s.mem (p + i)
  /-- `kmalloc` returns unless `ksbrk` refuses the growth, and `kfree` always returns. -/
  kmalloc_total : ∀ size, size + 4 < KERN_HEAP_LIM - KERN_HEAP →
    (∃ r, kmalloc s size = .ok r) ∨ ksbrk s (growPages size) = .ok (s, MINUS_ONE)
  kfree_total : ∀ p n, (p, n) ∈ live → ∃ s', kfree s p = .ok s'

/-- Two allocations do not overlap. -/
lemma HeapRep.disjoint {s : Mm} {chunks : List Nat} {live : List (Nat × Nat)} {p n q k : Nat}
    (rep : HeapRep s chunks live) (hp : (p, n) ∈ live) (hq : (q, k) ∈ live) (hne : p ≠ q) :
    p + n ≤ q ∨ q + k ≤ p := by
  obtain ⟨c, hc, rfl, hn⟩ := rep.room p n hp
  obtain ⟨d, hd, rfl, hk⟩ := rep.room q k hq
  have hcd : c ≠ d := fun e => hne (by rw [e])
  rcases rep.tiles.disjoint hc hd hcd with h | h <;> omega

/-- The invariant of a client gives what the client relies on. -/
lemma ClientInv.safe {s : Mm} {live : List (Nat × Nat)} (inv : ClientInv ⟨s, live⟩) :
    HeapSafe s live := by
  obtain ⟨⟨chunks, rep⟩, map⟩ := inv
  refine
    { walk := ⟨chunks, rep.tiles, rep.used, rep.room⟩
      distinct := rep.nodup
      disjoint := fun _ _ _ _ hp hq hne => rep.disjoint hp hq hne
      kmalloc_frame := ?_
      kfree_frame := ?_
      kmalloc_total := ?_
      kfree_total := ?_ }
  · intro size s' r p n i hsize h hp hi
    obtain ⟨-, -, hframe⟩ := kmalloc_ok rep map hsize h
    exact hframe p n i hp hi
  · intro q k s' p n i hq h hp hi
    obtain ⟨mem, used, e, -, hframe⟩ := kfree_ok rep hq
    rw [e] at h
    cases h
    rw [withHeap_mem]
    exact hframe p n i hp hi
  · intro size hsize
    rcases kmalloc_cases rep map hsize with ⟨l, c, r, -, -, -, e⟩ | ⟨-, e⟩ | ⟨hfull, -⟩
    · exact .inl ⟨_, e⟩
    · exact .inl ⟨_, e⟩
    · refine .inr (ksbrk_full ?_ hfull)
      obtain ⟨-, -, hreal⟩ := realSize_spec hsize
      have hlim := rep.limit
      unfold growPages
      simp only [KERN_HEAP_LIM, PAGESIZE] at hlim ⊢
      omega
  · intro p n hp
    obtain ⟨mem, used, e, -, -⟩ := kfree_ok rep hp
    exact ⟨_, e⟩

/-- The kernel heap is safe after every run of its clients from the state `ksbrk(1)` of `init_mm`
leaves. -/
theorem heap_safe {boot s0 s : Mm} {highMem c : Nat} {ops : List HeapOp} {live : List (Nat × Nat)}
    (init : ksbrk (initPaging boot highMem) 1 = .ok (s0, c))
    (run : Run HeapStep ⟨s0, []⟩ ops ⟨s, live⟩) : HeapSafe s live := by
  rw [initPaging_ksbrk] at init
  obtain ⟨rfl, -⟩ := Prod.mk.inj (Except.ok.inj init)
  have inv : ClientInv ⟨s, live⟩ :=
    run.invariant (I := ClientInv) (fun _ _ _ => ClientInv.step) (ClientInv.init boot highMem)
  exact inv.safe

/-- A boot state with empty memory. -/
def blankMm : Mm where
  memBitmap := fun _ => 0#8
  ram := fun _ _ => 0
  cr3 := 0
  mem := fun _ => 0
  kernHeap := 0
  kmallocUsed := 0
  kernFreeVm := []
  headWords := (0, 0)
  oom := false
  stale := false

/-- With 16 MB of memory the first growth of the heap finds a frame. -/
lemma initPaging_blank_oom : (grown (initPaging blankMm 16384) 1).oom = false := by
  have hfree : frameUsed (initPaging blankMm 16384).memBitmap 2048 = false := by
    rw [initPaging_memBitmap, frameUsed_init]
    refine ⟨le_refl _, ?_⟩
    rw [pgLimit, wrap_of_lt (by decide)]
    decide
  rw [grown, withHeap_oom, Function.iterate_one, growStep_oom,
    getPageFrame_oom (by decide) hfree, initPaging_oom]

/-- A request that the first chunk of the heap can serve. -/
lemma kmalloc_first {s : Mm} {size : Nat} (hk : KERN_HEAP < s.kernHeap)
    (hfree : hdrUsed s.mem KERN_HEAP = 0) (hfit : realSize size ≤ hdrSize s.mem KERN_HEAP) :
    kmalloc s size = .ok (taken s KERN_HEAP size, KERN_HEAP + 4) := by
  obtain ⟨k, hmax⟩ : ∃ k, LOOP_MAX = k + 1 := ⟨4294967295, loopMax_eq⟩
  have hsearch : kmallocSearch (realSize size) LOOP_MAX s KERN_HEAP = .ok (s, KERN_HEAP) := by
    rw [hmax, kmallocSearch, if_neg (not_le.2 hk), if_neg]
    rw [not_or, not_not, not_lt]
    exact ⟨hfree, hfit⟩
  have hwrap : wrap (KERN_HEAP + 4) = KERN_HEAP + 4 := wrap_of_lt (by decide)
  rw [kmalloc, hsearch, ok_bind]
  simp only [hwrap, pure_eq_ok, taken]

/-- A request of ten bytes after `ksbrk(1)`. -/
lemma kmalloc_ten : ∃ s, HeapStep ⟨grown (initPaging blankMm 16384) 1, []⟩ (.kmalloc 10)
    ⟨s, [(KERN_HEAP + 4, 10)]⟩ := by
  have hoom := initPaging_blank_oom
  have hheader := grown_header (initPaging_kernHeap blankMm 16384)
  have hkern := grown_kernHeap (initPaging blankMm 16384) 1
  rw [initPaging_kernHeap] at hkern
  generalize grown (initPaging blankMm 16384) 1 = s at *
  have hreal : realSize 10 = 16 := by
    rw [realSize, wrap_of_lt (by decide), if_pos (by decide)]
  have hfit : realSize 10 ≤ hdrSize s.mem KERN_HEAP := by
    rw [hheader.1, hreal]
    decide
  have e := kmalloc_first (by rw [hkern]; decide) hheader.2 hfit
  exact ⟨_, .kmalloc (by decide) e (by rw [taken, withHeap_oom, hoom])⟩

/-- The heap is safe after a request of ten bytes. -/
theorem heap_safe_ten : ∃ s, HeapSafe s [(KERN_HEAP + 4, 10)] := by
  obtain ⟨s, st⟩ := kmalloc_ten
  exact ⟨s, heap_safe (initPaging_ksbrk blankMm 16384) (.snoc .nil st)⟩

end Creeks
