import Creeks.Kmalloc.Growth

/-!
# The counter of the kernel heap

`kmalloc` adds the size of the record it looked for to `kmalloc_used`, and `kfree` takes the size in the
header off it. The two differ when the chunk found is a little larger than the record: the rest is too
small to be cut off and stays with the chunk.

`heap_accounting` says that the counter is the sum of the sizes of the used chunks throughout a run exactly
when no request is served by such a chunk.
-/

namespace Creeks
open Lib

/-- The sizes of the chunks marked used. -/
def usedSum (m : Mem) (chunks : List Nat) : Nat :=
  ((chunks.filter fun c => hdrUsed m c ≠ 0).map (hdrSize m)).sum

/-- The counter is the sum of the sizes of the used chunks. -/
def HeapCounted (s : Mm) : Prop :=
  ∃ chunks, Tiling KMALLOC_MINSIZE (hdrSize s.mem) KERN_HEAP chunks s.kernHeap ∧
    s.kmallocUsed = usedSum s.mem chunks

/-- The size of the chunk that serves a request: the first one that is free and large enough, or the one
`ksbrk` adds. -/
def servedSize (s : Mm) (chunks : List Nat) (size : Nat) : Nat :=
  match chunks.find? (fits s.mem (realSize size)) with
  | some c => hdrSize s.mem c
  | none => growPages size * PAGESIZE

/-- The chunk that serves a request has the size of the record, or the rest can be cut off. -/
def CutExactly (s : Mm) (size : Nat) : Prop :=
  ∃ chunks, Tiling KMALLOC_MINSIZE (hdrSize s.mem) KERN_HEAP chunks s.kernHeap ∧
    (servedSize s chunks size = realSize size ∨
      realSize size + KMALLOC_MINSIZE ≤ servedSize s chunks size)

/-- One step of the clients of the heap: a request of any size that returns, with the frames it needed, a
free of a live allocation, a write inside one, or anything else the kernel does that leaves the heap
alone. A request owns the record behind its header. -/
inductive UsedStep : Client → GrowthOp → Client → Prop where
  | kmalloc {s live size s' p} :
    kmalloc s size = .ok (s', p) →
    s'.oom = false →
    UsedStep ⟨s, live⟩ (.kmalloc size) ⟨s', (p, realSize size - 4) :: live⟩
  | kfree {s live p n s'} :
    (p, n) ∈ live →
    kfree s p = .ok s' →
    UsedStep ⟨s, live⟩ (.kfree p) ⟨s', live.erase (p, n)⟩
  | write {s live p n i b} :
    (p, n) ∈ live →
    i < n →
    UsedStep ⟨s, live⟩ (.write (p + i) b)
      ⟨s.withHeap (Function.update s.mem (p + i) b) s.kmallocUsed, live⟩
  | other {s s' live} :
    s'.mem = s.mem →
    s'.kernHeap = s.kernHeap →
    s'.kmallocUsed = s.kmallocUsed →
    KernelMap s'.ram s'.dir →
    UsedStep ⟨s, live⟩ .other ⟨s', live⟩

/-- A step after which the counter is exact. A free does not take more off the counter than it holds. -/
structure StepCounted (c : Client) (op : GrowthOp) (c' : Client) : Prop where
  exact : HeapCounted c'.mm
  noWrap : ∀ p, op = .kfree p → hdrSize c.mm.mem (p - 4) ≤ c.mm.kmallocUsed

/-- The counter has its earlier value again when what was allocated since has been freed, and nothing
else has. -/
def Returns (c : Client) (ops : List GrowthOp) : Prop :=
  ∀ pre c', pre <+: ops → Run UsedStep c pre c' → (∀ p, .kfree p ∈ pre → p ∉ c.live.map Prod.fst) →
    c'.live.Perm c.live → c'.mm.kmallocUsed = c.mm.kmallocUsed

/-- The counter is exact throughout a sequence of operations. -/
def AllCounted : List GrowthOp → Client → Prop
  | [], _ => True
  | op :: ops, c => Returns c (op :: ops) ∧
      ∀ c', UsedStep c op c' → StepCounted c op c' ∧ AllCounted ops c'

/-- A request is cut exactly. -/
def GrowthOp.CutExactly (s : Mm) : GrowthOp → Prop
  | .kmalloc size => Creeks.CutExactly s size
  | _ => True

/-- Every request of a sequence of operations is cut exactly. -/
def AllCutExactly : List GrowthOp → Client → Prop
  | [], _ => True
  | op :: ops, c => ∀ c', UsedStep c op c' → op.CutExactly c.mm ∧ AllCutExactly ops c'

/-! ## Growth -/

section Growth

variable {s s' : Mm} {chunks : List Nat} {live : List (Nat × Nat)} {n size p : Nat}

lemma growHeap_kernHeap {r : Mm × Bool} (hk : s.kernHeap < 4294967296) (h : growHeap n s = .ok r) :
    r.1.kernHeap = wrap (s.kernHeap + n * PAGESIZE) := by
  induction n generalizing s with
  | zero =>
    cases h
    rw [Nat.zero_mul, Nat.add_zero, wrap_of_lt hk]
  | succ n ih =>
    rw [growHeap, if_neg (Nat.not_lt_zero _)] at h
    obtain ⟨t, ht, h⟩ := bind_ok.1 h
    obtain ⟨ram, rfl⟩ := pd0AddPage_frame ht
    have hlt : wrap ((getPageFrame s).1.kernHeap + PAGESIZE) < 4294967296 := by
      rw [wrap_eq]
      exact Nat.mod_lt _ (by decide)
    rw [ih hlt h]
    dsimp only
    rw [getPageFrame_kernHeap, wrap_eq, wrap_eq, wrap_eq, Nat.mod_add_mod, Nat.succ_mul]
    congr 1
    omega

/-- A `kmalloc` that returns has not grown the heap around the end of the address space: the chunk of such
a growth lies above the new end of the heap. -/
lemma HeapRep.growth_of_ok (rep : HeapRep s chunks live) (h : Creeks.kmalloc s size = .ok (s', p)) :
    s.kernHeap + growPages size * PAGESIZE < 4294967296 := by
  by_contra hge
  have hlim := rep.limit
  have hpages := growPages_le size
  obtain ⟨r, rfl⟩ := rep.first
  rw [Creeks.kmalloc] at h
  obtain ⟨⟨t, c⟩, hs, -⟩ := bind_ok.1 h
  rcases HeapRep.search (l := []) rep rep.length_lt with ⟨l', c', r', e, -, hfit, -, -⟩ | ⟨-, j, e'⟩
  · have hc : c' ∈ KERN_HEAP :: r := by
      rw [show KERN_HEAP :: r = l' ++ c' :: r' from e]
      exact List.mem_append_right _ List.mem_cons_self
    obtain ⟨hlo, -, hle, -⟩ := rep.bounds hc
    have hfit : realSize size ≤ hdrSize s.mem c' := hfit
    simp only [growPages, PAGESIZE, KERN_HEAP_LIM] at hge hlim
    omega
  · rw [e', ← growPages] at hs
    obtain ⟨⟨u, b⟩, hb, hs⟩ := bind_ok.1 hs
    rw [if_neg (Nat.not_lt_zero _)] at hs
    suffices hu : u.kernHeap ≤ s.kernHeap by
      rw [kmallocSearch, if_pos hu] at hs
      cases hs
    rw [ksbrk] at hb
    split at hb
    case isTrue =>
      cases hb
      exact le_rfl
    case isFalse =>
      obtain ⟨q, hq, hb⟩ := bind_ok.1 hb
      have hk : s.kernHeap < 4294967296 := lt_of_le_of_lt hlim (by decide)
      have hkern := growHeap_kernHeap hk hq
      rw [if_pos (growHeap_true hq)] at hb
      cases hb
      rw [withHeap_kernHeap, hkern, wrap_eq]
      simp only [KERN_HEAP_LIM] at hlim
      omega

lemma UsedStep.growth {c c' : Client} {op : GrowthOp} (st : UsedStep c op c') (inv : ClientInv c) :
    GrowthStep c op c' := by
  obtain ⟨⟨chunks, rep⟩, -⟩ := inv
  cases st with
  | kmalloc h _ => exact .kmalloc (rep.growth_of_ok h) h
  | kfree hp h => exact .kfree hp h
  | write hp hi => exact .write hp hi
  | other hm hk _ hmap => exact .other hm hk hmap

end Growth

/-! ## The sum -/

/-- The sizes of the chunks of the live allocations. -/
def liveSum (m : Mem) (live : List (Nat × Nat)) : Nat :=
  (live.map fun e => hdrSize m (e.1 - 4)).sum

section Sum

variable {s t : Mm} {m : Mem} {chunks l r : List Nat} {live : List (Nat × Nat)} {c n p size : Nat}

/-- The used chunks are those of the live allocations. -/
lemma HeapRep.usedSum_eq (rep : HeapRep s chunks live) : usedSum s.mem chunks = liveSum s.mem live := by
  have hperm : ((chunks.filter fun c => hdrUsed s.mem c ≠ 0).map (· + 4)).Perm (live.map Prod.fst) := by
    have hnd : ((chunks.filter fun c => hdrUsed s.mem c ≠ 0).map (· + 4)).Nodup :=
      ((rep.tiles.nodup (by decide)).filter _).map (add_left_injective 4)
    refine (List.perm_ext_iff_of_nodup hnd rep.nodup).2 fun q => ?_
    constructor
    · intro hq
      obtain ⟨d, hd, rfl⟩ := List.mem_map.1 hq
      obtain ⟨hmem, hused⟩ := List.mem_filter.1 hd
      exact (rep.used d hmem).1 (of_decide_eq_true hused)
    · intro hq
      obtain ⟨⟨q', k⟩, hlive, rfl⟩ := List.mem_map.1 hq
      obtain ⟨d, hd, rfl, -⟩ := rep.room q' k hlive
      exact List.mem_map.2 ⟨d, List.mem_filter.2 ⟨hd, decide_eq_true ((rep.used d hd).2 hq)⟩, rfl⟩
  have hsum := (hperm.map fun q => hdrSize s.mem (q - 4)).sum_eq
  rw [List.map_map, List.map_map] at hsum
  exact hsum

lemma HeapRep.counted_iff (rep : HeapRep s chunks live) :
    HeapCounted s ↔ s.kmallocUsed = liveSum s.mem live := by
  rw [← rep.usedSum_eq]
  constructor
  · rintro ⟨chunks', tiles, h⟩
    rwa [rep.tiles.unique (by decide) tiles]
  · exact fun h => ⟨chunks, rep.tiles, h⟩

/-- The used chunks fit the heap. -/
lemma HeapRep.liveSum_lt (rep : HeapRep s chunks live) : liveSum s.mem live < 2147483648 := by
  have hsum := rep.tiles.sum_size
  have hle : usedSum s.mem chunks ≤ (chunks.map (hdrSize s.mem)).sum :=
    List.Sublist.sum_le_sum (List.filter_sublist.map _) fun _ _ => Nat.zero_le _
  have hlim := rep.limit
  rw [← rep.usedSum_eq]
  simp only [KERN_HEAP, KERN_HEAP_LIM] at hsum hlim
  omega

/-- The sum only depends on the headers of the live allocations. -/
lemma liveSum_congr {m' : Mem} (h : ∀ q k, (q, k) ∈ live → hdrSize m' (q - 4) = hdrSize m (q - 4)) :
    liveSum m' live = liveSum m live :=
  congrArg List.sum (List.map_congr_left fun e he => h e.1 e.2 he)

/-- The order of the allocations does not matter. -/
lemma liveSum_perm {live' : List (Nat × Nat)} (h : live'.Perm live) :
    liveSum m live' = liveSum m live := by
  rw [liveSum, liveSum, (h.map fun e : Nat × Nat => hdrSize m (e.1 - 4)).sum_eq]

/-- The allocation taken off the sum. -/
lemma liveSum_erase (hp : (p, n) ∈ live) :
    liveSum m live = hdrSize m (p - 4) + liveSum m (live.erase (p, n)) := by
  rw [← liveSum_perm (List.perm_cons_erase hp).symm, liveSum, liveSum, List.map_cons, List.sum_cons]

/-- Taking a chunk changes no header of an allocation. -/
lemma HeapRep.taken_live (rep : HeapRep t (l ++ c :: r) live) (hfree : hdrUsed t.mem c = 0)
    (hfit : realSize size ≤ hdrSize t.mem c) {q k : Nat} (hq : (q, k) ∈ live) :
    hdrSize (taken t c size).mem (q - 4) = hdrSize t.mem (q - 4) := by
  obtain ⟨h16, -⟩ := realSize_le_growPages size
  have hm : (taken t c size).mem = takeChunk t.mem c (realSize size) := withHeap_mem _ _ _
  have hroom : 0 + 4 ≤ realSize size := by omega
  obtain ⟨-, hframe⟩ := rep.blocks.take hfree hfit h16 hroom hm
  obtain ⟨d, hd, rfl, -⟩ := rep.room q k hq
  have hne : d ≠ c := fun e => (rep.used d hd).2 (List.mem_map_of_mem hq) (by rw [e]; exact hfree)
  rw [Nat.add_sub_cancel]
  refine (hdr_congr fun x hx1 hx2 => hframe x ?_).1
  obtain ⟨-, hd16, -, -⟩ := rep.bounds hd
  rcases rep.blocks.apart hd hne with h | h <;> omega

/-- The chunk gets the size of the record unless the rest is too small. -/
lemma HeapRep.taken_size (rep : HeapRep t (l ++ c :: r) live)
    (hfit : realSize size ≤ hdrSize t.mem c) :
    (hdrSize t.mem c < realSize size + 16 ∧ hdrSize (taken t c size).mem c = hdrSize t.mem c) ∨
      (realSize size + 16 ≤ hdrSize t.mem c ∧ hdrSize (taken t c size).mem c = realSize size) := by
  obtain ⟨h16, -⟩ := realSize_le_growPages size
  obtain ⟨hlo, -, hle, hlim⟩ := rep.bounds (c := c) (List.mem_append_right _ List.mem_cons_self)
  have hm : (taken t c size).mem = takeChunk t.mem c (realSize size) := withHeap_mem _ _ _
  have hend : c + hdrSize t.mem c ≤ 4294967296 := by omega
  rw [hm]
  rcases Nat.lt_or_ge (hdrSize t.mem c) (realSize size + 16) with hrest | hrest
  · have hsmall : hdrSize t.mem c - realSize size < 16 := by omega
    refine .inl ⟨hrest, ?_⟩
    rw [takeChunk_whole hfit hsmall, hdrSize_setUsed]
  · exact .inr ⟨hrest, (takeChunk_split hend h16 hrest).1⟩

end Sum

/-! ## One step -/

section Step

variable {s s' : Mm} {chunks : List Nat} {live : List (Nat × Nat)} {n size p : Nat}

/-- What a `kmalloc` that returns has done: it has taken the chunk that serves the request, perhaps after a
growth, which changes neither the counter nor the header of an allocation. -/
lemma HeapRep.kmalloc_served (rep : HeapRep s chunks live) (km : KernelMap s.ram s.dir)
    (h : Creeks.kmalloc s size = .ok (s', p)) :
    ∃ t l c r, HeapRep t (l ++ c :: r) live ∧ hdrUsed t.mem c = 0 ∧
      hdrSize t.mem c = servedSize s chunks size ∧ realSize size ≤ hdrSize t.mem c ∧
      s' = taken t c size ∧ p = c + 4 ∧ t.kmallocUsed = s.kmallocUsed ∧
      ∀ q k, (q, k) ∈ live → hdrSize t.mem (q - 4) = hdrSize s.mem (q - 4) := by
  have hwrap := rep.growth_of_ok h
  obtain ⟨r, rfl⟩ := rep.first
  rcases HeapRep.search (l := []) rep rep.length_lt with ⟨l', c, r', e, hfree, hfit, hfind, hs⟩ | ⟨hnone, k, hs⟩
  · rw [Creeks.kmalloc, hs, ok_bind] at h
    cases h
    have hc : c ∈ KERN_HEAP :: r := by
      rw [show KERN_HEAP :: r = l' ++ c :: r' from e]
      exact List.mem_append_right _ List.mem_cons_self
    obtain ⟨-, -, hle, hlim⟩ := rep.bounds hc
    refine ⟨s, l', c, r', ?_, hfree, ?_, hfit, rfl, wrap_of_lt (by omega), rfl, fun _ _ _ => rfl⟩
    · rwa [show KERN_HEAP :: r = l' ++ c :: r' from e] at rep
    · rw [servedSize, hfind]
  · have hnone : ∀ d ∈ KERN_HEAP :: r, hdrUsed s.mem d = 0 → hdrSize s.mem d < realSize size := hnone
    have hfind : (KERN_HEAP :: r).find? (fits s.mem (realSize size)) = none := by
      refine List.find?_eq_none.2 fun d hd hfits => ?_
      obtain ⟨h0, hle⟩ := of_decide_eq_true hfits
      exact absurd hle (Nat.not_le.2 (hnone d hd h0))
    rcases kmalloc_outcomes rep km hwrap with ⟨l, c, r', e, h0, hle, -⟩ | ⟨-, ⟨hgrow, e⟩ | ⟨-, e⟩⟩
    · have hc : c ∈ KERN_HEAP :: r := by
        rw [e]
        exact List.mem_append_right _ List.mem_cons_self
      exact absurd hle (Nat.not_le.2 (hnone c hc h0))
    · rw [e] at h
      cases h
      obtain ⟨hrep, hfree, hsize⟩ := HeapRep.grow (n := growPages size) rep (Nat.succ_pos _) hgrow
      obtain ⟨-, hreal⟩ := realSize_le_growPages size
      refine ⟨grown s (growPages size), KERN_HEAP :: r, s.kernHeap, [], hrep, hfree, ?_, ?_, rfl, rfl,
        ?_, fun q k hq => ?_⟩
      · rw [servedSize, hfind, hsize]
      · rw [hsize]
        exact hreal
      · rw [grown, withHeap_kmallocUsed]
      · obtain ⟨d, hd, rfl, -⟩ := rep.room q k hq
        obtain ⟨-, h16, hle, -⟩ := rep.bounds hd
        rw [Nat.add_sub_cancel, grown, withHeap_mem]
        refine (hdr_congr fun x hx1 hx2 => ?_).1
        rw [setUsed_other (by omega), setSize_other (by omega)]
    · rw [e] at h
      cases h

/-- The counter after a request from a state in which it was exact: it is exact when the request has been
cut exactly, and only then. -/
lemma HeapRep.kmalloc_counted (rep : HeapRep s chunks live) (km : KernelMap s.ram s.dir)
    (hs : HeapCounted s) (h : Creeks.kmalloc s size = .ok (s', p)) :
    HeapCounted s' ↔ Creeks.CutExactly s size := by
  obtain ⟨h16, -⟩ := realSize_le_growPages size
  obtain ⟨⟨chunks', rep'⟩, -, -⟩ :=
    kmalloc_record (k := realSize size - 4) rep km (rep.growth_of_ok h) (by omega) h
  have hlt := rep'.liveSum_lt
  obtain ⟨t, l, c, r, hrep, hfree, hserved, hfit, rfl, rfl, hused, hsame⟩ := rep.kmalloc_served km h
  -- the other allocations keep their sizes
  have hlive : liveSum (taken t c size).mem live = s.kmallocUsed := by
    rw [rep.counted_iff.1 hs]
    exact liveSum_congr fun q k hq => (hrep.taken_live hfree hfit hq).trans (hsame q k hq)
  have hsum : liveSum (taken t c size).mem ((c + 4, realSize size - 4) :: live) =
      hdrSize (taken t c size).mem c + s.kmallocUsed := by
    rw [liveSum, List.map_cons, List.sum_cons, Nat.add_sub_cancel, ← hlive]
    rfl
  have hcount : (taken t c size).kmallocUsed = wrap (s.kmallocUsed + realSize size) := by
    rw [taken, withHeap_kmallocUsed, hused]
  have hcut : Creeks.CutExactly s size ↔ servedSize s chunks size = realSize size ∨
      realSize size + 16 ≤ servedSize s chunks size := by
    constructor
    · rintro ⟨chunks'', tiles, h⟩
      rwa [rep.tiles.unique (by decide) tiles]
    · exact fun h => ⟨chunks, rep.tiles, h⟩
  rw [rep'.counted_iff, hsum, hcount, hcut]
  rw [hsum] at hlt
  rcases hrep.taken_size hfit with ⟨hrest, hsize⟩ | ⟨hrest, hsize⟩
  · rw [hsize, hserved] at hlt ⊢
    rw [hserved] at hrest hfit
    rw [wrap_of_lt (by omega)]
    omega
  · rw [hsize] at hlt ⊢
    rw [hserved] at hrest
    rw [wrap_of_lt (by omega)]
    omega

/-- The merge loop writes one header. -/
lemma coalesce_frame {b fuel c : Nat} {m m' : Mem} (h : coalesce b fuel m c = .ok m') {x : Nat}
    (hx : x < c ∨ c + 4 ≤ x) : m' x = m x := by
  induction fuel generalizing m with
  | zero => cases h
  | succ fuel ih =>
    rw [coalesce] at h
    split at h
    case isTrue => exact (ih h).trans (setSize_other hx)
    case isFalse =>
      cases h
      rfl

/-- What a free of a live allocation does to the heap and the counter. -/
lemma HeapRep.kfree_eq (rep : HeapRep s chunks live) (hp : (p, n) ∈ live)
    (h : Creeks.kfree s p = .ok s') :
    ∃ mem, s' = s.withHeap mem (wrap (s.kmallocUsed + 4294967296 - hdrSize s.mem (p - 4))) ∧
      ∀ x, x < p - 4 ∨ p ≤ x → mem x = s.mem x := by
  obtain ⟨c, hc, rfl, -⟩ := rep.room p n hp
  obtain ⟨-, h16, hle, hlim⟩ := rep.bounds hc
  have hwrap : wrap (c + 4 + 4294967296 - 4) = c := by
    rw [wrap_eq]
    omega
  rw [Creeks.kfree, hwrap] at h
  obtain ⟨mem, hm, h⟩ := bind_ok.1 h
  rw [hdrSize_setUsed] at h
  rw [Nat.add_sub_cancel]
  refine ⟨mem, (Except.ok.inj h).symm, fun x hx => ?_⟩
  rw [coalesce_frame hm hx, setUsed_other hx]

/-- A free changes no header of another allocation. -/
lemma HeapRep.kfree_live (rep : HeapRep s chunks live) (hp : (p, n) ∈ live)
    (h : Creeks.kfree s p = .ok s') {q k : Nat} (hq : (q, k) ∈ live) (hne : q ≠ p) :
    hdrSize s'.mem (q - 4) = hdrSize s.mem (q - 4) := by
  obtain ⟨mem, rfl, hframe⟩ := rep.kfree_eq hp h
  obtain ⟨c, hc, rfl, -⟩ := rep.room p n hp
  obtain ⟨d, hd, rfl, -⟩ := rep.room q k hq
  have hdc : d ≠ c := fun e => hne (by rw [e])
  obtain ⟨-, h16, -, -⟩ := rep.bounds hc
  obtain ⟨-, hd16, -, -⟩ := rep.bounds hd
  rw [withHeap_mem, Nat.add_sub_cancel]
  refine (hdr_congr fun x hx1 hx2 => hframe x ?_).1
  rcases rep.tiles.disjoint hd hc hdc with h | h <;> omega

/-- A free keeps the counter exact, and takes no more off it than it holds. -/
lemma HeapRep.kfree_counted (rep : HeapRep s chunks live) (hp : (p, n) ∈ live) (hs : HeapCounted s)
    (h : Creeks.kfree s p = .ok s') : HeapCounted s' ∧ hdrSize s.mem (p - 4) ≤ s.kmallocUsed := by
  obtain ⟨mem, used, e, ⟨chunks', rep'⟩, -⟩ := kfree_ok rep hp
  cases h.symm.trans e
  have hcount := rep.counted_iff.1 hs
  have hlt := rep.liveSum_lt
  rw [liveSum_erase hp] at hcount hlt
  have hsame : liveSum (s.withHeap mem used).mem (live.erase (p, n)) =
      liveSum s.mem (live.erase (p, n)) := by
    refine liveSum_congr fun q k hq => ?_
    have hnd : live.Nodup := List.Nodup.of_map _ rep.nodup
    obtain ⟨hne, hmem⟩ := hnd.mem_erase_iff.1 hq
    refine rep.kfree_live hp h hmem ?_
    rintro rfl
    exact hne (List.inj_on_of_nodup_map rep.nodup hmem hp rfl)
  obtain ⟨mem', e', -⟩ := rep.kfree_eq hp h
  refine ⟨rep'.counted_iff.2 ?_, by omega⟩
  rw [hsame, e', withHeap_kmallocUsed, wrap_eq]
  omega

end Step

/-! ## Runs -/

section Runs

variable {c c' : Client} {op : GrowthOp} {ops pre : List GrowthOp}

lemma UsedStep.inv (st : UsedStep c op c') (inv : ClientInv c) : ClientInv c' :=
  (st.growth inv).inv inv

/-- A step from a state with an exact counter keeps it exact when its request is cut exactly, and only
then. -/
lemma UsedStep.counted_iff (st : UsedStep c op c') (inv : ClientInv c) (hs : HeapCounted c.mm) :
    StepCounted c op c' ↔ op.CutExactly c.mm := by
  obtain ⟨⟨chunks, rep⟩, map⟩ := inv
  cases st with
  | kmalloc h _ =>
    have hiff := rep.kmalloc_counted map hs h
    exact ⟨fun hc => hiff.1 hc.exact, fun hc => ⟨hiff.2 hc, nofun⟩⟩
  | kfree hp h =>
    obtain ⟨hc, hle⟩ := rep.kfree_counted hp hs h
    refine iff_of_true ⟨hc, fun q e => ?_⟩ trivial
    cases e
    exact hle
  | @write s live p n i b hp hi =>
    have rep' := rep.write (b := b) hp hi
    refine iff_of_true ⟨rep'.counted_iff.2 ?_, nofun⟩ trivial
    rw [withHeap_kmallocUsed, withHeap_mem, rep.counted_iff.1 hs]
    refine (liveSum_congr fun q k hq => ?_).symm
    obtain ⟨d, hd, rfl, -⟩ := rep.room q k hq
    rw [Nat.add_sub_cancel]
    exact (rep.blocks.write hp hi).2 d hd
  | other hm hk hu _ =>
    refine iff_of_true ⟨(rep.congr hm hk).counted_iff.2 ?_, nofun⟩ trivial
    rw [hu, hm]
    exact rep.counted_iff.1 hs

/-- A step that does not free an allocation keeps it, with its chunk. -/
lemma UsedStep.keeps (st : UsedStep c op c') (inv : ClientInv c) {q k : Nat} (hq : (q, k) ∈ c.live)
    (hop : op ≠ .kfree q) :
    (q, k) ∈ c'.live ∧ hdrSize c'.mm.mem (q - 4) = hdrSize c.mm.mem (q - 4) := by
  obtain ⟨⟨chunks, rep⟩, map⟩ := inv
  cases st with
  | kmalloc h _ =>
    refine ⟨List.mem_cons_of_mem _ hq, ?_⟩
    obtain ⟨t, l, c, r, hrep, hfree, -, hfit, rfl, -, -, hsame⟩ := rep.kmalloc_served map h
    exact (hrep.taken_live hfree hfit hq).trans (hsame q k hq)
  | @kfree s live p n s' hp h =>
    have hne : q ≠ p := fun e => hop (by rw [e])
    refine ⟨(List.mem_erase_of_ne fun e => hne (Prod.mk.inj e).1).2 hq, rep.kfree_live hp h hq hne⟩
  | @write s live p n i b hp hi =>
    refine ⟨hq, ?_⟩
    obtain ⟨d, hd, rfl, -⟩ := rep.room q k hq
    rw [withHeap_mem, Nat.add_sub_cancel]
    exact (rep.blocks.write hp hi).2 d hd
  | other hm _ _ _ => exact ⟨hq, by rw [hm]⟩

/-- So does a run that does not free it. -/
lemma run_keeps (run : Run UsedStep c ops c') (inv : ClientInv c) {q k : Nat} (hq : (q, k) ∈ c.live)
    (hops : .kfree q ∉ ops) :
    ClientInv c' ∧ (q, k) ∈ c'.live ∧ hdrSize c'.mm.mem (q - 4) = hdrSize c.mm.mem (q - 4) := by
  induction run with
  | nil => exact ⟨inv, hq, rfl⟩
  | snoc _ st ih =>
    rw [List.mem_append, not_or] at hops
    obtain ⟨hinv, hmem, hsize⟩ := ih hops.1
    obtain ⟨hmem', hsize'⟩ := st.keeps hinv hmem fun e => hops.2 (by rw [e]; exact List.mem_cons_self)
    exact ⟨st.inv hinv, hmem', hsize'.trans hsize⟩

/-- What is left of a sequence of exactly cut requests after a run of its first ones, with the counter. -/
lemma run_counted {rest : List GrowthOp} (run : Run UsedStep c pre c') (inv : ClientInv c)
    (hs : HeapCounted c.mm) (hall : AllCutExactly (pre ++ rest) c) :
    ClientInv c' ∧ HeapCounted c'.mm ∧ AllCutExactly rest c' := by
  induction run generalizing rest with
  | nil => exact ⟨inv, hs, hall⟩
  | snoc _ st ih =>
    rw [List.append_assoc] at hall
    obtain ⟨hinv, hcount, hrest⟩ := ih hall
    obtain ⟨hcut, hrest⟩ := hrest _ st
    exact ⟨st.inv hinv, ((st.counted_iff hinv hcount).2 hcut).exact, hrest⟩

/-- With exactly cut requests the counter returns to its earlier value. -/
lemma returns_of_cut (inv : ClientInv c) (hs : HeapCounted c.mm) (hall : AllCutExactly ops c) :
    Returns c ops := by
  rintro pre c' ⟨rest, rfl⟩ run hfrees hperm
  obtain ⟨hinv', hs', -⟩ := run_counted run inv hs hall
  have hsame : liveSum c'.mm.mem c.live = liveSum c.mm.mem c.live := by
    refine liveSum_congr fun q k hq => ?_
    exact (run_keeps run inv hq fun hop => hfrees q hop (List.mem_map_of_mem hq)).2.2
  obtain ⟨⟨chunks, rep⟩, -⟩ := inv
  obtain ⟨⟨chunks', rep'⟩, -⟩ := hinv'
  rw [rep'.counted_iff.1 hs', rep.counted_iff.1 hs, ← hsame]
  exact liveSum_perm hperm

/-- The counter is exact throughout a sequence of operations when every request is cut exactly, and only
then. -/
lemma allCounted_iff (inv : ClientInv c) (hs : HeapCounted c.mm) :
    AllCounted ops c ↔ AllCutExactly ops c := by
  induction ops generalizing c with
  | nil => exact Iff.rfl
  | cons op ops ih =>
    have hstep : (∀ c', UsedStep c op c' → StepCounted c op c' ∧ AllCounted ops c') ↔
        AllCutExactly (op :: ops) c := by
      refine forall_congr' fun c' => forall_congr' fun st => ?_
      rw [st.counted_iff inv hs]
      refine and_congr_right fun hcut => ?_
      exact ih (st.inv inv) ((st.counted_iff inv hs).2 hcut).exact
    rw [AllCounted, hstep]
    exact ⟨fun h => h.2, fun h => ⟨returns_of_cut inv hs h, h⟩⟩

end Runs

/-- In every run from the first growth of the heap the counter is the sum of the used chunks after each
step, returns to an earlier value when what was allocated since has been freed, and never wraps below 0,
exactly when every request is cut exactly. -/
theorem heap_accounting {boot s0 : Mm} {highMem c : Nat}
    (init : ksbrk (initPaging boot highMem) 1 = .ok (s0, c)) (hzero : boot.kmallocUsed = 0)
    (ops : List GrowthOp) : AllCounted ops ⟨s0, []⟩ ↔ AllCutExactly ops ⟨s0, []⟩ := by
  rw [initPaging_ksbrk] at init
  obtain ⟨rfl, -⟩ := Prod.mk.inj (Except.ok.inj init)
  have inv := ClientInv.init boot highMem
  refine allCounted_iff inv ?_
  obtain ⟨⟨chunks, rep⟩, -⟩ := inv
  refine rep.counted_iff.2 ?_
  rw [grown, withHeap_kmallocUsed, initPaging]
  exact hzero

theorem heap_accounting_boot :
    AllCounted [.kmalloc 10, .kfree (KERN_HEAP + 4)] ⟨bootHeap, []⟩ ↔
      AllCutExactly [.kmalloc 10, .kfree (KERN_HEAP + 4)] ⟨bootHeap, []⟩ :=
  heap_accounting (initPaging_ksbrk blankMm 16384) rfl _

/-- A request that the second chunk of the heap can serve. -/
lemma kmalloc_second {s : Mm} {size n : Nat} (hused : hdrUsed s.mem KERN_HEAP ≠ 0)
    (hsize : hdrSize s.mem KERN_HEAP = n) (hn : 0 < n) (hk : KERN_HEAP + n < s.kernHeap)
    (hlim : s.kernHeap ≤ KERN_HEAP_LIM) (hfree : hdrUsed s.mem (KERN_HEAP + n) = 0)
    (hfit : realSize size ≤ hdrSize s.mem (KERN_HEAP + n)) :
    kmalloc s size = .ok (taken s (KERN_HEAP + n) size, KERN_HEAP + n + 4) := by
  simp only [KERN_HEAP, KERN_HEAP_LIM] at hk hlim
  obtain ⟨k, hmax⟩ : ∃ k, LOOP_MAX = k + 2 := ⟨4294967294, loopMax_eq⟩
  have hnext : wrap (KERN_HEAP + n) = KERN_HEAP + n := by
    refine wrap_of_lt ?_
    simp only [KERN_HEAP]
    omega
  have hsearch : kmallocSearch (realSize size) LOOP_MAX s KERN_HEAP = .ok (s, KERN_HEAP + n) := by
    rw [hmax, kmallocSearch, if_neg, if_pos (.inl hused), if_neg, hsize, hnext, if_neg, if_neg,
      kmallocSearch, if_neg, if_neg]
    · rw [not_or, not_not, not_lt]
      exact ⟨hfree, hfit⟩
    all_goals simp only [KERN_HEAP, hsize]; omega
  have hwrap : wrap (KERN_HEAP + n + 4) = KERN_HEAP + n + 4 := by
    refine wrap_of_lt ?_
    simp only [KERN_HEAP]
    omega
  rw [kmalloc, hsearch, ok_bind]
  simp only [hwrap, pure_eq_ok, taken]

/-- The first heap after the request of 16 bytes of `init_mm`: a used chunk of 20 bytes and a free one of
4076. -/
lemma bootHeap_sixteen : ∃ s, UsedStep ⟨bootHeap, []⟩ (.kmalloc 16) ⟨s, [(KERN_HEAP + 4, 16)]⟩ ∧
    kmalloc bootHeap 16 = .ok (s, KERN_HEAP + 4) ∧ s.kmallocUsed = 20 ∧ s.oom = false ∧
    s.kernHeap = 0x10001000 ∧ hdrSize s.mem KERN_HEAP = 20 ∧ hdrUsed s.mem KERN_HEAP = 1 ∧
    hdrSize s.mem (KERN_HEAP + 20) = 4076 ∧ hdrUsed s.mem (KERN_HEAP + 20) = 0 := by
  have hheader := grown_header (initPaging_kernHeap blankMm 16384)
  have hoom := initPaging_blank_oom
  have hkern := bootHeap_kernHeap
  have hcount : bootHeap.kmallocUsed = 0 := by
    rw [bootHeap, grown, withHeap_kmallocUsed, initPaging]
    rfl
  rw [← bootHeap] at hheader hoom
  generalize bootHeap = s at *
  have hreal : realSize 16 = 20 := by
    rw [realSize, wrap_of_lt (by decide), if_neg (by decide)]
  have hfit : realSize 16 ≤ hdrSize s.mem KERN_HEAP := by
    rw [hheader.1, hreal]
    decide
  have e := kmalloc_first (by rw [hkern]; decide) hheader.2 hfit
  have hoom' : (taken s KERN_HEAP 16).oom = false := by rw [taken, withHeap_oom, hoom]
  have st := @UsedStep.kmalloc _ [] _ _ _ e hoom'
  rw [hreal] at st
  obtain ⟨h1, h2, h3, h4, -⟩ := @takeChunk_split s.mem KERN_HEAP 20
    (by rw [hheader.1]; decide) (by decide) (by rw [hheader.1]; decide)
  refine ⟨_, st, e, ?_, hoom', ?_, ?_⟩
  · rw [taken, withHeap_kmallocUsed, hcount, hreal, wrap_of_lt (by decide)]
  · rw [taken, withHeap_kernHeap, hkern]
  · rw [taken, withHeap_mem, hreal]
    refine ⟨h1, h2, ?_, h4⟩
    rw [h3, hheader.1]

/-- A request of 4064 bytes on that heap takes the free chunk whole: the counter goes up by 4068, and down
by 4076 when the request is freed. -/
theorem counter_drifts : ∃ s1 s2 s3, kmalloc bootHeap 16 = .ok (s1, KERN_HEAP + 4) ∧
    kmalloc s1 4064 = .ok (s2, KERN_HEAP + 20 + 4) ∧ kfree s2 (KERN_HEAP + 20 + 4) = .ok s3 ∧
    s1.kmallocUsed = 20 ∧ s3.kmallocUsed = 12 ∧ ¬ HeapCounted s2 ∧
    ¬ AllCounted [.kmalloc 16, .kmalloc 4064] ⟨bootHeap, []⟩ := by
  obtain ⟨s1, st1, e1, hcount, hoom, hkern, hsize, hused, hsize', hfree⟩ := bootHeap_sixteen
  have hreal : realSize 4064 = 4068 := by
    rw [realSize, wrap_of_lt (by decide), if_neg (by decide)]
  have e2 : kmalloc s1 4064 = .ok (taken s1 (KERN_HEAP + 20) 4064, KERN_HEAP + 20 + 4) := by
    refine kmalloc_second (by rw [hused]; decide) hsize (by decide) ?_ ?_ hfree ?_
    · rw [hkern]
      decide
    · rw [hkern]
      decide
    · rw [hsize', hreal]
      decide
  have hoom' : (taken s1 (KERN_HEAP + 20) 4064).oom = false := by rw [taken, withHeap_oom, hoom]
  have st2 := @UsedStep.kmalloc _ [(KERN_HEAP + 4, 16)] _ _ _ e2 hoom'
  rw [hreal] at st2
  have hmem : (taken s1 (KERN_HEAP + 20) 4064).mem = setUsed s1.mem (KERN_HEAP + 20) 1 := by
    rw [taken, withHeap_mem, hreal]
    refine takeChunk_whole ?_ ?_
    · rw [hsize']
      decide
    · rw [hsize']
      decide
  have hcount' : (taken s1 (KERN_HEAP + 20) 4064).kmallocUsed = 4088 := by
    rw [taken, withHeap_kmallocUsed, hcount, hreal, wrap_of_lt (by decide)]
  generalize taken s1 (KERN_HEAP + 20) 4064 = s2 at *
  have inv : ClientInv ⟨s2, [(KERN_HEAP + 20 + 4, 4064), (KERN_HEAP + 4, 16)]⟩ :=
    st2.inv (st1.inv (ClientInv.init blankMm 16384))
  obtain ⟨⟨chunks, rep⟩, -⟩ := inv
  have hlast : hdrSize s2.mem (KERN_HEAP + 20) = 4076 := by
    rw [hmem, hdrSize_setUsed, hsize']
  have hfirst : hdrSize s2.mem KERN_HEAP = 20 := by
    rw [hmem, (hdr_setUsed_other (.inl (by decide))).1, hsize]
  have hbad : ¬ HeapCounted s2 := by
    intro h
    have hsum := rep.counted_iff.1 h
    rw [hcount', liveSum, List.map_cons, List.map_cons, List.map_nil, Nat.add_sub_cancel,
      Nat.add_sub_cancel, hlast, hfirst] at hsum
    exact absurd hsum (by decide)
  have hlive : (KERN_HEAP + 20 + 4, 4064) ∈ [(KERN_HEAP + 20 + 4, 4064), (KERN_HEAP + 4, 16)] :=
    List.mem_cons_self
  obtain ⟨mem, used, e3, -⟩ := kfree_ok rep hlive
  obtain ⟨mem', e', -⟩ := rep.kfree_eq hlive e3
  refine ⟨s1, s2, _, e1, e2, e3, hcount, ?_, hbad, fun h => ?_⟩
  · rw [e', withHeap_kmallocUsed, hcount', Nat.add_sub_cancel, hlast, wrap_eq]
  · exact hbad ((h.2 _ st1).2.2 _ st2).1.exact

end Creeks
