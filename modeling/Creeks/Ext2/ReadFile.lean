import Creeks.Ext2.Block

/-!
# Reading a file into memory

`ext2_read_file` with the bytes it moves. The blocks of a file are the leaves of four trees: the direct
blocks, and the trees of depth 1, 2 and 3 whose inner nodes are blocks of pointers. Each loop over pointers
ends at the first one that is zero.

The buffer for the file is not cleared. `no_stale_content` says when all of it is overwritten.
-/

namespace Creeks
open Lib

/-- `i_size` and `i_block` of a `struct ext2_inode`. -/
structure Inode where
  iSize : Nat
  iBlock : Nat → Nat

/-- The state of `ext2_read_file`: the kernel, `mmap_head` and `size`. -/
structure Copying where
  mm : Mm
  head : Nat
  size : Nat

/-- A data block is read to `buf` and copied to the file. -/
def copyBlock (d : Drive) (hd : Hd) (buf : Nat) (b : Nat) (c : Copying) : Except Stop Copying := do
  let s ← readBlock d hd c.mm b buf
  let n := if c.size > hd.blocksize then hd.blocksize else c.size
  return ⟨s.withHeap (copyBytes s.mem c.head buf n) s.kmallocUsed, c.head + n, c.size - n⟩

/-- The loops of `ext2_read_file`: `left` pointers from number `i` on, up to the first zero. -/
def eachBlock (pointer : Mm → Nat → Nat) (body : Nat → Copying → Except Stop Copying) :
    Nat → Nat → Copying → Except Stop Copying
  | 0, _, c => .ok c
  | left + 1, i, c =>
    if pointer c.mm i = 0 then .ok c
    else do
      let c' ← body (pointer c.mm i) c
      eachBlock pointer body left (i + 1) c'

/-- `p[i]` -/
def tablePointer (p : Nat) (s : Mm) (i : Nat) : Nat := load32 s.mem (p + 4 * i)

/-- The part of `ext2_read_file` for a block below `tables.length` levels of pointers, which are read to the
buffers `tables`. -/
def readTree (d : Drive) (hd : Hd) (buf : Nat) : List Nat → Nat → Copying → Except Stop Copying
  | [], b, c => copyBlock d hd buf b c
  | p :: tables, b, c => do
    let s ← readBlock d hd c.mm b p
    eachBlock (tablePointer p) (readTree d hd buf tables) (hd.blocksize / 4) 0 { c with mm := s }

/-- `if (inode->i_block[i])`: the tree of an indirect block, if there is one. -/
def readIndirect (d : Drive) (hd : Hd) (buf : Nat) (tables : List Nat) (b : Nat) (c : Copying) :
    Except Stop Copying :=
  if b = 0 then .ok c else readTree d hd buf tables b c

/-- `ext2_read_file()` -/
def Ext2.ext2ReadFile (d : Drive) (hd : Hd) (s : Mm) (inode : Inode) : Except Stop (Mm × Nat) := do
  let (s, buf) ← kmalloc s hd.blocksize
  let (s, p) ← kmalloc s hd.blocksize
  let (s, pp) ← kmalloc s hd.blocksize
  let (s, ppp) ← kmalloc s hd.blocksize
  let (s, mmapBase) ← kmalloc s inode.iSize
  let c ← eachBlock (fun _ => inode.iBlock) (copyBlock d hd buf) 12 0 ⟨s, mmapBase, inode.iSize⟩
  let c ← readIndirect d hd buf [p] (inode.iBlock 12) c
  let c ← readIndirect d hd buf [p, pp] (inode.iBlock 13) c
  let c ← readIndirect d hd buf [p, pp, ppp] (inode.iBlock 14) c
  let s ← kfree c.mm buf
  let s ← kfree s p
  let s ← kfree s pp
  let s ← kfree s ppp
  return (s, mmapBase)

/-! ## What the disk says -/

/-- The bytes `disk_read` delivers for a block. -/
def blockBytes (d : Drive) (hd : Hd) (b : Nat) : Mem :=
  d.byte (rangeCommand hd.device (blockOffset hd b) hd.blocksize)

/-- The values of `f` from `i` on, up to the first zero. -/
def untilZero (f : Nat → Nat) : Nat → Nat → List Nat
  | 0, _ => []
  | left + 1, i => if f i = 0 then [] else f i :: untilZero f left (i + 1)

/-- The pointers in a block. -/
def pointers (d : Drive) (hd : Hd) (b : Nat) : List Nat :=
  untilZero (fun i => load32 (blockBytes d hd b) (4 * i)) (hd.blocksize / 4) 0

/-- The data blocks below a block, in order. -/
def dataBlocks (d : Drive) (hd : Hd) : Nat → Nat → List Nat
  | 0, b => [b]
  | depth + 1, b => (pointers d hd b).flatMap (dataBlocks d hd depth)

/-- All blocks that are read below a block. -/
def treeBlocks (d : Drive) (hd : Hd) : Nat → Nat → List Nat
  | 0, b => [b]
  | depth + 1, b => b :: (pointers d hd b).flatMap (treeBlocks d hd depth)

/-- What `blocks` says of the three trees of an inode and its direct blocks. -/
def inodeBlocks (blocks : Nat → Nat → List Nat) (inode : Inode) : List Nat :=
  (untilZero inode.iBlock 12 0).flatMap (blocks 0) ++
    (if inode.iBlock 12 = 0 then [] else blocks 1 (inode.iBlock 12)) ++
    (if inode.iBlock 13 = 0 then [] else blocks 2 (inode.iBlock 13)) ++
    if inode.iBlock 14 = 0 then [] else blocks 3 (inode.iBlock 14)

/-- The data blocks of a file, in order. -/
def fileBlocks (d : Drive) (hd : Hd) (inode : Inode) : List Nat := inodeBlocks (dataBlocks d hd) inode

/-- Byte `i` of the blocks of a list. -/
def streamByte (d : Drive) (hd : Hd) (l : List Nat) (i : Nat) : UInt8 :=
  blockBytes d hd (l.getD (i / hd.blocksize) 0) (i % hd.blocksize)

/-- The end of a block is below byte 2^31, as `disk_read` computes it. -/
def EndFits (hd : Hd) (b : Nat) : Prop := blockOffset hd b + hd.blocksize < 2147483648

instance (hd : Hd) (b : Nat) : Decidable (EndFits hd b) := inferInstanceAs (Decidable (_ < _))

/-- A file whose buffer is overwritten: `kmalloc` serves its size, the blocks that are read end below byte
2^31, and there are enough of them. -/
structure Covered (d : Drive) (hd : Hd) (inode : Inode) : Prop where
  size : Served inode.iSize
  fits : ∀ b ∈ inodeBlocks (treeBlocks d hd) inode, EndFits hd b
  enough : inode.iSize ≤ hd.blocksize * (fileBlocks d hd inode).length

/-- The bytes returned do not depend on what was in the kernel heap. -/
def NoStaleContent (d : Drive) (hd : Hd) (inode : Inode) : Prop :=
  ∀ s mem used A B s' t' p q, heapLedger.holds s A → heapLedger.holds (s.withHeap mem used) B →
    Ext2.ext2ReadFile d hd s inode = .ok (s', p) →
    Ext2.ext2ReadFile d hd (s.withHeap mem used) inode = .ok (t', q) →
    ∀ i < inode.iSize, s'.mem (p + i) = t'.mem (q + i)

section Blocks

variable {d : Drive} {hd : Hd} {s s' : Mm} {A : Multiset (Nat × Nat)} {b q : Nat}

/-- The sizes `1024 << s_log_block_size` can have. -/
lemma blocksize_cases (hsize : ∃ k, hd.blocksize = wrap (1024 <<< k)) :
    hd.blocksize % 512 = 0 ∧ hd.blocksize ≤ 2147483648 := by
  obtain ⟨k, hk⟩ := hsize
  rw [hk, wrap_eq, Nat.shiftLeft_eq]
  rcases Nat.lt_or_ge k 22 with h | h
  · interval_cases k <;> decide
  · have hdvd : 4294967296 ∣ 1024 * 2 ^ k := by
      obtain ⟨j, rfl⟩ := Nat.exists_eq_add_of_le h
      rw [Nat.pow_add]
      exact ⟨2 ^ j, by ring⟩
    rw [Nat.mod_eq_zero_of_dvd hdvd]
    decide

/-- The range of a block, also of one whose offset is negative. -/
lemma blockOffset_range (hmod : hd.blocksize % 512 = 0) (hle : hd.blocksize ≤ 1073741824)
    (fits : EndFits hd b) : RangeOk (blockOffset hd b) hd.blocksize (hd.blocksize / 512 + 1) 0 := by
  obtain ⟨k, hk⟩ : ∃ k : Int, blockOffset hd b = 512 * k := by
    have hdvd : (512 : Int) ∣ blockOffset hd b := by
      have h512 : hd.blocksize = 512 * (hd.blocksize / 512) := by omega
      rw [blockOffset, wrap_eq, wrap_eq, wrap_eq, h512, ← Nat.mul_assoc, Nat.mul_comm b 512, Nat.mul_assoc]
      generalize b * (hd.blocksize / 512) = m
      unfold int32
      omega
    exact hdvd
  have hlow : -2147483648 ≤ blockOffset hd b := by
    unfold blockOffset int32
    omega
  unfold EndFits at fits
  rw [hk] at fits hlow ⊢
  have hsum : 512 * k + (hd.blocksize : Int) = 512 * (k + (hd.blocksize / 512 : Nat)) := by omega
  have hend : blEnd (512 * k) hd.blocksize = k + (hd.blocksize / 512 : Nat) := by
    rw [blEnd, int32_of_bounds (by omega) fits, hsum, Int.mul_tdiv_cancel_left _ (by decide)]
  have hbegin : blBegin (512 * k) = k := Int.mul_tdiv_cancel_left _ (by decide)
  refine ⟨?_, by omega, Int.mul_tmod_right _ _, by omega⟩
  rw [blocks, hend, hbegin, int32_of_bounds (by omega) (by omega)]
  omega

/-- A chunk of the kernel heap that holds a block. -/
lemma blocksize_le {A : Multiset (Nat × Nat)} (hold : heapLedger.holds s ({(q, hd.blocksize)} + A)) :
    hd.blocksize ≤ 1073741824 :=
  le_trans (Nat.le_add_left _ _) (heapLedger_bounds hold)

/-- What the calls of `disk_read` store. -/
lemma readBlock_spec (hmod : hd.blocksize % 512 = 0) (fits : EndFits hd b)
    (hold : heapLedger.holds s ({(q, hd.blocksize)} + A)) (h : readBlock d hd s b q = .ok s') :
    heapLedger.holds s' ({(q, hd.blocksize)} + A) ∧ (∀ a ∈ A, payload a s' = payload a s) ∧
      ∀ i < hd.blocksize, s'.mem (q + i) = blockBytes d hd b i := by
  have range := blockOffset_range hmod (blocksize_le hold) fits
  obtain ⟨⟨s1, bl⟩, hm, -⟩ := bind_ok.1 h
  have hun : unsigned (blocks (blockOffset hd b) hd.blocksize * 512) = 512 * (hd.blocksize / 512 + 1) := by
    have hle := blocksize_le hold
    rw [range.sectors, unsigned]
    omega
  rw [hun] at hm
  obtain ⟨t, e, hold', hkept, hbytes, -⟩ := @diskRead_spec d s s1 A hd.device _ _ _ _ _ _ _ _ range hold
    (le_refl q) (le_refl _) hm
  rw [readBlock, e] at h
  cases h
  refine ⟨hold', hkept, fun i hi => ?_⟩
  rw [hbytes i hi, Nat.zero_add]
  rfl

end Blocks

/-! ## One block after the other -/

/-- The blocks `done` are in the file's buffer, as far as it goes, and the chunks of `kept` are as in `s0`. -/
structure Filled (d : Drive) (hd : Hd) (buf base size : Nat) (s0 : Mm) (tables kept : Multiset (Nat × Nat))
    (done : List Nat) (c : Copying) : Prop where
  holds : heapLedger.holds c.mm ({(buf, hd.blocksize)} + ({(base, size)} + (tables + kept)))
  head : c.head = base + min size (hd.blocksize * done.length)
  left : c.size = size - min size (hd.blocksize * done.length)
  bytes : ∀ i < min size (hd.blocksize * done.length), c.mm.mem (base + i) = streamByte d hd done i
  same : ∀ a ∈ kept, payload a c.mm = payload a s0

section Fill

variable {d : Drive} {hd : Hd} {buf base size b : Nat} {s0 : Mm} {T K T' K' : Multiset (Nat × Nat)}
  {done l : List Nat} {c c' : Copying}

/-- What has been read before does not change. -/
lemma streamByte_append {i : Nat} (h : i < hd.blocksize * done.length) :
    streamByte d hd (done ++ l) i = streamByte d hd done i := by
  have hlt : i / hd.blocksize < done.length := Nat.div_lt_of_lt_mul h
  rw [streamByte, streamByte, List.getD_append _ _ _ _ hlt]

lemma streamByte_last {j : Nat} (h : j < hd.blocksize) :
    streamByte d hd (done ++ [b]) (hd.blocksize * done.length + j) = blockBytes d hd b j := by
  have hpos : 0 < hd.blocksize := Nat.zero_lt_of_lt h
  have hdiv : (hd.blocksize * done.length + j) / hd.blocksize = done.length := by
    rw [Nat.mul_add_div hpos, Nat.div_eq_of_lt h, Nat.add_zero]
  rw [streamByte, hdiv, Nat.mul_add_mod, Nat.mod_eq_of_lt h, List.getD_append_right _ _ _ _ (le_refl _),
    Nat.sub_self]
  rfl

/-- Which chunks are kept is a matter of the point of view. -/
lemma Filled.view (h : Filled d hd buf base size s0 T K done c) (hT : T + K = T' + K') :
    Filled d hd buf base size c.mm T' K' done c :=
  ⟨hT ▸ h.holds, h.head, h.left, h.bytes, fun _ _ => rfl⟩

/-- One more block. -/
lemma Filled.copyBlock (hmod : hd.blocksize % 512 = 0) (fits : EndFits hd b)
    (h : Filled d hd buf base size s0 T K done c) (e : copyBlock d hd buf b c = .ok c') :
    Filled d hd buf base size s0 T K (done ++ [b]) c' := by
  obtain ⟨holds, head, left, bytes, same⟩ := h
  obtain ⟨s1, hr, e⟩ := bind_ok.1 e
  cases e
  obtain ⟨hold1, hkept, hbuf⟩ := readBlock_spec hmod fits holds hr
  have hsucc : hd.blocksize * (done ++ [b]).length = hd.blocksize * done.length + hd.blocksize := by
    rw [List.length_append, List.length_singleton, Nat.mul_succ]
  have hn : (if c.size > hd.blocksize then hd.blocksize else c.size) = min c.size hd.blocksize := by
    split <;> omega
  rw [hn]
  generalize hm : hd.blocksize * done.length = filled at *
  have hbase : ∀ i < size, s1.mem (base + i) = c.mm.mem (base + i) := fun i hi =>
    payload_byte (hkept (base, size) (Multiset.mem_add.2 (.inl (Multiset.mem_singleton_self _)))) hi
  have hout : ∀ x, x < base ∨ base + size ≤ x →
      copyBytes s1.mem c.head buf (min c.size hd.blocksize) x = s1.mem x := fun x hx =>
    copyBytes_other (by omega)
  have hdis : ∀ i < min c.size hd.blocksize, ∀ j < min c.size hd.blocksize, c.head + i ≠ buf + j := by
    intro i hi j hj heq
    refine heapLedger_disjoint hold1 (i := j) (j := min size filled + i) (by dsimp only; omega)
      (by dsimp only; omega) ?_
    dsimp only
    omega
  have e2 : HeapEffect s1 {(base, size)}
      (s1.withHeap (copyBytes s1.mem c.head buf (min c.size hd.blocksize)) s1.kmallocUsed)
      {(base, size)} := edit_effect hout
  rw [add_left_comm] at hold1
  obtain ⟨hold2, hkept2⟩ := e2 _ hold1
  rw [add_left_comm] at hold2
  refine ⟨hold2, ?_, ?_, fun i hi => ?_, fun a ha => ?_⟩
  · rw [hsucc]
    dsimp only
    omega
  · rw [hsucc]
    dsimp only
    omega
  · rw [hsucc] at hi
    dsimp only
    rw [withHeap_mem]
    rcases Nat.lt_or_ge i (min size filled) with hlt | hge
    · rw [copyBytes_other (by omega), hbase i (by omega), bytes i hlt, streamByte_append (by omega)]
    · obtain ⟨j, rfl⟩ : ∃ j, i = filled + j := ⟨i - filled, by omega⟩
      have hj : j < min c.size hd.blocksize := by omega
      have haddr : base + (filled + j) = c.head + j := by omega
      rw [haddr, copyBytes_byte hdis hj, hbuf j (by omega), ← hm, streamByte_last (by omega)]
  · have ha1 : a ∈ ({(base, size)} : Multiset (Nat × Nat)) + (T + K) :=
      Multiset.mem_add.2 (.inr (Multiset.mem_add.2 (.inr ha)))
    have ha2 : a ∈ ({(buf, hd.blocksize)} : Multiset (Nat × Nat)) + (T + K) :=
      Multiset.mem_add.2 (.inr (Multiset.mem_add.2 (.inr ha)))
    exact (hkept2 a ha2).trans ((hkept a ha1).trans (same a ha))

/-- A loop over pointers, of which each iteration adds the blocks `g` to those that are done. -/
lemma eachBlock_run {pointer : Mm → Nat → Nat} {body : Nat → Copying → Except Stop Copying}
    {f : Nat → Nat} {g : Nat → List Nat} {P : List Nat → Copying → Prop} {n left i : Nat}
    (hpointer : ∀ done c i, P done c → i < n → pointer c.mm i = f i) (hn : i + left ≤ n)
    (hbody : ∀ b ∈ untilZero f left i, ∀ done c c', P done c → body b c = .ok c' → P (done ++ g b) c')
    (h : P done c) (e : eachBlock pointer body left i c = .ok c') :
    P (done ++ (untilZero f left i).flatMap g) c' := by
  induction left generalizing i done c with
  | zero =>
    cases e
    rwa [untilZero, List.flatMap_nil, List.append_nil]
  | succ left ih =>
    rw [eachBlock, hpointer done c i h (by omega)] at e
    rw [untilZero] at hbody ⊢
    by_cases hf : f i = 0
    · rw [if_pos hf] at e ⊢
      cases e
      rwa [List.flatMap_nil, List.append_nil]
    · rw [if_neg hf] at e hbody ⊢
      obtain ⟨c1, e1, e⟩ := bind_ok.1 e
      have h1 := hbody _ List.mem_cons_self done c c1 h e1
      rw [List.flatMap_cons, ← List.append_assoc]
      exact ih (by omega) (fun b hb => hbody b (List.mem_cons_of_mem _ hb)) h1 e

/-- A word at a place of a buffer that holds a block. -/
lemma load32_table {m m' : Mem} {p i : Nat} (h : ∀ j < hd.blocksize, m (p + j) = m' j)
    (hi : i < hd.blocksize / 4) : load32 m (p + 4 * i) = load32 m' (4 * i) := by
  have hbyte : ∀ k < 4, m (p + 4 * i + k) = m' (4 * i + k) := fun k hk => by
    rw [Nat.add_assoc]
    exact h _ (by omega)
  have h0 : m (p + 4 * i) = m' (4 * i) := hbyte 0 (by decide)
  unfold load32
  rw [h0, hbyte 1 (by decide), hbyte 2 (by decide), hbyte 3 (by decide)]

/-- The tree below a block: the induction is on the levels of pointers, and the buffer of each level is kept
while the levels below it are read. -/
lemma Filled.readTree {tables : List Nat} (hmod : hd.blocksize % 512 = 0)
    (fits : ∀ x ∈ treeBlocks d hd tables.length b, EndFits hd x)
    (h : Filled d hd buf base size s0 (tables.map fun p => (p, hd.blocksize)) K done c)
    (e : readTree d hd buf tables b c = .ok c') :
    Filled d hd buf base size s0 (tables.map fun p => (p, hd.blocksize)) K
      (done ++ dataBlocks d hd tables.length b) c' := by
  induction tables generalizing b s0 K done c c' with
  | nil => exact h.copyBlock hmod (fits b List.mem_cons_self) e
  | cons p tables ih =>
    obtain ⟨holds, head, left, bytes, same⟩ := h
    obtain ⟨s1, hr, e⟩ := bind_ok.1 e
    have hcons : ((((p :: tables).map fun p => (p, hd.blocksize)) : List (Nat × Nat)) :
        Multiset (Nat × Nat)) = {(p, hd.blocksize)} + (tables.map fun p => (p, hd.blocksize) : List _) := by
      rw [List.map_cons, ← Multiset.cons_coe, Multiset.singleton_add]
    rw [hcons] at holds ⊢
    have hmove : ({(buf, hd.blocksize)} : Multiset (Nat × Nat)) + ({(base, size)} + ({(p, hd.blocksize)} +
        (tables.map fun p => (p, hd.blocksize) : List _) + K)) = {(p, hd.blocksize)} +
        ({(buf, hd.blocksize)} + ({(base, size)} +
          ((tables.map fun p => (p, hd.blocksize) : List _) + K))) := by abel
    have hback : ({(p, hd.blocksize)} : Multiset (Nat × Nat)) + ({(buf, hd.blocksize)} + ({(base, size)} +
        ((tables.map fun p => (p, hd.blocksize) : List _) + K))) = {(buf, hd.blocksize)} +
        ({(base, size)} + ((tables.map fun p => (p, hd.blocksize) : List _) +
          ({(p, hd.blocksize)} + K))) := by abel
    rw [hmove] at holds
    obtain ⟨hold1, hkept, htable⟩ := readBlock_spec hmod (fits b List.mem_cons_self) holds hr
    have hbase : ∀ i < size, s1.mem (base + i) = c.mm.mem (base + i) := fun i hi =>
      payload_byte (hkept (base, size) (Multiset.mem_add.2 (.inr (Multiset.mem_add.2 (.inl
        (Multiset.mem_singleton_self _)))))) hi
    have start : Filled d hd buf base size s1 (tables.map fun p => (p, hd.blocksize))
        ({(p, hd.blocksize)} + K) done { c with mm := s1 } := by
      refine ⟨hback ▸ hold1, head, left, fun i hi => ?_, fun _ _ => rfl⟩
      dsimp only
      rw [hbase i (by omega), bytes i hi]
    have hpointer : ∀ done' c1 i, Filled d hd buf base size s1 (tables.map fun p => (p, hd.blocksize))
        ({(p, hd.blocksize)} + K) done' c1 → i < hd.blocksize / 4 →
        tablePointer p c1.mm i = load32 (blockBytes d hd b) (4 * i) := by
      intro done' c1 i h1 hi
      refine load32_table (fun j hj => ?_) hi
      rw [← htable j hj]
      exact payload_byte (h1.same (p, hd.blocksize) (Multiset.mem_add.2 (.inl
        (Multiset.mem_singleton_self _)))) hj
    have done1 := eachBlock_run (g := dataBlocks d hd tables.length) hpointer (Nat.zero_add _).le
      (fun q hq done' c1 c2 h1 e1 => ih (fun x hx => fits x (List.mem_cons_of_mem _
        (List.mem_flatMap.2 ⟨q, hq, hx⟩))) h1 e1) start e
    have hmove' : ({(p, hd.blocksize)} : Multiset (Nat × Nat)) +
        (tables.map fun p => (p, hd.blocksize) : List _) + K =
        (tables.map fun p => (p, hd.blocksize) : List _) + ({(p, hd.blocksize)} + K) := by abel
    refine ⟨?_, done1.head, done1.left, done1.bytes, fun a ha => ?_⟩
    · rw [hmove']
      exact done1.holds
    · rw [done1.same a (Multiset.mem_add.2 (.inr ha)), hkept a ?_, same a ha]
      exact Multiset.mem_add.2 (.inr (Multiset.mem_add.2 (.inr (Multiset.mem_add.2 (.inr ha)))))

/-- The tree of an indirect block. -/
lemma Filled.readIndirect {tables : List Nat} (hmod : hd.blocksize % 512 = 0)
    (fits : ∀ x ∈ (if b = 0 then [] else treeBlocks d hd tables.length b), EndFits hd x)
    (h : Filled d hd buf base size s0 (tables.map fun p => (p, hd.blocksize)) K done c)
    (e : readIndirect d hd buf tables b c = .ok c') :
    Filled d hd buf base size s0 (tables.map fun p => (p, hd.blocksize)) K
      (done ++ if b = 0 then [] else dataBlocks d hd tables.length b) c' := by
  rw [Creeks.readIndirect] at e
  by_cases hb : b = 0
  · rw [if_pos hb] at e ⊢
    cases e
    rwa [List.append_nil]
  · rw [if_neg hb] at e fits ⊢
    exact h.readTree hmod fits e

end Fill

section Buffers

variable {s t1 t2 t3 t4 : Mm} {A : Multiset (Nat × Nat)} {n buf p pp ppp : Nat}

/-- Freeing the four buffers keeps the other chunks. -/
lemma kfree_buffers (f1 : kfree s buf = .ok t1) (f2 : kfree t1 p = .ok t2) (f3 : kfree t2 pp = .ok t3)
    (f4 : kfree t3 ppp = .ok t4)
    (holds : heapLedger.holds s ({(buf, n)} + ({(p, n)} + ({(pp, n)} + ({(ppp, n)} + A))))) :
    heapLedger.holds t4 A ∧ ∀ a ∈ A, payload a t4 = payload a s := by
  obtain ⟨k1, v1⟩ := kfree_effect (n := n) f1 _ holds
  rw [zero_add] at k1
  obtain ⟨k2, v2⟩ := kfree_effect (n := n) f2 _ k1
  rw [zero_add] at k2
  obtain ⟨k3, v3⟩ := kfree_effect (n := n) f3 _ k2
  rw [zero_add] at k3
  obtain ⟨k4, v4⟩ := kfree_effect (n := n) f4 _ k3
  rw [zero_add] at k4
  refine ⟨k4, fun a h0 => ?_⟩
  have h3 := Multiset.mem_add.2 (.inr h0 : _ ∈ ({(ppp, n)} : Multiset (Nat × Nat)) ∨ _)
  have h2 := Multiset.mem_add.2 (.inr h3 : _ ∈ ({(pp, n)} : Multiset (Nat × Nat)) ∨ _)
  have h1 := Multiset.mem_add.2 (.inr h2 : _ ∈ ({(p, n)} : Multiset (Nat × Nat)) ∨ _)
  exact (((v4 _ h0).trans (v3 _ h3)).trans (v2 _ h2)).trans (v1 _ h1)

/-- The four buffers can be freed. -/
lemma kfree_buffers_total
    (holds : heapLedger.holds s ({(buf, n)} + ({(p, n)} + ({(pp, n)} + ({(ppp, n)} + A))))) :
    ∃ t1 t2 t3 t4, kfree s buf = .ok t1 ∧ kfree t1 p = .ok t2 ∧ kfree t2 pp = .ok t3 ∧ kfree t3 ppp = .ok t4 := by
  obtain ⟨t1, f1⟩ := kfree_total holds
  have k1 := (kfree_effect (n := n) f1 _ holds).1
  rw [zero_add] at k1
  obtain ⟨t2, f2⟩ := kfree_total k1
  have k2 := (kfree_effect (n := n) f2 _ k1).1
  rw [zero_add] at k2
  obtain ⟨t3, f3⟩ := kfree_total k2
  have k3 := (kfree_effect (n := n) f3 _ k2).1
  rw [zero_add] at k3
  obtain ⟨t4, f4⟩ := kfree_total k3
  exact ⟨t1, t2, t3, t4, f1, f2, f3, f4⟩

/-- `ext2_read_file` for a file with direct blocks only, from its steps. -/
lemma ext2ReadFile_direct {d : Drive} {hd : Hd} {inode : Inode} {s1 s2 s3 s4 s5 : Mm} {base : Nat} {c : Copying}
    (e1 : kmalloc s hd.blocksize = .ok (s1, buf)) (e2 : kmalloc s1 hd.blocksize = .ok (s2, p))
    (e3 : kmalloc s2 hd.blocksize = .ok (s3, pp)) (e4 : kmalloc s3 hd.blocksize = .ok (s4, ppp))
    (e5 : kmalloc s4 inode.iSize = .ok (s5, base))
    (direct : eachBlock (fun _ => inode.iBlock) (copyBlock d hd buf) 12 0 ⟨s5, base, inode.iSize⟩ = .ok c)
    (h12 : inode.iBlock 12 = 0) (h13 : inode.iBlock 13 = 0) (h14 : inode.iBlock 14 = 0)
    (f1 : kfree c.mm buf = .ok t1) (f2 : kfree t1 p = .ok t2) (f3 : kfree t2 pp = .ok t3)
    (f4 : kfree t3 ppp = .ok t4) : Ext2.ext2ReadFile d hd s inode = .ok (t4, base) := by
  have htree : ∀ tables, readIndirect d hd buf tables 0 c = .ok c := fun tables => if_pos rfl
  rw [Ext2.ext2ReadFile, e1, ok_bind]
  dsimp only
  rw [e2, ok_bind]
  dsimp only
  rw [e3, ok_bind]
  dsimp only
  rw [e4, ok_bind]
  dsimp only
  rw [e5, ok_bind]
  dsimp only
  rw [direct, ok_bind, h12, htree, ok_bind, h13, htree, ok_bind, h14, htree, ok_bind, f1, ok_bind, f2, ok_bind,
    f3, ok_bind, f4, ok_bind, pure_eq_ok]

end Buffers

/-- The chunk `ext2_read_file` returns, with its bytes as far as the blocks of the file go. The other chunks
are kept. -/
lemma ext2ReadFile_bytes {d : Drive} {hd : Hd} {inode : Inode} {s s' : Mm} {A : Multiset (Nat × Nat)}
    {base : Nat} (hsize : ∃ k, hd.blocksize = wrap (1024 <<< k)) (served : Served inode.iSize)
    (fits : ∀ b ∈ inodeBlocks (treeBlocks d hd) inode, EndFits hd b) (hold : heapLedger.holds s A)
    (h : Ext2.ext2ReadFile d hd s inode = .ok (s', base)) :
    heapLedger.holds s' ({(base, inode.iSize)} + A) ∧ (∀ a ∈ A, payload a s' = payload a s) ∧
      ∀ i < min inode.iSize (hd.blocksize * (fileBlocks d hd inode).length),
        s'.mem (base + i) = streamByte d hd (fileBlocks d hd inode) i := by
  obtain ⟨hmod, hle⟩ := blocksize_cases hsize
  have hbs : Served hd.blocksize := by
    unfold Served
    omega
  unfold inodeBlocks at fits
  rw [List.forall_mem_append, List.forall_mem_append, List.forall_mem_append] at fits
  obtain ⟨⟨⟨fits0, fits1⟩, fits2⟩, fits3⟩ := fits
  obtain ⟨⟨s1, buf⟩, e1, h⟩ := bind_ok.1 h
  obtain ⟨⟨s2, p⟩, e2, h⟩ := bind_ok.1 h
  obtain ⟨⟨s3, pp⟩, e3, h⟩ := bind_ok.1 h
  obtain ⟨⟨s4, ppp⟩, e4, h⟩ := bind_ok.1 h
  obtain ⟨⟨s5, _⟩, e5, h⟩ := bind_ok.1 h
  obtain ⟨c1, l1, h⟩ := bind_ok.1 h
  obtain ⟨c2, l2, h⟩ := bind_ok.1 h
  obtain ⟨c3, l3, h⟩ := bind_ok.1 h
  obtain ⟨c4, l4, h⟩ := bind_ok.1 h
  obtain ⟨t1, f1, h⟩ := bind_ok.1 h
  obtain ⟨t2, f2, h⟩ := bind_ok.1 h
  obtain ⟨t3, f3, h⟩ := bind_ok.1 h
  obtain ⟨t4, f4, h⟩ := bind_ok.1 h
  cases h
  -- five chunks are allocated
  obtain ⟨hold1, v1⟩ := kmalloc_effect hbs e1 A (by rwa [zero_add])
  obtain ⟨hold2, v2⟩ := kmalloc_effect hbs e2 _ (by rwa [zero_add])
  obtain ⟨hold3, v3⟩ := kmalloc_effect hbs e3 _ (by rwa [zero_add])
  obtain ⟨hold4, v4⟩ := kmalloc_effect hbs e4 _ (by rwa [zero_add])
  obtain ⟨hold5, v5⟩ := kmalloc_effect served e5 _ (by rwa [zero_add])
  have start : Filled d hd buf base inode.iSize s5 0 ({(p, hd.blocksize)} + ({(pp, hd.blocksize)} +
      ({(ppp, hd.blocksize)} + A))) [] ⟨s5, base, inode.iSize⟩ := by
    have hzero : min inode.iSize (hd.blocksize * ([] : List Nat).length) = 0 := by
      rw [List.length_nil, Nat.mul_zero, Nat.min_zero]
    refine ⟨?_, by rw [hzero, Nat.add_zero], by rw [hzero, Nat.sub_zero], fun i hi => ?_, fun _ _ => rfl⟩
    · convert hold5 using 1
      abel
    · rw [hzero] at hi
      cases hi
  -- the four parts of the file
  have part0 := @eachBlock_run _ _ _ _ _ inode.iBlock (dataBlocks d hd 0)
    (Filled d hd buf base inode.iSize s5 0 ({(p, hd.blocksize)} + ({(pp, hd.blocksize)} +
      ({(ppp, hd.blocksize)} + A)))) 12 12 0 (fun _ _ _ _ _ => rfl) (le_refl 12) (fun b hb done c c' h e =>
      h.copyBlock hmod (fits0 b (List.mem_flatMap.2 ⟨b, hb, List.mem_cons_self⟩)) e) start l1
  have view1 := @Filled.view _ _ _ _ _ _ _ _ ([p].map fun p => (p, hd.blocksize) : List _)
    ({(pp, hd.blocksize)} + ({(ppp, hd.blocksize)} + A)) _ _ part0 (by
      rw [List.map_singleton, Multiset.coe_singleton, zero_add])
  have part1 := view1.readIndirect hmod fits1 l2
  have view2 := @Filled.view _ _ _ _ _ _ _ _ ([p, pp].map fun p => (p, hd.blocksize) : List _)
    ({(ppp, hd.blocksize)} + A) _ _ part1 (by
      simp only [List.map_cons, List.map_nil, ← Multiset.cons_coe, ← Multiset.singleton_add,
        Multiset.coe_nil]
      abel)
  have part2 := view2.readIndirect hmod fits2 l3
  have view3 := @Filled.view _ _ _ _ _ _ _ _ ([p, pp, ppp].map fun p => (p, hd.blocksize) : List _) A _ _
    part2 (by
      simp only [List.map_cons, List.map_nil, ← Multiset.cons_coe, ← Multiset.singleton_add,
        Multiset.coe_nil]
      abel)
  have part3 := view3.readIndirect hmod fits3 l4
  rw [List.nil_append] at part3
  change Filled d hd buf base inode.iSize _ _ _ (fileBlocks d hd inode) c4 at part3
  obtain ⟨holds, -, -, bytes, same3⟩ := part3
  -- the buffers are freed
  have holds' : heapLedger.holds c4.mm ({(buf, hd.blocksize)} + ({(p, hd.blocksize)} +
      ({(pp, hd.blocksize)} + ({(ppp, hd.blocksize)} + ({(base, inode.iSize)} + A))))) := by
    convert holds using 1
    simp only [List.map_cons, List.map_nil, ← Multiset.cons_coe, ← Multiset.singleton_add,
      Multiset.coe_nil]
    abel
  obtain ⟨freed, kept⟩ := kfree_buffers f1 f2 f3 f4 holds'
  have hother : ∀ a ∈ A, payload a s' = payload a s := fun a ha => by
    have right : ∀ {B : Multiset (Nat × Nat)} {x}, a ∈ B → a ∈ ({x} : Multiset (Nat × Nat)) + B :=
      fun h => Multiset.mem_add.2 (.inr h)
    have hloops : payload a c4.mm = payload a s5 :=
      (same3 a ha).trans ((part2.same a (right ha)).trans ((part1.same a (right (right ha))).trans
        (part0.same a (right (right (right ha))))))
    rw [kept a (right ha), hloops]
    exact (v5 a (right (right (right (right ha))))).trans ((v4 a (right (right (right ha)))).trans
      ((v3 a (right (right ha))).trans ((v2 a (right ha)).trans (v1 a ha))))
  have hkeep : payload (base, inode.iSize) s' = payload (base, inode.iSize) c4.mm :=
    kept _ (Multiset.mem_add.2 (.inl (Multiset.mem_singleton_self _)))
  refine ⟨freed, hother, fun i hi => ?_⟩
  rw [payload_byte hkeep (lt_of_lt_of_le hi (Nat.min_le_left _ _)), bytes i hi]

/-- In two runs of `ext2_read_file` on well-formed heaps the bytes returned are the same, when the blocks that
are read end below byte 2^31 and the data blocks reach to the end of the file. -/
theorem no_stale_content {d : Drive} {hd : Hd} {inode : Inode}
    (hsize : ∃ k, hd.blocksize = wrap (1024 <<< k)) (covered : Covered d hd inode) :
    NoStaleContent d hd inode := by
  obtain ⟨served, fits, enough⟩ := covered
  intro s mem used A B s' t' p q hA hB hs ht i hi
  have hlt : i < min inode.iSize (hd.blocksize * (fileBlocks d hd inode).length) :=
    lt_min hi (lt_of_lt_of_le hi enough)
  rw [(ext2ReadFile_bytes hsize served fits hA hs).2.2 i hlt,
    (ext2ReadFile_bytes hsize served fits hB ht).2.2 i hlt]

/-- A file of 100 bytes in block 1 of a small partition. -/
def smallFile : Inode := ⟨100, fun i => if i = 0 then 1 else 0⟩

/-- Its content does not depend on the kernel heap. -/
theorem no_stale_content_small : NoStaleContent ⟨64, fun _ => 7, fun _ _ => 0⟩ ⟨0, 0, 1024⟩ smallFile :=
  no_stale_content ⟨0, (wrap_of_lt (by decide)).symm⟩ ⟨by decide, by
    have hblocks : inodeBlocks (treeBlocks ⟨64, fun _ => 7, fun _ _ => 0⟩ ⟨0, 0, 1024⟩) smallFile = [1] := rfl
    rw [hblocks]
    intro b hb
    cases List.mem_singleton.1 hb
    rw [EndFits, blockOffset_eq ⟨0, by decide, rfl⟩]
    decide, by
    have hblocks : fileBlocks ⟨64, fun _ => 7, fun _ _ => 0⟩ ⟨0, 0, 1024⟩ smallFile = [1] := rfl
    rw [hblocks]
    decide⟩

/-! ## A file with a hole -/

section Hole

variable {s s' : Mm} {v : UInt8} {n : Nat}

/-- A heap of at most `n` pages, with `v` in the memory above it. -/
structure FilledAbove (s : Mm) (v : UInt8) (n : Nat) : Prop where
  rep : ∃ chunks live, HeapRep s chunks live
  map : KernelMap s.ram s.dir
  small : s.kernHeap ≤ KERN_HEAP + n * PAGESIZE
  above : ∀ x, s.kernHeap ≤ x → s.mem x = v

/-- A small request keeps the memory above the heap. -/
lemma FilledAbove.kmalloc (h : FilledAbove s v n) (hn : n < 1000) :
    ∃ s' p, Creeks.kmalloc s 1024 = .ok (s', p) ∧ FilledAbove s' v (n + 1) := by
  obtain ⟨⟨chunks, live, rep⟩, map, small, above⟩ := h
  obtain ⟨h16, hroom, -⟩ := @realSize_spec 1024 (by decide)
  have hgrow : growPages 1024 = 1 := growPages_small (by decide)
  have hown : Owned s [] := ⟨List.nodup_nil, chunks, live, rep, List.nil_subset _⟩
  have hmap : ∀ s' p, Creeks.kmalloc s 1024 = .ok (s', p) → KernelMap s'.ram s'.dir :=
    fun s' p e => (hown.kmalloc map (by decide) e).2.2.2
  simp only [PAGESIZE, KERN_HEAP] at small
  rcases @kmalloc_cases _ _ _ 1024 rep map (by decide) with
    ⟨l, c, r, rfl, hfree, hfit, e⟩ | ⟨-, e⟩ | ⟨hlim, -⟩
  · obtain ⟨⟨chunks', rep'⟩, hframe⟩ := @HeapRep.take s l r live c 1024 rep (realSize 1024) hfree hfit h16 hroom
      (taken s c 1024) (withHeap_mem _ _ _) (withHeap_kernHeap _ _ _)
    obtain ⟨-, -, hle, -⟩ := rep.bounds (c := c) (by simp)
    refine ⟨_, _, e, ⟨_, _, rep'⟩, hmap _ _ e, ?_, fun x hx => ?_⟩
    · rw [taken, withHeap_kernHeap]
      simp only [PAGESIZE, KERN_HEAP]
      exact le_trans small (Nat.add_le_add_left (Nat.mul_le_mul_right _ (Nat.le_succ n)) _)
    · rw [taken, withHeap_kernHeap] at hx
      rw [hframe x (.inr (by omega)), above x hx]
  · rw [hgrow] at e
    have hhi : s.kernHeap + 1 * PAGESIZE ≤ KERN_HEAP_LIM := by
      simp only [PAGESIZE, KERN_HEAP_LIM]
      omega
    obtain ⟨rep1, hfree, hsize⟩ := rep.grow (n := 1) (by decide) hhi
    have hfit : realSize 1024 ≤ hdrSize (grown s 1).mem s.kernHeap := by
      rw [hsize, realSize, wrap_of_lt (by decide)]
      decide
    obtain ⟨⟨chunks', rep'⟩, hframe⟩ := @HeapRep.take (grown s 1) chunks [] live s.kernHeap 1024 rep1
      (realSize 1024) hfree hfit h16 hroom (taken (grown s 1) s.kernHeap 1024) (withHeap_mem _ _ _)
      (withHeap_kernHeap _ _ _)
    have hk : (taken (grown s 1) s.kernHeap 1024).kernHeap = s.kernHeap + 4096 := by
      rw [taken, withHeap_kernHeap, grown_kernHeap]
      simp only [PAGESIZE, Nat.one_mul]
    refine ⟨_, _, e, ⟨_, _, rep'⟩, hmap _ _ e, ?_, fun x hx => ?_⟩
    · rw [hk]
      simp only [PAGESIZE, KERN_HEAP]
      omega
    · rw [hk] at hx
      have hheader : x < s.kernHeap ∨ s.kernHeap + 4 ≤ x := .inr (by omega)
      rw [hframe x (.inr (by rw [hsize]; simp only [PAGESIZE]; omega)), grown, withHeap_mem,
        setUsed_other hheader, setSize_other hheader, above x (by omega)]
  · rw [hgrow] at hlim
    simp only [PAGESIZE, KERN_HEAP_LIM] at hlim
    omega

/-- A request that is larger than the heap returns what was in the memory above it. -/
lemma FilledAbove.kmalloc_large (h : FilledAbove s v n) (hn : n ≤ 7) :
    ∃ s' p, Creeks.kmalloc s 32768 = .ok (s', p) ∧ ∀ i < 32768, s'.mem (p + i) = v := by
  obtain ⟨⟨chunks, live, rep⟩, map, small, above⟩ := h
  simp only [PAGESIZE, KERN_HEAP] at small
  have hreal : realSize 32768 = 32772 := by
    rw [realSize, wrap_of_lt (by decide)]
    rfl
  have hgrow : growPages 32768 = 9 := by
    rw [growPages, hreal]
    rfl
  rcases @kmalloc_cases _ _ _ 32768 rep map (by decide) with
    ⟨l, c, r, rfl, hfree, hfit, e⟩ | ⟨-, e⟩ | ⟨hlim, -⟩
  · obtain ⟨hlo, -, hle, -⟩ := rep.bounds (c := c) (by simp)
    rw [hreal] at hfit
    omega
  · rw [hgrow] at e
    have hhi : s.kernHeap + 9 * PAGESIZE ≤ KERN_HEAP_LIM := by
      simp only [PAGESIZE, KERN_HEAP_LIM]
      omega
    obtain ⟨rep1, hfree, hsize⟩ := rep.grow (n := 9) (by decide) hhi
    simp only [PAGESIZE] at hsize
    refine ⟨_, _, e, fun i hi => ?_⟩
    obtain ⟨-, -, -, -, hframe⟩ := @takeChunk_split (grown s 9).mem s.kernHeap 32772
      (by rw [hsize]; omega) (by decide) (by rw [hsize]; decide)
    have hheader : s.kernHeap + 4 + i < s.kernHeap ∨ s.kernHeap + 4 ≤ s.kernHeap + 4 + i := .inr (by omega)
    rw [taken, withHeap_mem, hreal, hframe _ hheader (.inl (by omega)), grown, withHeap_mem,
      setUsed_other hheader, setSize_other hheader, above _ (by omega)]
  · rw [hgrow] at hlim
    simp only [PAGESIZE, KERN_HEAP_LIM] at hlim
    omega

/-- The first kernel heap, in a memory of bytes `v`. -/
def dirtyHeap (v : UInt8) : Mm := grown (initPaging (blankMm.withHeap (fun _ => v) 0) 16384) 1

lemma dirtyHeap_above (v : UInt8) : FilledAbove (dirtyHeap v) v 1 := by
  have hk := initPaging_kernHeap (blankMm.withHeap (fun _ => v) 0) 16384
  refine ⟨⟨_, _, heapRep_init hk⟩, initPaging_grown_map _ _, ?_, fun x hx => ?_⟩
  · rw [dirtyHeap, grown_kernHeap, hk]
  · rw [dirtyHeap, grown_kernHeap, hk] at hx
    simp only [KERN_HEAP, PAGESIZE] at hx
    have hheader : x < KERN_HEAP ∨ KERN_HEAP + 4 ≤ x := by
      simp only [KERN_HEAP]
      omega
    rw [dirtyHeap, grown, withHeap_mem, hk, setUsed_other hheader, setSize_other hheader]
    rfl

lemma dirtyHeap_holds (v : UInt8) : heapLedger.holds (dirtyHeap v) 0 := by
  refine ⟨_, _, heapRep_init (initPaging_kernHeap (blankMm.withHeap (fun _ => v) 0) 16384), ?_⟩
  obtain ⟨_, _, _, e, -⟩ := growStep_iterate (initPaging (blankMm.withHeap (fun _ => v) 0) 16384) 1
  have hvm : (dirtyHeap v).kernFreeVm = [] := by
    rw [dirtyHeap, grown, withHeap_kernFreeVm, e]
    rfl
  change ((([] : List (Nat × Nat)) : Multiset (Nat × Nat))) = chunksOf (dirtyHeap v).kernFreeVm + 0
  rw [hvm]
  rfl

/-- The two heaps differ only in their contents. -/
lemma dirtyHeap_withHeap (v w : UInt8) :
    dirtyHeap w = (dirtyHeap v).withHeap (dirtyHeap w).mem (dirtyHeap w).kmallocUsed := by
  have hform : ∀ x, ∃ mem used, dirtyHeap x = (growStep (initPaging blankMm 16384)).withHeap mem used := by
    intro x
    have hboot : initPaging (blankMm.withHeap (fun _ => x) 0) 16384 =
        (initPaging blankMm 16384).withHeap (fun _ => x) 0 := rfl
    have hstep : growStep^[1] (initPaging (blankMm.withHeap (fun _ => x) 0) 16384) =
        (growStep (initPaging blankMm 16384)).withHeap (fun _ => x) 0 := by
      rw [Function.iterate_one, hboot, growStep_withHeap]
    rw [dirtyHeap, grown, hstep, withHeap_withHeap]
    exact ⟨_, _, rfl⟩
  obtain ⟨mem, used, ev⟩ := hform v
  obtain ⟨mem', used', ew⟩ := hform w
  rw [ew, ev, withHeap_withHeap, withHeap_mem, withHeap_kmallocUsed]

/-- A file of 32768 bytes without blocks. -/
def hole : Inode := ⟨32768, fun _ => 0⟩

/-- It is returned with whatever was in the memory above the heap. -/
lemma hole_content (d : Drive) (v : UInt8) : ∃ s' p,
    Ext2.ext2ReadFile d ⟨0, 0, 1024⟩ (dirtyHeap v) hole = .ok (s', p) ∧ ∀ i < 32768, s'.mem (p + i) = v := by
  obtain ⟨s1, buf, e1, h1⟩ := (dirtyHeap_above v).kmalloc (by decide)
  obtain ⟨s2, p, e2, h2⟩ := h1.kmalloc (by decide)
  obtain ⟨s3, pp, e3, h3⟩ := h2.kmalloc (by decide)
  obtain ⟨s4, ppp, e4, h4⟩ := h3.kmalloc (by decide)
  obtain ⟨s5, base, e5, hbytes⟩ := h4.kmalloc_large (by decide)
  have hold1 := (kmalloc_effect (by decide) e1 0 (dirtyHeap_holds v)).1
  have hold2 := (kmalloc_effect (by decide) e2 _ (by rwa [zero_add])).1
  have hold3 := (kmalloc_effect (by decide) e3 _ (by rwa [zero_add])).1
  have hold4 := (kmalloc_effect (by decide) e4 _ (by rwa [zero_add])).1
  have hold5 := (kmalloc_effect (by decide) e5 _ (by rwa [zero_add])).1
  have holds : heapLedger.holds s5 ({(buf, 1024)} + ({(p, 1024)} + ({(pp, 1024)} + ({(ppp, 1024)} +
      {(base, 32768)})))) := by
    convert hold5 using 1
    rw [add_zero]
    abel
  obtain ⟨t1, t2, t3, t4, f1, f2, f3, f4⟩ := kfree_buffers_total holds
  have hloop : eachBlock (fun _ => hole.iBlock) (copyBlock d ⟨0, 0, 1024⟩ buf) 12 0 ⟨s5, base, hole.iSize⟩ =
      .ok ⟨s5, base, hole.iSize⟩ := if_pos rfl
  have run := @ext2ReadFile_direct _ _ _ _ _ _ _ _ _ d ⟨0, 0, 1024⟩ hole _ _ _ _ _ _ _ e1 e2 e3 e4 e5 hloop
    rfl rfl rfl f1 f2 f3 f4
  refine ⟨t4, base, run, fun i hi => ?_⟩
  have hkeep := (kfree_buffers f1 f2 f3 f4 holds).2 _ (Multiset.mem_singleton_self (base, 32768))
  rw [payload_byte hkeep hi, hbytes i hi]

/-- Two runs on the file without blocks return different bytes. -/
theorem hole_shows_memory : ¬ NoStaleContent ⟨64, fun _ => 7, fun _ _ => 0⟩ ⟨0, 0, 1024⟩ hole := by
  intro h
  obtain ⟨s', p, hs, hs0⟩ := hole_content ⟨64, fun _ => 7, fun _ _ => 0⟩ 0
  obtain ⟨t', q, ht, ht1⟩ := hole_content ⟨64, fun _ => 7, fun _ _ => 0⟩ 1
  have hholds := dirtyHeap_holds 1
  rw [dirtyHeap_withHeap 0 1] at hholds ht
  have heq := h _ _ _ _ _ _ _ _ _ (dirtyHeap_holds 0) hholds hs ht 0 (by decide)
  rw [hs0 0 (by decide), ht1 0 (by decide)] at heq
  exact absurd heq (by decide)

end Hole

end Creeks
