import Creeks.Drive.Port
import Creeks.Mm.ListEnds

/-!
# Reading and writing bytes of a disk

`disk_read` and `disk_write` of `disk.c`. Both take a range of bytes to a range of sectors whose last one
is the sector of the byte behind the range. `disk_read` goes through a buffer in the kernel heap,
`disk_write` sends the caller's buffer from its beginning on, whatever the offset in the first sector.

`disk_read_exact` says which ranges `disk_read` handles, `disk_write_exact` that `disk_write` handles none
that it transfers.
-/

namespace Creeks
open Lib

/-- The first sector of a range: `offset / 512`. -/
def blBegin (offset : Int) : Int := offset.tdiv 512

/-- The sector behind a range: `(offset + count) / 512`. -/
def blEnd (offset count : Int) : Int := (int32 (offset + count)).tdiv 512

/-- The number of sectors of a range: `bl_end - bl_begin + 1`. -/
def blocks (offset count : Int) : Int := int32 (blEnd offset count - blBegin offset + 1)

/-- `memcpy` inside the kernel heap. -/
def copyBytes (m : Mem) (dst src : Nat) : Nat → Mem
  | 0 => m
  | n + 1 => copyBytes (Function.update m dst (m src)) (dst + 1) (src + 1) n

/-- A value of type `unsigned long`. -/
def unsigned (n : Int) : Nat := (n % 4294967296).toNat

/-- `disk_read()` -/
def diskRead (d : Drive) (drive : Nat) (s : Mm) (offset : Int) (buf : Nat) (count : Int) :
    Except Stop Mm := do
  let r ← kmalloc s (unsigned (blocks offset count * 512))
  let mem := blRead d drive (blBegin offset) (blocks offset count) r.1.mem r.2
  let mem := copyBytes mem buf (unsigned (r.2 + offset.tmod 512)) (unsigned count)
  kfree (r.1.withHeap mem r.1.kmallocUsed) r.2

/-- `disk_write()`, with the bytes of memory it finds at `buf`. -/
def diskWrite (d : Drive) (drive : Nat) (offset : Int) (m : Mem) (buf : Nat) (count : Int) : Drive :=
  blWrite d drive (blBegin offset) (blocks offset count) m buf

/-- The addresses `disk_write` reads. -/
def diskWriteReads (offset : Int) (buf : Nat) (count : Int) : List Nat :=
  sentReads buf (wordCount (blocks offset count))

/-- The command `disk_read` and `disk_write` give the drive. -/
def rangeCommand (drive : Nat) (offset count : Int) : Command :=
  blCommon drive (blBegin offset) (blocks offset count)

/-- Byte `j` of the words the drive returns for a command. -/
def Drive.byte (d : Drive) (c : Command) (j : Nat) : UInt8 :=
  if j % 2 = 0 then lowByte (d.word c (j / 2)) else highByte (d.word c (j / 2))

section Bytes

variable {d : Drive} {c : Command} {m : Mem} {dst src n i j x : Nat}

/-- The bytes of the sectors of a command. -/
lemma Drive.byte_eq (hj : j < 512 * c.sectors) (hd : c.lba + j / 512 < d.sectors) :
    d.byte c j = d.bytes (512 * c.lba + j) := by
  have hword : d.word c (j / 2) =
      wordOf (d.bytes (512 * c.lba + 2 * (j / 2))) (d.bytes (512 * c.lba + 2 * (j / 2) + 1)) := by
    rw [Drive.word, if_pos ⟨by omega, by rwa [Nat.div_div_eq_div_mul]⟩]
  rw [Drive.byte, hword, lowByte_wordOf, highByte_wordOf]
  split
  case isTrue h => rw [show 2 * (j / 2) = j by omega]
  case isFalse h => rw [show 512 * c.lba + 2 * (j / 2) + 1 = 512 * c.lba + j by omega]

/-- What `bl_read` stores in its buffer. -/
lemma blRead_byte {drive : Nat} {numblock count : Int} {buf : Nat} :
    blRead d drive numblock count m buf x =
      if buf ≤ x ∧ x < buf + 2 * wordCount count then d.byte (blCommon drive numblock count) (x - buf)
      else m x :=
  readWords_byte _ _ _ _ _

/-- A copy leaves the bytes outside its range alone. -/
lemma copyBytes_other (h : x < dst ∨ dst + n ≤ x) : copyBytes m dst src n x = m x := by
  induction n generalizing m dst src with
  | zero => rfl
  | succ n ih =>
    rw [copyBytes, ih (by omega), Function.update_of_ne (by omega)]

/-- A copy between two ranges that do not meet. -/
lemma copyBytes_byte (h : ∀ i < n, ∀ j < n, dst + i ≠ src + j) (hi : i < n) :
    copyBytes m dst src n (dst + i) = m (src + i) := by
  induction n generalizing m dst src i with
  | zero => cases hi
  | succ n ih =>
    rw [copyBytes]
    cases i with
    | zero =>
      rw [copyBytes_other (by omega), Nat.add_zero, Nat.add_zero, Function.update_self]
    | succ i =>
      rw [show dst + (i + 1) = dst + 1 + i by omega, ih (fun a ha b hb e => ?_) (by omega),
        Function.update_of_ne, show src + 1 + i = src + (i + 1) by omega]
      · intro e
        exact h 0 (by omega) (i + 1) hi (by omega)
      · exact h (a + 1) (by omega) (b + 1) (by omega) (by omega)

/-- The first sector of a command. -/
lemma lba_blCommon {drive numblock : Nat} {count : Int} (h : numblock < 268435456) :
    (blCommon drive numblock count).lba = numblock := by
  have hdev : (0xE0 ||| drive <<< 4 ||| ((numblock : Int) / 16777216 % 16).toNat) % 256 % 16 =
      numblock / 16777216 := by
    rw [Nat.mod_mod_of_dvd _ (by decide), show (16 : Nat) = 2 ^ 4 from rfl, Nat.or_mod_two_pow,
      Nat.or_mod_two_pow]
    have h1 : drive <<< 4 % 2 ^ 4 = 0 := by
      rw [Nat.shiftLeft_eq]
      exact Nat.mul_mod_left _ _
    rw [h1]
    norm_num
    omega
  unfold Command.lba blCommon
  dsimp only
  rw [hdev]
  omega

/-- The number of sectors of a command, for a count the register can express. -/
lemma sectors_blCommon {drive count : Nat} {numblock : Int} :
    (blCommon drive numblock count).sectors = count ↔ 1 ≤ count ∧ count ≤ 256 := by
  unfold Command.sectors blCommon
  dsimp only
  split <;> omega

end Bytes

section Read

variable {d : Drive} {s s' s1 : Mm} {A : Multiset (Nat × Nat)} {drive buf p n bl b skip count : Nat}
  {offset : Int}

/-- Two chunks that are out do not meet. -/
lemma heapLedger_disjoint {a a' : Nat × Nat} {i j : Nat} (h : heapLedger.holds s ({a} + ({a'} + A)))
    (hi : i < a.2) (hj : j < a'.2) : a.1 + i ≠ a'.1 + j := by
  obtain ⟨chunks, live, rep, e⟩ := h
  have hmem : ∀ x, x ∈ ({a} : Multiset (Nat × Nat)) + ({a'} + A) → x ∈ live := fun x hx => by
    rw [← Multiset.mem_coe, e]
    exact Multiset.mem_add.2 (.inr hx)
  have hnd : ((live : Multiset (Nat × Nat)).map Prod.fst).Nodup := rep.nodup
  rw [e, add_left_comm, Multiset.map_add, Multiset.map_singleton, Multiset.singleton_add,
    Multiset.nodup_cons] at hnd
  refine rep.blocks.payload_disjoint (hmem a ?_) (hmem a' ?_) (fun heq => hnd.1 ?_) hi hj
  · exact Multiset.mem_add.2 (.inl (Multiset.mem_singleton_self _))
  · exact Multiset.mem_add.2 (.inr (Multiset.mem_add.2 (.inl (Multiset.mem_singleton_self _))))
  · rw [heq]
    refine Multiset.mem_map_of_mem _ (Multiset.mem_add.2 (.inr (Multiset.mem_add.2 (.inl ?_))))
    exact Multiset.mem_singleton_self _

/-- A chunk that is out lies in the kernel heap. -/
lemma heapLedger_bounds {a : Nat × Nat} (h : heapLedger.holds s ({a} + A)) :
    a.1 + a.2 ≤ 0x40000000 := by
  obtain ⟨chunks, live, rep, e⟩ := h
  have ha : a ∈ live := by
    rw [← Multiset.mem_coe, e]
    exact Multiset.mem_add.2 (.inr (Multiset.mem_add.2 (.inl (Multiset.mem_singleton_self _))))
  obtain ⟨c, hc, hp, hroom⟩ := rep.room a.1 a.2 ha
  obtain ⟨-, -, hle, hlim⟩ := rep.bounds hc
  omega

/-- A chunk that is out can be freed. -/
lemma kfree_total (h : heapLedger.holds s ({(p, n)} + A)) : ∃ s', kfree s p = .ok s' := by
  obtain ⟨chunks, live, rep, e⟩ := h
  have hp : (p, n) ∈ live := by
    rw [← Multiset.mem_coe, e]
    exact Multiset.mem_add.2 (.inr (Multiset.mem_add.2 (.inl (Multiset.mem_singleton_self _))))
  obtain ⟨mem, used, hok, -⟩ := kfree_ok rep hp
  exact ⟨_, hok⟩

/-- A call of `disk_read` for `b` sectors, in terms of naturals. -/
structure RangeOk (offset : Int) (count b skip : Nat) : Prop where
  sectors : blocks offset count = b
  small : b < 4194304
  first : offset.tmod 512 = skip
  inside : skip + count ≤ 512 * b

/-- `disk_read` stores bytes of the sectors it has asked for, and its buffer is freed. It returns when
there is memory for the buffer. -/
lemma diskRead_spec (range : RangeOk offset count b skip)
    (hold : heapLedger.holds s ({(p, n)} + A)) (hlo : p ≤ buf) (hhi : buf + count ≤ p + n)
    (hm : kmalloc s (512 * b) = .ok (s1, bl)) :
    ∃ s', diskRead d drive s offset buf count = .ok s' ∧ heapLedger.holds s' ({(p, n)} + A) ∧
      (∀ a ∈ A, payload a s' = payload a s) ∧
      (∀ i < count, s'.mem (buf + i) = d.byte (rangeCommand drive offset count) (skip + i)) ∧
      ∀ x, p ≤ x → x < p + n → x < buf ∨ buf + count ≤ x → s'.mem x = s.mem x := by
  obtain ⟨hsec, hsmall, hskip, hin⟩ := range
  have hsize : Served (512 * b) := by
    unfold Served
    omega
  have hun : unsigned (blocks offset count * 512) = 512 * b := by
    rw [unsigned, hsec]
    omega
  have hcount : count < 4294967296 := by omega
  have hwords : wordCount (blocks offset count) = 256 * b := by
    rw [hsec]
    exact wordCount_of_lt (by omega)
  rw [← zero_add ({(p, n)} + A)] at hold
  obtain ⟨h1, v1⟩ := kmalloc_effect hsize hm _ hold
  have hbl := heapLedger_bounds h1
  have hsrc : unsigned (bl + offset.tmod 512) = bl + skip := by
    rw [unsigned, hskip]
    dsimp only at hbl
    omega
  have hcnt : unsigned count = count := by
    rw [unsigned]
    omega
  -- the words of the drive go to the buffer, and from there to the caller
  obtain ⟨mem2, hmem2⟩ : ∃ mem, mem = blRead d drive (blBegin offset) (blocks offset count) s1.mem bl :=
    ⟨_, rfl⟩
  obtain ⟨mem3, hmem3⟩ : ∃ mem, mem = copyBytes mem2 buf (bl + skip) count := ⟨_, rfl⟩
  have hread : ∀ x, mem2 x = if bl ≤ x ∧ x < bl + 512 * b then
      d.byte (rangeCommand drive offset count) (x - bl) else s1.mem x := by
    intro x
    rw [hmem2, blRead_byte, hwords, show 2 * (256 * b) = 512 * b by omega]
    rfl
  have e2 : HeapEffect s1 {(bl, 512 * b)} (s1.withHeap mem2 s1.kmallocUsed) {(bl, 512 * b)} := by
    refine edit_effect fun x hx => ?_
    rw [hread, if_neg (by omega)]
  obtain ⟨h2, v2⟩ := e2 _ h1
  have hout3 : ∀ x, x < buf ∨ buf + count ≤ x → mem3 x = mem2 x := fun x hx => by
    rw [hmem3]
    exact copyBytes_other hx
  have e3 : HeapEffect (s1.withHeap mem2 s1.kmallocUsed) {(p, n)} (s1.withHeap mem3 s1.kmallocUsed)
      {(p, n)} := by
    rw [← withHeap_withHeap s1 mem2 mem3 s1.kmallocUsed s1.kmallocUsed]
    refine edit_effect fun x hx => ?_
    rw [withHeap_mem]
    exact hout3 x (by omega)
  rw [add_left_comm] at h2
  obtain ⟨h3, v3⟩ := e3 _ h2
  rw [add_left_comm] at h3
  obtain ⟨s', hf⟩ := kfree_total h3
  obtain ⟨h4, v4⟩ := kfree_effect (n := 512 * b) hf _ h3
  rw [zero_add] at h4
  have hown : (p, n) ∈ ({(p, n)} : Multiset (Nat × Nat)) + A :=
    Multiset.mem_add.2 (.inl (Multiset.mem_singleton_self _))
  have hpay : ∀ x, p ≤ x → x < p + n → s'.mem x = mem3 x := fun x h1 h2 => by
    have h := payload_byte (i := x - p) (v4 _ hown) (show x - p < n by omega)
    rw [withHeap_mem] at h
    rwa [show p + (x - p) = x by omega] at h
  have hpay1 : ∀ x, p ≤ x → x < p + n → mem2 x = s.mem x := fun x hx1 hx2 => by
    have h := payload_byte (i := x - p) ((v2 _ hown).trans (v1 _ hown)) (show x - p < n by omega)
    rw [withHeap_mem] at h
    rwa [show p + (x - p) = x by omega] at h
  refine ⟨s', ?_, h4, fun a ha => ?_, fun i hi => ?_, fun x hx1 hx2 hx => ?_⟩
  · rw [diskRead, hun, hm, ok_bind]
    dsimp only
    rw [hsrc, hcnt, ← hmem2, ← hmem3]
    exact hf
  · have ha' : a ∈ ({(p, n)} : Multiset (Nat × Nat)) + A := Multiset.mem_add.2 (.inr ha)
    exact (((v4 a ha').trans (v3 a (Multiset.mem_add.2 (.inr ha)))).trans (v2 a ha')).trans (v1 a ha')
  · have hdis : ∀ i < count, ∀ j < count, buf + i ≠ bl + skip + j := by
      intro i hi j hj e
      refine heapLedger_disjoint h1 (i := skip + j) (j := buf - p + i) (by dsimp only; omega)
        (by dsimp only; omega) ?_
      dsimp only
      omega
    rw [hpay _ (by omega) (by omega), hmem3, copyBytes_byte hdis hi, hread, if_pos (by omega),
      show bl + skip + i - bl = skip + i by omega]
  · rw [hpay x hx1 hx2, hout3 x hx, hpay1 x hx1 hx2]

/-- The number of sectors of a range. -/
lemma blocks_eq {offset : Nat} (h : offset + count < 2147483648) :
    blBegin offset = (offset / 512 : Nat) ∧
      blocks offset count = ((offset + count) / 512 - offset / 512 + 1 : Nat) := by
  have hend : blEnd offset count = ((offset + count) / 512 : Nat) := by
    rw [blEnd, int32_of_bounds (by omega) (by omega), Int.tdiv_eq_ediv_of_nonneg (by omega)]
    omega
  have hbegin : blBegin offset = (offset / 512 : Nat) := by
    rw [blBegin, Int.tdiv_eq_ediv_of_nonneg (by omega)]
    omega
  have hle : offset / 512 ≤ (offset + count) / 512 := Nat.div_le_div_right (Nat.le_add_right _ _)
  refine ⟨hbegin, ?_⟩
  rw [blocks, hend, hbegin, int32_of_bounds (by omega) (by omega)]
  omega

/-- A buffer the kernel heap has room for is a small number of sectors. -/
lemma blocks_small {b : Nat} (hb : b ≤ 4194304) (hold : heapLedger.holds s A)
    (hm : kmalloc s (512 * b) = .ok (s1, bl)) : b < 4194304 := by
  have hsize : Served (512 * b) := by
    unfold Served
    omega
  rw [← zero_add A] at hold
  have h := heapLedger_bounds (kmalloc_effect hsize hm _ hold).1
  dsimp only at h
  omega

/-- A range of natural numbers. -/
lemma rangeOk_nat {offset : Nat} (h31 : offset + count < 2147483648)
    (hsmall : (offset + count) / 512 - offset / 512 + 1 < 4194304) :
    RangeOk offset count ((offset + count) / 512 - offset / 512 + 1) (offset % 512) := by
  refine ⟨(blocks_eq h31).2, hsmall, ?_, by omega⟩
  rw [Int.tmod_eq_emod_of_nonneg (by omega)]
  omega

/-- The command for a range. -/
lemma rangeCommand_eq {offset : Nat} (h31 : offset + count < 2147483648) :
    rangeCommand drive offset count =
      blCommon drive (offset / 512 : Nat) ((offset + count) / 512 - offset / 512 + 1 : Nat) := by
  obtain ⟨hbegin, hblocks⟩ := blocks_eq h31
  rw [rangeCommand, hbegin, hblocks]

lemma rangeCommand_lba {offset : Nat} (h31 : offset + count < 2147483648) :
    (rangeCommand drive offset count).lba = offset / 512 := by
  rw [rangeCommand_eq h31]
  exact lba_blCommon (by omega)

lemma rangeCommand_sectors {offset : Nat} (h31 : offset + count < 2147483648) :
    (rangeCommand drive offset count).sectors = (offset + count) / 512 - offset / 512 + 1 ↔
      (offset + count) / 512 - offset / 512 < 256 := by
  rw [rangeCommand_eq h31, sectors_blCommon]
  omega

/-- What the drive returns for a byte of a range. -/
lemma rangeCommand_byte {offset i : Nat} (h31 : offset + count < 2147483648)
    (hspan : (offset + count) / 512 - offset / 512 < 256) (hi : i < count)
    (hsec : (offset + i) / 512 < d.sectors) :
    d.byte (rangeCommand drive offset count) (offset % 512 + i) = d.bytes (offset + i) := by
  have hj : offset % 512 + i < 512 * ((offset + count) / 512 - offset / 512 + 1) := by omega
  have hlast : offset / 512 + (offset % 512 + i) / 512 = (offset + i) / 512 := by omega
  have hbyte : 512 * (offset / 512) + (offset % 512 + i) = offset + i := by omega
  have hlba : (rangeCommand drive offset count).lba = offset / 512 := rangeCommand_lba h31
  rw [Drive.byte_eq ((rangeCommand_sectors h31).2 hspan ▸ hj) (by rwa [hlba, hlast]), hlba, hbyte]

end Read

/-- The bytes of the range are stored and no others in the chunk `a` of the caller, the drive is asked only
for sectors it has and for a number of them the register can express, and the buffer is no longer out. -/
structure ReadExactly (d : Drive) (drive : Nat) (s s' : Mm) (a : Nat × Nat) (A : Multiset (Nat × Nat))
    (offset buf count : Nat) : Prop where
  stored : ∀ i < count, s'.mem (buf + i) = d.bytes (offset + i)
  kept : ∀ x, a.1 ≤ x → x < a.1 + a.2 → x < buf ∨ buf + count ≤ x → s'.mem x = s.mem x
  exist : ∀ q, (rangeCommand drive offset count).lba ≤ q →
    q < (rangeCommand drive offset count).lba + (rangeCommand drive offset count).sectors →
    q < d.sectors
  expressed : ((rangeCommand drive offset count).sectors : Int) = blocks offset count
  freed : heapLedger.holds s' ({a} + A)

/-- `disk_read` meets its purpose on a range exactly when the range does not end with the drive and spans
at most 256 sectors, the one of the byte behind it included. It returns when there is memory for its
buffer. -/
theorem disk_read_exact {d : Drive} {s s1 : Mm} {A : Multiset (Nat × Nat)}
    {drive buf p n bl offset count : Nat} (hcount : 0 < count)
    (h31 : offset + count < 2147483648)
    (hold : heapLedger.holds s ({(p, n)} + A)) (hlo : p ≤ buf) (hhi : buf + count ≤ p + n)
    (hm : kmalloc s (512 * ((offset + count) / 512 - offset / 512 + 1)) = .ok (s1, bl)) :
    ∃ s', diskRead d drive s offset buf count = .ok s' ∧
      (ReadExactly d drive s s' (p, n) A offset buf count ↔
        (offset + count) / 512 < d.sectors ∧ (offset + count) / 512 - offset / 512 < 256) := by
  have hblocks := (blocks_eq h31).2
  have range := rangeOk_nat h31 (blocks_small (by omega) hold hm)
  obtain ⟨s', e, hold', -, hbytes, hkept⟩ := @diskRead_spec d s s1 A drive _ _ _ _ _ _ _ _ range hold hlo hhi hm
  have hlba : (rangeCommand drive offset count).lba = offset / 512 := rangeCommand_lba h31
  have hexp : ((rangeCommand drive offset count).sectors : Int) = blocks offset count ↔
      (offset + count) / 512 - offset / 512 < 256 := by
    rw [hblocks, Nat.cast_inj, rangeCommand_sectors h31]
  have hle : offset / 512 ≤ (offset + count) / 512 := Nat.div_le_div_right (Nat.le_add_right _ _)
  refine ⟨s', e, fun h => ?_, fun ⟨hend, hspan⟩ => ?_⟩
  · have hspan := hexp.1 h.expressed
    refine ⟨h.exist _ ?_ ?_, hspan⟩
    · rw [hlba]
      exact Nat.div_le_div_right (Nat.le_add_right _ _)
    · rw [hlba, (rangeCommand_sectors h31).2 hspan]
      omega
  · refine ⟨fun i hi => ?_, hkept, fun q _ hq => ?_, hexp.2 hspan, hold'⟩
    · have hin : (offset + i) / 512 ≤ (offset + count) / 512 := Nat.div_le_div_right (by omega)
      rw [hbytes i hi, rangeCommand_byte h31 hspan hi (lt_of_le_of_lt hin hend)]
    · rw [hlba, (rangeCommand_sectors h31).2 hspan, ← Nat.add_assoc, Nat.add_sub_cancel' hle] at hq
      exact lt_of_lt_of_le hq hend

/-- A kernel heap with a chunk of 512 bytes and memory for two sectors. -/
lemma sector_chunk : ∃ s p s1 bl, heapLedger.holds s ({(p, 512)} + 0) ∧ kmalloc s 1024 = .ok (s1, bl) := by
  obtain ⟨s0, init, ph, room, -⟩ := initMm_room
  obtain ⟨s, p, e, ph', room', -⟩ := @PageHeap.kmalloc_room s0 [] 59999 512 ph room (by decide)
    (growPages_small (by decide))
  obtain ⟨s1, bl, e1, -⟩ := @PageHeap.kmalloc_room s _ 59998 1024 ph' room' (by decide)
    (growPages_small (by decide))
  exact ⟨s, p, s1, bl, (kmalloc_effect (by decide) e 0 (VmInv.init init).holds).1, e1⟩

/-- The equivalence for the first sector of a drive with two. -/
theorem disk_read_exact_first : ∃ s p s', diskRead ⟨2, fun _ => 1, fun _ _ => 0⟩ 0 s 0 p 512 = .ok s' ∧
    (ReadExactly ⟨2, fun _ => 1, fun _ _ => 0⟩ 0 s s' (p, 512) 0 0 p 512 ↔
      (0 + 512) / 512 < 2 ∧ (0 + 512) / 512 - 0 / 512 < 256) := by
  obtain ⟨s, p, s1, bl, hold, hm⟩ := sector_chunk
  obtain ⟨s', h⟩ := @disk_read_exact ⟨2, fun _ => 1, fun _ _ => 0⟩ s s1 0 0 p p 512 bl 0 512 (by decide)
    (by decide) hold (le_refl p) (le_refl _) hm
  exact ⟨s, p, s', h⟩

/-- The only sector of a drive is read together with the one behind it. -/
theorem last_sector_overrun : ∃ s p s', heapLedger.holds s ({(p, 512)} + 0) ∧
    diskRead ⟨1, fun _ => 1, fun _ _ => 0⟩ 0 s 0 p 512 = .ok s' ∧
    ¬ ReadExactly ⟨1, fun _ => 1, fun _ _ => 0⟩ 0 s s' (p, 512) 0 0 p 512 := by
  obtain ⟨s, p, s1, bl, hold, hm⟩ := sector_chunk
  have range : RangeOk 0 512 2 0 := ⟨by decide, by decide, by decide, by decide⟩
  obtain ⟨s', e, -⟩ := @diskRead_spec ⟨1, fun _ => 1, fun _ _ => 0⟩ s s1 0 0 _ _ _ _ _ _ _ _ range hold
    (le_refl p) (le_refl _) hm
  exact ⟨s, p, s', hold, e, fun h => absurd (h.exist 1 (by decide) (by decide)) (by decide)⟩

/-! ## Writing -/

/-- What the sectors of a command receive from a buffer of small bytes. -/
lemma blWrite_bytes {d : Drive} {drive numblock b o buf : Nat} {m : Mem} (hn : numblock < 268435456)
    (hb : 1 ≤ b ∧ b ≤ 256) (hsmall : ∀ i < 512 * b, m (buf + i) < 0x80) :
    (blWrite d drive numblock b m buf).bytes o =
      if 512 * numblock ≤ o ∧ o < 512 * (numblock + b) ∧ o < 512 * d.sectors then
        m (buf + (o - 512 * numblock))
      else d.bytes o := by
  have hwords : wordCount b = 256 * b := wordCount_of_lt (by omega)
  have hlen : (sentWords m buf (256 * b)).length = 256 * b := by
    rw [sentWords, List.length_map, List.length_range]
  rw [blWrite, Drive.receive, hwords]
  dsimp only
  rw [lba_blCommon hn, sectors_blCommon.2 hb, hlen]
  by_cases ho : 512 * numblock ≤ o ∧ o < 512 * (numblock + b) ∧ o < 512 * d.sectors
  · have hidx : (o - 512 * numblock) / 2 < 256 * b := by omega
    have hword : (sentWords m buf (256 * b)).getD ((o - 512 * numblock) / 2) 0 =
        tmpword (m (buf + (o - 512 * numblock) / 2 * 2)) (m (buf + (o - 512 * numblock) / 2 * 2 + 1)) := by
      rw [sentWords, List.getD_eq_getElem?_getD, List.getElem?_map, List.getElem?_range hidx]
      rfl
    have hlow := hsmall ((o - 512 * numblock) / 2 * 2) (by omega)
    rw [if_pos ho, if_pos (by omega), hword, lowByte_tmpword, highByte_tmpword, if_pos hlow]
    split
    case isTrue h2 => rw [show buf + (o - 512 * numblock) / 2 * 2 = buf + (o - 512 * numblock) by omega]
    case isFalse h2 =>
      rw [show buf + (o - 512 * numblock) / 2 * 2 + 1 = buf + (o - 512 * numblock) by omega]
  · rw [if_neg ho, if_neg (by omega)]

/-- `disk_write` puts the buffer at the beginning of the first sector of the range, and what lies behind the
buffer in memory into the rest of its sectors. -/
lemma diskWrite_bytes {d : Drive} {drive offset count o buf : Nat} {m : Mem}
    (h31 : offset + count < 2147483648) (hspan : (offset + count) / 512 - offset / 512 < 256)
    (hsmall : ∀ i < 512 * ((offset + count) / 512 - offset / 512 + 1), m (buf + i) < 0x80) :
    (diskWrite d drive offset m buf count).bytes o =
      if offset / 512 ≤ o / 512 ∧ o / 512 ≤ (offset + count) / 512 ∧ o < 512 * d.sectors then
        m (buf + (o - 512 * (offset / 512)))
      else d.bytes o := by
  obtain ⟨hbegin, hblocks⟩ := blocks_eq h31
  have hle : offset / 512 ≤ (offset + count) / 512 := Nat.div_le_div_right (Nat.le_add_right _ _)
  have hn : offset / 512 < 268435456 := by omega
  rw [diskWrite, hbegin, hblocks, blWrite_bytes hn ⟨by omega, by omega⟩ hsmall]
  have hsec : 512 * (offset / 512) ≤ o ∧
      o < 512 * (offset / 512 + ((offset + count) / 512 - offset / 512 + 1)) ↔
        offset / 512 ≤ o / 512 ∧ o / 512 ≤ (offset + count) / 512 := by
    generalize (offset + count) / 512 = e at *
    generalize offset / 512 = f at *
    omega
  refine if_congr ?_ rfl rfl
  rw [← and_assoc, hsec, and_assoc]

/-- The range of the drive holds the buffer, the rest of the drive what it held, and only the buffer is
read. -/
structure WritesExactly (d : Drive) (drive : Nat) (offset : Nat) (m : Mem) (buf count : Nat) : Prop where
  stored : ∀ i < count, (diskWrite d drive offset m buf count).bytes (offset + i) = m (buf + i)
  kept : ∀ o, o < offset ∨ offset + count ≤ o →
    (diskWrite d drive offset m buf count).bytes o = d.bytes o
  inside : ∀ x ∈ diskWriteReads offset buf count, buf ≤ x ∧ x < buf + count

/-- A range whose end wraps around has no sectors: nothing is sent. -/
lemma wordCount_wrapped {offset count : Nat} (ho : offset < 2147483648) (hc : count < 2147483648)
    (h : 2147483648 ≤ offset + count) : wordCount (blocks offset count) = 0 := by
  have hsum : int32 (offset + count) = -((4294967296 - (offset + count) : Nat) : Int) := by
    unfold int32
    omega
  have hend : blEnd offset count = -(((4294967296 - (offset + count)) / 512 : Nat) : Int) := by
    rw [blEnd, hsum, Int.neg_tdiv, Int.tdiv_eq_ediv_of_nonneg (by omega)]
    norm_num
  have hbegin : blBegin offset = (offset / 512 : Nat) := by
    rw [blBegin, Int.tdiv_eq_ediv_of_nonneg (by omega)]
    norm_num
  have hblocks : blocks offset count = blEnd offset count - blBegin offset + 1 :=
    int32_of_bounds (by omega) (by omega)
  rw [wordCount, hblocks, hend, hbegin, int32_of_bounds (by omega) (by omega)]
  omega

/-- `disk_write` meets its purpose only on ranges whose end wraps around, when the drive already holds the
buffer: any other call reads behind the buffer. -/
theorem disk_write_exact {d : Drive} {drive offset count buf : Nat} {m : Mem}
    (ho : offset < 2147483648) (hc : count < 2147483648) :
    WritesExactly d drive offset m buf count ↔
      2147483648 ≤ offset + count ∧ ∀ i < count, d.bytes (offset + i) = m (buf + i) := by
  rcases Nat.lt_or_ge (offset + count) 2147483648 with h31 | h31
  · refine iff_of_false (fun h => ?_) fun h => absurd h.1 (not_le.2 h31)
    obtain ⟨-, hblocks⟩ := blocks_eq h31
    have hle : offset / 512 ≤ (offset + count) / 512 := Nat.div_le_div_right (Nat.le_add_right _ _)
    have hwords : wordCount (blocks offset count) =
        256 * ((offset + count) / 512 - offset / 512 + 1) := by
      rw [hblocks]
      exact wordCount_of_lt (by omega)
    have hover : count < 512 * ((offset + count) / 512 - offset / 512 + 1) := by omega
    -- the high byte of the last word
    have hmem : buf + (256 * ((offset + count) / 512 - offset / 512 + 1) - 1) * 2 + 1 ∈
        diskWriteReads offset buf count := by
      rw [diskWriteReads, hwords, sentReads, List.mem_flatMap]
      refine ⟨_, List.mem_range.2 ?_, List.mem_cons_self⟩
      omega
    have hlast := (h.inside _ hmem).2
    generalize (offset + count) / 512 - offset / 512 = span at hover hlast
    omega
  · have hwords := wordCount_wrapped ho hc h31
    have hsame : ∀ o, (diskWrite d drive offset m buf count).bytes o = d.bytes o := by
      intro o
      rw [diskWrite, blWrite, hwords]
      exact if_neg fun h => absurd h.2.2.2 (Nat.not_lt_zero _)
    refine ⟨fun h => ⟨h31, fun i hi => ?_⟩, fun ⟨_, h⟩ => ⟨fun i hi => ?_, fun o _ => hsame o, ?_⟩⟩
    · rw [← hsame, h.stored i hi]
    · rw [hsame, h i hi]
    · rw [diskWriteReads, hwords]
      exact fun x hx => absurd hx (List.not_mem_nil)

/-- The equivalence for a sector that is written with what it holds. -/
theorem disk_write_exact_sector : WritesExactly ⟨2, fun _ => 1, fun _ _ => 0⟩ 0 512 (fun _ => 1) 0 512 ↔
    2147483648 ≤ 512 + 512 ∧ ∀ i < 512, (fun _ => 1 : Nat → UInt8) (512 + i) = (fun _ => 1 : Mem) (0 + i) :=
  disk_write_exact (by decide) (by decide)

/-- One byte written at offset 1 ends up at offset 0. -/
theorem misplaced_byte : ¬ WritesExactly ⟨2048, fun _ => 0, fun _ _ => 0⟩ 0 1
    (Function.update (fun _ => 0) 0 1) 0 1 := by
  intro h
  have hsmall : ∀ i < 512 * ((1 + 1) / 512 - 1 / 512 + 1),
      (Function.update (fun _ => 0) 0 1 : Mem) (0 + i) < 0x80 := by
    intro i _
    by_cases hi : 0 + i = 0
    · rw [hi, Function.update_self]
      decide
    · rw [Function.update_of_ne hi]
      decide
  have h0 := h.kept 0 (.inl (by decide))
  rw [diskWrite_bytes (by decide) (by decide) hsmall] at h0
  exact absurd h0 (by decide)

end Creeks
