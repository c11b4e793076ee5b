import Creeks.Mm.Paging
import Creeks.Lib.Tiling

/-!
# The kernel heap

`ksbrk`, `kmalloc` and `kfree` of `kmalloc.c`. A chunk header is one word: the size of the whole
record in its low 31 bits, the `used` flag in bit 31.

The two loops are bounded by `LOOP_MAX`: each iteration of the search moves `chunk` up, and each
iteration of the merge makes a chunk longer, so in an address space of 2^32 bytes a loop that has run
that often makes no progress. Reading a header at or above `kern_heap` is an access to a page that is
not mapped.
-/

namespace Creeks
open Lib

abbrev KMALLOC_MINSIZE : Nat := 16

/-- The number of iterations after which a loop over addresses makes no progress. -/
@[irreducible] def LOOP_MAX : Nat := 4294967296

/-- `chunk->size`. -/
def hdrSize (m : Mem) (chunk : Nat) : Nat := load32 m chunk % 2147483648

/-- `chunk->used`. -/
def hdrUsed (m : Mem) (chunk : Nat) : Nat := load32 m chunk / 2147483648

/-- `chunk->size = n`. -/
def setSize (m : Mem) (chunk n : Nat) : Mem :=
  store32 m chunk (n % 2147483648 + hdrUsed m chunk * 2147483648)

/-- `chunk->used = u`. -/
def setUsed (m : Mem) (chunk u : Nat) : Mem :=
  store32 m chunk (hdrSize m chunk + u * 2147483648)

/-- The loop of `ksbrk`: `n` more pages are mapped at `kern_heap`. The flag is false when the
function has returned -1, which its test `p_addr < 0` on an unsigned address never lets happen. -/
def growHeap : Nat → Mm → Except Stop (Mm × Bool)
  | 0, s => .ok (s, true)
  | n + 1, s =>
    let r := getPageFrame s
    if r.2 < 0 then .ok (r.1, false)
    else do
      let s ← pd0AddPage r.1 r.1.kernHeap r.2 0
      growHeap n { s with kernHeap := wrap (s.kernHeap + PAGESIZE) }

/-- `ksbrk()`. -/
def ksbrk (s : Mm) (n : Nat) : Except Stop (Mm × Nat) :=
  if wrap (s.kernHeap + n * PAGESIZE) > KERN_HEAP_LIM then .ok (s, MINUS_ONE)
  else do
    let chunk := s.kernHeap
    let r ← growHeap n s
    if r.2 then
      let mem := setSize r.1.mem chunk (PAGESIZE * n)
      let mem := setUsed mem chunk 0
      return (r.1.withHeap mem r.1.kmallocUsed, chunk)
    else return (r.1, MINUS_ONE)

/-- The search loop of `kmalloc`. -/
def kmallocSearch (realsize : Nat) : Nat → Mm → Nat → Except Stop (Mm × Nat)
  | 0, _, _ => .error .fuel
  | fuel + 1, s, chunk =>
    if s.kernHeap ≤ chunk then .error (.fault chunk)
    else if hdrUsed s.mem chunk ≠ 0 ∨ hdrSize s.mem chunk < realsize then
      if hdrSize s.mem chunk = 0 then .error (.nullChunk chunk)
      else
        let chunk := wrap (chunk + hdrSize s.mem chunk)
        if chunk = s.kernHeap then do
          let r ← ksbrk s (realsize / PAGESIZE + 1)
          -- `ksbrk(...) < 0` compares an unsigned pointer
          if r.2 < 0 then .error .noMemory else kmallocSearch realsize fuel r.1 chunk
        else if chunk > s.kernHeap then .error (.beyondHeap chunk)
        else kmallocSearch realsize fuel s chunk
    else .ok (s, chunk)

/-- The size of the record `kmalloc` looks for. -/
def realSize (size : Nat) : Nat :=
  if wrap (4 + size) < KMALLOC_MINSIZE then KMALLOC_MINSIZE else wrap (4 + size)

/-- The end of `kmalloc`: the chunk is taken whole or cut in two. -/
def takeChunk (m : Mem) (chunk realsize : Nat) : Mem :=
  if wrap (hdrSize m chunk + 4294967296 - realsize) < KMALLOC_MINSIZE then setUsed m chunk 1
  else
    let other := wrap (chunk + realsize)
    let m := setSize m other (wrap (hdrSize m chunk + 4294967296 - realsize))
    let m := setUsed m other 0
    let m := setSize m chunk realsize
    setUsed m chunk 1

/-- `kmalloc()`. -/
def kmalloc (s : Mm) (size : Nat) : Except Stop (Mm × Nat) := do
  let realsize := realSize size
  let r ← kmallocSearch realsize LOOP_MAX s KERN_HEAP
  return (r.1.withHeap (takeChunk r.1.mem r.2 realsize) (wrap (r.1.kmallocUsed + realsize)),
    wrap (r.2 + 4))

/-- The loop of `kfree`: the chunk swallows the free chunks that follow it. -/
def coalesce (kernHeap : Nat) : Nat → Mem → Nat → Except Stop Mem
  | 0, _, _ => .error .fuel
  | fuel + 1, m, chunk =>
    let other := wrap (chunk + hdrSize m chunk)
    if other ≠ 0 ∧ other < kernHeap ∧ hdrUsed m other = 0 then
      coalesce kernHeap fuel (setSize m chunk (hdrSize m chunk + hdrSize m other)) chunk
    else .ok m

/-- `kfree()`. -/
def kfree (s : Mm) (vAddr : Nat) : Except Stop Mm := do
  let chunk := wrap (vAddr + 4294967296 - 4)
  let mem := setUsed s.mem chunk 0
  let used := wrap (s.kmallocUsed + 4294967296 - hdrSize mem chunk)
  let mem ← coalesce s.kernHeap LOOP_MAX mem chunk
  return s.withHeap mem used

/-- What the loop of `ksbrk` leaves alone, whatever the page tables contain. -/
lemma growHeap_frame {n : Nat} {s s' : Mm} {b : Bool}
    (hlt : s.kernHeap + n * PAGESIZE < 4294967296) (h : growHeap n s = .ok (s', b)) :
    b = true ∧ s'.mem = s.mem ∧ s'.kernHeap = s.kernHeap + n * PAGESIZE ∧
      s'.kernFreeVm = s.kernFreeVm := by
  induction n generalizing s with
  | zero =>
    cases h
    exact ⟨rfl, rfl, by rw [Nat.zero_mul, Nat.add_zero], rfl⟩
  | succ n ih =>
    rw [growHeap, if_neg (Nat.not_lt_zero _)] at h
    obtain ⟨t, ha, h⟩ := bind_ok.1 h
    obtain ⟨ram, rfl⟩ := pd0AddPage_frame ha
    have hframe : (getPageFrame s).1.mem = s.mem ∧ (getPageFrame s).1.kernHeap = s.kernHeap ∧
        (getPageFrame s).1.kernFreeVm = s.kernFreeVm := by
      rcases getPageFrame_cases s with ⟨page, -, -, e⟩ | e <;> rw [e] <;> exact ⟨rfl, rfl, rfl⟩
    obtain ⟨hmem, hkern, hvm⟩ := hframe
    have hwrap : wrap ((getPageFrame s).1.kernHeap + PAGESIZE) = s.kernHeap + PAGESIZE := by
      rw [hkern]
      exact wrap_of_lt (by simp only [PAGESIZE] at hlt ⊢; omega)
    dsimp only at h
    rw [hwrap] at h
    obtain ⟨hb, h1, h2, h3⟩ := ih (by simp only [PAGESIZE] at hlt ⊢; omega) h
    refine ⟨hb, h1.trans hmem, h2.trans ?_, h3.trans hvm⟩
    simp only [PAGESIZE]
    omega

lemma loopMax_eq : LOOP_MAX = 4294967296 := by
  unfold LOOP_MAX
  rfl

section Header

variable {m : Mem} {a b n u x : Nat}

lemma hdrSize_lt (m : Mem) (a : Nat) : hdrSize m a < 2147483648 :=
  Nat.mod_lt _ (by decide)

lemma hdrUsed_lt (m : Mem) (a : Nat) : hdrUsed m a < 2 := by
  have := load32_lt m a
  unfold hdrUsed
  omega

@[simp] lemma hdrSize_setSize (hn : n < 2147483648) : hdrSize (setSize m a n) a = n := by
  have := hdrUsed_lt m a
  rw [hdrSize, setSize, load32_store32]
  omega

@[simp] lemma hdrUsed_setSize : hdrUsed (setSize m a n) a = hdrUsed m a := by
  have := hdrUsed_lt m a
  rw [hdrUsed, setSize, load32_store32]
  omega

@[simp] lemma hdrSize_setUsed : hdrSize (setUsed m a u) a = hdrSize m a := by
  have := hdrSize_lt m a
  rw [hdrSize, setUsed, load32_store32]
  omega

@[simp] lemma hdrUsed_setUsed (hu : u < 2) : hdrUsed (setUsed m a u) a = u := by
  have := hdrSize_lt m a
  rw [hdrUsed, setUsed, load32_store32]
  omega

/-- A header write leaves the headers it does not overlap alone. -/
lemma hdr_setSize_other (h : b + 4 ≤ a ∨ a + 4 ≤ b) :
    hdrSize (setSize m a n) b = hdrSize m b ∧ hdrUsed (setSize m a n) b = hdrUsed m b := by
  simp only [hdrSize, hdrUsed, setSize, load32_store32_other h, and_self]

/-- A header write leaves the headers it does not overlap alone. -/
lemma hdr_setUsed_other (h : b + 4 ≤ a ∨ a + 4 ≤ b) :
    hdrSize (setUsed m a u) b = hdrSize m b ∧ hdrUsed (setUsed m a u) b = hdrUsed m b := by
  simp only [hdrSize, hdrUsed, setUsed, load32_store32_other h, and_self]

/-- A header only depends on its four bytes. -/
lemma hdr_congr {m' : Mem} (h : ∀ x, a ≤ x → x < a + 4 → m' x = m x) :
    hdrSize m' a = hdrSize m a ∧ hdrUsed m' a = hdrUsed m a := by
  simp only [hdrSize, hdrUsed, load32_congr h, and_self]

/-- A header write only changes the four bytes of the header. -/
lemma setSize_other (h : x < a ∨ a + 4 ≤ x) : setSize m a n x = m x := store32_other h

/-- A header write only changes the four bytes of the header. -/
lemma setUsed_other (h : x < a ∨ a + 4 ≤ x) : setUsed m a u x = m x := store32_other h

/-- `kmalloc` takes a chunk whole when the rest would be too small for a chunk. -/
lemma takeChunk_whole {realsize : Nat} (hfit : realsize ≤ hdrSize m a)
    (h : hdrSize m a - realsize < 16) : takeChunk m a realsize = setUsed m a 1 := by
  have := hdrSize_lt m a
  rw [takeChunk, if_pos]
  rw [wrap_eq]
  simp only [KMALLOC_MINSIZE]
  omega

/-- `kmalloc` cuts a chunk in two: a used one of the size it needs and a free one with the rest. -/
lemma takeChunk_split {realsize : Nat} (hlim : a + hdrSize m a ≤ 4294967296)
    (h16 : 16 ≤ realsize) (hfit : realsize + 16 ≤ hdrSize m a) :
    hdrSize (takeChunk m a realsize) a = realsize ∧
      hdrUsed (takeChunk m a realsize) a = 1 ∧
      hdrSize (takeChunk m a realsize) (a + realsize) = hdrSize m a - realsize ∧
      hdrUsed (takeChunk m a realsize) (a + realsize) = 0 ∧
      ∀ x, (x < a ∨ a + 4 ≤ x) → (x < a + realsize ∨ a + realsize + 4 ≤ x) →
        takeChunk m a realsize x = m x := by
  have hlt := hdrSize_lt m a
  have hrest : wrap (hdrSize m a + 4294967296 - realsize) = hdrSize m a - realsize := by
    rw [wrap_eq]
    omega
  have hother : wrap (a + realsize) = a + realsize := wrap_of_lt (by omega)
  have hnot : ¬ hdrSize m a - realsize < KMALLOC_MINSIZE := by
    simp only [KMALLOC_MINSIZE]
    omega
  have hsep : a + realsize + 4 ≤ a ∨ a + 4 ≤ a + realsize := .inr (by omega)
  have hsep' : a + 4 ≤ a + realsize ∨ a + realsize + 4 ≤ a := .inl (by omega)
  rw [takeChunk, hrest, if_neg hnot, hother]
  refine ⟨?_, ?_, ?_, ?_, ?_⟩
  · rw [hdrSize_setUsed, hdrSize_setSize (by omega)]
  · exact hdrUsed_setUsed (by decide)
  · rw [(hdr_setUsed_other hsep).1, (hdr_setSize_other hsep).1, hdrSize_setUsed,
      hdrSize_setSize (by omega)]
  · rw [(hdr_setUsed_other hsep).2, (hdr_setSize_other hsep).2]
    exact hdrUsed_setUsed (by decide)
  · intro x h1 h2
    rw [setUsed_other h1, setSize_other h1, setUsed_other h2, setSize_other h2]

end Header

end Creeks
