import Creeks.File.Descriptors
import Creeks.Lib.Cursor

/-!
# Reading a file in pieces

The bytes `sys_read` copies. `sysRead` of `Creeks.File.Descriptors` gives the address and the number of
the bytes; here `memcpy` moves them from the buffer of the file to the buffer of the caller, and
`readCall` is one call with both memories.

`read_in_pieces` says when a sequence of calls reads a file the way `readsFrom` reads a list: exactly
when no call makes the sum of the position and the size asked for pass 2^32.
-/

namespace Creeks
open Lib

/-- `memcpy`. Its `int n` is only counted down to 0, so that a count from 2^31 on, negative there, is
copied in full. -/
def memcpy (kern user : Mem) (dst src : Nat) : Nat → Mem
  | 0 => user
  | n + 1 => memcpy kern (Function.update user dst (kern src)) (wrap (dst + 1)) (wrap (src + 1)) n

/-- The files and the memory of the running process. -/
structure Reader where
  files : Files
  user : Mem

/-- The arguments of `sys_read` besides the descriptor. -/
structure ReadCall where
  uBuf : Nat
  bufsize : Nat
deriving DecidableEq, Repr

/-- What a call leaves: the state, the value returned, and the address and number of the bytes it has
copied. -/
structure ReadResult where
  reader : Reader
  count : Nat
  copied : Option (Nat × Nat)

/-- `sys_read`, with the bytes it copies. -/
def readCall (kern : Mem) (fd : Nat) (s : Reader) (c : ReadCall) : Except Null ReadResult := do
  let (files, count, copied) ← sysRead s.files fd c.bufsize
  match copied with
  | none => return ⟨⟨files, s.user⟩, count, none⟩
  | some (src, n) => return ⟨⟨files, memcpy kern s.user (wrap c.uBuf) (wrap src) n⟩, count, copied⟩

/-- `n` bytes of a memory from address `a` on. -/
def bytesAt (m : Mem) (a n : Nat) : List UInt8 := (List.range n).map fun i => m (wrap (a + i))

/-- The bytes of a file, in its buffer. -/
def File.content (kern : Mem) (f : File) : List UInt8 := bytesAt kern f.mmap f.iSize

/-- What the calls of a sequence return, and what the caller finds in its buffer after each. -/
def readResults (kern : Mem) (fd : Nat) : Reader → List ReadCall → List (Nat × List UInt8)
  | _, [] => []
  | s, c :: cs =>
    match readCall kern fd s c with
    | .error _ => []
    | .ok r => (r.count, bytesAt r.reader.user c.uBuf r.count) :: readResults kern fd r.reader cs

/-- A descriptor `fd` of the running process that is open on `f` at position `ptr`. -/
def OpenAt (s : Files) (fd f ptr : Nat) : Prop := s.currentFd[fd]? = some ⟨some f, ptr⟩

/-- A call that copies and returns what is left of the file up to the size asked for, from the buffer of
the file, and advances the position by that. -/
def CallExact (kern : Mem) (fd : Nat) (s : Reader) (c : ReadCall) : Prop :=
  ∃ f ptr r, OpenAt s.files fd f ptr ∧ readCall kern fd s c = .ok r ∧
    r.count = min c.bufsize ((s.files.file f).iSize - ptr) ∧
    r.copied = some ((s.files.file f).mmap + ptr, r.count) ∧
    OpenAt r.reader.files fd f (ptr + r.count) ∧
    ptr + r.count ≤ (s.files.file f).iSize ∧
    bytesAt r.reader.user c.uBuf r.count = readAt ((s.files.file f).content kern) ptr c.bufsize

/-- A call whose size added to the position of the descriptor fits in 32 bits. -/
def CallFits (fd : Nat) (s : Reader) (c : ReadCall) : Prop :=
  ∀ f ptr, OpenAt s.files fd f ptr → ptr + c.bufsize < 4294967296

/-- Every call of a sequence is exact. -/
def AllExact (kern : Mem) (fd : Nat) : List ReadCall → Reader → Prop
  | [], _ => True
  | c :: cs, s => CallExact kern fd s c ∧
      ∀ r, readCall kern fd s c = .ok r → AllExact kern fd cs r.reader

/-- Every call of a sequence fits. -/
def AllFit (kern : Mem) (fd : Nat) : List ReadCall → Reader → Prop
  | [], _ => True
  | c :: cs, s => CallFits fd s c ∧ ∀ r, readCall kern fd s c = .ok r → AllFit kern fd cs r.reader

/-! ## Copying -/

section Copy

variable {kern user : Mem} {dst src n : Nat}

/-- The bytes of a memory at an address are those at the address modulo 2^32. -/
lemma bytesAt_wrap (m : Mem) (a n : Nat) : bytesAt m (wrap a) n = bytesAt m a n := by
  refine List.map_congr_left fun i _ => ?_
  rw [wrap_eq, wrap_eq, wrap_eq, Nat.mod_add_mod]

lemma bytesAt_succ (m : Mem) (a n : Nat) :
    bytesAt m a (n + 1) = m (wrap a) :: bytesAt m (a + 1) n := by
  rw [bytesAt, List.range_succ_eq_map, List.map_cons, List.map_map]
  refine congrArg₂ List.cons rfl (List.map_congr_left fun i _ => ?_)
  show m (wrap (a + (i + 1))) = m (wrap (a + 1 + i))
  rw [Nat.add_right_comm a 1 i, Nat.add_assoc]

lemma length_bytesAt (m : Mem) (a n : Nat) : (bytesAt m a n).length = n := by
  rw [bytesAt, List.length_map, List.length_range]

/-- A part of the bytes from an address on. -/
lemma readAt_bytesAt {m : Mem} {a size p n : Nat} (h : p + n ≤ size) :
    readAt (bytesAt m a size) p n = bytesAt m (a + p) n := by
  refine List.ext_getElem ?_ fun i h1 h2 => ?_
  · rw [length_readAt, length_bytesAt, length_bytesAt]
    omega
  · simp only [readAt, bytesAt, List.getElem_take, List.getElem_drop, List.getElem_map,
      List.getElem_range, Nat.add_assoc]

/-- A copy changes nothing outside the bytes it writes. -/
lemma memcpy_other {x : Nat} (h : ∀ i < n, x ≠ wrap (dst + i)) (hdst : dst < 4294967296) :
    memcpy kern user dst src n x = user x := by
  induction n generalizing user dst src with
  | zero => rfl
  | succ n ih =>
    rw [memcpy, ih, Function.update_of_ne]
    · have h0 := h 0 (Nat.succ_pos n)
      rwa [Nat.add_zero, wrap_of_lt hdst] at h0
    · intro i hi
      have hi' := h (i + 1) (Nat.succ_lt_succ hi)
      rw [wrap_eq] at hi' ⊢
      rw [wrap_eq, Nat.mod_add_mod]
      rwa [Nat.add_assoc, Nat.add_comm 1 i]
    · rw [wrap_eq]
      exact Nat.mod_lt _ (by decide)

/-- A copy of less than 2^32 bytes leaves the bytes of the source at the destination. -/
lemma bytesAt_memcpy (hdst : dst < 4294967296) (hsrc : src < 4294967296) (hn : n ≤ 4294967296) :
    bytesAt (memcpy kern user dst src n) dst n = bytesAt kern src n := by
  induction n generalizing user dst src with
  | zero => rfl
  | succ n ih =>
    have hlt : ∀ a, wrap a < 4294967296 := fun a => by
      rw [wrap_eq]
      exact Nat.mod_lt _ (by decide)
    rw [bytesAt_succ, bytesAt_succ, memcpy, ← bytesAt_wrap _ (dst + 1), ← bytesAt_wrap _ (src + 1),
      ih (hlt _) (hlt _) (Nat.le_of_succ_le hn), wrap_of_lt hdst, wrap_of_lt hsrc]
    refine congrArg₂ List.cons ?_ rfl
    -- the rest of the copy does not come back to the first byte
    rw [memcpy_other, Function.update_self]
    · intro i hi e
      rw [wrap_eq, wrap_eq, Nat.mod_add_mod] at e
      omega
    · exact hlt _

end Copy

/-! ## One call -/

section Call

variable {kern : Mem} {s : Reader} {fd f ptr : Nat} {c : ReadCall}

/-- The descriptor an open number stands for, and what a call does with it. -/
lemma readCall_open (ho : OpenAt s.files fd f ptr) :
    readCall kern fd s c = .ok
      ⟨⟨s.files.setCurrentFd (s.files.currentFd.set fd
          ⟨some f, wrap (ptr + readCount (s.files.file f).iSize ptr c.bufsize)⟩),
        memcpy kern s.user (wrap c.uBuf) (wrap ((s.files.file f).mmap + ptr))
          (readCount (s.files.file f).iSize ptr c.bufsize)⟩,
        readCount (s.files.file f).iSize ptr c.bufsize,
        some ((s.files.file f).mmap + ptr, readCount (s.files.file f).iSize ptr c.bufsize)⟩ := by
  have hlt : fd < s.files.currentFd.length := (List.getElem?_eq_some_iff.1 ho).1
  have hget : s.files.currentFd[fd] = ⟨some f, ptr⟩ := (List.getElem?_eq_some_iff.1 ho).2
  have hseek := seekFd_some hlt
  rw [List.drop_eq_getElem_cons hlt, hget] at hseek
  rw [readCall, sysRead, hseek, ok_bind]
  rfl

/-- The other descriptors and the files are what they were. -/
lemma openAt_set (ho : OpenAt s.files fd f ptr) (user : Mem) (p : Nat) :
    OpenAt (Reader.mk (s.files.setCurrentFd (s.files.currentFd.set fd ⟨some f, p⟩)) user).files
      fd f p := by
  have hlt : fd < s.files.currentFd.length := (List.getElem?_eq_some_iff.1 ho).1
  simp only [OpenAt, Files.currentFd, Files.setCurrentFd, Function.update_self]
  exact List.getElem?_set_self hlt

/-- What `sys_read` copies when the sum fits in 32 bits. -/
lemma readCount_of_fits {size bufsize : Nat} (hptr : ptr ≤ size) (hsize : size < 4294967296)
    (h : ptr + bufsize < 4294967296) : readCount size ptr bufsize = min bufsize (size - ptr) := by
  rw [readCount, wrap_of_lt h, wrap_eq]
  split <;> omega

/-- What it copies when the sum wraps: as much as was asked for, and the position moves back. -/
lemma readCount_of_wraps {size bufsize : Nat} (hptr : ptr ≤ size) (hsize : size < 4294967296)
    (hb : bufsize < 4294967296) (h : 4294967296 ≤ ptr + bufsize) :
    readCount size ptr bufsize = bufsize ∧ wrap (ptr + bufsize) ≤ size := by
  have hle : wrap (ptr + bufsize) ≤ size := by
    rw [wrap_eq]
    omega
  exact ⟨if_neg (Nat.not_lt.2 hle), hle⟩

/-- The position stays in the file, whatever is asked for. -/
lemma readCount_ptr_le {size bufsize : Nat} (hptr : ptr ≤ size) (hsize : size < 4294967296)
    (hb : bufsize < 4294967296) : wrap (ptr + readCount size ptr bufsize) ≤ size := by
  rcases Nat.lt_or_ge (ptr + bufsize) 4294967296 with h | h
  · rw [readCount_of_fits hptr hsize h, wrap_of_lt (by omega)]
    omega
  · obtain ⟨e, hle⟩ := readCount_of_wraps hptr hsize hb h
    rwa [e]

/-- A call is exact when its sum fits in 32 bits, and only then. -/
lemma callExact_iff (ho : OpenAt s.files fd f ptr) (hptr : ptr ≤ (s.files.file f).iSize)
    (hsize : (s.files.file f).iSize < 2147483648) (hb : c.bufsize < 4294967296) :
    CallExact kern fd s c ↔ CallFits fd s c := by
  constructor
  · rintro ⟨f', ptr', r, ho', e, hcount, -⟩ f'' ptr'' ho''
    cases ho.symm.trans ho'
    cases ho.symm.trans ho''
    rw [readCall_open ho] at e
    cases e
    by_contra h
    have hcount : readCount _ ptr c.bufsize = _ := hcount
    rw [(readCount_of_wraps hptr (by omega) hb (Nat.not_lt.1 h)).1] at hcount
    omega
  · intro h
    have hfit := h f ptr ho
    have hcount := readCount_of_fits hptr (by omega) hfit
    refine ⟨f, ptr, _, ho, readCall_open ho, hcount, rfl, ?_, ?_, ?_⟩
    · rw [wrap_of_lt (by omega)]
      exact openAt_set ho _ _
    · show ptr + readCount _ _ _ ≤ _
      omega
    · show bytesAt (memcpy kern s.user (wrap c.uBuf) _ _) c.uBuf _ = _
      have hlt : ∀ a, wrap a < 4294967296 := fun a => by
        rw [wrap_eq]
        exact Nat.mod_lt _ (by decide)
      rw [← bytesAt_wrap _ c.uBuf, bytesAt_memcpy (hlt _) (hlt _) (by omega), bytesAt_wrap, hcount,
        File.content, ← readAt_bytesAt (by omega : _ ≤ (s.files.file f).iSize), readAt, readAt,
        List.take_eq_take_iff, List.length_drop, length_bytesAt]
      omega

end Call

/-! ## Sequences of calls -/

section Sequence

variable {kern : Mem} {s : Reader} {fd f ptr : Nat} {c : ReadCall} {calls : List ReadCall}

/-- A descriptor at a position in its file. -/
structure InFile (s : Reader) (fd f ptr : Nat) (file : File) : Prop where
  opened : OpenAt s.files fd f ptr
  same : s.files.file f = file
  ptr : ptr ≤ file.iSize
  size : file.iSize < 2147483648

/-- A call on a descriptor keeps it open on the same file, at a position in it. -/
lemma InFile.step {file : File} (h : InFile s fd f ptr file) (hb : c.bufsize < 4294967296) :
    ∃ r, readCall kern fd s c = .ok r ∧
      InFile r.reader fd f (wrap (ptr + readCount file.iSize ptr c.bufsize)) file := by
  refine ⟨_, readCall_open h.opened, ?_, h.same, ?_, h.size⟩
  · rw [h.same]
    exact openAt_set h.opened _ _
  · exact readCount_ptr_le h.ptr (by have := h.size; omega) hb

/-- The calls of a sequence are exact when their sums fit in 32 bits, and only then. -/
lemma allExact_iff {file : File} (h : InFile s fd f ptr file)
    (hb : ∀ c ∈ calls, c.bufsize < 4294967296) :
    AllExact kern fd calls s ↔ AllFit kern fd calls s := by
  induction calls generalizing s ptr with
  | nil => exact Iff.rfl
  | cons c cs ih =>
    have hc : c.bufsize < 4294967296 := hb c List.mem_cons_self
    obtain ⟨r, e, hr⟩ := @InFile.step kern s fd f ptr c file h hc
    have hi := ih hr fun c' hc' => hb c' (List.mem_cons_of_mem _ hc')
    have hone : CallExact kern fd s c ↔ CallFits fd s c :=
      callExact_iff h.opened (by rw [h.same]; exact h.ptr) (by rw [h.same]; exact h.size) hc
    rw [AllExact, AllFit, hone, e]
    refine and_congr_right fun _ => ⟨fun h r' e' => ?_, fun h r' e' => ?_⟩
    · cases e'
      exact hi.1 (h r rfl)
    · cases e'
      exact hi.2 (h r rfl)

/-- Calls for at most 2^31 bytes all fit, whatever the position. -/
lemma allFit_of_le {file : File} (h : InFile s fd f ptr file)
    (hb : ∀ c ∈ calls, c.bufsize ≤ 2147483648) : AllFit kern fd calls s := by
  induction calls generalizing s ptr with
  | nil => trivial
  | cons c cs ih =>
    have hc : c.bufsize ≤ 2147483648 := hb c List.mem_cons_self
    obtain ⟨r, e, hr⟩ := @InFile.step kern s fd f ptr c file h (by omega)
    refine ⟨fun f' ptr' ho => ?_, fun r' e' => ?_⟩
    · cases h.opened.symm.trans ho
      have hptr := h.ptr
      have hsize := h.size
      omega
    · cases e.symm.trans e'
      exact ih hr fun c' hc' => hb c' (List.mem_cons_of_mem _ hc')

/-- Exact calls return the pieces of the file, one after the other. -/
lemma readResults_of_exact {file : File} (h : InFile s fd f ptr file)
    (hb : ∀ c ∈ calls, c.bufsize < 4294967296) (hex : AllExact kern fd calls s) :
    (readResults kern fd s calls).map Prod.snd =
        readsFrom (file.content kern) ptr (calls.map ReadCall.bufsize) ∧
      ∀ r ∈ readResults kern fd s calls, r.1 = r.2.length := by
  induction calls generalizing s ptr with
  | nil => exact ⟨rfl, nofun⟩
  | cons c cs ih =>
    obtain ⟨⟨f', ptr', r, ho, e, hcount, -, hopen, hle, hbytes⟩, hrest⟩ := hex
    cases h.opened.symm.trans ho
    have hfile : r.reader.files.file f = file := by
      rw [readCall_open h.opened] at e
      cases e
      exact h.same
    rw [h.same] at hcount hle hbytes
    have hlen : (readAt (file.content kern) ptr c.bufsize).length = r.count := by
      rw [length_readAt, File.content, length_bytesAt, hcount]
    have hr : InFile r.reader fd f (ptr + r.count) file := ⟨hopen, hfile, hle, h.size⟩
    obtain ⟨hmap, hcounts⟩ := ih hr (fun c' hc' => hb c' (List.mem_cons_of_mem _ hc')) (hrest r e)
    rw [readResults, e]
    refine ⟨?_, fun q hq => ?_⟩
    · rw [List.map_cons, List.map_cons, readsFrom, hlen, hmap]
      exact congrArg₂ List.cons hbytes rfl
    · cases hq with
      | head => exact (length_bytesAt _ _ _).symm
      | tail _ hq => exact hcounts q hq

end Sequence

/-- Reading a file in pieces: every call is exact, what the calls have put in the buffers of the caller
so far is a prefix of what was left of the file, and it is all of that once a call for at least one byte
returns 0. -/
structure ReadsFile (kern : Mem) (fd : Nat) (s : Reader) (calls : List ReadCall)
    (rest : List UInt8) : Prop where
  exact : AllExact kern fd calls s
  pieces : ∀ i, (((readResults kern fd s calls).take i).map Prod.snd).flatten <+: rest
  eof : ∀ i c bytes, calls[i]? = some c → 0 < c.bufsize →
    (readResults kern fd s calls)[i]? = some (0, bytes) →
    (((readResults kern fd s calls).take i).map Prod.snd).flatten = rest

/-- A sequence of calls on an open descriptor reads the file in pieces exactly when no sum of the position
and the size asked for passes 2^32. -/
theorem read_in_pieces {kern : Mem} {s : Reader} {fd f ptr : Nat} {calls : List ReadCall}
    (ho : OpenAt s.files fd f ptr) (hptr : ptr ≤ (s.files.file f).iSize)
    (hsize : (s.files.file f).iSize < 2147483648) (hb : ∀ c ∈ calls, c.bufsize < 4294967296) :
    ReadsFile kern fd s calls (((s.files.file f).content kern).drop ptr) ↔
      AllFit kern fd calls s := by
  have h : InFile s fd f ptr (s.files.file f) := ⟨ho, rfl, hptr, hsize⟩
  refine ⟨fun hr => (allExact_iff h hb).1 hr.exact, fun hfit => ?_⟩
  have hex := (allExact_iff h hb).2 hfit
  obtain ⟨hmap, hcounts⟩ := readResults_of_exact h hb hex
  have htake : ∀ i, ((readResults kern fd s calls).take i).map Prod.snd =
      (readsFrom ((s.files.file f).content kern) ptr (calls.map ReadCall.bufsize)).take i := by
    intro i
    rw [List.map_take, hmap]
  refine ⟨hex, fun i => ?_, fun i c bytes hc hpos hget => ?_⟩
  · rw [htake i]
    exact ((List.take_prefix i _).flatten).trans (flatten_readsFrom _ _ _)
  · have hlen : 0 = bytes.length := hcounts _ (List.mem_of_getElem? hget)
    have hnil : bytes = [] := List.length_eq_zero_iff.1 hlen.symm
    have hn : (calls.map ReadCall.bufsize)[i]? = some c.bufsize := by
      rw [List.getElem?_map, hc]
      rfl
    rw [htake i]
    refine readsFrom_eof hn hpos ?_
    rw [← hmap, List.getElem?_map, hget, hnil]
    rfl

/-- A file of ten bytes the first process has just opened. -/
def tenBytes : Reader where
  files := (sysOpen { bootFiles (fun _ => blankProcess) (fun _ => ⟨true, 10, 0, 0⟩) with cached := [1] }
    (some 1) 33554432).1
  user _ := 0

lemma tenBytes_inFile : InFile tenBytes 0 1 0 ⟨true, 10, 33554432, 1⟩ :=
  ⟨rfl, rfl, by decide, by decide⟩

/-- Three reads of six bytes give the ten bytes and the end of the file. -/
theorem read_in_pieces_ten :
    ReadsFile (fun a => UInt8.ofNat a) 0 tenBytes
      [⟨1073741824, 6⟩, ⟨1073741824, 6⟩, ⟨1073741824, 6⟩]
      (((tenBytes.files.file 1).content fun a => UInt8.ofNat a).drop 0) :=
  (read_in_pieces tenBytes_inFile.opened (by decide) (by decide) (by decide)).2
    (allFit_of_le tenBytes_inFile (by decide))

/-- After five bytes, a read of 2^32 - 1 bytes is not cut off at the end of the file. -/
theorem read_past_end :
    ¬ ReadsFile (fun a => UInt8.ofNat a) 0 tenBytes [⟨1073741824, 5⟩, ⟨1073741824, 4294967295⟩]
      (((tenBytes.files.file 1).content fun a => UInt8.ofNat a).drop 0) := by
  intro h
  have hfit := (allExact_iff tenBytes_inFile (by decide)).1 h.exact
  obtain ⟨r, e, hr⟩ := @InFile.step (fun a => UInt8.ofNat a) _ _ _ _ ⟨1073741824, 5⟩ _ tenBytes_inFile
    (by decide)
  have hptr : wrap (0 + readCount 10 0 5) = 5 := by
    rw [readCount_of_fits (by decide) (by decide) (by decide), wrap_of_lt (by decide)]
    decide
  have hlt := (hfit.2 r e).1 _ _ hr.opened
  rw [hptr] at hlt
  exact absurd hlt (by decide)

end Creeks
