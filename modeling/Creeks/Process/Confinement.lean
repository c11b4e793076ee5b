import Creeks.Process.Program

/-!
# The bytes `load_elf` touches

`load_elf` with the bytes it reads of the file and the bytes it stores, on any file whatsoever. It tests
`p_vaddr` and, in 32 bits, `p_vaddr + p_memsz`; what it copies is `p_filesz` bytes from `p_offset` on, and
nothing tells it the size of the file. `load_confined` says on which files it stays in the file and in user
space.

A read is counted by its distance from the beginning of the file, a store by its address.
-/

namespace Creeks
open Lib

/-- A byte of the file that is read, or a byte of memory that is stored. -/
inductive ElfAccess where
  | read (o : Nat)
  | write (a : Nat)
deriving DecidableEq

/-- The access lies in the file, of `size` bytes, or in user space. -/
def ElfAccess.Inside (size : Nat) : ElfAccess → Prop
  | .read o => o < size
  | .write a => USER_OFFSET ≤ a ∧ a < USER_STACK

/-- A field of `n` bytes is read. -/
def readField (o n : Nat) : List ElfAccess := (List.range n).map fun i => .read (o + i)

/-- The two copy loops for a segment. -/
def segmentAccesses (ph : Phdr) : List ElfAccess :=
  (List.range ph.pFilesz).flatMap
      (fun i => [.read (ph.pOffset + i), .write (wrap (ph.pVaddr + i))]) ++
    (List.range' ph.pFilesz (ph.pMemsz - ph.pFilesz)).map fun i => .write (wrap (ph.pVaddr + i))

/-- The loop of `load_elf`, with what it touches: `e_phnum` and `p_type`, for a segment to load the two
fields of the range, and for one that is not refused its flags and the fields of the copy. -/
def loadFromTraced (file : Nat) : Nat → Nat → Load → List ElfAccess × Load × Nat
  | _, 0, s => (readField 44 2 ++ readField 24 4, s, eEntry (fileAt s.mem file))
  | pe, n + 1, s =>
    let ph := phdr (fileAt s.mem file) pe
    let o := ePhoff (fileAt s.mem file) + 32 * pe
    let r :=
      if ph.pType ≠ PT_LOAD then loadFromTraced file (pe + 1) n s
      else if ph.refused then (readField (o + 8) 4 ++ readField (o + 20) 4, s, 0)
      else
        let r := loadFromTraced file (pe + 1) n
          ⟨copySegmentIn file ph s.mem, s.image.describe ph⟩
        (readField (o + 8) 4 ++ readField (o + 20) 4 ++ (readField (o + 24) 4 ++ readField (o + 4) 4 ++
          readField (o + 16) 4) ++ segmentAccesses ph ++ r.1, r.2)
    (readField 44 2 ++ readField o 4 ++ r.1, r.2)

/-- `load_elf`, with what it touches. `e_phoff` is read before the magic number. -/
def loadElfTraced (file : Nat) (s : Load) : List ElfAccess × Load × Nat :=
  let r :=
    if !isElf (fileAt s.mem file) then ([], s, 0)
    else loadFromTraced file 0 (ePhnum (fileAt s.mem file)) s
  (readField 28 4 ++ readField 0 4 ++ r.1, r.2)

/-- Everything `load_elf` touches lies in the file and in user space. -/
def Confined (file size : Nat) (s : Load) : Prop :=
  ∀ a ∈ (loadElfTraced file s).1, a.Inside size

lemma loadFromTraced_snd (file : Nat) (pe n : Nat) (s : Load) :
    (loadFromTraced file pe n s).2 = loadFrom file pe n s := by
  induction n generalizing pe s with
  | zero => rfl
  | succ n ih =>
    rw [loadFromTraced, loadFrom]
    dsimp only
    split
    · exact ih _ _
    · split
      · rfl
      · exact ih _ _

/-- What is counted does not change what is done. -/
lemma loadElfTraced_snd (file : Nat) (s : Load) : (loadElfTraced file s).2 = loadElfAt file s := by
  rw [loadElfTraced, loadElfAt]
  dsimp only
  split
  · rfl
  · exact loadFromTraced_snd _ _ _ _

/-! ## The files -/

/-- The segment is copied from the file and to user space. -/
structure Phdr.CopiesInside (ph : Phdr) (size : Nat) : Prop where
  source : ph.pFilesz = 0 ∨ ph.pOffset + ph.pFilesz ≤ size
  target : ph.pVaddr + max ph.pFilesz ph.pMemsz ≤ USER_STACK

/-- The fields of header `pe` that are looked at lie in the file, and the segment is copied inside. -/
structure HeaderInside (f : Mem) (size pe : Nat) : Prop where
  type : ePhoff f + 32 * pe + 4 ≤ size
  range : (phdr f pe).pType = PT_LOAD → ePhoff f + 32 * pe + 24 ≤ size
  copy : (phdr f pe).pType = PT_LOAD → ¬ (phdr f pe).refused = true →
    ePhoff f + 32 * pe + 28 ≤ size ∧ (phdr f pe).CopiesInside size

/-- The headers from `pe` on are inside, up to the first one that is refused. -/
def HeadersInside (f : Mem) (size pe n : Nat) : Prop :=
  ∀ j < n, (∀ i < j, ¬ (phdr f (pe + i)).refused = true) → HeaderInside f size (pe + j)

/-- A file with the fields that are looked at, and with segments that are copied inside. -/
structure ConfinedFile (f : Mem) (size : Nat) : Prop where
  header : 32 ≤ size
  count : isElf f = true → 46 ≤ size
  headers : isElf f = true → HeadersInside f size 0 (ePhnum f)

/-! ## One turn -/

section Turn

variable {ph : Phdr} {f : Mem} {o n size pe v file x : Nat} {mem m : Mem}

lemma readField_inside (hn : 0 < n) : (∀ a ∈ readField o n, a.Inside size) ↔ o + n ≤ size := by
  unfold readField
  rw [List.forall_mem_map]
  constructor
  · intro h
    have hlast : o + (n - 1) < size := h (n - 1) (List.mem_range.2 (by omega))
    omega
  · intro h i hi
    have := List.mem_range.1 hi
    show o + i < size
    omega

/-- Consecutive stores stay in user space when the last one does: a store behind the end comes before
any that wraps around. -/
lemma stores_inside (hlo : USER_OFFSET ≤ v) (hlt : v < 4294967296) :
    (∀ i < n, USER_OFFSET ≤ wrap (v + i) ∧ wrap (v + i) < USER_STACK) ↔
      n = 0 ∨ v + n ≤ USER_STACK := by
  simp only [USER_OFFSET, USER_STACK] at hlo ⊢
  constructor
  · intro h
    by_contra hne
    have hfirst := (h 0 (by omega)).2
    rw [Nat.add_zero, wrap_of_lt hlt] at hfirst
    have hend := (h (0xE0000000 - v) (by omega)).2
    rw [wrap_of_lt (by omega)] at hend
    omega
  · intro h i hi
    rw [wrap_of_lt (by omega)]
    omega

lemma phdr_pVaddr_lt : (phdr f pe).pVaddr < 4294967296 := load32_lt _ _

/-- What the two tests of a segment that is not refused have said. -/
lemma not_refused (ht : ph.pType = PT_LOAD) (h : ¬ ph.refused = true) :
    USER_OFFSET ≤ ph.pVaddr ∧ wrap (ph.pVaddr + ph.pMemsz) ≤ USER_STACK := by
  unfold Phdr.refused at h
  rw [ht, beq_self_eq_true, Bool.true_and, Bool.or_eq_true, decide_eq_true_eq, decide_eq_true_eq] at h
  omega

lemma segmentAccesses_inside (hlo : USER_OFFSET ≤ ph.pVaddr) (hlt : ph.pVaddr < 4294967296)
    (hend : wrap (ph.pVaddr + ph.pMemsz) ≤ USER_STACK) :
    (∀ a ∈ segmentAccesses ph, a.Inside size) ↔ ph.CopiesInside size := by
  have reads : (∀ i < ph.pFilesz, ph.pOffset + i < size) ↔
      ph.pFilesz = 0 ∨ ph.pOffset + ph.pFilesz ≤ size := by
    constructor
    · intro h
      by_contra hne
      have := h (ph.pFilesz - 1) (by omega)
      omega
    · intro h i hi
      omega
  have writes := stores_inside (n := max ph.pFilesz ph.pMemsz) hlo hlt
  constructor
  · intro h
    have hcopy : ∀ i < ph.pFilesz, (ElfAccess.read (ph.pOffset + i)).Inside size ∧
        (ElfAccess.write (wrap (ph.pVaddr + i))).Inside size := fun i hi => by
      have hmem := fun a ha => h a (List.mem_append_left _ (List.mem_flatMap.2
        ⟨i, List.mem_range.2 hi, ha⟩))
      exact ⟨hmem _ List.mem_cons_self, hmem _ (List.mem_cons_of_mem _ List.mem_cons_self)⟩
    have hzero : ∀ i, ph.pFilesz ≤ i → i < ph.pMemsz →
        (ElfAccess.write (wrap (ph.pVaddr + i))).Inside size := fun i h1 h2 =>
      h _ (List.mem_append_right _ (List.mem_map.2 ⟨i, List.mem_range'_1.2 ⟨h1, by omega⟩, rfl⟩))
    refine ⟨reads.1 fun i hi => (hcopy i hi).1, ?_⟩
    have hall : ∀ i < max ph.pFilesz ph.pMemsz,
        USER_OFFSET ≤ wrap (ph.pVaddr + i) ∧ wrap (ph.pVaddr + i) < USER_STACK := fun i hi => by
      by_cases hc : i < ph.pFilesz
      · exact (hcopy i hc).2
      · exact hzero i (by omega) (by omega)
    rcases writes.1 hall with hnone | hin
    · have hz : ph.pMemsz = 0 := by omega
      rw [hz, Nat.add_zero, wrap_of_lt hlt] at hend
      omega
    · exact hin
  · rintro ⟨source, target⟩ a ha
    have hall := writes.2 (.inr target)
    rcases List.mem_append.1 ha with ha | ha
    · obtain ⟨i, hi, ha⟩ := List.mem_flatMap.1 ha
      have hi := List.mem_range.1 hi
      rcases List.mem_cons.1 ha with rfl | ha
      · exact reads.2 source i hi
      · cases List.mem_singleton.1 ha
        exact hall i (by omega)
    · obtain ⟨i, hi, rfl⟩ := List.mem_map.1 ha
      have hi := List.mem_range'_1.1 hi
      exact hall i (by omega)

/-- A segment that is copied inside leaves kernel memory alone. -/
lemma Phdr.CopiesInside.low (h : ph.CopiesInside size) (hfile : file + size ≤ USER_OFFSET)
    (hlo : USER_OFFSET ≤ ph.pVaddr) (hx : x < USER_OFFSET) : copySegmentIn file ph mem x = mem x := by
  obtain ⟨source, target⟩ := h
  simp only [USER_OFFSET, USER_STACK] at hfile hlo hx target
  rw [copySegmentIn, clearIn_eq (by omega), if_neg (by omega)]
  by_cases hz : ph.pFilesz = 0
  · rw [hz]
    rfl
  · rw [copyIn_eq (by omega) (by omega), if_neg (by omega)]

end Turn

/-! ## The loop -/

section Loop

variable {f : Mem} {file size pe n : Nat} {mem m : Mem} {image : Image}

/-- The headers from `pe` on are inside when the first one is and, unless it is refused, the others
are. -/
lemma headersInside_succ : HeadersInside f size pe (n + 1) ↔
    HeaderInside f size pe ∧ (¬ (phdr f pe).refused = true → HeadersInside f size (pe + 1) n) := by
  constructor
  · intro h
    refine ⟨h 0 (Nat.succ_pos n) nofun, fun hr j hj hbefore => ?_⟩
    have hj := h (j + 1) (Nat.succ_lt_succ hj) fun i hi => by
      cases i with
      | zero => exact hr
      | succ i =>
        have := hbefore i (Nat.lt_of_succ_lt_succ hi)
        rwa [Nat.add_right_comm, Nat.add_assoc] at this
    rwa [← Nat.add_assoc, Nat.add_right_comm] at hj
  · rintro ⟨hfirst, hrest⟩ j hj hbefore
    cases j with
    | zero => exact hfirst
    | succ j =>
      have hr : ¬ (phdr f pe).refused = true := hbefore 0 (Nat.succ_pos j)
      have hj := hrest hr j (Nat.lt_of_succ_lt_succ hj) fun i hi => by
        have := hbefore (i + 1) (Nat.succ_lt_succ hi)
        rwa [← Nat.add_assoc, Nat.add_right_comm] at this
      rwa [Nat.add_right_comm, Nat.add_assoc] at hj

/-- Memory below user space is what it was, so the file is. -/
def SameLow (mem m : Mem) : Prop := ∀ x < USER_OFFSET, m x = mem x

/-- A field of the file. -/
lemma SameLow.load32 (h : SameLow mem m) (hfile : file + size ≤ USER_OFFSET) {o : Nat} (ho : o + 4 ≤ size) :
    Lib.load32 (fileAt m file) o = Lib.load32 (fileAt mem file) o := by
  refine load32_congr fun x _ hx => ?_
  simp only [USER_OFFSET] at hfile
  unfold fileAt
  rw [wrap_of_lt (by omega)]
  exact h _ (by simp only [USER_OFFSET]; omega)

/-- The place of the headers. -/
lemma SameLow.phoff (h : SameLow mem m) (hfile : file + size ≤ USER_OFFSET) (h32 : 32 ≤ size) :
    ePhoff (fileAt m file) = ePhoff (fileAt mem file) :=
  h.load32 hfile (by omega)

/-- The type of a header whose first word lies in the file. -/
lemma SameLow.type (h : SameLow mem m) (hfile : file + size ≤ USER_OFFSET) (h32 : 32 ≤ size)
    (h4 : ePhoff (fileAt mem file) + 32 * pe + 4 ≤ size) :
    (phdr (fileAt m file) pe).pType = (phdr (fileAt mem file) pe).pType := by
  unfold phdr
  dsimp only
  rw [h.phoff hfile h32]
  exact h.load32 hfile (by omega)

/-- A header is refused or not by its first six words. -/
lemma SameLow.refused (h : SameLow mem m) (hfile : file + size ≤ USER_OFFSET) (h32 : 32 ≤ size)
    (h24 : ePhoff (fileAt mem file) + 32 * pe + 24 ≤ size) :
    (phdr (fileAt m file) pe).refused = (phdr (fileAt mem file) pe).refused := by
  have hv : (phdr (fileAt m file) pe).pVaddr = (phdr (fileAt mem file) pe).pVaddr := by
    unfold phdr
    dsimp only
    rw [h.phoff hfile h32]
    exact h.load32 hfile (by omega)
  have hm : (phdr (fileAt m file) pe).pMemsz = (phdr (fileAt mem file) pe).pMemsz := by
    unfold phdr
    dsimp only
    rw [h.phoff hfile h32]
    exact h.load32 hfile (by omega)
  unfold Phdr.refused
  rw [h.type hfile h32 (by omega), hv, hm]

/-- A header that lies in the file. -/
lemma SameLow.phdr (h : SameLow mem m) (hfile : file + size ≤ USER_OFFSET) (h32 : 32 ≤ size)
    (h28 : ePhoff (fileAt mem file) + 32 * pe + 28 ≤ size) :
    Creeks.phdr (fileAt m file) pe = Creeks.phdr (fileAt mem file) pe := by
  unfold Creeks.phdr
  rw [h.phoff hfile h32, h.load32 hfile (by omega), h.load32 hfile (by omega),
    h.load32 hfile (by omega), h.load32 hfile (by omega), h.load32 hfile (by omega),
    h.load32 hfile (by omega)]

/-- The loop touches what the headers say. -/
lemma loadFromTraced_inside (hfile : file + size ≤ USER_OFFSET) (h32 : 32 ≤ size) (hsame : SameLow mem m) :
    (∀ a ∈ (loadFromTraced file pe n ⟨m, image⟩).1, a.Inside size) ↔
      46 ≤ size ∧ HeadersInside (fileAt mem file) size pe n := by
  induction n generalizing pe m image with
  | zero =>
    rw [loadFromTraced, List.forall_mem_append, readField_inside (by decide), readField_inside (by decide)]
    refine ⟨fun h => ⟨h.1, nofun⟩, fun h => ⟨h.1, ?_⟩⟩
    omega
  | succ n ih =>
    rw [loadFromTraced, headersInside_succ]
    dsimp only
    rw [List.forall_mem_append, List.forall_mem_append, readField_inside (by decide),
      readField_inside (by decide), hsame.phoff hfile h32]
    generalize ho : ePhoff (fileAt mem file) + 32 * pe = o
    by_cases h4 : o + 4 ≤ size
    case neg => exact ⟨fun h => absurd h.1.2 h4, fun h => absurd (ho ▸ h.2.1.type) h4⟩
    rw [hsame.type hfile h32 (by omega)]
    by_cases hload : (phdr (fileAt mem file) pe).pType = PT_LOAD
    case neg =>
      have hr : ¬ (phdr (fileAt mem file) pe).refused = true := by
        unfold Phdr.refused
        rw [beq_false_of_ne hload, Bool.false_and]
        exact Bool.false_ne_true
      have hinside : HeaderInside (fileAt mem file) size pe :=
        ⟨ho ▸ h4, fun h => absurd h hload, fun h => absurd h hload⟩
      rw [if_pos hload, ih hsame]
      exact ⟨fun h => ⟨h.1.1, hinside, fun _ => h.2.2⟩, fun h => ⟨⟨h.1, h4⟩, h.1, h.2.2 hr⟩⟩
    rw [if_neg (not_not.2 hload)]
    by_cases h24 : o + 24 ≤ size
    case neg =>
      refine ⟨fun h => absurd ?_ h24, fun h => absurd (ho ▸ h.2.1.range hload) h24⟩
      by_cases hr : (phdr (fileAt m file) pe).refused = true
      · rw [if_pos hr, List.forall_mem_append, readField_inside (by decide), readField_inside (by decide)] at h
        exact h.2.2
      · rw [if_neg hr, List.forall_mem_append, List.forall_mem_append, List.forall_mem_append,
          List.forall_mem_append, readField_inside (by decide), readField_inside (by decide)] at h
        exact h.2.1.1.1.2
    rw [hsame.refused hfile h32 (by omega)]
    by_cases hr : (phdr (fileAt mem file) pe).refused = true
    case pos =>
      have hinside : HeaderInside (fileAt mem file) size pe :=
        ⟨ho ▸ h4, fun _ => ho ▸ h24, fun _ h => absurd hr h⟩
      rw [if_pos hr, List.forall_mem_append, readField_inside (by decide), readField_inside (by decide)]
      exact ⟨fun h => ⟨h.1.1, hinside, fun h => absurd hr h⟩, fun h => ⟨⟨h.1, h4⟩, by omega, h24⟩⟩
    rw [if_neg hr, List.forall_mem_append, List.forall_mem_append, List.forall_mem_append,
      List.forall_mem_append, List.forall_mem_append, List.forall_mem_append,
      readField_inside (by decide), readField_inside (by decide), readField_inside (by decide),
      readField_inside (by decide), readField_inside (by decide)]
    by_cases h28 : o + 28 ≤ size
    case neg =>
      exact ⟨fun h => absurd h.2.1.1.2.1.1 h28, fun h => absurd (ho ▸ (h.2.1.copy hload hr).1) h28⟩
    rw [hsame.phdr hfile h32 (by omega)]
    obtain ⟨hlo, hend⟩ := not_refused hload hr
    rw [segmentAccesses_inside hlo phdr_pVaddr_lt hend]
    by_cases hcopy : (phdr (fileAt mem file) pe).CopiesInside size
    case neg => exact ⟨fun h => absurd h.2.1.2 hcopy, fun h => absurd (h.2.1.copy hload hr).2 hcopy⟩
    have hnext : SameLow mem (copySegmentIn file (phdr (fileAt mem file) pe) m) := fun x hx =>
      (hcopy.low hfile hlo hx).trans (hsame x hx)
    have hinside : HeaderInside (fileAt mem file) size pe :=
      ⟨ho ▸ h4, fun _ => ho ▸ h24, fun _ _ => ⟨ho ▸ h28, hcopy⟩⟩
    rw [ih hnext]
    refine ⟨fun h => ⟨h.1.1, hinside, fun _ => h.2.2.2⟩, fun h => ⟨⟨h.1, h4⟩, ⟨?_, hcopy⟩, h.1, h.2.2 hr⟩⟩
    omega

/-- The files whose segments fit and do not overlap are among them. -/
lemma Loadable.confined (h : Loadable f size) : ConfinedFile f size := by
  have header := h.header
  refine ⟨by omega, fun _ => by omega, fun _ j hj _ => ?_⟩
  rw [Nat.zero_add]
  have table := h.table j hj
  refine ⟨by omega, fun _ => by omega, fun ht _ => ⟨by omega, ?_⟩⟩
  obtain ⟨-, high, sizes, inside⟩ := h.fits j ⟨hj, ht⟩
  exact ⟨.inr inside, by rwa [max_eq_right sizes]⟩

/-- The loads of a file whose headers and segments are inside touch nothing else, and no other file is
loaded so: it would have to be refused before the first header that leads outside, and only the range of a
segment in memory is tested. -/
theorem load_confined (image : Image) (hfile : file + size ≤ USER_OFFSET) :
    Confined file size ⟨mem, image⟩ ↔ ConfinedFile (fileAt mem file) size := by
  unfold Confined loadElfTraced
  dsimp only
  rw [List.forall_mem_append, List.forall_mem_append, readField_inside (by decide),
    readField_inside (by decide)]
  have hsame : SameLow mem mem := fun _ _ => rfl
  by_cases h32 : 32 ≤ size
  case neg => exact ⟨fun h => absurd h.1.1 h32, fun h => absurd h.header h32⟩
  by_cases helf : isElf (fileAt mem file) = true
  · rw [if_neg (by rw [helf]; exact Bool.false_ne_true), loadFromTraced_inside hfile h32 hsame]
    exact ⟨fun h => ⟨h32, fun _ => h.2.1, fun _ => h.2.2⟩,
      fun h => ⟨by omega, h.count helf, h.headers helf⟩⟩
  · rw [if_pos (by rw [Bool.eq_false_iff.2 helf]; rfl)]
    exact ⟨fun _ => ⟨h32, fun h => absurd h helf, fun h => absurd h helf⟩, fun _ => ⟨by omega, nofun⟩⟩

end Loop

theorem load_confined_small :
    KERN_HEAP + 118 ≤ USER_OFFSET ∧ Confined KERN_HEAP 118 ⟨fileInHeap smallElf, ⟨0, 0, 0, 0⟩⟩ :=
  ⟨by decide, (load_confined _ (by decide)).2 smallElf_loadable.confined⟩

/-- A segment of two bytes below the stack, with four bytes in the file. -/
def overlongElf : Mem
  | 0 => 0x7f
  | 1 => 0x45
  | 2 => 0x4c
  | 3 => 0x46
  | 27 => 0x40
  | 28 => 52
  | 44 => 1
  | 52 => 1
  | 60 => 0xfe
  | 61 => 0xff
  | 62 => 0xff
  | 63 => 0xdf
  | 68 => 4
  | 72 => 2
  | 76 => 5
  | _ => 0

/-- The segment ends at `USER_STACK` in memory, and its copy goes on behind it. -/
theorem overlong_segment : (loadElfAt KERN_HEAP ⟨fileInHeap overlongElf, ⟨0, 0, 0, 0⟩⟩).2 ≠ 0 ∧
    ElfAccess.write 0xE0000000 ∈ (loadElfTraced KERN_HEAP ⟨fileInHeap overlongElf, ⟨0, 0, 0, 0⟩⟩).1 ∧
    ¬ Confined KERN_HEAP 84 ⟨fileInHeap overlongElf, ⟨0, 0, 0, 0⟩⟩ := by
  have hfile : ∀ x < 118, fileAt (fileInHeap overlongElf) KERN_HEAP x = overlongElf x := fun _ =>
    fileAt_fileInHeap
  have helf : isElf (fileAt (fileInHeap overlongElf) KERN_HEAP) = true :=
    (isElf_congr hfile (by decide)).trans (by decide)
  have hnum : ePhnum (fileAt (fileInHeap overlongElf) KERN_HEAP) = 1 :=
    (ePhnum_congr hfile (by decide)).trans (by decide)
  have hph : phdr (fileAt (fileInHeap overlongElf) KERN_HEAP) 0 = ⟨1, 0, 0xDFFFFFFE, 4, 2, 5⟩ :=
    (phdr_congr hfile (by decide) (by decide)).trans (by decide)
  have hrefused : ¬ (Phdr.mk 1 0 0xDFFFFFFE 4 2 5).refused = true := by
    unfold Phdr.refused
    rw [wrap_of_lt (by decide)]
    decide
  have hwrite : ElfAccess.write 0xE0000000 ∈ segmentAccesses ⟨1, 0, 0xDFFFFFFE, 4, 2, 5⟩ := by
    refine List.mem_append_left _ (List.mem_flatMap.2 ⟨2, List.mem_range.2 (by decide), ?_⟩)
    rw [wrap_of_lt (by decide)]
    exact List.mem_cons_of_mem _ List.mem_cons_self
  have hmem : ElfAccess.write 0xE0000000 ∈
      (loadElfTraced KERN_HEAP ⟨fileInHeap overlongElf, ⟨0, 0, 0, 0⟩⟩).1 := by
    unfold loadElfTraced
    dsimp only
    rw [helf, hnum, if_neg (by decide), loadFromTraced, hph]
    dsimp only
    rw [if_neg (by decide), if_neg hrefused]
    refine List.mem_append_right _ (List.mem_append_right _ ?_)
    exact List.mem_append_left _ (List.mem_append_right _ hwrite)
  have hlow : SameLow (fileInHeap overlongElf)
      (copySegmentIn KERN_HEAP ⟨1, 0, 0xDFFFFFFE, 4, 2, 5⟩ (fileInHeap overlongElf)) := by
    intro x hx
    simp only [USER_OFFSET] at hx
    rw [copySegmentIn, clearIn_eq (by decide), copyIn_eq (by decide) (by decide)]
    dsimp only
    rw [if_neg (by omega), if_neg (by omega)]
  refine ⟨?_, hmem, fun h => absurd (h _ hmem).2 (lt_irrefl _)⟩
  -- the file is loaded: its entry point is returned
  rw [← loadElfTraced_snd, loadElfTraced]
  dsimp only
  rw [helf, hnum, if_neg (by decide), loadFromTraced_snd, loadFrom, hph]
  dsimp only
  rw [if_neg (by decide), if_neg hrefused, loadFrom]
  change Lib.load32 (fileAt _ KERN_HEAP) 24 ≠ 0
  rw [hlow.load32 (show KERN_HEAP + 84 ≤ USER_OFFSET by decide) (by decide)]
  have hentry : Lib.load32 (fileAt (fileInHeap overlongElf) KERN_HEAP) 24 = Lib.load32 overlongElf 24 :=
    load32_congr fun x _ hx => hfile x (by omega)
  rw [hentry]
  decide

end Creeks
