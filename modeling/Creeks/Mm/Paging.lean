import Creeks.Mm.Frame

/-!
# Page tables

The two-level translation of the processor (`walk`), the access of the kernel to page directories
and tables through the recursive entry 1023 (`readWord`/`writeWord` at `pdeAddr`/`pteAddr`), and the
functions of `mm.c` built on it: `pd0_add_page`, `pd_remove_page` and `get_p_addr`.

`SelfMap` says that entry 1023 of a directory designates the directory itself; `readWord_pde`,
`readWord_pte` and `writeWord_pte` then turn the computed addresses into entries. `KernelMap` is the
kernel half every directory has: entries 2 to 255 designate the tables `init_mm` placed in `pg1`.
-/

namespace Creeks
open Lib

/-- The frame number in a page directory or page table entry. -/
def frameOf (e : Nat) : Nat := e / 4096 % 1048576

/-- The contents of `ram` with word `i` of frame `f` replaced. -/
def setWord (ram : Nat → Nat → Nat) (f i w : Nat) : Nat → Nat → Nat := fun f' i' =>
  if f' = f ∧ i' = i then w else ram f' i'

/-- The translation of linear address `a` by the processor, through the directory in frame `d`. -/
def walk (ram : Nat → Nat → Nat) (d a : Nat) : Option Nat :=
  let pde := ram d (a / 4194304)
  if pde.testBit 0 then
    if pde.testBit 7 then some (pde / 4194304 % 1024 * 4194304 + a % 4194304)
    else
      let pte := ram (frameOf pde) (a / 4096 % 1024)
      if pte.testBit 0 then some (frameOf pte * 4096 + a % 4096) else none
  else none

/-- The frame of the page directory in `cr3`. -/
def Mm.dir (s : Mm) : Nat := s.cr3 / 4096

@[simp] lemma withHeap_dir (s : Mm) (mem : Mem) (used : Nat) :
    (s.withHeap mem used).dir = s.dir := by
  rw [Mm.dir, Mm.dir, withHeap_cr3]

@[simp] lemma withVm_dir (s : Mm) (areas : List VmArea) (head : Nat × Nat) :
    (s.withVm areas head).dir = s.dir := by
  rw [Mm.dir, Mm.dir, withVm_cr3]

/-- A word read in kernel mode at linear address `a`. -/
def readWord (s : Mm) (a : Nat) : Except Stop Nat :=
  match walk s.ram s.dir a with
  | some x => .ok (s.ram (x / 4096) (x % 4096 / 4))
  | none => .error (.fault a)

/-- A word written in kernel mode at linear address `a`. -/
def writeWord (s : Mm) (a w : Nat) : Except Stop Mm :=
  match walk s.ram s.dir a with
  | some x => .ok { s with ram := setWord s.ram (x / 4096) (x % 4096 / 4) w }
  | none => .error (.fault a)

/-- `pde`: the linear address of the directory entry for `v_addr`. -/
def pdeAddr (vAddr : Nat) : Nat := 0xFFFFF000 ||| ((vAddr &&& 0xFFC00000) >>> 20)

/-- `pte`: the linear address of the table entry for `v_addr`. -/
def pteAddr (vAddr : Nat) : Nat := 0xFFC00000 ||| ((vAddr &&& 0xFFFFF000) >>> 10)

/-- `pd0_add_page()`. -/
def pd0AddPage (s : Mm) (vAddr pAddr flags : Nat) : Except Stop Mm :=
  if vAddr > USER_OFFSET then .ok s
  else do
    let pde ← readWord s (pdeAddr vAddr)
    if pde &&& PG_PRESENT = 0 then .error (.noPageTable vAddr)
    else writeWord s (pteAddr vAddr) (pAddr ||| (PG_PRESENT ||| PG_WRITE ||| flags))

/-- `get_p_addr()`. -/
def getPAddr (s : Mm) (vAddr : Nat) : Except Stop Nat := do
  let pde ← readWord s (pdeAddr vAddr)
  if pde &&& PG_PRESENT ≠ 0 then
    let pte ← readWord s (pteAddr vAddr)
    if pte &&& PG_PRESENT ≠ 0 then
      return (pte &&& 0xFFFFF000) + (vAddr &&& 0x00000FFF)
    else return 0
  else return 0

/-- `pd_remove_page()`. -/
def pdRemovePage (s : Mm) (vAddr : Nat) : Except Stop Mm := do
  let pAddr ← getPAddr s vAddr
  if pAddr ≠ 0 then
    let pte ← readWord s (pteAddr vAddr)
    writeWord s (pteAddr vAddr) (pte &&& 0xFFFFFFFE)
  else return s

/-- A write in kernel mode changes the frames and nothing else. -/
lemma writeWord_frame {s s' : Mm} {a w : Nat} (h : writeWord s a w = .ok s') :
    ∃ ram, s' = { s with ram := ram } := by
  unfold writeWord at h
  split at h
  case h_1 =>
    cases h
    exact ⟨_, rfl⟩
  case h_2 => cases h

/-- So does putting a page in the tables of the kernel. -/
lemma pd0AddPage_frame {s s' : Mm} {v p flags : Nat} (h : pd0AddPage s v p flags = .ok s') :
    ∃ ram, s' = { s with ram := ram } := by
  unfold pd0AddPage at h
  split at h
  · cases h
    exact ⟨_, rfl⟩
  · obtain ⟨pde, -, h⟩ := bind_ok.1 h
    split at h
    · cases h
    · exact writeWord_frame h

/-- So does taking a page out of them. -/
lemma pdRemovePage_frame {s s' : Mm} {v : Nat} (h : pdRemovePage s v = .ok s') :
    ∃ ram, s' = { s with ram := ram } := by
  obtain ⟨p, -, h⟩ := bind_ok.1 h
  split at h
  · obtain ⟨pte, -, h⟩ := bind_ok.1 h
    exact writeWord_frame h
  · cases h
    exact ⟨_, rfl⟩

@[simp] lemma setWord_same (ram : Nat → Nat → Nat) (f i w : Nat) : setWord ram f i w f i = w := by
  simp [setWord]

/-- Writing a word leaves every other word alone. -/
lemma setWord_other {ram : Nat → Nat → Nat} {f i w f' i' : Nat} (h : f' ≠ f ∨ i' ≠ i) :
    setWord ram f i w f' i' = ram f' i' := by
  unfold setWord
  rw [if_neg]
  rintro ⟨rfl, rfl⟩
  exact h.elim (· rfl) (· rfl)

/-- The address of a directory entry lies in the page 0xFFFFF000. -/
lemma pdeAddr_eq {v : Nat} (hv : v < 4294967296) :
    pdeAddr v = 0xFFFFF000 + v / 4194304 * 4 := by
  unfold pdeAddr
  have h : (v &&& 0xFFC00000) >>> 20 = v / 4194304 * 4 := by
    rw [land_dir, Nat.shiftRight_eq_div_pow]
    omega
  rw [h]
  exact lor_low (n := 12) (by decide) (by omega)

/-- The address of a table entry lies in the last 4 MB. -/
lemma pteAddr_eq {v : Nat} (hv : v < 4294967296) :
    pteAddr v = 0xFFC00000 + v / 4096 * 4 := by
  unfold pteAddr
  have h : (v &&& 0xFFFFF000) >>> 10 = v / 4096 * 4 := by
    rw [land_page, Nat.shiftRight_eq_div_pow]
    omega
  rw [h]
  exact lor_low (n := 22) (by decide) (by omega)

/-- Entry 1023 of the directory in frame `d` designates that directory. -/
structure SelfMap (ram : Nat → Nat → Nat) (d : Nat) : Prop where
  present : (ram d 1023).testBit 0 = true
  small : (ram d 1023).testBit 7 = false
  frame : frameOf (ram d 1023) = d

/-- The recursive entry turns the address of a directory entry into that entry. -/
lemma SelfMap.walk_pde {ram : Nat → Nat → Nat} {d v : Nat} (sm : SelfMap ram d)
    (hv : v < 4294967296) : walk ram d (pdeAddr v) = some (d * 4096 + v / 4194304 * 4) := by
  rw [pdeAddr_eq hv]
  have h1 : (0xFFFFF000 + v / 4194304 * 4) / 4194304 = 1023 := by omega
  have h2 : (0xFFFFF000 + v / 4194304 * 4) / 4096 % 1024 = 1023 := by omega
  have h3 : (0xFFFFF000 + v / 4194304 * 4) % 4096 = v / 4194304 * 4 := by omega
  simp [walk, h1, h2, h3, sm.present, sm.small, sm.frame]

/-- The recursive entry turns the address of a table entry into that entry, when the table is
there. -/
lemma SelfMap.walk_pte {ram : Nat → Nat → Nat} {d v : Nat} (sm : SelfMap ram d)
    (hv : v < 4294967296) (hp : (ram d (v / 4194304)).testBit 0 = true) :
    walk ram d (pteAddr v) =
      some (frameOf (ram d (v / 4194304)) * 4096 + v / 4096 % 1024 * 4) := by
  rw [pteAddr_eq hv]
  have h1 : (0xFFC00000 + v / 4096 * 4) / 4194304 = 1023 := by omega
  have h2 : (0xFFC00000 + v / 4096 * 4) / 4096 % 1024 = v / 4194304 := by omega
  have h3 : (0xFFC00000 + v / 4096 * 4) % 4096 = v / 4096 % 1024 * 4 := by omega
  simp [walk, h1, h2, h3, sm.present, sm.small, sm.frame, hp]

section Recursive

variable {s : Mm} {v : Nat}

/-- Reading a directory entry through the recursive entry. -/
lemma readWord_pde (sm : SelfMap s.ram s.dir) (hv : v < 4294967296) :
    readWord s (pdeAddr v) = .ok (s.ram s.dir (v / 4194304)) := by
  unfold readWord
  rw [sm.walk_pde hv]
  have h1 : (s.dir * 4096 + v / 4194304 * 4) / 4096 = s.dir := by omega
  have h2 : (s.dir * 4096 + v / 4194304 * 4) % 4096 / 4 = v / 4194304 := by omega
  simp only [h1, h2]

/-- Writing a directory entry through the recursive entry. -/
lemma writeWord_pde (sm : SelfMap s.ram s.dir) (hv : v < 4294967296) (w : Nat) :
    writeWord s (pdeAddr v) w =
      .ok { s with ram := setWord s.ram s.dir (v / 4194304) w } := by
  unfold writeWord
  rw [sm.walk_pde hv]
  have h1 : (s.dir * 4096 + v / 4194304 * 4) / 4096 = s.dir := by omega
  have h2 : (s.dir * 4096 + v / 4194304 * 4) % 4096 / 4 = v / 4194304 := by omega
  simp only [h1, h2]

/-- Reading a table entry through the recursive entry. -/
lemma readWord_pte (sm : SelfMap s.ram s.dir) (hv : v < 4294967296)
    (hp : (s.ram s.dir (v / 4194304)).testBit 0 = true) :
    readWord s (pteAddr v) =
      .ok (s.ram (frameOf (s.ram s.dir (v / 4194304))) (v / 4096 % 1024)) := by
  unfold readWord
  rw [sm.walk_pte hv hp]
  generalize frameOf (s.ram s.dir (v / 4194304)) = f
  have h1 : (f * 4096 + v / 4096 % 1024 * 4) / 4096 = f := by omega
  have h2 : (f * 4096 + v / 4096 % 1024 * 4) % 4096 / 4 = v / 4096 % 1024 := by omega
  simp only [h1, h2]

/-- Writing a table entry through the recursive entry. -/
lemma writeWord_pte (sm : SelfMap s.ram s.dir) (hv : v < 4294967296)
    (hp : (s.ram s.dir (v / 4194304)).testBit 0 = true) (w : Nat) :
    writeWord s (pteAddr v) w =
      .ok { s with
        ram := setWord s.ram (frameOf (s.ram s.dir (v / 4194304))) (v / 4096 % 1024) w } := by
  unfold writeWord
  rw [sm.walk_pte hv hp]
  generalize frameOf (s.ram s.dir (v / 4194304)) = f
  have h1 : (f * 4096 + v / 4096 % 1024 * 4) / 4096 = f := by omega
  have h2 : (f * 4096 + v / 4096 % 1024 * 4) % 4096 / 4 = v / 4096 % 1024 := by omega
  simp only [h1, h2]

end Recursive

/-- The frame of the page table `init_mm` reserves in `pg1` for directory entry `i`. -/
def kernTable (i : Nat) : Nat := 1024 + i

/-- The kernel half of the directory in frame `d`: the two 4 MB pages, the tables of `pg1` and the
recursive entry. The directory itself is not stored among those tables. -/
structure KernelMap (ram : Nat → Nat → Nat) (d : Nat) : Prop where
  self : SelfMap ram d
  page0 : ram d 0 = 0x83
  page1 : ram d 1 = 0x400083
  tables : ∀ i, 2 ≤ i → i < 256 → ram d i = kernTable i * 4096 + 3
  outside : d < 1024 ∨ 2048 ≤ d

/-- Linear addresses translated by the tables of `pg1`. -/
def InTables (v : Nat) : Prop := 0x00800000 ≤ v ∧ v < 0x40000000

/-- The table entry of a kernel address. -/
def kernPte (ram : Nat → Nat → Nat) (v : Nat) : Nat :=
  ram (kernTable (v / 4194304)) (v / 4096 % 1024)

/-- The contents of `ram` with the table entry of a kernel address replaced. -/
def setKernPte (ram : Nat → Nat → Nat) (v w : Nat) : Nat → Nat → Nat :=
  setWord ram (kernTable (v / 4194304)) (v / 4096 % 1024) w

lemma InTables.lt {v : Nat} (h : InTables v) : v < 4294967296 := by
  have := h.2
  omega

/-- An entry made of a page-aligned address and flags with bit 0 has the present bit. -/
lemma entry_present (p f : Nat) : (p ||| (PG_PRESENT ||| PG_WRITE ||| f)).testBit 0 = true := by
  simp

/-- The frame of an entry made of an address and flags is the frame of the address. -/
lemma frameOf_entry {p f : Nat} (hp : p < 4294967296) (hf : f < 4096) :
    frameOf (p ||| (PG_PRESENT ||| PG_WRITE ||| f)) = p / 4096 := by
  have h : PG_PRESENT ||| PG_WRITE ||| f < 4096 :=
    Nat.or_lt_two_pow (n := 12) (by decide) hf
  rw [frameOf, lor_flags_div _ _ h]
  omega

section Kernel

variable {ram : Nat → Nat → Nat} {d v : Nat}

/-- The directory entry of a kernel address is present and designates its table in `pg1`. -/
lemma KernelMap.pde (km : KernelMap ram d) (hv : InTables v) :
    (ram d (v / 4194304)).testBit 0 = true ∧ (ram d (v / 4194304)).testBit 7 = false ∧
      frameOf (ram d (v / 4194304)) = kernTable (v / 4194304) := by
  obtain ⟨h1, h2⟩ := hv
  have hi : 2 ≤ v / 4194304 := by omega
  have hlt : v / 4194304 < 256 := by omega
  rw [km.tables _ hi hlt]
  generalize v / 4194304 = i at hi hlt
  have hsum : kernTable i * 4096 + 3 = 2 ^ 12 * kernTable i + 3 := by omega
  refine ⟨?_, ?_, ?_⟩
  · rw [hsum, Nat.testBit_two_pow_mul_add _ (by decide), if_pos (by decide)]; decide
  · rw [hsum, Nat.testBit_two_pow_mul_add _ (by decide), if_pos (by decide)]; decide
  · unfold frameOf kernTable
    omega

/-- Writing the table entry of a kernel address leaves the kernel half of a directory alone. -/
lemma KernelMap.setKernPte (km : KernelMap ram d) (hv : InTables v) (w : Nat) :
    KernelMap (setKernPte ram v w) d := by
  have keep : ∀ i, Creeks.setKernPte ram v w d i = ram d i := by
    intro i
    apply setWord_other
    left
    have := km.outside
    have := hv.1
    have := hv.2
    unfold kernTable
    omega
  refine ⟨⟨?_, ?_, ?_⟩, ?_, ?_, ?_, km.outside⟩
  · rw [keep]; exact km.self.present
  · rw [keep]; exact km.self.small
  · rw [keep]; exact km.self.frame
  · rw [keep]; exact km.page0
  · rw [keep]; exact km.page1
  · intro i h1 h2
    rw [keep]; exact km.tables i h1 h2

@[simp] lemma kernPte_setKernPte (ram : Nat → Nat → Nat) (v w : Nat) :
    kernPte (setKernPte ram v w) v = w := by
  simp [kernPte, setKernPte]

/-- Writing the table entry of one kernel page leaves the entries of the others alone. -/
lemma kernPte_setKernPte_other {u : Nat} (hu : InTables u) (hv : InTables v)
    (h : u / 4096 ≠ v / 4096) (w : Nat) :
    kernPte (setKernPte ram v w) u = kernPte ram u := by
  apply setWord_other
  have := hu.2
  have := hv.2
  unfold kernTable
  omega

/-- The translation of a kernel address is its table entry. -/
lemma KernelMap.walk (km : KernelMap ram d) (hv : InTables v) :
    walk ram d v =
      if (kernPte ram v).testBit 0 then some (frameOf (kernPte ram v) * 4096 + v % 4096)
      else none := by
  obtain ⟨h1, h2, h3⟩ := km.pde hv
  unfold Creeks.walk
  simp only [h1, h2, h3, if_true, Bool.false_eq_true, if_false]
  rfl

end Kernel

section Functions

variable {s : Mm} {v : Nat}

/-- `pd0_add_page` on a kernel address sets its table entry. -/
lemma pd0AddPage_eq (km : KernelMap s.ram s.dir) (hv : InTables v) (p flags : Nat) :
    pd0AddPage s v p flags =
      .ok { s with ram := setKernPte s.ram v (p ||| (PG_PRESENT ||| PG_WRITE ||| flags)) } := by
  have hlt := hv.lt
  obtain ⟨h1, -, h3⟩ := km.pde hv
  have hle : ¬ v > USER_OFFSET := by
    have := hv.2
    simp only [USER_OFFSET]
    omega
  have hne : ¬ s.ram s.dir (v / 4194304) &&& PG_PRESENT = 0 := by
    rw [land_one_eq_zero, h1]
    simp
  unfold pd0AddPage
  rw [if_neg hle, readWord_pde km.self hlt, ok_bind, if_neg hne,
    writeWord_pte km.self hlt h1, h3]
  rfl

/-- `get_p_addr` on a kernel address reads its table entry. -/
lemma getPAddr_eq (km : KernelMap s.ram s.dir) (hv : InTables v) :
    getPAddr s v =
      .ok (if (kernPte s.ram v).testBit 0 then frameOf (kernPte s.ram v) * 4096 + v % 4096
        else 0) := by
  have hlt := hv.lt
  obtain ⟨h1, -, h3⟩ := km.pde hv
  have hne : s.ram s.dir (v / 4194304) &&& PG_PRESENT ≠ 0 := by
    rw [Ne, land_one_eq_zero, h1]
    simp
  unfold getPAddr
  rw [readWord_pde km.self hlt, ok_bind, if_pos hne, readWord_pte km.self hlt h1, ok_bind, h3]
  change (if kernPte s.ram v &&& PG_PRESENT ≠ 0 then _ else _) = _
  by_cases hp : (kernPte s.ram v).testBit 0
  · have hb : kernPte s.ram v &&& PG_PRESENT ≠ 0 := by
      rw [Ne, land_one_eq_zero, hp]
      simp
    rw [if_pos hb, if_pos hp, ← land_offset]
    change Except.ok ((kernPte s.ram v &&& 0xFFFFF000) + (v &&& 0x00000FFF)) = _
    rw [land_page]
    rfl
  · have hb : ¬ kernPte s.ram v &&& PG_PRESENT ≠ 0 := by
      rw [not_not, land_one_eq_zero]
      simpa using hp
    rw [if_neg hb, if_neg hp]
    rfl

/-- `pd_remove_page` on a mapped kernel page clears the present bit of its table entry. -/
lemma pdRemovePage_eq (km : KernelMap s.ram s.dir) (hv : InTables v)
    (hp : (kernPte s.ram v).testBit 0 = true) (hf : frameOf (kernPte s.ram v) ≠ 0) :
    pdRemovePage s v =
      .ok { s with ram := setKernPte s.ram v (kernPte s.ram v &&& 0xFFFFFFFE) } := by
  have hlt := hv.lt
  obtain ⟨h1, -, h3⟩ := km.pde hv
  unfold pdRemovePage
  rw [getPAddr_eq km hv, ok_bind, if_pos hp, if_pos (by omega), readWord_pte km.self hlt h1,
    ok_bind, writeWord_pte km.self hlt h1, h3]
  rfl

end Functions

end Creeks
