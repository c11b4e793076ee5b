import Creeks.Mm.PageHeapSafety

/-!
# Page directories

`pd_create`, `pd_destroy` and `pd_add_page` of `mm.c`. A page directory and its tables live in pages of
the kernel page heap; they are filled through the linear address of the page (`fillWords`) and read
and written by `pd_add_page` through the recursive entry of the loaded directory.

`pd_add_page` clears the words 1 to 1023 of a new table. The ghost flag `stale` is raised when it puts
in service a table whose word 0 it has left present.
-/

namespace Creeks
open Lib

/-- A loop that writes the words `i` to `i + n - 1` of the page at `base`. -/
def fillWords (value : Mm → Nat → Except Stop Nat) (base : Nat) : Nat → Nat → Mm → Except Stop Mm
  | _, 0, s => .ok s
  | i, n + 1, s => do
    let w ← value s i
    let s ← writeWord s (base + 4 * i) w
    fillWords value base (i + 1) n s

/-- `pd_create()`. -/
def pdCreate (s : Mm) : Except Stop (Mm × PageDirectory) := do
  let r ← kmalloc s 12
  let b ← getPageFromHeap r.1
  let pdir := b.2.vAddr
  let s ← fillWords (fun s i => readWord s (KERN_PDIR + 4 * i)) pdir 0 256 b.1
  let s ← fillWords (fun _ _ => .ok 0) pdir 256 767 s
  let s ← writeWord s (pdir + 4 * 1023) (b.2.pAddr ||| (PG_PRESENT ||| PG_WRITE))
  return (s, ⟨r.2, b.2, []⟩)

/-- The loop of `pd_destroy`. -/
def releaseTables : List Page → Mm → Except Stop Mm
  | [], s => .ok s
  | pg :: l, s => do
    let r ← releasePageFromHeap s pg.vAddr
    let s ← kfree r.1 pg.addr
    releaseTables l s

/-- `pd_destroy()`. -/
def pdDestroy (s : Mm) (pd : PageDirectory) : Except Stop Mm := do
  let s ← releaseTables pd.pt s
  let r ← releasePageFromHeap s pd.base.vAddr
  kfree r.1 pd.addr

/-- The part of `pd_add_page` that puts a new page table in service. -/
def newTable (s : Mm) (vAddr flags : Nat) : Except Stop (Mm × Page) := do
  let r ← getPageFromHeap s
  let s ← fillWords (fun _ _ => .ok 0) r.2.vAddr 1 1023 r.1
  let left := (s.ram (r.2.pAddr / 4096) 0).testBit 0 && decide (vAddr / 4096 % 1024 ≠ 0)
  let s := { s with stale := s.stale || left }
  let s ← writeWord s (pdeAddr vAddr) (r.2.pAddr ||| (PG_PRESENT ||| PG_WRITE ||| flags))
  return (s, r.2)

/-- `pd_add_page()`. -/
def pdAddPage (s : Mm) (vAddr pAddr flags : Nat) (pd : Option PageDirectory) :
    Except Stop (Mm × Option PageDirectory) := do
  let pde ← readWord s (pdeAddr vAddr)
  if pde &&& PG_PRESENT = 0 then
    let r ← newTable s vAddr flags
    let s ← writeWord r.1 (pteAddr vAddr) (pAddr ||| (PG_PRESENT ||| PG_WRITE ||| flags))
    return (s, pd.map fun pd => { pd with pt := r.2 :: pd.pt })
  else
    let s ← writeWord s (pteAddr vAddr) (pAddr ||| (PG_PRESENT ||| PG_WRITE ||| flags))
    return (s, pd)

lemma fillWords_frame {value : Mm → Nat → Except Stop Nat} {base i n : Nat} {s s' : Mm}
    (h : fillWords value base i n s = .ok s') : ∃ ram, s' = { s with ram := ram } := by
  induction n generalizing s i with
  | zero =>
    cases h
    exact ⟨_, rfl⟩
  | succ n ih =>
    obtain ⟨w, -, h⟩ := bind_ok.1 h
    obtain ⟨t, hw, h⟩ := bind_ok.1 h
    obtain ⟨_, rfl⟩ := writeWord_frame hw
    obtain ⟨_, rfl⟩ := ih h
    exact ⟨_, rfl⟩

/-- `pd_create` gets a chunk and a page, and writes to memory. -/
lemma pdCreate_ok {s s' : Mm} {pd : PageDirectory} (e : pdCreate s = .ok (s', pd)) :
    ∃ s1 s2 ram, kmalloc s 12 = .ok (s1, pd.addr) ∧ getPageFromHeap s1 = .ok (s2, pd.base) ∧ pd.pt = [] ∧
      s' = { s2 with ram := ram } := by
  obtain ⟨⟨s1, a⟩, hk, e⟩ := bind_ok.1 e
  obtain ⟨⟨s2, pg⟩, hg, e⟩ := bind_ok.1 e
  obtain ⟨s3, h3, e⟩ := bind_ok.1 e
  obtain ⟨s4, h4, e⟩ := bind_ok.1 e
  obtain ⟨s5, h5, e⟩ := bind_ok.1 e
  obtain ⟨_, rfl⟩ := fillWords_frame h3
  obtain ⟨_, rfl⟩ := fillWords_frame h4
  obtain ⟨_, rfl⟩ := writeWord_frame h5
  cases e
  exact ⟨s1, s2, _, hk, hg, rfl, rfl⟩

/-- `newTable` gets a page and writes to memory. -/
lemma newTable_ok {s s' : Mm} {pg : Page} {v flags : Nat} (e : newTable s v flags = .ok (s', pg)) :
    ∃ s1 ram left, getPageFromHeap s = .ok (s1, pg) ∧
      s' = { s1 with ram := ram, stale := s1.stale || left } := by
  obtain ⟨⟨s1, pg'⟩, hg, e⟩ := bind_ok.1 e
  obtain ⟨s2, h2, e⟩ := bind_ok.1 e
  obtain ⟨s3, h3, e⟩ := bind_ok.1 e
  obtain ⟨_, rfl⟩ := fillWords_frame h2
  obtain ⟨_, rfl⟩ := writeWord_frame h3
  cases e
  exact ⟨s1, _, _, hg, rfl⟩

/-- The contents of `ram` with the words `i` to `i + n - 1` of frame `f` replaced by those of `g`. -/
def setWords (ram : Nat → Nat → Nat) (f i n : Nat) (g : Nat → Nat) : Nat → Nat → Nat := fun f' j =>
  if f' = f ∧ i ≤ j ∧ j < i + n then g j else ram f' j

section Words

variable {ram : Nat → Nat → Nat} {f i n d v w : Nat} {g : Nat → Nat}

lemma setWords_other {f' j : Nat} (h : f' ≠ f) : setWords ram f i n g f' j = ram f' j := by
  unfold setWords
  rw [if_neg fun e => h e.1]

lemma setWords_same {j : Nat} (h1 : i ≤ j) (h2 : j < i + n) : setWords ram f i n g f j = g j := by
  unfold setWords
  rw [if_pos ⟨rfl, h1, h2⟩]

lemma setWords_zero : setWords ram f i 0 g = ram := by
  funext f' j
  unfold setWords
  rw [if_neg]
  omega

/-- Writing one word and then the following ones. -/
lemma setWords_succ : setWords (setWord ram f i (g i)) f (i + 1) n g = setWords ram f i (n + 1) g := by
  funext f' j
  unfold setWords setWord
  by_cases hf : f' = f
  · by_cases hj : j = i
    · rw [if_neg (by omega), if_pos ⟨hf, hj⟩, if_pos ⟨hf, by omega, by omega⟩, hj]
    · by_cases hin : i + 1 ≤ j ∧ j < i + 1 + n
      · rw [if_pos ⟨hf, hin⟩, if_pos ⟨hf, by omega, by omega⟩]
      · rw [if_neg (fun e => hin e.2), if_neg (fun e => hj e.2), if_neg]
        rintro ⟨-, h1, h2⟩
        exact hin ⟨by omega, by omega⟩
  · rw [if_neg (fun e => hf e.1), if_neg (fun e => hf e.1), if_neg (fun e => hf e.1)]

/-- The kernel half of a directory only depends on the frame of the directory. -/
lemma KernelMap.congr {ram' : Nat → Nat → Nat} (km : KernelMap ram d)
    (h : ∀ j, ram' d j = ram d j) : KernelMap ram' d where
  self := ⟨by rw [h]; exact km.self.present, by rw [h]; exact km.self.small,
    by rw [h]; exact km.self.frame⟩
  page0 := by rw [h]; exact km.page0
  page1 := by rw [h]; exact km.page1
  tables := fun j h1 h2 => by rw [h]; exact km.tables j h1 h2
  outside := km.outside

/-- The entries of kernel addresses only depend on the tables of `pg1`. -/
lemma kernPte_congr {ram' : Nat → Nat → Nat} (hv : InTables v)
    (h : ∀ t j, 1024 ≤ t → t < 2048 → ram' t j = ram t j) : kernPte ram' v = kernPte ram v := by
  have := hv.2
  unfold kernPte kernTable
  exact h _ _ (by omega) (by omega)

/-- The linear address of a word of a mapped kernel page. -/
lemma KernelMap.walk_page (km : KernelMap ram d) (hv : InTables v) (ha : v % 4096 = 0)
    (hp : (kernPte ram v).testBit 0 = true) (hi : i < 1024) :
    Creeks.walk ram d (v + 4 * i) = some (frameOf (kernPte ram v) * 4096 + 4 * i) := by
  have hin : InTables (v + 4 * i) := by
    obtain ⟨h1, h2⟩ := hv
    exact ⟨by omega, by omega⟩
  have e : kernPte ram (v + 4 * i) = kernPte ram v := by
    unfold kernPte
    rw [show (v + 4 * i) / 4194304 = v / 4194304 by omega,
      show (v + 4 * i) / 4096 % 1024 = v / 4096 % 1024 by omega]
  rw [km.walk hin, e, if_pos hp]
  congr 2
  omega

/-- The two 4 MB pages of the kernel are mapped to themselves. -/
lemma KernelMap.walk_low (km : KernelMap ram d) (hv : v < 0x400000) :
    Creeks.walk ram d v = some v := by
  unfold Creeks.walk
  have hdiv : v / 4194304 = 0 := by omega
  have hpage : (0x83 : Nat) / 4194304 % 1024 * 4194304 + v % 4194304 = v := by omega
  simp only [hdiv, km.page0]
  rw [if_pos (by decide), if_pos (by decide), hpage]

end Words

section Pages

variable {s : Mm} {i n v w : Nat}

/-- Reading a word of the kernel page directory at its linear address. -/
lemma readWord_pd0 (km : KernelMap s.ram s.dir) (hi : i < 1024) :
    readWord s (KERN_PDIR + 4 * i) = .ok (s.ram 1 i) := by
  unfold readWord
  rw [km.walk_low (by simp only [KERN_PDIR]; omega)]
  simp only [KERN_PDIR]
  rw [show (4096 + 4 * i) / 4096 = 1 by omega, show (4096 + 4 * i) % 4096 / 4 = i by omega]

/-- Writing a word of a mapped kernel page. -/
lemma writeWord_page (km : KernelMap s.ram s.dir) (hv : InTables v) (ha : v % 4096 = 0)
    (hp : (kernPte s.ram v).testBit 0 = true) (hi : i < 1024) :
    writeWord s (v + 4 * i) w =
      .ok { s with ram := setWord s.ram (frameOf (kernPte s.ram v)) i w } := by
  unfold writeWord
  rw [km.walk_page hv ha hp hi]
  generalize frameOf (kernPte s.ram v) = f
  simp only [show (f * 4096 + 4 * i) / 4096 = f by omega,
    show (f * 4096 + 4 * i) % 4096 / 4 = i by omega]

/-- A loop that fills words of a mapped kernel page whose frame is neither the loaded directory nor
one of the tables of `pg1`. -/
lemma fillWords_eq (value : Mm → Nat → Except Stop Nat) {g : Nat → Nat} {f : Nat}
    (km : KernelMap s.ram s.dir) (hv : InTables v) (ha : v % 4096 = 0)
    (hp : (kernPte s.ram v).testBit 0 = true) (hf : frameOf (kernPte s.ram v) = f)
    (hd : f ≠ s.dir) (hout : f < 1024 ∨ 2048 ≤ f) (hin : i + n ≤ 1024)
    (hval : ∀ ram' j, (∀ f' j', f' ≠ f → ram' f' j' = s.ram f' j') → j < 1024 →
      value { s with ram := ram' } j = .ok (g j)) :
    fillWords value v i n s = .ok { s with ram := setWords s.ram f i n g } := by
  induction n generalizing s i with
  | zero =>
    rw [setWords_zero]
    rfl
  | succ n ih =>
    have h0 : value s i = .ok (g i) := hval s.ram i (fun _ _ _ => rfl) (by omega)
    rw [fillWords, h0, ok_bind, writeWord_page km hv ha hp (by omega), ok_bind, hf]
    have hpte : kernPte (setWord s.ram f i (g i)) v = kernPte s.ram v :=
      kernPte_congr hv fun t j h1 h2 => setWord_other (.inl (by omega))
    rw [ih (s := { s with ram := setWord s.ram f i (g i) })
      (km.congr fun j => setWord_other (.inl fun e => hd e.symm))
      (by rw [hpte]; exact hp) (by rw [hpte]; exact hf) hd (by omega) (fun ram' j h hj => ?_)]
    · rw [setWords_succ]
    · exact hval ram' j (fun f' j' hne => by rw [h f' j' hne]; exact setWord_other (.inl hne)) hj

/-- The contents of `ram` with a new page directory in frame `f`, whose address is `p`. -/
def newDir (ram : Nat → Nat → Nat) (f p : Nat) : Nat → Nat → Nat :=
  setWord (setWords (setWords ram f 0 256 (ram 1)) f 256 767 fun _ => 0) f 1023
    (p ||| (PG_PRESENT ||| PG_WRITE))

section NewDir

variable {ram : Nat → Nat → Nat} {f p i : Nat}

lemma newDir_other {f' : Nat} (h : f' ≠ f) : newDir ram f p f' i = ram f' i := by
  rw [newDir, setWord_other (.inl h), setWords_other h, setWords_other h]

/-- The kernel half of a new directory is that of `pd0`. -/
lemma newDir_kernel (h : i < 256) : newDir ram f p f i = ram 1 i := by
  rw [newDir, setWord_other (.inr (by omega)), setWords, if_neg (by omega),
    setWords_same (Nat.zero_le _) (by omega)]

/-- The user half of a new directory is empty. -/
lemma newDir_user (h1 : 256 ≤ i) (h2 : i < 1023) : newDir ram f p f i = 0 := by
  rw [newDir, setWord_other (.inr (by omega)), setWords_same h1 (by omega)]

lemma newDir_self : newDir ram f p f 1023 = p ||| (PG_PRESENT ||| PG_WRITE) := by
  rw [newDir, setWord_same]

/-- A new directory has the kernel half. -/
lemma newDir_map (km : KernelMap ram 1) (hp : p < 4294967296) (hf : p / 4096 = f)
    (hout : 2048 ≤ f) (h7 : p.testBit 7 = false) : KernelMap (newDir ram f p) f where
  self := by
    refine ⟨?_, ?_, ?_⟩ <;> rw [newDir_self]
    · simp
    · rw [Nat.testBit_or, h7]
      decide
    · rw [show PG_PRESENT ||| PG_WRITE = PG_PRESENT ||| PG_WRITE ||| 0 from rfl,
        frameOf_entry hp (by decide), hf]
  page0 := (newDir_kernel (by decide)).trans km.page0
  page1 := (newDir_kernel (by decide)).trans km.page1
  tables := fun i h1 h2 => (newDir_kernel h2).trans (km.tables i h1 h2)
  outside := .inr hout

end NewDir

/-- What `pd_create` does once it has got a page, for a frame that is neither the loaded directory nor
in `pg1`. -/
lemma pdCreate_eq {s1 s2 : Mm} {a f : Nat} {pg : Page} (hk : kmalloc s 12 = .ok (s1, a))
    (h : getPageFromHeap s1 = .ok (s2, pg)) (km : KernelMap s2.ram s2.dir) (hpage : HeapPage pg.vAddr)
    (hp : (kernPte s2.ram pg.vAddr).testBit 0 = true) (hfr : frameOf (kernPte s2.ram pg.vAddr) = f)
    (hd : f ≠ s2.dir) (hf : 2048 ≤ f) :
    pdCreate s = .ok ({ s2 with ram := newDir s2.ram f pg.pAddr }, ⟨a, pg, []⟩) := by
  have hv := hpage.inTables
  have hcopy := fillWords_eq (fun s i => readWord s (KERN_PDIR + 4 * i)) (g := s2.ram 1) (i := 0)
    (n := 256) km hv hpage.aligned hp hfr hd (.inr hf) (by decide) (fun ram' j hram hj => by
      have km' : KernelMap ram' s2.dir := km.congr fun j => hram _ j fun e => hd e.symm
      rw [readWord_pd0 (s := { s2 with ram := ram' }) km' hj]
      exact congrArg _ (hram 1 j (by omega)))
  -- the copied half leaves the loaded directory and the tables of `pg1` alone
  have step : ∀ i n g ram, (∀ j, ram s2.dir j = s2.ram s2.dir j) →
      (∀ t j, 1024 ≤ t → t < 2048 → ram t j = s2.ram t j) →
      (∀ j, setWords ram f i n g s2.dir j = s2.ram s2.dir j) ∧
      ∀ t j, 1024 ≤ t → t < 2048 → setWords ram f i n g t j = s2.ram t j := by
    intro i n g ram h1 h2
    exact ⟨fun j => (setWords_other fun e => hd e.symm).trans (h1 j),
      fun t j h3 h4 => (setWords_other (by omega)).trans (h2 t j h3 h4)⟩
  obtain ⟨h1, h2⟩ := step 0 256 (s2.ram 1) s2.ram (fun _ => rfl) (fun _ _ _ _ => rfl)
  obtain ⟨h3, h4⟩ := step 256 767 (fun _ => 0) _ h1 h2
  have hpte1 := kernPte_congr hv h2
  have hpte2 := kernPte_congr hv h4
  have hzero := fillWords_eq (s := { s2 with ram := setWords s2.ram f 0 256 (s2.ram 1) })
    (fun _ _ => .ok 0) (g := fun _ => 0) (i := 256) (n := 767) (km.congr h1) hv hpage.aligned
    (by rw [hpte1]; exact hp) (by rw [hpte1]; exact hfr) hd (.inr hf) (by decide)
    (fun _ _ _ _ => rfl)
  have hself := writeWord_page (s := { s2 with
    ram := setWords (setWords s2.ram f 0 256 (s2.ram 1)) f 256 767 fun _ => 0 })
    (w := pg.pAddr ||| (PG_PRESENT ||| PG_WRITE)) (km.congr h3) hv hpage.aligned
    (by rw [hpte2]; exact hp) (show 1023 < 1024 by decide)
  rw [pdCreate, hk, ok_bind, h]
  simp only [ok_bind, hcopy, hzero, hself, hpte2, hfr, pure_eq_ok]
  rfl

end Pages

/-- Growth leaves the frames outside `pg1` alone. -/
lemma Grows.ram {s t : Mm} (h : Grows s t) (hk : KERN_HEAP ≤ s.kernHeap) {f i : Nat}
    (hf : f < 1024 ∨ 2048 ≤ f) : t.ram f i = s.ram f i := by
  induction h with
  | heap s mem used => rw [withHeap_ram]
  | @page s t hlim _ ih =>
    simp only [KERN_HEAP, KERN_HEAP_LIM, PAGESIZE] at hk hlim
    rw [ih (by rw [growStep_kernHeap]; simp only [KERN_HEAP]; omega)]
    change setKernPte s.ram s.kernHeap _ f i = s.ram f i
    apply setWord_other
    left
    unfold kernTable
    omega

/-- A page-aligned address with flags below bit 7. -/
lemma testBit_entry {f flags i : Nat} (hi : i < 12) :
    (f * 4096 ||| flags).testBit i = flags.testBit i := by
  rw [Nat.testBit_or, show f * 4096 = 2 ^ 12 * f by omega, Nat.testBit_two_pow_mul]
  simp [hi]

/-- What `newTable` does once it has got a page, for a frame that is neither the loaded directory nor in
`pg1`. -/
lemma newTable_eq {s s1 : Mm} {pg : Page} {v f flags : Nat} (h : getPageFromHeap s = .ok (s1, pg))
    (km : KernelMap s1.ram s1.dir) (hpage : HeapPage pg.vAddr)
    (hp : (kernPte s1.ram pg.vAddr).testBit 0 = true) (hfr : frameOf (kernPte s1.ram pg.vAddr) = f)
    (hpf : pg.pAddr / 4096 = f) (hd : f ≠ s1.dir) (hf : 2048 ≤ f) (hv : v < 4294967296) :
    newTable s v flags = .ok ({ s1 with
      ram := setWord (setWords s1.ram f 1 1023 fun _ => 0) s1.dir (v / 4194304)
        (pg.pAddr ||| (PG_PRESENT ||| PG_WRITE ||| flags))
      stale := s1.stale || ((s1.ram f 0).testBit 0 && decide (v / 4096 % 1024 ≠ 0)) }, pg) := by
  have hfill := fillWords_eq (fun _ _ => .ok 0) (g := fun _ => 0) (i := 1) (n := 1023)
    km hpage.inTables hpage.aligned hp hfr hd (.inr hf) (by decide) (fun _ _ _ _ => rfl)
  have hword : setWords s1.ram f 1 1023 (fun _ => 0) f 0 = s1.ram f 0 := by
    unfold setWords
    rw [if_neg (by omega)]
  rw [newTable, h, ok_bind]
  simp only [hfill, ok_bind, hpf, hword]
  have hself : SelfMap (setWords s1.ram f 1 1023 fun _ => 0) s1.dir :=
    (KernelMap.congr km fun j => setWords_other fun e => hd e.symm).self
  rw [writeWord_pde (s := { s1 with
    ram := setWords s1.ram f 1 1023 fun _ => 0
    stale := _ }) hself hv]
  simp only [ok_bind, pure_eq_ok]
  rfl

end Creeks
