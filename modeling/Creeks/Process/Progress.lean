import Creeks.Process.Program
import Creeks.Process.UserMemory

/-!
# Calls of `load_task` that succeed

While there are pages and frames to spare, `load_task` loads every file it accepts. The lemmas follow
`load_task` part by part; the supply each part needs is a generous bound, counted in pages.
-/

namespace Creeks
open Lib

section Heap

variable {k : Kernel} {others : List (Nat × Nat)} {n size p : Nat}

lemma Supply.kernelKmalloc (h : Supply k.mm others (n + 1)) (hsize : size < 4092) :
    ∃ k' p, k.kmalloc size = .ok (k', p) ∧ Supply k'.mm ((p, size) :: others) n ∧
      Grows k.mm k'.mm := by
  obtain ⟨s, p, e, supply, grows⟩ := @Supply.kmalloc _ _ _ _ size h (by
    simp only [KERN_HEAP_LIM, KERN_HEAP]
    omega) (growPages_small hsize)
  exact ⟨{ k with mm := s, allocated := p :: k.allocated }, p, by rw [Kernel.kmalloc, e]; rfl, supply, grows⟩

lemma Supply.kernelKfree {l rest : List (Nat × Nat)} (h : Supply k.mm (l ++ (p, size) :: rest) n) :
    ∃ k', k.kfree p = .ok k' ∧ Supply k'.mm (l ++ rest) n ∧ Grows k.mm k'.mm := by
  obtain ⟨mem, used, e, supply⟩ := (h.perm List.perm_middle).kfree List.mem_cons_self
  rw [List.erase_cons_head] at supply
  refine ⟨{ k with
    mm := k.mm.withHeap mem used
    allocated := k.allocated.erase p
    strayFree := k.strayFree || !k.allocated.contains p }, ?_, supply, .heap _ _ _⟩
  rw [Kernel.kfree, e]
  rfl

/-- `ext2_read_file` of a file whose buffers are small. -/
lemma Supply.ext2ReadFile {x : ExecArgs} (h : Supply k.mm others (n + 5)) (hblock : x.blocksize < 4092)
    (hfile : x.size < 4092) (hreads : x.reads = []) :
    ∃ k' p, Creeks.ext2ReadFile k x = .ok (k', p) ∧ Supply k'.mm ((p, x.size) :: others) n ∧
      Grows k.mm k'.mm := by
  obtain ⟨k1, buf, e1, h1, g1⟩ := Supply.kernelKmalloc (n := n + 4) h hblock
  obtain ⟨k2, p, e2, h2, g2⟩ := Supply.kernelKmalloc (n := n + 3) h1 hblock
  obtain ⟨k3, pp, e3, h3, g3⟩ := Supply.kernelKmalloc (n := n + 2) h2 hblock
  obtain ⟨k4, ppp, e4, h4, g4⟩ := Supply.kernelKmalloc (n := n + 1) h3 hblock
  obtain ⟨k5, base, e5, h5, g5⟩ := Supply.kernelKmalloc (n := n) h4 hfile
  -- the four buffers are freed in the order they were allocated
  obtain ⟨k6, e6, h6, g6⟩ := Supply.kernelKfree
    (l := [(base, x.size), (ppp, x.blocksize), (pp, x.blocksize), (p, x.blocksize)]) h5
  obtain ⟨k7, e7, h7, g7⟩ := Supply.kernelKfree
    (l := [(base, x.size), (ppp, x.blocksize), (pp, x.blocksize)]) h6
  obtain ⟨k8, e8, h8, g8⟩ := Supply.kernelKfree (l := [(base, x.size), (ppp, x.blocksize)]) h7
  obtain ⟨k9, e9, h9, g9⟩ := Supply.kernelKfree (l := [(base, x.size)]) h8
  have buffers : Grows k.mm k5.mm := (((g1.trans g2).trans g3).trans g4).trans g5
  refine ⟨k9, base, ?_, h9, (((buffers.trans g6).trans g7).trans g8).trans g9⟩
  rw [Creeks.ext2ReadFile, e1, ok_bind, e2, ok_bind, e3, ok_bind, e4, ok_bind, e5, ok_bind, hreads,
    List.foldlM_nil, pure_eq_ok, ok_bind, e6, ok_bind, e7, ok_bind, e8, ok_bind, e9, ok_bind, pure_eq_ok]

end Heap

section Segments

variable {k : Kernel} {pid n size : Nat} {pd : PageDirectory} {kernel users : List Page}
  {others : List (Nat × Nat)} {f t : Mem} {ph : Phdr}

/-- The bytes of a segment are in the memory `t`. -/
def Phdr.Within (f t : Mem) (ph : Phdr) : Prop :=
  ∀ i < ph.pMemsz, t (ph.pVaddr + i) = ph.byte f i

/-- The copy of a segment to the pages of the process. -/
lemma Ready.copySegment (h : Ready k pid pd kernel users others (n + 4 * ph.pMemsz))
    (hfits : ph.Fits size) (ht : ph.Within f t) : ∃ k' pd' l, copySegment pid f k ph = .ok k' ∧
      Ready k' pid pd' kernel users (l ++ others) n ∧
      ∀ c, ph.Covers c ∨ Shows k.mm t c → Shows k'.mm t c := by
  obtain ⟨low, high, sizes, -⟩ := hfits
  simp only [USER_OFFSET, USER_STACK] at low high
  have haddr : ∀ i < ph.pMemsz, wrap (ph.pVaddr + i) = ph.pVaddr + i := fun i hi =>
    wrap_of_lt (by omega)
  have huser : ∀ i < ph.pMemsz, USER_OFFSET ≤ wrap (ph.pVaddr + i) ∧ wrap (ph.pVaddr + i) < USER_STACK := by
    intro i hi
    rw [haddr i hi]
    simp only [USER_OFFSET, USER_STACK]
    omega
  have hsplit : n + 4 * ph.pMemsz = n + 4 * (ph.pMemsz - ph.pFilesz) + 4 * ph.pFilesz := by omega
  rw [hsplit] at h
  obtain ⟨k1, pd1, l1, e1, r1, s1⟩ := Ready.stores (t := t) (fun i => wrap (ph.pVaddr + i))
    (fun i => f (ph.pOffset + i)) (List.range ph.pFilesz) (by rwa [List.length_range])
    fun i hi => by
      have hi := List.mem_range.1 hi
      refine ⟨(huser i (by omega)).1, (huser i (by omega)).2, ?_⟩
      rw [haddr i (by omega), ht i (by omega), Phdr.byte, if_pos hi]
  obtain ⟨k2, pd2, l2, e2, r2, s2⟩ := Ready.stores (t := t) (fun i => wrap (ph.pVaddr + i))
    (fun _ => 0) (List.range' ph.pFilesz (ph.pMemsz - ph.pFilesz)) (by rwa [List.length_range'])
    fun i hi => by
      have hi := List.mem_range'_1.1 hi
      refine ⟨(huser i (by omega)).1, (huser i (by omega)).2, ?_⟩
      rw [haddr i (by omega), ht i (by omega), Phdr.byte, if_neg (by omega)]
  refine ⟨k2, pd2, l2 ++ l1, ?_, by rwa [List.append_assoc], fun c hc => s2 c ?_⟩
  · rw [Creeks.copySegment, e1, ok_bind, e2]
  · rcases hc with ⟨hlo, hhi⟩ | hc
    · have hin : wrap (ph.pVaddr + (c - ph.pVaddr)) = c := by
        rw [haddr _ (by omega)]
        omega
      by_cases hcopy : c - ph.pVaddr < ph.pFilesz
      · exact .inr (s1 c (.inl ⟨_, List.mem_range.2 hcopy, hin.symm⟩))
      · exact .inl ⟨c - ph.pVaddr, List.mem_range'_1.2 (by omega), hin.symm⟩
    · exact .inr (s1 c (.inr hc))

/-- The description of the segments is not part of memory. -/
lemma Ready.describe (h : Ready k pid pd kernel users others n) (image : Nat → Image) :
    Ready { k with image := image } pid pd kernel users others n :=
  ⟨⟨h.space.own, h.space.frames, h.space.map, h.space.cr3⟩, h.supply, h.fresh, h.stale⟩

/-- The bytes of the segments of a list of headers. -/
def imageSize (l : List Phdr) : Nat := ((l.filter (·.pType = PT_LOAD)).map (·.pMemsz)).sum

/-- The loop over the program headers goes through, and leaves the bytes of the segments. -/
lemma Ready.loadSegments {l : List Phdr} (h : Ready k pid pd kernel users others (n + 4 * imageSize l))
    (hl : ∀ ph ∈ l, ph.pType = PT_LOAD → ph.Fits size ∧ ph.Within f t) :
    ∃ k' pd' l', loadSegments pid f l k = .ok (k', eEntry f) ∧
      Ready k' pid pd' kernel users (l' ++ others) n ∧
      ∀ c, (∃ ph ∈ l, ph.pType = PT_LOAD ∧ ph.Covers c) ∨ Shows k.mm t c → Shows k'.mm t c := by
  induction l generalizing k pd others with
  | nil =>
    refine ⟨k, pd, [], rfl, h, fun c hc => hc.resolve_left ?_⟩
    rintro ⟨ph, hph, -⟩
    cases hph
  | cons ph l ih =>
    have hrest := fun ph' hph' => hl ph' (List.mem_cons_of_mem ph hph')
    by_cases htype : ph.pType = PT_LOAD
    · obtain ⟨hfits, hwithin⟩ := hl ph List.mem_cons_self htype
      have hsize : n + 4 * imageSize (ph :: l) = n + 4 * imageSize l + 4 * ph.pMemsz := by
        rw [imageSize, List.filter_cons_of_pos (by simpa using htype), List.map_cons, List.sum_cons, imageSize]
        omega
      rw [hsize] at h
      obtain ⟨k1, pd1, l1, e1, r1, s1⟩ := (h.describe (Function.update k.image pid
        ((k.image pid).describe ph))).copySegment hfits hwithin
      obtain ⟨k2, pd2, l2, e2, r2, s2⟩ := ih r1 hrest
      refine ⟨k2, pd2, l2 ++ l1, ?_, by rwa [List.append_assoc], fun c hc => s2 c ?_⟩
      · rw [Creeks.loadSegments, if_neg (not_not.2 htype), if_neg hfits.not_refused]
        dsimp only
        rw [e1, ok_bind, e2]
      · rcases hc with ⟨ph', hph', ht', hc⟩ | hc
        · rcases List.mem_cons.1 hph' with rfl | hph'
          · exact .inr (s1 c (.inl hc))
          · exact .inl ⟨ph', hph', ht', hc⟩
        · exact .inr (s1 c (.inr hc))
    · have hsize : imageSize (ph :: l) = imageSize l := by
        rw [imageSize, List.filter_cons_of_neg (by simpa using htype), imageSize]
      rw [hsize] at h
      obtain ⟨k1, pd1, l1, e1, r1, s1⟩ := ih h hrest
      refine ⟨k1, pd1, l1, ?_, r1, fun c hc => s1 c ?_⟩
      · rw [Creeks.loadSegments, if_pos htype, e1]
      · rcases hc with ⟨ph', hph', ht', hc⟩ | hc
        · rcases List.mem_cons.1 hph' with rfl | hph'
          · exact absurd ht' htype
          · exact .inl ⟨ph', hph', ht', hc⟩
        · exact .inr hc

end Segments

section Elf

variable {k : Kernel} {mem : Mem} {pid n size file : Nat} {pd : PageDirectory} {kernel users : List Page}
  {others : List (Nat × Nat)} {image : Image}

/-- `load_elf` through the page tables: with pages to spare it returns the entry point, and the process
sees the memory that `load_elf` makes of the one it saw before. -/
theorem loadElfInto_shows (hfile : file + size ≤ USER_OFFSET) (hf : Loadable (fileAt mem file) size)
    (h : Ready k pid pd kernel users others
      (n + 4 * imageSize ((List.range (ePhnum (fileAt mem file))).map (phdr (fileAt mem file))))) :
    ∃ k' pd' l, loadElfInto pid (fileAt mem file) k = .ok (k', (loadElfAt file ⟨mem, image⟩).2) ∧
      Ready k' pid pd' kernel users (l ++ others) n ∧
      ∀ c, (∃ pe, IsLoad (fileAt mem file) pe ∧ (phdr (fileAt mem file) pe).Covers c) ∨ Shows k.mm mem c →
        Shows k'.mm (loadElfAt file ⟨mem, image⟩).1.mem c := by
  obtain ⟨hret, placed⟩ := @loadElfAt_placed _ _ _ image hfile hf
  obtain ⟨k', pd', l, e, ready, shows⟩ := h.loadSegments
    (t := (loadElfAt file ⟨mem, image⟩).1.mem) fun ph hph ht => by
      obtain ⟨pe, hpe, rfl⟩ := List.mem_map.1 hph
      have hload : IsLoad (fileAt mem file) pe := ⟨List.mem_range.1 hpe, ht⟩
      refine ⟨hf.fits pe hload, fun i hi => ?_⟩
      rw [placed.segments pe hload.1 hload i hi, (hf.fits pe hload).byte_fileAt hfile]
  refine ⟨k', pd', l, ?_, ready, fun c hc => shows c ?_⟩
  · rw [loadElfInto, if_neg (by rw [hf.elf]; exact Bool.false_ne_true), e, hret]
  · by_cases hcov : ∃ pe, IsLoad (fileAt mem file) pe ∧ (phdr (fileAt mem file) pe).Covers c
    · obtain ⟨pe, hload, hpe⟩ := hcov
      exact .inl ⟨_, List.mem_map.2 ⟨pe, List.mem_range.2 hload.1, rfl⟩, hload.2, hpe⟩
    · obtain ⟨h1, h2, hv⟩ := hc.resolve_left hcov
      refine .inr ⟨h1, h2, hv.trans (congrArg some (placed.others c ?_).symm)⟩
      exact fun pe _ hload hpe => hcov ⟨pe, hload, hpe⟩

end Elf

/-! ## The whole call -/

section Task

variable {k k' : Kernel} {m : Machine} {x : ExecArgs} {pid n size : Nat} {pd : PageDirectory}
  {kernel users : List Page} {others others' : List (Nat × Nat)} {t : Mem}

/-- The kernel heap has grown and its contents have changed. -/
lemma Ready.grow {n' : Nat} (h : Ready k pid pd kernel users others n) (e : MemoryOnly k k')
    (g : Grows k.mm k'.mm) (supply : Supply k'.mm others' n') : Ready k' pid pd kernel users others' n' := by
  obtain ⟨⟨own, frames, map, cr3⟩, -, fresh, stale⟩ := h
  have hram : ∀ f i, 2048 ≤ f → k'.mm.ram f i = k.mm.ram f i := fun f i hf =>
    g.ram frames.held.lower (.inr hf)
  refine ⟨⟨e.pd ▸ own, ?_, ?_, g.fields.2.2.1.trans cr3⟩, supply, ?_, g.fields.2.2.2.1.trans stale⟩
  · rw [e.pglist]
    exact frames.grows g
  · rw [e.pglist]
    refine map.congr (fun j => hram _ j ?_) fun pg hpg j => hram _ j ?_
    · exact (frames.kernel_frame (List.mem_append_left _ List.mem_cons_self)).1
    · exact (frames.kernel_frame (List.mem_append_left _ (List.mem_cons_of_mem _ hpg))).1
  · exact fresh.keep (fun _ => g.used) fun f hf => hram f 0 ((frames.grows g).held.free f hf)

/-- A file that `load_task` can load without arguments, its buffers small. -/
structure SmallFile (x : ExecArgs) (size : Nat) (t : Mem) : Prop where
  argv : x.argv = []
  block : x.blocksize < 4092
  file : x.size < 4092
  reads : x.reads = []
  elf : isElf x.file = true
  segments : ∀ ph ∈ (List.range (ePhnum x.file)).map (phdr x.file), ph.pType = PT_LOAD →
    ph.Fits size ∧ ph.Within x.file t

/-- The bytes of the segments of a file. -/
def fileImageSize (f : Mem) : Nat := imageSize ((List.range (ePhnum f)).map (phdr f))

/-- The file is read and its segments are loaded. -/
lemma Idle.loadImage (h : Idle k.mm kernel users others (n + 4 * fileImageSize x.file + 5 + 3))
    (hx : SmallFile x size t) : ∃ l pd others', loadImage k x = .ok l ∧ l.eEntry = eEntry x.file ∧
      l.kernel.pd (freeSlot k.table) = some pd ∧ Supply l.kernel.mm others' n := by
  obtain ⟨s1, pd, create, frames, map, supply, fresh, stale, -⟩ := h.create
  obtain ⟨k1, hk1⟩ : ∃ k1, k1 = (({ k with
      table := claimSlot k.table (freeSlot k.table)
      mm := s1
      pd := Function.update k.pd (freeSlot k.table) (some pd)
      pglist := Function.update k.pglist (freeSlot k.table) []
      allocated := [] } : Kernel).setCurrent (freeSlot k.table)).setCr3 pd.base.pAddr := ⟨_, rfl⟩
  have own : k1.pd (freeSlot k.table) = some pd := by
    rw [hk1]
    exact Function.update_self ..
  have list : k1.pglist (freeSlot k.table) = [] := by
    rw [hk1]
    exact Function.update_self ..
  have mm : k1.mm = { s1 with cr3 := pd.base.pAddr } := by
    rw [hk1]
    rfl
  have ready : Ready k1 (freeSlot k.table) pd kernel users
      (pageChunk pd.base :: directoryChunk pd :: others) (n + 4 * fileImageSize x.file + 5) := by
    refine ⟨⟨own, ?_, ?_, by rw [mm]⟩, ?_, ?_, by rw [mm]; exact stale⟩
    · rw [list, mm]
      exact frames.keep (frames.held.congr rfl frames.held.lower frames.held.upper (fun _ => id)
        fun _ _ => rfl) fun _ => id
    · rw [list, mm]
      exact map
    · rw [mm]
      exact supply.load map.kernel
    · rw [mm]
      exact fresh
  obtain ⟨k2, p, e2, supply2, g2⟩ := ready.supply.ext2ReadFile hx.block hx.file hx.reads
  have ready2 := ready.grow (ext2ReadFile_frame e2) g2 supply2
  obtain ⟨k3, pd3, l3, e3, ready3, -⟩ := ready2.loadSegments hx.segments
  obtain ⟨k4, e4, supply4, g4⟩ := Supply.kernelKfree ready3.supply
  have own4 : k4.pd (freeSlot k.table) = some pd3 := by
    rw [(Kernel.kfree_frame e4).pd]
    exact ready3.space.own
  refine ⟨⟨k4, (claimSlot k.table (freeSlot k.table)).current, x.param, eEntry x.file⟩, pd3, _, ?_, rfl,
    own4, supply4⟩
  unfold Creeks.loadImage
  dsimp only
  rw [hx.argv, copyArgs, if_pos rfl, ok_bind, create, ok_bind]
  dsimp only
  rw [← hk1, e2, ok_bind, loadElfInto, if_neg (by rw [hx.elf]; exact Bool.false_ne_true), e3, ok_bind, e4,
    ok_bind]
  rfl

/-- The kernel stack and the console of a new process. -/
lemma Supply.start (h : Supply m.kernel.mm others (n + 2 + 2)) (hpd : m.kernel.pd pid = some pd)
    (previous stackp : Nat) : ∃ m', m.start pid previous stackp = .ok m' := by
  obtain ⟨s1, kstack, get, supply1⟩ := h.get
  have hgrow : growPages VCONSOLE_SIZE = 2 := by
    rw [growPages, realSize, wrap_of_lt (by decide)]
    rfl
  obtain ⟨s2, console, kmalloc, -, -⟩ := supply1.kmalloc (by decide) hgrow
  have hk : ({ m.kernel with mm := s1 } : Kernel).kmalloc VCONSOLE_SIZE =
      .ok ({ m.kernel with mm := s2, allocated := console :: m.kernel.allocated }, console) := by
    rw [Kernel.kmalloc]
    dsimp only
    rw [kmalloc]
    rfl
  unfold Machine.start
  rw [get, ok_bind, hk, ok_bind]
  dsimp only
  rw [hpd]
  exact ⟨_, rfl⟩

/-- `load_task` loads a small file while there are pages and frames to spare. -/
lemma Idle.loadTask (h : Idle m.kernel.mm kernel users others (n + 2 + 2 + 4 * fileImageSize x.file + 5 + 3))
    (hx : SmallFile x size t) (hentry : eEntry x.file ≠ 0)
    (hfree : (m.kernel.table.pList (freeSlot m.kernel.table)).state = 0) :
    ∃ m', m.loadTask x = .ok (m', freeSlot m.kernel.table) := by
  obtain ⟨l, pd, others', e, he, hpd, supply⟩ := h.loadImage hx
  obtain ⟨m', start⟩ := Supply.start (m := { m with kernel := l.kernel }) supply hpd l.previous
    (USER_STACK - 16)
  refine ⟨m', ?_⟩
  unfold Machine.loadTask
  dsimp only
  rw [if_neg (not_not.2 hfree), e, ok_bind, if_neg (he ▸ hentry), hx.argv, pushArgs,
    if_pos List.length_nil, ok_bind, start, ok_bind]
  rfl

end Task

/-! ## After the boot -/

/-- The machine after the boot, with the kernel thread alone. -/
def bootMachine (mm : Mm) : Machine where
  kernel := bootKernel mm (bootTable fun _ => blankProcess)
  esp0 _ := 0
  console _ := 0
  regsEsp _ := 0
  eHeap _ := 0

/-- The first `load_task` after the boot loads a file that is small enough. -/
lemma boot_loadTask {x : ExecArgs} {size : Nat} {t : Mem} (hx : SmallFile x size t)
    (hentry : eEntry x.file ≠ 0) (hsize : fileImageSize x.file ≤ 200) : ∃ s0 m',
      initMm blankMm 16384 = .ok s0 ∧ (bootMachine s0).loadTask x = .ok (m', 1) := by
  obtain ⟨s0, init, idle⟩ := initMm_idle
  have hidle : Idle s0 [] [] [] (0 + 2 + 2 + 4 * fileImageSize x.file + 5 + 3) :=
    { idle with supply := idle.supply.mono (by omega) }
  have hslot : freeSlot (bootTable fun _ => blankProcess) = 1 := by decide
  obtain ⟨m', e⟩ := Idle.loadTask (m := bootMachine s0) hidle hx hentry (by
    change ((bootTable fun _ => blankProcess).pList (freeSlot (bootTable fun _ => blankProcess))).state = 0
    rw [hslot]
    decide)
  refine ⟨s0, m', init, e.trans ?_⟩
  change Except.ok (m', freeSlot (bootTable fun _ => blankProcess)) = _
  rw [hslot]

end Creeks
