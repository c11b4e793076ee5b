import Creeks.Process.Progress

/-!
# Processes without user pages

A file of a header only is loaded without a page fault. The lemmas say what is held and what is out when
`load_task` has made such a process (`HeaderFile.board`), and that its `sys_exit` answers
(`Endable.exit`).
-/

namespace Creeks
open Lib

/-! ## The memory manager during `load_task` -/

/-- The memory manager `t` while `load_task` makes a process with directory `pd` in `s`: the pages and the
chunks that are out, and what is kept of `s`. -/
structure Settled (s t : Mm) (pd : PageDirectory) (pages users : List Page) (chunks : List (Nat × Nat))
    (n : Nat) : Prop where
  frames : Frames t pages users
  map : KernelMap t.ram pd.frame
  supply : Supply t chunks n
  fresh : FreshWords t
  stale : t.stale = false
  head : t.headWords = s.headWords
  other : ∀ f i, f < 1024 ∨ 2048 ≤ f → f ≠ pd.frame → t.ram f i = s.ram f i

section Settled

variable {s t t' : Mm} {pd : PageDirectory} {kernel pages users : List Page}
  {others chunks chunks' : List (Nat × Nat)} {n n' : Nat}

/-- Another directory is loaded. -/
lemma Frames.load {cr3 : Nat} (h : Frames t pages users) : Frames { t with cr3 := cr3 } pages users :=
  h.keep (h.held.congr rfl h.held.lower h.held.upper (fun _ => id) fun _ _ => rfl) fun _ => id

namespace Settled

/-- The kernel heap has grown and its contents have changed. -/
lemma grow (h : Settled s t pd pages users chunks n) (g : Grows t t') (supply : Supply t' chunks' n') :
    Settled s t' pd pages users chunks' n' where
  frames := h.frames.grows g
  map := g.map h.map h.frames.held.lower
  supply := supply
  fresh := h.fresh.keep (fun _ => g.used) fun f hf =>
    g.ram h.frames.held.lower (.inr ((h.frames.grows g).held.free f hf))
  stale := g.fields.2.2.2.1.trans h.stale
  head := g.fields.2.1.trans h.head
  other := fun f i hf hne => (g.ram h.frames.held.lower hf).trans (h.other f i hf hne)

/-- Another directory is loaded. -/
lemma load {cr3 : Nat} (h : Settled s t pd pages users chunks n) (map : KernelMap t.ram (cr3 / 4096)) :
    Settled s { t with cr3 := cr3 } pd pages users chunks n :=
  ⟨h.frames.load, h.map, h.supply.load map, h.fresh, h.stale, h.head, h.other⟩

/-- A page is taken from the page heap. -/
lemma get (h : Settled s t pd pages users chunks (n + 2)) : ∃ t' pg,
    getPageFromHeap t = .ok (t', pg) ∧ Settled s t' pd (pg :: pages) users (pageChunk pg :: chunks) n := by
  obtain ⟨t', pg, e, supply⟩ := h.supply.get
  have km := h.supply.heap.map
  have held := h.frames.held
  obtain ⟨held', -, hout⟩ := held.get km e supply.oom
  have fresh := held.get_fresh km e supply.oom
  obtain ⟨_, _, -, -, -, g⟩ := getPageFromHeap_frame km held.areas held.lower held.upper e
  obtain ⟨_, _, hframe, -⟩ := getPageFrame_frame t
  refine ⟨t', pg, e, h.frames.cons held' fresh, h.map.sameOutside hout, supply,
    h.fresh.keep fresh.mono fun f hf => hout f 0 (.inr (held'.free f hf)), ?_, g.fields.2.1.trans h.head,
    fun f i hf hne => (hout f i hf).trans (h.other f i hf hne)⟩
  rw [g.fields.2.2.2.1]
  change (getPageFrame t).1.stale = false
  rw [hframe]
  exact h.stale

/-- `pd_create`, and the new directory is loaded. -/
lemma create (h : Idle s kernel users others (n + 3)) : ∃ t pd, pdCreate s = .ok (t, pd) ∧ pd.pt = [] ∧
    Settled s { t with cr3 := pd.base.pAddr } pd (pd.base :: kernel) users
      (pageChunk pd.base :: directoryChunk pd :: others) n := by
  obtain ⟨t, pd, e, frames, map, supply, fresh, stale, hpt⟩ := h.create
  have hmap := h.supply.heap.map
  obtain ⟨-, -, -, ram, hout, hram⟩ := h.frames.held.create hmap h.loaded e supply.oom
  refine ⟨t, pd, e, hpt, ?_⟩
  rw [PageDirectory.pages, hpt] at frames
  have all : Settled s t pd (pd.base :: kernel) users (pageChunk pd.base :: directoryChunk pd :: others) n := by
    refine ⟨frames, map.kernel, supply, fresh, stale, (h.frames.held.create_fields hmap e).2, fun f i hf hne => ?_⟩
    rw [hram, newDir_other hne]
    exact hout f i hf
  exact all.load map.kernel

/-- The memory manager can serve the next process. -/
lemma idle (h : Settled s t pd pages users chunks n) (pd0 : KernelMap s.ram 1) (loaded : Loaded t pages)
    (hbase : pd.base ∈ pages) : Idle t pages users chunks n := by
  have hge := (h.frames.kernel_frame hbase).1
  refine ⟨h.frames, loaded, pd0.congr fun j => h.other 1 j (.inl (by decide)) ?_, h.supply, h.fresh, h.stale⟩
  change 2048 ≤ pd.frame at hge
  omega

end Settled

end Settled

/-- A file of a header only that `load_task` accepts. -/
structure HeaderFile (x : ExecArgs) : Prop where
  argv : x.argv = []
  block : x.blocksize < 4092
  file : x.size < 4092
  reads : x.reads = []
  elf : isElf x.file = true
  segments : ePhnum x.file = 0
  entry : eEntry x.file ≠ 0

/-- The fields of the process `pid` that `load_task` has just made. -/
structure Newborn (m m' : Machine) (pid : Nat) (pd : PageDirectory) (kstack : Page) : Prop where
  own : m'.kernel.pd pid = some pd
  tables : pd.pt = []
  pglist : m'.kernel.pglist pid = []
  esp0 : m'.esp0 pid = wrap (kstack.vAddr + PAGESIZE - 16)
  regsCr3 : m'.kernel.regsCr3 = Function.update m.kernel.regsCr3 pid pd.base.pAddr
  table : m'.kernel.table =
    let t := { claimSlot m.kernel.table pid with current := m.kernel.table.current }
    fillSlot t pid (newParent t)
  cr3 : m'.kernel.mm.cr3 = m'.kernel.regsCr3 m.kernel.table.current

section Board

variable {m : Machine} {x : ExecArgs} {kernel users : List Page} {others : List (Nat × Nat)} {n : Nat}

/-- Up to the test of `e_entry`. -/
lemma HeaderFile.image {k : Kernel} (hx : HeaderFile x) (h : Idle k.mm kernel users others (n + 5 + 3)) :
    ∃ k' pd, loadImage k x = .ok ⟨k', k.table.current, x.param, eEntry x.file⟩ ∧ pd.pt = [] ∧
      k'.pd (freeSlot k.table) = some pd ∧ k'.pglist (freeSlot k.table) = [] ∧
      k'.regsCr3 = k.regsCr3 ∧
      k'.table = { claimSlot k.table (freeSlot k.table) with current := freeSlot k.table } ∧
      Settled k.mm k'.mm pd (pd.base :: kernel) users (pageChunk pd.base :: directoryChunk pd :: others) n := by
  obtain ⟨s1, pd, create, hpt, h1⟩ := Settled.create h
  obtain ⟨k1, hk1⟩ : ∃ k1, k1 = (({ k with
      table := claimSlot k.table (freeSlot k.table)
      mm := s1
      pd := Function.update k.pd (freeSlot k.table) (some pd)
      pglist := Function.update k.pglist (freeSlot k.table) []
      allocated := [] } : Kernel).setCurrent (freeSlot k.table)).setCr3 pd.base.pAddr := ⟨_, rfl⟩
  have hmm1 : k1.mm = { s1 with cr3 := pd.base.pAddr } := by
    rw [hk1]
    rfl
  rw [← hmm1] at h1
  obtain ⟨k2, p, e2, supply2, g2⟩ := h1.supply.ext2ReadFile hx.block hx.file hx.reads
  obtain ⟨k3, e3, supply3, g3⟩ := Supply.kernelKfree (l := []) supply2
  have f3 := (ext2ReadFile_frame e2).trans (Kernel.kfree_frame e3)
  refine ⟨k3, pd, ?_, hpt, ?_, ?_, ?_, ?_, h1.grow (g2.trans g3) supply3⟩
  · unfold loadImage
    dsimp only
    rw [hx.argv, copyArgs, if_pos rfl, ok_bind, create, ok_bind]
    dsimp only
    rw [← hk1, e2, ok_bind, loadElfInto, if_neg (by rw [hx.elf]; exact Bool.false_ne_true), hx.segments,
      List.range_zero, List.map_nil, loadSegments, ok_bind, e3, ok_bind]
    rfl
  · rw [f3.pd, hk1]
    exact Function.update_self ..
  · rw [f3.pglist, hk1]
    exact Function.update_self ..
  · rw [f3.regsCr3, hk1]
    rfl
  · rw [f3.table, hk1]
    rfl

/-- `load_task` of such a file while there are pages and frames to spare. -/
lemma HeaderFile.board (hx : HeaderFile x) (h : Idle m.kernel.mm kernel users others (n + 2 + 2 + 5 + 3))
    (hfree : (m.kernel.table.pList (freeSlot m.kernel.table)).state = 0)
    (hcur : m.kernel.table.current ≠ freeSlot m.kernel.table)
    (hloaded : m.kernel.regsCr3 m.kernel.table.current = KERN_PDIR ∨
      ∃ pg ∈ kernel, m.kernel.regsCr3 m.kernel.table.current = pg.pAddr)
    (hmap : KernelMap m.kernel.mm.ram (m.kernel.regsCr3 m.kernel.table.current / 4096)) :
    ∃ m' pd kstack, m.loadTask x = .ok (m', freeSlot m.kernel.table) ∧
      Newborn m m' (freeSlot m.kernel.table) pd kstack ∧
      Settled m.kernel.mm m'.kernel.mm pd (kstack :: pd.base :: kernel) users
        ((m'.console (freeSlot m.kernel.table), VCONSOLE_SIZE) :: pageChunk kstack :: pageChunk pd.base ::
          directoryChunk pd :: others) n := by
  obtain ⟨k1, pd, load, hpt, own, list, regs, table, h1⟩ := hx.image h
  obtain ⟨s2, kstack, get, h2⟩ := h1.get
  have hgrow : growPages VCONSOLE_SIZE = 2 := by
    rw [growPages, realSize, wrap_of_lt (by decide)]
    rfl
  obtain ⟨s3, console, kmalloc, supply3, g3⟩ := h2.supply.kmalloc (by decide) hgrow
  have h3 := h2.grow g3 supply3
  obtain ⟨m', start⟩ := Supply.start (m := { m with kernel := k1 }) h1.supply own m.kernel.table.current
    (USER_STACK - 16)
  obtain ⟨kstack', s2', s3', st⟩ := start_ok (m := { m with kernel := k1 }) own start
  obtain ⟨rfl, rfl⟩ := Prod.mk.inj (Except.ok.inj (get.symm.trans st.get))
  obtain ⟨rfl, hconsole⟩ := Prod.mk.inj (Except.ok.inj (kmalloc.symm.trans st.kmalloc))
  have hregs : m'.kernel.regsCr3 =
      Function.update m.kernel.regsCr3 (freeSlot m.kernel.table) pd.base.pAddr := by
    rw [st.regsCr3]
    dsimp only
    rw [regs]
  have hcr3 : m'.kernel.regsCr3 m.kernel.table.current = m.kernel.regsCr3 m.kernel.table.current := by
    rw [hregs, Function.update_of_ne hcur]
  -- the directory that is loaded again is not the new one
  have hbase : pd.base ∈ kstack :: pd.base :: kernel := List.mem_cons_of_mem _ List.mem_cons_self
  have hge : 2048 ≤ pd.frame := (h3.frames.kernel_frame hbase).1
  have hne : m.kernel.regsCr3 m.kernel.table.current / 4096 ≠ pd.frame := by
    rcases hloaded with e | ⟨pg, hpg, e⟩
    · rw [e]
      simp only [KERN_PDIR]
      omega
    · rw [e]
      exact h1.frames.held.frame_ne hpg
  have h4 := h3.load (hmap.congr fun j => h3.other _ j hmap.outside hne)
  refine ⟨m', pd, kstack, ?_, ⟨?_, hpt, ?_, ?_, hregs, ?_, ?_⟩, ?_⟩
  · unfold Machine.loadTask
    dsimp only
    rw [if_neg (not_not.2 hfree), load, ok_bind, if_neg hx.entry, hx.argv, pushArgs,
      if_pos List.length_nil, ok_bind, start, ok_bind]
    rfl
  · rw [st.dirs, own]
  · rw [st.pglist, list]
  · rw [st.esp0]
    exact Function.update_self ..
  · rw [st.table]
    dsimp only
    rw [table]
  · rw [st.mm]
  · rw [st.mm, hcr3, ← hconsole]
    exact h4

end Board

section Release

variable {s s' : Mm} {owned others : List (Nat × Nat)} {n r v : Nat} {pg : Page} {kernel : List Page}

/-- The end of `release_page_from_heap` takes at most one page for the kernel heap. -/
lemma mergePage_kernHeap (ho : Owned s owned) (km : KernelMap s.ram s.dir)
    (hroom : s.kernHeap + 1 * PAGESIZE ≤ KERN_HEAP_LIM) (h : mergePage s v = .ok (s', r)) :
    s'.kernHeap ≤ s.kernHeap + 1 * PAGESIZE := by
  have hle : s.kernHeap ≤ s.kernHeap + 1 * PAGESIZE := Nat.le_add_right _ _
  unfold mergePage at h
  generalize scan VmArea.vmStart v [] s.kernFreeVm = z at h
  obtain ⟨before, after⟩ := z
  dsimp only at h
  split at h
  · split at h
    · cases after with
      | nil => cases h
      | cons next after =>
        obtain ⟨t, hf, h⟩ := bind_ok.1 h
        cases h
        obtain ⟨mem, used, rfl⟩ := kfree_frame hf
        rw [withHeap_kernHeap]
        cases before <;> exact hle
    · cases h
      cases before <;> exact hle
  · split at h
    · cases h
      cases after <;> exact hle
    · split at h
      · obtain ⟨⟨t, p⟩, hm, h⟩ := bind_ok.1 h
        cases h
        have hsmall : growPages 16 = 1 := growPages_small (by decide)
        obtain ⟨t', p', e, uses⟩ := @Owned.kmalloc_room s owned 16 ho km (by decide) (by rwa [hsmall])
        rw [hm] at e
        cases e
        rw [hsmall] at uses
        exact uses.heap
      · cases h

/-- What `release_page_from_heap` does when it answers. -/
structure Released (s s' : Mm) (pages : List Page) (others : List (Nat × Nat)) : Prop where
  heap : PageHeap s' others
  held : Held s' pages
  kernHeap : s'.kernHeap ≤ s.kernHeap + 1 * PAGESIZE
  head : s'.headWords = s.headWords
  outside : SameOutside s.ram s'.ram

/-- `release_page_from_heap` answers for a page that is held. -/
lemma PageHeap.give (ph : PageHeap s others) (held : Held s (pg :: kernel))
    (hroom : s.kernHeap + 1 * PAGESIZE ≤ KERN_HEAP_LIM) (hhead : s.headWords.2 ≠ pg.vAddr) :
    ∃ s', releasePageFromHeap s pg.vAddr = .ok (s', 0) ∧ Released s s' kernel others := by
  have hpg := held.held pg List.mem_cons_self
  obtain ⟨f, -, hfr, hlo, -, hp⟩ := hpg.frameOf
  have hf : frameOf (kernPte s.ram pg.vAddr) ≠ 0 := by omega
  have hsmall : growPages 16 = 1 := growPages_small (by decide)
  rcases ph.release hpg.page hpg.taken hp hf hhead with ⟨s', e, ph', -, grows⟩ | ⟨hlim, -⟩
  · obtain ⟨h1, h2, h3⟩ := PageHeap.drop ph.map hpg.page hp hf
    have em := e
    rw [releasePageFromHeap, h1, ok_bind, if_neg h2, h3, ok_bind] at em
    obtain ⟨held', -, hout⟩ := held.release ph.map e
    have owned : Owned (pageDropped s pg.vAddr s.kernFreeVm) (chunksOf s.kernFreeVm ++ others) :=
      ph.owned.congr rfl rfl
    have map : KernelMap (pageDropped s pg.vAddr s.kernFreeVm).ram (pageDropped s pg.vAddr s.kernFreeVm).dir :=
      ph.map.setKernPte hpg.page.inTables _
    exact ⟨s', e, ph', held', @mergePage_kernHeap (pageDropped s pg.vAddr s.kernFreeVm) s' _ 0 pg.vAddr owned map
      hroom em, grows.fields.2.1, hout⟩
  · rw [hsmall] at hlim
    omega

/-- `pd_destroy` of a directory without tables answers. -/
lemma PageHeap.giveDir {pd : PageDirectory} (ph : PageHeap s others) (held : Held s (pd.base :: kernel))
    (hroom : s.kernHeap + 1 * PAGESIZE ≤ KERN_HEAP_LIM) (hhead : s.headWords.2 ≠ pd.base.vAddr)
    (hpt : pd.pt = []) (hpd : directoryChunk pd ∈ others) : ∃ s', pdDestroy s pd = .ok s' := by
  obtain ⟨s1, e1, r⟩ := ph.give held hroom hhead
  obtain ⟨mem, used, e2, -⟩ := r.heap.kfree hpd
  refine ⟨s1.withHeap mem used, ?_⟩
  rw [pdDestroy, hpt, releaseTables, ok_bind, e1, ok_bind]
  exact e2

end Release

/-- A process that can be ended: it has no user pages, and its pages are held. -/
structure Endable (m : Machine) (pd : PageDirectory) (kstack : Page) (kernel : List Page)
    (others : List (Nat × Nat)) : Prop where
  own : m.kernel.pd m.current = some pd
  tables : pd.pt = []
  pglist : m.kernel.pglist m.current = []
  esp0 : m.esp0 m.current = wrap (kstack.vAddr + PAGESIZE - 16)
  heap : PageHeap m.kernel.mm ((m.console m.current, VCONSOLE_SIZE) :: others)
  directory : directoryChunk pd ∈ others
  held : Held m.kernel.mm (kstack :: pd.base :: kernel)
  pd0 : KernelMap m.kernel.mm.ram 1
  room : m.kernel.mm.kernHeap + 2 * PAGESIZE ≤ KERN_HEAP_LIM
  head : ∀ v, HeapPage v → m.kernel.mm.headWords.2 ≠ v

/-- `sys_exit` answers. -/
lemma Endable.exit {m : Machine} {pd : PageDirectory} {kstack : Page} {kernel : List Page}
    {others : List (Nat × Nat)} (h : Endable m pd kstack kernel others) (status : Int) :
    ∃ m', m.sysExit status = .ok m' := by
  obtain ⟨own, hpt, list, hesp0, heap, hdir, held, pd0, room, head⟩ := h
  obtain ⟨mem, used, e1, ph1⟩ := heap.kfree List.mem_cons_self
  rw [List.erase_cons_head] at ph1
  have held1 := held.withHeap mem used
  have hkstack := (held.held kstack List.mem_cons_self).page
  have hbase := (held.held pd.base (List.mem_cons_of_mem _ List.mem_cons_self)).page
  have hpage : m.esp0 m.current &&& 0xFFFFF000 = kstack.vAddr := by
    have := hkstack.aligned
    have := hkstack.upper
    rw [hesp0, land_page, wrap_of_lt (by simp only [PAGESIZE]; omega)]
    simp only [PAGESIZE]
    omega
  obtain ⟨s2, e2, r2⟩ := ph1.give held1 (by rw [withHeap_kernHeap]; omega)
    (by rw [withHeap_headWords]; exact head _ hkstack)
  have hk2 := r2.kernHeap
  have hhead2 := r2.head
  have hout := r2.outside
  rw [withHeap_kernHeap] at hk2
  rw [withHeap_headWords] at hhead2
  rw [withHeap_ram] at hout
  -- the kernel thread's directory is loaded
  have ph3 : PageHeap { s2 with cr3 := KERN_PDIR } others := by
    refine ⟨?_, r2.heap.owned.congr rfl rfl, r2.heap.areas⟩
    have hdir : ({ s2 with cr3 := KERN_PDIR } : Mm).dir = 1 := by
      rw [Mm.dir]
      exact Nat.div_self (show 0 < 4096 by decide)
    rw [hdir]
    exact pd0.sameOutside hout
  have held3 : Held { s2 with cr3 := KERN_PDIR } (pd.base :: kernel) :=
    r2.held.congr rfl r2.held.lower r2.held.upper (fun _ => id) fun _ _ => rfl
  obtain ⟨s4, e4⟩ := ph3.giveDir held3 (by dsimp only; omega) (hhead2 ▸ head _ hbase) hpt hdir
  unfold Machine.sysExit
  dsimp only
  rw [list, releasePages, ok_bind, e1, ok_bind, hpage, e2, ok_bind, own]
  dsimp only
  rw [e4, ok_bind]
  exact ⟨_, rfl⟩

end Creeks
