import Creeks.Process.Apart

/-!
# Arrival and departure

`load_task` finds a place for one more process beside the others, or undoes its work but for the user pages
of the refused file, and `sys_exit` gives back the frames of the process that runs. The other processes are
left where they are, with the words of their pages.
-/

namespace Creeks
open Lib

/-- The directory that is loaded is the one of the kernel or that of a live process. -/
def Runs (k : Kernel) (dir : Nat → PageDirectory) (live : List Nat) : Prop :=
  k.mm.cr3 = KERN_PDIR ∨ ∃ q ∈ live, k.mm.cr3 = (dir q).base.pAddr

namespace Apart

variable {k k' : Kernel} {live others : List Nat} {dir : Nat → PageDirectory} {kstack : Nat → Page}
  {lost lost' : List Page} {p : Nat}

/-- The directory of every process has the kernel half. -/
lemma mapOf (h : Apart k live dir kstack lost) {cr3 : Nat}
    (hr : cr3 = KERN_PDIR ∨ ∃ q ∈ live, cr3 = (dir q).base.pAddr) : KernelMap k.mm.ram (cr3 / 4096) := by
  rcases hr with rfl | ⟨q, hq, rfl⟩
  · have hone : KERN_PDIR / 4096 = 1 := by decide
    rw [hone]
    exact h.map
  · exact (h.guests q hq).map.kernel

lemma dirMap (h : Apart k live dir kstack lost) (hr : Runs k dir live) : KernelMap k.mm.ram k.mm.dir :=
  h.mapOf hr

lemma loaded (hr : Runs k dir live) : Loaded k.mm (live.flatMap (heldPages dir kstack)) := by
  rcases hr with hr | ⟨q, hq, hr⟩
  · exact .inl hr
  · exact .inr ⟨(dir q).base, List.mem_flatMap.2 ⟨q, hq, List.mem_cons_self⟩, hr⟩

/-- The other processes stay, with what is lost. -/
lemma rest {pages : List Page} (nodup : others.Nodup) (hp : p ∉ others) (h0 : p ≠ 0)
    (guests : ∀ q ∈ others, Guest k (dir q) q) (registers : k.regsCr3 0 = KERN_PDIR)
    (map : KernelMap k.mm.ram 1) (hpages : allPages k dir kstack others lost ⊆ pages)
    (e : Elsewhere k k' p pages)
    (frames : Frames k'.mm (others.flatMap (heldPages dir kstack)) (others.flatMap k.pglist ++ lost')) :
    Apart k' others dir kstack lost' := by
  refine ⟨nodup, fun q hq => ?_, ?_, ?_, map.congr e.low⟩
  · exact (guests q hq).elsewhere e (fun h => hp (h ▸ hq)) fun _ hmem => hpages (sub_allPages hq hmem)
  · rw [pglist_elsewhere e hp]
    exact frames
  · rw [(e.slots 0 h0.symm).2.2]
    exact registers

end Apart

/-! ## Arrival -/

/-- `load_task` before the test of `e_entry`: the process has a space of its own beside the others. -/
structure Boarded (k : Kernel) (l : Loading) (live : List Nat) (dir : Nat → PageDirectory)
    (kstack : Nat → Page) (lost : List Page) (pd : PageDirectory) : Prop where
  space : InSpace l.kernel (freeSlot k.table) pd (live.flatMap (heldPages dir kstack))
    (live.flatMap k.pglist ++ lost)
  bounded : Bounded l.kernel (freeSlot k.table)
  elsewhere : Elsewhere k l.kernel (freeSlot k.table) (allPages k dir kstack live lost)
  takes : Takes (pd.pages ++ l.kernel.pglist (freeSlot k.table)).length k.mm l.kernel.mm
  regsCr3 : l.kernel.regsCr3 = k.regsCr3
  table : l.kernel.table = { claimSlot k.table (freeSlot k.table) with current := freeSlot k.table }
  previous : l.previous = k.table.current

section Arrival

variable {k k' : Kernel} {live : List Nat} {dir : Nat → PageDirectory} {kstack : Nat → Page}
  {lost : List Page} {pid : Nat} {pd : PageDirectory} {x : ExecArgs} {l : Loading}

/-- The kernel when the new directory of slot `pid` is loaded. -/
def Kernel.opened (k : Kernel) (table : Table) (s : Mm) (pid : Nat) (pd : PageDirectory) : Kernel :=
  Kernel.setCr3 { k with
    table := table
    mm := s
    pd := Function.update k.pd pid (some pd)
    pglist := Function.update k.pglist pid [] } pd.base.pAddr

/-- A new directory is made for slot `pid` and loaded. -/
lemma Apart.enter {s : Mm} (apart : Apart k live dir kstack lost) (hr : Runs k dir live)
    (hd : pdCreate k.mm = .ok (s, pd)) (no : NoFlags s) (table : Table) (hk : k' = k.opened table s pid pd) :
    InSpace k' pid pd (live.flatMap (heldPages dir kstack)) (live.flatMap k.pglist ++ lost) ∧ Bounded k' pid ∧
      Elsewhere k k' pid (allPages k dir kstack live lost) := by
  have km := apart.dirMap hr
  obtain ⟨held, -, hpt, ram, hout, hram⟩ := apart.frames.held.create km (Apart.loaded hr) hd no.oom
  have frames := apart.frames.cons held (apart.frames.held.create_fresh km hd no.oom)
  obtain ⟨hlo, hhi, hpage⟩ := frames.kernel_frame List.mem_cons_self
  have hlist : k'.pglist pid = [] := by
    rw [hk]
    exact Function.update_self ..
  have hmm : k'.mm = { s with cr3 := pd.base.pAddr } := by rw [hk]; rfl
  have hword : k'.mm.ram = newDir ram pd.frame pd.base.pAddr := by
    rw [hmm]
    exact hram
  refine ⟨⟨?_, ?_, ?_, ?_⟩, ?_, ⟨fun pg hpg i => ?_, fun i => ?_, fun q hq => ?_⟩⟩
  · rw [hk]
    exact Function.update_self ..
  · rw [hmm, hlist, PageDirectory.pages, hpt]
    exact frames.load
  · rw [hword, hlist]
    exact UserMap.create (apart.map.sameOutside hout) hpage hlo hhi
  · rw [hmm]
  · unfold Bounded
    rw [hlist]
    exact List.forall_mem_nil _
  · have hne : pg.pAddr / 4096 ≠ pd.frame := by
      rcases List.mem_append.1 hpg with hpg | hpg
      · exact held.frame_ne hpg
      · exact (frames.frame_ne hpg List.mem_cons_self).symm
    rw [hword, newDir_other hne, hout _ i (.inr (apart.lower pg hpg))]
  · have hframe : 2048 ≤ pd.frame := hlo
    have hne : 1 ≠ pd.frame := by omega
    rw [hword, newDir_other hne, hout 1 i (.inl (by decide))]
  · rw [hk]
    exact ⟨Function.update_of_ne hq .., Function.update_of_ne hq .., rfl⟩

/-- The file is loaded beside the other processes. -/
lemma loadImage_boards (apart : Apart k live dir kstack lost) (hr : Runs k dir live)
    (sized : Sized x)
    (hstart : StartsBelow ((List.range (ePhnum x.file)).map (phdr x.file)))
    (h : loadImage k x = .ok l) (no : NoFlags l.kernel.mm) :
    ∃ pd, Boarded k l live dir kstack lost pd := by
  obtain ⟨c, hc, h⟩ := bind_ok.1 h
  obtain ⟨⟨s1, pd⟩, hd, h⟩ := bind_ok.1 h
  obtain ⟨⟨k3, file⟩, hf, h⟩ := bind_ok.1 h
  obtain ⟨⟨k4, entry⟩, he, h⟩ := bind_ok.1 h
  obtain ⟨k5, hk, h⟩ := bind_ok.1 h
  cases h
  have copied := HeapOnly.copyArgs sized hc
  have apart0 := apart.switch (claimSlot k.table (freeSlot k.table)) [] k.mm.cr3
  obtain ⟨apart1, e1⟩ := apart0.heap copied (apart.dirMap hr) (freeSlot k.table)
  have hcr3 : c.1.mm.cr3 = k.mm.cr3 :=
    (copied.grows (apart.dirMap hr) apart.frames.held.lower apart.frames.held.upper).fields.2.2.1
  have hr1 : Runs c.1 dir live := by
    unfold Runs
    rw [hcr3]
    exact hr
  have moves := ((Moves.heap (HeapOnly.ext2ReadFile sized hf) id).trans (loadElfInto_moves he hstart)).trans
    (.heap (.kfree hk) id)
  have no1 := moves.flags.down no
  obtain ⟨space, bounded, e2⟩ := apart1.enter hr1 hd ⟨no1.oom, no1.stale⟩
    { c.1.table with current := freeSlot k.table } (rfl : c.1.opened _ s1 (freeSlot k.table) pd = _)
  have hlost : live.flatMap c.1.pglist ++ lost = live.flatMap k.pglist ++ lost := by rw [copied.same.pglist]
  unfold allPages at e2
  rw [hlost] at space e2
  obtain ⟨⟨pd5, wrote⟩, bounded5, -⟩ := moves.wrote _ _ _ no space bounded trivial
  have e3 := Elsewhere.of_wrote moves wrote
  obtain ⟨pd6, hown, taken⟩ := moves.level pd space.own
  obtain rfl : pd6 = pd5 := Option.some.inj (hown.symm.trans wrote.space.own)
  refine ⟨pd6, wrote.space, bounded5, ?_, ?_, ?_, ?_, ?_⟩
  · have e0 : Elsewhere k c.1 (freeSlot k.table) (allPages k dir kstack live lost) :=
      ⟨e1.spared, e1.low, e1.slots⟩
    exact (e0.trans e2).trans e3
  · have opened := (copied.takes.trans (.pdCreate hd)).trans (.withCr3 s1 pd.base.pAddr)
    have fresh : (pd.pages ++ Function.update c.1.pglist (freeSlot k.table) [] (freeSlot k.table)).length =
        pd.pages.length := by rw [Function.update_self, List.append_nil]
    refine (opened.trans taken).cast ?_
    change (0 + (pd.pages.length : Int) + 0) + (((pd6.pages ++ k5.pglist (freeSlot k.table)).length : Int) -
      (pd.pages ++ Function.update c.1.pglist (freeSlot k.table) [] (freeSlot k.table)).length) =
        (pd6.pages ++ k5.pglist (freeSlot k.table)).length
    rw [fresh]
    omega
  · exact moves.regsCr3.trans copied.same.regsCr3
  · refine moves.table.trans ?_
    change { c.1.table with current := freeSlot k.table } = _
    rw [copied.same.table]
  · change c.1.table.current = _
    rw [copied.same.table]
    rfl

/-- The end of `load_task`: the process has its kernel stack, and joins the others. -/
lemma Boarded.start {m m' : Machine} {stackp : Nat} (b : Boarded m.kernel l live dir kstack lost pd)
    (apart : Apart m.kernel live dir kstack lost) (hfree : freeSlot m.kernel.table ∉ live) {c : Kernel × Nat}
    (push : Moves (freeSlot m.kernel.table) True True l.kernel c.1)
    (h : Machine.start { m with kernel := c.1 } (freeSlot m.kernel.table) l.previous stackp = .ok m')
    (no : NoFlags m'.kernel.mm) : ∃ pd' pg,
      Apart m'.kernel (freeSlot m.kernel.table :: live) (Function.update dir (freeSlot m.kernel.table) pd')
        (Function.update kstack (freeSlot m.kernel.table) pg) lost ∧
      Elsewhere m.kernel m'.kernel (freeSlot m.kernel.table) (allPages m.kernel dir kstack live lost) ∧
      Takes ((pd'.pages ++ m'.kernel.pglist (freeSlot m.kernel.table)).length + 1) m.kernel.mm m'.kernel.mm ∧
      m'.esp0 = Function.update m.esp0 (freeSlot m.kernel.table) (wrap (pg.vAddr + PAGESIZE - 16)) ∧
      HeapPage pg.vAddr ∧
      m'.kernel.mm.cr3 = m'.kernel.regsCr3 m.kernel.table.current ∧
      m'.kernel.table = fillSlot (claimSlot m.kernel.table (freeSlot m.kernel.table)) (freeSlot m.kernel.table)
        (newParent (claimSlot m.kernel.table (freeSlot m.kernel.table))) := by
  have h0 : freeSlot m.kernel.table ≠ 0 := Nat.one_le_iff_ne_zero.1 (one_le_freeSlot _)
  generalize hpid : freeSlot m.kernel.table = pid at *
  obtain ⟨bspace, bbounded, belse, btakes, bregs, btable, bprev⟩ := b
  rw [hpid] at bspace bbounded belse btakes btable
  -- `start` needs the directory before the flags are known to be down
  have hown : ∃ pd', c.1.pd pid = some pd' := by
    unfold Machine.start at h
    obtain ⟨g, -, h⟩ := bind_ok.1 h
    obtain ⟨q, hq, h⟩ := bind_ok.1 h
    have hpd := (Kernel.kmalloc_frame hq).pd
    dsimp only at h hpd
    rw [hpd] at h
    cases hp : c.1.pd pid with
    | none =>
      rw [hp] at h
      cases h
    | some pd' => exact ⟨pd', rfl⟩
  obtain ⟨pd0, hown⟩ := hown
  obtain ⟨pg, s1, s2, started⟩ := start_ok (m := { m with kernel := c.1 }) hown h
  have hmm := started.mm
  have no2 : NoFlags s2 := by
    rw [hmm] at no
    exact ⟨no.oom, no.stale⟩
  have no1 : NoFlags s1 := (FlagsKept.kmalloc started.kmalloc).down no2
  have noc : NoFlags c.1.mm := (FlagsKept.getPageFromHeap started.get).down no1
  obtain ⟨⟨pd', wrote⟩, bounded, -⟩ := push.wrote _ _ _ noc bspace bbounded trivial
  have space := wrote.space
  obtain rfl : pd0 = pd' := Option.some.inj (hown.symm.trans space.own)
  have km := space.dirMap
  obtain ⟨held, hcr3, hout⟩ := space.frames.held.get km started.get no1.oom
  have frames := space.frames.cons held (space.frames.held.get_fresh km started.get no1.oom)
  have hdir : s1.dir = c.1.mm.dir := by rw [Mm.dir, Mm.dir, hcr3]
  have grows := kmalloc_frame (hdir ▸ km.sameOutside hout) held.lower held.upper (by decide) started.kmalloc
  have hram : m'.kernel.mm.ram = s2.ram := by rw [hmm]
  have outside : SameOutside c.1.mm.ram m'.kernel.mm.ram := by
    rw [hram]
    exact hout.trans (grows.sameOutside held.lower)
  have lower : ∀ own ∈ pd0.pages, 2048 ≤ own.pAddr / 4096 := fun own hmem =>
    (space.frames.kernel_frame (List.mem_append_left _ hmem)).1
  have guest : Guest m'.kernel pd0 pid := by
    refine ⟨?_, ?_, ?_, ?_⟩
    · rw [started.dirs]
      exact hown
    · rw [started.pglist]
      exact space.map.congr (fun i => outside _ i (.inr (lower pd0.base List.mem_cons_self))) fun t ht i =>
        outside _ i (.inr (lower t (List.mem_cons_of_mem _ ht)))
    · unfold Bounded
      rw [started.pglist]
      exact bounded
    · rw [started.regsCr3, Function.update_self]
  have e3 : Elsewhere c.1 m'.kernel pid (allPages m.kernel dir kstack live lost) :=
    .of_outside outside apart.lower fun q hq =>
      ⟨by rw [started.dirs], by rw [started.pglist], by rw [started.regsCr3, Function.update_of_ne hq]⟩
  have e := (belse.trans (Elsewhere.of_wrote push wrote)).trans e3
  have table : m'.kernel.table = fillSlot (claimSlot m.kernel.table pid) pid
      (newParent (claimSlot m.kernel.table pid)) := by
    rw [started.table]
    dsimp only
    rw [push.table, btable, bprev]
    rfl
  obtain ⟨pd1, hown1, pushed⟩ := push.level pd bspace.own
  obtain rfl : pd1 = pd0 := Option.some.inj (hown1.symm.trans hown)
  have taken := ((btakes.trans pushed).trans (.getPageFromHeap started.get)).trans
    (.kmalloc (by decide) started.kmalloc)
  refine ⟨pd1, pg, ?_, e, ?_, started.esp0, (held.held pg List.mem_cons_self).page, ?_, table⟩
  · refine Apart.join (List.nodup_cons.2 ⟨hfree, apart.nodup⟩) h0 apart.guests apart.registers apart.map
      (fun _ => id) e guest ?_
    rw [hmm, started.pglist]
    exact ((frames.grows grows).load).subperm (List.perm_middle).subperm (.refl _)
  · rw [hmm, started.pglist]
    refine (taken.trans (.withCr3 s2 _)).cast ?_
    change _ = ((pd1.pages ++ c.1.pglist pid).length : Int) + 1
    omega
  · rw [hmm, bprev]

/-- What a call of `undo` that returns has done. -/
lemma undo_ok {pid previous argc param : Nat} (h : undo k pid previous argc param = .ok k') :
    ∃ k6 pd mm, freeArgs k argc param = .ok k6 ∧ k6.pd pid = some pd ∧
      pdDestroy ((k6.setCurrent previous).setCr3 (k6.regsCr3 previous)).mm pd = .ok mm ∧
      k' = { (k6.setCurrent previous).setCr3 (k6.regsCr3 previous) with mm := mm } := by
  obtain ⟨k6, h6, h⟩ := bind_ok.1 h
  dsimp only at h
  split at h
  case h_2 => cases h
  case h_1 pd hown =>
    obtain ⟨mm, hd, h⟩ := bind_ok.1 h
    cases h
    exact ⟨k6, pd, mm, h6, hown, hd, rfl⟩

/-- A refused call: the user pages of the file are lost. -/
lemma Boarded.undo {argc param : Nat} (b : Boarded k l live dir kstack lost pd)
    (apart : Apart k live dir kstack lost) (hfree : freeSlot k.table ∉ live) (hr : Runs k dir live)
    (hcr3 : k.mm.cr3 = k.regsCr3 k.table.current)
    (h : Creeks.undo l.kernel (freeSlot k.table) l.previous argc param = .ok k') (no : NoFlags k'.mm) :
    Apart k' live dir kstack (k'.pglist (freeSlot k.table) ++ lost) ∧
      Elsewhere k k' (freeSlot k.table) (allPages k dir kstack live lost) ∧
      Takes (k'.pglist (freeSlot k.table)).length k.mm k'.mm ∧ k'.mm.cr3 = k.mm.cr3 ∧
      k'.table = claimSlot k.table (freeSlot k.table) ∧ k'.regsCr3 = k.regsCr3 := by
  have h0 : freeSlot k.table ≠ 0 := Nat.one_le_iff_ne_zero.1 (one_le_freeSlot _)
  obtain ⟨k6, pd0, mm, h6, hown, hd, rfl⟩ := undo_ok h
  have moves : Moves (freeSlot k.table) True True l.kernel k6 := .heap (.freeArgs h6) id
  have hregs : k6.regsCr3 l.previous = k.mm.cr3 := by
    rw [moves.regsCr3, b.regsCr3, b.previous, hcr3]
  rw [hregs] at hd no ⊢
  have no6 : NoFlags k6.mm := by
    have low := (FlagsKept.pdDestroy hd).down no
    exact ⟨low.oom, low.stale⟩
  obtain ⟨⟨pd6, wrote⟩, -, -⟩ := moves.wrote _ _ _ no6 b.space b.bounded trivial
  obtain rfl : pd0 = pd6 := Option.some.inj (hown.symm.trans wrote.space.own)
  have e6 := b.elsewhere.trans (Elsewhere.of_wrote moves wrote)
  have apart6 : KernelMap k6.mm.ram (k.mm.cr3 / 4096) := by
    rcases hr with e | ⟨q, hq, e⟩
    · rw [e]
      have hone : KERN_PDIR / 4096 = 1 := by decide
      rw [hone]
      exact apart.map.congr e6.low
    · rw [e]
      have hne : q ≠ freeSlot k.table := fun e => hfree (e ▸ hq)
      exact ((apart.guests q hq).elsewhere e6 hne (Apart.sub_allPages hq)).map.kernel
  have back := Frames.destroy wrote.space.frames.load apart6 hd
  have e7 : Elsewhere k6 { (k6.setCurrent l.previous).setCr3 k.mm.cr3 with mm := mm } (freeSlot k.table)
      (allPages k dir kstack live lost) :=
    .of_outside back.outside apart.lower fun _ _ => ⟨rfl, rfl, rfl⟩
  have e := e6.trans e7
  refine ⟨?_, e, ?_, back.cr3, ?_, ?_⟩
  · refine Apart.rest apart.nodup hfree h0 apart.guests apart.registers apart.map (fun _ => id) e ?_
    refine back.frames.subperm (.refl _) (List.Perm.subperm ?_)
    rw [← List.append_assoc, ← List.append_assoc]
    exact List.perm_append_comm.append_right lost
  · obtain ⟨pd7, hown7, freed⟩ := moves.level pd b.space.own
    obtain rfl : pd7 = pd0 := Option.some.inj (hown7.symm.trans hown)
    have given := Takes.pdDestroy wrote.space.frames.load apart6 hd
    refine (((b.takes.trans freed).trans (.withCr3 k6.mm k.mm.cr3)).trans given).cast ?_
    change _ = ((k6.pglist (freeSlot k.table)).length : Int)
    simp only [List.length_append]
    omega
  · change { k6.table with current := l.previous } = _
    rw [moves.table, b.table, b.previous]
    rfl
  · exact moves.regsCr3.trans b.regsCr3

end Arrival

/-! ## Departure -/

section Departure

variable {s s' : Mm} {kernel users pages : List Page}

/-- `sys_exit` frees the frames of `pglist`. -/
lemma Frames.releasePages (h : Frames s kernel (pages ++ users)) (e : Creeks.releasePages pages s = .ok s') :
    Frames.TakenBack s s' kernel users := by
  induction pages generalizing s with
  | nil =>
    cases e
    exact ⟨h, rfl, fun _ _ _ => rfl⟩
  | cons pg l ih =>
    obtain ⟨s1, hf, e⟩ := bind_ok.1 e
    obtain ⟨mem, used, rfl⟩ := kfree_frame hf
    have first := h.drop.grows (.heap _ mem used)
    have rest := ih first e
    refine ⟨rest.frames, rest.cr3.trans ?_, fun f i hfi => (rest.outside f i hfi).trans ?_⟩
    · rw [withHeap_cr3]
    · rw [withHeap_ram]

/-- They are as many as its pages. -/
lemma Takes.releasePages (h : Frames s kernel (pages ++ users)) (e : Creeks.releasePages pages s = .ok s') :
    Takes (-pages.length) s s' := by
  induction pages generalizing s with
  | nil =>
    cases e
    exact .refl _
  | cons pg l ih =>
    obtain ⟨s1, hf, e⟩ := bind_ok.1 e
    obtain ⟨mem, used, rfl⟩ := kfree_frame hf
    have rest := ih (h.drop.grows (.heap _ mem used)) e
    refine (((Takes.drop h).trans (.withHeap _ mem used)).trans rest).cast ?_
    rw [List.length_cons]
    omega

variable {m m' : Machine} {others : List Nat} {dir : Nat → PageDirectory} {kstack : Nat → Page}
  {lost : List Page} {status : Int}

/-- The process that ends leaves the others. -/
lemma Apart.exit (apart : Apart m.kernel (m.current :: others) dir kstack lost)
    (h0 : m.current ≠ 0) (hcr3 : m.kernel.mm.cr3 = m.kernel.regsCr3 m.current)
    (hstack : m.esp0 m.current &&& 0xFFFFF000 = (kstack m.current).vAddr)
    (h : m.sysExit status = .ok m') : Apart m'.kernel others dir kstack lost ∧
      Elsewhere m.kernel m'.kernel m.current (allPages m.kernel dir kstack others lost) ∧
      Takes (-(heldPages dir kstack m.current ++ m.kernel.pglist m.current).length) m.kernel.mm m'.kernel.mm ∧
      m'.kernel.mm.cr3 = m'.kernel.regsCr3 0 ∧ m'.kernel.table = sysExit m.kernel.table status ∧
      m'.esp0 = m.esp0 := by
  obtain ⟨pd, s1, s2, s3, s4, hpd, ex⟩ := sysExit_ok h
  have guest := apart.guests _ List.mem_cons_self
  obtain rfl : pd = dir m.current := Option.some.inj (hpd.symm.trans guest.own)
  obtain ⟨hp, nodup⟩ := List.nodup_cons.1 apart.nodup
  have space := apart.inSpace
  rw [Kernel.setCr3_self hcr3] at space
  obtain ⟨mem, used, hfree⟩ := kfree_frame ex.console
  have pages := Frames.releasePages space.frames ex.pages
  have chunk := pages.withHeap mem used
  rw [← hfree] at chunk
  obtain ⟨r, hr⟩ := ex.kstack
  rw [hstack] at hr
  have hframes : Frames s2 (kstack m.current :: ((dir m.current).pages ++ others.flatMap (heldPages dir kstack)))
      (others.flatMap m.kernel.pglist ++ lost) :=
    chunk.frames.subperm (List.perm_middle).symm.subperm (.refl _)
  have stack := hframes.release (chunk.map space.dirMap) hr
  have out3 := chunk.outside.trans stack.outside
  have hmap : KernelMap s3.ram (KERN_PDIR / 4096) := by
    have hone : KERN_PDIR / 4096 = 1 := by decide
    rw [hone]
    exact apart.map.sameOutside out3
  have gone := Frames.destroy (s := { s3 with cr3 := KERN_PDIR }) stack.frames.load hmap ex.directory
  have hmm : m'.kernel.mm = { s4 with cr3 := m.kernel.regsCr3 0 } := by rw [ex.kernel]
  have lower : ∀ pg ∈ allPages m.kernel dir kstack others lost, 2048 ≤ pg.pAddr / 4096 := fun pg hpg =>
    (space.apart (Apart.allPages_cons hpg)).1
  have e : Elsewhere m.kernel m'.kernel m.current (allPages m.kernel dir kstack others lost) := by
    refine .of_outside ?_ lower fun q hq => ?_
    · rw [hmm]
      exact out3.trans gone.outside
    · rw [ex.kernel]
      exact ⟨rfl, Function.update_of_ne hq .., rfl⟩
  refine ⟨?_, e, ?_, ?_, ?_, ex.esp0⟩
  · refine Apart.rest nodup hp h0 (fun q hq => apart.guests q (List.mem_cons_of_mem _ hq)) apart.registers
      apart.map (fun _ => id) e ?_
    rw [hmm]
    exact gone.frames.load
  · have given := (Takes.releasePages space.frames ex.pages).trans (.kfree ex.console)
    have stackGiven := Takes.releasePageFromHeap hframes.held (chunk.map space.dirMap) hr
    have tables := Takes.pdDestroy (s := { s3 with cr3 := KERN_PDIR }) stack.frames.load hmap ex.directory
    rw [hmm]
    refine ((((given.trans stackGiven).trans (.withCr3 s3 KERN_PDIR)).trans tables).trans (.withCr3 s4 _)).cast ?_
    simp only [heldPages, List.length_append, List.length_singleton]
    omega
  · rw [ex.kernel]
  · rw [ex.kernel]

end Departure

end Creeks
