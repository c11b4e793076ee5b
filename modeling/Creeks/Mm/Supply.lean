import Creeks.Mm.Account
import Creeks.Mm.UserMap

/-!
# Calls that go through

The memory manager answers while there are pages and frames to spare. `Supply s others n` says that the
kernel heap and the page heap have `n` more pages and that `n` frames are free; each function takes a
known part of that, and what it has allocated joins the chunks `others`. What the functions do to the
page tables is said by the lemmas about the pages that are held.
-/

namespace Creeks
open Lib

/-- Room for `n` pages of each kind, in a page heap whose last pages are free, and `n` free frames. -/
structure Supply (s : Mm) (others : List (Nat × Nat)) (n : Nat) : Prop where
  heap : PageHeap s others
  limit : s.kernHeap + n * PAGESIZE ≤ KERN_HEAP_LIM
  areas : ∀ v, KERN_PG_HEAP_LIM ≤ v + (n + 1) * PAGESIZE → v < KERN_PG_HEAP_LIM →
    PageFree s.kernFreeVm v
  frames : n ≤ (freeFrames s).card
  oom : s.oom = false

namespace Supply

variable {s s' : Mm} {others : List (Nat × Nat)} {n m g size : Nat}

/-- Part of the supply is left alone. -/
lemma mono (h : Supply s others n) (hm : m ≤ n) : Supply s others m := by
  have hle := Nat.mul_le_mul_right PAGESIZE hm
  have hle' := Nat.mul_le_mul_right PAGESIZE (Nat.succ_le_succ hm)
  exact ⟨h.heap, le_trans (Nat.add_le_add_left hle _) h.limit,
    fun v h1 h2 => h.areas v (le_trans h1 (Nat.add_le_add_left hle' v)) h2, le_trans hm h.frames, h.oom⟩

/-- The order of the chunks does not matter. -/
lemma perm {others' : List (Nat × Nat)} (h : Supply s others n) (hp : others.Perm others') :
    Supply s others' n :=
  { h with heap := { h.heap with owned := h.heap.owned.perm (hp.append_left _) } }

/-- What a call has used up is no longer there. -/
lemma uses (h : Supply s others (n + m)) {others' : List (Nat × Nat)} (heap : PageHeap s' others')
    (u : Uses s s' m) (hvm : ∀ v, PageFree s.kernFreeVm v → PageFree s'.kernFreeVm v) :
    Supply s' others' n := by
  have hlimit := h.limit
  have hheap := u.heap
  have hframes := h.frames
  have huse := u.frames
  rw [Nat.add_mul] at hlimit
  refine ⟨heap, by omega, fun v h1 h2 => hvm v ((h.mono (Nat.le_add_right n m)).areas v h1 h2),
    by omega, (u.oom (by omega)).trans h.oom⟩

/-- `kmalloc` answers. -/
lemma kmalloc (h : Supply s others (n + g)) (hsize : size + 4 < KERN_HEAP_LIM - KERN_HEAP)
    (hg : growPages size = g) :
    ∃ s' p, Creeks.kmalloc s size = .ok (s', p) ∧ Supply s' ((p, size) :: others) n ∧ Grows s s' := by
  have hlimit : s.kernHeap + growPages size * PAGESIZE ≤ KERN_HEAP_LIM := by
    have h1 := h.limit
    rw [Nat.add_mul, ← hg] at h1
    exact le_trans (Nat.add_le_add_left (Nat.le_add_left _ _) _) h1
  obtain ⟨s', p, e, u⟩ := h.heap.owned.kmalloc_room h.heap.map hsize hlimit
  obtain ⟨owned, -, grows, map⟩ := h.heap.owned.kmalloc h.heap.map hsize e
  have hlist := grows.fields.1
  rw [hg] at u
  refine ⟨s', p, e, h.uses ⟨map, ?_, hlist ▸ h.heap.areas⟩ u fun v hv => hlist ▸ hv, grows⟩
  rw [hlist]
  exact owned.perm List.perm_middle.symm

/-- A change that uses nothing up. -/
lemma same {others' : List (Nat × Nat)} (h : Supply s others n) (heap : PageHeap s' others')
    (hk : s'.kernHeap = s.kernHeap) (hb : s'.memBitmap = s.memBitmap) (ho : s'.oom = s.oom)
    (hvm : s'.kernFreeVm = s.kernFreeVm) : Supply s' others' n := by
  refine uses (s := s) (m := 0) h heap (.same hk hb ho) fun v hv => ?_
  rwa [hvm]

/-- `kfree` of a chunk that is out. -/
lemma kfree {p k : Nat} (h : Supply s others n) (hp : (p, k) ∈ others) :
    ∃ mem used, Creeks.kfree s p = .ok (s.withHeap mem used) ∧
      Supply (s.withHeap mem used) (others.erase (p, k)) n := by
  obtain ⟨mem, used, e, ph⟩ := h.heap.kfree hp
  refine ⟨mem, used, e, h.same ph ?_ ?_ ?_ ?_⟩
  · exact withHeap_kernHeap _ _ _
  · exact withHeap_memBitmap _ _ _
  · exact withHeap_oom _ _ _
  · exact withHeap_kernFreeVm _ _ _

/-- `get_page_from_heap` answers. -/
lemma get (h : Supply s others (n + 2)) :
    ∃ s' pg, getPageFromHeap s = .ok (s', pg) ∧ Supply s' (pageChunk pg :: others) n := by
  obtain ⟨area, rest, s1, hvm, ⟨mem, used, hs1⟩, hmap, howned, e⟩ := h.heap.get
  have areas := h.heap.areas
  rw [hvm] at areas
  obtain ⟨-, hcover⟩ := areas.list.eat
  have hlist : s1.kernFreeVm = eatFirst area rest := by
    rw [hs1, withHeap_kernFreeVm, pageTaken_kernFreeVm]
  -- the first page lies below the pages that are counted
  have hfirst : ∀ v, PageFree s.kernFreeVm v → area.vmStart ≤ v := by
    rintro v ⟨b, hb, hlo, -⟩
    rw [hvm] at hb
    rcases List.mem_cons.1 hb with rfl | hb
    · exact hlo
    · obtain ⟨-, -, hgap⟩ := Spaced.cons_iff.1 areas.spaced
      have := hgap b hb
      have := areas.spaced.nonempty area List.mem_cons_self
      omega
  have hareas := h.areas
  simp only [PAGESIZE, KERN_PG_HEAP_LIM] at hareas
  have hfree : ∀ v, 0x10000000 ≤ v + (n + 1 + 1) * 4096 → v < 0x10000000 →
      PageFree s1.kernFreeVm v := by
    intro v h1 h2
    rw [hlist]
    have hsucc : (n + 2 + 1) * 4096 = (n + 1 + 1) * 4096 + 4096 := Nat.succ_mul _ _
    rw [hsucc] at hareas
    generalize (n + 1 + 1) * 4096 = room at h1 hareas
    obtain ⟨b, hb, hlo, -⟩ := hareas v (by omega) h2
    have hbound := (areas.bounds b (hvm ▸ hb)).1
    rcases (hcover v).1 (hvm ▸ hareas v (by omega) h2) with ⟨-, hlt⟩ | hv
    · have := hfirst (v - 4096) (hareas _ (by omega) (by omega))
      omega
    · exact hv
  have hne : eatFirst area rest ≠ [] := by
    obtain ⟨b, hb, -⟩ := hlist ▸ hfree 0x0FFFFFFF (by omega) (by decide)
    exact List.ne_nil_of_mem hb
  have ph1 : PageHeap s1 others := ⟨hmap, hlist ▸ howned, hlist ▸ (areas.eat hne).1⟩
  have hbit : s1.memBitmap = (growStep s).memBitmap := by
    rw [hs1, withHeap_memBitmap, pageTaken_memBitmap, growStep_memBitmap]
  have hcard : (freeFrames s1).card = (freeFrames s).card - 1 := by
    rw [freeFrames_congr hbit, card_freeFrames_growStep]
  have hframes := h.frames
  have hoom : s1.oom = s.oom := by
    rw [hs1, withHeap_oom]
    exact growStep_iterate_oom (n := 1) (by omega)
  have supply1 : Supply s1 others (n + 1) := by
    refine ⟨ph1, ?_, fun v h1 h2 => hfree v h1 h2, by omega, hoom.trans h.oom⟩
    rw [hs1, withHeap_kernHeap, pageTaken_kernHeap]
    exact (h.mono (Nat.le_succ _)).limit
  obtain ⟨s', p, ek, supply', -⟩ := @kmalloc _ _ _ _ 16 supply1 (by decide) (growPages_small (by decide))
  exact ⟨s', ⟨p, area.vmStart, (getPageFrame s).2⟩, by rw [e, ek, ok_bind], supply'⟩

/-- Writes to frames that leave the loaded directory alone. -/
lemma ram {ram' : Nat → Nat → Nat} (h : Supply s others n) (map : KernelMap ram' s.dir) :
    Supply { s with ram := ram' } others n :=
  h.same ⟨map, h.heap.owned.congr rfl rfl, h.heap.areas⟩ rfl rfl rfl rfl

/-- Another directory is loaded. -/
lemma load {cr3 : Nat} (h : Supply s others n) (map : KernelMap s.ram (cr3 / 4096)) :
    Supply { s with cr3 := cr3 } others n :=
  h.same ⟨map, h.heap.owned.congr rfl rfl, h.heap.areas⟩ rfl rfl rfl rfl

/-- `get_page_frame` answers. -/
lemma frame (h : Supply s others (n + 1)) : Supply (getPageFrame s).1 others n := by
  obtain ⟨bitmap, oom, hframe, -⟩ := getPageFrame_frame s
  have hbit : (getPageFrame s).1.memBitmap = (growStep s).memBitmap := (growStep_memBitmap s).symm
  have hcard := card_freeFrames_growStep s
  have hframes := h.frames
  have uses1 : Uses s (getPageFrame s).1 1 := by
    refine ⟨?_, ?_, fun hle => growStep_iterate_oom (n := 1) hle⟩
    · rw [getPageFrame_kernHeap]
      exact Nat.le_add_right _ _
    · rw [freeFrames_congr hbit, hcard]
      omega
  refine h.uses ⟨?_, ?_, ?_⟩ uses1 fun v hv => ?_
  · rw [getPageFrame_ram, getPageFrame_dir]
    exact h.heap.map
  · rw [hframe]
    exact h.heap.owned.congr rfl rfl
  · rw [hframe]
    exact h.heap.areas
  · rw [hframe]
    exact hv

/-- `pd_create` answers. -/
lemma create {pages : List Page} (h : Supply s others (n + 3)) (held : Held s pages)
    (hl : Loaded s pages) : ∃ s' pd, pdCreate s = .ok (s', pd) ∧
      Supply s' (pageChunk pd.base :: directoryChunk pd :: others) n := by
  obtain ⟨s1, a, hk, supply1, grows⟩ :=
    @kmalloc _ _ (n + 2) 1 12 h (by decide) (growPages_small (by decide))
  obtain ⟨s2, pg, hg, supply2⟩ := supply1.get
  have held1 := held.grows grows
  have hl1 : Loaded s1 pages := by
    unfold Loaded
    rwa [grows.fields.2.2.1]
  obtain ⟨held2, hcr3, -⟩ := held1.get supply1.heap.map hg supply2.oom
  have hl2 : Loaded s2 pages := by
    unfold Loaded
    rwa [hcr3]
  have hpg := held2.held pg List.mem_cons_self
  obtain ⟨f, hf, hfr, hlo, -, hp⟩ := hpg.frameOf
  have hdf : f ≠ s2.dir := by
    have := held2.frame_ne_dir hl2
    rwa [hf, Nat.mul_div_cancel _ (by decide)] at this
  refine ⟨_, _, pdCreate_eq hk hg supply2.heap.map hpg.page hp hfr hdf hlo, supply2.ram ?_⟩
  exact supply2.heap.map.congr fun j => newDir_other hdf.symm

end Supply

/-- No table put in service would find its first word present: the frames that are free begin with a
word that is not an entry. -/
def FreshWords (s : Mm) : Prop := ∀ f, frameUsed s.memBitmap f = false → (s.ram f 0).testBit 0 = false

/-- Frames that have not been given back and have not been written. -/
lemma FreshWords.keep {s s' : Mm} (h : FreshWords s)
    (mono : ∀ q, frameUsed s.memBitmap q = true → frameUsed s'.memBitmap q = true)
    (hram : ∀ f, frameUsed s'.memBitmap f = false → s'.ram f 0 = s.ram f 0) : FreshWords s' := by
  intro f hf
  rw [hram f hf]
  exact h f (Spare.used_free mono hf)

namespace Supply

variable {s : Mm} {others : List (Nat × Nat)} {n v a : Nat} {pd : PageDirectory}
  {kernel users pages : List Page}

/-- `pd_add_page` answers. -/
lemma addPage (h : Supply s others (n + 2)) (fr : Frames s (pd.pages ++ kernel) users)
    (map : UserMap s.ram pd pages) (hcr3 : s.cr3 = pd.base.pAddr) (hlo : USER_OFFSET ≤ v)
    (hhi : v < USER_STACK) : ∃ l s', pdAddPage s v a PG_USER (some pd) =
        .ok (s', some { pd with pt := l ++ pd.pt }) ∧
      Supply s' (l.map pageChunk ++ others) n ∧ (FreshWords s → s'.stale = s.stale) := by
  simp only [USER_OFFSET, USER_STACK] at hlo hhi
  have hdir : s.dir = pd.frame := SpaceInv.dir_of_cr3 hcr3
  have km : KernelMap s.ram s.dir := hdir ▸ map.kernel
  have hread : readWord s (pdeAddr v) = .ok (s.ram pd.frame (v / 4194304)) := by
    rw [readWord_pde km.self (by omega), hdir]
  by_cases hp : (s.ram pd.frame (v / 4194304)).testBit 0 = true
  · obtain ⟨-, t, ht, hf⟩ := map.tables _ (by omega) (by omega) hp
    have hwrite := writeWord_pte km.self (v := v) (by omega) (by rw [hdir]; exact hp)
    have e : pdAddPage s v a PG_USER (some pd) =
        .ok ({ s with
          ram := setWord s.ram (frameOf (s.ram s.dir (v / 4194304))) (v / 4096 % 1024)
            (a ||| (PG_PRESENT ||| PG_WRITE ||| PG_USER)) }, some { pd with pt := [] ++ pd.pt }) := by
      rw [pdAddPage, hread, ok_bind, if_neg (by rw [land_one_eq_zero, hp]; decide), hwrite, ok_bind]
      rfl
    refine ⟨[], _, e, (h.mono (Nat.le_add_right n 2)).ram ?_, fun _ => rfl⟩
    refine km.congr fun j => setWord_other (.inl ?_)
    rw [hdir, hf]
    exact (fr.pages_ne ht).symm
  · obtain ⟨s1, t, hg, supply1⟩ := h.get
    obtain ⟨held, hcr3', hout⟩ := fr.held.get km hg supply1.oom
    obtain ⟨⟨f', hf', hlt', hfree⟩, -⟩ := fr.held.get_fresh km hg supply1.oom
    obtain ⟨f, hf, hfr, hlo', -, hpres⟩ := (held.held t List.mem_cons_self).frameOf
    have hdir1 : s1.dir = pd.frame := SpaceInv.dir_of_cr3 (hcr3'.trans hcr3)
    have hbase : pd.base ∈ pd.pages ++ kernel := List.mem_append_left _ List.mem_cons_self
    have hpf : t.pAddr / 4096 = f := by omega
    have hfd : f ≠ s1.dir := by
      rw [hdir1, ← hpf]
      exact (held.frame_ne hbase).symm
    obtain ⟨ram, left, hnew, hleft⟩ : ∃ ram left, newTable s v PG_USER =
        .ok ({ s1 with
          ram := ram
          stale := s1.stale || left }, t) ∧
        ((s1.ram f 0).testBit 0 = false → left = false) :=
      ⟨_, _, newTable_eq hg supply1.heap.map (held.held t List.mem_cons_self).page hpres hfr hpf hfd hlo'
        (by omega), fun h => by rw [h, Bool.false_and]⟩
    obtain ⟨-, -, -, km1, hwrite⟩ := fr.newTable_entry map hcr3 (by omega) (by omega) hnew supply1.oom
    have e : pdAddPage s v a PG_USER (some pd) = .ok ({ s1 with
        ram := setWord ram (t.pAddr / 4096) (v / 4096 % 1024) (a ||| (PG_PRESENT ||| PG_WRITE ||| PG_USER))
        stale := s1.stale || left }, some { pd with pt := [t] ++ pd.pt }) := by
      rw [pdAddPage, hread, ok_bind, if_pos ((land_one_eq_zero _).2 (Bool.eq_false_iff.2 hp)), hnew,
        ok_bind, hwrite, ok_bind]
      rfl
    refine ⟨[t], _, e, ?_, fun fresh => ?_⟩
    · refine supply1.same ⟨?_, supply1.heap.owned.congr rfl rfl, supply1.heap.areas⟩ rfl rfl rfl rfl
      change KernelMap _ s1.dir
      rw [hdir1]
      exact km1.congr fun j => setWord_other (.inl (held.frame_ne hbase))
    · obtain ⟨_, _, -, -, -, grows⟩ := getPageFromHeap_frame km fr.held.areas fr.held.lower
        fr.held.upper hg
      obtain ⟨_, _, hframe, -⟩ := getPageFrame_frame s
      have hbit := fresh f' hfree
      rw [show f' = f by omega, ← hout f 0 (.inr hlo')] at hbit
      change (s1.stale || left) = s.stale
      rw [hleft hbit, Bool.or_false, grows.fields.2.2.2.1]
      change (getPageFrame s).1.stale = s.stale
      rw [hframe]

/-- `isr_PF_exc` answers. -/
lemma fault (h : Supply s others (n + 4)) (fr : Frames s (pd.pages ++ kernel) users)
    (map : UserMap s.ram pd pages) (hcr3 : s.cr3 = pd.base.pAddr) (hlo : USER_OFFSET ≤ a)
    (hhi : a < USER_STACK) (fresh : FreshWords s) : ∃ s' pg l,
      isrPfExc s pages (some pd) a = .ok (some (s', pg :: pages, some { pd with pt := l ++ pd.pt })) ∧
      Supply s' (l.map pageChunk ++ pageChunk pg :: others) n ∧ s'.stale = s.stale := by
  obtain ⟨s1, p, hk, supply1, grows⟩ :=
    @kmalloc _ _ (n + 3) 1 16 h (by decide) (growPages_small (by decide))
  have supply2 := supply1.frame
  have fr1 := fr.grows grows
  have map1 : UserMap s1.ram pd pages := map.congr
    (fun k => grows.ram fr.held.lower (.inr (fr.kernel_frame (show pd.base ∈ _ by simp [PageDirectory.pages])).1))
    (fun t ht k => grows.ram fr.held.lower
      (.inr (fr.kernel_frame (List.mem_append_left _ (List.mem_cons_of_mem _ ht))).1))
  have fr2 := @Frames.user _ _ _ ⟨p, a &&& 0xFFFFF000, (getPageFrame s1).2⟩ fr1 supply2.oom rfl
  have hcr3' : (getPageFrame s1).1.cr3 = pd.base.pAddr := by
    obtain ⟨_, _, hframe, -⟩ := getPageFrame_frame s1
    rw [hframe]
    exact grows.fields.2.2.1.trans hcr3
  have hv : a &&& 0xFFFFF000 = a / 4096 % 1048576 * 4096 := land_page a
  simp only [USER_OFFSET, USER_STACK] at hlo hhi
  obtain ⟨l, s3, e, supply3, hstale⟩ := supply2.addPage (a := (getPageFrame s1).2)
    (v := a &&& 0xFFFFF000) fr2 (by rwa [getPageFrame_ram]) hcr3'
    (by simp only [USER_OFFSET]; omega) (by simp only [USER_STACK]; omega)
  refine ⟨s3, ⟨p, a &&& 0xFFFFF000, (getPageFrame s1).2⟩, l, ?_, supply3, (hstale ?_).trans ?_⟩
  · rw [isrPfExc, if_pos ⟨hlo, hhi⟩, faultPage_eq hk, ok_bind, e, ok_bind]
    rfl
  · refine (fresh.keep (fun _ => grows.used) fun f hf => grows.ram fr.held.lower (.inr ?_)).keep
      (fun _ => getPageFrame_used) fun f _ => by rw [getPageFrame_ram]
    exact (fr.held.grows grows).free f hf
  · obtain ⟨_, _, hframe, -⟩ := getPageFrame_frame s1
    rw [hframe]
    exact grows.fields.2.2.2.1

end Supply

/-! ## New directories -/

/-- A memory manager that can serve a new process: `kernel` and `users` are the pages that are out. -/
structure Idle (s : Mm) (kernel users : List Page) (others : List (Nat × Nat)) (n : Nat) : Prop where
  frames : Frames s kernel users
  loaded : Loaded s kernel
  pd0 : KernelMap s.ram 1
  supply : Supply s others n
  fresh : FreshWords s
  stale : s.stale = false

section Create

variable {s s' : Mm} {kernel users : List Page} {others : List (Nat × Nat)} {n : Nat} {pd : PageDirectory}

/-- `pd_create` does not put a table in service, and leaves the two words below the list of free areas. -/
lemma Held.create_fields {pages : List Page} (h : Held s pages) (km : KernelMap s.ram s.dir)
    (e : pdCreate s = .ok (s', pd)) : s'.stale = s.stale ∧ s'.headWords = s.headWords := by
  obtain ⟨s1, s2, ram, hk, hg, -, rfl⟩ := pdCreate_ok e
  have grows := kmalloc_frame km h.lower h.upper (by decide) hk
  have hdir : s1.dir = s.dir := by rw [Mm.dir, Mm.dir, grows.fields.2.2.1]
  have held1 := h.grows grows
  obtain ⟨area, rest, -, -, -, grows2⟩ := getPageFromHeap_frame (hdir ▸ grows.map km h.lower)
    held1.areas held1.lower held1.upper hg
  obtain ⟨_, _, hframe, -⟩ := getPageFrame_frame s1
  refine ⟨?_, grows2.fields.2.1.trans grows.fields.2.1⟩
  calc s2.stale = (getPageFrame s1).1.stale := grows2.fields.2.2.2.1
    _ = s1.stale := by rw [hframe]
    _ = s.stale := grows.fields.2.2.2.1

/-- A new directory, which maps nothing in user space. -/
lemma Idle.create (h : Idle s kernel users others (n + 3)) : ∃ s' pd, pdCreate s = .ok (s', pd) ∧
    Frames s' (pd.pages ++ kernel) users ∧ UserMap s'.ram pd [] ∧
    Supply s' (pageChunk pd.base :: directoryChunk pd :: others) n ∧ FreshWords s' ∧ s'.stale = false ∧
    pd.pt = [] := by
  obtain ⟨frames, loaded, pd0, supply, fresh, stale⟩ := h
  have map := supply.heap.map
  obtain ⟨s', pd, e, supply'⟩ := supply.create frames.held loaded
  obtain ⟨held, -, hpt, ram, hout, hram⟩ := frames.held.create map loaded e supply'.oom
  have hfresh := frames.held.create_fresh map e supply'.oom
  have frames' : Frames s' (pd.pages ++ kernel) users := by
    rw [PageDirectory.pages, hpt]
    exact frames.cons held hfresh
  have hbase : pd.base ∈ pd.pages ++ kernel := List.mem_append_left _ List.mem_cons_self
  obtain ⟨hlo, hlt, hpage⟩ := frames'.kernel_frame hbase
  refine ⟨s', pd, e, frames', ?_, supply', fresh.keep hfresh.mono fun f hf => ?_,
    (frames.held.create_fields map e).1.trans stale, hpt⟩
  · rw [hram]
    exact .create (pd0.sameOutside hout) hpage hlo hlt
  · have hne : f ≠ pd.frame := (frames'.free_ne hf hbase).symm
    rw [hram, newDir_other hne]
    exact hout f 0 (.inr (frames'.held.free f hf))

end Create

/-! ## After the boot -/

/-- `init_mm` writes the kernel directory and no other frame. -/
lemma initPd0_other {ram : Nat → Nat → Nat} {f i : Nat} (hf : f ≠ 1) : initPd0 ram f i = ram f i := by
  have hd : f ≠ KERN_PDIR / PAGESIZE := hf
  unfold initPd0
  rw [setWord_other (.inl hd), enterTables, setWord_foldl, if_neg fun h => hd h.1, setWord_other (.inl hd),
    setWord_other (.inl hd)]

/-- The memory manager after `init_mm` on a machine with 16 MB. -/
lemma initMm_idle : ∃ s0, initMm blankMm 16384 = .ok s0 ∧ Idle s0 [] [] [] 1000 := by
  obtain ⟨s0, init, ph, room, hcr3, hcard, -, hoom⟩ := initMm_room
  have inv : SpaceInv ⟨s0, [], []⟩ := SpaceInv.init init
  obtain ⟨u, q, grows, rfl⟩ := initMm_grows init
  have hlo := (initPaging_kernHeap blankMm 16384).ge
  refine ⟨_, init, ⟨inv.held, List.nodup_nil, nofun, nofun⟩, .inl hcr3, inv.maps.kernel,
    ⟨ph, ?_, fun v h1 h2 => ?_, by omega, hoom⟩, fun f hf => ?_, ?_⟩
  · have := room.heap
    simp only [PAGESIZE, KERN_HEAP_LIM] at this ⊢
    omega
  · obtain ⟨p, w, hvm, hw⟩ := room.areas
    simp only [PAGESIZE, KERN_PG_HEAP_LIM] at h1 h2 hw
    exact ⟨_, by rw [hvm]; exact List.mem_cons_self, by dsimp only; omega, h2⟩
  · have hge := inv.held.free f hf
    rw [withVm_ram, grows.ram hlo (.inr hge), initPaging]
    dsimp only
    rw [initPd0_other (by omega)]
    exact Nat.zero_testBit 0
  · rw [withVm_stale, grows.fields.2.2.2.1, initPaging]

end Creeks
