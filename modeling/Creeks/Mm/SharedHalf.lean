import Creeks.Mm.Held
import Creeks.Mm.Room

/-!
# The shared kernel half

Page directories are made at different times, each with a copy of the 256 kernel entries of `pd0`, and
kernel mappings are changed through the recursive entry of whichever directory is loaded. The
translation of a kernel address is nevertheless the same in all of them: the 256 entries designate the
page tables that `init_mm` placed in `pg1`, no function writes those entries again, and every kernel
mapping is made in those tables.

That rests on the frame of a directory being its own. When `get_page_frame` has failed, two pages of
the page heap share the frame the processor reads in the address -1, and filling one of them changes
the other: `torn_kernel_half` is a run in which a new page table erases a directory.
-/

namespace Creeks
open Lib

/-- The memory manager, the live page directories, and the other pages handed out. -/
structure Spaces where
  mm : Mm
  pds : List PageDirectory
  handed : List Page

/-- All the pages handed out. -/
def Spaces.pages (c : Spaces) : List Page := c.handed ++ c.pds.flatMap PageDirectory.pages

/-- What changes the page tables. -/
inductive SpaceOp where
  | create
  | destroy (pd : PageDirectory)
  | get
  | release (pg : Page)
  | ksbrk (n : Nat)
  | add (vAddr pAddr flags : Nat)
  | load (pd : Option PageDirectory)
  | head (words : Nat × Nat)

/-- The `cr3` of a page directory, `pd0` without one. -/
def cr3Of : Option PageDirectory → Nat
  | none => KERN_PDIR
  | some pd => pd.base.pAddr

/-- One call of a function of `mm.c`, or a change of `cr3`, under any directory. The loaded directory
is not destroyed, pages are released by those who hold them, and a page is added to the loaded
directory. -/
inductive SpaceStep : Spaces → SpaceOp → Spaces → Prop where
  | create {s pds handed s' pd} :
    pdCreate s = .ok (s', pd) →
    SpaceStep ⟨s, pds, handed⟩ .create ⟨s', pd :: pds, handed⟩
  | destroy {s pds handed pd s'} :
    pd ∈ pds →
    s.cr3 ≠ pd.base.pAddr →
    pdDestroy s pd = .ok s' →
    SpaceStep ⟨s, pds, handed⟩ (.destroy pd) ⟨s', pds.erase pd, handed⟩
  | get {s pds handed s' pg} :
    getPageFromHeap s = .ok (s', pg) →
    SpaceStep ⟨s, pds, handed⟩ .get ⟨s', pds, pg :: handed⟩
  | release {s pds handed pg s' r} :
    pg ∈ handed →
    releasePageFromHeap s pg.vAddr = .ok (s', r) →
    SpaceStep ⟨s, pds, handed⟩ (.release pg) ⟨s', pds, handed.erase pg⟩
  | ksbrk {s pds handed n s' c} :
    -- the product is computed in an `int`
    n * PAGESIZE < 2147483648 →
    ksbrk s n = .ok (s', c) →
    SpaceStep ⟨s, pds, handed⟩ (.ksbrk n) ⟨s', pds, handed⟩
  | add {s pds handed v p flags pd pd' s'} :
    pd ∈ pds →
    s.cr3 = pd.base.pAddr →
    USER_OFFSET ≤ v → v < 0xFFC00000 → flags < PAGESIZE →
    pdAddPage s v p flags (some pd) = .ok (s', some pd') →
    SpaceStep ⟨s, pds, handed⟩ (.add v p flags) ⟨s', pd' :: pds.erase pd, handed⟩
  | addKernel {s pds handed v p flags pd s'} :
    s.cr3 = KERN_PDIR →
    USER_OFFSET ≤ v → v < 0xFFC00000 → flags < PAGESIZE →
    pdAddPage s v p flags pd = .ok (s', pd) →
    SpaceStep ⟨s, pds, handed⟩ (.add v p flags) ⟨s', pds, handed⟩
  | load {s pds handed pd} :
    (∀ d ∈ pd, d ∈ pds) →
    SpaceStep ⟨s, pds, handed⟩ (.load pd) ⟨{ s with cr3 := cr3Of pd }, pds, handed⟩
  | head {s pds handed words} :
    SpaceStep ⟨s, pds, handed⟩ (.head words) ⟨s.withVm s.kernFreeVm words, pds, handed⟩

/-- A step in which `get_page_frame` does not fail. -/
def SuppliedStep (c : Spaces) (op : SpaceOp) (c' : Spaces) : Prop :=
  SpaceStep c op c' ∧ c'.mm.oom = false

/-- Every kernel address has the same translation in `pd0` and in the live directories. -/
def SharedHalf (c : Spaces) : Prop :=
  ∀ pd ∈ c.pds, ∀ a, KERN_PG_HEAP ≤ a → a < KERN_HEAP_LIM →
    walk c.mm.ram pd.frame a = walk c.mm.ram (KERN_PDIR / PAGESIZE) a

/-- What the directories contain. -/
structure Maps (ram : Nat → Nat → Nat) (pds : List PageDirectory) : Prop where
  kernel : KernelMap ram 1
  /-- The user half of `pd0` designates tables of `pg1` too. -/
  tables : ∀ i, 256 ≤ i → i < 1023 → (ram 1 i).testBit 0 = true ∧ frameOf (ram 1 i) = kernTable i
  live : ∀ pd ∈ pds, KernelMap ram pd.frame
  /-- The user half of a directory designates its own tables. -/
  user : ∀ pd ∈ pds, ∀ i, 256 ≤ i → i < 1023 → (ram pd.frame i).testBit 0 = true →
    ∃ pg ∈ pd.pt, frameOf (ram pd.frame i) = pg.pAddr / PAGESIZE

/-- The invariant of the shared kernel half. -/
structure SpaceInv (c : Spaces) : Prop where
  held : Held c.mm c.pages
  maps : Maps c.mm.ram c.pds
  loaded : c.mm.cr3 = KERN_PDIR ∨ ∃ pd ∈ c.pds, c.mm.cr3 = pd.base.pAddr

/-- The invariant gives the shared kernel half. -/
lemma SpaceInv.shared {c : Spaces} (inv : SpaceInv c) : SharedHalf c := by
  intro pd hpd a h1 h2
  have hv : InTables a := ⟨h1, h2⟩
  rw [(inv.maps.live pd hpd).walk hv]
  exact (inv.maps.kernel.walk hv).symm

namespace Maps

variable {ram ram' : Nat → Nat → Nat} {pd : PageDirectory} {pds pds' : List PageDirectory}

/-- The directories only depend on the frames outside `pg1`. -/
lemma congr (m : Maps ram pds) (h : SameOutside ram ram') : Maps ram' pds where
  kernel := m.kernel.sameOutside h
  tables := fun i h1 h2 => by
    rw [h 1 i (.inl (by decide))]
    exact m.tables i h1 h2
  live := fun pd hpd => (m.live pd hpd).sameOutside h
  user := fun pd hpd i h1 h2 hp => by
    rw [h pd.frame i (m.live pd hpd).outside] at hp ⊢
    exact m.user pd hpd i h1 h2 hp

lemma subset (m : Maps ram pds) (h : pds' ⊆ pds) : Maps ram pds' where
  kernel := m.kernel
  tables := m.tables
  live := fun pd hpd => m.live pd (h hpd)
  user := fun pd hpd => m.user pd (h hpd)

/-- Writing a frame that is not the frame of a directory. -/
lemma other {f : Nat} (m : Maps ram pds) (h1 : f ≠ 1) (hpds : ∀ pd ∈ pds, pd.frame ≠ f)
    (h : ∀ f' i, f' ≠ f → ram' f' i = ram f' i) : Maps ram' pds where
  kernel := m.kernel.congr fun j => h 1 j h1.symm
  tables := fun i h2 h3 => by
    rw [h 1 i h1.symm]
    exact m.tables i h2 h3
  live := fun pd hpd => (m.live pd hpd).congr fun j => h pd.frame j (hpds pd hpd)
  user := fun pd hpd i h2 h3 hp => by
    rw [h pd.frame i (hpds pd hpd)] at hp ⊢
    exact m.user pd hpd i h2 h3 hp

end Maps

/-- The pages of a live directory, and the others. -/
lemma Spaces.pages_perm {s t : Mm} {pds : List PageDirectory} {handed : List Page}
    {pd : PageDirectory} (h : pd ∈ pds) :
    (Spaces.pages ⟨s, pds, handed⟩).Perm (pd.pages ++ Spaces.pages ⟨t, pds.erase pd, handed⟩) := by
  have h1 : (pds.flatMap PageDirectory.pages).Perm
      (pd.pages ++ (pds.erase pd).flatMap PageDirectory.pages) :=
    (List.perm_cons_erase h).flatMap_right _
  have h2 : (handed ++ (pd.pages ++ (pds.erase pd).flatMap PageDirectory.pages)).Perm
      (pd.pages ++ (handed ++ (pds.erase pd).flatMap PageDirectory.pages)) := by
    rw [← List.append_assoc, ← List.append_assoc]
    exact List.perm_append_comm.append_right _
  exact (h1.append_left handed).trans h2

lemma Spaces.base_mem {c : Spaces} {pd : PageDirectory} (h : pd ∈ c.pds) : pd.base ∈ c.pages :=
  List.mem_append_right _ (List.mem_flatMap.2 ⟨pd, h, List.mem_cons_self⟩)

namespace Maps

variable {ram : Nat → Nat → Nat} {pd : PageDirectory} {pds : List PageDirectory}

/-- One more directory. -/
lemma cons (m : Maps ram pds) (live : KernelMap ram pd.frame)
    (user : ∀ i, 256 ≤ i → i < 1023 → (ram pd.frame i).testBit 0 = true →
      ∃ pg ∈ pd.pt, frameOf (ram pd.frame i) = pg.pAddr / PAGESIZE) : Maps ram (pd :: pds) where
  kernel := m.kernel
  tables := m.tables
  live := fun pd' hpd' => by
    rcases List.mem_cons.1 hpd' with rfl | hpd'
    · exact live
    · exact m.live pd' hpd'
  user := fun pd' hpd' => by
    rcases List.mem_cons.1 hpd' with rfl | hpd'
    · exact user
    · exact m.user pd' hpd'

/-- A new table is entered in the user half of a directory. -/
lemma entry {i w : Nat} {pg : Page} (m : Maps ram pds) (hpd : pd ∈ pds) (h1 : pd.frame ≠ 1)
    (hne : ∀ pd' ∈ pds.erase pd, pd'.frame ≠ pd.frame) (hlo : 256 ≤ i) (hhi : i < 1023)
    (hw : frameOf w = pg.pAddr / PAGESIZE) :
    Maps (setWord ram pd.frame i w) ({ pd with pt := pg :: pd.pt } :: pds.erase pd) := by
  have others : Maps (setWord ram pd.frame i w) (pds.erase pd) :=
    (m.subset List.erase_subset).other h1 hne fun _ _ hf => setWord_other (.inl hf)
  refine others.cons ?_ fun j h2 h3 hp => ?_
  · have live := m.live pd hpd
    have keep : ∀ j, j < 256 ∨ j = 1023 → setWord ram pd.frame i w pd.frame j = ram pd.frame j :=
      fun j hj => setWord_other (.inr (by omega))
    change KernelMap _ pd.frame
    exact ⟨⟨by rw [keep _ (.inr rfl)]; exact live.self.present,
      by rw [keep _ (.inr rfl)]; exact live.self.small,
      by rw [keep _ (.inr rfl)]; exact live.self.frame⟩,
      by rw [keep _ (.inl (by decide))]; exact live.page0,
      by rw [keep _ (.inl (by decide))]; exact live.page1,
      fun j h4 h5 => by rw [keep _ (.inl h5)]; exact live.tables j h4 h5, live.outside⟩
  · change (setWord ram pd.frame i w pd.frame j).testBit 0 = true at hp
    change ∃ pg' ∈ pg :: pd.pt, frameOf (setWord ram pd.frame i w pd.frame j) = _
    by_cases hj : j = i
    · rw [hj, setWord_same]
      exact ⟨pg, List.mem_cons_self, hw⟩
    · rw [setWord_other (.inr hj)] at hp ⊢
      obtain ⟨pg', hpg', e⟩ := m.user pd hpd j h2 h3 hp
      exact ⟨pg', List.mem_cons_of_mem _ hpg', e⟩

end Maps

namespace SpaceInv

variable {s s' : Mm} {pds : List PageDirectory} {handed handed' : List Page} {pd pd' : PageDirectory}
  {pg : Page} {v p flags : Nat}

lemma dirMap {c : Spaces} (inv : SpaceInv c) : KernelMap c.mm.ram c.mm.dir := by
  rcases inv.loaded with e | ⟨pd, hpd, e⟩
  · rw [Mm.dir, e]
    exact inv.maps.kernel
  · rw [Mm.dir, e]
    exact inv.maps.live pd hpd

lemma isLoaded {c : Spaces} (inv : SpaceInv c) : Loaded c.mm c.pages :=
  inv.loaded.imp id fun ⟨_, hpd, e⟩ => ⟨_, Spaces.base_mem hpd, e⟩

/-- The frame of a directory lies outside `pg1`, and it is not that of `pd0`. -/
lemma frame_lower {c : Spaces} (inv : SpaceInv c) (hpg : pg ∈ c.pages) : 2048 ≤ pg.pAddr / 4096 := by
  obtain ⟨f, hf, hlo, -⟩ := (inv.held.held pg hpg).frame
  omega

/-- Two live directories have different frames. -/
lemma frame_ne (inv : SpaceInv ⟨s, pds, handed⟩) (hpd : pd ∈ pds) (hpd' : pd' ∈ pds.erase pd) :
    pd'.frame ≠ pd.frame := by
  have h := inv.held.subperm (Spaces.pages_perm (t := s) hpd).symm.subperm
  exact h.frame_ne (List.mem_append_right _ (Spaces.base_mem (c := ⟨s, pds.erase pd, handed⟩) hpd'))

/-- The frame of a table is not the frame of a directory. -/
lemma table_ne (inv : SpaceInv ⟨s, pds, handed⟩) (hpd : pd ∈ pds) (hpg : pg ∈ pd.pt)
    (hpd' : pd' ∈ pds) : pd'.frame ≠ pg.pAddr / 4096 := by
  have h := inv.held.subperm (Spaces.pages_perm (t := s) hpd).symm.subperm
  have hsplit : (pd.pages ++ Spaces.pages ⟨s, pds.erase pd, handed⟩).Perm
      (pg :: (pd.base :: (pd.pt.erase pg ++ Spaces.pages ⟨s, pds.erase pd, handed⟩))) :=
    (((List.perm_cons_erase hpg).append_right _).cons _).trans (.swap _ _ _)
  have hpages := h.subperm hsplit.symm.subperm
  by_cases e : pd' = pd
  · rw [e]
    exact hpages.frame_ne List.mem_cons_self
  · refine hpages.frame_ne (List.mem_cons_of_mem _ (List.mem_append_right _ ?_))
    exact Spaces.base_mem (c := ⟨s, pds.erase pd, handed⟩) ((List.mem_erase_of_ne e).2 hpd')

/-- A call that only changes the frames of `pg1` and the pages handed out. -/
lemma quiet (inv : SpaceInv ⟨s, pds, handed⟩) (held : Held s' (Spaces.pages ⟨s', pds, handed'⟩))
    (hcr3 : s'.cr3 = s.cr3) (hout : SameOutside s.ram s'.ram) : SpaceInv ⟨s', pds, handed'⟩ where
  held := held
  maps := inv.maps.congr hout
  loaded := hcr3 ▸ inv.loaded

lemma create (inv : SpaceInv ⟨s, pds, handed⟩) (e : pdCreate s = .ok (s', pd))
    (hoom : s'.oom = false) : SpaceInv ⟨s', pd :: pds, handed⟩ := by
  obtain ⟨held, hcr3, hpt, ram, hout, hram⟩ := inv.held.create inv.dirMap inv.isLoaded e hoom
  have hpages : Spaces.pages ⟨s', pd :: pds, handed⟩ =
      handed ++ pd.base :: pds.flatMap PageDirectory.pages := by
    simp [Spaces.pages, PageDirectory.pages, hpt]
  obtain ⟨f, hf, hlo, hhi, -⟩ := (held.held pd.base List.mem_cons_self).frame
  have hframe : pd.frame = f := by
    rw [PageDirectory.frame, hf, Nat.mul_div_cancel _ (by decide)]
  have m := inv.maps.congr hout
  have hother : ∀ f' i, f' ≠ pd.frame → s'.ram f' i = ram f' i := by
    intro f' i hne
    rw [hram]
    exact newDir_other hne
  have hlive : KernelMap s'.ram pd.frame := by
    rw [hram]
    refine newDir_map m.kernel (by omega) rfl (hframe ▸ hlo) ?_
    rw [hf, show f * 4096 = 2 ^ 12 * f by omega, Nat.testBit_two_pow_mul]
    rfl
  refine ⟨?_, (m.other (by omega) (fun pd' hpd' => ?_) hother).cons hlive fun i h1 h2 hp => ?_, ?_⟩
  · rw [hpages]
    exact held.subperm List.perm_middle.subperm
  · exact held.frame_ne (Spaces.base_mem (c := ⟨s, pds, handed⟩) hpd')
  · rw [hram, newDir_user h1 h2] at hp
    cases hp
  · rw [hcr3]
    exact inv.loaded.imp id (Exists.imp fun d hd => hd.imp_left (List.mem_cons_of_mem _))

lemma destroy (inv : SpaceInv ⟨s, pds, handed⟩) (hpd : pd ∈ pds) (hcur : s.cr3 ≠ pd.base.pAddr)
    (e : pdDestroy s pd = .ok s') : SpaceInv ⟨s', pds.erase pd, handed⟩ := by
  have h := inv.held.subperm (Spaces.pages_perm (t := s') hpd).symm.subperm
  obtain ⟨held, hcr3, hout⟩ := h.destroy inv.dirMap e
  refine ⟨held, (inv.maps.subset List.erase_subset).congr hout, ?_⟩
  rw [hcr3]
  refine inv.loaded.imp id fun ⟨d, hd, hcr3⟩ => ⟨d, (List.mem_erase_of_ne ?_).2 hd, hcr3⟩
  rintro rfl
  exact hcur hcr3

lemma dir_of_cr3 (h : s.cr3 = pd.base.pAddr) : s.dir = pd.frame := congrArg (· / 4096) h

/-- `pd_add_page` under a directory whose table for the page is there. -/
lemma addPresent {i j w : Nat} (inv : SpaceInv ⟨s, pds, handed⟩) (hpd : pd ∈ pds)
    (hlo : 256 ≤ i) (hhi : i < 1023) (hp : (s.ram pd.frame i).testBit 0 = true)
    (hram : s' = { s with ram := setWord s.ram (frameOf (s.ram pd.frame i)) j w }) :
    SpaceInv ⟨s', pd :: pds.erase pd, handed⟩ := by
  obtain ⟨pg, hpg, hfr⟩ := inv.maps.user pd hpd i hlo hhi hp
  have hmem : pg ∈ Spaces.pages ⟨s, pds, handed⟩ :=
    List.mem_append_right _ (List.mem_flatMap.2 ⟨pd, hpd, List.mem_cons_of_mem _ hpg⟩)
  have hge : 2048 ≤ frameOf (s.ram pd.frame i) := hfr ▸ inv.frame_lower hmem
  have hperm := List.perm_cons_erase hpd
  subst hram
  refine ⟨?_, ?_, ?_⟩
  · refine (inv.held.ram fun f' k h1 h2 => setWord_other (.inl (by omega))).subperm ?_
    exact ((hperm.symm.flatMap_right _).append_left handed).subperm
  · refine (inv.maps.subset hperm.symm.subset).other (f := frameOf (s.ram pd.frame i)) (by omega)
      (fun pd' hpd' => ?_) fun _ _ hf => setWord_other (.inl hf)
    rw [hfr]
    exact inv.table_ne hpd hpg (hperm.symm.subset hpd')
  · exact inv.loaded.imp id fun ⟨d, hd, e⟩ => ⟨d, hperm.subset hd, e⟩

/-- `pd_add_page` under a directory that gets a new table. -/
lemma addTable {s1 : Mm} {w : Nat} (inv : SpaceInv ⟨s, pds, handed⟩) (hpd : pd ∈ pds)
    (hcur : s.cr3 = pd.base.pAddr) (hlo : USER_OFFSET ≤ v) (hhi : v < 0xFFC00000)
    (hflags : flags < PAGESIZE) (e : newTable s v flags = .ok (s1, pg))
    (hw : writeWord s1 (pteAddr v) w = .ok s') (hoom : s'.oom = false) :
    SpaceInv ⟨s', { pd with pt := pg :: pd.pt } :: pds.erase pd, handed⟩ := by
  simp only [USER_OFFSET] at hlo
  obtain ⟨_, e'⟩ := writeWord_frame hw
  have hdir : s.dir = pd.frame := dir_of_cr3 hcur
  obtain ⟨held, hcr3, ram, hout, hram, -⟩ := inv.held.table inv.dirMap inv.isLoaded (by omega) e (by
    rw [← hoom, e'])
  obtain ⟨f, hf, hge, hlt, -⟩ := (held.held pg List.mem_cons_self).frame
  have hpf : pg.pAddr / 4096 = f := by omega
  have hne : ∀ pd' ∈ pds, pd'.frame ≠ f := fun pd' hpd' =>
    hpf ▸ held.frame_ne (Spaces.base_mem (c := ⟨s, pds, handed⟩) hpd')
  have h2048 : 2048 ≤ pd.frame := inv.frame_lower (Spaces.base_mem (c := ⟨s, pds, handed⟩) hpd)
  have hentry : frameOf (pg.pAddr ||| (PG_PRESENT ||| PG_WRITE ||| flags)) = f := by
    rw [frameOf_entry (by omega) hflags, hpf]
  rw [hdir, hpf] at hram
  -- the new table is entered in the directory, then the page in the table
  have m0 := (inv.maps.congr hout).other (f := f) (by omega) hne
    fun f' i hf' => setWords_other (i := 1) (n := 1023) (g := fun _ => 0) hf'
  have hge256 : 256 ≤ v / 4194304 := by omega
  have m := m0.entry hpd (by omega) (fun pd' hpd' => inv.frame_ne hpd hpd') hge256 (by omega)
    (hentry.trans hpf.symm)
  rw [← hram] at m
  have hdir1 : s1.dir = pd.frame := dir_of_cr3 (hcr3.trans hcur)
  have live := m.live _ List.mem_cons_self
  change KernelMap s1.ram pd.frame at live
  have hpde : s1.ram pd.frame (v / 4194304) =
      pg.pAddr ||| (PG_PRESENT ||| PG_WRITE ||| flags) := by
    rw [hram, setWord_same]
  rw [writeWord_pte (hdir1 ▸ live.self) (by omega) (by
    rw [hdir1, hpde]
    exact entry_present _ _), hdir1, hpde, hentry] at hw
  cases hw
  refine ⟨?_, m.other (f := f) (by omega) (fun pd' hpd' => ?_)
    fun _ _ hf' => setWord_other (.inl hf'), ?_⟩
  · refine (held.ram fun f' k h1 h2 => setWord_other (.inl (by omega))).subperm ?_
    have hperm : (pds.flatMap PageDirectory.pages).Perm
        (pd.base :: (pd.pt ++ (pds.erase pd).flatMap PageDirectory.pages)) :=
      (List.perm_cons_erase hpd).flatMap_right _
    have hnew : (handed ++ (pd.base :: (pg :: (pd.pt ++ (pds.erase pd).flatMap
        PageDirectory.pages)))).Perm (pg :: (handed ++ (pd.base :: (pd.pt ++
          (pds.erase pd).flatMap PageDirectory.pages)))) :=
      ((List.Perm.swap _ _ _).append_left handed).trans List.perm_middle
    exact (hnew.trans ((hperm.symm.append_left handed).cons _)).subperm
  · rcases List.mem_cons.1 hpd' with rfl | hpd'
    · exact hne pd hpd
    · exact hne pd' (List.erase_subset hpd')
  · right
    exact ⟨_, List.mem_cons_self, hcr3.trans hcur⟩

/-- `pd_add_page` under a live directory. -/
lemma add (inv : SpaceInv ⟨s, pds, handed⟩) (hpd : pd ∈ pds) (hcur : s.cr3 = pd.base.pAddr)
    (hlo : USER_OFFSET ≤ v) (hhi : v < 0xFFC00000) (hflags : flags < PAGESIZE)
    (e : pdAddPage s v p flags (some pd) = .ok (s', some pd')) (hoom : s'.oom = false) :
    SpaceInv ⟨s', pd' :: pds.erase pd, handed⟩ := by
  have hlo' := hlo
  simp only [USER_OFFSET] at hlo'
  have hdir : s.dir = pd.frame := dir_of_cr3 hcur
  have km := inv.dirMap
  rw [pdAddPage, readWord_pde km.self (by omega), ok_bind] at e
  split at e
  case isTrue =>
    obtain ⟨⟨s1, pg⟩, ht, e⟩ := bind_ok.1 e
    obtain ⟨s2, hw, e⟩ := bind_ok.1 e
    cases e
    exact inv.addTable hpd hcur hlo hhi hflags ht hw hoom
  case isFalse hp =>
    obtain ⟨s2, hw, e⟩ := bind_ok.1 e
    cases e
    rw [land_one_eq_zero, Bool.not_eq_false] at hp
    rw [writeWord_pte km.self (by omega) hp] at hw
    cases hw
    exact inv.addPresent (i := v / 4194304) hpd (by omega) (by omega) (hdir ▸ hp) (by rw [← hdir])

/-- `pd_add_page` under `pd0`, whose tables are all there. -/
lemma addKernel {pd : Option PageDirectory} (inv : SpaceInv ⟨s, pds, handed⟩)
    (hcur : s.cr3 = KERN_PDIR) (hlo : USER_OFFSET ≤ v) (hhi : v < 0xFFC00000)
    (e : pdAddPage s v p flags pd = .ok (s', pd)) : SpaceInv ⟨s', pds, handed⟩ := by
  simp only [USER_OFFSET] at hlo
  have hdir : s.dir = 1 := congrArg (· / 4096) hcur
  have km := inv.dirMap
  obtain ⟨hp, hfr⟩ := inv.maps.tables (v / 4194304) (by omega) (by omega)
  change (s.ram 1 _).testBit 0 = true at hp
  change frameOf (s.ram 1 _) = _ at hfr
  rw [pdAddPage, readWord_pde km.self (by omega), ok_bind, hdir, if_neg (by
    rw [land_one_eq_zero, hp]
    decide)] at e
  obtain ⟨s2, hw, e⟩ := bind_ok.1 e
  cases e
  rw [writeWord_pte km.self (by omega) (hdir ▸ hp), hdir, hfr, kernTable] at hw
  cases hw
  refine inv.quiet (inv.held.ram fun f i h1 h2 => ?_) rfl fun f i hf => ?_
  · exact setWord_other (.inl (by omega))
  · exact setWord_other (.inl (by omega))

/-- Every step in which `get_page_frame` does not fail keeps the invariant. -/
lemma step {c c' : Spaces} {op : SpaceOp} (inv : SpaceInv c) (st : SuppliedStep c op c') :
    SpaceInv c' := by
  obtain ⟨st, hoom⟩ := st
  cases st with
  | create e => exact inv.create e hoom
  | destroy hpd hcur e => exact inv.destroy hpd hcur e
  | get e =>
    obtain ⟨held, hcr3, hout⟩ := inv.held.get inv.dirMap e hoom
    exact inv.quiet held hcr3 hout
  | @release s pds handed pg s' r hpg e =>
    have hperm : (Spaces.pages ⟨s, pds, handed⟩).Perm (pg :: Spaces.pages ⟨s', pds, handed.erase pg⟩) :=
      (List.perm_cons_erase hpg).append_right _
    obtain ⟨held, hcr3, hout⟩ := (inv.held.subperm hperm.symm.subperm).release inv.dirMap e
    exact inv.quiet held hcr3 hout
  | ksbrk hn e =>
    have hlim := inv.held.upper
    have grows := ksbrk_grows inv.dirMap inv.held.lower (by
      simp only [KERN_HEAP_LIM, PAGESIZE] at hlim hn ⊢
      omega) e
    exact inv.quiet (inv.held.grows grows) grows.fields.2.2.1 (grows.sameOutside inv.held.lower)
  | add hpd hcur hlo hhi hflags e => exact inv.add hpd hcur hlo hhi hflags e hoom
  | addKernel hcur hlo hhi _ e => exact inv.addKernel hcur hlo hhi e
  | @load s pds handed pd hmem =>
    refine ⟨inv.held.congr rfl inv.held.lower inv.held.upper (fun _ => id) fun _ _ => rfl,
      inv.maps, ?_⟩
    cases pd with
    | none => exact .inl rfl
    | some pd => exact .inr ⟨pd, hmem pd rfl, rfl⟩
  | @head s pds handed words =>
    refine inv.quiet (inv.held.congr ?_ ?_ ?_ ?_ ?_) ?_ ?_
    · rw [withVm_kernFreeVm]
    · rw [withVm_kernHeap]
      exact inv.held.lower
    · rw [withVm_kernHeap]
      exact inv.held.upper
    · intro q hq
      rwa [withVm_memBitmap]
    · intro v hv
      rw [withVm_ram]
    · rw [withVm_cr3]
    · intro f i hf
      rw [withVm_ram]

end SpaceInv

/-- The invariant holds after `init_mm`, with no directory but `pd0`. -/
lemma SpaceInv.init {boot s0 : Mm} {highMem : Nat} (h : initMm boot highMem = .ok s0) :
    SpaceInv ⟨s0, [], []⟩ := by
  obtain ⟨t, p, grows, rfl⟩ := initMm_grows h
  have hlo := (initPaging_kernHeap boot highMem).ge
  have hram : ∀ i, t.ram 1 i = initPd0 boot.ram 1 i := by
    intro i
    rw [grows.ram hlo (.inl (by decide)), initPaging]
  have areas := FreeVm.whole p
  refine ⟨⟨?_, ?_, ?_, fun q hq => ?_, List.nodup_nil, List.nodup_nil, List.forall_mem_nil _⟩,
    ⟨?_, fun i h1 h2 => ?_, List.forall_mem_nil _, List.forall_mem_nil _⟩, .inl ?_⟩
  · rw [withVm_kernFreeVm]
    exact areas.list
  · rw [withVm_kernHeap]
    exact le_trans hlo grows.fields.2.2.2.2.1
  · rw [withVm_kernHeap]
    exact grows.kernHeap_le (by
      rw [initPaging_kernHeap]
      decide)
  · rw [withVm_memBitmap] at hq
    have hinit : frameUsed (initPaging boot highMem).memBitmap q = false := by
      by_contra hne
      rw [Bool.not_eq_false] at hne
      rw [grows.used hne] at hq
      cases hq
    rw [initPaging_memBitmap] at hinit
    exact (initBitmap_free hinit).1
  · rw [withVm_ram]
    exact (initPd0_map boot.ram).congr hram
  · have hentry : initPd0 boot.ram 1 i = kernTable i * 4096 ||| 3 := by
      rw [initPd0_eq, if_neg (by omega), if_pos ⟨by omega, h2⟩, kernTable]
      congr 1
      simp only [PG1, PAGESIZE]
      omega
    rw [withVm_ram, hram, hentry]
    refine ⟨entry_present (kernTable i * 4096) 0, ?_⟩
    unfold kernTable
    have h := frameOf_entry (p := (1024 + i) * 4096) (f := 0) (by omega) (by decide)
    rwa [Nat.mul_div_cancel _ (by decide)] at h
  · rw [withVm_cr3, grows.fields.2.2.1, initPaging_cr3]

/-- The translation of the kernel addresses is the same in `pd0` and in every live directory, in every
run from `init_mm` in which `get_page_frame` does not fail. -/
theorem shared_kernel_half {boot s0 : Mm} {highMem : Nat} {ops : List SpaceOp} {c : Spaces}
    (init : initMm boot highMem = .ok s0)
    (run : Run SuppliedStep ⟨s0, [], []⟩ ops c) : SharedHalf c := by
  have inv : SpaceInv c :=
    run.invariant (I := SpaceInv) (fun _ _ _ => SpaceInv.step) (SpaceInv.init init)
  exact inv.shared

/-- A state of a run on a machine with 16 MB, with room for `n` pages. -/
structure Spare (s : Mm) (n : Nat) : Prop where
  heap : ∃ others, PageHeap s others
  room : Room s n
  kernel : KernelMap s.ram 1
  free : ∀ q, frameUsed s.memBitmap q = false → 2048 ≤ q ∧ q < 4096

/-- What `pd_create` leaves under `pd0`. -/
structure CreateOk (s s' : Mm) (pd : PageDirectory) : Prop where
  cr3 : s'.cr3 = s.cr3
  pt : pd.pt = []
  ram : ∃ ram, SameOutside s.ram ram ∧ s'.ram = newDir ram pd.frame pd.base.pAddr
  uses : Uses s s' 3
  used : ∀ q, frameUsed s.memBitmap q = true → frameUsed s'.memBitmap q = true
  fresh : 1 < (freeFrames s).card → pd.base.pAddr = pd.frame * 4096 ∧ 2048 ≤ pd.frame ∧ pd.frame < 4096
  full : ¬ FrameFree s → pd.base.pAddr = MINUS_ONE ∧ ¬ FrameFree s'

namespace Spare

variable {s s' : Mm} {n : Nat}

lemma used_free {s s' : Mm} (h : ∀ q, frameUsed s.memBitmap q = true → frameUsed s'.memBitmap q = true)
    {q : Nat} (hq : frameUsed s'.memBitmap q = false) : frameUsed s.memBitmap q = false := by
  by_contra hne
  rw [Bool.not_eq_false] at hne
  rw [h q hne] at hq
  cases hq

/-- The address `get_page_frame` returns. -/
lemma frame (h : Spare s n) : 2048 ≤ (getPageFrame s).2 / 4096 ∧ (getPageFrame s).2 < 4294967296 := by
  rcases getPageFrame_cases s with ⟨page, hlt, hfree, e⟩ | e
  · have := h.free page hfree
    simp only [e, PAGESIZE]
    omega
  · rw [e]
    exact (by decide : 2048 ≤ MINUS_ONE / 4096 ∧ MINUS_ONE < 4294967296)

/-- Writing frames other than that of `pd0`, which is loaded. -/
lemma ram {ram' : Nat → Nat → Nat} (h : Spare s n) (hdir : s.dir = 1)
    (h1 : ∀ i, ram' 1 i = s.ram 1 i) : Spare { s with ram := ram' } n := by
  obtain ⟨others, map, owned, areas⟩ := h.heap
  have km := h.kernel.congr h1
  refine ⟨⟨others, ?_, owned.congr rfl rfl, areas⟩, ⟨h.room.areas, h.room.heap⟩, km, h.free⟩
  change KernelMap ram' s.dir
  rwa [hdir]

lemma get (h : Spare s (n + 2)) : ∃ s' pg, getPageFromHeap s = .ok (s', pg) ∧ Spare s' n ∧
    PageHeap.GetOk s s' pg := by
  obtain ⟨others, ph⟩ := h.heap
  obtain ⟨s', pg, e, ph', room', ok⟩ := ph.get_room h.room
  refine ⟨s', pg, e, ⟨⟨_, ph'⟩, room', h.kernel.sameOutside ok.outside, fun q hq => h.free q ?_⟩, ok⟩
  exact used_free (fun q hq => ok.used q (getPageFrame_used hq)) hq

/-- `pd_create` under `pd0`. -/
lemma create (h : Spare s (n + 3)) (hdir : s.dir = 1) :
    ∃ s' pd, pdCreate s = .ok (s', pd) ∧ Spare s' n ∧ CreateOk s s' pd := by
  obtain ⟨others, ph⟩ := h.heap
  obtain ⟨s1, a, hk, ph1, room1, grows, uses1⟩ := @PageHeap.kmalloc_room s others _ 12 ph h.room
    (by decide) (growPages_small (by decide))
  have hlo := ph.owned.le_kernHeap
  have hdir1 : s1.dir = 1 := by rw [Mm.dir, grows.fields.2.2.1, ← Mm.dir, hdir]
  have spare1 : Spare s1 (n + 2) :=
    ⟨⟨_, ph1⟩, room1, grows.map h.kernel hlo, fun q hq => h.free q (used_free (fun _ => grows.used) hq)⟩
  obtain ⟨s2, pg, hg, spare2, ok⟩ := spare1.get
  obtain ⟨hge, hlt⟩ := spare1.frame
  rw [← ok.frame] at hge hlt
  have hdir2 : s2.dir = 1 := by rw [Mm.dir, ok.cr3, ← Mm.dir, hdir1]
  have hfr : frameOf (kernPte s2.ram pg.vAddr) = pg.pAddr / 4096 := by
    rw [ok.entry, frameOf_entry hlt (by decide)]
  have e := pdCreate_eq hk hg (hdir2 ▸ spare2.kernel) ok.page (by rw [ok.entry]; exact entry_present _ _)
    hfr (by omega) hge
  have hframe : (PageDirectory.mk a pg []).frame = pg.pAddr / 4096 := rfl
  refine ⟨_, _, e, spare2.ram hdir2 fun i => newDir_other (by omega),
    ⟨ok.cr3.trans grows.fields.2.2.1, rfl, ⟨s2.ram, ?_, by rw [hframe]⟩, ?_,
      fun q hq => ok.used q (getPageFrame_used (grows.used hq)), fun hcard => ?_, fun hfull => ?_⟩⟩
  · exact (grows.sameOutside hlo).trans ok.outside
  · exact (uses1.trans ok.uses).trans
      (t := { s2 with ram := newDir s2.ram (pg.pAddr / 4096) pg.pAddr }) (Uses.same rfl rfl rfl)
  · have hle := uses1.frames
    have hfree : FrameFree s1 := by
      rw [frameFree_iff]
      omega
    obtain ⟨page, hlt', hpage, hfree', -⟩ := getPageFrame_reserves hfree
    have hb := spare1.free page hfree'
    have hpf : pg.pAddr = page * 4096 := ok.frame.trans hpage
    rw [hframe]
    change pg.pAddr = _ ∧ _
    omega
  · have hmono : ∀ {t t' : Mm}, (∀ q, frameUsed t.memBitmap q = true → frameUsed t'.memBitmap q = true) →
        ¬ FrameFree t → ¬ FrameFree t' :=
      fun hu hn h => hn (h.imp fun page hp => hp.imp_right (used_free hu))
    have hfull1 := hmono (fun q => grows.used) hfull
    refine ⟨?_, hmono (t := s1) (fun q hq => ok.used q (getPageFrame_used hq)) hfull1⟩
    change pg.pAddr = _
    rw [ok.frame, getPageFrame_full hfull1]

/-- Pages are handed out until the frames have run out. -/
lemma exhaust {c0 : Spaces} {ops : List SpaceOp} {pds : List PageDirectory} {handed : List Page} (k : Nat)
    (h : Spare s (n + 2 * k)) (hk : (freeFrames s).card ≤ k)
    (run : Run SpaceStep c0 ops ⟨s, pds, handed⟩) :
    ∃ ops' s' handed', Run SpaceStep c0 ops' ⟨s', pds, handed'⟩ ∧ Spare s' n ∧ ¬ FrameFree s' ∧
      s'.cr3 = s.cr3 ∧ SameOutside s.ram s'.ram := by
  induction k generalizing s ops handed with
  | zero =>
    refine ⟨ops, s, handed, run, h, ?_, rfl, fun _ _ _ => rfl⟩
    rw [frameFree_iff]
    omega
  | succ k ih =>
    obtain ⟨s1, pg, e, spare1, ok⟩ := Spare.get (n := n + 2 * k) h
    have hcard := ok.card
    obtain ⟨ops', s', handed', run', spare', hfull, hcr3, hout⟩ :=
      ih spare1 (by omega) (.snoc run (.get e))
    exact ⟨ops', s', handed', run', spare', hfull, hcr3.trans ok.cr3,
      @SameOutside.trans s.ram s1.ram _ ok.outside hout⟩

end Spare

/-- The state `init_mm` leaves on a machine with 16 MB. -/
lemma spare_blank : ∃ s0, initMm blankMm 16384 = .ok s0 ∧ Spare s0 (2 + 3 + 2 * 2048 + 3) ∧
    s0.cr3 = KERN_PDIR ∧ 1024 ≤ (freeFrames s0).card ∧ (freeFrames s0).card ≤ 2048 ∧
    s0.oom = false := by
  obtain ⟨s0, init, ph, room, hcr3, hlo, hhi, hoom⟩ := initMm_room
  have inv : SpaceInv ⟨s0, [], []⟩ := SpaceInv.init init
  refine ⟨s0, init, ⟨⟨[], ph⟩, room.mono (by decide), inv.maps.kernel, fun q hq => ?_⟩, hcr3, hlo, hhi,
    hoom⟩
  obtain ⟨t, p, grows, rfl⟩ := initMm_grows init
  rw [withVm_memBitmap] at hq
  have h := @initBitmap_free 16384 q (by
    rw [← initPaging_memBitmap blankMm]
    exact Spare.used_free (fun _ => grows.used) hq)
  have hlimit : pgLimit 16384 = 4096 := by
    rw [pgLimit, wrap_of_lt (by decide)]
    rfl
  rwa [hlimit] at h

/-- The kernel half is shared after the first `pd_create`. -/
theorem shared_kernel_half_created : ∃ c pd, SharedHalf c ∧ c.pds = [pd] := by
  obtain ⟨s0, init, spare, hcr3, hlo, -, hoom⟩ := spare_blank
  obtain ⟨s1, pd, e, -, ok⟩ := spare.create (congrArg (· / 4096) hcr3)
  have hoom1 : s1.oom = false := (ok.uses.oom (by omega)).trans hoom
  exact ⟨⟨s1, [pd], []⟩, pd, shared_kernel_half init (.snoc .nil ⟨.create e, hoom1⟩), rfl⟩

/-- When the frames have run out, a new table of one directory erases another directory. -/
lemma torn_step {s : Mm} {A B : PageDirectory} {handed : List Page} {c0 : Spaces} {ops : List SpaceOp}
    (run : Run SpaceStep c0 ops ⟨s, [B, A], handed⟩) (spare : Spare s 2) (hfull : ¬ FrameFree s)
    (live : KernelMap s.ram A.frame) (hempty : s.ram A.frame 256 = 0) (hA : 2048 ≤ A.frame)
    (hA' : A.frame < 4096) (hB : B.frame = 0xFFFFF) :
    ∃ ops c, Run SpaceStep c0 ops c ∧ ¬ SharedHalf c := by
  obtain ⟨others, map, owned, areas⟩ := spare.heap
  have spare1 : Spare { s with cr3 := A.base.pAddr } 2 :=
    ⟨⟨others, live, owned.congr rfl rfl, areas⟩, ⟨spare.room.areas, spare.room.heap⟩, spare.kernel,
      spare.free⟩
  have hload : SpaceStep ⟨s, [B, A], handed⟩ (.load (some A))
      ⟨{ s with cr3 := A.base.pAddr }, [B, A], handed⟩ :=
    .load fun d hd => by cases hd; exact List.mem_cons_of_mem _ List.mem_cons_self
  have hdir : ({ s with cr3 := A.base.pAddr } : Mm).dir = A.frame := rfl
  have hframe : getPageFrame { s with cr3 := A.base.pAddr } =
      ({ { s with cr3 := A.base.pAddr } with oom := true }, MINUS_ONE) := getPageFrame_full hfull
  have hempty1 : ({ s with cr3 := A.base.pAddr } : Mm).ram A.frame 256 = 0 := hempty
  have live1 : KernelMap ({ s with cr3 := A.base.pAddr } : Mm).ram A.frame := live
  have hcr3 : ({ s with cr3 := A.base.pAddr } : Mm).cr3 = A.base.pAddr := rfl
  generalize ({ s with cr3 := A.base.pAddr } : Mm) = s1 at *
  obtain ⟨s2, pg, hg, spare2, ok⟩ := Spare.get (n := 0) spare1
  have hp : pg.pAddr = MINUS_ONE := by rw [ok.frame, hframe]
  have hentry := ok.entry
  rw [hp] at hentry
  have hdir2 : s2.dir = A.frame := by rw [Mm.dir, ok.cr3, ← Mm.dir, hdir]
  have live2 := live1.sameOutside ok.outside
  -- the table lies in the frame of the second directory
  obtain ⟨s3, hnew, hdir3, hram3⟩ : ∃ s3, newTable s1 USER_OFFSET PG_USER = .ok (s3, pg) ∧
      s3.dir = A.frame ∧ s3.ram = setWord (setWords s2.ram 0xFFFFF 1 1023 fun _ => 0) A.frame 256
        (MINUS_ONE ||| (PG_PRESENT ||| PG_WRITE ||| PG_USER)) := by
    refine ⟨_, newTable_eq (f := 0xFFFFF) hg (hdir2 ▸ live2) ok.page (by rw [hentry]; decide)
      (by rw [hentry]; decide) (by rw [hp]; rfl) (by omega) (by decide) (by decide), hdir2, ?_⟩
    rw [hdir2, hp]
    rfl
  have hself : SelfMap s3.ram s3.dir := by
    rw [hdir3, hram3]
    have keep : setWord (setWords s2.ram 0xFFFFF 1 1023 fun _ => 0) A.frame 256
        (MINUS_ONE ||| (PG_PRESENT ||| PG_WRITE ||| PG_USER)) A.frame 1023 = s2.ram A.frame 1023 := by
      rw [setWord_other (.inr (by decide)), setWords_other (by omega)]
    exact ⟨by rw [keep]; exact live2.self.present, by rw [keep]; exact live2.self.small,
      by rw [keep]; exact live2.self.frame⟩
  have hpde : s3.ram s3.dir (USER_OFFSET / 4194304) =
      MINUS_ONE ||| (PG_PRESENT ||| PG_WRITE ||| PG_USER) := by
    rw [hdir3, hram3]
    exact setWord_same _ _ _ _
  have hwrite := writeWord_pte hself (v := USER_OFFSET) (by decide) (by rw [hpde]; decide)
    (0 ||| (PG_PRESENT ||| PG_WRITE ||| PG_USER))
  have hfr : frameOf (MINUS_ONE ||| (PG_PRESENT ||| PG_WRITE ||| PG_USER)) = 0xFFFFF := by decide
  rw [hpde, hfr] at hwrite
  have hread := readWord_pde (s := s1) (v := USER_OFFSET) (hdir ▸ live1.self) (by decide)
  have hzero : s1.ram s1.dir (USER_OFFSET / 4194304) = 0 := by rw [hdir]; exact hempty1
  have e : pdAddPage s1 USER_OFFSET 0 PG_USER (some A) = .ok ({ s3 with
      ram := setWord s3.ram 0xFFFFF 0 (0 ||| (PG_PRESENT ||| PG_WRITE ||| PG_USER)) },
      some { A with pt := pg :: A.pt }) := by
    rw [pdAddPage, hread, ok_bind, hzero, if_pos (by decide), hnew, ok_bind]
    simp only [hwrite, ok_bind, pure_eq_ok]
    rfl
  have hadd : SpaceStep ⟨s1, [B, A], handed⟩ (.add USER_OFFSET 0 PG_USER) _ :=
    .add (List.mem_cons_of_mem _ List.mem_cons_self) hcr3 (le_refl _) (by decide) (by decide) e
  refine ⟨_, _, .snoc (.snoc run hload) hadd, fun shared => ?_⟩
  have hne : B ≠ A := fun h => by rw [← h, hB] at hA'; omega
  have hmem : B ∈ { A with pt := pg :: A.pt } :: [B, A].erase A :=
    List.mem_cons_of_mem _ ((List.mem_erase_of_ne hne).2 List.mem_cons_self)
  obtain ⟨hal, hge, hlt⟩ := ok.page
  have h := shared B hmem pg.vAddr hge (lt_trans hlt (by decide))
  -- the entry of the page is gone from the second directory, and there in `pd0`
  have hout : ∀ f i, f ≠ 0xFFFFF → f ≠ A.frame →
      setWord s3.ram 0xFFFFF 0 (0 ||| (PG_PRESENT ||| PG_WRITE ||| PG_USER)) f i = s2.ram f i := by
    intro f i h1 h2
    rw [setWord_other (.inl h1), hram3, setWord_other (.inl h2), setWords_other h1]
  have hgone : setWord s3.ram 0xFFFFF 0 (0 ||| (PG_PRESENT ||| PG_WRITE ||| PG_USER)) B.frame
      (pg.vAddr / 4194304) = 0 := by
    rw [hB, setWord_other (.inr (by omega)), hram3, setWord_other (.inl (by omega)),
      setWords_same (by omega) (by omega)]
  have hkern := (spare2.kernel.congr fun j => hout 1 j (by decide) (by omega)).walk ok.page.inTables
  have hpte : kernPte (setWord s3.ram 0xFFFFF 0 (0 ||| (PG_PRESENT ||| PG_WRITE ||| PG_USER)))
      pg.vAddr = MINUS_ONE ||| (PG_PRESENT ||| PG_WRITE ||| 0) := by
    rw [← hentry]
    unfold kernPte kernTable
    exact hout _ _ (by omega) (by omega)
  rw [hpte, if_pos (by decide)] at hkern
  have hnone : walk (setWord s3.ram 0xFFFFF 0 (0 ||| (PG_PRESENT ||| PG_WRITE ||| PG_USER))) B.frame
      pg.vAddr = none := by
    unfold walk
    rw [hgone]
    rfl
  change walk _ B.frame pg.vAddr = walk _ 1 pg.vAddr at h
  rw [hnone, hkern] at h
  cases h

/-- A run in which the frames have run out before the second directory is made. A page table of the
first directory then erases the second one, whose kernel half is gone. -/
theorem torn_kernel_half : ∃ s0 ops c, initMm blankMm 16384 = .ok s0 ∧ s0.oom = false ∧
    Run SpaceStep ⟨s0, [], []⟩ ops c ∧ ¬ SharedHalf c := by
  obtain ⟨s0, init, spare, hcr3, hlo, hhi, hoom⟩ := spare_blank
  have hdir0 : s0.dir = 1 := congrArg (· / 4096) hcr3
  obtain ⟨s1, A, e1, spare1, ok1⟩ := spare.create hdir0
  obtain ⟨ram1, hout1, hram1⟩ := ok1.ram
  obtain ⟨hpA, hA, hA'⟩ := ok1.fresh (by omega)
  have km1 := spare.kernel.sameOutside hout1
  have live1 : KernelMap s1.ram A.frame := by
    rw [hram1]
    refine newDir_map km1 (by omega) (by omega) hA ?_
    rw [hpA, show A.frame * 4096 = 2 ^ 12 * A.frame by omega, Nat.testBit_two_pow_mul]
    rfl
  have hcard : (freeFrames s1).card ≤ 2048 := le_trans (freeFrames_le ok1.used) hhi
  obtain ⟨ops2, s2, handed, run2, spare2, hfull2, hcr32, hout2⟩ :=
    Spare.exhaust (n := 2 + 3) 2048 spare1 hcard (.snoc .nil (.create e1))
  have hdir2 : s2.dir = 1 := by
    rw [Mm.dir, hcr32, ok1.cr3, ← Mm.dir, hdir0]
  obtain ⟨s3, B, e3, spare3, ok3⟩ := spare2.create hdir2
  obtain ⟨hpB, hfull3⟩ := ok3.full hfull2
  have hB : B.frame = 0xFFFFF := by
    rw [PageDirectory.frame, hpB]
    rfl
  obtain ⟨ram3, hout3, hram3⟩ := ok3.ram
  have hkeep : ∀ i, s3.ram A.frame i = s1.ram A.frame i := by
    intro i
    rw [hram3, newDir_other (by omega), hout3 _ _ (.inr hA), hout2 _ _ (.inr hA)]
  have hempty : s3.ram A.frame 256 = 0 := by
    rw [hkeep, hram1, newDir_user (by decide) (by decide)]
  obtain ⟨ops, c, run, hnot⟩ := torn_step (.snoc run2 (.create e3)) spare3 hfull3
    (live1.congr hkeep) hempty hA hA' hB
  exact ⟨s0, ops, c, init, hoom, run, hnot⟩

end Creeks
