import Creeks.Mm.Directory

/-!
# Pages that are held

What `get_page_from_heap` and `release_page_from_heap` do to the page tables and the bitmap in any
state, whatever the kernel heap and the words below the list head contain, and also when they take the
last page of the page heap. `Held s pages` is what they keep: the pages that have been handed out and
not released are distinct, not free, and mapped to distinct frames that are in use.
-/

namespace Creeks
open Lib

/-- A page that has been handed out, mapped to a frame that is in use. -/
structure HeldPage (s : Mm) (pg : Page) : Prop where
  page : HeapPage pg.vAddr
  taken : ¬ PageFree s.kernFreeVm pg.vAddr
  entry : kernPte s.ram pg.vAddr = pg.pAddr ||| (PG_PRESENT ||| PG_WRITE ||| 0)
  frame : ∃ f, pg.pAddr = f * 4096 ∧ 2048 ≤ f ∧ f < 1048576 ∧ frameUsed s.memBitmap f = true

/-- The pages that have been handed out and not released. -/
structure Held (s : Mm) (pages : List Page) : Prop where
  areas : AreaList s.kernFreeVm
  lower : KERN_HEAP ≤ s.kernHeap
  upper : s.kernHeap ≤ KERN_HEAP_LIM
  free : ∀ q, frameUsed s.memBitmap q = false → 2048 ≤ q
  addresses : (pages.map Page.vAddr).Nodup
  frames : (pages.map Page.pAddr).Nodup
  held : ∀ pg ∈ pages, HeldPage s pg

/-- `get_page_from_heap` takes a frame for the first free page, and the heap may grow. -/
lemma getPageFromHeap_frame {s s' : Mm} {pg : Page} (km : KernelMap s.ram s.dir)
    (areas : AreaList s.kernFreeVm) (hk : KERN_HEAP ≤ s.kernHeap) (hlim : s.kernHeap ≤ KERN_HEAP_LIM)
    (h : getPageFromHeap s = .ok (s', pg)) :
    ∃ area rest, s.kernFreeVm = area :: rest ∧ pg.vAddr = area.vmStart ∧
      pg.pAddr = (getPageFrame s).2 ∧ Grows (pageTaken s area.vmStart (eatFirst area rest)) s' := by
  obtain ⟨bitmap, oom, hframe, -⟩ := getPageFrame_frame s
  have hvm : (getPageFrame s).1.kernFreeVm = s.kernFreeVm := by rw [hframe]
  have hhead : (getPageFrame s).1.headWords = s.headWords := by rw [hframe]
  rw [getPageFromHeap] at h
  simp only [Nat.not_lt_zero, if_false, hvm] at h
  generalize hl : s.kernFreeVm = l at h areas
  cases l with
  | nil => cases h
  | cons area rest =>
    obtain ⟨hpage, -, -⟩ := areas.first
    obtain ⟨s1, he, h⟩ := bind_ok.1 h
    obtain ⟨s2, ha, h⟩ := bind_ok.1 h
    obtain ⟨⟨s3, p⟩, hm, h⟩ := bind_ok.1 h
    cases h
    -- the area is freed when its only page has been taken
    obtain ⟨mem, used, rfl⟩ : ∃ mem used,
        s1 = ((getPageFrame s).1.withVm (eatFirst area rest) s.headWords).withHeap mem used := by
      rw [eatArea, hhead] at he
      rw [eatFirst]
      split at he
      case isTrue hend =>
        rw [if_pos hend]
        exact kfree_frame he
      case isFalse hend =>
        cases he
        rw [if_neg hend]
        exact ⟨_, _, withHeap_self _⟩
    have hadd := pd0AddPage_eq (s := ((getPageFrame s).1.withVm (eatFirst area rest)
      s.headWords).withHeap mem used) (by simpa using km) hpage.inTables (getPageFrame s).2 0
    rw [withHeap_update_ram, withHeap_ram, withVm_ram, getPageFrame_ram] at hadd
    rw [hadd] at ha
    cases ha
    refine ⟨area, rest, rfl, rfl, rfl, (kmalloc_frame ?_ ?_ ?_ (by decide) hm).of_withHeap⟩
    · rw [withHeap_ram, withHeap_dir]
      change KernelMap (setKernPte s.ram area.vmStart _) (getPageFrame s).1.dir
      rw [getPageFrame_dir]
      exact km.setKernPte hpage.inTables _
    · rw [withHeap_kernHeap]
      exact le_of_le_of_eq hk (getPageFrame_kernHeap s).symm
    · rw [withHeap_kernHeap]
      exact le_of_eq_of_le (getPageFrame_kernHeap s) hlim

/-- The page at `v` joins the free areas, or is lost: nothing but that page becomes free. -/
def Joins (areas areas' : List VmArea) (v : Nat) : Prop :=
  AreaList areas' ∧ ∀ x, PageFree areas' x → PageFree areas x ∨ (v ≤ x ∧ x < v + 4096)

section Join

variable {areas areas' rest : List VmArea} {area : VmArea} {v : Nat}

lemma Joins.refl (h : AreaList areas) : Joins areas areas v := ⟨h, fun _ => .inl⟩

lemma Joins.of_cover (h : AreaList areas' ∧
      ∀ x, PageFree areas' x ↔ PageFree areas x ∨ (v ≤ x ∧ x < v + 4096)) : Joins areas areas' v :=
  ⟨h.1, fun x => (h.2 x).1⟩

/-- Losing the first area. -/
lemma Joins.tail (h : AreaList (area :: rest)) : Joins (area :: rest) rest v := by
  obtain ⟨h1, h2, h3⟩ := h
  refine ⟨⟨(Spaced.cons_iff.1 h1).2.1, fun a ha => h2 a (List.mem_cons_of_mem _ ha),
    fun a ha => h3 a (List.mem_cons_of_mem _ ha)⟩, fun x hx => ?_⟩
  rw [PageFree, covers_cons]
  exact .inl (.inr hx)

end Join

/-- What the end of `release_page_from_heap` does to the list. -/
lemma mergePage_frame {s s' : Mm} {v r : Nat} (km : KernelMap s.ram s.dir)
    (areas : AreaList s.kernFreeVm) (hk : KERN_HEAP ≤ s.kernHeap) (hlim : s.kernHeap ≤ KERN_HEAP_LIM)
    (hv : HeapPage v) (hfree : ¬ PageFree s.kernFreeVm v) (h : mergePage s v = .ok (s', r)) :
    ∃ areas' head, Grows (s.withVm areas' head) s' ∧ Joins s.kernFreeVm areas' v := by
  obtain ⟨before, after, hscan, hlist, hend, hnext⟩ := areas.split hv hfree
  have hupper := hv.upper
  have hwrap : wrap (v + PAGESIZE) = v + 4096 := wrap_of_lt (by simp only [PAGESIZE]; omega)
  unfold mergePage at h
  simp only [hscan, hwrap] at h
  rw [hlist] at areas ⊢
  by_cases hprev : prevEnd s before = v
  · rw [if_pos hprev] at h
    by_cases hmeet : v + 4096 = nextStart s after
    · rw [if_pos hmeet] at h
      cases after with
      | nil => cases h
      | cons next after =>
        obtain ⟨t, hf, h⟩ := bind_ok.1 h
        obtain ⟨mem, used, rfl⟩ := kfree_frame hf
        cases h
        cases before with
        | nil => exact ⟨_, _, .heap _ mem used, .tail areas⟩
        | cons prev bs =>
          rw [List.reverse_cons, List.append_assoc] at areas ⊢
          refine ⟨_, _, .heap _ mem used, ?_⟩
          rw [List.reverse_cons, List.append_assoc]
          exact .of_cover (areas.bridge hprev hmeet)
    · rw [if_neg hmeet] at h
      cases h
      cases before with
      | nil => exact ⟨_, _, .refl _, .refl areas⟩
      | cons prev bs =>
        have hr : ∀ b ∈ after, v + 4096 < b.vmStart := by
          cases after with
          | nil => exact nofun
          | cons next after =>
            exact areas.above (lt_of_le_of_ne (hnext next List.mem_cons_self) hmeet)
        rw [List.reverse_cons, List.append_assoc] at areas ⊢
        refine ⟨_, _, .refl _, ?_⟩
        rw [List.reverse_cons, List.append_assoc]
        exact .of_cover (areas.extendRight hv hprev hr)
  · rw [if_neg hprev] at h
    have hl : ∀ a ∈ before.reverse, a.vmEnd < v := by
      cases before with
      | nil => exact nofun
      | cons prev bs => exact areas.apart hend hprev
    by_cases hmeet : nextStart s after = v + 4096
    · rw [if_pos hmeet] at h
      cases h
      cases after with
      | nil =>
        rw [List.append_nil] at areas ⊢
        exact ⟨_, _, .refl _, .refl areas⟩
      | cons next after => exact ⟨_, _, .refl _, .of_cover (areas.extendLeft hv hl hmeet)⟩
    · rw [if_neg hmeet] at h
      split at h
      case isFalse => cases h
      case isTrue hgap =>
        obtain ⟨⟨t, p⟩, hm, h⟩ := bind_ok.1 h
        cases h
        refine ⟨_, _, (kmalloc_frame km hk hlim (by decide) hm).withVm _ _, ?_⟩
        refine .of_cover (areas.insert hv hl ?_ rfl rfl)
        cases after with
        | nil => exact nofun
        | cons next after => exact areas.above hgap

/-- `release_page_from_heap` of a page that is held unmaps it and releases its frame. -/
lemma releasePageFromHeap_frame {s s' : Mm} {v r : Nat} (km : KernelMap s.ram s.dir)
    (areas : AreaList s.kernFreeVm) (hk : KERN_HEAP ≤ s.kernHeap) (hlim : s.kernHeap ≤ KERN_HEAP_LIM)
    (hv : HeapPage v) (hfree : ¬ PageFree s.kernFreeVm v) (hp : (kernPte s.ram v).testBit 0 = true)
    (hf : frameOf (kernPte s.ram v) ≠ 0) (h : releasePageFromHeap s v = .ok (s', r)) :
    ∃ areas' head, Grows ((pageDropped s v areas').withVm areas' head) s' ∧
      Joins s.kernFreeVm areas' v := by
  obtain ⟨h1, h2, h3⟩ := PageHeap.drop km hv hp hf
  rw [releasePageFromHeap, h1, ok_bind, if_neg h2, h3, ok_bind] at h
  exact mergePage_frame (s := pageDropped s v s.kernFreeVm) (km.setKernPte hv.inTables _) areas hk
    hlim hv hfree h

/-- The frames outside `pg1` are the same. -/
def SameOutside (ram ram' : Nat → Nat → Nat) : Prop :=
  ∀ f i, f < 1024 ∨ 2048 ≤ f → ram' f i = ram f i

lemma SameOutside.trans {r1 r2 r3 : Nat → Nat → Nat} (h : SameOutside r1 r2) (h' : SameOutside r2 r3) :
    SameOutside r1 r3 := fun f i hf => (h' f i hf).trans (h f i hf)

lemma Grows.sameOutside {s t : Mm} (h : Grows s t) (hk : KERN_HEAP ≤ s.kernHeap) :
    SameOutside s.ram t.ram := fun _ _ hf => h.ram hk hf

/-- The table entry of a kernel address is in `pg1`. -/
lemma sameOutside_setKernPte {ram : Nat → Nat → Nat} {v w : Nat} (hv : InTables v) :
    SameOutside ram (setKernPte ram v w) := by
  intro f i hf
  apply setWord_other
  left
  have := hv.2
  unfold kernTable
  omega

lemma KernelMap.sameOutside {ram ram' : Nat → Nat → Nat} {d : Nat} (km : KernelMap ram d)
    (h : SameOutside ram ram') : KernelMap ram' d :=
  km.congr fun j => h d j km.outside

/-- The frame of a page that is held, read in its table entry. -/
lemma HeldPage.frameOf {s : Mm} {pg : Page} (h : HeldPage s pg) :
    ∃ f, pg.pAddr = f * 4096 ∧ frameOf (kernPte s.ram pg.vAddr) = f ∧ 2048 ≤ f ∧
      frameUsed s.memBitmap f = true ∧ (kernPte s.ram pg.vAddr).testBit 0 = true := by
  obtain ⟨f, hf, hlo, hhi, hused⟩ := h.frame
  rw [h.entry]
  refine ⟨f, hf, ?_, hlo, hused, entry_present _ _⟩
  rw [frameOf_entry (by omega) (by decide), hf, Nat.mul_div_cancel _ (by decide)]

namespace Held

variable {s s' : Mm} {pg : Page} {pages pages' : List Page}

/-- What the pages that are held depend on. -/
lemma congr (h : Held s pages) (hvm : s'.kernFreeVm = s.kernFreeVm)
    (hlo : KERN_HEAP ≤ s'.kernHeap) (hhi : s'.kernHeap ≤ KERN_HEAP_LIM)
    (hused : ∀ q, frameUsed s.memBitmap q = true → frameUsed s'.memBitmap q = true)
    (hpte : ∀ v, HeapPage v → kernPte s'.ram v = kernPte s.ram v) : Held s' pages where
  areas := hvm ▸ h.areas
  lower := hlo
  upper := hhi
  free := fun q hq => h.free q (by
    by_contra hne
    rw [Bool.not_eq_false] at hne
    rw [hused q hne] at hq
    cases hq)
  addresses := h.addresses
  frames := h.frames
  held := by
    intro pg hpg
    obtain ⟨h1, h2, h3, f, h4, h5, h6, h7⟩ := h.held pg hpg
    exact ⟨h1, hvm ▸ h2, (hpte _ h1).trans h3, f, h4, h5, h6, hused f h7⟩

/-- Fewer pages, in any order. -/
lemma subperm (h : Held s pages) (hsub : List.Subperm pages' pages) : Held s pages' := by
  obtain ⟨l, hl, hs⟩ := hsub
  refine ⟨h.areas, h.lower, h.upper, h.free, ?_, ?_, fun pg hpg => h.held pg (hs.subset (hl.mem_iff.2 hpg))⟩
  · exact (hl.map _).nodup_iff.1 ((hs.map _).nodup h.addresses)
  · exact (hl.map _).nodup_iff.1 ((hs.map _).nodup h.frames)

/-- Growth of the kernel heap leaves the pages that are held alone. -/
lemma grows (h : Held s pages) (grows : Grows s s') : Held s' pages :=
  h.congr grows.fields.1 (le_trans h.lower grows.fields.2.2.2.2.1) (grows.kernHeap_le h.upper)
    (fun _ => grows.used) (fun _ hv => grows.heapPage hv h.lower)

/-- `kfree` leaves the pages that are held alone. -/
lemma withHeap (h : Held s pages) (mem : Mem) (used : Nat) : Held (s.withHeap mem used) pages :=
  h.grows (.heap s mem used)

/-- A page is held once it has been taken and mapped to a free frame. -/
lemma taken {area : VmArea} {rest : List VmArea} {f : Nat} (h : Held s pages)
    (hvm : s.kernFreeVm = area :: rest) (hframe : getPageFrame s =
      ({ s with memBitmap := setPageFrameUsed s.memBitmap f }, f * PAGESIZE))
    (hlt : f < 1048576) (hfree : frameUsed s.memBitmap f = false) (hv : pg.vAddr = area.vmStart)
    (hp : pg.pAddr = f * PAGESIZE) :
    Held (pageTaken s area.vmStart (eatFirst area rest)) (pg :: pages) := by
  have areas := h.areas
  rw [hvm] at areas
  obtain ⟨hpage, hlen, -⟩ := areas.first
  obtain ⟨heat, hcover⟩ := areas.eat
  have hnot : ¬ PageFree (eatFirst area rest) area.vmStart := by
    rintro ⟨a, ha, hlo, -⟩
    have := areas.eat_above a ha
    omega
  -- nobody holds the page or the frame
  have hnewV : ∀ pg' ∈ pages, pg'.vAddr ≠ area.vmStart := by
    intro pg' hpg' e
    apply (h.held pg' hpg').taken
    rw [e, hvm]
    exact ⟨area, List.mem_cons_self, le_refl _, by omega⟩
  have hnewP : ∀ pg' ∈ pages, pg'.pAddr ≠ pg.pAddr := by
    intro pg' hpg' e
    obtain ⟨f', hf', -, -, hused⟩ := (h.held pg' hpg').frame
    rw [hf', hp] at e
    simp only [PAGESIZE] at e
    rw [show f' = f by omega, hfree] at hused
    cases hused
  have hbit : (pageTaken s area.vmStart (eatFirst area rest)).memBitmap =
      setPageFrameUsed s.memBitmap f := by rw [pageTaken_memBitmap, hframe]
  have hmono : ∀ q, frameUsed s.memBitmap q = true →
      frameUsed (pageTaken s area.vmStart (eatFirst area rest)).memBitmap q = true := by
    intro q hq
    rw [hbit, frameUsed_set, hq, Bool.or_true]
  refine ⟨heat, ?_, ?_, fun q hq => h.free q ?_, ?_, ?_, fun pg' hpg' => ?_⟩
  · rw [pageTaken_kernHeap]
    exact h.lower
  · rw [pageTaken_kernHeap]
    exact h.upper
  · by_contra hne
    rw [Bool.not_eq_false] at hne
    rw [hmono q hne] at hq
    cases hq
  · rw [List.map_cons, List.nodup_cons]
    refine ⟨fun hmem => ?_, h.addresses⟩
    obtain ⟨pg', hpg', e⟩ := List.mem_map.1 hmem
    exact hnewV pg' hpg' (e.trans hv)
  · rw [List.map_cons, List.nodup_cons]
    refine ⟨fun hmem => ?_, h.frames⟩
    obtain ⟨pg', hpg', e⟩ := List.mem_map.1 hmem
    exact hnewP pg' hpg' e
  · rcases List.mem_cons.1 hpg' with rfl | hpg'
    · refine ⟨hv ▸ hpage, hv ▸ hnot, ?_, f, hp, h.free f hfree, hlt, ?_⟩
      · rw [hv, pageTaken_ram, kernPte_setKernPte, hframe, hp]
      · rw [hbit, frameUsed_set]
        simp
    · obtain ⟨h1, h2, h3, f', h4, h5, h6, h7⟩ := h.held pg' hpg'
      refine ⟨h1, fun hx => h2 ?_, ?_, f', h4, h5, h6, hmono f' h7⟩
      · rw [hvm]
        exact (hcover _).2 (.inr hx)
      · rw [pageTaken_ram, kernPte_setKernPte_other h1.inTables hpage.inTables
          (h1.ne_page hpage (hnewV pg' hpg')), h3]

/-- `get_page_from_heap` hands out one more page, unless the frames have run out. -/
lemma get (h : Held s pages) (km : KernelMap s.ram s.dir) (e : getPageFromHeap s = .ok (s', pg))
    (hoom : s'.oom = false) : Held s' (pg :: pages) ∧ s'.cr3 = s.cr3 ∧ SameOutside s.ram s'.ram := by
  obtain ⟨area, rest, hvm, hv, hp, grows⟩ := getPageFromHeap_frame km h.areas h.lower h.upper e
  have areas := h.areas
  rw [hvm] at areas
  obtain ⟨hpage, -, -⟩ := areas.first
  have hk : KERN_HEAP ≤ (pageTaken s area.vmStart (eatFirst area rest)).kernHeap := by
    rw [pageTaken_kernHeap]
    exact h.lower
  refine ⟨?_, ?_, (sameOutside_setKernPte hpage.inTables).trans (grows.sameOutside hk)⟩
  · rcases getPageFrame_cases s with ⟨f, hlt, hfree, hframe⟩ | hframe
    · exact (h.taken hvm hframe hlt hfree hv (by rw [hp, hframe])).grows grows
    · have htaken : (pageTaken s area.vmStart (eatFirst area rest)).oom = true := by
        change (getPageFrame s).1.oom = true
        rw [hframe]
      rw [grows.fields.2.2.2.2.2 htaken] at hoom
      cases hoom
  · rw [grows.fields.2.2.1]
    obtain ⟨_, _, hf, -⟩ := getPageFrame_frame s
    change (getPageFrame s).1.cr3 = s.cr3
    rw [hf]

/-- The other pages are held once a page has been unmapped and its frame released. -/
lemma dropped {areas' : List VmArea} {head : Nat × Nat} (h : Held s (pg :: pages))
    (join : Joins s.kernFreeVm areas' pg.vAddr) :
    Held ((pageDropped s pg.vAddr areas').withVm areas' head) pages := by
  have hpg := h.held pg List.mem_cons_self
  obtain ⟨f, hf, hfr, hlo, -, -⟩ := hpg.frameOf
  have haddr := List.nodup_cons.1 h.addresses
  have hframes := List.nodup_cons.1 h.frames
  have hbit : ∀ q, frameUsed ((pageDropped s pg.vAddr areas').withVm areas' head).memBitmap q =
      (!decide (q = f) && frameUsed s.memBitmap q) := by
    intro q
    rw [withVm_memBitmap, pageDropped_memBitmap, frameUsed_release, hfr,
      Nat.mul_div_cancel _ (by decide)]
  refine ⟨?_, ?_, ?_, fun q hq => ?_, haddr.2, hframes.2, fun pg' hpg' => ?_⟩
  · rw [withVm_kernFreeVm]
    exact join.1
  · rw [withVm_kernHeap, pageDropped_kernHeap]
    exact h.lower
  · rw [withVm_kernHeap, pageDropped_kernHeap]
    exact h.upper
  · rw [hbit, Bool.and_eq_false_iff, Bool.not_eq_false', decide_eq_true_eq] at hq
    rcases hq with rfl | hq
    · exact hlo
    · exact h.free q hq
  · obtain ⟨h1, h2, h3, f', h4, h5, h6, h7⟩ := h.held pg' (List.mem_cons_of_mem _ hpg')
    have hne : pg'.vAddr ≠ pg.vAddr := fun e => haddr.1 (e ▸ List.mem_map_of_mem hpg')
    have hne' : f' ≠ f := fun e => hframes.1 (by
      rw [List.mem_map]
      exact ⟨pg', hpg', by rw [h4, hf, e]⟩)
    refine ⟨h1, fun hx => ?_, ?_, f', h4, h5, h6, ?_⟩
    · rw [withVm_kernFreeVm] at hx
      rcases join.2 _ hx with hx | ⟨h8, h9⟩
      · exact h2 hx
      · have := h1.aligned
        have := hpg.page.aligned
        omega
    · rw [withVm_ram, pageDropped_ram, kernPte_setKernPte_other h1.inTables hpg.page.inTables
        (h1.ne_page hpg.page hne), h3]
    · rw [hbit, h7]
      simpa using hne'

/-- `release_page_from_heap` takes back one page. -/
lemma release {r : Nat} (h : Held s (pg :: pages)) (km : KernelMap s.ram s.dir)
    (e : releasePageFromHeap s pg.vAddr = .ok (s', r)) :
    Held s' pages ∧ s'.cr3 = s.cr3 ∧ SameOutside s.ram s'.ram := by
  have hpg := h.held pg List.mem_cons_self
  obtain ⟨f, -, hfr, hlo, -, hp⟩ := hpg.frameOf
  obtain ⟨areas', head, grows, join⟩ := releasePageFromHeap_frame km h.areas h.lower h.upper hpg.page
    hpg.taken hp (by omega) e
  have hk : KERN_HEAP ≤ ((pageDropped s pg.vAddr areas').withVm areas' head).kernHeap := by
    rw [withVm_kernHeap, pageDropped_kernHeap]
    exact h.lower
  refine ⟨(h.dropped join).grows grows, ?_, ?_⟩
  · rw [grows.fields.2.2.1, withVm_cr3]
    rfl
  · have hout := grows.sameOutside hk
    rw [withVm_ram, pageDropped_ram] at hout
    exact (sameOutside_setKernPte hpg.page.inTables).trans hout

end Held

/-- The frame of a page directory. -/
def PageDirectory.frame (pd : PageDirectory) : Nat := pd.base.pAddr / PAGESIZE

/-- The pages of a page directory: its own and those of its tables. -/
def PageDirectory.pages (pd : PageDirectory) : List Page := pd.base :: pd.pt

/-- The loaded directory is `pd0` or one whose page is held. -/
def Loaded (s : Mm) (pages : List Page) : Prop :=
  s.cr3 = KERN_PDIR ∨ ∃ pg ∈ pages, s.cr3 = pg.pAddr

namespace Held

variable {s s' : Mm} {pg : Page} {pages : List Page}

/-- The frames of two pages that are held are different. -/
lemma frame_ne (h : Held s (pg :: pages)) {pg' : Page} (hpg' : pg' ∈ pages) :
    pg'.pAddr / 4096 ≠ pg.pAddr / 4096 := by
  obtain ⟨f, hf, -⟩ := (h.held pg List.mem_cons_self).frame
  obtain ⟨f', hf', -⟩ := (h.held pg' (List.mem_cons_of_mem _ hpg')).frame
  intro e
  apply (List.nodup_cons.1 h.frames).1
  have e' : pg'.pAddr = pg.pAddr := by omega
  exact e' ▸ List.mem_map_of_mem hpg'

/-- The frame of a new page is not the one of the loaded directory. -/
lemma frame_ne_dir (h : Held s (pg :: pages)) (hl : Loaded s pages) : pg.pAddr / 4096 ≠ s.dir := by
  obtain ⟨f, hf, hlo, -⟩ := (h.held pg List.mem_cons_self).frame
  rcases hl with e | ⟨pg', hpg', e⟩
  · rw [Mm.dir, e, hf, Nat.mul_div_cancel _ (by decide)]
    simp only [KERN_PDIR]
    omega
  · rw [Mm.dir, e]
    exact (h.frame_ne hpg').symm

/-- Writing frames outside `pg1` leaves the pages that are held alone. -/
lemma ram {ram' : Nat → Nat → Nat} (h : Held s pages)
    (hram : ∀ f i, 1024 ≤ f → f < 1280 → ram' f i = s.ram f i) :
    Held { s with ram := ram' } pages :=
  h.congr rfl h.lower h.upper (fun _ => id) fun v hv => by
    have := hv.upper
    unfold kernPte kernTable
    exact hram _ _ (by omega) (by omega)

/-- `pd_create` makes a directory in a frame of its own. -/
lemma create {pd : PageDirectory} (h : Held s pages) (km : KernelMap s.ram s.dir)
    (hl : Loaded s pages) (e : pdCreate s = .ok (s', pd)) (hoom : s'.oom = false) :
    Held s' (pd.base :: pages) ∧ s'.cr3 = s.cr3 ∧ pd.pt = [] ∧
      ∃ ram, SameOutside s.ram ram ∧ s'.ram = newDir ram pd.frame pd.base.pAddr := by
  have hall := e
  obtain ⟨s1, s2, ram, hk, hg, hpt, rfl⟩ := pdCreate_ok e
  have grows := kmalloc_frame km h.lower h.upper (by decide) hk
  have hdir1 : s1.dir = s.dir := by rw [Mm.dir, Mm.dir, grows.fields.2.2.1]
  have km1 : KernelMap s1.ram s1.dir := hdir1 ▸ grows.map km h.lower
  obtain ⟨held, hcr3, hout⟩ := (h.grows grows).get km1 hg hoom
  have hdir2 : s2.dir = s1.dir := by rw [Mm.dir, Mm.dir, hcr3]
  have km2 : KernelMap s2.ram s2.dir := hdir2 ▸ km1.sameOutside hout
  have hl2 : Loaded s2 pages := by
    unfold Loaded
    rwa [hcr3, grows.fields.2.2.1]
  have hpg := held.held pd.base List.mem_cons_self
  obtain ⟨f, hf, hfr, hlo, -, hp⟩ := hpg.frameOf
  have hdf : f ≠ s2.dir := by
    have := held.frame_ne_dir hl2
    rwa [hf, Nat.mul_div_cancel _ (by decide)] at this
  rw [pdCreate_eq hk hg km2 hpg.page hp hfr hdf hlo] at hall
  have hram := congrArg Mm.ram (Prod.mk.inj (Except.ok.inj hall)).1
  dsimp only at hram
  refine ⟨?_, hcr3.trans grows.fields.2.2.1, hpt, s2.ram, ?_, ?_⟩
  · rw [← hram]
    exact held.ram fun f' i h1 h2 => newDir_other (by omega)
  · exact (grows.sameOutside h.lower).trans hout
  · rw [← hram, PageDirectory.frame, hf, Nat.mul_div_cancel _ (by decide)]

/-- `pd_destroy` gives back the pages of the tables. -/
lemma tables {tables : List Page} (h : Held s (tables ++ pages)) (km : KernelMap s.ram s.dir)
    (e : releaseTables tables s = .ok s') :
    Held s' pages ∧ s'.cr3 = s.cr3 ∧ SameOutside s.ram s'.ram := by
  induction tables generalizing s with
  | nil =>
    cases e
    exact ⟨h, rfl, fun _ _ _ => rfl⟩
  | cons pg l ih =>
    obtain ⟨⟨s1, r⟩, hr, e⟩ := bind_ok.1 e
    obtain ⟨s2, hf, e⟩ := bind_ok.1 e
    obtain ⟨mem, used, rfl⟩ := kfree_frame hf
    obtain ⟨h1, hcr3, hout⟩ := @Held.release s s1 pg (l ++ pages) r h km hr
    have hdir : s1.dir = s.dir := by rw [Mm.dir, Mm.dir, hcr3]
    obtain ⟨h2, hcr3', hout'⟩ := ih (h1.withHeap mem used) (by
      rw [withHeap_ram, withHeap_dir, hdir]
      exact km.sameOutside hout) e
    rw [withHeap_cr3] at hcr3'
    rw [withHeap_ram] at hout'
    exact ⟨h2, hcr3'.trans hcr3, hout.trans hout'⟩

/-- `pd_destroy` gives back the pages of the directory. -/
lemma destroy {pd : PageDirectory} (h : Held s (pd.pages ++ pages)) (km : KernelMap s.ram s.dir)
    (e : pdDestroy s pd = .ok s') :
    Held s' pages ∧ s'.cr3 = s.cr3 ∧ SameOutside s.ram s'.ram := by
  rw [pdDestroy] at e
  obtain ⟨s1, ht, e⟩ := bind_ok.1 e
  obtain ⟨⟨s2, r⟩, hr, e⟩ := bind_ok.1 e
  obtain ⟨mem, used, rfl⟩ := kfree_frame e
  have hperm : Held s (pd.pt ++ pd.base :: pages) :=
    h.subperm (@List.perm_middle _ _ pd.pt _).subperm
  obtain ⟨h1, hcr3, hout⟩ := hperm.tables km ht
  have hdir : s1.dir = s.dir := by rw [Mm.dir, Mm.dir, hcr3]
  obtain ⟨h2, hcr3', hout'⟩ := h1.release (hdir ▸ km.sameOutside hout) hr
  refine ⟨h2.withHeap mem used, ?_, ?_⟩
  · rw [withHeap_cr3, hcr3', hcr3]
  · rw [withHeap_ram]
    exact hout.trans hout'

/-- `pd_add_page` puts a new table in service in a frame of its own. -/
lemma table {v flags : Nat} (h : Held s pages) (km : KernelMap s.ram s.dir) (hl : Loaded s pages)
    (hv : v < 4294967296) (e : newTable s v flags = .ok (s', pg)) (hoom : s'.oom = false) :
    Held s' (pg :: pages) ∧ s'.cr3 = s.cr3 ∧ ∃ ram, SameOutside s.ram ram ∧
      s'.ram = setWord (setWords ram (pg.pAddr / 4096) 1 1023 fun _ => 0) s.dir (v / 4194304)
        (pg.pAddr ||| (PG_PRESENT ||| PG_WRITE ||| flags)) ∧
      (s'.stale = false → (ram (pg.pAddr / 4096) 0).testBit 0 = true → v / 4096 % 1024 = 0) := by
  have hall := e
  obtain ⟨s1, ram, left, hg, rfl⟩ := newTable_ok e
  obtain ⟨held, hcr3, hout⟩ := h.get km hg hoom
  have hdir : s1.dir = s.dir := by rw [Mm.dir, Mm.dir, hcr3]
  have km1 : KernelMap s1.ram s1.dir := hdir ▸ km.sameOutside hout
  have hl1 : Loaded s1 pages := by
    unfold Loaded
    rwa [hcr3]
  have hpg := held.held pg List.mem_cons_self
  obtain ⟨f, hf, hfr, hlo, -, hp⟩ := hpg.frameOf
  have hpf : pg.pAddr / 4096 = f := by rw [hf, Nat.mul_div_cancel _ (by decide)]
  have hdf : f ≠ s1.dir := hpf ▸ held.frame_ne_dir hl1
  rw [newTable_eq hg km1 hpg.page hp hfr hpf hdf hlo hv] at hall
  have hram := congrArg Mm.ram (Prod.mk.inj (Except.ok.inj hall)).1
  have hstale := congrArg Mm.stale (Prod.mk.inj (Except.ok.inj hall)).1
  dsimp only at hram hstale
  refine ⟨?_, hcr3, s1.ram, hout, ?_, fun hclear hword => ?_⟩
  · rw [← hram]
    have hdirout : s1.dir < 1024 ∨ 2048 ≤ s1.dir := km1.outside
    refine (held.ram fun f' i h4 h5 => ?_).congr rfl held.lower held.upper (fun _ => id)
      fun _ _ => rfl
    rw [setWord_other (.inl (by omega)), setWords_other (by omega)]
  · rw [← hram, hpf, hdir]
  · rw [hpf] at hword
    rw [hword, Bool.true_and] at hstale
    have hclear := hstale.trans hclear
    rw [Bool.or_eq_false_iff] at hclear
    simpa using hclear.2

end Held

end Creeks
