import Creeks.Mm.SharedHalf

/-!
# Pages that are mapped

`Mapped s pages` is what is left of `Held` when `get_page_frame` may have failed: the pages handed out are
distinct, not free, and mapped to the address `get_page_from_heap` recorded, be it a frame or -1. It holds
after every run of `get_page_from_heap` and `release_page_from_heap`, whatever the words below the list head
contain. While there have been frames the pages are held as well.
-/

namespace Creeks
open Lib

/-- A page that has been handed out, mapped to the frame it was handed out with. -/
structure MappedPage (s : Mm) (pg : Page) : Prop where
  page : HeapPage pg.vAddr
  taken : ¬ PageFree s.kernFreeVm pg.vAddr
  entry : kernPte s.ram pg.vAddr = pg.pAddr ||| (PG_PRESENT ||| PG_WRITE ||| 0)
  small : pg.pAddr < 4294967296
  high : 2048 ≤ pg.pAddr / PAGESIZE

/-- The pages handed out are mapped, and held while there have been frames. -/
structure Mapped (s : Mm) (pages : List Page) : Prop where
  map : KernelMap s.ram s.dir
  areas : AreaList s.kernFreeVm
  lower : KERN_HEAP ≤ s.kernHeap
  upper : s.kernHeap ≤ KERN_HEAP_LIM
  free : ∀ q, frameUsed s.memBitmap q = false → 2048 ≤ q
  addresses : (pages.map Page.vAddr).Nodup
  mapped : ∀ pg ∈ pages, MappedPage s pg
  held : s.oom = false → Held s pages

/-- What the rest of the kernel may do to the memory manager: the heap, the frames, the page tables and the
words below the list head change, but not the list, nor the pages and frames that are handed out. -/
structure LeavesPages (s s' : Mm) (pages : List Page) : Prop where
  map : KernelMap s'.ram s'.dir
  areas : s'.kernFreeVm = s.kernFreeVm
  lower : KERN_HEAP ≤ s'.kernHeap
  upper : s'.kernHeap ≤ KERN_HEAP_LIM
  entries : ∀ v, HeapPage v → kernPte s'.ram v = kernPte s.ram v
  free : ∀ q, frameUsed s'.memBitmap q = false → 2048 ≤ q
  frames : ∀ pg ∈ pages, frameUsed s.memBitmap (pg.pAddr / PAGESIZE) = true →
    frameUsed s'.memBitmap (pg.pAddr / PAGESIZE) = true
  oom : s.oom = true → s'.oom = true

section Frames

variable {s s' : Mm} {pg : Page}

/-- The address `get_page_frame` returns. -/
lemma getPageFrame_bounds (hfree : ∀ q, frameUsed s.memBitmap q = false → 2048 ≤ q) :
    (getPageFrame s).2 < 4294967296 ∧ 2048 ≤ (getPageFrame s).2 / PAGESIZE := by
  rcases getPageFrame_cases s with ⟨page, hlt, hused, e⟩ | e
  · have := hfree page hused
    simp only [RAM_MAXPAGE] at hlt
    rw [e]
    simp only [PAGESIZE]
    omega
  · rw [e]
    show MINUS_ONE < 4294967296 ∧ 2048 ≤ MINUS_ONE / PAGESIZE
    decide

/-- A frame that is free after some have been taken was free before. -/
lemma free_of_used {bitmap bitmap' : Nat → BitVec 8}
    (hused : ∀ q, frameUsed bitmap q = true → frameUsed bitmap' q = true)
    (hfree : ∀ q, frameUsed bitmap q = false → 2048 ≤ q) {q : Nat}
    (hq : frameUsed bitmap' q = false) : 2048 ≤ q := by
  refine hfree q (Bool.not_eq_true _ ▸ fun h => ?_)
  rw [hused q h] at hq
  cases hq

/-- The entry of a page that is mapped is present, and its frame is the one recorded. -/
lemma MappedPage.present (h : MappedPage s pg) : (kernPte s.ram pg.vAddr).testBit 0 = true ∧
    frameOf (kernPte s.ram pg.vAddr) = pg.pAddr / PAGESIZE := by
  rw [h.entry]
  exact ⟨entry_present _ _, frameOf_entry h.small (by decide)⟩

/-- What a page that is mapped depends on. -/
lemma MappedPage.congr (h : MappedPage s pg) (hvm : ¬ PageFree s'.kernFreeVm pg.vAddr)
    (hpte : kernPte s'.ram pg.vAddr = kernPte s.ram pg.vAddr) : MappedPage s' pg :=
  ⟨h.page, hvm, hpte.trans h.entry, h.small, h.high⟩

end Frames

namespace Mapped

variable {s s' : Mm} {pg : Page} {pages : List Page} {r : Nat}

/-- The frames of the pages that are handed out are in use. -/
lemma inUse (h : Mapped s pages) (hoom : s.oom = false) (hpg : pg ∈ pages) :
    frameUsed s.memBitmap (pg.pAddr / PAGESIZE) = true := by
  obtain ⟨f, hf, -, -, hused⟩ := ((h.held hoom).held pg hpg).frame
  rwa [hf, Nat.mul_div_cancel _ (by decide)]

/-- The first free page is not handed out. -/
lemma fresh {area : VmArea} {rest : List VmArea} (h : Mapped s pages)
    (hvm : s.kernFreeVm = area :: rest) (hpg : pg ∈ pages) : pg.vAddr ≠ area.vmStart := by
  have areas := h.areas
  rw [hvm] at areas
  obtain ⟨-, hlen, -⟩ := areas.first
  intro e
  apply (h.mapped pg hpg).taken
  rw [e, hvm]
  exact ⟨area, List.mem_cons_self, le_refl _, by omega⟩

/-- The page `get_page_from_heap` takes is mapped, and the others still are. -/
lemma taken {area : VmArea} {rest : List VmArea} {pg' : Page} (h : Mapped s pages)
    (hvm : s.kernFreeVm = area :: rest) (hv : pg.vAddr = area.vmStart)
    (hp : pg.pAddr = (getPageFrame s).2) (hpg' : pg' ∈ pg :: pages) :
    MappedPage (pageTaken s area.vmStart (eatFirst area rest)) pg' := by
  have areas := h.areas
  rw [hvm] at areas
  obtain ⟨hpage, -, -⟩ := areas.first
  obtain ⟨-, hcover⟩ := areas.eat
  cases hpg' with
  | head =>
    obtain ⟨hsmall, hhigh⟩ := getPageFrame_bounds h.free
    refine ⟨hv ▸ hpage, ?_, ?_, hp ▸ hsmall, hp ▸ hhigh⟩
    · rw [pageTaken_kernFreeVm, hv]
      rintro ⟨a, ha, hlo, -⟩
      have := areas.eat_above a ha
      omega
    · rw [hv, pageTaken_ram, kernPte_setKernPte, hp]
  | tail _ hpg' =>
    have hold := h.mapped pg' hpg'
    refine hold.congr (fun hx => hold.taken ?_) ?_
    · rw [hvm, hcover]
      exact .inr hx
    · rw [pageTaken_ram, kernPte_setKernPte_other hold.page.inTables hpage.inTables
        (hold.page.ne_page hpage (h.fresh hvm hpg'))]

/-- `get_page_from_heap` maps the first free page to the next frame, and leaves the other pages alone. -/
lemma get (h : Mapped s pages) (e : getPageFromHeap s = .ok (s', pg)) :
    Mapped s' (pg :: pages) ∧ pg.pAddr = (getPageFrame s).2 ∧
      ∃ area rest, s.kernFreeVm = area :: rest ∧ pg.vAddr = area.vmStart := by
  obtain ⟨area, rest, hvm, hv, hp, grows⟩ := getPageFromHeap_frame h.map h.areas h.lower h.upper e
  have areas := h.areas
  rw [hvm] at areas
  obtain ⟨hpage, -, -⟩ := areas.first
  obtain ⟨heat, -⟩ := areas.eat
  have hk : KERN_HEAP ≤ (pageTaken s area.vmStart (eatFirst area rest)).kernHeap := by
    rw [pageTaken_kernHeap]
    exact h.lower
  have hlist : s'.kernFreeVm = eatFirst area rest := grows.fields.1
  refine ⟨⟨?_, ?_, ?_, ?_, fun q => ?_, ?_, fun pg' hpg' => ?_, fun hoom => ?_⟩, hp, area, rest, hvm, hv⟩
  · have hdir : s'.dir = s.dir := by
      rw [Mm.dir, grows.fields.2.2.1, ← Mm.dir, pageTaken_dir]
    rw [hdir]
    exact grows.map (h.map.setKernPte hpage.inTables _) hk
  · rw [hlist]
    exact heat
  · exact le_trans hk grows.fields.2.2.2.2.1
  · refine grows.kernHeap_le ?_
    rw [pageTaken_kernHeap]
    exact h.upper
  · exact free_of_used (fun q hq => grows.used (getPageFrame_used hq)) h.free
  · rw [List.map_cons, List.nodup_cons]
    refine ⟨fun hmem => ?_, h.addresses⟩
    obtain ⟨pg', hpg', e⟩ := List.mem_map.1 hmem
    exact h.fresh hvm hpg' (e.trans hv)
  · have hnew := h.taken hvm hv hp hpg'
    refine hnew.congr ?_ (grows.heapPage hnew.page hk)
    rw [hlist]
    exact hnew.taken
  · refine ((h.held ?_).get h.map e hoom).1
    by_contra hs
    obtain ⟨_, oom, e, hkeep⟩ := getPageFrame_frame s
    have htaken : (pageTaken s area.vmStart (eatFirst area rest)).oom = true := by
      show (getPageFrame s).1.oom = true
      rw [e]
      exact hkeep (Bool.not_eq_false _ ▸ hs)
    rw [grows.fields.2.2.2.2.2 htaken] at hoom
    cases hoom

/-- `release_page_from_heap` takes a page back, and leaves the others alone. -/
lemma release (h : Mapped s pages) (hpg : pg ∈ pages)
    (e : releasePageFromHeap s pg.vAddr = .ok (s', r)) : Mapped s' (pages.erase pg) := by
  have hold := h.mapped pg hpg
  obtain ⟨hp, hf⟩ := hold.present
  have hhigh := hold.high
  obtain ⟨areas', head, grows, join⟩ := releasePageFromHeap_frame h.map h.areas h.lower h.upper hold.page
    hold.taken hp (by omega) e
  have hk : KERN_HEAP ≤ ((pageDropped s pg.vAddr areas').withVm areas' head).kernHeap := by
    rw [withVm_kernHeap, pageDropped_kernHeap]
    exact h.lower
  have hlist : s'.kernFreeVm = areas' := by rw [grows.fields.1, withVm_kernFreeVm]
  have hnd : pages.Nodup := h.addresses.of_map _
  refine ⟨?_, ?_, ?_, ?_, fun q => ?_, ?_, fun pg' hpg' => ?_, fun hoom => ?_⟩
  · have hdir : s'.dir = s.dir := by
      rw [Mm.dir, grows.fields.2.2.1, ← Mm.dir, withVm_dir, pageDropped_dir]
    rw [hdir]
    refine grows.map ?_ hk
    rw [withVm_ram]
    exact h.map.setKernPte hold.page.inTables _
  · rw [hlist]
    exact join.1
  · exact le_trans hk grows.fields.2.2.2.2.1
  · refine grows.kernHeap_le ?_
    rw [withVm_kernHeap, pageDropped_kernHeap]
    exact h.upper
  · refine free_of_used (fun q hq => grows.used hq) fun q hq => ?_
    rw [withVm_memBitmap, pageDropped_memBitmap, frameUsed_release, hf,
      Nat.mul_div_cancel _ (by decide), Bool.and_eq_false_iff, Bool.not_eq_false',
      decide_eq_true_eq] at hq
    rcases hq with rfl | hq
    · exact hhigh
    · exact h.free q hq
  · exact (List.erase_sublist.map _).nodup h.addresses
  · obtain ⟨hne, hmem⟩ := hnd.mem_erase_iff.1 hpg'
    have hold' := h.mapped pg' hmem
    have hv : pg'.vAddr ≠ pg.vAddr := fun e => hne (List.inj_on_of_nodup_map h.addresses hmem hpg e)
    refine hold'.congr (fun hx => ?_) ?_
    · rw [hlist] at hx
      rcases join.2 _ hx with hx | ⟨h1, h2⟩
      · exact hold'.taken hx
      · have := hold'.page.aligned
        have := hold.page.aligned
        omega
    · rw [grows.heapPage hold'.page hk, withVm_ram, pageDropped_ram, kernPte_setKernPte_other
        hold'.page.inTables hold.page.inTables (hold'.page.ne_page hold.page hv)]
  · have hs : s.oom = false := by
      by_contra hs
      have hdrop : ((pageDropped s pg.vAddr areas').withVm areas' head).oom = true := by
        rw [withVm_oom, pageDropped_oom]
        exact Bool.not_eq_false _ ▸ hs
      rw [grows.fields.2.2.2.2.2 hdrop] at hoom
      cases hoom
    have hperm : Held s (pg :: pages.erase pg) :=
      (h.held hs).subperm (List.perm_cons_erase hpg).symm.subperm
    exact (hperm.release h.map e).1

/-- The rest of the kernel leaves the pages mapped. -/
lemma leaves (h : Mapped s pages) (leaves : LeavesPages s s' pages) : Mapped s' pages := by
  obtain ⟨map, areas, lower, upper, entries, free, frames, oom⟩ := leaves
  refine ⟨map, areas ▸ h.areas, lower, upper, free, h.addresses, fun pg hpg => ?_, fun hoom => ?_⟩
  · have hold := h.mapped pg hpg
    exact hold.congr (areas ▸ hold.taken) (entries _ hold.page)
  · have hold : Held s pages := by
      refine h.held ?_
      by_contra hs
      rw [oom (Bool.not_eq_false _ ▸ hs)] at hoom
      cases hoom
    refine ⟨areas ▸ hold.areas, lower, upper, free, hold.addresses, hold.frames, fun pg hpg => ?_⟩
    obtain ⟨h1, h2, h3, f, h4, h5, h6, h7⟩ := hold.held pg hpg
    have hf : pg.pAddr / PAGESIZE = f := by rw [h4, Nat.mul_div_cancel _ (by decide)]
    refine ⟨h1, areas ▸ h2, (entries _ h1).trans h3, f, h4, h5, h6, ?_⟩
    rw [← hf] at h7 ⊢
    exact frames pg hpg h7

/-- After `init_mm` no page is handed out. -/
lemma init {boot s0 : Mm} {highMem : Nat} (h : initMm boot highMem = .ok s0) : Mapped s0 [] := by
  have inv : SpaceInv ⟨s0, [], []⟩ := SpaceInv.init h
  have held : Held s0 [] := inv.held
  exact ⟨inv.dirMap, held.areas, held.lower, held.upper, held.free, List.nodup_nil, nofun, fun _ => held⟩

end Mapped

end Creeks
