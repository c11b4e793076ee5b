import Creeks.Mm.PageHeap

/-!
# Safety of the kernel page heap

Runs of `get_page_from_heap` and `release_page_from_heap` by clients that only release pages they
hold. The `struct page` of a page may be freed at any time, and the words below the list head may
change between two calls as long as they are not addresses of the page heap. `page_heap_exact` is the
result: the free list is spaced, and it covers exactly the pages that are not handed out.
-/

namespace Creeks
open Lib

/-- The memory manager, the pages handed out and the `struct page` chunks that have not been freed. -/
structure PageClient where
  mm : Mm
  handed : List Nat
  structs : List Nat

/-- The words below the list head are not addresses of the page heap. -/
def HeadOk (head : Nat × Nat) : Prop :=
  ∀ v, KERN_PG_HEAP ≤ v → v < KERN_PG_HEAP_LIM → head.1 ≠ v ∧ head.2 ≠ v

/-- What a client does with the page heap. -/
inductive PageOp where
  | get
  | release (vAddr : Nat)
  | kfree (chunk : Nat)
  | head (words : Nat × Nat)

/-- One step of a client. The page heap is never exhausted. -/
inductive PageStep : PageClient → PageOp → PageClient → Prop where
  | get {s handed structs s' pg} :
    getPageFromHeap s = .ok (s', pg) →
    s'.kernFreeVm ≠ [] →
    PageStep ⟨s, handed, structs⟩ .get ⟨s', pg.vAddr :: handed, pg.addr :: structs⟩
  | release {s handed structs v s' r} :
    v ∈ handed →
    releasePageFromHeap s v = .ok (s', r) →
    PageStep ⟨s, handed, structs⟩ (.release v) ⟨s', handed.erase v, structs⟩
  | kfree {s handed structs a s'} :
    a ∈ structs →
    kfree s a = .ok s' →
    PageStep ⟨s, handed, structs⟩ (.kfree a) ⟨s', handed, structs.erase a⟩
  | head {s handed structs words} :
    HeadOk words →
    PageStep ⟨s, handed, structs⟩ (.head words) ⟨s.withVm s.kernFreeVm words, handed, structs⟩

/-- The chunks of a list of `struct page`. -/
abbrev pageChunks (structs : List Nat) : List (Nat × Nat) := structs.map fun a => (a, 16)

/-- The invariant of a client of the page heap. -/
structure PageClientInv (c : PageClient) : Prop where
  heap : PageHeap c.mm (pageChunks c.structs)
  head : HeadOk c.mm.headWords
  nodup : c.handed.Nodup
  pages : ∀ v, v ∈ c.handed ↔ HeapPage v ∧ ¬ PageFree c.mm.kernFreeVm v
  mapped : ∀ v ∈ c.handed, (kernPte c.mm.ram v).testBit 0 = true ∧ frameOf (kernPte c.mm.ram v) ≠ 0
  frame0 : frameUsed c.mm.memBitmap 0 = true

lemma Owned.le_kernHeap {s : Mm} {owned : List (Nat × Nat)} (h : Owned s owned) :
    KERN_HEAP ≤ s.kernHeap := by
  obtain ⟨-, _, _, rep, -⟩ := h
  exact rep.le_kernHeap

/-- Two different pages of the page heap have different entries. -/
lemma HeapPage.ne_page {v w : Nat} (hv : HeapPage v) (hw : HeapPage w) (h : v ≠ w) :
    v / 4096 ≠ w / 4096 := by
  have := hv.aligned
  have := hw.aligned
  omega

/-- Growth leaves the entry of a page of the page heap alone. -/
lemma Grows.heapPage {s t : Mm} (h : Grows s t) {v : Nat} (hv : HeapPage v)
    (hk : KERN_HEAP ≤ s.kernHeap) : kernPte t.ram v = kernPte s.ram v :=
  h.pte hv.inTables hv.upper hk

/-- Taking a frame marks frames used and releases none. -/
lemma getPageFrame_used {s : Mm} {q : Nat} (hq : frameUsed s.memBitmap q = true) :
    frameUsed (getPageFrame s).1.memBitmap q = true := by
  rcases getPageFrame_cases s with ⟨page, -, -, e⟩ | e
  · rw [e, frameUsed_set, hq, Bool.or_true]
  · rw [e]
    exact hq

/-- The address `get_page_frame` returns, be it a frame or -1, is not in a frame that is used and not
the last one. -/
lemma getPageFrame_ne {s : Mm} {q : Nat} (hq : frameUsed s.memBitmap q = true)
    (hlast : q ≠ 0xFFFFF) : (getPageFrame s).2 < 4294967296 ∧ (getPageFrame s).2 / 4096 ≠ q := by
  rcases getPageFrame_cases s with ⟨page, hlt, hfree, e⟩ | e
  · simp only [RAM_MAXPAGE] at hlt
    rw [e]
    simp only [PAGESIZE]
    refine ⟨by omega, ?_⟩
    rw [Nat.mul_div_cancel _ (by decide)]
    rintro rfl
    rw [hq] at hfree
    cases hfree
  · rw [e]
    have hdiv : MINUS_ONE / 4096 = 0xFFFFF := by decide
    refine ⟨by simp, ?_⟩
    rw [hdiv]
    exact hlast.symm

namespace PageClientInv

variable {s s' : Mm} {handed structs : List Nat}

/-- The first free page is a page that nobody holds. -/
lemma fresh {area : VmArea} {rest : List VmArea} (inv : PageClientInv ⟨s, handed, structs⟩)
    (hvm : s.kernFreeVm = area :: rest) : HeapPage area.vmStart ∧ area.vmStart ∉ handed := by
  have areas := inv.heap.areas
  rw [hvm] at areas
  obtain ⟨hpage, hlt, -⟩ := areas.first
  refine ⟨hpage, fun h => ?_⟩
  obtain ⟨-, hfree⟩ := (inv.pages _).1 h
  apply hfree
  rw [hvm]
  exact ⟨area, List.mem_cons_self, le_refl _, by omega⟩

/-- `get_page_from_heap` keeps the invariant. -/
lemma get {pg : Page} (inv : PageClientInv ⟨s, handed, structs⟩)
    (h : getPageFromHeap s = .ok (s', pg)) (hne : s'.kernFreeVm ≠ []) :
    PageClientInv ⟨s', pg.vAddr :: handed, pg.addr :: structs⟩ := by
  obtain ⟨area, rest, hvm, hv, -, hlist, hgrows, hph⟩ := inv.heap.get_ok h
  obtain ⟨hpage, hnew⟩ := inv.fresh hvm
  have areas := inv.heap.areas
  rw [hvm] at areas
  obtain ⟨-, hcover⟩ := areas.eat (hlist ▸ hne)
  have hk : KERN_HEAP ≤ (pageTaken s area.vmStart (eatFirst area rest)).kernHeap := by
    rw [pageTaken_kernHeap]
    exact inv.heap.owned.le_kernHeap
  obtain ⟨hlt, hne0⟩ := getPageFrame_ne inv.frame0 (by decide)
  rw [hv]
  refine ⟨hph hne, ?_, List.nodup_cons.2 ⟨hnew, inv.nodup⟩, fun v => ?_, fun v hmem => ?_, ?_⟩
  · change HeadOk s'.headWords
    rw [hgrows.fields.2.1, pageTaken_headWords]
    exact inv.head
  · change v ∈ area.vmStart :: handed ↔ HeapPage v ∧ ¬ PageFree s'.kernFreeVm v
    have hold : v ∈ handed ↔ HeapPage v ∧ ¬ PageFree s.kernFreeVm v := inv.pages v
    rw [hlist, List.mem_cons, hold, hvm, hcover v]
    constructor
    · rintro (rfl | ⟨hpv, hnot⟩)
      · refine ⟨hpage, fun h => ?_⟩
        -- the rest of the list starts above the page just taken
        obtain ⟨a, ha, hlo, -⟩ := h
        have := areas.list.eat_above a ha
        omega
      · exact ⟨hpv, fun h => hnot (.inr h)⟩
    · rintro ⟨hpv, hnot⟩
      by_cases he : v = area.vmStart
      · exact .inl he
      · right
        refine ⟨hpv, ?_⟩
        rintro (⟨h1, h2⟩ | h)
        · have := hpv.aligned
          have := hpage.aligned
          omega
        · exact hnot h
  · change (kernPte s'.ram v).testBit 0 = true ∧ frameOf (kernPte s'.ram v) ≠ 0
    rcases List.mem_cons.1 hmem with rfl | hmem
    · rw [hgrows.heapPage hpage hk, pageTaken_ram, kernPte_setKernPte]
      refine ⟨entry_present _ _, ?_⟩
      rw [frameOf_entry hlt (by decide)]
      exact hne0
    · have hpv := ((inv.pages v).1 hmem).1
      rw [hgrows.heapPage hpv hk, pageTaken_ram,
        kernPte_setKernPte_other hpv.inTables hpage.inTables
          (hpv.ne_page hpage fun e => hnew (e ▸ hmem))]
      exact inv.mapped v hmem
  · apply hgrows.used
    rw [pageTaken_memBitmap]
    exact getPageFrame_used inv.frame0

/-- `release_page_from_heap` of a page that is handed out succeeds unless the kernel heap cannot grow,
and keeps the invariant. -/
lemma release {v : Nat} (inv : PageClientInv ⟨s, handed, structs⟩) (hv : v ∈ handed) :
    (∃ s', releasePageFromHeap s v = .ok (s', 0) ∧ PageClientInv ⟨s', handed.erase v, structs⟩) ∨
      (KERN_HEAP_LIM < s.kernHeap + growPages 16 * PAGESIZE ∧
        releasePageFromHeap s v = .error (.fault s.kernHeap)) := by
  obtain ⟨hpage, hfree⟩ := (inv.pages v).1 hv
  obtain ⟨hp, hf⟩ := inv.mapped v hv
  have hhead : s.headWords.2 ≠ v := (inv.head v hpage.lower hpage.upper).2
  rcases inv.heap.release hpage hfree hp hf hhead with ⟨s', e, hph, hcover, hgrows⟩ | h
  · left
    have hk : KERN_HEAP ≤ (pageDropped s v s'.kernFreeVm).kernHeap := by
      rw [pageDropped_kernHeap]
      exact inv.heap.owned.le_kernHeap
    refine ⟨s', e, hph, ?_, inv.nodup.erase v, fun w => ?_, fun w hw => ?_, ?_⟩
    · change HeadOk s'.headWords
      rw [hgrows.fields.2.1, pageDropped_headWords]
      exact inv.head
    · change w ∈ handed.erase v ↔ HeapPage w ∧ ¬ PageFree s'.kernFreeVm w
      have hold : w ∈ handed ↔ HeapPage w ∧ ¬ PageFree s.kernFreeVm w := inv.pages w
      have hnd : handed.Nodup := inv.nodup
      rw [hnd.mem_erase_iff, hold, hcover w]
      constructor
      · rintro ⟨hne, hpw, hnot⟩
        refine ⟨hpw, ?_⟩
        rintro (h | ⟨h1, h2⟩)
        · exact hnot h
        · have := hpw.aligned
          have := hpage.aligned
          omega
      · rintro ⟨hpw, hnot⟩
        refine ⟨?_, hpw, fun h => hnot (.inl h)⟩
        rintro rfl
        exact hnot (.inr ⟨le_refl _, by omega⟩)
    · change (kernPte s'.ram w).testBit 0 = true ∧ frameOf (kernPte s'.ram w) ≠ 0
      have hnd : handed.Nodup := inv.nodup
      obtain ⟨hne, hmem⟩ := hnd.mem_erase_iff.1 hw
      have hpw := ((inv.pages w).1 hmem).1
      rw [hgrows.heapPage hpw hk, pageDropped_ram,
        kernPte_setKernPte_other hpw.inTables hpage.inTables (hpw.ne_page hpage hne)]
      exact inv.mapped w hmem
    · apply hgrows.used
      have h0 : frameUsed s.memBitmap 0 = true := inv.frame0
      rw [pageDropped_memBitmap, frameUsed_release, h0, Bool.and_true, Bool.not_eq_true',
        decide_eq_false_iff_not, Nat.mul_div_cancel _ (by decide)]
      exact fun h => hf h.symm
  · exact .inr h

/-- Freeing a `struct page` keeps the invariant. -/
lemma kfree {a : Nat} (inv : PageClientInv ⟨s, handed, structs⟩) (ha : a ∈ structs) :
    ∃ mem used, Creeks.kfree s a = .ok (s.withHeap mem used) ∧
      PageClientInv ⟨s.withHeap mem used, handed, structs.erase a⟩ := by
  obtain ⟨heap, head, nodup, pages, mapped, frame0⟩ := inv
  obtain ⟨mem, used, e, hph⟩ := heap.kfree (p := a) (n := 16) (List.mem_map.2 ⟨a, ha, rfl⟩)
  have hinj : Function.Injective fun a : Nat => (a, 16) := fun _ _ h => (Prod.mk.inj h).1
  rw [show (pageChunks structs).erase (a, 16) = pageChunks (structs.erase a) from
    (List.map_erase hinj _).symm] at hph
  refine ⟨mem, used, e, hph, ?_, nodup, ?_, ?_, ?_⟩
  · simpa only [withHeap_headWords] using head
  · simpa only [withHeap_kernFreeVm] using pages
  · simpa only [withHeap_ram] using mapped
  · simpa only [withHeap_memBitmap] using frame0

/-- Other words below the list head keep the invariant. -/
lemma headWords {words : Nat × Nat} (inv : PageClientInv ⟨s, handed, structs⟩) (hok : HeadOk words) :
    PageClientInv ⟨s.withVm s.kernFreeVm words, handed, structs⟩ := by
  obtain ⟨heap, head, nodup, pages, mapped, frame0⟩ := inv
  refine ⟨⟨?_, ?_, ?_⟩, ?_, nodup, ?_, ?_, ?_⟩
  · simpa only [withVm_ram, withVm_dir] using heap.map
  · rw [withVm_kernFreeVm]
    exact heap.owned.congr (withVm_mem _ _ _) (withVm_kernHeap _ _ _)
  · simpa only [withVm_kernFreeVm] using heap.areas
  · simpa only [withVm_headWords] using hok
  · simpa only [withVm_kernFreeVm] using pages
  · simpa only [withVm_ram] using mapped
  · simpa only [withVm_memBitmap] using frame0

/-- Every step of a client keeps the invariant. -/
lemma step {c c' : PageClient} {op : PageOp} (inv : PageClientInv c) (st : PageStep c op c') :
    PageClientInv c' := by
  cases st with
  | get h hne => exact inv.get h hne
  | release hv h =>
    rcases inv.release hv with ⟨s', e, hinv⟩ | ⟨-, e⟩
    · rw [e] at h
      obtain ⟨rfl, -⟩ := Prod.mk.inj (Except.ok.inj h)
      exact hinv
    · rw [e] at h
      cases h
  | kfree ha h =>
    obtain ⟨mem, used, e, hinv⟩ := inv.kfree ha
    rw [e] at h
    cases h
    exact hinv
  | head hok => exact inv.headWords hok

end PageClientInv

/-- One area that covers the page heap. -/
lemma FreeVm.whole (p : Nat) : FreeVm [⟨p, KERN_PG_HEAP, KERN_PG_HEAP_LIM⟩] where
  spaced := Spaced.singleton (by simp only [KERN_PG_HEAP, KERN_PG_HEAP_LIM]; decide)
  aligned := by
    have h : KERN_PG_HEAP % 4096 = 0 ∧ KERN_PG_HEAP_LIM % 4096 = 0 := by decide
    intro a ha
    rw [List.mem_singleton.1 ha]
    exact h
  bounds := by simp [KERN_PG_HEAP, KERN_PG_HEAP_LIM]
  top := by simp [KERN_PG_HEAP, KERN_PG_HEAP_LIM]

/-- What `init_mm` does once paging is set up: the heap grows, and the list of free areas is made. -/
lemma initMm_grows {boot s0 : Mm} {highMem : Nat} (h : initMm boot highMem = .ok s0) :
    ∃ t p, Grows (initPaging boot highMem) t ∧
      s0 = t.withVm [⟨p, KERN_PG_HEAP, KERN_PG_HEAP_LIM⟩] t.headWords := by
  rw [initMm, initPaging_ksbrk, ok_bind] at h
  obtain ⟨⟨t, p⟩, hk, h⟩ := bind_ok.1 h
  cases h
  have hlo := (initPaging_kernHeap boot highMem).ge
  have hgrown := ksbrk_grows (initPaging_map boot highMem) hlo (by
    rw [initPaging_kernHeap]
    decide) (initPaging_ksbrk boot highMem)
  refine ⟨t, p, hgrown.trans (kmalloc_frame (initPaging_grown_map boot highMem) ?_ ?_ (by decide) hk),
    rfl⟩
  · exact le_trans hlo hgrown.fields.2.2.2.2.1
  · exact hgrown.kernHeap_le (by
      rw [initPaging_kernHeap]
      decide)

/-- The page heap after `init_mm`: one area that covers it. -/
lemma initMm_ok {boot s0 : Mm} {highMem : Nat} (h : initMm boot highMem = .ok s0) :
    PageHeap s0 [] ∧ frameUsed s0.memBitmap 0 = true ∧
      ∃ p, s0.kernFreeVm = [⟨p, KERN_PG_HEAP, KERN_PG_HEAP_LIM⟩] := by
  rw [initMm, initPaging_ksbrk, ok_bind] at h
  have hmap := initPaging_grown_map boot highMem
  have howned : Owned (grown (initPaging boot highMem) 1) [] :=
    ⟨List.nodup_nil, _, _, heapRep_init (initPaging_kernHeap _ _), List.nil_subset _⟩
  have h0 : frameUsed (initPaging boot highMem).memBitmap 0 = true := by
    rw [initPaging_memBitmap, ← Bool.not_eq_false, frameUsed_init]
    omega
  have h1 : frameUsed (grown (initPaging boot highMem) 1).memBitmap 0 = true := by
    rw [grown, withHeap_memBitmap, Function.iterate_one, growStep_memBitmap]
    exact getPageFrame_used h0
  generalize grown (initPaging boot highMem) 1 = s at h hmap howned h1
  obtain ⟨⟨s1, p⟩, hk, h⟩ := bind_ok.1 h
  simp only [pure_eq_ok, Except.ok.injEq] at hk h
  obtain ⟨howned', -, hgrows, hmap'⟩ := howned.kmalloc hmap (by decide) hk
  subst h
  refine ⟨⟨?_, ?_, ?_⟩, ?_, p, withVm_kernFreeVm _ _ _⟩
  · rw [withVm_ram, withVm_dir]
    exact hmap'
  · rw [withVm_kernFreeVm]
    exact howned'.congr (withVm_mem _ _ _) (withVm_kernHeap _ _ _)
  · rw [withVm_kernFreeVm]
    exact FreeVm.whole p
  · rw [withVm_memBitmap]
    exact hgrows.used h1

/-- The invariant holds after `init_mm`, with no page handed out. -/
lemma PageClientInv.init {boot s0 : Mm} {highMem : Nat} (h : initMm boot highMem = .ok s0)
    (hhead : HeadOk s0.headWords) : PageClientInv ⟨s0, [], []⟩ := by
  obtain ⟨hph, hused, p, hvm⟩ := initMm_ok h
  refine ⟨hph, hhead, List.nodup_nil, fun v => ⟨nofun, ?_⟩, nofun, hused⟩
  rintro ⟨hpage, hfree⟩
  apply absurd _ hfree
  rw [hvm]
  exact ⟨_, List.mem_singleton_self _, hpage.lower, hpage.upper⟩

/-- What a client of the page heap relies on. -/
structure PageHeapSafe (c : PageClient) : Prop where
  /-- The list is strictly sorted by address, and its areas are non-empty, disjoint and not
  adjacent. -/
  sorted : Spaced VmArea.vmStart VmArea.vmEnd c.mm.kernFreeVm
  aligned : ∀ a ∈ c.mm.kernFreeVm, a.vmStart % PAGESIZE = 0 ∧ a.vmEnd % PAGESIZE = 0
  /-- The areas cover exactly the pages that are not handed out. -/
  exact_pages : ∀ x, PageFree c.mm.kernFreeVm x ↔
    KERN_PG_HEAP ≤ x ∧ x < KERN_PG_HEAP_LIM ∧ x / PAGESIZE * PAGESIZE ∉ c.handed
  handed : c.handed.Nodup ∧ ∀ v ∈ c.handed, HeapPage v
  /-- `get_page_from_heap` returns a page that nobody holds. -/
  get_fresh : ∀ s' pg, getPageFromHeap c.mm = .ok (s', pg) →
    HeapPage pg.vAddr ∧ pg.vAddr ∉ c.handed
  /-- Neither function stops, except where the kernel heap is full: the list is never found empty or
  corrupted. -/
  get_total : (∃ r, getPageFromHeap c.mm = .ok r) ∨
    (KERN_HEAP_LIM < c.mm.kernHeap + growPages 16 * PAGESIZE ∧
      getPageFromHeap c.mm = .error (.fault c.mm.kernHeap))
  release_total : ∀ v ∈ c.handed, (∃ s', releasePageFromHeap c.mm v = .ok (s', 0)) ∨
    (KERN_HEAP_LIM < c.mm.kernHeap + growPages 16 * PAGESIZE ∧
      releasePageFromHeap c.mm v = .error (.fault c.mm.kernHeap))

/-- The invariant of a client gives what the client relies on. -/
lemma PageClientInv.safe {c : PageClient} (inv : PageClientInv c) : PageHeapSafe c := by
  have areas := inv.heap.areas
  refine
    { sorted := areas.spaced
      aligned := areas.aligned
      exact_pages := fun x => ?_
      handed := ⟨inv.nodup, fun v hv => ((inv.pages v).1 hv).1⟩
      get_fresh := ?_
      get_total := inv.heap.get_total
      release_total := fun v hv => ?_ }
  · simp only [KERN_PG_HEAP, KERN_PG_HEAP_LIM, PAGESIZE]
    have hpage : ∀ h1 : 0x00800000 ≤ x, x < 0x10000000 → HeapPage (x / 4096 * 4096) :=
      fun _ _ => ⟨by omega, by omega, by omega⟩
    constructor
    · intro hx
      obtain ⟨a, ha, hlo, hhi⟩ := hx
      obtain ⟨h1, h2⟩ := areas.bounds a ha
      refine ⟨by omega, by omega, fun hmem => ?_⟩
      obtain ⟨hp, hfree⟩ := (inv.pages _).1 hmem
      exact hfree (areas.page hp.aligned (by omega) (by omega) ⟨a, ha, hlo, hhi⟩)
    · rintro ⟨h1, h2, hnot⟩
      rw [inv.pages, not_and, not_not] at hnot
      obtain ⟨a, ha, hlo, hhi⟩ := hnot (hpage h1 h2)
      have := areas.aligned a ha
      exact ⟨a, ha, by omega, by omega⟩
  · intro s' pg h
    obtain ⟨area, rest, hvm, hv, -⟩ := inv.heap.get_ok h
    rw [hv]
    exact inv.fresh hvm
  · rcases inv.release hv with ⟨s', e, -⟩ | h
    · exact .inl ⟨s', e⟩
    · exact .inr h

/-- `init_mm` returns on a machine with 16 MB of memory. -/
lemma initMm_blank : ∃ s0, initMm blankMm 16384 = .ok s0 ∧ HeadOk s0.headWords ∧
    s0.kernHeap = KERN_HEAP + PAGESIZE := by
  have hheader := grown_header (initPaging_kernHeap blankMm 16384)
  have hkern := grown_kernHeap (initPaging blankMm 16384) 1
  rw [initPaging_kernHeap, Nat.one_mul] at hkern
  have hhead : (grown (initPaging blankMm 16384) 1).headWords = blankMm.headWords := by
    rw [grown_headWords, initPaging_headWords]
  have hreal : realSize 16 = 20 := by
    rw [realSize, wrap_of_lt (by decide), if_neg (by decide)]
  have hfit : realSize 16 ≤ hdrSize (grown (initPaging blankMm 16384) 1).mem KERN_HEAP := by
    rw [hheader.1, hreal]
    decide
  have e := kmalloc_first (by rw [hkern]; decide) hheader.2 hfit
  rw [initMm, initPaging_ksbrk, ok_bind]
  generalize grown (initPaging blankMm 16384) 1 = s at *
  have hs : (taken s KERN_HEAP 16).headWords = blankMm.headWords ∧
      (taken s KERN_HEAP 16).kernHeap = KERN_HEAP + PAGESIZE := by
    rw [taken, withHeap_headWords, withHeap_kernHeap]
    exact ⟨hhead, hkern⟩
  generalize taken s KERN_HEAP 16 = s1 at *
  refine ⟨s1.withVm [⟨KERN_HEAP + 4, KERN_PG_HEAP, KERN_PG_HEAP_LIM⟩] s1.headWords, ?_, ?_, ?_⟩
  · simp only [e, ok_bind, pure_eq_ok]
  · rw [withVm_headWords, hs.1]
    intro v h1 h2
    simp only [KERN_PG_HEAP] at h1
    exact ⟨fun h => by change 0 = v at h; omega, fun h => by change 0 = v at h; omega⟩
  · rw [withVm_kernHeap]
    exact hs.2

end Creeks
