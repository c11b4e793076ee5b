import Creeks.Lib.Translation
import Creeks.Mm.Mapped
import Creeks.Mm.Room

/-!
# The translations the processor has cached

`pd_remove_page` clears the present bit of the entry and executes `invlpg %0` with the memory operand
`v_addr`. That operand is the parameter itself, so the processor drops the translation of the page of the
kernel stack the parameter lies on, and keeps the one of the page that has been unmapped. The next `cr3`
load drops all of them.

`no_stale_translation` says what the pages handed out owe to this: every access to them uses the frame
`get_page_from_heap` recorded, as long as each call of `get_page_from_heap` hands out a page that no
translation to another frame is left of.
-/

namespace Creeks
open Lib

/-- The frame of page `page` in the page tables. -/
def pageFrame (s : Mm) (page : Nat) : Option Nat :=
  (walk s.ram s.dir (page * PAGESIZE)).map (· / PAGESIZE)

/-- The memory manager, the translations the processor has cached, by page, and the pages handed out. -/
structure TlbClient where
  mm : Mm
  tlb : Nat → Option Nat
  pages : List Page

/-- The page tables and the cached translations. -/
def TlbClient.mmu (c : TlbClient) : Mmu Nat Nat where
  table := pageFrame c.mm
  cache := c.tlb

/-- The translations `pd_remove_page` leaves cached. Its parameter `v_addr` is the word at `param`, and the
operand of `invlpg` is that word. -/
def pdRemovePageTlb (c : TlbClient) (vAddr param : Nat) : Nat → Option Nat :=
  match getPAddr c.mm vAddr with
  | .ok pAddr => if pAddr ≠ 0 then (c.mmu.evict (param / PAGESIZE)).cache else c.tlb
  | .error _ => c.tlb

/-- What happens to the pages. -/
inductive TlbOp where
  | get
  | release (vAddr param : Nat)
  | access (addr : Nat)
  | loadCr3 (cr3 : Nat)
  | other

/-- One step. A page that is handed out may be released, with the parameter of `pd_remove_page` anywhere on
the kernel stack, and accessed. Loading `cr3` drops every translation. Whatever else happens leaves the pages
alone; translations of addresses outside the page heap come and go, and any translation may be lost. -/
inductive TlbStep : TlbClient → TlbOp → TlbClient → Prop where
  | get {s tlb pages s' pg} :
    getPageFromHeap s = .ok (s', pg) →
    TlbStep ⟨s, tlb, pages⟩ .get ⟨s', tlb, pg :: pages⟩
  | release {s tlb pages pg param s' r} :
    pg ∈ pages →
    releasePageFromHeap s pg.vAddr = .ok (s', r) →
    TlbStep ⟨s, tlb, pages⟩ (.release pg.vAddr param)
      ⟨s', pdRemovePageTlb ⟨s, tlb, pages⟩ pg.vAddr param, pages.erase pg⟩
  | access {c pg addr} :
    pg ∈ c.pages →
    addr / PAGESIZE = pg.vAddr / PAGESIZE →
    TlbStep c (.access addr) { c with tlb := (c.mmu.access (addr / PAGESIZE)).cache }
  | loadCr3 {s tlb pages cr3} :
    KernelMap s.ram (cr3 / PAGESIZE) →
    TlbStep ⟨s, tlb, pages⟩ (.loadCr3 cr3) ⟨{ s with cr3 := cr3 }, fun _ => none, pages⟩
  | other {s tlb pages s' tlb'} :
    LeavesPages s s' pages →
    (∀ v, HeapPage v → tlb' (v / PAGESIZE) = none ∨ tlb' (v / PAGESIZE) = tlb (v / PAGESIZE)) →
    TlbStep ⟨s, tlb, pages⟩ .other ⟨s', tlb', pages⟩

/-- The processor uses the frame recorded for every page that is handed out, whatever it still has cached,
and that frame has not been released. The second part is only promised while `get_page_frame` has had
frames to give. -/
structure NoStale (c : TlbClient) : Prop where
  translates : ∀ pg ∈ c.pages, c.mmu.Sees (pg.vAddr / PAGESIZE) (pg.pAddr / PAGESIZE)
  inUse : c.mm.oom = false →
    ∀ pg ∈ c.pages, frameUsed c.mm.memBitmap (pg.pAddr / PAGESIZE) = true

/-- No translation to a frame other than the next one is left of the first free page. -/
def TlbOp.Clean (c : TlbClient) : TlbOp → Prop
  | .get => ∀ area ∈ c.mm.kernFreeVm.head?, ∀ f,
      c.tlb (area.vmStart / PAGESIZE) = some f → NextFrame c.mm f
  | _ => True

/-- No access goes wrong throughout a sequence of operations. -/
def AllFresh : List TlbOp → TlbClient → Prop
  | [], _ => True
  | op :: ops, c => ∀ c', TlbStep c op c' → NoStale c' ∧ AllFresh ops c'

/-- Every page handed out in a sequence of operations is clean. -/
def AllClean : List TlbOp → TlbClient → Prop
  | [], _ => True
  | op :: ops, c => ∀ c', TlbStep c op c' → op.Clean c ∧ AllClean ops c'

/-! ## Steps -/

section Steps

variable {s : Mm} {c c' : TlbClient} {op : TlbOp} {ops : List TlbOp} {pg : Page} {pages : List Page}

/-- The page tables translate a page that is mapped to its frame. -/
lemma MappedPage.pageFrame (h : MappedPage s pg) (km : KernelMap s.ram s.dir) :
    pageFrame s (pg.vAddr / PAGESIZE) = some (pg.pAddr / PAGESIZE) := by
  obtain ⟨hp, hf⟩ := h.present
  have hv : pg.vAddr / PAGESIZE * PAGESIZE = pg.vAddr :=
    Nat.div_mul_cancel (Nat.dvd_of_mod_eq_zero h.page.aligned)
  rw [Creeks.pageFrame, hv, km.walk h.page.inTables, if_pos hp, hf, h.page.aligned, Option.map_some,
    Nat.add_zero, Nat.mul_div_cancel _ (by decide)]

/-- A page that is handed out is used with the recorded frame when nothing else is cached for it. -/
lemma Mapped.sees_iff (inv : Mapped c.mm c.pages) (hpg : pg ∈ c.pages) :
    c.mmu.Sees (pg.vAddr / PAGESIZE) (pg.pAddr / PAGESIZE) ↔
      ∀ f, c.tlb (pg.vAddr / PAGESIZE) = some f → f = pg.pAddr / PAGESIZE := by
  rw [Mmu.sees_iff]
  exact and_iff_right ((inv.mapped pg hpg).pageFrame inv.map)

/-- What is said about the translations of the pages handed out comes to what is cached for them. -/
lemma Mapped.noStale_iff (inv : Mapped c.mm c.pages) : NoStale c ↔
    ∀ pg ∈ c.pages, ∀ f, c.tlb (pg.vAddr / PAGESIZE) = some f → f = pg.pAddr / PAGESIZE := by
  constructor
  · exact fun h pg hpg => (inv.sees_iff hpg).1 (h.translates pg hpg)
  · exact fun h => ⟨fun pg hpg => (inv.sees_iff hpg).2 (h pg hpg), fun hoom _ hpg => inv.inUse hoom hpg⟩

/-- `invlpg` takes the translation of the page of the parameter out of the cache, or none. -/
lemma pdRemovePageTlb_eq (c : TlbClient) (vAddr param : Nat) :
    pdRemovePageTlb c vAddr param = Function.update c.tlb (param / PAGESIZE) none ∨
      pdRemovePageTlb c vAddr param = c.tlb := by
  rw [pdRemovePageTlb]
  cases getPAddr c.mm vAddr with
  | ok pAddr =>
    dsimp only
    split
    · exact .inl Mmu.evict_cache
    · exact .inr rfl
  | error _ => exact .inr rfl

/-- So the translation of any page is lost or kept. -/
lemma pdRemovePageTlb_cases (c : TlbClient) (vAddr param page : Nat) :
    pdRemovePageTlb c vAddr param page = none ∨ pdRemovePageTlb c vAddr param page = c.tlb page := by
  rcases pdRemovePageTlb_eq c vAddr param with e | e
  · rw [e]
    obtain rfl | hne := eq_or_ne page (param / PAGESIZE)
    · exact .inl (Function.update_self _ _ _)
    · exact .inr (Function.update_of_ne hne _ _)
  · exact .inr (congrFun e page)

/-- The translation of a page the parameter does not lie on is kept. -/
lemma pdRemovePageTlb_other {param page : Nat} (c : TlbClient) (vAddr : Nat)
    (h : page ≠ param / PAGESIZE) : pdRemovePageTlb c vAddr param page = c.tlb page := by
  rcases pdRemovePageTlb_eq c vAddr param with e | e
  · rw [e, Function.update_of_ne h]
  · rw [e]

/-- Every step keeps the pages mapped. -/
lemma TlbStep.mapped (st : TlbStep c op c') (inv : Mapped c.mm c.pages) : Mapped c'.mm c'.pages := by
  cases st with
  | get h => exact (inv.get h).1
  | release hpg h => exact inv.release hpg h
  | access _ _ => exact inv
  | @loadCr3 s tlb pages cr3 km =>
    obtain ⟨-, h2, h3, h4, h5, h6, h7, h8⟩ := inv
    refine ⟨km, h2, h3, h4, h5, h6, fun pg hpg => ?_, fun hoom => ?_⟩
    · exact (h7 pg hpg).congr (h7 pg hpg).taken rfl
    · exact (h8 hoom).congr rfl h3 h4 (fun _ => id) fun _ _ => rfl
  | other leaves _ => exact inv.leaves leaves

/-- A step from a state without stale translations leads to one exactly when the page it hands out is
clean. -/
lemma TlbStep.noStale_iff (st : TlbStep c op c') (inv : Mapped c.mm c.pages) (hs : NoStale c) :
    NoStale c' ↔ op.Clean c := by
  have inv' := st.mapped inv
  rw [inv'.noStale_iff]
  have hold := inv.noStale_iff.1 hs
  cases st with
  | @get s tlb pages s' pg h =>
    obtain ⟨-, hp, area, rest, hvm, hv⟩ := inv.get h
    have hclean : TlbOp.Clean ⟨s, tlb, pages⟩ .get ↔
        ∀ f, tlb (pg.vAddr / PAGESIZE) = some f → f = pg.pAddr / PAGESIZE := by
      have hhead : s.kernFreeVm.head? = some area := by rw [show s.kernFreeVm = area :: rest from hvm]; rfl
      simp only [TlbOp.Clean, nextFrame_iff, hhead, Option.mem_some_iff, hp, hv, forall_eq']
    rw [hclean]
    constructor
    · exact fun h => h pg List.mem_cons_self
    · rintro h pg' (_ | ⟨_, hpg'⟩)
      · exact h
      · exact hold pg' hpg'
  | @release s tlb pages pg param s' r hpg h =>
    refine iff_of_true (fun pg' hpg' f hf => ?_) trivial
    refine hold pg' (List.mem_of_mem_erase hpg') f ?_
    rcases pdRemovePageTlb_cases ⟨s, tlb, pages⟩ pg.vAddr param (pg'.vAddr / PAGESIZE) with hc | hc
    · cases hc.symm.trans hf
    · exact hc.symm.trans hf
  | @access c pg addr hpg ha =>
    refine iff_of_true (fun pg' hpg' => ?_) trivial
    have hsees := (hs.translates pg' hpg').access (addr / PAGESIZE)
    exact (Mmu.sees_iff.1 hsees).2
  | loadCr3 _ => exact iff_of_true (fun _ _ _ => nofun) trivial
  | other _ hcached =>
    refine iff_of_true (fun pg hpg f hf => ?_) trivial
    rcases hcached _ (inv.mapped pg hpg).page with hc | hc
    · cases hc.symm.trans hf
    · exact hold pg hpg f (hc.symm.trans hf)

/-- No translation is stale throughout a sequence of operations exactly when every page handed out is
clean. -/
lemma allFresh_iff (inv : Mapped c.mm c.pages) (hs : NoStale c) : AllFresh ops c ↔ AllClean ops c := by
  induction ops generalizing c with
  | nil => exact Iff.rfl
  | cons op ops ih =>
    refine forall_congr' fun c' => forall_congr' fun st => ?_
    rw [st.noStale_iff inv hs]
    refine and_congr_right fun hclean => ?_
    exact ih (st.mapped inv) ((st.noStale_iff inv hs).2 hclean)

end Steps

/-- In every run from `init_mm` the processor uses the recorded frame of every page that is handed out, in
every state the run reaches, exactly when each call of `get_page_from_heap` hands out a page of which no
translation to another frame than the next one is left. -/
theorem no_stale_translation {boot s0 : Mm} {highMem : Nat} (init : initMm boot highMem = .ok s0)
    (ops : List TlbOp) : AllFresh ops ⟨s0, fun _ => none, []⟩ ↔ AllClean ops ⟨s0, fun _ => none, []⟩ :=
  allFresh_iff (Mapped.init init) ⟨nofun, fun _ => nofun⟩

theorem no_stale_translation_two : ∃ s0, AllFresh [.get, .access KERN_PG_HEAP] ⟨s0, fun _ => none, []⟩ ↔
    AllClean [.get, .access KERN_PG_HEAP] ⟨s0, fun _ => none, []⟩ := by
  obtain ⟨s0, init, -⟩ := initMm_blank
  exact ⟨s0, no_stale_translation init _⟩

/-! ## A stale translation -/

section Stale

variable {s s' : Mm} {others : List (Nat × Nat)} {f q : Nat}

/-- The next frame is free and not above any other free frame. -/
lemma NextFrame.le (h : NextFrame s f) (hq : q < RAM_MAXPAGE) (hfree : frameUsed s.memBitmap q = false) :
    f ≤ q ∧ frameUsed s.memBitmap f = false := by
  rcases h with ⟨-, hf, hbelow⟩ | ⟨-, hall⟩
  · refine ⟨not_lt.1 fun hlt => ?_, hf⟩
    rw [hbelow q hlt] at hfree
    cases hfree
  · rw [hall q hq] at hfree
    cases hfree

/-- The page heap does not depend on the bitmap. -/
lemma PageHeap.withBitmap (h : PageHeap s others) (bitmap : Nat → BitVec 8) :
    PageHeap { s with memBitmap := bitmap } others :=
  ⟨h.map, h.owned.congr rfl rfl, h.areas⟩

/-- The page below the only area joins it from below. -/
lemma mergePage_below {p v e : Nat} (hvm : s.kernFreeVm = [⟨p, v + PAGESIZE, e⟩])
    (hv : v + PAGESIZE < 4294967296) (hhead : s.headWords.2 ≠ v) :
    mergePage s v = .ok (s.withVm [⟨p, v, e⟩] s.headWords, 0) := by
  have hscan : scan VmArea.vmStart v [] s.kernFreeVm = ([], [⟨p, v + PAGESIZE, e⟩]) := by
    rw [hvm, scan, if_pos]
    show v < v + PAGESIZE
    exact Nat.lt_add_of_pos_right (by decide)
  have hprev : ¬ prevEnd s [] = v := hhead
  have hnext : nextStart s [⟨p, v + PAGESIZE, e⟩] = v + PAGESIZE := rfl
  unfold mergePage
  simp only [hscan]
  rw [if_neg hprev, wrap_of_lt hv, if_pos hnext]
  rfl

/-- A state in which the first page of the page heap is mapped to a frame with a free one below it, and
nothing is cached: a user page has taken the lower frame, and has been given back. -/
lemma lower_frame_free : ∃ s0 s pg p f, initMm blankMm 16384 = .ok s0 ∧
    Run TlbStep ⟨s0, fun _ => none, []⟩ [.other, .get, .other, .loadCr3 s.cr3] ⟨s, fun _ => none, [pg]⟩ ∧
    PageHeap s [(pg.addr, 16)] ∧ s.kernHeap + PAGESIZE ≤ KERN_HEAP_LIM ∧ pg.vAddr = KERN_PG_HEAP ∧
    s.kernFreeVm = [⟨p, KERN_PG_HEAP + PAGESIZE, KERN_PG_HEAP_LIM⟩] ∧ s.headWords.2 ≠ KERN_PG_HEAP ∧
    f < RAM_MAXPAGE ∧ f < pg.pAddr / PAGESIZE ∧ frameUsed s.memBitmap f = false := by
  obtain ⟨s0, init, ph0, room0, -, hcard, -, -⟩ := initMm_room
  obtain ⟨s0', init', hhead, -⟩ := initMm_blank
  cases init.symm.trans init'
  obtain ⟨-, -, p, hvm⟩ := initMm_ok init
  have inv0 := Mapped.init init
  -- the two lowest free frames
  obtain ⟨f0, hf0⟩ : ∃ f, NextFrame s0 f := ⟨_, nextFrame_iff.2 rfl⟩
  obtain ⟨q, hq, hne⟩ := Finset.exists_mem_ne (by omega : 1 < (freeFrames s0).card) f0
  obtain ⟨hq, hqfree⟩ := mem_freeFrames.1 hq
  obtain ⟨hf0q, hf0free⟩ := hf0.le hq hqfree
  have hf0lt : f0 < RAM_MAXPAGE := lt_of_le_of_lt hf0q hq
  have hbit : ∀ r, frameUsed (setPageFrameUsed s0.memBitmap f0) r =
      (decide (r = f0) || frameUsed s0.memBitmap r) := frameUsed_set _ _
  have st1 : TlbStep ⟨s0, fun _ => none, []⟩ .other
      ⟨{ s0 with memBitmap := setPageFrameUsed s0.memBitmap f0 }, fun _ => none, []⟩ := by
    refine .other ⟨inv0.map, rfl, inv0.lower, inv0.upper, fun _ _ => rfl, fun r => ?_, nofun, id⟩
      fun _ _ => .inl rfl
    exact free_of_used (fun r hr => by rw [hbit, hr, Bool.or_true]) inv0.free
  have ph1 := ph0.withBitmap (setPageFrameUsed s0.memBitmap f0)
  have room1 : Room { s0 with memBitmap := setPageFrameUsed s0.memBitmap f0 } (59998 + 2) :=
    ⟨room0.areas, room0.heap⟩
  obtain ⟨s2, pg, e2, ph2, room2, -⟩ := ph1.get_room room1
  have inv1 := st1.mapped inv0
  obtain ⟨inv2, hp, area, rest, hvm', hv⟩ := inv1.get e2
  cases hvm.symm.trans hvm'
  obtain ⟨area, rest, hvm2, -, -, hlist, hgrows, -⟩ := ph1.get_ok e2
  cases hvm.symm.trans hvm2
  have hf1 : NextFrame { s0 with memBitmap := setPageFrameUsed s0.memBitmap f0 } (pg.pAddr / PAGESIZE) := by
    rw [nextFrame_iff, hp]
  obtain ⟨hle, hfree⟩ := hf1.le hq (by
    rw [hbit, hqfree, Bool.or_false]
    exact decide_eq_false hne)
  rw [hbit, Bool.or_eq_false_iff, decide_eq_false_iff_not] at hfree
  have hlt : f0 < pg.pAddr / PAGESIZE :=
    lt_of_le_of_ne (hf0.le (lt_of_le_of_lt hle hq) hfree.2).1 fun e => hfree.1 e.symm
  have hbit' : ∀ r, frameUsed (releasePageFrame s2.memBitmap (f0 * PAGESIZE)) r =
      (!decide (r = f0) && frameUsed s2.memBitmap r) := by
    intro r
    rw [frameUsed_release, Nat.mul_div_cancel _ (by decide)]
  have st3 : TlbStep ⟨s2, fun _ => none, [pg]⟩ .other
      ⟨{ s2 with memBitmap := releasePageFrame s2.memBitmap (f0 * PAGESIZE) }, fun _ => none, [pg]⟩ := by
    refine .other ⟨inv2.map, rfl, inv2.lower, inv2.upper, fun _ _ => rfl, fun r hr => ?_,
      fun pg' hpg' hused => ?_, id⟩ fun _ _ => .inl rfl
    · rw [hbit', Bool.and_eq_false_iff, Bool.not_eq_false', decide_eq_true_eq] at hr
      rcases hr with rfl | hr
      · exact inv0.free r hf0free
      · exact inv2.free r hr
    · cases List.mem_singleton.1 hpg'
      rw [hbit', hused, Bool.and_true, Bool.not_eq_true', decide_eq_false_iff_not]
      exact fun e => absurd hlt (by rw [e]; exact lt_irrefl _)
  refine ⟨s0, { s2 with memBitmap := releasePageFrame s2.memBitmap (f0 * PAGESIZE) }, pg, p, f0, init,
    (((Run.nil.snoc st1).snoc (.get e2)).snoc st3).snoc (.loadCr3 inv2.map), ph2.withBitmap _, ?_, hv, ?_,
    ?_, hf0lt, hlt, ?_⟩
  · refine le_trans ?_ room2.heap
    exact Nat.add_le_add_left (by decide) _
  · show s2.kernFreeVm = _
    have hwrap : wrap (KERN_PG_HEAP + PAGESIZE) = KERN_PG_HEAP + PAGESIZE := wrap_of_lt (by decide)
    have hend : ¬ KERN_PG_HEAP + PAGESIZE = KERN_PG_HEAP_LIM := by decide
    rw [hlist, eatFirst]
    dsimp only
    rw [hwrap, if_neg hend]
  · show s2.headWords.2 ≠ KERN_PG_HEAP
    rw [hgrows.fields.2.1]
    exact (hhead KERN_PG_HEAP (le_refl _) (by decide)).2
  · rw [hbit', decide_eq_true rfl]
    rfl

/-- The page is accessed, released and handed out again. It is mapped to the lower frame now, and the
processor still uses the one that has been released. -/
theorem stale_translation : ∃ s0 cr3 c pg f, initMm blankMm 16384 = .ok s0 ∧
    Run TlbStep ⟨s0, fun _ => none, []⟩ [.other, .get, .other, .loadCr3 cr3, .access KERN_PG_HEAP,
      .release KERN_PG_HEAP 0x0009FF00, .get] c ∧
    pg ∈ c.pages ∧ pg.vAddr = KERN_PG_HEAP ∧
    c.mmu.translate (pg.vAddr / PAGESIZE) = some f ∧ f ≠ pg.pAddr / PAGESIZE ∧ ¬ NoStale c := by
  obtain ⟨s0, s, pg, p, f, init, run, ph, hkern, hv, hvm, hhead, hf, hlt, hfree⟩ := lower_frame_free
  have inv : Mapped s [pg] := run.invariant (I := fun c => Mapped c.mm c.pages)
    (fun _ _ _ inv st => st.mapped inv) (Mapped.init init)
  have hold := inv.mapped pg List.mem_cons_self
  obtain ⟨hp, hfr⟩ := hold.present
  have hhigh := hold.high
  have hmem : pg ∈ [pg] := List.mem_cons_self
  -- the access caches the frame of the page
  have st5 := @TlbStep.access ⟨s, fun _ => none, [pg]⟩ pg KERN_PG_HEAP hmem (by rw [hv])
  have hcached : ((TlbClient.mmu ⟨s, fun _ => none, [pg]⟩).access (KERN_PG_HEAP / PAGESIZE)).cache
      (KERN_PG_HEAP / PAGESIZE) = some (pg.pAddr / PAGESIZE) := by
    rw [Mmu.access_cache, Function.update_self, ← hv]
    exact hold.pageFrame inv.map
  generalize ((TlbClient.mmu ⟨s, fun _ => none, [pg]⟩).access (KERN_PG_HEAP / PAGESIZE)).cache = tlb
    at st5 hcached
  -- the release makes it the first free page again
  have hpage : HeapPage KERN_PG_HEAP := hv ▸ hold.page
  rw [hv] at hp hfr
  obtain ⟨h1, h2, h3⟩ := PageHeap.drop inv.map hpage hp (by omega)
  have e6 : releasePageFromHeap s KERN_PG_HEAP = .ok ((pageDropped s KERN_PG_HEAP s.kernFreeVm).withVm
      [⟨p, KERN_PG_HEAP, KERN_PG_HEAP_LIM⟩] s.headWords, 0) := by
    rw [releasePageFromHeap, h1, ok_bind, if_neg h2, h3, ok_bind]
    exact mergePage_below hvm (by decide) hhead
  have hbit : ∀ r, frameUsed ((pageDropped s KERN_PG_HEAP s.kernFreeVm).withVm
      [⟨p, KERN_PG_HEAP, KERN_PG_HEAP_LIM⟩] s.headWords).memBitmap r =
      (!decide (r = pg.pAddr / PAGESIZE) && frameUsed s.memBitmap r) := by
    intro r
    rw [withVm_memBitmap, pageDropped_memBitmap, frameUsed_release, hfr, Nat.mul_div_cancel _ (by decide)]
  have hkern6 : ((pageDropped s KERN_PG_HEAP s.kernFreeVm).withVm
      [⟨p, KERN_PG_HEAP, KERN_PG_HEAP_LIM⟩] s.headWords).kernHeap = s.kernHeap := by
    rw [withVm_kernHeap, pageDropped_kernHeap]
  have hvm6 : ((pageDropped s KERN_PG_HEAP s.kernFreeVm).withVm
      [⟨p, KERN_PG_HEAP, KERN_PG_HEAP_LIM⟩] s.headWords).kernFreeVm =
      [⟨p, KERN_PG_HEAP, KERN_PG_HEAP_LIM⟩] := withVm_kernFreeVm _ _ _
  have ph6 : PageHeap ((pageDropped s KERN_PG_HEAP s.kernFreeVm).withVm
      [⟨p, KERN_PG_HEAP, KERN_PG_HEAP_LIM⟩] s.headWords) [(pg.addr, 16)] := by
    rcases ph.release hpage (hv ▸ hold.taken) hp (by omega) hhead with ⟨s', e, ph', -⟩ | ⟨-, e⟩
    · cases e6.symm.trans e
      exact ph'
    · cases e6.symm.trans e
  have st6 := @TlbStep.release s tlb [pg] pg 0x0009FF00 _ 0 hmem (by rw [hv]; exact e6)
  rw [hv] at st6
  have inv6 := st6.mapped (st5.mapped inv)
  generalize (pageDropped s KERN_PG_HEAP s.kernFreeVm).withVm
      [⟨p, KERN_PG_HEAP, KERN_PG_HEAP_LIM⟩] s.headWords = s6 at e6 hbit hkern6 hvm6 ph6 st6 inv6
  -- and it is mapped to another frame
  rcases ph6.get_total with ⟨⟨s7, pg7⟩, e7⟩ | ⟨hlim, -⟩
  · have run7 := ((run.snoc st5).snoc st6).snoc (.get e7)
    obtain ⟨-, hp7, area, rest, hvm7, hv7⟩ := inv6.get e7
    cases hvm6.symm.trans hvm7
    have hnext : NextFrame s6 (pg7.pAddr / PAGESIZE) := by rw [nextFrame_iff, hp7]
    obtain ⟨hle, -⟩ := hnext.le hf (by rw [hbit, hfree, Bool.and_false])
    have hne : pg.pAddr / PAGESIZE ≠ pg7.pAddr / PAGESIZE := by omega
    have hother : KERN_PG_HEAP / PAGESIZE ≠ 0x0009FF00 / PAGESIZE := by decide
    have hstale : pdRemovePageTlb ⟨s, tlb, [pg]⟩ KERN_PG_HEAP 0x0009FF00 (pg7.vAddr / PAGESIZE) =
        some (pg.pAddr / PAGESIZE) := by
      rw [hv7]
      exact (pdRemovePageTlb_other _ _ hother).trans hcached
    refine ⟨s0, s.cr3, _, pg7, pg.pAddr / PAGESIZE, init, run7, List.mem_cons_self, hv7, ?_, hne,
      fun h => ?_⟩
    · rw [Mmu.translate]
      show (pdRemovePageTlb ⟨s, tlb, [pg]⟩ KERN_PG_HEAP 0x0009FF00 (pg7.vAddr / PAGESIZE)).or _ = _
      rw [hstale]
      rfl
    · have hsees := h.translates pg7 List.mem_cons_self
      exact hne ((Mmu.sees_iff.1 hsees).2 _ hstale)
  · rw [hkern6, growPages_small (by decide), Nat.one_mul] at hlim
    exact absurd hkern (not_le.2 hlim)

end Stale

end Creeks
