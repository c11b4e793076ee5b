import Creeks.Mm.Account
import Creeks.Mm.Flags
import Creeks.Mm.GiveBack

/-!
# Frames counted

Every function of the memory manager takes or gives back a number of frames that can be read off its result:
the page it returns, the page tables it has added, the pages of the list it has released. The pages of the
kernel heap are counted with the free frames, since `kmalloc` never gives them back.
-/

namespace Creeks
open Lib

/-- The frames that are free, and those of the kernel heap. -/
def framesLeft (s : Mm) : Nat := (freeFrames s).card + s.kernHeap / PAGESIZE

lemma framesLeft_congr {s s' : Mm} (hb : s'.memBitmap = s.memBitmap) (hk : s'.kernHeap = s.kernHeap) :
    framesLeft s' = framesLeft s := by
  have hfree : freeFrames s' = freeFrames s := by
    ext q
    rw [mem_freeFrames, mem_freeFrames, hb]
  rw [framesLeft, framesLeft, hfree, hk]

/-- `s'` has `n` frames less than `s`, unless `get_page_frame` has failed. -/
structure Takes (n : Int) (s s' : Mm) : Prop where
  flags : FlagsKept s s'
  upper : s.kernHeap ≤ KERN_HEAP_LIM → s'.kernHeap ≤ KERN_HEAP_LIM
  left : s.kernHeap ≤ KERN_HEAP_LIM → s'.oom = false → (framesLeft s' : Int) + n = framesLeft s

section Card

variable {s : Mm} {f : Nat}

lemma card_getPageFrame (no : (getPageFrame s).1.oom = false) :
    (freeFrames (getPageFrame s).1).card + 1 = (freeFrames s).card := by
  have same : freeFrames (growStep s) = freeFrames (getPageFrame s).1 := by
    ext q
    rw [mem_freeFrames, mem_freeFrames, growStep_memBitmap]
  have hcard := card_freeFrames_growStep s
  rw [same] at hcard
  rcases getPageFrame_cases s with ⟨page, hlt, hfree, -⟩ | e
  · have hpos := frameFree_iff.1 ⟨page, hlt, hfree⟩
    omega
  · rw [e] at no
    cases no

lemma card_release (hf : f < RAM_MAXPAGE) (hused : frameUsed s.memBitmap f = true) :
    (freeFrames { s with memBitmap := releasePageFrame s.memBitmap (f * 4096) }).card = (freeFrames s).card + 1 := by
  have hmem : f ∉ freeFrames s := fun hm => by
    rw [mem_freeFrames, hused] at hm
    cases hm.2
  rw [← Finset.card_insert_of_notMem hmem]
  congr 1
  ext q
  rw [Finset.mem_insert, mem_freeFrames, mem_freeFrames, frameUsed_release, Nat.mul_div_cancel _ (by decide),
    Bool.and_eq_false_iff, Bool.not_eq_false', decide_eq_true_eq]
  constructor
  · rintro ⟨hq, rfl | hfree⟩
    · exact .inl rfl
    · exact .inr ⟨hq, hfree⟩
  · rintro (rfl | ⟨hq, hfree⟩)
    · exact ⟨hf, .inl rfl⟩
    · exact ⟨hq, .inr hfree⟩

end Card

namespace Takes

variable {s s1 s' : Mm} {m n : Int} {pd pd' : PageDirectory} {pd1 : Option PageDirectory} {pg : Page}
  {pages pages' kernel users : List Page} {v p size flags : Nat}

lemma cast (h : Takes m s s') (e : m = n) : Takes n s s' := e ▸ h

lemma of_eq (flags : FlagsKept s s') (hb : s'.memBitmap = s.memBitmap) (hk : s'.kernHeap = s.kernHeap) :
    Takes 0 s s' := by
  refine ⟨flags, fun hlim => hk ▸ hlim, fun _ _ => ?_⟩
  rw [framesLeft_congr hb hk, add_zero]

lemma refl (s : Mm) : Takes 0 s s := .of_eq (.refl s) rfl rfl

lemma trans (h : Takes m s s1) (h' : Takes n s1 s') : Takes (m + n) s s' := by
  refine ⟨h.flags.trans h'.flags, h'.upper ∘ h.upper, fun hlim no => ?_⟩
  have no1 : s1.oom = false := Bool.eq_false_iff.2 fun e => Bool.eq_false_iff.1 no (h'.flags.oom e)
  have first := h.left hlim no1
  have second := h'.left (h.upper hlim) no
  omega

lemma withHeap (s : Mm) (mem : Mem) (used : Nat) : Takes 0 s (s.withHeap mem used) :=
  .of_eq (.withHeap ..) (withHeap_memBitmap ..) (withHeap_kernHeap ..)

lemma withVm (s : Mm) (areas : List VmArea) (head : Nat × Nat) : Takes 0 s (s.withVm areas head) :=
  .of_eq (.withVm ..) (withVm_memBitmap ..) (withVm_kernHeap ..)

lemma withRam (s : Mm) (ram : Nat → Nat → Nat) : Takes 0 s { s with ram := ram } :=
  .of_eq (.of_eq rfl rfl) rfl rfl

lemma withCr3 (s : Mm) (cr3 : Nat) : Takes 0 s { s with cr3 := cr3 } := .of_eq (.of_eq rfl rfl) rfl rfl

lemma getPageFrame (s : Mm) : Takes 1 s (Creeks.getPageFrame s).1 := by
  obtain ⟨bitmap, oom, e, -⟩ := getPageFrame_frame s
  have hk : (Creeks.getPageFrame s).1.kernHeap = s.kernHeap := by rw [e]
  refine ⟨.getPageFrame s, fun hlim => hk ▸ hlim, fun _ no => ?_⟩
  have hcard := card_getPageFrame no
  rw [framesLeft, framesLeft, hk]
  omega

lemma writeWord {w : Nat} (h : Creeks.writeWord s v w = .ok s') : Takes 0 s s' := by
  obtain ⟨_, rfl⟩ := writeWord_frame h
  exact .withRam ..

lemma pd0AddPage (h : Creeks.pd0AddPage s v p flags = .ok s') : Takes 0 s s' := by
  obtain ⟨_, rfl⟩ := pd0AddPage_frame h
  exact .withRam ..

lemma kfree (h : Creeks.kfree s v = .ok s') : Takes 0 s s' := by
  obtain ⟨mem, used, rfl⟩ := kfree_frame h
  exact .withHeap s mem used

/-! ## The kernel heap -/

/-- A page of the kernel heap takes a frame. -/
lemma growHeap_left {n : Nat} {b : Bool} (h : Creeks.growHeap n s = .ok (s', b))
    (hroom : s.kernHeap + n * PAGESIZE < 4294967296) : s'.kernHeap = s.kernHeap + n * PAGESIZE ∧
      (s'.oom = false → framesLeft s' = framesLeft s) := by
  induction n generalizing s with
  | zero =>
    cases h
    exact ⟨by rw [Nat.zero_mul, Nat.add_zero], fun _ => rfl⟩
  | succ n ih =>
    rw [Creeks.growHeap, if_neg (Nat.not_lt_zero _)] at h
    obtain ⟨t, ha, h⟩ := bind_ok.1 h
    obtain ⟨ram, rfl⟩ := pd0AddPage_frame ha
    obtain ⟨bitmap, oom, e, -⟩ := getPageFrame_frame s
    have hk : (Creeks.getPageFrame s).1.kernHeap = s.kernHeap := by rw [e]
    have hnext : wrap ((Creeks.getPageFrame s).1.kernHeap + PAGESIZE) = s.kernHeap + PAGESIZE := by
      rw [hk, wrap_of_lt (by simp only [PAGESIZE] at hroom ⊢; omega)]
    dsimp only at h
    rw [hnext] at h
    obtain ⟨hheap, hleft⟩ := ih h (by simp only [PAGESIZE] at hroom ⊢; omega)
    dsimp only at hheap
    refine ⟨by rw [hheap]; ring, fun no => ?_⟩
    have no1 : (Creeks.getPageFrame s).1.oom = false :=
      Bool.eq_false_iff.2 fun e => Bool.eq_false_iff.1 no ((FlagsKept.growHeap h).oom e)
    have hcard := card_getPageFrame no1
    have hfree : freeFrames { (Creeks.getPageFrame s).1 with ram := ram, kernHeap := s.kernHeap + PAGESIZE } =
        freeFrames (Creeks.getPageFrame s).1 := by
      ext q
      rw [mem_freeFrames, mem_freeFrames]
    rw [hleft no, framesLeft, framesLeft, hfree]
    simp only [PAGESIZE]
    omega

/-- The room that a request of `n` pages needs. -/
lemma ksbrk {n c : Nat} (hn : KERN_HEAP_LIM + n * PAGESIZE < 4294967296) (h : Creeks.ksbrk s n = .ok (s', c)) :
    Takes 0 s s' := by
  have flags := FlagsKept.ksbrk h
  unfold Creeks.ksbrk at h
  split at h
  · cases h
    exact .refl s
  · rename_i hlim
    obtain ⟨r, hg, h⟩ := bind_ok.1 h
    have grown : Takes 0 s r.1 := by
      refine ⟨.growHeap hg, fun hle => ?_, fun hle no => ?_⟩
      all_goals
        have hroom : s.kernHeap + n * PAGESIZE < 4294967296 :=
          lt_of_le_of_lt (Nat.add_le_add_right hle _) hn
        obtain ⟨hheap, hleft⟩ := growHeap_left hg hroom
      · rw [wrap_of_lt hroom] at hlim
        rw [hheap]
        exact not_lt.1 hlim
      · rw [hleft no, add_zero]
    split at h
    · cases h
      exact grown.trans (.withHeap ..)
    · cases h
      exact grown

lemma kmallocSearch {realsize fuel chunk c : Nat}
    (hn : KERN_HEAP_LIM + (realsize / PAGESIZE + 1) * PAGESIZE < 4294967296)
    (h : Creeks.kmallocSearch realsize fuel s chunk = .ok (s', c)) : Takes 0 s s' := by
  induction fuel generalizing s chunk with
  | zero => cases h
  | succ fuel ih =>
    simp only [Creeks.kmallocSearch, Nat.not_lt_zero, if_false] at h
    split at h
    case isTrue => cases h
    case isFalse =>
      split at h
      case isFalse =>
        cases h
        exact .refl _
      case isTrue =>
        split at h
        case isTrue => cases h
        case isFalse =>
          split at h
          case isTrue =>
            obtain ⟨r, hr, h⟩ := bind_ok.1 h
            exact (Takes.ksbrk hn hr).trans (ih h)
          case isFalse =>
            split at h
            · cases h
            · exact ih h

lemma kmalloc (hsize : Served size) (h : Creeks.kmalloc s size = .ok (s', p)) : Takes 0 s s' := by
  obtain ⟨r, hr, h⟩ := bind_ok.1 h
  cases h
  have hn : KERN_HEAP_LIM + growPages size * PAGESIZE < 4294967296 :=
    hsize.growth_lt (s := { s with kernHeap := KERN_HEAP_LIM }) (le_refl _)
  exact (Takes.kmallocSearch hn hr).trans (.withHeap ..)

/-! ## Pages taken -/

lemma eatArea {area : VmArea} {rest : List VmArea} (h : Creeks.eatArea s area rest = .ok s') : Takes 0 s s' := by
  unfold Creeks.eatArea at h
  split at h
  · exact (Takes.withVm ..).trans (.kfree h)
  · cases h
    exact .withVm ..

lemma getPageFromHeap (h : Creeks.getPageFromHeap s = .ok (s', pg)) : Takes 1 s s' := by
  simp only [Creeks.getPageFromHeap, Nat.not_lt_zero, if_false] at h
  split at h
  · cases h
  · obtain ⟨s1, he, h⟩ := bind_ok.1 h
    obtain ⟨s2, ha, h⟩ := bind_ok.1 h
    obtain ⟨q, hm, h⟩ := bind_ok.1 h
    cases h
    exact (((Takes.getPageFrame s).trans (.eatArea he)).trans (.pd0AddPage ha)).trans (.kmalloc (by decide) hm)

/-- A new directory has one page. -/
lemma pdCreate (h : Creeks.pdCreate s = .ok (s', pd)) : Takes pd.pages.length s s' := by
  obtain ⟨s1, s2, ram, hk, hg, hpt, rfl⟩ := pdCreate_ok h
  have hlen : pd.pages.length = 1 := by rw [PageDirectory.pages, hpt, List.length_singleton]
  rw [hlen]
  exact ((Takes.kmalloc (by decide) hk).trans (.getPageFromHeap hg)).trans (.withRam s2 ram)

lemma newTable (h : Creeks.newTable s v flags = .ok (s', pg)) : Takes 1 s s' := by
  obtain ⟨s1, ram, left, hg, rfl⟩ := newTable_ok h
  have raised : FlagsKept s1 { s1 with ram := ram, stale := s1.stale || left } :=
    ⟨id, fun e => by dsimp only; rw [e, Bool.true_or]⟩
  have served : Takes 0 s1 { s1 with ram := ram, stale := s1.stale || left } := .of_eq raised rfl rfl
  exact (Takes.getPageFromHeap hg).trans served

/-- `pd_add_page` takes the pages that it puts on the list of tables. -/
lemma pdAddPage (h : Creeks.pdAddPage s v p flags (some pd) = .ok (s', pd1)) :
    ∃ pd', pd1 = some pd' ∧ Takes (pd'.pages.length - pd.pages.length : Int) s s' := by
  obtain ⟨pde, -, h⟩ := bind_ok.1 h
  split at h
  · obtain ⟨r, hn, h⟩ := bind_ok.1 h
    obtain ⟨s1, hw, h⟩ := bind_ok.1 h
    cases h
    refine ⟨_, rfl, ((Takes.newTable hn).trans (.writeWord hw)).cast ?_⟩
    simp only [PageDirectory.pages, List.length_cons]
    omega
  · obtain ⟨s1, hw, h⟩ := bind_ok.1 h
    cases h
    exact ⟨pd, rfl, (Takes.writeWord hw).cast (sub_self _).symm⟩

/-- A page fault takes the page it puts on `pglist`, and its table. -/
lemma isrPfExc {a : Nat} (h : Creeks.isrPfExc s pages (some pd) a = .ok (some (s', pages', pd1))) :
    ∃ pd', pd1 = some pd' ∧
      Takes ((pd'.pages ++ pages').length - (pd.pages ++ pages).length : Int) s s' := by
  unfold Creeks.isrPfExc at h
  split at h
  · obtain ⟨r, hf, h⟩ := bind_ok.1 h
    obtain ⟨t, ha, h⟩ := bind_ok.1 h
    obtain ⟨q, hk, hf⟩ := bind_ok.1 hf
    cases hf
    cases h
    obtain ⟨pd', hpd, added⟩ := pdAddPage ha
    refine ⟨pd', hpd, (((Takes.kmalloc (by decide) hk).trans (.getPageFrame _)).trans added).cast ?_⟩
    simp only [List.length_append, List.length_cons]
    omega
  · cases h

/-! ## Pages given back -/

lemma setPrevEnd (before after : List VmArea) (e : Nat) : Takes 0 s (Creeks.setPrevEnd s before after e) := by
  cases before <;> exact .withVm ..

lemma setNextStart (before after : List VmArea) (e : Nat) : Takes 0 s (Creeks.setNextStart s before after e) := by
  cases after <;> exact .withVm ..

lemma mergePage {r : Nat} (h : Creeks.mergePage s v = .ok (s', r)) : Takes 0 s s' := by
  unfold Creeks.mergePage at h
  dsimp only at h
  split at h
  · split at h
    · split at h
      · cases h
      · obtain ⟨s1, hf, h⟩ := bind_ok.1 h
        cases h
        exact (Takes.setPrevEnd ..).trans (.kfree hf)
    · cases h
      exact .setPrevEnd ..
  · split at h
    · cases h
      exact .setNextStart ..
    · split at h
      · obtain ⟨q, hm, h⟩ := bind_ok.1 h
        cases h
        exact (Takes.kmalloc (by decide) hm).trans (.withVm ..)
      · cases h

/-- A page whose frame is in use gives one frame back. -/
lemma release_frame {f : Nat} (hf : f < RAM_MAXPAGE) (hused : frameUsed s.memBitmap f = true)
    (hb : s'.memBitmap = releasePageFrame s.memBitmap (f * 4096)) (hk : s'.kernHeap = s.kernHeap)
    (flags : FlagsKept s s') : Takes (-1) s s' := by
  refine ⟨flags, fun hlim => hk ▸ hlim, fun _ _ => ?_⟩
  have hcard := card_release hf hused
  have hfree : freeFrames s' = freeFrames { s with memBitmap := releasePageFrame s.memBitmap (f * 4096) } := by
    ext q
    rw [mem_freeFrames, mem_freeFrames, hb]
  rw [framesLeft, framesLeft, hfree, hcard, hk]
  omega

lemma releasePageFromHeap {r : Nat} (h : Held s (pg :: pages)) (km : KernelMap s.ram s.dir)
    (e : Creeks.releasePageFromHeap s pg.vAddr = .ok (s', r)) : Takes (-1) s s' := by
  have hpg := h.held pg List.mem_cons_self
  obtain ⟨f, hf, hfr, hlo, hused, hp⟩ := hpg.frameOf
  obtain ⟨f', hf', -, hhi, -⟩ := hpg.frame
  obtain ⟨h1, h2, h3⟩ := PageHeap.drop km hpg.page hp (by omega)
  rw [Creeks.releasePageFromHeap, h1, ok_bind, if_neg h2, h3, ok_bind] at e
  have dropped : Takes (-1) s (pageDropped s pg.vAddr s.kernFreeVm) := by
    refine release_frame (f := f) (by simp only [RAM_MAXPAGE]; omega) hused ?_ rfl (.of_eq rfl rfl)
    rw [pageDropped_memBitmap, hfr]
  exact dropped.trans (.mergePage e)

lemma releaseTables {tables : List Page} (h : Frames s (tables ++ kernel) users) (km : KernelMap s.ram s.dir)
    (e : Creeks.releaseTables tables s = .ok s') : Takes (-tables.length) s s' := by
  induction tables generalizing s with
  | nil =>
    cases e
    exact .refl _
  | cons pg l ih =>
    obtain ⟨⟨s1, r⟩, hr, e⟩ := bind_ok.1 e
    obtain ⟨s2, hf, e⟩ := bind_ok.1 e
    have taken := Takes.releasePageFromHeap h.held km hr
    obtain ⟨mem, used, rfl⟩ := kfree_frame hf
    have first : Frames.TakenBack s (s1.withHeap mem used) (l ++ kernel) users :=
      Frames.TakenBack.withHeap (Frames.release h km hr) mem used
    refine ((taken.trans (.withHeap _ mem used)).trans (ih first.frames (first.map km) e)).cast ?_
    rw [List.length_cons]
    omega

/-- `pd_destroy` gives back the pages of the directory. -/
lemma pdDestroy (h : Frames s (pd.pages ++ kernel) users) (km : KernelMap s.ram s.dir)
    (e : Creeks.pdDestroy s pd = .ok s') : Takes (-pd.pages.length) s s' := by
  obtain ⟨s1, ht, e⟩ := bind_ok.1 e
  obtain ⟨⟨s2, r⟩, hr, e⟩ := bind_ok.1 e
  have hperm : Frames s (pd.pt ++ pd.base :: kernel) users :=
    h.subperm (@List.perm_middle _ _ pd.pt _).subperm (List.Subperm.refl _)
  have first := hperm.tables km ht
  have given := Takes.releasePageFromHeap first.frames.held (first.map km) hr
  refine (((Takes.releaseTables hperm km ht).trans given).trans (.kfree e)).cast ?_
  rw [PageDirectory.pages, List.length_cons]
  omega

/-- `release_page_frame` of a user page gives its frame back. -/
lemma drop (h : Frames s kernel (pg :: users)) :
    Takes (-1) s { s with memBitmap := releasePageFrame s.memBitmap pg.pAddr } := by
  obtain ⟨f, hf, -, hhi, hused⟩ := h.used pg List.mem_cons_self
  refine release_frame (f := f) hhi hused ?_ rfl (.of_eq rfl rfl)
  rw [hf]

end Takes

end Creeks
