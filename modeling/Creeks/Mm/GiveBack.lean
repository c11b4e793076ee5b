import Creeks.Mm.UserMap

/-!
# Frames given back

`release_page_from_heap` and `release_page_frame` free the frame of the page they are given and no other,
so that the frames of all the other pages stay in use when the page tables of a process are destroyed.
-/

namespace Creeks
open Lib

/-- The words of some pages are the same. -/
def Spared (ram ram' : Nat → Nat → Nat) (pages : List Page) : Prop :=
  ∀ pg ∈ pages, ∀ i, ram' (pg.pAddr / 4096) i = ram (pg.pAddr / 4096) i

namespace Spared

variable {r1 r2 r3 : Nat → Nat → Nat} {pages pages' : List Page}

lemma refl (ram : Nat → Nat → Nat) (pages : List Page) : Spared ram ram pages := fun _ _ _ => rfl

lemma trans (h : Spared r1 r2 pages) (h' : Spared r2 r3 pages) : Spared r1 r3 pages :=
  fun pg hpg i => (h' pg hpg i).trans (h pg hpg i)

lemma subset (h : Spared r1 r2 pages) (hsub : pages' ⊆ pages) : Spared r1 r2 pages' :=
  fun pg hpg => h pg (hsub hpg)

end Spared

/-- A page taken back leaves the other frames in use. -/
lemma Held.release_used {s s' : Mm} {pg : Page} {pages : List Page} {r q : Nat} (h : Held s (pg :: pages))
    (km : KernelMap s.ram s.dir) (e : releasePageFromHeap s pg.vAddr = .ok (s', r))
    (hq : frameUsed s.memBitmap q = true) (hne : q ≠ pg.pAddr / 4096) : frameUsed s'.memBitmap q = true := by
  have hpg := h.held pg List.mem_cons_self
  obtain ⟨f, hf, hfr, hlo, -, hp⟩ := hpg.frameOf
  obtain ⟨areas', head, grows, -⟩ := releasePageFromHeap_frame km h.areas h.lower h.upper hpg.page
    hpg.taken hp (by omega) e
  refine grows.used ?_
  have hqf : q ≠ f := by omega
  rw [withVm_memBitmap, pageDropped_memBitmap, frameUsed_release, hfr, Nat.mul_div_cancel _ (by decide), hq,
    decide_eq_false hqf]
  rfl

namespace Frames

variable {s s' : Mm} {kernel users pages : List Page} {pg : Page} {pd : PageDirectory} {r : Nat}

/-- What is kept when the kernel takes pages back. -/
structure TakenBack (s s' : Mm) (kernel users : List Page) : Prop where
  frames : Frames s' kernel users
  cr3 : s'.cr3 = s.cr3
  outside : SameOutside s.ram s'.ram

lemma TakenBack.dir (h : TakenBack s s' kernel users) : s'.dir = s.dir := by
  rw [Mm.dir, Mm.dir, h.cr3]

lemma TakenBack.map (h : TakenBack s s' kernel users) (km : KernelMap s.ram s.dir) :
    KernelMap s'.ram s'.dir :=
  h.dir ▸ km.sameOutside h.outside

lemma TakenBack.withHeap (h : TakenBack s s' kernel users) (mem : Mem) (used : Nat) :
    TakenBack s (s'.withHeap mem used) kernel users := by
  refine ⟨h.frames.grows (.heap s' mem used), ?_, ?_⟩
  · rw [withHeap_cr3]
    exact h.cr3
  · rw [withHeap_ram]
    exact h.outside

lemma release (h : Frames s (pg :: kernel) users) (km : KernelMap s.ram s.dir)
    (e : releasePageFromHeap s pg.vAddr = .ok (s', r)) : TakenBack s s' kernel users := by
  obtain ⟨held, hcr3, hout⟩ := h.held.release km e
  refine ⟨⟨held, h.nodup, fun u hu => ?_, fun u hu kp hkp => h.apart u hu kp (List.mem_cons_of_mem _ hkp)⟩,
    hcr3, hout⟩
  obtain ⟨f, hf, hlo, hhi, hused⟩ := h.used u hu
  have hne := h.frame_ne hu List.mem_cons_self
  exact ⟨f, hf, hlo, hhi, h.held.release_used km e hused (by omega)⟩

lemma tables {tables : List Page} (h : Frames s (tables ++ kernel) users) (km : KernelMap s.ram s.dir)
    (e : releaseTables tables s = .ok s') : TakenBack s s' kernel users := by
  induction tables generalizing s with
  | nil =>
    cases e
    exact ⟨h, rfl, fun _ _ _ => rfl⟩
  | cons pg l ih =>
    obtain ⟨⟨s1, r⟩, hr, e⟩ := bind_ok.1 e
    obtain ⟨s2, hf, e⟩ := bind_ok.1 e
    obtain ⟨mem, used, rfl⟩ := kfree_frame hf
    have first : TakenBack s (s1.withHeap mem used) (l ++ kernel) users :=
      TakenBack.withHeap (Frames.release h km hr) mem used
    have rest := ih first.frames (first.map km) e
    exact ⟨rest.frames, rest.cr3.trans first.cr3, first.outside.trans rest.outside⟩

/-- `pd_destroy` frees the frames of a directory and its tables. -/
lemma destroy (h : Frames s (pd.pages ++ kernel) users) (km : KernelMap s.ram s.dir)
    (e : pdDestroy s pd = .ok s') : TakenBack s s' kernel users := by
  obtain ⟨s1, ht, e⟩ := bind_ok.1 e
  obtain ⟨⟨s2, r⟩, hr, e⟩ := bind_ok.1 e
  obtain ⟨mem, used, rfl⟩ := kfree_frame e
  have hperm : Frames s (pd.pt ++ pd.base :: kernel) users :=
    h.subperm (@List.perm_middle _ _ pd.pt _).subperm (List.Subperm.refl _)
  have first := hperm.tables km ht
  have second := first.frames.release (first.map km) hr
  exact TakenBack.withHeap ⟨second.frames, second.cr3.trans first.cr3, first.outside.trans second.outside⟩
    mem used

/-- The frame of a user page is freed. -/
lemma drop (h : Frames s kernel (pg :: users)) :
    Frames { s with memBitmap := releasePageFrame s.memBitmap pg.pAddr } kernel users := by
  have hnodup := List.nodup_cons.1 h.nodup
  obtain ⟨hlo, -, hpage⟩ := h.user_frame List.mem_cons_self
  have kept : ∀ q, frameUsed s.memBitmap q = true → q ≠ pg.pAddr / 4096 →
      frameUsed (releasePageFrame s.memBitmap pg.pAddr) q = true := fun q hq hne => by
    rw [frameUsed_release, hq, decide_eq_false hne]
    rfl
  refine ⟨⟨h.held.areas, h.held.lower, h.held.upper, fun q hq => ?_, h.held.addresses, h.held.frames,
    fun kp hkp => ?_⟩, hnodup.2, fun u hu => ?_, fun u hu => h.apart u (List.mem_cons_of_mem _ hu)⟩
  · by_cases hqf : q = pg.pAddr / 4096
    · omega
    · refine h.held.free q (Bool.eq_false_iff.2 fun hused => ?_)
      exact Bool.eq_false_iff.1 hq (kept q hused hqf)
  · obtain ⟨h1, h2, h3, f, h4, h5, h6, h7⟩ := h.held.held kp hkp
    have hne := h.frame_ne List.mem_cons_self hkp
    exact ⟨h1, h2, h3, f, h4, h5, h6, kept f h7 (by omega)⟩
  · obtain ⟨f, hf, h1, h2, hused⟩ := h.used u (List.mem_cons_of_mem _ hu)
    refine ⟨f, hf, h1, h2, kept f hused fun hfp => ?_⟩
    exact hnodup.1 (List.mem_map.2 ⟨u, hu, by omega⟩)

end Frames

end Creeks
