import Creeks.Mm.SharedHalf

/-!
# User pages

The user half of a page directory. `UserMap` says what the directory and its tables contain: every
present entry of the directory designates a table of the process, and every present entry of such a
table a page of its `pglist`. `Frames` says that the pages handed out and the user pages of all
processes have frames of their own, which are in use.

`isr_PF_exc` keeps both while `get_page_frame` does not fail and no table is put in service with its
first word left present: the flags `oom` and `stale` stay down.
-/

namespace Creeks
open Lib

/-- The pages handed out and the user pages have frames of their own. -/
structure Frames (s : Mm) (kernel users : List Page) : Prop where
  held : Held s kernel
  nodup : (users.map Page.pAddr).Nodup
  used : ∀ pg ∈ users, ∃ f, pg.pAddr = f * 4096 ∧ 2048 ≤ f ∧ f < 1048576 ∧
    frameUsed s.memBitmap f = true
  apart : ∀ pg ∈ users, ∀ kp ∈ kernel, kp.pAddr ≠ pg.pAddr

/-- What a directory and its tables contain. -/
structure UserMap (ram : Nat → Nat → Nat) (pd : PageDirectory) (pages : List Page) : Prop where
  kernel : KernelMap ram pd.frame
  tables : ∀ i, 256 ≤ i → i < 1023 → (ram pd.frame i).testBit 0 = true →
    (ram pd.frame i).testBit 7 = false ∧ ∃ pg ∈ pd.pt, frameOf (ram pd.frame i) = pg.pAddr / 4096
  apart : ∀ i j, 256 ≤ i → i < 1023 → 256 ≤ j → j < 1023 → (ram pd.frame i).testBit 0 = true →
    (ram pd.frame j).testBit 0 = true → frameOf (ram pd.frame i) = frameOf (ram pd.frame j) → i = j
  mapped : ∀ i j, 256 ≤ i → i < 1023 → j < 1024 → (ram pd.frame i).testBit 0 = true →
    (ram (frameOf (ram pd.frame i)) j).testBit 0 = true →
    ∃ pg ∈ pages, pg.vAddr = i * 4194304 + j * 4096 ∧
      frameOf (ram (frameOf (ram pd.frame i)) j) = pg.pAddr / 4096

/-! ## Frames -/

section Fresh

variable {s s' : Mm} {pg : Page} {pd : PageDirectory} {v flags : Nat} {pages : List Page}

/-- A page has been handed out in a frame that was free, and no frame has been given back. -/
structure FreshPage (s s' : Mm) (pg : Page) : Prop where
  fresh : ∃ f, pg.pAddr = f * 4096 ∧ f < 1048576 ∧ frameUsed s.memBitmap f = false
  mono : ∀ q, frameUsed s.memBitmap q = true → frameUsed s'.memBitmap q = true

lemma Held.get_fresh (h : Held s pages) (km : KernelMap s.ram s.dir)
    (e : getPageFromHeap s = .ok (s', pg)) (hoom : s'.oom = false) : FreshPage s s' pg := by
  obtain ⟨area, rest, -, -, hp, grows⟩ := getPageFromHeap_frame km h.areas h.lower h.upper e
  rcases getPageFrame_cases s with ⟨f, hlt, hfree, hframe⟩ | hframe
  · refine ⟨⟨f, by rw [hp, hframe], hlt, hfree⟩, fun q hq => grows.used ?_⟩
    rw [pageTaken_memBitmap]
    exact getPageFrame_used hq
  · have htaken : (pageTaken s area.vmStart (eatFirst area rest)).oom = true := by
      change (getPageFrame s).1.oom = true
      rw [hframe]
    rw [grows.fields.2.2.2.2.2 htaken] at hoom
    cases hoom

lemma Held.table_fresh (h : Held s pages) (km : KernelMap s.ram s.dir)
    (e : newTable s v flags = .ok (s', pg)) (hoom : s'.oom = false) : FreshPage s s' pg := by
  obtain ⟨s1, ram, left, hg, rfl⟩ := newTable_ok e
  obtain ⟨fresh, mono⟩ := h.get_fresh km hg hoom
  exact ⟨fresh, mono⟩

lemma Held.create_fresh (h : Held s pages) (km : KernelMap s.ram s.dir)
    (e : pdCreate s = .ok (s', pd)) (hoom : s'.oom = false) : FreshPage s s' pd.base := by
  obtain ⟨s1, s2, ram, hk, hg, -, rfl⟩ := pdCreate_ok e
  have grows := kmalloc_frame km h.lower h.upper (by decide) hk
  have hdir : s1.dir = s.dir := by rw [Mm.dir, Mm.dir, grows.fields.2.2.1]
  obtain ⟨⟨f, hf, hlt, hfree⟩, mono⟩ :=
    (h.grows grows).get_fresh (hdir ▸ grows.map km h.lower) hg hoom
  refine ⟨⟨f, hf, hlt, Spare.used_free (fun _ => grows.used) hfree⟩, fun q hq => ?_⟩
  exact mono q (grows.used hq)

end Fresh

namespace Frames

variable {s s' : Mm} {kernel kernel' users users' : List Page} {pg : Page}

/-- The kernel pages are kept some other way, and no frame has been given back. -/
lemma keep (h : Frames s kernel users) (held : Held s' kernel)
    (mono : ∀ q, frameUsed s.memBitmap q = true → frameUsed s'.memBitmap q = true) :
    Frames s' kernel users := by
  refine ⟨held, h.nodup, fun pg hpg => ?_, h.apart⟩
  obtain ⟨f, hf, hlo, hhi, hused⟩ := h.used pg hpg
  exact ⟨f, hf, hlo, hhi, mono f hused⟩

lemma grows (h : Frames s kernel users) (grows : Grows s s') : Frames s' kernel users :=
  h.keep (h.held.grows grows) fun _ => grows.used

/-- One more kernel page. -/
lemma cons (h : Frames s kernel users) (held : Held s' (pg :: kernel)) (fresh : FreshPage s s' pg) :
    Frames s' (pg :: kernel) users := by
  obtain ⟨f, hf, -, hfree⟩ := fresh.fresh
  have hold := h.keep (held.subperm (List.sublist_cons_self pg kernel).subperm) fresh.mono
  refine ⟨held, h.nodup, hold.used, fun u hu kp hkp => ?_⟩
  cases hkp with
  | head =>
    intro e
    obtain ⟨f', hf', -, -, hused⟩ := h.used u hu
    have hff : f' = f := by omega
    rw [hff, hfree] at hused
    cases hused
  | tail _ hkp => exact h.apart u hu kp hkp

/-- One more user page. -/
lemma user (h : Frames s kernel users) (hoom : (getPageFrame s).1.oom = false)
    (hp : pg.pAddr = (getPageFrame s).2) : Frames (getPageFrame s).1 kernel (pg :: users) := by
  have mono : ∀ q, frameUsed s.memBitmap q = true →
      frameUsed (getPageFrame s).1.memBitmap q = true := fun q => getPageFrame_used
  obtain ⟨bitmap, oom, hrec, -⟩ := getPageFrame_frame s
  have held : Held (getPageFrame s).1 kernel := by
    refine h.held.congr ?_ ?_ ?_ mono fun v _ => ?_
    · rw [hrec]
    · rw [hrec]
      exact h.held.lower
    · rw [hrec]
      exact h.held.upper
    · rw [hrec]
  have hold := h.keep held mono
  rcases getPageFrame_cases s with ⟨f, hlt, hfree, hframe⟩ | hframe
  · have hpf : pg.pAddr = f * 4096 := by rw [hp, hframe]
    have hne : ∀ q, frameUsed s.memBitmap q = true → q ≠ f := by
      rintro q hq rfl
      rw [hfree] at hq
      cases hq
    refine ⟨held, ?_, fun u hu => ?_, fun u hu kp hkp => ?_⟩
    · rw [List.map_cons, List.nodup_cons]
      refine ⟨fun hmem => ?_, h.nodup⟩
      obtain ⟨u, hu, e⟩ := List.mem_map.1 hmem
      obtain ⟨f', hf', -, -, hused⟩ := h.used u hu
      exact hne f' hused (by omega)
    · cases hu with
      | head =>
        refine ⟨f, hpf, h.held.free f hfree, hlt, ?_⟩
        rw [hframe]
        change frameUsed (setPageFrameUsed _ f) f = true
        rw [frameUsed_set]
        simp
      | tail _ hu => exact hold.used u hu
    · cases hu with
      | head =>
        obtain ⟨f', hf', -, -, hused⟩ := (h.held.held kp hkp).frame
        intro e
        exact hne f' hused (by omega)
      | tail _ hu => exact h.apart u hu kp hkp
  · rw [hframe] at hoom
    cases hoom

/-- Fewer pages, in any order. -/
lemma subperm (h : Frames s kernel users) (hk : List.Subperm kernel' kernel)
    (hu : List.Subperm users' users) : Frames s kernel' users' := by
  refine ⟨h.held.subperm hk, ?_, fun pg hpg => h.used pg (hu.subset hpg), fun pg hpg kp hkp =>
    h.apart pg (hu.subset hpg) kp (hk.subset hkp)⟩
  obtain ⟨l, hl, hs⟩ := hu
  exact (hl.map _).nodup_iff.1 ((hs.map _).nodup h.nodup)

/-- Writes to frames outside `pg1`. -/
lemma ram {ram' : Nat → Nat → Nat} (h : Frames s kernel users)
    (hram : ∀ f i, 1024 ≤ f → f < 1280 → ram' f i = s.ram f i) :
    Frames { s with ram := ram' } kernel users :=
  h.keep (h.held.ram hram) fun _ => id

/-- The frame of a kernel page. -/
lemma kernel_frame (h : Frames s kernel users) (hpg : pg ∈ kernel) :
    2048 ≤ pg.pAddr / 4096 ∧ pg.pAddr / 4096 < 1048576 ∧ pg.pAddr = pg.pAddr / 4096 * 4096 := by
  obtain ⟨f, hf, hlo, hhi, -⟩ := (h.held.held pg hpg).frame
  omega

/-- The frame of a user page. -/
lemma user_frame (h : Frames s kernel users) (hpg : pg ∈ users) :
    2048 ≤ pg.pAddr / 4096 ∧ pg.pAddr / 4096 < 1048576 ∧ pg.pAddr = pg.pAddr / 4096 * 4096 := by
  obtain ⟨f, hf, hlo, hhi, -⟩ := h.used pg hpg
  omega

/-- The frame of a user page is not that of a kernel page. -/
lemma frame_ne (h : Frames s kernel users) (hpg : pg ∈ users) {kp : Page} (hkp : kp ∈ kernel) :
    kp.pAddr / 4096 ≠ pg.pAddr / 4096 := by
  obtain ⟨-, -, h1⟩ := h.user_frame hpg
  obtain ⟨-, -, h2⟩ := h.kernel_frame hkp
  intro e
  apply h.apart pg hpg kp hkp
  rw [h1, h2, e]

/-- A frame that is free is not that of a kernel page. -/
lemma free_ne {f : Nat} (h : Frames s kernel users) (hf : frameUsed s.memBitmap f = false)
    (hpg : pg ∈ kernel) : pg.pAddr / 4096 ≠ f := by
  obtain ⟨f', hf', -, -, hused⟩ := (h.held.held pg hpg).frame
  rintro rfl
  rw [hf', Nat.mul_div_cancel _ (by decide), hused] at hf
  cases hf

end Frames

/-- The kernel half of a directory and its last entry. -/
lemma KernelMap.congr_user {ram ram' : Nat → Nat → Nat} {d : Nat} (km : KernelMap ram d)
    (h : ∀ j, j < 256 ∨ j = 1023 → ram' d j = ram d j) : KernelMap ram' d where
  self := by
    have h1023 := h 1023 (.inr rfl)
    exact ⟨h1023 ▸ km.self.present, h1023 ▸ km.self.small, h1023 ▸ km.self.frame⟩
  page0 := (h 0 (.inl (by decide))).trans km.page0
  page1 := (h 1 (.inl (by decide))).trans km.page1
  tables := fun i h1 h2 => (h i (.inl h2)).trans (km.tables i h1 h2)
  outside := km.outside

/-! ## One more page -/

/-- The page tables of the directory in frame `d` with one more page: entry `j` of the table in entry
`i` designates frame `f`. The table is new or it was there. -/
structure Entered (ram ram' : Nat → Nat → Nat) (d i j f : Nat) : Prop where
  dir : ∀ k, k ≠ i → ram' d k = ram d k
  table : (ram' d i).testBit 0 = true ∧ (ram' d i).testBit 7 = false
  others : ∀ k, k ≠ i → 256 ≤ k → k < 1023 → (ram d k).testBit 0 = true →
    frameOf (ram d k) ≠ frameOf (ram' d i) ∧
      ∀ l, ram' (frameOf (ram d k)) l = ram (frameOf (ram d k)) l
  entry : (ram' (frameOf (ram' d i)) j).testBit 0 = true ∧
    frameOf (ram' (frameOf (ram' d i)) j) = f
  rest : ∀ l, l ≠ j → l < 1024 →
    ram' d i = ram d i ∧ ram' (frameOf (ram d i)) l = ram (frameOf (ram d i)) l ∨
      (ram d i).testBit 0 = false ∧ (ram' (frameOf (ram' d i)) l).testBit 0 = false

namespace Entered

variable {ram ram' : Nat → Nat → Nat} {d i j f a : Nat}

/-- The addresses of the new page are translated to its frame. -/
lemma walk_same (h : Entered ram ram' d i j f) (hi : a / 4194304 = i) (hj : a / 4096 % 1024 = j) :
    walk ram' d a = some (f * 4096 + a % 4096) := by
  obtain ⟨hp, hs⟩ := h.table
  obtain ⟨he, hf⟩ := h.entry
  unfold walk
  simp only [hi, hj]
  rw [if_pos hp, hs, if_neg (by decide), if_pos he, hf]

/-- The other addresses are translated as before. -/
lemma walk_other (h : Entered ram ram' d i j f) (hlo : 256 ≤ a / 4194304) (hhi : a / 4194304 < 1023)
    (hne : a / 4194304 ≠ i ∨ a / 4096 % 1024 ≠ j) : walk ram' d a = walk ram d a := by
  unfold walk
  by_cases hi : a / 4194304 = i
  · simp only [hi]
    rcases h.rest (a / 4096 % 1024) (hne.resolve_left (not_not.2 hi)) (Nat.mod_lt _ (by decide)) with
      ⟨e, hword⟩ | ⟨hp, hword⟩
    · rw [e, hword]
    · rw [hp, if_pos h.table.1, h.table.2, if_neg (by decide), hword]
      rfl
  · simp only [h.dir _ hi]
    by_cases hp : (ram d (a / 4194304)).testBit 0 = true
    · rw [(h.others _ hi hlo hhi hp).2]
    · rw [if_neg hp, if_neg hp]

end Entered

namespace UserMap

variable {ram ram' : Nat → Nat → Nat} {pd pd' : PageDirectory} {pages : List Page} {pg : Page}
  {i j : Nat}

/-- A page is entered in the tables of a directory. -/
lemma enter (h : UserMap ram pd pages) (hlo : 256 ≤ i) (hhi : i < 1023)
    (hd : pd'.frame = pd.frame) (ht : pd.pt ⊆ pd'.pt) (e : Entered ram ram' pd.frame i j (pg.pAddr / 4096))
    (hnew : ∃ t ∈ pd'.pt, frameOf (ram' pd.frame i) = t.pAddr / 4096)
    (hv : pg.vAddr = i * 4194304 + j * 4096) : UserMap ram' pd' (pg :: pages) := by
  have old : ∀ k, k ≠ i → 256 ≤ k → k < 1023 → (ram' pd.frame k).testBit 0 = true →
      (ram pd.frame k).testBit 0 = true := fun k hk _ _ hp => by rwa [e.dir k hk] at hp
  refine ⟨?_, fun k h1 h2 hp => ?_, fun k l h1 h2 h3 h4 hp hq hf => ?_, fun k l h1 h2 h3 hp hq => ?_⟩
  · rw [hd]
    exact h.kernel.congr_user fun k hk => e.dir k (by omega)
  · rw [hd] at hp ⊢
    by_cases hk : k = i
    · rw [hk]
      exact ⟨e.table.2, hnew⟩
    · obtain ⟨hs, t, hmem, hf⟩ := h.tables k h1 h2 (old k hk h1 h2 hp)
      rw [e.dir k hk]
      exact ⟨hs, t, ht hmem, hf⟩
  · rw [hd] at hp hq hf
    by_cases hk : k = i
    · by_cases hl : l = i
      · rw [hk, hl]
      · rw [hk, e.dir l hl] at hf
        exact absurd hf.symm (e.others l hl h3 h4 (old l hl h3 h4 hq)).1
    · by_cases hl : l = i
      · rw [hl, e.dir k hk] at hf
        exact absurd hf (e.others k hk h1 h2 (old k hk h1 h2 hp)).1
      · rw [e.dir k hk, e.dir l hl] at hf
        exact h.apart k l h1 h2 h3 h4 (old k hk h1 h2 hp) (old l hl h3 h4 hq) hf
  · rw [hd] at hp hq ⊢
    by_cases hk : k = i
    · rw [hk] at hp hq h1 h2 ⊢
      by_cases hl : l = j
      · rw [hl]
        exact ⟨pg, List.mem_cons_self, hv, e.entry.2⟩
      · rcases e.rest l hl h3 with ⟨hsame, hword⟩ | ⟨-, hword⟩
        · rw [hsame] at hp hq ⊢
          rw [hword] at hq ⊢
          obtain ⟨pg', hmem, hfr⟩ := h.mapped i l h1 h2 h3 hp hq
          exact ⟨pg', List.mem_cons_of_mem _ hmem, hfr⟩
        · rw [hword] at hq
          cases hq
    · have hp' := old k hk h1 h2 hp
      rw [e.dir k hk, (e.others k hk h1 h2 hp').2] at hq ⊢
      obtain ⟨pg', hmem, hfr⟩ := h.mapped k l h1 h2 h3 hp' hq
      exact ⟨pg', List.mem_cons_of_mem _ hmem, hfr⟩

/-- A directory and its tables only depend on their own frames. -/
lemma congr (h : UserMap ram pd pages) (hd : ∀ k, ram' pd.frame k = ram pd.frame k)
    (ht : ∀ t ∈ pd.pt, ∀ k, ram' (t.pAddr / 4096) k = ram (t.pAddr / 4096) k) :
    UserMap ram' pd pages := by
  have hword : ∀ i, 256 ≤ i → i < 1023 → (ram pd.frame i).testBit 0 = true → ∀ j,
      ram' (frameOf (ram pd.frame i)) j = ram (frameOf (ram pd.frame i)) j := by
    intro i h1 h2 hp j
    obtain ⟨-, t, hmem, hf⟩ := h.tables i h1 h2 hp
    rw [hf]
    exact ht t hmem j
  refine ⟨h.kernel.congr hd, fun i h1 h2 hp => ?_, fun i j h1 h2 h3 h4 hp hq hf => ?_,
    fun i j h1 h2 h3 hp hq => ?_⟩
  · rw [hd] at hp ⊢
    exact h.tables i h1 h2 hp
  · rw [hd] at hp hq hf
    rw [hd] at hf
    exact h.apart i j h1 h2 h3 h4 hp hq hf
  · rw [hd] at hp hq ⊢
    rw [hword i h1 h2 hp j] at hq ⊢
    exact h.mapped i j h1 h2 h3 hp hq

/-- A new directory maps nothing in user space. -/
lemma create {p : Nat} (km : KernelMap ram 1) (hp : p = pd.frame * 4096) (hlo : 2048 ≤ pd.frame)
    (hlt : pd.frame < 1048576) : UserMap (newDir ram pd.frame p) pd [] := by
  have empty : ∀ i, 256 ≤ i → i < 1023 → (newDir ram pd.frame p pd.frame i).testBit 0 = false := by
    intro i h1 h2
    rw [newDir_user h1 h2]
    rfl
  refine ⟨newDir_map km (by omega) (by omega) hlo ?_, fun i h1 h2 hq => ?_,
    fun i j h1 h2 h3 h4 hq => ?_, fun i j h1 h2 h3 hq => ?_⟩
  · rw [hp, show pd.frame * 4096 = 2 ^ 12 * pd.frame by omega, Nat.testBit_two_pow_mul]
    rfl
  all_goals
    rw [empty i h1 h2] at hq
    cases hq

end UserMap

/-- What `pd_add_page` does for a page of the process whose directory is loaded. -/
structure PageAdded (s s' : Mm) (pd pd' : PageDirectory) (pg : Page) : Prop where
  entered : Entered s.ram s'.ram pd.frame (pg.vAddr / 4194304) (pg.vAddr / 4096 % 1024)
    (pg.pAddr / 4096)
  base : pd'.base = pd.base
  tables : pd.pt ⊆ pd'.pt
  table : ∃ t ∈ pd'.pt, frameOf (s'.ram pd.frame (pg.vAddr / 4194304)) = t.pAddr / 4096
  cr3 : s'.cr3 = s.cr3
  used : ∀ q, frameUsed s.memBitmap q = true → frameUsed s'.memBitmap q = true
  outside : ∀ f i, f < 1024 ∨ 2048 ≤ f → (∀ kp ∈ pd'.pages, kp.pAddr / 4096 ≠ f) →
    s'.ram f i = s.ram f i

namespace Frames

variable {s s' : Mm} {kernel users pages : List Page} {pg : Page} {pd pd' : PageDirectory}

/-- Two kernel pages at different places have different frames. -/
lemma pages_ne (h : Frames s (pd.pages ++ kernel) users) {t : Page} (ht : t ∈ pd.pt) :
    t.pAddr / 4096 ≠ pd.frame := by
  have held : Held s (pd.base :: (pd.pt ++ kernel)) := h.held
  exact held.frame_ne (List.mem_append_left _ ht)

/-- `pd_add_page` when the table of the page is there. -/
lemma addPresent {w : Nat} (h : Frames s (pd.pages ++ kernel) users) (map : UserMap s.ram pd pages)
    (hlo : 256 ≤ pg.vAddr / 4194304) (hhi : pg.vAddr / 4194304 < 1023)
    (hp : (s.ram pd.frame (pg.vAddr / 4194304)).testBit 0 = true) (hw : w.testBit 0 = true)
    (hfr : frameOf w = pg.pAddr / 4096)
    (hs : s' = { s with
      ram := setWord s.ram (frameOf (s.ram pd.frame (pg.vAddr / 4194304)))
        (pg.vAddr / 4096 % 1024) w }) :
    PageAdded s s' pd pd pg ∧ Frames s' (pd.pages ++ kernel) users := by
  obtain ⟨hsmall, t, ht, hf⟩ := map.tables _ hlo hhi hp
  have htd : frameOf (s.ram pd.frame (pg.vAddr / 4194304)) ≠ pd.frame := hf ▸ h.pages_ne ht
  obtain ⟨h2048, -, -⟩ := h.kernel_frame (List.mem_append_left _ (List.mem_cons_of_mem _ ht))
  have hdir : ∀ k, s'.ram pd.frame k = s.ram pd.frame k := fun k => by
    rw [hs]
    exact setWord_other (.inl htd.symm)
  refine ⟨⟨⟨fun k _ => hdir k, ?_, fun k hk h1 h2 hq => ?_, ?_, fun l hl _ => ?_⟩, rfl,
    fun _ => id, ?_, ?_, fun q hq => ?_, fun f i _ hf' => ?_⟩, ?_⟩
  · rw [hdir]
    exact ⟨hp, hsmall⟩
  · rw [hdir]
    have hne : frameOf (s.ram pd.frame k) ≠ frameOf (s.ram pd.frame (pg.vAddr / 4194304)) :=
      fun e => hk (map.apart k _ h1 h2 hlo hhi hq hp e)
    refine ⟨hne, fun l => ?_⟩
    rw [hs]
    exact setWord_other (.inl hne)
  · rw [hdir, hs]
    simp only [setWord_same]
    exact ⟨hw, hfr⟩
  · left
    refine ⟨hdir _, ?_⟩
    rw [hs]
    exact setWord_other (.inr hl)
  · rw [hdir]
    exact ⟨t, ht, hf⟩
  · rw [hs]
  · rwa [hs]
  · rw [hs]
    exact setWord_other (.inl fun e => hf' t (List.mem_cons_of_mem _ ht) (hf.symm.trans e.symm))
  · rw [hs]
    exact h.ram fun f i h1 h2 => setWord_other (.inl (by omega))

/-- A new table is entered in the directory, which can then be used to write in the table. -/
lemma newTable_entry {s1 : Mm} {t : Page} {v : Nat} (h : Frames s (pd.pages ++ kernel) users)
    (map : UserMap s.ram pd pages) (hcr3 : s.cr3 = pd.base.pAddr) (hlo : 256 ≤ v / 4194304)
    (hhi : v / 4194304 < 1023) (e : newTable s v PG_USER = .ok (s1, t)) (hoom : s1.oom = false) :
    s1.ram pd.frame (v / 4194304) = t.pAddr ||| (PG_PRESENT ||| PG_WRITE ||| PG_USER) ∧
      frameOf (t.pAddr ||| (PG_PRESENT ||| PG_WRITE ||| PG_USER)) = t.pAddr / 4096 ∧
      (∀ k, k ≠ v / 4194304 → s1.ram pd.frame k = s.ram pd.frame k) ∧
      KernelMap s1.ram pd.frame ∧
      ∀ w, writeWord s1 (pteAddr v) w =
        .ok { s1 with ram := setWord s1.ram (t.pAddr / 4096) (v / 4096 % 1024) w } := by
  have hdir : s.dir = pd.frame := SpaceInv.dir_of_cr3 hcr3
  have hbase : pd.base ∈ pd.pages ++ kernel := List.mem_append_left _ List.mem_cons_self
  obtain ⟨held, hcr3', ram, hout, hram, -⟩ := h.held.table (hdir ▸ map.kernel)
    (.inr ⟨_, hbase, hcr3⟩) (by omega) e hoom
  obtain ⟨f, hf, -, hlt, -⟩ := (held.held t List.mem_cons_self).frame
  have htd : pd.frame ≠ t.pAddr / 4096 := held.frame_ne hbase
  have h2048 : 2048 ≤ pd.frame := (h.kernel_frame hbase).1
  have hentry : frameOf (t.pAddr ||| (PG_PRESENT ||| PG_WRITE ||| PG_USER)) = t.pAddr / 4096 :=
    frameOf_entry (by omega) (by decide)
  rw [hdir] at hram
  have hpde : s1.ram pd.frame (v / 4194304) = t.pAddr ||| (PG_PRESENT ||| PG_WRITE ||| PG_USER) := by
    rw [hram, setWord_same]
  have hword : ∀ k, k ≠ v / 4194304 → s1.ram pd.frame k = s.ram pd.frame k := fun k hk => by
    rw [hram, setWord_other (.inr hk), setWords_other htd]
    exact hout _ _ (.inr h2048)
  have km : KernelMap s1.ram pd.frame := map.kernel.congr_user fun k hk => hword k (by omega)
  refine ⟨hpde, hentry, hword, km, fun w => ?_⟩
  have hdir1 : s1.dir = pd.frame := SpaceInv.dir_of_cr3 (hcr3'.trans hcr3)
  rw [writeWord_pte (hdir1 ▸ km.self) (by omega) (by
    rw [hdir1, hpde]
    exact entry_present _ _), hdir1, hpde, hentry]

/-- What the ghost `stale` says of a new table: the first word of its frame is not an entry, or it is the
one that is written. -/
lemma newTable_clean {s1 : Mm} {t : Page} {v : Nat} (h : Frames s (pd.pages ++ kernel) users)
    (map : UserMap s.ram pd pages) (hcr3 : s.cr3 = pd.base.pAddr) (hv : v < 4294967296)
    (e : newTable s v PG_USER = .ok (s1, t)) (hoom : s1.oom = false) (hstale : s1.stale = false)
    (hword : (s.ram (t.pAddr / 4096) 0).testBit 0 = true) : v / 4096 % 1024 = 0 := by
  have hdir : s.dir = pd.frame := SpaceInv.dir_of_cr3 hcr3
  have hbase : pd.base ∈ pd.pages ++ kernel := List.mem_append_left _ List.mem_cons_self
  obtain ⟨held, -, ram, hout, -, hclear⟩ := h.held.table (hdir ▸ map.kernel) (.inr ⟨_, hbase, hcr3⟩) hv e hoom
  obtain ⟨f, hf, hge, -⟩ := (held.held t List.mem_cons_self).frame
  exact hclear hstale (by rwa [hout _ _ (.inr (by omega))])

/-- `pd_add_page` when the page gets a new table. -/
lemma addTable {s1 : Mm} {t : Page} {w : Nat} (h : Frames s (pd.pages ++ kernel) users)
    (map : UserMap s.ram pd pages) (hcr3 : s.cr3 = pd.base.pAddr)
    (hlo : 256 ≤ pg.vAddr / 4194304) (hhi : pg.vAddr / 4194304 < 1023)
    (hnone : (s.ram pd.frame (pg.vAddr / 4194304)).testBit 0 = false) (hw : w.testBit 0 = true)
    (hfr : frameOf w = pg.pAddr / 4096) (e : newTable s pg.vAddr PG_USER = .ok (s1, t))
    (he : writeWord s1 (pteAddr pg.vAddr) w = .ok s') (hoom : s'.oom = false)
    (hclean : (s.ram (t.pAddr / 4096) 0).testBit 0 = true → pg.vAddr / 4096 % 1024 = 0) :
    PageAdded s s' pd { pd with pt := t :: pd.pt } pg ∧
      Frames s' (t :: (pd.pages ++ kernel)) users := by
  obtain ⟨_, hs⟩ := writeWord_frame he
  have hoom1 : s1.oom = false := by rw [← hoom, hs]
  obtain ⟨hpde, hentry, hword, -, hwrite⟩ := h.newTable_entry map hcr3 hlo hhi e hoom1
  rw [hwrite w] at he
  have hdir : s.dir = pd.frame := SpaceInv.dir_of_cr3 hcr3
  have hbase : pd.base ∈ pd.pages ++ kernel := List.mem_append_left _ List.mem_cons_self
  obtain ⟨held, hcr3', ram, hout, hram, -⟩ := h.held.table (hdir ▸ map.kernel)
    (.inr ⟨_, hbase, hcr3⟩) (by omega) e hoom1
  have fresh := h.held.table_fresh (hdir ▸ map.kernel) e hoom1
  have hframes := h.cons held fresh
  obtain ⟨hge, hlt, hpage⟩ := hframes.kernel_frame List.mem_cons_self
  have hne : ∀ kp ∈ pd.pages ++ kernel, kp.pAddr / 4096 ≠ t.pAddr / 4096 := fun kp hkp =>
    held.frame_ne hkp
  have htd : t.pAddr / 4096 ≠ pd.frame := (hne _ hbase).symm
  have hsmall : (t.pAddr ||| (PG_PRESENT ||| PG_WRITE ||| PG_USER)).testBit 7 = false := by
    rw [hpage, testBit_entry (by decide)]
    decide
  rw [hdir] at hram
  have hram' : s'.ram = setWord s1.ram (t.pAddr / 4096) (pg.vAddr / 4096 % 1024) w :=
    (congrArg Mm.ram (Except.ok.inj he)).symm
  have hcr3s : s'.cr3 = s1.cr3 := by rw [hs]
  -- the words of the directory, those of the new table, and the other frames
  have hd : ∀ k, s'.ram pd.frame k = s1.ram pd.frame k := fun k => by
    rw [hram']
    exact setWord_other (.inl htd.symm)
  have hother : ∀ f i, f < 1024 ∨ 2048 ≤ f → f ≠ t.pAddr / 4096 → f ≠ pd.frame →
      s'.ram f i = s.ram f i := by
    intro f i h1 h2 h3
    rw [hram', setWord_other (.inl h2), hram, setWord_other (.inl h3), setWords_other h2, hout f i h1]
  refine ⟨⟨⟨fun k hk => (hd k).trans (hword k hk), ?_, fun k hk h1 h2 hq => ?_, ?_,
    fun l hl h1 => .inr ⟨hnone, ?_⟩⟩, rfl, List.subset_cons_self _ _, ?_, hcr3s.trans hcr3',
    fun q hq => ?_, fun f i h1 hf => ?_⟩, ?_⟩
  · rw [hd, hpde]
    exact ⟨entry_present _ _, hsmall⟩
  · obtain ⟨-, t', ht', hf'⟩ := map.tables k h1 h2 hq
    have hmem : t' ∈ pd.pages ++ kernel := List.mem_append_left _ (List.mem_cons_of_mem _ ht')
    obtain ⟨hge', -, -⟩ := h.kernel_frame hmem
    rw [hd, hpde, hentry, hf']
    exact ⟨hne t' hmem, fun l => hother _ l (.inr hge') (hne t' hmem) (h.pages_ne ht')⟩
  · rw [hd, hpde, hentry, hram', setWord_same]
    exact ⟨hw, hfr⟩
  · rw [hd, hpde, hentry, hram', setWord_other (.inr hl), hram, setWord_other (.inl htd)]
    by_cases h0 : l = 0
    · rw [h0, setWords, if_neg (by omega)]
      by_contra hne
      rw [Bool.not_eq_false, hout _ _ (.inr hge)] at hne
      have := hclean hne
      omega
    · rw [setWords_same (by omega) (by omega)]
      rfl
  · rw [hd, hpde]
    exact ⟨t, List.mem_cons_self, hentry⟩
  · rw [hs]
    exact fresh.mono q hq
  · have hft : t.pAddr / 4096 ≠ f := hf t (List.mem_cons_of_mem _ List.mem_cons_self)
    have hfb : pd.frame ≠ f := hf pd.base List.mem_cons_self
    exact hother f i h1 hft.symm hfb.symm
  · rw [← Except.ok.inj he]
    exact hframes.ram fun f i h1 h2 => setWord_other (.inl (by omega))

/-- `pd_add_page` for a page of the process whose directory is loaded. -/
lemma addPage {flags : Nat} (h : Frames s (pd.pages ++ kernel) users) (map : UserMap s.ram pd pages)
    (hcr3 : s.cr3 = pd.base.pAddr) (hlo : USER_OFFSET ≤ pg.vAddr) (hhi : pg.vAddr < USER_STACK)
    (hp : pg.pAddr < 4294967296) (hflags : flags = PG_USER)
    (e : pdAddPage s pg.vAddr pg.pAddr flags (some pd) = .ok (s', some pd'))
    (hoom : s'.oom = false) (hstale : s'.stale = false) :
    PageAdded s s' pd pd' pg ∧ Frames s' (pd'.pages ++ kernel) users := by
  subst hflags
  simp only [USER_OFFSET, USER_STACK] at hlo hhi
  have hdir : s.dir = pd.frame := SpaceInv.dir_of_cr3 hcr3
  have km : KernelMap s.ram s.dir := hdir ▸ map.kernel
  have hw : (pg.pAddr ||| (PG_PRESENT ||| PG_WRITE ||| PG_USER)).testBit 0 = true :=
    entry_present _ _
  have hfr : frameOf (pg.pAddr ||| (PG_PRESENT ||| PG_WRITE ||| PG_USER)) = pg.pAddr / 4096 :=
    frameOf_entry hp (by decide)
  rw [pdAddPage, readWord_pde km.self (by omega), ok_bind, hdir] at e
  split at e
  case isTrue hnone =>
    obtain ⟨⟨s1, t⟩, ht, e⟩ := bind_ok.1 e
    obtain ⟨s2, he, e⟩ := bind_ok.1 e
    cases e
    obtain ⟨_, hs⟩ := writeWord_frame he
    have hclean := h.newTable_clean map hcr3 (by omega) ht (by rw [← hoom, hs]) (by rw [← hstale, hs])
    obtain ⟨added, hframes⟩ := h.addTable map hcr3 (by omega) (by omega)
      ((land_one_eq_zero _).1 hnone) hw hfr ht he hoom hclean
    refine ⟨added, hframes.subperm ?_ (List.Subperm.refl _)⟩
    exact (List.Perm.swap _ _ _).subperm
  case isFalse hpres =>
    obtain ⟨s2, he, e⟩ := bind_ok.1 e
    cases e
    rw [land_one_eq_zero, Bool.not_eq_false] at hpres
    rw [writeWord_pte km.self (by omega) (hdir ▸ hpres)] at he
    cases he
    exact h.addPresent map (by omega) (by omega) hpres hw hfr (by rw [hdir])

end Frames

/-! ## Page faults -/

/-- What a page fault at `a` does, `pg` being the page it has entered. -/
structure Faulted (s s' : Mm) (pd pd' : PageDirectory) (kernel users pages : List Page) (pg : Page)
    (a : Nat) : Prop where
  vAddr : pg.vAddr = a / 4096 * 4096
  frames : Frames s' (pd'.pages ++ kernel) (pg :: users)
  map : UserMap s'.ram pd' (pg :: pages)
  base : pd'.base = pd.base
  tables : pd.pt ⊆ pd'.pt
  cr3 : s'.cr3 = s.cr3
  used : ∀ q, frameUsed s.memBitmap q = true → frameUsed s'.memBitmap q = true
  same : ∀ b, b / 4096 = a / 4096 → walk s'.ram pd.frame b = some (pg.pAddr + b % 4096)
  other : ∀ b, USER_OFFSET ≤ b → b < USER_STACK → b / 4096 ≠ a / 4096 →
    walk s'.ram pd.frame b = walk s.ram pd.frame b
  outside : ∀ f i, f < 1024 ∨ 2048 ≤ f → (∀ kp ∈ pd'.pages, kp.pAddr / 4096 ≠ f) →
    s'.ram f i = s.ram f i

/-- A failure of `get_page_frame` during `pd_add_page` is not forgotten, nor is one before it. -/
lemma Held.addPage_oom {s s' : Mm} {v p flags : Nat} {pages : List Page}
    {pd pd' : Option PageDirectory} (h : Held s pages) (km : KernelMap s.ram s.dir)
    (e : pdAddPage s v p flags pd = .ok (s', pd')) (hoom : s'.oom = false) : s.oom = false := by
  obtain ⟨pde, -, e⟩ := bind_ok.1 e
  split at e
  · obtain ⟨⟨s1, t⟩, hn, e⟩ := bind_ok.1 e
    obtain ⟨s2, hw, e⟩ := bind_ok.1 e
    cases e
    obtain ⟨_, rfl⟩ := writeWord_frame hw
    obtain ⟨s3, ram, left, hg, rfl⟩ := newTable_ok hn
    obtain ⟨area, rest, -, -, -, grows⟩ := getPageFromHeap_frame km h.areas h.lower h.upper hg
    obtain ⟨_, _, hframe, hmono⟩ := getPageFrame_frame s
    by_contra hne
    have htaken : (pageTaken s area.vmStart (eatFirst area rest)).oom = true := by
      change (getPageFrame s).1.oom = true
      rw [hframe]
      exact hmono (Bool.not_eq_false _ ▸ hne)
    have hlate := grows.fields.2.2.2.2.2 htaken
    exact absurd (hlate.symm.trans hoom) (by decide)
  · obtain ⟨s2, hw, e⟩ := bind_ok.1 e
    cases e
    obtain ⟨_, rfl⟩ := writeWord_frame hw
    exact hoom

/-- A translation only depends on the directory and, where there is one, on the table. -/
lemma UserMap.walk_congr {ram ram' : Nat → Nat → Nat} {pd : PageDirectory} {pages : List Page} {a : Nat}
    (h : UserMap ram pd pages) (hlo : USER_OFFSET ≤ a) (hhi : a < USER_STACK)
    (hd : ∀ k, ram' pd.frame k = ram pd.frame k)
    (ht : ∀ t ∈ pd.pt, ∀ k, ram' (t.pAddr / 4096) k = ram (t.pAddr / 4096) k) :
    walk ram' pd.frame a = walk ram pd.frame a := by
  simp only [USER_OFFSET, USER_STACK] at hlo hhi
  unfold walk
  simp only [hd]
  by_cases hp : (ram pd.frame (a / 4194304)).testBit 0 = true
  · obtain ⟨-, t, hmem, hf⟩ := h.tables _ (by omega) (by omega) hp
    rw [hf, ht t hmem]
  · rw [if_neg hp, if_neg hp]

/-- `isr_PF_exc` gives the process one more page, while `get_page_frame` does not fail and no table is
put in service with its first word present. -/
lemma Frames.fault {s s' : Mm} {kernel users pages pages' : List Page} {pd : PageDirectory}
    {pd' : Option PageDirectory} {a : Nat} (fr : Frames s (pd.pages ++ kernel) users)
    (map : UserMap s.ram pd pages) (hcr3 : s.cr3 = pd.base.pAddr)
    (e : isrPfExc s pages (some pd) a = .ok (some (s', pages', pd'))) (hoom : s'.oom = false)
    (hstale : s'.stale = false) :
    ∃ pg pd1, pages' = pg :: pages ∧ pd' = some pd1 ∧ Faulted s s' pd pd1 kernel users pages pg a := by
  unfold isrPfExc at e
  split at e
  case isFalse => cases e
  case isTrue hrange =>
    obtain ⟨hlo, hhi⟩ := hrange
    obtain ⟨⟨s2, pg⟩, hf, e⟩ := bind_ok.1 e
    obtain ⟨⟨s3, pd3⟩, ha, e⟩ := bind_ok.1 e
    cases e
    obtain ⟨⟨s1, p⟩, hk, hf⟩ := bind_ok.1 hf
    cases hf
    have hsome : ∃ pd1, pd3 = some pd1 := by
      obtain ⟨pde, -, ha⟩ := bind_ok.1 ha
      split at ha
      · obtain ⟨r, -, ha⟩ := bind_ok.1 ha
        obtain ⟨s4, -, ha⟩ := bind_ok.1 ha
        cases ha
        exact ⟨_, rfl⟩
      · obtain ⟨s4, -, ha⟩ := bind_ok.1 ha
        cases ha
        exact ⟨_, rfl⟩
    obtain ⟨pd1, rfl⟩ := hsome
    have km : KernelMap s.ram s.dir := SpaceInv.dir_of_cr3 hcr3 ▸ map.kernel
    have grows := kmalloc_frame km fr.held.lower fr.held.upper (by decide) hk
    have hkeep : ∀ kp ∈ pd.pages, ∀ k, s1.ram (kp.pAddr / 4096) k = s.ram (kp.pAddr / 4096) k :=
      fun kp hkp k => grows.ram fr.held.lower
        (.inr (fr.kernel_frame (List.mem_append_left _ hkp)).1)
    have hkd : ∀ k, s1.ram pd.frame k = s.ram pd.frame k := hkeep pd.base List.mem_cons_self
    have hkt : ∀ t ∈ pd.pt, ∀ k, s1.ram (t.pAddr / 4096) k = s.ram (t.pAddr / 4096) k :=
      fun t ht => hkeep t (List.mem_cons_of_mem _ ht)
    have map1 : UserMap s1.ram pd pages := map.congr hkd hkt
    have fr1 := fr.grows grows
    have hdir1 : s1.dir = s.dir := by rw [Mm.dir, Mm.dir, grows.fields.2.2.1]
    have km1 : KernelMap s1.ram s1.dir := hdir1 ▸ grows.map km fr.held.lower
    obtain ⟨bitmap, oom, hframe, -⟩ := getPageFrame_frame s1
    have held2 : Held (getPageFrame s1).1 (pd.pages ++ kernel) := by
      refine fr1.held.congr ?_ ?_ ?_ (fun _ => getPageFrame_used) fun v _ => ?_
      · rw [hframe]
      · rw [hframe]
        exact fr1.held.lower
      · rw [hframe]
        exact fr1.held.upper
      · rw [hframe]
    have hoom2 : (getPageFrame s1).1.oom = false :=
      held2.addPage_oom (by rw [getPageFrame_ram, getPageFrame_dir]; exact km1) ha hoom
    have fr2 := @Frames.user _ _ _ ⟨p, a &&& 0xFFFFF000, (getPageFrame s1).2⟩ fr1 hoom2 rfl
    have hcr3' : (getPageFrame s1).1.cr3 = pd.base.pAddr := by
      rw [hframe]
      exact grows.fields.2.2.1.trans hcr3
    simp only [USER_OFFSET, USER_STACK] at hlo hhi
    have hv : a &&& 0xFFFFF000 = a / 4096 * 4096 := by
      rw [land_page, Nat.mod_eq_of_lt (by omega)]
    rw [hv] at fr2 ha ⊢
    obtain ⟨-, hplt, hppage⟩ := fr2.user_frame List.mem_cons_self
    dsimp only at hplt hppage
    obtain ⟨added, fr3⟩ := @Frames.addPage _ _ _ _ _ ⟨p, a / 4096 * 4096, (getPageFrame s1).2⟩ _ _ _ fr2 (by rwa [getPageFrame_ram]) hcr3' (by simp only [USER_OFFSET]; omega)
      (by simp only [USER_STACK]; omega) (by dsimp only; omega) rfl ha hoom hstale
    obtain ⟨entered, hbase, hpt, htable, hcr3'', hused, hout⟩ := added
    dsimp only at entered htable
    rw [getPageFrame_ram] at entered hout
    have hfr : pd1.frame = pd.frame := by rw [PageDirectory.frame, hbase]; rfl
    refine ⟨_, pd1, rfl, rfl, rfl, fr3, ?_, hbase, hpt, ?_,
      fun q hq => hused q (getPageFrame_used (grows.used hq)), fun b hb => ?_, fun b h1 h2 hb => ?_,
      fun f i hf hne => ?_⟩
    · exact map1.enter (by omega) (by omega) hfr hpt entered htable (by dsimp only; omega)
    · rw [hcr3'', hframe]
      exact grows.fields.2.2.1
    · rw [entered.walk_same (by omega) (by omega), ← hppage]
    · simp only [USER_OFFSET, USER_STACK] at h1 h2
      rw [entered.walk_other (by omega) (by omega) (by omega)]
      exact map.walk_congr h1 h2 hkd hkt
    · rw [hout f i hf hne, grows.ram fr.held.lower hf]

end Creeks
