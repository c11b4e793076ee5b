import Creeks.Mm.Supply

/-!
# Mapping a page

What `pd_add_page` does to the translation of user addresses. It clears the words of a new table from the
second one on, so the first word is what the last owner of the frame left there. `mapping_update` says when
this does not matter.
-/

namespace Creeks
open Lib

/-- The frame `get_page_frame` hands out next. -/
def nextFrame (s : Mm) : Nat := (getPageFrame s).2 / 4096

/-- The next frame is read off the bitmap. -/
lemma nextFrame_congr {s s' : Mm} (h : s'.memBitmap = s.memBitmap) : nextFrame s' = nextFrame s := by
  simp only [nextFrame, getPageFrame, h]
  cases scanBitmap s.memBitmap (RAM_MAXPAGE / 8) 0 <;> rfl

/-- The page at `v` is translated to the frame at `p`, and the other user addresses as before. -/
structure MapsOnly (s s' : Mm) (v p : Nat) : Prop where
  page : ∀ a, a / 4096 = v / 4096 → walk s'.ram s'.dir a = some (p + a % 4096)
  others : ∀ a, USER_OFFSET ≤ a → a < USER_STACK → a / 4096 ≠ v / 4096 →
    walk s'.ram s'.dir a = walk s.ram s.dir a

/-- The page has a table, or the first word of the frame that becomes its table is not an entry, or it is
the one that is written. -/
def CleanTable (s : Mm) (v : Nat) : Prop :=
  (s.ram s.dir (v / 4194304)).testBit 0 = true ∨ (s.ram (nextFrame s) 0).testBit 0 = false ∨
    v / 4096 % 1024 = 0

section Update

variable {s s' s1 : Mm} {pd : PageDirectory} {kernel users pages : List Page} {t : Page} {v p w : Nat}

/-- A page that is entered is the only one. -/
lemma Entered.mapsOnly (h : Entered s.ram s'.ram s.dir (v / 4194304) (v / 4096 % 1024) (p / 4096))
    (hdir : s'.dir = s.dir) (hp : p % 4096 = 0) : MapsOnly s s' v p where
  page := fun a ha => by
    rw [hdir, h.walk_same (by omega) (by rw [ha])]
    congr 2
    omega
  others := fun a hlo hhi ha => by
    simp only [USER_OFFSET, USER_STACK] at hlo hhi
    rw [hdir]
    exact h.walk_other (by omega) (by omega) (by omega)

/-- A new table lies in the next frame. -/
lemma Frames.newTable_frame (h : Frames s (pd.pages ++ kernel) users) (km : KernelMap s.ram s.dir)
    (e : newTable s v PG_USER = .ok (s1, t)) : t.pAddr = (getPageFrame s).2 := by
  obtain ⟨⟨s2, pg⟩, hg, e⟩ := bind_ok.1 e
  obtain ⟨s3, h3, e⟩ := bind_ok.1 e
  obtain ⟨s4, h4, e⟩ := bind_ok.1 e
  cases e
  obtain ⟨area, rest, -, -, hp, -⟩ := getPageFromHeap_frame km h.held.areas h.held.lower h.held.upper hg
  exact hp

/-- When the first word of a new table is left from before and is an entry, the first page of the table
is mapped. -/
lemma Frames.left_mapped (h : Frames s (pd.pages ++ kernel) users) (map : UserMap s.ram pd pages)
    (hcr3 : s.cr3 = pd.base.pAddr) (hlo : 256 ≤ v / 4194304) (hhi : v / 4194304 < 1023)
    (e : newTable s v PG_USER = .ok (s1, t)) (he : writeWord s1 (pteAddr v) w = .ok s')
    (hoom : s'.oom = false) (hword : (s.ram (t.pAddr / 4096) 0).testBit 0 = true)
    (hne : v / 4096 % 1024 ≠ 0) :
    (walk s'.ram s'.dir (v / 4194304 * 4194304)).isSome := by
  obtain ⟨_, hs⟩ := writeWord_frame he
  have hoom1 : s1.oom = false := by rw [← hoom, hs]
  have hdir : s.dir = pd.frame := SpaceInv.dir_of_cr3 hcr3
  have hbase : pd.base ∈ pd.pages ++ kernel := List.mem_append_left _ List.mem_cons_self
  obtain ⟨hpde, hentry, -, -, hwrite⟩ := h.newTable_entry map hcr3 hlo hhi e hoom1
  obtain ⟨held, hcr3', ram, hout, hram, -⟩ := h.held.table (hdir ▸ map.kernel)
    (.inr ⟨_, hbase, hcr3⟩) (by omega) e hoom1
  obtain ⟨f, hf, hge, -⟩ := (held.held t List.mem_cons_self).frame
  have htd : pd.frame ≠ t.pAddr / 4096 := held.frame_ne hbase
  rw [hwrite w] at he
  have hram' : s'.ram = setWord s1.ram (t.pAddr / 4096) (v / 4096 % 1024) w :=
    (congrArg Mm.ram (Except.ok.inj he)).symm
  have hdir' : s'.dir = pd.frame := SpaceInv.dir_of_cr3 (by rw [hs]; exact hcr3'.trans hcr3)
  have hsmall : (t.pAddr ||| (PG_PRESENT ||| PG_WRITE ||| PG_USER)).testBit 7 = false := by
    rw [hf, testBit_entry (by decide)]
    decide
  have hdirword : s'.ram pd.frame (v / 4194304) =
      t.pAddr ||| (PG_PRESENT ||| PG_WRITE ||| PG_USER) := by
    rw [hram', setWord_other (.inl htd), hpde]
  have hfirst : s'.ram (t.pAddr / 4096) 0 = s.ram (t.pAddr / 4096) 0 := by
    rw [hram', setWord_other (.inr hne.symm), hram, hdir, setWord_other (.inl htd.symm), setWords,
      if_neg (by omega)]
    exact hout _ _ (.inr (by omega))
  have hregion : v / 4194304 * 4194304 / 4194304 = v / 4194304 := Nat.mul_div_cancel _ (by decide)
  have hindex : v / 4194304 * 4194304 / 4096 % 1024 = 0 := by omega
  unfold walk
  simp only [hregion, hindex, hdir', hdirword]
  rw [if_pos (entry_present _ _), hsmall, if_neg (by decide), hentry, hfirst, if_pos hword]
  rfl

/-- `pd_add_page` with a clean table. -/
lemma Frames.clean_mapsOnly {pd' : Option PageDirectory} (h : Frames s (pd.pages ++ kernel) users)
    (map : UserMap s.ram pd pages) (hcr3 : s.cr3 = pd.base.pAddr) (hlo : USER_OFFSET ≤ v)
    (hhi : v < USER_STACK) (hp : p % 4096 = 0) (hp32 : p < 4294967296)
    (e : pdAddPage s v p PG_USER (some pd) = .ok (s', pd')) (hoom : s'.oom = false)
    (hclean : CleanTable s v) : MapsOnly s s' v p := by
  simp only [USER_OFFSET, USER_STACK] at hlo hhi
  have hdir : s.dir = pd.frame := SpaceInv.dir_of_cr3 hcr3
  have km : KernelMap s.ram s.dir := hdir ▸ map.kernel
  have hw : (p ||| (PG_PRESENT ||| PG_WRITE ||| PG_USER)).testBit 0 = true := entry_present _ _
  have hfr : frameOf (p ||| (PG_PRESENT ||| PG_WRITE ||| PG_USER)) = p / 4096 :=
    frameOf_entry hp32 (by decide)
  have mapsOnly : ∀ pd2, PageAdded s s' pd pd2 ⟨0, v, p⟩ → MapsOnly s s' v p := fun pd2 added => by
    have hdir' : s'.dir = s.dir := by rw [Mm.dir, Mm.dir, added.cr3]
    exact Entered.mapsOnly (hdir ▸ added.entered) hdir' hp
  rw [pdAddPage, readWord_pde km.self (by omega), ok_bind, hdir] at e
  split at e
  case isFalse hpres =>
    obtain ⟨s2, he, e⟩ := bind_ok.1 e
    cases e
    rw [land_one_eq_zero, Bool.not_eq_false] at hpres
    rw [writeWord_pte km.self (by omega) (hdir ▸ hpres), hdir] at he
    exact mapsOnly _ (@Frames.addPresent _ _ _ _ _ ⟨0, v, p⟩ _ _ h map (by dsimp only; omega)
      (by dsimp only; omega) hpres hw hfr (Except.ok.inj he).symm).1
  case isTrue hnone =>
    obtain ⟨⟨s1, t⟩, ht, e⟩ := bind_ok.1 e
    obtain ⟨s2, he, e⟩ := bind_ok.1 e
    cases e
    rw [land_one_eq_zero] at hnone
    refine mapsOnly _ (@Frames.addTable _ _ _ _ _ ⟨0, v, p⟩ _ _ t _ h map hcr3 (by dsimp only; omega)
      (by dsimp only; omega) hnone hw hfr ht he hoom fun hword => ?_).1
    rcases hclean with hpres | hfirst | hzero
    · rw [hdir, hnone] at hpres
      cases hpres
    · rw [nextFrame, ← h.newTable_frame km ht, hword] at hfirst
      cases hfirst
    · exact hzero

/-- `pd_add_page` with a table that is not clean maps the first page of the region as well. -/
lemma Frames.dirty_mapped {pd' : Option PageDirectory} (h : Frames s (pd.pages ++ kernel) users)
    (map : UserMap s.ram pd pages) (hcr3 : s.cr3 = pd.base.pAddr) (hlo : USER_OFFSET ≤ v)
    (hhi : v < USER_STACK) (e : pdAddPage s v p PG_USER (some pd) = .ok (s', pd')) (hoom : s'.oom = false)
    (hdirty : ¬ CleanTable s v) :
    walk s.ram s.dir (v / 4194304 * 4194304) = none ∧
      (walk s'.ram s'.dir (v / 4194304 * 4194304)).isSome ∧ v / 4096 % 1024 ≠ 0 := by
  simp only [USER_OFFSET, USER_STACK] at hlo hhi
  have hdir : s.dir = pd.frame := SpaceInv.dir_of_cr3 hcr3
  have km : KernelMap s.ram s.dir := hdir ▸ map.kernel
  obtain ⟨hnone, hrest⟩ := not_or.1 hdirty
  obtain ⟨hword, hne⟩ := not_or.1 hrest
  rw [Bool.not_eq_true] at hnone
  rw [Bool.not_eq_false] at hword
  rw [pdAddPage, readWord_pde km.self (by omega), ok_bind, if_pos ((land_one_eq_zero _).2 hnone)] at e
  obtain ⟨⟨s1, t⟩, ht, e⟩ := bind_ok.1 e
  obtain ⟨s2, he, e⟩ := bind_ok.1 e
  cases e
  rw [nextFrame, ← h.newTable_frame km ht] at hword
  refine ⟨?_, h.left_mapped map hcr3 (by omega) (by omega) ht he hoom hword hne, hne⟩
  have hregion : v / 4194304 * 4194304 / 4194304 = v / 4194304 := Nat.mul_div_cancel _ (by decide)
  unfold walk
  simp only [hregion, hnone]
  rfl

/-- `pd_add_page` maps the page at `v` to the frame at `p` and changes no other translation exactly when
the table of the page is there or its frame begins with a word that does no harm. -/
theorem mapping_update {pd' : Option PageDirectory} (h : Frames s (pd.pages ++ kernel) users)
    (map : UserMap s.ram pd pages) (hcr3 : s.cr3 = pd.base.pAddr) (hlo : USER_OFFSET ≤ v)
    (hhi : v < USER_STACK) (hp : p % 4096 = 0) (hp32 : p < 4294967296)
    (e : pdAddPage s v p PG_USER (some pd) = .ok (s', pd')) (hoom : s'.oom = false) :
    MapsOnly s s' v p ↔ CleanTable s v := by
  refine ⟨fun only => ?_, h.clean_mapsOnly map hcr3 hlo hhi hp hp32 e hoom⟩
  by_contra hdirty
  obtain ⟨hbefore, hafter, hne⟩ := h.dirty_mapped map hcr3 hlo hhi e hoom hdirty
  simp only [USER_OFFSET, USER_STACK] at hlo hhi
  rw [only.others _ (by simp only [USER_OFFSET]; omega) (by simp only [USER_STACK]; omega) (by omega),
    hbefore] at hafter
  cases hafter

end Update

/-- The first directory after the boot is loaded, over any frame contents that leave it alone. -/
lemma boot_directory : ∃ s0 s1 pd, initMm blankMm 16384 = .ok s0 ∧ pdCreate s0 = .ok (s1, pd) ∧
    pd.pt = [] ∧ ∀ w, Frames { s1 with
        cr3 := pd.base.pAddr
        ram := setWord s1.ram (nextFrame s1) 0 w } (pd.pages ++ []) [] ∧
      UserMap (setWord s1.ram (nextFrame s1) 0 w) pd [] ∧
      ∃ others, Supply { s1 with
        cr3 := pd.base.pAddr
        ram := setWord s1.ram (nextFrame s1) 0 w } others 900 := by
  obtain ⟨s0, init, idle⟩ := initMm_idle
  obtain ⟨s1, pd, create, frames, map, supply, -, -, hpt⟩ :=
    Idle.create (n := 900) { idle with supply := idle.supply.mono (by decide) }
  have hsome : FrameFree s1 := frameFree_iff.2 (lt_of_lt_of_le (by decide) supply.frames)
  obtain ⟨f, hlt, hf, hfree, -⟩ := getPageFrame_reserves hsome
  have hnext : nextFrame s1 = f := by
    rw [nextFrame, hf]
    exact Nat.mul_div_cancel _ (by decide)
  refine ⟨s0, s1, pd, init, create, hpt, fun w => ?_⟩
  rw [hnext]
  have hge := frames.held.free f hfree
  have hdir : ∀ j, setWord s1.ram f 0 w pd.frame j = s1.ram pd.frame j := fun j =>
    setWord_other (.inl (frames.free_ne hfree (List.mem_append_left _ List.mem_cons_self)))
  have map' : UserMap (setWord s1.ram f 0 w) pd [] :=
    map.congr hdir fun t ht => by rw [hpt] at ht; cases ht
  have frames' : Frames { s1 with
      cr3 := pd.base.pAddr
      ram := setWord s1.ram f 0 w } (pd.pages ++ []) [] := by
    refine frames.keep ?_ fun _ => id
    refine (frames.held.ram fun f' i h1 h2 => setWord_other (.inl (by omega))).congr rfl frames.held.lower
      frames.held.upper (fun _ => id) fun _ _ => rfl
  refine ⟨frames', map', [pageChunk pd.base, directoryChunk pd], ?_⟩
  exact supply.same ⟨map'.kernel, supply.heap.owned.congr rfl rfl, supply.heap.areas⟩ rfl rfl rfl rfl

/-- A page of a process that has just been created, over frames of zeros. -/
theorem mapping_update_fresh : ∃ s s' pd pd', pdAddPage s 0x40001000 0xA00000 PG_USER (some pd) = .ok (s', pd') ∧
    s'.oom = false ∧ MapsOnly s s' 0x40001000 0xA00000 := by
  obtain ⟨s0, s1, pd, -, -, -, hstate⟩ := boot_directory
  obtain ⟨frames, map, others, supply⟩ := hstate 0
  obtain ⟨l, s', e, supply', -⟩ := @Supply.addPage _ _ 898 0x40001000 0xA00000 _ _ _ _ supply frames map rfl
    (by decide) (by decide)
  refine ⟨_, s', pd, _, e, supply'.oom, ?_⟩
  refine (mapping_update frames map rfl (by decide) (by decide) (by decide) (by decide) e supply'.oom).2 ?_
  refine .inr (.inl ?_)
  rw [nextFrame_congr (show ({ s1 with
      cr3 := pd.base.pAddr
      ram := setWord s1.ram (nextFrame s1) 0 0 } : Mm).memBitmap = s1.memBitmap from rfl)]
  dsimp only
  rw [setWord_same]
  rfl

/-- The frame of the new table begins with an entry: the page below the one that is added is mapped too. -/
theorem stale_table : ∃ s0 s1 s s' pd pd', initMm blankMm 16384 = .ok s0 ∧ pdCreate s0 = .ok (s1, pd) ∧
    s = { s1 with
      cr3 := pd.base.pAddr
      ram := setWord s1.ram (nextFrame s1) 0 1 } ∧
    pdAddPage s 0x40001000 0xA00000 PG_USER (some pd) = .ok (s', pd') ∧ s'.oom = false ∧
    walk s.ram s.dir 0x40000000 = none ∧ (walk s'.ram s'.dir 0x40000000).isSome ∧
    ¬ MapsOnly s s' 0x40001000 0xA00000 := by
  obtain ⟨s0, s1, pd, init, create, hpt, hstate⟩ := boot_directory
  obtain ⟨frames, map, others, supply⟩ := hstate 1
  obtain ⟨l, s', e, supply', -⟩ := @Supply.addPage _ _ 898 0x40001000 0xA00000 _ _ _ _ supply frames map rfl
    (by decide) (by decide)
  obtain ⟨s, hs⟩ : ∃ s, s = { s1 with
    cr3 := pd.base.pAddr
    ram := setWord s1.ram (nextFrame s1) 0 1 } := ⟨_, rfl⟩
  rw [← hs] at frames e
  have map' : UserMap s.ram pd [] := by rwa [hs]
  have hcr3 : s.cr3 = pd.base.pAddr := by rw [hs]
  have hdirty : ¬ CleanTable s 0x40001000 := by
    rintro (hpres | hword | hzero)
    · rw [SpaceInv.dir_of_cr3 hcr3] at hpres
      obtain ⟨-, t, ht, -⟩ := map'.tables _ (by decide) (by decide) hpres
      rw [hpt] at ht
      cases ht
    · rw [nextFrame_congr (show s.memBitmap = s1.memBitmap by rw [hs]), hs] at hword
      dsimp only at hword
      rw [setWord_same] at hword
      cases hword
    · exact absurd hzero (by decide)
  obtain ⟨hbefore, hafter, -⟩ := frames.dirty_mapped map' hcr3 (by decide) (by decide) e supply'.oom hdirty
  change walk s.ram s.dir 0x40000000 = none at hbefore
  change (walk s'.ram s'.dir 0x40000000).isSome at hafter
  refine ⟨s0, s1, s, s', pd, _, init, create, hs, e, supply'.oom, hbefore, hafter, fun only => ?_⟩
  rw [only.others _ (by decide) (by decide) (by decide), hbefore] at hafter
  cases hafter

end Creeks
