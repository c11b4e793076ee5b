import Creeks.Mm.Exhaustion

/-!
# Pages to spare

`kmalloc` and `get_page_from_heap` return while there is address space left (`Room`), and
`get_page_frame` does not fail while there are frames left. Each call uses up a known number of
pages and frames, so that a run of known length from `init_mm` can be followed without looking at the
heap.
-/

namespace Creeks
open Lib

/-- Address space for `n` more pages, in a page heap that has never been given a page back and in the
kernel heap. -/
structure Room (s : Mm) (n : Nat) : Prop where
  areas : ∃ p v, s.kernFreeVm = [⟨p, v, KERN_PG_HEAP_LIM⟩] ∧ v + n * PAGESIZE < KERN_PG_HEAP_LIM
  heap : s.kernHeap + n * PAGESIZE ≤ KERN_HEAP_LIM

section Supply

variable {s s' : Mm} {n m : Nat}

lemma Room.mono (h : Room s n) (hm : m ≤ n) : Room s m := by
  obtain ⟨⟨p, v, hvm, hv⟩, hk⟩ := h
  have hle := Nat.mul_le_mul_right PAGESIZE hm
  exact ⟨⟨p, v, hvm, lt_of_le_of_lt (Nat.add_le_add_left hle v) hv⟩,
    le_trans (Nat.add_le_add_left hle _) hk⟩

lemma freeFrames_congr (h : s'.memBitmap = s.memBitmap) : freeFrames s' = freeFrames s := by
  ext q
  rw [mem_freeFrames, mem_freeFrames, h]

/-- Marking frames used leaves fewer of them. -/
lemma freeFrames_le (h : ∀ q, frameUsed s.memBitmap q = true → frameUsed s'.memBitmap q = true) :
    (freeFrames s').card ≤ (freeFrames s).card := by
  apply Finset.card_le_card
  intro q hq
  rw [mem_freeFrames] at hq ⊢
  refine ⟨hq.1, ?_⟩
  by_contra hne
  rw [Bool.not_eq_false] at hne
  rw [h q hne] at hq
  cases hq.2

/-- Growth fails to get a frame only when the frames run out. -/
lemma growStep_iterate_oom (h : n ≤ (freeFrames s).card) : (growStep^[n] s).oom = s.oom := by
  induction n with
  | zero => rfl
  | succ n ih =>
    rw [Function.iterate_succ_apply', growStep_oom, ← ih (by omega)]
    have hfree : FrameFree (growStep^[n] s) := by
      rw [frameFree_iff, card_freeFrames_iterate]
      omega
    obtain ⟨page, hlt, hpage⟩ := hfree
    exact getPageFrame_oom hlt hpage

/-- What a call leaves when it has taken at most `n` pages of the kernel heap and `n` frames. -/
structure Uses (s s' : Mm) (n : Nat) : Prop where
  heap : s'.kernHeap ≤ s.kernHeap + n * PAGESIZE
  frames : (freeFrames s).card ≤ (freeFrames s').card + n
  oom : n ≤ (freeFrames s).card → s'.oom = s.oom

lemma Uses.trans {t : Mm} (h : Uses s s' n) (h' : Uses s' t m) : Uses s t (n + m) where
  heap := by
    have h1 := h.heap
    have h2 := h'.heap
    rw [Nat.add_mul]
    omega
  frames := by
    have h1 := h.frames
    have h2 := h'.frames
    omega
  oom := fun hle => by
    have := h.frames
    rw [h'.oom (by omega), h.oom (by omega)]

/-- A call that does not touch the heap, the bitmap and the flag. -/
lemma Uses.same (hk : s'.kernHeap = s.kernHeap) (hb : s'.memBitmap = s.memBitmap)
    (ho : s'.oom = s.oom) : Uses s s' 0 where
  heap := by rw [hk, Nat.zero_mul, Nat.add_zero]
  frames := by rw [freeFrames_congr hb, Nat.add_zero]
  oom := fun _ => ho

/-- `kmalloc` returns while the kernel heap can grow. -/
lemma Owned.kmalloc_room {owned : List (Nat × Nat)} {size : Nat} (h : Owned s owned)
    (km : KernelMap s.ram s.dir) (hsize : size + 4 < KERN_HEAP_LIM - KERN_HEAP)
    (hroom : s.kernHeap + growPages size * PAGESIZE ≤ KERN_HEAP_LIM) :
    ∃ s' p, Creeks.kmalloc s size = .ok (s', p) ∧ Uses s s' (growPages size) := by
  obtain ⟨-, chunks, live, rep, -⟩ := h
  rcases kmalloc_cases rep km hsize with ⟨_, c, _, -, -, -, e⟩ | ⟨-, e⟩ | ⟨hlim, -⟩
  · refine ⟨_, _, e, ?_, ?_, fun _ => ?_⟩
    · rw [taken, withHeap_kernHeap]
      exact Nat.le_add_right _ _
    · rw [@freeFrames_congr s (taken s c size) (withHeap_memBitmap _ _ _)]
      exact Nat.le_add_right _ _
    · rw [taken, withHeap_oom]
  · refine ⟨_, _, e, ?_, ?_, fun hn => ?_⟩
    · rw [taken, withHeap_kernHeap, grown_kernHeap]
    · have hbit : (taken (grown s (growPages size)) s.kernHeap size).memBitmap =
          (growStep^[growPages size] s).memBitmap := by
        rw [taken, grown, withHeap_withHeap, withHeap_memBitmap]
      rw [freeFrames_congr hbit, card_freeFrames_iterate]
      exact Nat.sub_le_iff_le_add.1 (le_refl _)
    · rw [taken, grown, withHeap_withHeap, withHeap_oom, growStep_iterate_oom hn]
  · exact absurd hroom (not_le.2 hlim)

end Supply

namespace PageHeap

variable {s : Mm} {others : List (Nat × Nat)} {n : Nat}

/-- A small structure is allocated. -/
lemma kmalloc_room {size : Nat} (ph : PageHeap s others) (room : Room s (n + 1))
    (hsize : size + 4 < KERN_HEAP_LIM - KERN_HEAP) (hg : growPages size = 1) :
    ∃ s' p, Creeks.kmalloc s size = .ok (s', p) ∧ PageHeap s' ((p, size) :: others) ∧ Room s' n ∧
      Grows s s' ∧ Uses s s' 1 := by
  obtain ⟨⟨q, v, hvm, hv⟩, hk⟩ := room
  rw [Nat.add_mul, Nat.one_mul] at hv hk
  have hk' : s.kernHeap + growPages size * PAGESIZE ≤ KERN_HEAP_LIM := by
    rw [hg, Nat.one_mul]
    exact le_trans (Nat.add_le_add_left (Nat.le_add_left _ _) _) hk
  obtain ⟨s', p, e, uses⟩ := ph.owned.kmalloc_room ph.map hsize hk'
  rw [hg] at uses
  obtain ⟨owned, -, grows, map⟩ := ph.owned.kmalloc ph.map hsize e
  have hlist := grows.fields.1
  refine ⟨s', p, e, ⟨map, ?_, hlist ▸ ph.areas⟩, ⟨⟨q, v, hlist.trans hvm, ?_⟩, ?_⟩, grows, uses⟩
  · rw [hlist]
    exact owned.perm List.perm_middle.symm
  · exact lt_of_le_of_lt (Nat.add_le_add_left (Nat.le_add_right _ _) v) hv
  · have hheap := uses.heap
    rw [Nat.one_mul] at hheap
    refine le_trans (Nat.add_le_add_right hheap _) (le_of_eq_of_le ?_ hk)
    rw [Nat.add_assoc, Nat.add_comm PAGESIZE]

/-- What `get_page_from_heap` leaves when it hands out `pg`. -/
structure GetOk (s s' : Mm) (pg : Page) : Prop where
  frame : pg.pAddr = (getPageFrame s).2
  page : HeapPage pg.vAddr
  entry : kernPte s'.ram pg.vAddr = pg.pAddr ||| (PG_PRESENT ||| PG_WRITE ||| 0)
  cr3 : s'.cr3 = s.cr3
  outside : ∀ t i, t < 1024 ∨ 2048 ≤ t → s'.ram t i = s.ram t i
  uses : Uses s s' 2
  used : ∀ q, frameUsed (getPageFrame s).1.memBitmap q = true → frameUsed s'.memBitmap q = true

/-- A page is handed out, mapped to the frame `get_page_frame` returned. -/
lemma get_room (ph : PageHeap s others) (room : Room s (n + 2)) :
    ∃ s' pg, getPageFromHeap s = .ok (s', pg) ∧ PageHeap s' ((pg.addr, 16) :: others) ∧ Room s' n ∧
      GetOk s s' pg := by
  obtain ⟨⟨q, v, hvm, hv⟩, hk⟩ := room
  obtain ⟨area, rest, s1, hvm', ⟨mem, used, hs1⟩, hmap, howned, e⟩ := ph.get
  rw [hvm] at hvm'
  obtain ⟨rfl, rfl⟩ := List.cons.inj hvm'
  have areas := ph.areas
  rw [hvm] at areas
  obtain ⟨hpage, -, -⟩ := areas.first
  have hwrap : wrap (v + PAGESIZE) = v + PAGESIZE := areas.list.first_wrap
  simp only [PAGESIZE, KERN_PG_HEAP_LIM] at hv hwrap
  have heat : eatFirst ⟨q, v, KERN_PG_HEAP_LIM⟩ [] = [⟨q, v + 4096, KERN_PG_HEAP_LIM⟩] := by
    rw [eatFirst, if_neg]
    · simp only [PAGESIZE, hwrap]
    · simp only [PAGESIZE, hwrap, KERN_PG_HEAP_LIM]
      omega
  have hlist : s1.kernFreeVm = eatFirst ⟨q, v, KERN_PG_HEAP_LIM⟩ [] := by
    rw [hs1, withHeap_kernFreeVm, pageTaken_kernFreeVm]
  have hkern : s1.kernHeap = s.kernHeap := by rw [hs1, withHeap_kernHeap, pageTaken_kernHeap]
  have ph1 : PageHeap s1 others :=
    ⟨hmap, hlist ▸ howned, hlist ▸ (areas.eat (by rw [heat]; exact List.cons_ne_nil _ _)).1⟩
  have room1 : Room s1 (n + 1) := by
    refine ⟨⟨q, v + 4096, hlist.trans heat, ?_⟩, ?_⟩
    · simp only [PAGESIZE, KERN_PG_HEAP_LIM]
      omega
    · rw [hkern]
      exact le_trans (Nat.add_le_add_left (Nat.mul_le_mul_right _ (Nat.le_succ _)) _) hk
  obtain ⟨s', p, ek, ph', room', grows, uses⟩ := @kmalloc_room s1 others n 16 ph1 room1 (by decide)
    (growPages_small (by decide))
  have hbit : s1.memBitmap = (growStep s).memBitmap := by
    rw [hs1, withHeap_memBitmap, pageTaken_memBitmap, growStep_memBitmap]
  have hcard : (freeFrames s1).card = (freeFrames s).card - 1 := by
    rw [freeFrames_congr hbit, card_freeFrames_growStep]
  have uses1 : Uses s s1 1 := by
    refine ⟨hkern ▸ Nat.le_add_right _ _, by omega, fun h => ?_⟩
    rw [hs1, withHeap_oom]
    exact growStep_iterate_oom (n := 1) h
  have hout : ∀ t i, t < 1024 ∨ 2048 ≤ t → s1.ram t i = s.ram t i := by
    intro t i ht
    rw [hs1, withHeap_ram, pageTaken_ram]
    apply setWord_other
    left
    have := hpage.upper
    unfold kernTable
    omega
  refine ⟨s', ⟨p, v, (getPageFrame s).2⟩, by rw [e, ek, ok_bind], ph', room', rfl, hpage, ?_, ?_, ?_,
    uses1.trans uses, fun q hq => grows.used ?_⟩
  · rw [grows.heapPage hpage ph1.owned.le_kernHeap, hs1, withHeap_ram, pageTaken_ram,
      kernPte_setKernPte]
  · rw [grows.fields.2.2.1, hs1, withHeap_cr3]
    obtain ⟨_, _, hf, -⟩ := getPageFrame_frame s
    change (getPageFrame s).1.cr3 = s.cr3
    rw [hf]
  · intro t i ht
    rw [grows.ram ph1.owned.le_kernHeap ht, hout t i ht]
  · rwa [hbit, growStep_memBitmap]

/-- Every page handed out uses up a frame that was free, while there are any. -/
lemma GetOk.card {s s' : Mm} {pg : Page} (h : GetOk s s' pg) :
    (freeFrames s').card ≤ (freeFrames s).card - 1 := by
  rw [← card_freeFrames_growStep]
  refine freeFrames_le fun q hq => h.used q ?_
  rwa [growStep_memBitmap] at hq

end PageHeap

/-- The frames that are free when paging is set up on a machine with 16 MB. -/
lemma freeFrames_initPaging : freeFrames (initPaging blankMm 16384) = Finset.Ico 2048 4096 := by
  have hlimit : pgLimit 16384 = 4096 := by
    rw [pgLimit, wrap_of_lt (by decide)]
    rfl
  ext q
  rw [mem_freeFrames, initPaging_memBitmap, frameUsed_init, hlimit, Finset.mem_Ico]
  simp only [RAM_MAXPAGE]
  omega

/-- After `init_mm` on a machine with 16 MB there is room for more pages than there are frames. -/
lemma initMm_room : ∃ s0, initMm blankMm 16384 = .ok s0 ∧ PageHeap s0 [] ∧ Room s0 60000 ∧
    s0.cr3 = KERN_PDIR ∧ 1024 ≤ (freeFrames s0).card ∧ (freeFrames s0).card ≤ 2048 ∧
    s0.oom = false := by
  obtain ⟨s0, init, -, hkern⟩ := initMm_blank
  obtain ⟨ph, -, p, hvm⟩ := initMm_ok init
  have hlo := initPaging_kernHeap blankMm 16384
  have rep := heapRep_init hlo
  have howned : Owned (grown (initPaging blankMm 16384) 1) [] :=
    ⟨List.nodup_nil, _, _, rep, List.nil_subset _⟩
  have hsmall : growPages 16 = 1 := growPages_small (by decide)
  obtain ⟨t, a, hk, uses⟩ := @Owned.kmalloc_room _ [] 16 howned (initPaging_grown_map _ _)
    (by decide) (by rw [hsmall, grown_kernHeap, hlo]; decide)
  have e : s0 = t.withVm [⟨a, KERN_PG_HEAP, KERN_PG_HEAP_LIM⟩] t.headWords := by
    rw [initMm, initPaging_ksbrk, ok_bind, hk] at init
    cases init
    rfl
  have hcard : (freeFrames (grown (initPaging blankMm 16384) 1)).card = 2047 := by
    have hbit : (grown (initPaging blankMm 16384) 1).memBitmap =
        (growStep^[1] (initPaging blankMm 16384)).memBitmap := withHeap_memBitmap _ _ _
    rw [freeFrames_congr hbit, card_freeFrames_iterate, freeFrames_initPaging, Nat.card_Ico]
  have hoom : (grown (initPaging blankMm 16384) 1).oom = false := initPaging_blank_oom
  have hbit : freeFrames s0 = freeFrames t := freeFrames_congr (by rw [e, withVm_memBitmap])
  rw [hsmall] at uses
  obtain ⟨-, hframes, huse⟩ := uses
  refine ⟨s0, init, ph, ⟨⟨p, _, hvm, by decide⟩, ?_⟩, ?_, ?_, ?_, ?_⟩
  · rw [hkern]
    decide
  · obtain ⟨u, q, grows, e'⟩ := initMm_grows init
    rw [e', withVm_cr3, grows.fields.2.2.1, initPaging_cr3]
  · rw [hbit]
    omega
  · obtain ⟨-, -, grows, -⟩ := howned.kmalloc (initPaging_grown_map _ _) (by decide) hk
    rw [hbit]
    exact le_trans (freeFrames_le fun q => grows.used) (by omega)
  · rw [e, withVm_oom, huse (by omega), hoom]

end Creeks
