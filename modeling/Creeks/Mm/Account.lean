import Creeks.Mm.Exhaustion
import Creeks.Lib.Ledger

/-!
# The account of the kernel heap

Which chunks of the kernel heap are out, and who got them. `heapLedger` counts the live chunks other
than the nodes of the list of free areas, which belong to the page heap itself. One lemma for each
function of the memory manager says which chunks it takes and which it gives back (`_effect`). None of
them looks at the page tables or at the bitmap: the headers of the heap are enough.
-/

namespace Creeks
open Lib

/-- The bytes of a chunk. -/
def payload (a : Nat × Nat) (s : Mm) : Nat → Option UInt8 := fun i =>
  if i < a.2 then some (s.mem (a.1 + i)) else none

/-- The account of the kernel heap. -/
def heapLedger : Ledger Mm (Nat × Nat) (Nat → Option UInt8) where
  holds s A := ∃ chunks live, HeapRep s chunks live ∧
    (live : Multiset (Nat × Nat)) = chunksOf s.kernFreeVm + A
  view := payload

/-- What a function of the kernel does to the account. -/
abbrev HeapEffect : Mm → Multiset (Nat × Nat) → Mm → Multiset (Nat × Nat) → Prop := heapLedger.Effect

/-- A size for which the limit test of `ksbrk` does not wrap around the address space. -/
def Served (size : Nat) : Prop := size < 0xBFFFE000

instance (size : Nat) : Decidable (Served size) := inferInstanceAs (Decidable (_ < _))

/-- The chunk of a `struct page`. -/
def pageChunk (pg : Page) : Nat × Nat := (pg.addr, 16)

/-- The chunks of a list of `struct page`. -/
def listChunks (pages : List Page) : Multiset (Nat × Nat) := (pages : Multiset Page).map pageChunk

@[simp] lemma listChunks_nil : listChunks [] = 0 := rfl
@[simp] lemma listChunks_cons (pg : Page) (l : List Page) :
    listChunks (pg :: l) = {pageChunk pg} + listChunks l := by
  rw [listChunks, ← Multiset.cons_coe, Multiset.map_cons, Multiset.singleton_add]
  rfl

section Effects

variable {s s' t : Mm} {A B : Multiset (Nat × Nat)} {p k n size : Nat}

lemma payload_congr {a : Nat × Nat} (h : ∀ i < a.2, t.mem (a.1 + i) = s.mem (a.1 + i)) :
    payload a t = payload a s := by
  funext i
  unfold payload
  split
  case isTrue hi => rw [h i hi]
  case isFalse => rfl

lemma payload_byte {a : Nat × Nat} {i : Nat} (h : payload a t = payload a s) (hi : i < a.2) :
    t.mem (a.1 + i) = s.mem (a.1 + i) := by
  have h := congrFun h i
  unfold payload at h
  rw [if_pos hi, if_pos hi] at h
  exact Option.some.inj h

/-- The headers of the heap do not change, and chunks only move between the list of free areas and the
rest. -/
lemma heapEffect_congr (hm : t.mem = s.mem) (hk : t.kernHeap = s.kernHeap)
    (hvm : (chunksOf s.kernFreeVm : Multiset (Nat × Nat)) + A = chunksOf t.kernFreeVm + B) :
    HeapEffect s A t B := by
  rintro F ⟨chunks, live, rep, e⟩
  refine ⟨⟨chunks, live, rep.congr hm hk, ?_⟩, fun a _ => payload_congr fun i _ => by rw [hm]⟩
  rw [e, ← add_assoc, hvm, add_assoc]

/-- What happens outside the heap is not in its account. -/
lemma heapEffect_outside (hm : t.mem = s.mem) (hk : t.kernHeap = s.kernHeap)
    (hvm : t.kernFreeVm = s.kernFreeVm) : HeapEffect s A t A :=
  heapEffect_congr hm hk (by rw [hvm])

/-- A served request grows the heap without wrapping around. -/
lemma Served.growth_lt (hsize : Served size) (hlim : s.kernHeap ≤ KERN_HEAP_LIM) :
    s.kernHeap + growPages size * PAGESIZE < 4294967296 := by
  unfold Served at hsize
  have hwrap : wrap (4 + size) = 4 + size := wrap_of_lt (by omega)
  simp only [KERN_HEAP_LIM] at hlim
  rw [growPages, realSize, hwrap]
  simp only [KMALLOC_MINSIZE, PAGESIZE]
  split <;> omega

/-- The record of a served request has room for it. -/
lemma Served.le_realSize (hsize : Served size) : size + 4 ≤ realSize size := by
  unfold Served at hsize
  have hwrap : wrap (4 + size) = 4 + size := wrap_of_lt (by omega)
  rw [realSize, hwrap]
  simp only [KMALLOC_MINSIZE]
  split <;> omega

lemma kmalloc_effect (hsize : Served size) (h : kmalloc s size = .ok (s', p)) :
    HeapEffect s 0 s' {(p, size)} := by
  rintro F ⟨chunks, live, rep, e⟩
  rw [zero_add] at e
  obtain ⟨⟨chunks', rep'⟩, hvm, hpay⟩ := rep.kmalloc (hsize.growth_lt rep.limit) hsize.le_realSize h
  refine ⟨⟨chunks', _, rep', ?_⟩, fun a ha => payload_congr fun i hi => hpay _ _ _ ?_ hi⟩
  · rw [← Multiset.cons_coe, e, hvm, Multiset.singleton_add, Multiset.add_cons]
  · rw [← Multiset.mem_coe, e]
    exact Multiset.mem_add.2 (.inr ha)

/-- A chunk that is counted is live. -/
lemma owned_live {live : List (Nat × Nat)} {F : Multiset (Nat × Nat)}
    (e : (live : Multiset (Nat × Nat)) = chunksOf s.kernFreeVm + ({(p, n)} + F)) :
    (live : Multiset (Nat × Nat)) = (p, n) ::ₘ (chunksOf s.kernFreeVm + F) ∧ (p, n) ∈ live := by
  have e' : (live : Multiset (Nat × Nat)) = (p, n) ::ₘ (chunksOf s.kernFreeVm + F) := by
    rw [e, Multiset.singleton_add, Multiset.add_cons]
  refine ⟨e', ?_⟩
  rw [← Multiset.mem_coe, e']
  exact Multiset.mem_cons_self _ _

lemma kfree_effect (h : kfree s p = .ok s') : HeapEffect s {(p, n)} s' 0 := by
  rintro F ⟨chunks, live, rep, e⟩
  obtain ⟨e', hp⟩ := owned_live e
  obtain ⟨mem, used, hok, ⟨chunks', rep'⟩, hpay⟩ := kfree_ok rep hp
  rw [hok] at h
  cases h
  have herase : (live.erase (p, n) : Multiset (Nat × Nat)) = chunksOf s.kernFreeVm + F := by
    rw [Multiset.coe_eq_coe.2 (List.perm_cons_erase hp), ← Multiset.cons_coe] at e'
    exact (Multiset.cons_inj_right _).1 e'
  refine ⟨⟨chunks', _, rep', ?_⟩, fun a ha => payload_congr fun i hi => ?_⟩
  · rw [herase, withHeap_kernFreeVm, zero_add]
  · rw [withHeap_mem]
    refine hpay _ _ _ ?_ hi
    rw [← Multiset.mem_coe, herase]
    exact Multiset.mem_add.2 (.inr ha)

/-- The owner of a chunk writes inside it. -/
lemma edit_effect {mem : Mem} {used : Nat} (hout : ∀ x, x < p ∨ p + n ≤ x → mem x = s.mem x) :
    HeapEffect s {(p, n)} (s.withHeap mem used) {(p, n)} := by
  rintro F ⟨chunks, live, rep, e⟩
  obtain ⟨e', hp⟩ := owned_live e
  obtain ⟨rep', hpay⟩ := @HeapRep.edit s chunks live p n used mem rep hp hout
  refine ⟨⟨chunks, live, rep', ?_⟩, fun a ha => payload_congr fun i hi => ?_⟩
  · rw [withHeap_kernFreeVm, e]
  · rw [withHeap_mem]
    have ha' : a ∈ live := by
      rw [← Multiset.mem_coe, e]
      exact Multiset.mem_add.2 (.inr (Multiset.mem_add.2 (.inr ha)))
    refine hpay _ _ _ ha' (fun heq => ?_) hi
    -- the address of a chunk occurs once among the live ones
    have hnd : ((live : Multiset (Nat × Nat)).map Prod.fst).Nodup := rep.nodup
    rw [e', Multiset.map_cons, Multiset.nodup_cons] at hnd
    exact hnd.1 (Multiset.mem_map.2 ⟨a, Multiset.mem_add.2 (.inr ha), heq⟩)

end Effects

/-! ## The page heap -/

section PageHeap

variable {s s' : Mm} {pg : Page} {v r : Nat}

lemma eatArea_effect {area : VmArea} {rest : List VmArea} (hl : s.kernFreeVm = area :: rest)
    (h : eatArea s area rest = .ok s') : HeapEffect s 0 s' 0 := by
  unfold eatArea at h
  split at h
  · have hnode : HeapEffect s 0 (s.withVm rest s.headWords) {(area.addr, 16)} := by
      refine heapEffect_congr (withVm_mem _ _ _) (withVm_kernHeap _ _ _) ?_
      rw [hl, withVm_kernFreeVm, chunksOf_cons, ← Multiset.cons_coe, add_zero, ← Multiset.singleton_add,
        add_comm]
    exact hnode.trans (kfree_effect h)
  · cases h
    refine heapEffect_congr (withVm_mem _ _ _) (withVm_kernHeap _ _ _) ?_
    rw [hl, withVm_kernFreeVm]
    rfl

lemma getPageFromHeap_effect (h : getPageFromHeap s = .ok (s', pg)) :
    HeapEffect s 0 s' {pageChunk pg} := by
  obtain ⟨bitmap, oom, hframe, -⟩ := getPageFrame_frame s
  rw [getPageFromHeap] at h
  simp only [Nat.not_lt_zero, if_false] at h
  have e0 : HeapEffect s 0 (getPageFrame s).1 0 := by
    rw [hframe]
    exact heapEffect_outside rfl rfl rfl
  split at h
  case h_1 => cases h
  case h_2 area rest hl =>
    obtain ⟨s1, he, h⟩ := bind_ok.1 h
    obtain ⟨s2, ha, h⟩ := bind_ok.1 h
    obtain ⟨⟨s3, p⟩, hm, h⟩ := bind_ok.1 h
    cases h
    obtain ⟨ram, rfl⟩ := pd0AddPage_frame ha
    have e2 : HeapEffect s1 0 { s1 with ram := ram } 0 := heapEffect_outside rfl rfl rfl
    exact ((e0.trans (eatArea_effect hl he)).trans e2).trans (kmalloc_effect (by decide) hm)

lemma mergePage_effect (h : mergePage s v = .ok (s', r)) : HeapEffect s 0 s' 0 := by
  obtain ⟨hlist, -, -⟩ := @scan_spec _ VmArea.vmStart s.kernFreeVm v [] nofun
  rw [List.reverse_nil, List.nil_append] at hlist
  unfold mergePage at h
  generalize scan VmArea.vmStart v [] s.kernFreeVm = z at h hlist
  obtain ⟨before, after⟩ := z
  dsimp only at h hlist
  -- a node of the list keeps its chunk when its bounds change
  have kept : ∀ {areas head}, chunksOf areas = chunksOf s.kernFreeVm →
      HeapEffect s 0 (s.withVm areas head) 0 := by
    intro areas head hc
    refine heapEffect_congr (withVm_mem _ _ _) (withVm_kernHeap _ _ _) ?_
    rw [withVm_kernFreeVm, hc]
  by_cases hprev : prevEnd s before = v
  · rw [if_pos hprev] at h
    by_cases hmeet : wrap (v + PAGESIZE) = nextStart s after
    · rw [if_pos hmeet] at h
      cases after with
      | nil => cases h
      | cons next after =>
        obtain ⟨t, hf, h⟩ := bind_ok.1 h
        cases h
        have hnode : HeapEffect s 0 (setPrevEnd s before after next.vmEnd) {(next.addr, 16)} := by
          cases before with
          | nil =>
            refine heapEffect_congr (withVm_mem _ _ _) (withVm_kernHeap _ _ _) ?_
            rw [← hlist, setPrevEnd, withVm_kernFreeVm, List.reverse_nil, List.nil_append,
              chunksOf_cons, ← Multiset.cons_coe, add_zero, ← Multiset.singleton_add, add_comm]
          | cons prev bs =>
            refine heapEffect_congr (withVm_mem _ _ _) (withVm_kernHeap _ _ _) ?_
            have hbefore : chunksOf ({ prev with vmEnd := next.vmEnd } :: bs).reverse =
                chunksOf (prev :: bs).reverse := by simp [chunksOf]
            rw [← hlist, setPrevEnd, withVm_kernFreeVm, chunksOf_append, chunksOf_append, hbefore,
              chunksOf_cons, ← Multiset.coe_add, ← Multiset.coe_add, ← Multiset.cons_coe,
              ← Multiset.singleton_add]
            abel
        exact hnode.trans (kfree_effect hf)
    · rw [if_neg hmeet] at h
      cases h
      cases before with
      | nil => exact kept (by rw [← hlist]; rfl)
      | cons prev bs => exact kept (by rw [← hlist]; simp [chunksOf])
  · rw [if_neg hprev] at h
    split at h
    · cases h
      cases after with
      | nil => exact kept (by rw [← hlist, List.append_nil])
      | cons next after => exact kept (by rw [← hlist]; simp [chunksOf])
    · split at h
      · obtain ⟨⟨t, p⟩, hm, h⟩ := bind_ok.1 h
        cases h
        rintro F ⟨chunks, live, rep, e⟩
        have hsize : Served 16 := by decide
        obtain ⟨-, hvm, -⟩ := rep.kmalloc (hsize.growth_lt rep.limit) hsize.le_realSize hm
        have hlink : HeapEffect t {(p, 16)}
            (t.withVm (before.reverse ++ ⟨p, v, wrap (v + PAGESIZE)⟩ :: after) t.headWords) 0 := by
          refine heapEffect_congr (withVm_mem _ _ _) (withVm_kernHeap _ _ _) ?_
          rw [withVm_kernFreeVm, hvm, ← hlist, chunksOf_append, chunksOf_append, chunksOf_cons,
            ← Multiset.coe_add, ← Multiset.coe_add, ← Multiset.cons_coe, ← Multiset.singleton_add]
          abel
        exact ((kmalloc_effect hsize hm).trans hlink) F ⟨chunks, live, rep, e⟩
      · cases h

lemma releasePageFromHeap_effect (h : releasePageFromHeap s v = .ok (s', r)) :
    HeapEffect s 0 s' 0 := by
  obtain ⟨p, -, h⟩ := bind_ok.1 h
  split at h
  · cases h
    exact .refl _ _
  · obtain ⟨t, hr, h⟩ := bind_ok.1 h
    obtain ⟨ram, rfl⟩ := pdRemovePage_frame hr
    refine .trans ?_ (mergePage_effect h)
    exact heapEffect_outside rfl rfl rfl

end PageHeap

/-! ## Page directories -/

section Directory

variable {s s' : Mm} {pd : PageDirectory} {pg : Page} {v flags : Nat}

/-- The chunk of a `struct page_directory`. -/
def directoryChunk (pd : PageDirectory) : Nat × Nat := (pd.addr, 12)

lemma pdCreate_effect (h : pdCreate s = .ok (s', pd)) :
    HeapEffect s 0 s' ({directoryChunk pd} + {pageChunk pd.base}) ∧ pd.pt = [] := by
  obtain ⟨s1, s2, ram, hm, hg, hpt, rfl⟩ := pdCreate_ok h
  have e := (kmalloc_effect (by decide) hm).add (getPageFromHeap_effect hg)
  rw [add_zero] at e
  exact ⟨e.trans (heapEffect_outside rfl rfl rfl), hpt⟩

lemma releaseTables_effect {l : List Page} (h : releaseTables l s = .ok s') :
    HeapEffect s (listChunks l) s' 0 := by
  induction l generalizing s with
  | nil =>
    cases h
    exact .refl _ _
  | cons pg l ih =>
    obtain ⟨⟨s1, r⟩, hr, h⟩ := bind_ok.1 h
    obtain ⟨s2, hf, h⟩ := bind_ok.1 h
    rw [listChunks_cons]
    have e := (releasePageFromHeap_effect hr).add (kfree_effect (n := 16) hf)
    rw [zero_add, add_zero] at e
    exact (e.add (ih h)).cast rfl (add_zero _)

/-- `pd_destroy` gives back the chunks of the tables and of the directory. -/
lemma pdDestroy_effect (h : pdDestroy s pd = .ok s') :
    HeapEffect s (listChunks pd.pt + {directoryChunk pd}) s' 0 := by
  obtain ⟨s1, ht, h⟩ := bind_ok.1 h
  obtain ⟨⟨s2, r⟩, hr, h⟩ := bind_ok.1 h
  have e := (releaseTables_effect ht).trans (releasePageFromHeap_effect hr)
  exact (e.add (kfree_effect h)).cast rfl (add_zero _)

lemma newTable_effect (h : newTable s v flags = .ok (s', pg)) : HeapEffect s 0 s' {pageChunk pg} := by
  obtain ⟨s1, ram, left, hg, rfl⟩ := newTable_ok h
  exact (getPageFromHeap_effect hg).trans (heapEffect_outside rfl rfl rfl)

/-- `pd_add_page` enters the page of a new table in the directory. -/
lemma pdAddPage_effect {a : Nat} {pd' : Option PageDirectory}
    (h : pdAddPage s v a flags (some pd) = .ok (s', pd')) :
    ∃ pt, pd' = some { pd with pt := pt } ∧ HeapEffect s (listChunks pd.pt) s' (listChunks pt) := by
  obtain ⟨pde, -, h⟩ := bind_ok.1 h
  split at h
  · obtain ⟨⟨s1, pg⟩, ht, h⟩ := bind_ok.1 h
    obtain ⟨s2, hw, h⟩ := bind_ok.1 h
    cases h
    obtain ⟨ram, rfl⟩ := writeWord_frame hw
    refine ⟨_, rfl, ?_⟩
    rw [listChunks_cons]
    have e := (newTable_effect ht).trans (heapEffect_outside (t := { s1 with ram := ram }) rfl rfl rfl)
    exact (e.frame (listChunks pd.pt)).cast (zero_add _) rfl
  · obtain ⟨s2, hw, h⟩ := bind_ok.1 h
    cases h
    obtain ⟨ram, rfl⟩ := writeWord_frame hw
    exact ⟨_, rfl, heapEffect_outside rfl rfl rfl⟩

/-- `isr_PF_exc` enters the new pages in the list of the process and in its directory. -/
lemma isrPfExc_effect {pages pages' : List Page} {pd' : Option PageDirectory} {a : Nat}
    (h : isrPfExc s pages (some pd) a = .ok (some (s', pages', pd'))) :
    ∃ pt, pd' = some { pd with pt := pt } ∧
      HeapEffect s (listChunks pages + listChunks pd.pt) s' (listChunks pages' + listChunks pt) := by
  unfold isrPfExc at h
  split at h
  · obtain ⟨⟨s1, pg⟩, hf, h⟩ := bind_ok.1 h
    obtain ⟨⟨s2, pd2⟩, ha, h⟩ := bind_ok.1 h
    cases h
    obtain ⟨⟨t, p⟩, hm, hf⟩ := bind_ok.1 hf
    cases hf
    obtain ⟨pt, rfl, epd⟩ := pdAddPage_effect ha
    obtain ⟨bitmap, oom, hframe, -⟩ := getPageFrame_frame t
    have e0 : HeapEffect t {(p, 16)} (getPageFrame t).1 {(p, 16)} := by
      rw [hframe]
      exact heapEffect_outside rfl rfl rfl
    have e := (((kmalloc_effect (by decide) hm).trans e0).frame (listChunks pages)).add epd
    rw [zero_add] at e
    exact ⟨pt, rfl, e⟩
  · cases h

end Directory

end Creeks
