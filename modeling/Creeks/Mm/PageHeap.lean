import Creeks.Kmalloc.Owned
import Creeks.Lib.Intervals

/-!
# The kernel page heap

`get_page_from_heap` and `release_page_from_heap` of `mm.c`. The doubly linked list `kern_free_vm` is
the Lean list of its areas in link order. Where `list_entry` is applied to the list head itself, the
two words it takes for `vm_start` and `vm_end` are those of `headWords`.

`PageHeap s others` is the invariant the two functions keep: the areas are spaced, page-aligned and
inside the page heap, the last page is free, and the `struct vm_area` of each area is a live chunk
apart from the chunks in `others`. `getPageFromHeap_ok` and `releasePageFromHeap_ok` say once what
the two functions do.
-/

namespace Creeks
open Lib

/-- The pages of an area, as a property of addresses. -/
abbrev PageFree (areas : List VmArea) (x : Nat) : Prop := Covers VmArea.vmStart VmArea.vmEnd areas x

/-- `area->vm_start += PAGESIZE`, and the area is deleted when nothing is left of it. -/
def eatArea (s : Mm) (area : VmArea) (rest : List VmArea) : Except Stop Mm :=
  if wrap (area.vmStart + PAGESIZE) = area.vmEnd then kfree (s.withVm rest s.headWords) area.addr
  else .ok (s.withVm ({ area with vmStart := wrap (area.vmStart + PAGESIZE) } :: rest) s.headWords)

/-- `get_page_from_heap()`. -/
def getPageFromHeap (s : Mm) : Except Stop (Mm × Page) := do
  let r := getPageFrame s
  -- `p_addr < 0` compares an unsigned pointer
  if r.2 < 0 then .error .noFrame
  else
    match r.1.kernFreeVm with
    | [] => .error .pageHeapFull
    | area :: rest => do
      let vAddr := area.vmStart
      let s ← eatArea r.1 area rest
      let s ← pd0AddPage s vAddr r.2 0
      let q ← kmalloc s 16
      return (q.1, ⟨q.2, vAddr, r.2⟩)

/-- `next_area->vm_start`, the list head read as an area when the walk has reached the end. -/
def nextStart (s : Mm) : List VmArea → Nat
  | [] => s.headWords.1
  | next :: _ => next.vmStart

/-- `prev_area->vm_end`, the list head read as an area when nothing comes before. -/
def prevEnd (s : Mm) : List VmArea → Nat
  | [] => s.headWords.2
  | prev :: _ => prev.vmEnd

/-- `prev_area->vm_end = e`, for the areas before (last one first) and after a point of the list. -/
def setPrevEnd (s : Mm) (before after : List VmArea) (e : Nat) : Mm :=
  match before with
  | [] => s.withVm after (s.headWords.1, e)
  | prev :: l => s.withVm (({ prev with vmEnd := e } :: l).reverse ++ after) s.headWords

/-- `next_area->vm_start = e`, for the areas before (last one first) and after a point of the list. -/
def setNextStart (s : Mm) (before after : List VmArea) (e : Nat) : Mm :=
  match after with
  | [] => s.withVm before.reverse (e, s.headWords.2)
  | next :: l => s.withVm (before.reverse ++ { next with vmStart := e } :: l) s.headWords

/-- The end of `release_page_from_heap`: the page at `vAddr` joins the list of free areas. -/
def mergePage (s : Mm) (vAddr : Nat) : Except Stop (Mm × Nat) :=
  let z := scan VmArea.vmStart vAddr [] s.kernFreeVm
  if prevEnd s z.1 = vAddr then
    if wrap (vAddr + PAGESIZE) = nextStart s z.2 then
      match z.2 with
      -- `list_del` of the list head, and `kfree` of the address below it
      | [] => .error (.wild vAddr)
      | next :: after => do
        let s ← kfree (setPrevEnd s z.1 after next.vmEnd) next.addr
        return (s, 0)
    else return (setPrevEnd s z.1 z.2 (wrap (vAddr + PAGESIZE)), 0)
  else if nextStart s z.2 = wrap (vAddr + PAGESIZE) then
    return (setNextStart s z.1 z.2 vAddr, 0)
  else if nextStart s z.2 > wrap (vAddr + PAGESIZE) then do
    let q ← kmalloc s 16
    let area := ⟨q.2, vAddr, wrap (vAddr + PAGESIZE)⟩
    return (q.1.withVm (z.1.reverse ++ area :: z.2) q.1.headWords, 0)
  else .error .corruptedList

/-- `release_page_from_heap()`. -/
def releasePageFromHeap (s : Mm) (vAddr : Nat) : Except Stop (Mm × Nat) := do
  let pAddr ← getPAddr s vAddr
  if pAddr = 0 then return (s, 1)
  else
    let s ← pdRemovePage { s with memBitmap := releasePageFrame s.memBitmap pAddr } vAddr
    mergePage s vAddr

/-- The list after the first page of its first area has been taken. -/
def eatFirst (area : VmArea) (rest : List VmArea) : List VmArea :=
  if wrap (area.vmStart + PAGESIZE) = area.vmEnd then rest
  else { area with vmStart := wrap (area.vmStart + PAGESIZE) } :: rest

/-- A page address of the page heap. -/
structure HeapPage (v : Nat) : Prop where
  aligned : v % 4096 = 0
  lower : 0x00800000 ≤ v
  upper : v < 0x10000000

/-- A well-formed list of free areas: spaced, made of whole pages of the page heap, and with the last
page of the page heap free. -/
structure FreeVm (areas : List VmArea) : Prop where
  spaced : Spaced VmArea.vmStart VmArea.vmEnd areas
  aligned : ∀ a ∈ areas, a.vmStart % 4096 = 0 ∧ a.vmEnd % 4096 = 0
  bounds : ∀ a ∈ areas, 0x00800000 ≤ a.vmStart ∧ a.vmEnd ≤ 0x10000000
  top : PageFree areas 0x0FFFF000

lemma HeapPage.inTables {v : Nat} (hv : HeapPage v) : InTables v :=
  ⟨hv.lower, lt_trans hv.upper (by decide)⟩

/-- Spaced areas made of whole pages of the page heap. -/
structure AreaList (areas : List VmArea) : Prop where
  spaced : Spaced VmArea.vmStart VmArea.vmEnd areas
  aligned : ∀ a ∈ areas, a.vmStart % 4096 = 0 ∧ a.vmEnd % 4096 = 0
  bounds : ∀ a ∈ areas, 0x00800000 ≤ a.vmStart ∧ a.vmEnd ≤ 0x10000000

namespace AreaList

variable {area : VmArea} {areas rest l r mid : List VmArea} {v x : Nat}

/-- The first free page is a page of the page heap. -/
lemma first (h : AreaList (area :: rest)) : HeapPage area.vmStart ∧
    area.vmStart + 4096 ≤ area.vmEnd ∧ area.vmEnd ≤ 0x10000000 := by
  have hlt := h.spaced.nonempty area List.mem_cons_self
  obtain ⟨h1, h2⟩ := h.aligned area List.mem_cons_self
  obtain ⟨h3, h4⟩ := h.bounds area List.mem_cons_self
  exact ⟨⟨h1, h3, by omega⟩, by omega, h4⟩

/-- The end of the first free page does not wrap. -/
lemma first_wrap (h : AreaList (area :: rest)) :
    wrap (area.vmStart + PAGESIZE) = area.vmStart + 4096 := by
  have := h.first.1.upper
  exact wrap_of_lt (by simp only [PAGESIZE]; omega)

/-- What taking the first page does to the list. -/
lemma eat (h : AreaList (area :: rest)) : AreaList (eatFirst area rest) ∧
    ∀ x, PageFree (area :: rest) x ↔ (area.vmStart ≤ x ∧ x < area.vmStart + 4096) ∨
      PageFree (eatFirst area rest) x := by
  obtain ⟨⟨hal, hlo, -⟩, hlt, hhi⟩ := h.first
  obtain ⟨-, hrest, hgap⟩ := Spaced.cons_iff.1 h.spaced
  unfold eatFirst
  rw [h.first_wrap]
  by_cases hend : area.vmStart + 4096 = area.vmEnd
  · rw [if_pos hend]
    exact ⟨⟨hrest, fun a ha => h.aligned a (List.mem_cons_of_mem _ ha),
      fun a ha => h.bounds a (List.mem_cons_of_mem _ ha)⟩, fun x => by rw [PageFree, covers_cons, hend]⟩
  · rw [if_neg hend]
    refine ⟨⟨Spaced.cons_iff.2 ⟨?_, hrest, hgap⟩, ?_, ?_⟩, fun x => ?_⟩
    · change area.vmStart + 4096 < area.vmEnd
      omega
    · intro a ha
      rcases List.mem_cons.1 ha with rfl | ha
      · refine ⟨?_, (h.aligned area List.mem_cons_self).2⟩
        change (area.vmStart + 4096) % 4096 = 0
        omega
      · exact h.aligned a (List.mem_cons_of_mem _ ha)
    · intro a ha
      rcases List.mem_cons.1 ha with rfl | ha
      · refine ⟨?_, hhi⟩
        change 0x00800000 ≤ area.vmStart + 4096
        omega
      · exact h.bounds a (List.mem_cons_of_mem _ ha)
    · rw [PageFree, PageFree, covers_cons, covers_cons]
      change _ ↔ _ ∨ (area.vmStart + 4096 ≤ x ∧ x < area.vmEnd) ∨ _
      constructor
      · rintro (h | h)
        · by_cases hx : x < area.vmStart + 4096
          · exact .inl ⟨h.1, hx⟩
          · exact .inr (.inl ⟨not_lt.1 hx, h.2⟩)
        · exact .inr (.inr h)
      · rintro (h | h | h)
        · exact .inl ⟨h.1, by omega⟩
        · exact .inl ⟨by omega, h.2⟩
        · exact .inr h

/-- What is left of the list lies above the page that has been taken. -/
lemma eat_above (h : AreaList (area :: rest)) :
    ∀ b ∈ eatFirst area rest, area.vmStart + 4096 ≤ b.vmStart := by
  obtain ⟨-, hlt, -⟩ := h.first
  obtain ⟨-, -, hgap⟩ := Spaced.cons_iff.1 h.spaced
  intro b hb
  unfold eatFirst at hb
  rw [h.first_wrap] at hb
  split at hb
  · have := hgap b hb
    omega
  · rcases List.mem_cons.1 hb with rfl | hb
    · exact le_refl _
    · have := hgap b hb
      omega

/-- A stretch `mid` of the list is replaced by an area that covers it and the page at `v`. -/
lemma put {q : VmArea} (h : AreaList (l ++ mid ++ r)) (hq : q.vmStart < q.vmEnd)
    (hl : ∀ a ∈ l, a.vmEnd < q.vmStart) (hr : ∀ b ∈ r, q.vmEnd < b.vmStart)
    (hal : q.vmStart % 4096 = 0 ∧ q.vmEnd % 4096 = 0)
    (hbd : 0x00800000 ≤ q.vmStart ∧ q.vmEnd ≤ 0x10000000)
    (hcover : ∀ x, (q.vmStart ≤ x ∧ x < q.vmEnd) ↔
      PageFree mid x ∨ (v ≤ x ∧ x < v + 4096)) :
    AreaList (l ++ q :: r) ∧
      ∀ x, PageFree (l ++ q :: r) x ↔ PageFree (l ++ mid ++ r) x ∨ (v ≤ x ∧ x < v + 4096) := by
  have hmem : ∀ a ∈ l ++ q :: r, a = q ∨ a ∈ l ++ mid ++ r := by
    intro a ha
    simp only [List.mem_append, List.mem_cons] at ha ⊢
    tauto
  refine ⟨⟨h.spaced.replace hq hl hr, fun a ha => ?_, fun a ha => ?_⟩,
    fun x => covers_replace (hcover x)⟩
  · rcases hmem a ha with rfl | ha
    · exact hal
    · exact h.aligned a ha
  · rcases hmem a ha with rfl | ha
    · exact hbd
    · exact h.bounds a ha

/-- Extending an area to the right until it meets the next one. -/
lemma bridge {prev next : VmArea} (h : AreaList (l ++ prev :: next :: r)) (hprev : prev.vmEnd = v)
    (hnext : v + 4096 = next.vmStart) :
    AreaList (l ++ { prev with vmEnd := next.vmEnd } :: r) ∧
      ∀ x, PageFree (l ++ { prev with vmEnd := next.vmEnd } :: r) x ↔
        PageFree (l ++ prev :: next :: r) x ∨ (v ≤ x ∧ x < v + 4096) := by
  have hsplit : l ++ prev :: next :: r = l ++ [prev, next] ++ r := by simp
  obtain ⟨-, hs, hl⟩ := Spaced.append_iff.1 h.spaced
  obtain ⟨hp, hs, -⟩ := Spaced.cons_iff.1 hs
  obtain ⟨hn, -, hr⟩ := Spaced.cons_iff.1 hs
  have hap := h.aligned prev (by simp)
  have han := h.aligned next (by simp)
  have hbp := h.bounds prev (by simp)
  have hbn := h.bounds next (by simp)
  rw [hsplit] at h ⊢
  refine h.put ?_ (fun a ha => hl a ha prev List.mem_cons_self) hr ⟨hap.1, han.2⟩ ⟨hbp.1, hbn.2⟩ ?_
  · change prev.vmStart < next.vmEnd
    omega
  · intro x
    simp only [covers_cons, covers_nil, or_false]
    omega

/-- Extending an area to the right, short of the next one. -/
lemma extendRight {prev : VmArea} (h : AreaList (l ++ prev :: r)) (hv : HeapPage v)
    (hprev : prev.vmEnd = v) (hr : ∀ b ∈ r, v + 4096 < b.vmStart) :
    AreaList (l ++ { prev with vmEnd := v + 4096 } :: r) ∧
      ∀ x, PageFree (l ++ { prev with vmEnd := v + 4096 } :: r) x ↔
        PageFree (l ++ prev :: r) x ∨ (v ≤ x ∧ x < v + 4096) := by
  have hsplit : l ++ prev :: r = l ++ [prev] ++ r := by simp
  obtain ⟨-, hs, hl⟩ := Spaced.append_iff.1 h.spaced
  obtain ⟨hp, -, -⟩ := Spaced.cons_iff.1 hs
  have hap := h.aligned prev (by simp)
  have hbp := h.bounds prev (by simp)
  have hal := hv.aligned
  have hup := hv.upper
  rw [hsplit] at h ⊢
  refine h.put ?_ (fun a ha => hl a ha prev List.mem_cons_self) hr ⟨hap.1, ?_⟩ ⟨hbp.1, ?_⟩ ?_
  · change prev.vmStart < v + 4096
    omega
  · change (v + 4096) % 4096 = 0
    omega
  · change v + 4096 ≤ _
    omega
  · intro x
    simp only [covers_cons, covers_nil, or_false]
    omega

/-- Extending an area to the left. -/
lemma extendLeft {next : VmArea} (h : AreaList (l ++ next :: r)) (hv : HeapPage v)
    (hl : ∀ a ∈ l, a.vmEnd < v) (hnext : next.vmStart = v + 4096) :
    AreaList (l ++ { next with vmStart := v } :: r) ∧
      ∀ x, PageFree (l ++ { next with vmStart := v } :: r) x ↔
        PageFree (l ++ next :: r) x ∨ (v ≤ x ∧ x < v + 4096) := by
  have hsplit : l ++ next :: r = l ++ [next] ++ r := by simp
  obtain ⟨-, hs, -⟩ := Spaced.append_iff.1 h.spaced
  obtain ⟨hn, -, hr⟩ := Spaced.cons_iff.1 hs
  have han := h.aligned next (by simp)
  have hbn := h.bounds next (by simp)
  rw [hsplit] at h ⊢
  refine h.put ?_ hl hr ⟨hv.aligned, han.2⟩ ⟨hv.lower, hbn.2⟩ ?_
  · change v < next.vmEnd
    omega
  · intro x
    simp only [covers_cons, covers_nil, or_false]
    omega

/-- Inserting an area of one page. -/
lemma insert {q : VmArea} (h : AreaList (l ++ r)) (hv : HeapPage v) (hl : ∀ a ∈ l, a.vmEnd < v)
    (hr : ∀ b ∈ r, v + 4096 < b.vmStart) (hs : q.vmStart = v) (he : q.vmEnd = v + 4096) :
    AreaList (l ++ q :: r) ∧
      ∀ x, PageFree (l ++ q :: r) x ↔ PageFree (l ++ r) x ∨ (v ≤ x ∧ x < v + 4096) := by
  have hsplit : l ++ r = l ++ [] ++ r := by simp
  have hal := hv.aligned
  have hlo := hv.lower
  have hup := hv.upper
  rw [hsplit] at h ⊢
  refine h.put (by omega) (by rw [hs]; exact hl) (by rw [he]; exact hr) ⟨by omega, by omega⟩
    ⟨by omega, by omega⟩ ?_
  intro x
  simp only [covers_nil, false_or]
  omega

/-- Around a page that is not free: the areas passed by the walk end at or below it, the others start
at or above its end. -/
lemma split (h : AreaList areas) (hv : HeapPage v) (hfree : ¬ PageFree areas v) :
    ∃ before after, scan VmArea.vmStart v [] areas = (before, after) ∧
      areas = before.reverse ++ after ∧ (∀ a ∈ before, a.vmEnd ≤ v) ∧
      ∀ b ∈ after, v + 4096 ≤ b.vmStart := by
  obtain ⟨h1, h2, h3⟩ := @scan_spec _ VmArea.vmStart areas v [] nofun
  generalize scan VmArea.vmStart v [] areas = z at h1 h2 h3 ⊢
  obtain ⟨before, after⟩ := z
  rw [List.reverse_nil, List.nil_append] at h1
  subst h1
  have hend : ∀ a ∈ before, a.vmEnd ≤ v := fun a ha =>
    hi_le_of_not_covers hfree (List.mem_append_left _ (List.mem_reverse.2 ha)) (h2 a ha)
  refine ⟨before, after, rfl, rfl, hend, fun b hb => ?_⟩
  have := scan_above (Spaced.append_iff.1 h.spaced).2.1 h3 b hb
  have := (h.aligned b (List.mem_append_right _ hb)).1
  have := hv.aligned
  omega

/-- Where the page does not touch the last area before it, it touches none of them. -/
lemma apart {prev : VmArea} {before after : List VmArea}
    (h : AreaList ((prev :: before).reverse ++ after)) (hend : ∀ a ∈ prev :: before, a.vmEnd ≤ v)
    (hne : prev.vmEnd ≠ v) : ∀ a ∈ (prev :: before).reverse, a.vmEnd < v := by
  intro a ha
  rw [List.mem_reverse] at ha
  refine lt_of_le_of_ne (hend a ha) fun e => ?_
  rcases List.mem_cons.1 ha with rfl | ha
  · exact hne e
  · have hsp := h.spaced
    rw [List.reverse_cons, List.append_assoc, Spaced.append_iff] at hsp
    have h1 := hsp.2.2 a (List.mem_reverse.2 ha) prev (by simp)
    have h2 := hend prev List.mem_cons_self
    have h3 := hsp.2.1.nonempty prev (by simp)
    omega

/-- What comes after an area that starts above a page starts above it too. -/
lemma above {next : VmArea} (h : AreaList (l ++ next :: r)) (hnext : v < next.vmStart) :
    ∀ b ∈ next :: r, v < b.vmStart := by
  intro b hb
  rcases List.mem_cons.1 hb with rfl | hb
  · exact hnext
  · obtain ⟨-, hs, -⟩ := Spaced.append_iff.1 h.spaced
    obtain ⟨hn, -, hr⟩ := Spaced.cons_iff.1 hs
    have := hr b hb
    omega

end AreaList

namespace FreeVm

variable {area : VmArea} {areas areas' rest l r : List VmArea} {v x : Nat}

lemma list (h : FreeVm areas) : AreaList areas := ⟨h.spaced, h.aligned, h.bounds⟩

/-- A list that covers what a well-formed one covers, and a page more. -/
lemma of_cover (h : FreeVm areas) (h' : AreaList areas' ∧
      ∀ x, PageFree areas' x ↔ PageFree areas x ∨ (v ≤ x ∧ x < v + 4096)) :
    FreeVm areas' ∧ ∀ x, PageFree areas' x ↔ PageFree areas x ∨ (v ≤ x ∧ x < v + 4096) := by
  obtain ⟨⟨h1, h2, h3⟩, hcover⟩ := h'
  exact ⟨⟨h1, h2, h3, (hcover _).2 (.inl h.top)⟩, hcover⟩

/-- The first free page is a page of the page heap. -/
lemma first (h : FreeVm (area :: rest)) : HeapPage area.vmStart ∧ area.vmStart + 4096 ≤ area.vmEnd ∧
    area.vmEnd ≤ 0x10000000 := h.list.first

/-- What taking the first page does to the list, while it is not the last one. -/
lemma eat (h : FreeVm (area :: rest)) (hne : eatFirst area rest ≠ []) :
    FreeVm (eatFirst area rest) ∧
      ∀ x, PageFree (area :: rest) x ↔ (area.vmStart ≤ x ∧ x < area.vmStart + 4096) ∨
        PageFree (eatFirst area rest) x := by
  obtain ⟨⟨h1, h2, h3⟩, hcover⟩ := h.list.eat
  refine ⟨⟨h1, h2, h3, ?_⟩, hcover⟩
  rcases (hcover _).1 h.top with htop | htop
  · -- an area that is left starts above the last page
    obtain ⟨b, hb⟩ := List.exists_mem_of_ne_nil _ hne
    have := h.list.eat_above b hb
    have := h1.nonempty b hb
    have := h2 b hb
    have := h3 b hb
    omega
  · exact htop

/-- A page one address of which is free is free. -/
lemma page (h : FreeVm areas) (hv : v % 4096 = 0) (h1 : v ≤ x) (h2 : x < v + 4096)
    (hx : PageFree areas x) : PageFree areas v := by
  obtain ⟨a, ha, hlo, hhi⟩ := hx
  have := h.aligned a ha
  exact ⟨a, ha, by omega, by omega⟩

/-- Above a page that is not free there is always an area, and no area touches the page from within:
the areas passed by the walk end at or below it, the next one starts at or above its end. -/
lemma next (h : FreeVm areas) (hv : HeapPage v) (hfree : ¬ PageFree areas v) :
    ∃ before next after, scan VmArea.vmStart v [] areas = (before, next :: after) ∧
      areas = before.reverse ++ next :: after ∧ (∀ a ∈ before, a.vmEnd ≤ v) ∧
      v + 4096 ≤ next.vmStart := by
  obtain ⟨before, after, hscan, hlist, hend, hnext⟩ := h.list.split hv hfree
  cases after with
  | nil =>
    obtain ⟨a, ha, -, htop⟩ := h.top
    rw [hlist, List.append_nil, List.mem_reverse] at ha
    have := hend a ha
    have := hv.aligned
    have := hv.upper
    omega
  | cons next after =>
    exact ⟨before, next, after, hscan, hlist, hend, hnext next List.mem_cons_self⟩

end FreeVm

/-- The chunks of the areas of a list. -/
def chunksOf (areas : List VmArea) : List (Nat × Nat) := areas.map fun a => (a.addr, 16)

@[simp] lemma chunksOf_cons (a : VmArea) (l : List VmArea) :
    chunksOf (a :: l) = (a.addr, 16) :: chunksOf l := rfl

@[simp] lemma chunksOf_append (l r : List VmArea) :
    chunksOf (l ++ r) = chunksOf l ++ chunksOf r := List.map_append

/-- The invariant of the page heap: `others` are live chunks that do not belong to the list. -/
structure PageHeap (s : Mm) (others : List (Nat × Nat)) : Prop where
  map : KernelMap s.ram s.dir
  owned : Owned s (chunksOf s.kernFreeVm ++ others)
  areas : FreeVm s.kernFreeVm

/-- The state in which a frame has been taken and mapped at `v`, and the list of free areas is
`areas`. -/
def pageTaken (s : Mm) (v : Nat) (areas : List VmArea) : Mm :=
  { (getPageFrame s).1 with
    ram := setKernPte s.ram v ((getPageFrame s).2 ||| (PG_PRESENT ||| PG_WRITE ||| 0))
    kernFreeVm := areas
    headWords := s.headWords }

/-- The state in which the page at `v` has been unmapped and its frame released, and the list of free
areas is `areas`. -/
def pageDropped (s : Mm) (v : Nat) (areas : List VmArea) : Mm :=
  { s with
    memBitmap := releasePageFrame s.memBitmap (frameOf (kernPte s.ram v) * 4096)
    ram := setKernPte s.ram v (kernPte s.ram v &&& 0xFFFFFFFE)
    kernFreeVm := areas }

section Fields

variable (s : Mm) (v : Nat) (areas : List VmArea)

@[simp] lemma pageTaken_memBitmap :
    (pageTaken s v areas).memBitmap = (getPageFrame s).1.memBitmap := rfl
@[simp] lemma pageTaken_ram : (pageTaken s v areas).ram =
    setKernPte s.ram v ((getPageFrame s).2 ||| (PG_PRESENT ||| PG_WRITE ||| 0)) := rfl
@[simp] lemma pageTaken_dir : (pageTaken s v areas).dir = s.dir := by
  change (getPageFrame s).1.dir = s.dir
  simp
@[simp] lemma pageTaken_kernFreeVm : (pageTaken s v areas).kernFreeVm = areas := rfl
@[simp] lemma pageTaken_headWords : (pageTaken s v areas).headWords = s.headWords := rfl
@[simp] lemma pageTaken_kernHeap : (pageTaken s v areas).kernHeap = s.kernHeap := by
  change (getPageFrame s).1.kernHeap = s.kernHeap
  simp
@[simp] lemma pageDropped_memBitmap : (pageDropped s v areas).memBitmap =
    releasePageFrame s.memBitmap (frameOf (kernPte s.ram v) * 4096) := rfl
@[simp] lemma pageDropped_ram : (pageDropped s v areas).ram =
    setKernPte s.ram v (kernPte s.ram v &&& 0xFFFFFFFE) := rfl
@[simp] lemma pageDropped_dir : (pageDropped s v areas).dir = s.dir := rfl
@[simp] lemma pageDropped_kernFreeVm : (pageDropped s v areas).kernFreeVm = areas := rfl
@[simp] lemma pageDropped_headWords : (pageDropped s v areas).headWords = s.headWords := rfl
@[simp] lemma pageDropped_kernHeap : (pageDropped s v areas).kernHeap = s.kernHeap := rfl
@[simp] lemma pageDropped_mem : (pageDropped s v areas).mem = s.mem := rfl
@[simp] lemma pageDropped_oom : (pageDropped s v areas).oom = s.oom := rfl
@[simp] lemma pageDropped_stale : (pageDropped s v areas).stale = s.stale := rfl

end Fields

namespace PageHeap

variable {s s' : Mm} {others : List (Nat × Nat)} {v : Nat} {pg : Page}

/-- What `get_page_from_heap` does before it allocates the `struct page`. -/
lemma get (ph : PageHeap s others) : ∃ area rest s1, s.kernFreeVm = area :: rest ∧
    (∃ mem used, s1 = (pageTaken s area.vmStart (eatFirst area rest)).withHeap mem used) ∧
    KernelMap s1.ram s1.dir ∧
    Owned s1 (chunksOf (eatFirst area rest) ++ others) ∧
    getPageFromHeap s =
      (kmalloc s1 16 >>= fun q => .ok (q.1, ⟨q.2, area.vmStart, (getPageFrame s).2⟩)) := by
  obtain ⟨bitmap, oom, hframe, -⟩ := getPageFrame_frame s
  have hvm : (getPageFrame s).1.kernFreeVm = s.kernFreeVm := by rw [hframe]
  have hhead : (getPageFrame s).1.headWords = s.headWords := by rw [hframe]
  have map := ph.map
  have owned := ph.owned
  have areas := ph.areas
  generalize s.kernFreeVm = l at hvm owned areas
  cases l with
  | nil => exact absurd areas.top covers_nil
  | cons area rest =>
    obtain ⟨hpage, hlt, -⟩ := areas.first
    have hupper := hpage.upper
    -- the area is freed when its only page has been taken
    obtain ⟨mem, used, hfree, howned⟩ : ∃ mem used,
        eatArea (getPageFrame s).1 area rest =
          .ok (((getPageFrame s).1.withVm (eatFirst area rest) s.headWords).withHeap mem used) ∧
        Owned (((getPageFrame s).1.withVm (eatFirst area rest) s.headWords).withHeap mem used)
          (chunksOf (eatFirst area rest) ++ others) := by
      have h0 : Owned ((getPageFrame s).1.withVm (eatFirst area rest) s.headWords)
          ((area.addr, 16) :: (chunksOf rest ++ others)) :=
        owned.congr (by simp) (by simp)
      rw [eatArea, hhead]
      by_cases hend : wrap (area.vmStart + PAGESIZE) = area.vmEnd
      · rw [if_pos hend]
        rw [eatFirst, if_pos hend] at h0 ⊢
        obtain ⟨mem, used, e, h⟩ := h0.kfree List.mem_cons_self
        rw [List.erase_cons_head] at h
        exact ⟨mem, used, e, h⟩
      · rw [if_neg hend]
        rw [eatFirst, if_neg hend] at h0 ⊢
        exact ⟨_, _, congrArg _ (withHeap_self _), by rw [← withHeap_self]; exact h0⟩
    have hmap : KernelMap
        (((getPageFrame s).1.withVm (eatFirst area rest) s.headWords).withHeap mem used).ram
        (((getPageFrame s).1.withVm (eatFirst area rest) s.headWords).withHeap mem used).dir := by
      simpa using map
    have hadd := pd0AddPage_eq hmap hpage.inTables (getPageFrame s).2 0
    rw [withHeap_update_ram, withHeap_ram, withVm_ram, getPageFrame_ram] at hadd
    refine ⟨area, rest, _, rfl, ⟨mem, used, rfl⟩, ?_, ?_, ?_⟩
    · rw [withHeap_ram, withHeap_dir, pageTaken_ram, pageTaken_dir]
      exact map.setKernPte hpage.inTables _
    · exact howned.congr (by rw [withHeap_mem, withHeap_mem]) rfl
    · rw [getPageFromHeap]
      simp only [Nat.not_lt_zero, if_false, hvm]
      rw [hfree, ok_bind, hadd, ok_bind]
      rfl

/-- What `get_page_from_heap` does. The invariant is kept when a page is left after it. -/
lemma get_ok (ph : PageHeap s others) (h : getPageFromHeap s = .ok (s', pg)) :
    ∃ area rest, s.kernFreeVm = area :: rest ∧
      pg.vAddr = area.vmStart ∧ pg.pAddr = (getPageFrame s).2 ∧
      s'.kernFreeVm = eatFirst area rest ∧
      Grows (pageTaken s area.vmStart (eatFirst area rest)) s' ∧
      (s'.kernFreeVm ≠ [] → PageHeap s' ((pg.addr, 16) :: others)) := by
  obtain ⟨area, rest, s1, hvm, ⟨mem, used, hs1⟩, hmap, howned, e⟩ := ph.get
  rw [e] at h
  obtain ⟨⟨s2, p⟩, hk, h⟩ := bind_ok.1 h
  obtain ⟨rfl, rfl⟩ := Prod.mk.inj (Except.ok.inj h)
  obtain ⟨howned', -, hgrows', hmap'⟩ := howned.kmalloc hmap (by decide) hk
  have hall := (hs1 ▸ hgrows').of_withHeap
  have hlist : s2.kernFreeVm = eatFirst area rest := by
    rw [hall.fields.1, pageTaken_kernFreeVm]
  refine ⟨area, rest, hvm, rfl, rfl, hlist, hall, fun hne => ⟨hmap', ?_, ?_⟩⟩
  · rw [hlist]
    exact howned'.perm List.perm_middle.symm
  · rw [hlist] at hne ⊢
    exact ((hvm ▸ ph.areas).eat hne).1

/-- `get_page_from_heap` returns unless the kernel heap cannot grow. -/
lemma get_total (ph : PageHeap s others) : (∃ r, getPageFromHeap s = .ok r) ∨
    (KERN_HEAP_LIM < s.kernHeap + growPages 16 * PAGESIZE ∧
      getPageFromHeap s = .error (.fault s.kernHeap)) := by
  obtain ⟨area, rest, s1, -, ⟨mem, used, hs1⟩, hmap, howned, e⟩ := ph.get
  have hk : s1.kernHeap = s.kernHeap := by rw [hs1, withHeap_kernHeap, pageTaken_kernHeap]
  rw [e]
  have hsize : 16 + 4 < KERN_HEAP_LIM - KERN_HEAP := by decide
  rcases howned.kmalloc_total hmap hsize with ⟨⟨s2, p⟩, h⟩ | ⟨hlim, h⟩
  · exact .inl ⟨_, by rw [h, ok_bind]⟩
  · exact .inr ⟨hk ▸ hlim, by rw [h, error_bind, hk]⟩

/-- The invariant only depends on the heap through `Owned`. -/
lemma withHeap {mem : Mem} {used : Nat} {others' : List (Nat × Nat)} (ph : PageHeap s others)
    (howned : Owned (s.withHeap mem used) (chunksOf s.kernFreeVm ++ others')) :
    PageHeap (s.withHeap mem used) others' where
  map := by rw [withHeap_ram, withHeap_dir]; exact ph.map
  owned := by rw [withHeap_kernFreeVm]; exact howned
  areas := by rw [withHeap_kernFreeVm]; exact ph.areas

/-- `kfree` of a chunk that does not belong to the list. -/
lemma kfree {p n : Nat} (ph : PageHeap s others) (hp : (p, n) ∈ others) :
    ∃ mem used, Creeks.kfree s p = .ok (s.withHeap mem used) ∧
      PageHeap (s.withHeap mem used) (others.erase (p, n)) := by
  obtain ⟨mem, used, e, h⟩ := ph.owned.kfree (List.mem_append_right _ hp)
  have hnot : (p, n) ∉ chunksOf s.kernFreeVm := fun hq =>
    (List.nodup_append.1 ph.owned.1).2.2 _ hq _ hp rfl
  rw [List.erase_append_right _ hnot] at h
  exact ⟨mem, used, e, ph.withHeap h⟩

/-- What `release_page_from_heap` does on a mapped page before it looks at the list. -/
lemma drop (map : KernelMap s.ram s.dir) (hv : HeapPage v)
    (hp : (kernPte s.ram v).testBit 0 = true) (hf : frameOf (kernPte s.ram v) ≠ 0) :
    getPAddr s v = .ok (frameOf (kernPte s.ram v) * 4096) ∧
      frameOf (kernPte s.ram v) * 4096 ≠ 0 ∧
      pdRemovePage { s with
        memBitmap := releasePageFrame s.memBitmap (frameOf (kernPte s.ram v) * 4096) } v =
        .ok (pageDropped s v s.kernFreeVm) := by
  refine ⟨?_, by omega, ?_⟩
  · rw [getPAddr_eq map hv.inTables, if_pos hp, hv.aligned, Nat.add_zero]
  · rw [pdRemovePage_eq (s := { s with
      memBitmap := releasePageFrame s.memBitmap (frameOf (kernPte s.ram v) * 4096) })
      map hv.inTables hp hf]
    rfl

/-- The invariant once the page at `v` has been unmapped and the list is well formed again. -/
lemma dropped {areas : List VmArea} (map : KernelMap s.ram s.dir) (hv : HeapPage v)
    (hareas : FreeVm areas)
    (howned : Owned s (chunksOf areas ++ others)) : PageHeap (pageDropped s v areas) others where
  map := map.setKernPte hv.inTables _
  owned := howned.congr rfl rfl
  areas := hareas

lemma pageDropped_withVm (areas areas' : List VmArea) :
    (pageDropped s v areas).withVm areas' s.headWords = pageDropped s v areas' := rfl

/-- The areas on either side of the page have become one, and the node of the second is given back. -/
lemma bridged {prev next : VmArea} {before after : List VmArea} (map : KernelMap s.ram s.dir) (hv : HeapPage v)
    (owned : Owned s (chunksOf (before ++ prev :: next :: after) ++ others))
    (hareas : FreeVm (before ++ { prev with vmEnd := next.vmEnd } :: after)) :
    ∃ mem used, Creeks.kfree (pageDropped s v (before ++ { prev with vmEnd := next.vmEnd } :: after)) next.addr =
        .ok ((pageDropped s v (before ++ { prev with vmEnd := next.vmEnd } :: after)).withHeap mem used) ∧
      PageHeap ((pageDropped s v (before ++ { prev with vmEnd := next.vmEnd } :: after)).withHeap mem used)
        others := by
  have hchunks : Owned s ((next.addr, 16) ::
      (chunksOf (before ++ { prev with vmEnd := next.vmEnd } :: after) ++ others)) := by
    refine owned.perm ?_
    have hmid : ((prev.addr, 16) :: (next.addr, 16) :: chunksOf after).Perm
        ((next.addr, 16) :: (prev.addr, 16) :: chunksOf after) := .swap _ _ _
    simpa using ((hmid.append_left (chunksOf before)).trans List.perm_middle).append_right others
  have hrest := hchunks.mono (List.nodup_cons.1 hchunks.1).2 (List.subset_cons_self _ _)
  have hown : Owned (pageDropped s v (before ++ { prev with vmEnd := next.vmEnd } :: after)) _ :=
    hchunks.congr rfl rfl
  obtain ⟨mem, used, e, hown⟩ := hown.kfree List.mem_cons_self
  rw [List.erase_cons_head] at hown
  exact ⟨mem, used, e, (dropped map hv hareas hrest).withHeap hown⟩

/-- The page has become an area of its own, with a new node. -/
lemma inserted {before after : List VmArea} {s2 : Mm} {p : Nat} (map : KernelMap s.ram s.dir) (hv : HeapPage v)
    (owned : Owned s (chunksOf (before ++ after) ++ others))
    (h : kmalloc (pageDropped s v (before ++ after)) 16 = .ok (s2, p))
    (hareas : FreeVm (before ++ ⟨p, v, v + 4096⟩ :: after)) :
    PageHeap (s2.withVm (before ++ ⟨p, v, v + 4096⟩ :: after) s2.headWords) others ∧
      Grows (pageDropped s v (before ++ ⟨p, v, v + 4096⟩ :: after))
        (s2.withVm (before ++ ⟨p, v, v + 4096⟩ :: after) s2.headWords) := by
  have hown : Owned (pageDropped s v (before ++ after)) (chunksOf (before ++ after) ++ others) :=
    owned.congr rfl rfl
  have hmap : KernelMap (pageDropped s v (before ++ after)).ram (pageDropped s v (before ++ after)).dir :=
    map.setKernPte hv.inTables _
  obtain ⟨howned', -, hgrows, hmap'⟩ := hown.kmalloc hmap (by decide) h
  refine ⟨⟨?_, ?_, ?_⟩, ?_⟩
  · rw [withVm_ram, withVm_dir]
    exact hmap'
  · rw [withVm_kernFreeVm]
    refine (howned'.perm ?_).congr (withVm_mem _ _ _) (withVm_kernHeap _ _ _)
    have hmid : (chunksOf before ++ (p, 16) :: chunksOf after).Perm
        ((p, 16) :: (chunksOf before ++ chunksOf after)) := List.perm_middle
    simpa using hmid.symm.append_right others
  · rw [withVm_kernFreeVm]
    exact hareas
  · rw [hgrows.fields.2.1]
    exact hgrows.withVm _ _

/-- The page that has been unmapped joins the list of free areas. -/
lemma merge (ph : PageHeap s others) (hv : HeapPage v) (hfree : ¬ PageFree s.kernFreeVm v)
    (hhead : s.headWords.2 ≠ v) :
    (∃ s', mergePage (pageDropped s v s.kernFreeVm) v = .ok (s', 0) ∧ PageHeap s' others ∧
      (∀ x, PageFree s'.kernFreeVm x ↔
        PageFree s.kernFreeVm x ∨ (v ≤ x ∧ x < v + 4096)) ∧
      Grows (pageDropped s v s'.kernFreeVm) s') ∨
    (KERN_HEAP_LIM < s.kernHeap + growPages 16 * PAGESIZE ∧
      mergePage (pageDropped s v s.kernFreeVm) v = .error (.fault s.kernHeap)) := by
  obtain ⟨before, next, after, hscan, hlist, hend, hnext⟩ := ph.areas.next hv hfree
  have hupper := hv.upper
  have hwrap : wrap (v + PAGESIZE) = v + 4096 := wrap_of_lt (by simp only [PAGESIZE]; omega)
  have map := ph.map
  have owned := ph.owned
  have areas := ph.areas
  -- what is left to show once the new list is known
  have finish : ∀ areas', FreeVm areas' →
      (∀ x, PageFree areas' x ↔ PageFree s.kernFreeVm x ∨ (v ≤ x ∧ x < v + 4096)) →
      Owned s (chunksOf areas' ++ others) →
      PageHeap (pageDropped s v areas') others ∧
        (∀ x, PageFree (pageDropped s v areas').kernFreeVm x ↔
          PageFree s.kernFreeVm x ∨ (v ≤ x ∧ x < v + 4096)) ∧
        Grows (pageDropped s v (pageDropped s v areas').kernFreeVm) (pageDropped s v areas') :=
    fun areas' h1 h2 h3 => ⟨dropped map hv h1 h3, h2, .refl _⟩
  unfold mergePage
  simp only [pageDropped_kernFreeVm, hscan, hwrap, nextStart]
  generalize s.kernFreeVm = areas0 at *
  subst hlist
  by_cases hprev : prevEnd (pageDropped s v (before.reverse ++ next :: after)) before = v
  · rw [if_pos hprev]
    cases before with
    | nil => exact absurd hprev hhead
    | cons prev bs =>
      change prev.vmEnd = v at hprev
      have hl : (prev :: bs).reverse ++ next :: after = bs.reverse ++ prev :: next :: after := by
        simp
      rw [hl] at areas owned finish ⊢
      by_cases hmeet : v + 4096 = next.vmStart
      · rw [if_pos hmeet]
        left
        obtain ⟨hareas', hcover⟩ := areas.of_cover (areas.list.bridge hprev hmeet)
        obtain ⟨mem, used, e, hph⟩ := bridged map hv owned hareas'
        refine ⟨_, ?_, hph, by rwa [withHeap_kernFreeVm], .heap _ mem used⟩
        have hset : setPrevEnd (pageDropped s v (bs.reverse ++ prev :: next :: after)) (prev :: bs)
            after next.vmEnd =
            pageDropped s v (bs.reverse ++ { prev with vmEnd := next.vmEnd } :: after) := by
          simp [setPrevEnd, pageDropped_withVm]
        rw [hset, e, ok_bind]
        rfl
      · rw [if_neg hmeet]
        have hlist : AreaList ((bs.reverse ++ [prev]) ++ next :: after) := by
          simpa using areas.list
        obtain ⟨hareas', hcover⟩ := areas.of_cover (areas.list.extendRight hv hprev
          (hlist.above (by omega)))
        exact .inl ⟨_, rfl, finish _ (by simpa using hareas') (by simpa using hcover) (by simpa using owned)⟩
  · rw [if_neg hprev]
    -- the page touches no area on its left
    have hl : ∀ a ∈ before.reverse, a.vmEnd < v := by
      cases before with
      | nil => exact nofun
      | cons prev bs => exact areas.list.apart hend hprev
    by_cases hmeet : next.vmStart = v + 4096
    · rw [if_pos hmeet]
      obtain ⟨hareas', hcover⟩ := areas.of_cover (areas.list.extendLeft hv hl hmeet)
      exact .inl ⟨_, rfl, finish _ hareas' hcover (by simpa using owned)⟩
    · rw [if_neg hmeet, if_pos (by omega)]
      have hown : Owned (pageDropped s v (before.reverse ++ next :: after))
          (chunksOf (before.reverse ++ next :: after) ++ others) := owned.congr rfl rfl
      have hmap : KernelMap (pageDropped s v (before.reverse ++ next :: after)).ram
          (pageDropped s v (before.reverse ++ next :: after)).dir := map.setKernPte hv.inTables _
      have hsize : 16 + 4 < KERN_HEAP_LIM - KERN_HEAP := by decide
      rcases hown.kmalloc_total hmap hsize with ⟨⟨s2, p⟩, h⟩ | ⟨hlim, h⟩
      · left
        obtain ⟨hareas', hcover⟩ := areas.of_cover (areas.list.insert (q := ⟨p, v, v + 4096⟩) hv hl
          (areas.list.above (by omega)) rfl rfl)
        obtain ⟨hph, hgrows⟩ := inserted map hv owned h hareas'
        refine ⟨_, by rw [h, ok_bind]; rfl, hph, ?_, ?_⟩
        · rw [withVm_kernFreeVm]
          exact hcover
        · rw [withVm_kernFreeVm]
          exact hgrows
      · exact .inr ⟨hlim, by rw [h, error_bind, pageDropped_kernHeap]⟩

/-- What `release_page_from_heap` does on a mapped page that is not free. -/
lemma release (ph : PageHeap s others) (hv : HeapPage v) (hfree : ¬ PageFree s.kernFreeVm v)
    (hp : (kernPte s.ram v).testBit 0 = true) (hf : frameOf (kernPte s.ram v) ≠ 0)
    (hhead : s.headWords.2 ≠ v) :
    (∃ s', releasePageFromHeap s v = .ok (s', 0) ∧ PageHeap s' others ∧
      (∀ x, PageFree s'.kernFreeVm x ↔
        PageFree s.kernFreeVm x ∨ (v ≤ x ∧ x < v + 4096)) ∧
      Grows (pageDropped s v s'.kernFreeVm) s') ∨
    (KERN_HEAP_LIM < s.kernHeap + growPages 16 * PAGESIZE ∧
      releasePageFromHeap s v = .error (.fault s.kernHeap)) := by
  obtain ⟨h1, h2, h3⟩ := drop ph.map hv hp hf
  have e : releasePageFromHeap s v = mergePage (pageDropped s v s.kernFreeVm) v := by
    rw [releasePageFromHeap, h1, ok_bind, if_neg h2, h3, ok_bind]
  rw [e]
  exact ph.merge hv hfree hhead

end PageHeap

end Creeks
