import Creeks.Kmalloc.Safety

/-!
# Chunks and growth

Two views of the kernel heap for the code that calls `kmalloc` and `kfree`. `Owned s owned` says that
the chunks in `owned` are live allocations of a well-formed heap. `Grows s t` says that the heap has
only been written and grown on the way from `s` to `t`: what is kept by a write in the heap and by
one more page (`Grows.invariant`) is kept by `kmalloc` and `kfree`.
-/

namespace Creeks
open Lib

/-- The heap is well formed and the chunks in `owned` are live allocations of it. -/
def Owned (s : Mm) (owned : List (Nat × Nat)) : Prop :=
  owned.Nodup ∧ ∃ chunks live, HeapRep s chunks live ∧ owned ⊆ live

/-- Writes in the kernel heap and growth of it by whole pages. -/
inductive Grows : Mm → Mm → Prop where
  | heap (s mem used) : Grows s (s.withHeap mem used)
  | page {s t} :
    s.kernHeap + PAGESIZE ≤ KERN_HEAP_LIM →
    Grows (growStep s) t →
    Grows s t

/-- What is kept by a write in the heap and by one more page is kept by growth. -/
lemma Grows.invariant {P : Mm → Prop} (heap : ∀ s mem used, P s → P (s.withHeap mem used))
    (page : ∀ s, s.kernHeap + PAGESIZE ≤ KERN_HEAP_LIM → P s → P (growStep s)) {s t : Mm}
    (h : Grows s t) (init : P s) : P t := by
  induction h with
  | heap s mem used => exact heap s mem used init
  | page hlim _ ih => exact ih (page _ hlim init)

@[simp] lemma withHeap_withHeap (s : Mm) (m m' : Mem) (u u' : Nat) :
    (s.withHeap m u).withHeap m' u' = s.withHeap m' u' := by
  cases s; rfl

/-- Every state is itself with its own heap. -/
lemma withHeap_self (s : Mm) : s = s.withHeap s.mem s.kmallocUsed := by
  cases s; rfl

/-- Writing page tables and writing the heap commute. -/
lemma withHeap_update_ram (s : Mm) (mem : Mem) (used : Nat) (ram : Nat → Nat → Nat) :
    { s.withHeap mem used with ram := ram } = Mm.withHeap { s with ram := ram } mem used := by
  cases s; rfl

@[simp] lemma growStep_kernHeap (s : Mm) : (growStep s).kernHeap = s.kernHeap + PAGESIZE := rfl

/-- Taking a frame does not depend on the free list of the page heap. -/
lemma getPageFrame_withVm (s : Mm) (areas : List VmArea) (head : Nat × Nat) :
    getPageFrame (s.withVm areas head) =
      ((getPageFrame s).1.withVm areas head, (getPageFrame s).2) := by
  unfold getPageFrame
  rw [withVm_memBitmap]
  cases scanBitmap s.memBitmap (RAM_MAXPAGE / 8) 0 <;> rfl

/-- Growing the heap does not depend on the free list of the page heap. -/
lemma growStep_withVm (s : Mm) (areas : List VmArea) (head : Nat × Nat) :
    growStep (s.withVm areas head) = (growStep s).withVm areas head := by
  rw [growStep, growStep, getPageFrame_withVm, withVm_ram, withVm_kernHeap]
  rfl

/-- Taking a frame does not depend on the heap. -/
lemma getPageFrame_withHeap (s : Mm) (mem : Mem) (used : Nat) :
    getPageFrame (s.withHeap mem used) =
      ((getPageFrame s).1.withHeap mem used, (getPageFrame s).2) := by
  unfold getPageFrame
  rw [withHeap_memBitmap]
  cases scanBitmap s.memBitmap (RAM_MAXPAGE / 8) 0 <;> rfl

/-- Growing the heap does not depend on its contents. -/
lemma growStep_withHeap (s : Mm) (mem : Mem) (used : Nat) :
    growStep (s.withHeap mem used) = (growStep s).withHeap mem used := by
  rw [growStep, growStep, getPageFrame_withHeap, withHeap_ram, withHeap_kernHeap]
  rfl

/-- Growth after a write in the heap. -/
lemma Grows.of_withHeap {s t : Mm} {mem : Mem} {used : Nat} (h : Grows (s.withHeap mem used) t) :
    Grows s t := by
  generalize e : s.withHeap mem used = s0 at h
  induction h generalizing s with
  | heap s0 m u =>
    rw [← e, withHeap_withHeap]
    exact .heap _ _ _
  | page hlim _ ih =>
    rw [← e, withHeap_kernHeap] at hlim
    exact .page hlim (ih (by rw [← e, growStep_withHeap]))

lemma Grows.refl (s : Mm) : Grows s s := by
  have h := Grows.heap s s.mem s.kmallocUsed
  rwa [← withHeap_self] at h

/-- Growth after growth. -/
lemma Grows.trans {s t u : Mm} (h : Grows s t) (h' : Grows t u) : Grows s u := by
  induction h with
  | heap s mem used => exact h'.of_withHeap
  | page hlim _ ih => exact .page hlim (ih h')

/-- Growth with another free list. -/
lemma Grows.withVm {s t : Mm} (h : Grows s t) (areas : List VmArea) (head : Nat × Nat) :
    Grows (s.withVm areas head) (t.withVm areas head) := by
  induction h with
  | heap s mem used =>
    rw [← withHeap_withVm]
    exact .heap _ _ _
  | page hlim _ ih =>
    refine .page ?_ ?_
    · rwa [withVm_kernHeap]
    · rwa [growStep_withVm]

/-- Growth only changes the bitmap, the heap and its page tables. -/
lemma Grows.fields {s t : Mm} (h : Grows s t) :
    t.kernFreeVm = s.kernFreeVm ∧ t.headWords = s.headWords ∧ t.cr3 = s.cr3 ∧
      t.stale = s.stale ∧ s.kernHeap ≤ t.kernHeap ∧ (s.oom = true → t.oom = true) := by
  induction h with
  | heap s mem used => simp
  | @page s t _ _ ih =>
    obtain ⟨_, _, e, hoom⟩ := getPageFrame_frame s
    obtain ⟨h1, h2, h3, h4, h5, h6⟩ := ih
    rw [growStep_kernHeap] at h5
    refine ⟨h1.trans ?_, h2.trans ?_, h3.trans ?_, h4.trans ?_, by omega, fun h => h6 ?_⟩ <;>
      simp only [growStep, e]
    exact hoom h

/-- Growth leaves the table entries of the addresses below the heap alone. -/
lemma Grows.pte {s t : Mm} (h : Grows s t) {v : Nat} (hv : InTables v) (hlt : v < KERN_HEAP)
    (hk : KERN_HEAP ≤ s.kernHeap) : kernPte t.ram v = kernPte s.ram v := by
  induction h with
  | heap s mem used => rw [withHeap_ram]
  | @page s t hlim _ ih =>
    simp only [KERN_HEAP, KERN_HEAP_LIM, PAGESIZE] at hlt hk hlim
    rw [ih (by rw [growStep_kernHeap]; simp only [KERN_HEAP]; omega)]
    refine kernPte_setKernPte_other hv (inTables_heap hk ?_) ?_ _
    · simp only [KERN_HEAP_LIM]
      omega
    · omega

/-- Growth marks frames used and releases none. -/
lemma Grows.used {s t : Mm} (h : Grows s t) {q : Nat} (hq : frameUsed s.memBitmap q = true) :
    frameUsed t.memBitmap q = true := by
  induction h with
  | heap s mem used => rwa [withHeap_memBitmap]
  | @page s t _ _ ih =>
    apply ih
    change frameUsed (getPageFrame s).1.memBitmap q = true
    rcases getPageFrame_cases s with ⟨page, -, -, e⟩ | e
    · rw [e, frameUsed_set, hq, Bool.or_true]
    · rw [e]
      exact hq

/-- A grown heap that is then written. -/
lemma grows_iterate {n : Nat} {s : Mm} {mem : Mem} {used : Nat}
    (hlim : s.kernHeap + n * PAGESIZE ≤ KERN_HEAP_LIM) :
    Grows s ((growStep^[n] s).withHeap mem used) := by
  induction n generalizing s with
  | zero =>
    rw [Function.iterate_zero_apply]
    exact .heap _ _ _
  | succ n ih =>
    simp only [KERN_HEAP_LIM, PAGESIZE] at hlim
    have hpage : s.kernHeap + PAGESIZE ≤ KERN_HEAP_LIM := by
      simp only [KERN_HEAP_LIM, PAGESIZE]
      omega
    have hrest : (growStep s).kernHeap + n * PAGESIZE ≤ KERN_HEAP_LIM := by
      rw [growStep_kernHeap]
      simp only [KERN_HEAP_LIM, PAGESIZE]
      omega
    rw [Function.iterate_succ_apply]
    exact .page hpage (ih hrest)

/-- Growth stays below the limit of the heap. -/
lemma Grows.kernHeap_le {s t : Mm} (h : Grows s t) (hk : s.kernHeap ≤ KERN_HEAP_LIM) :
    t.kernHeap ≤ KERN_HEAP_LIM :=
  h.invariant (P := fun u => u.kernHeap ≤ KERN_HEAP_LIM)
    (fun _ _ _ hu => by rwa [withHeap_kernHeap]) (fun _ hlim _ => hlim) hk

/-- Growth leaves the kernel half of every directory alone. -/
lemma Grows.map {s t : Mm} {d : Nat} (h : Grows s t) (km : KernelMap s.ram d)
    (hk : KERN_HEAP ≤ s.kernHeap) : KernelMap t.ram d := by
  induction h with
  | heap s mem used => rwa [withHeap_ram]
  | @page s t hlim _ ih =>
    refine ih (km.setKernPte (inTables_heap hk ?_) _) (le_trans hk (Nat.le_add_right _ _))
    exact lt_of_lt_of_le (Nat.lt_add_of_pos_right (by decide)) hlim

/-- `ksbrk` grows the heap, or refuses to. -/
lemma ksbrk_grows {s s' : Mm} {n c : Nat} (km : KernelMap s.ram s.dir) (hk : KERN_HEAP ≤ s.kernHeap)
    (hn : s.kernHeap + n * PAGESIZE < 4294967296) (h : ksbrk s n = .ok (s', c)) : Grows s s' := by
  by_cases hlim : KERN_HEAP_LIM < s.kernHeap + n * PAGESIZE
  · rw [ksbrk_full hn hlim] at h
    cases h
    exact .refl _
  · have hle : s.kernHeap + n * PAGESIZE ≤ KERN_HEAP_LIM := by omega
    rw [ksbrk_eq km hk hle] at h
    cases h
    rw [grown]
    exact grows_iterate hle

/-- The search of `kmalloc` grows the heap, whatever is stored in it. -/
lemma kmallocSearch_grows {realsize fuel chunk c : Nat} {s s' : Mm} (km : KernelMap s.ram s.dir)
    (hk : KERN_HEAP ≤ s.kernHeap) (hlim : s.kernHeap ≤ KERN_HEAP_LIM)
    (hsize : KERN_HEAP_LIM + (realsize / PAGESIZE + 1) * PAGESIZE < 4294967296)
    (h : kmallocSearch realsize fuel s chunk = .ok (s', c)) : Grows s s' := by
  induction fuel generalizing s chunk with
  | zero => cases h
  | succ fuel ih =>
    simp only [kmallocSearch, Nat.not_lt_zero, if_false] at h
    split at h
    case isTrue => cases h
    case isFalse =>
      split at h
      case isTrue =>
        split at h
        case isTrue => cases h
        case isFalse =>
          split at h
          case isTrue =>
            obtain ⟨⟨t, r⟩, hb, h⟩ := bind_ok.1 h
            have hn : s.kernHeap + (realsize / PAGESIZE + 1) * PAGESIZE < 4294967296 := by omega
            have grows := ksbrk_grows km hk hn hb
            have hdir : t.dir = s.dir := by rw [Mm.dir, Mm.dir, grows.fields.2.2.1]
            have hk' := le_trans hk grows.fields.2.2.2.2.1
            exact grows.trans (ih (hdir ▸ grows.map km hk) hk' (grows.kernHeap_le hlim) h)
          case isFalse =>
            split at h
            case isTrue => cases h
            case isFalse => exact ih km hk hlim h
      case isFalse =>
        cases h
        exact .refl _

/-- `kmalloc` grows the heap, whatever is stored in it. -/
lemma kmalloc_frame {size p : Nat} {s s' : Mm} (km : KernelMap s.ram s.dir)
    (hk : KERN_HEAP ≤ s.kernHeap) (hlim : s.kernHeap ≤ KERN_HEAP_LIM)
    (hsize : size + 4 < KERN_HEAP_LIM - KERN_HEAP) (h : kmalloc s size = .ok (s', p)) :
    Grows s s' := by
  obtain ⟨-, -, hreal⟩ := realSize_spec hsize
  rw [kmalloc] at h
  obtain ⟨⟨t, c⟩, hs, h⟩ := bind_ok.1 h
  cases h
  have hroom : KERN_HEAP_LIM + (realSize size / PAGESIZE + 1) * PAGESIZE < 4294967296 := by
    simp only [KERN_HEAP_LIM, KERN_HEAP, PAGESIZE] at hreal ⊢
    omega
  exact (kmallocSearch_grows km hk hlim hroom hs).trans (.heap _ _ _)

/-- `kfree` only writes the heap. -/
lemma kfree_frame {p : Nat} {s s' : Mm} (h : kfree s p = .ok s') :
    ∃ mem used, s' = s.withHeap mem used := by
  rw [kfree] at h
  obtain ⟨mem, -, h⟩ := bind_ok.1 h
  cases h
  exact ⟨_, _, rfl⟩

/-- `kmalloc` grows the heap. -/
lemma kmalloc_grows {s s' : Mm} {chunks : List Nat} {live : List (Nat × Nat)} {size p : Nat}
    (rep : HeapRep s chunks live) (km : KernelMap s.ram s.dir)
    (hsize : size + 4 < KERN_HEAP_LIM - KERN_HEAP) (h : kmalloc s size = .ok (s', p)) :
    Grows s s' := by
  rcases kmalloc_cases rep km hsize with ⟨_, c, _, -, -, -, e⟩ | ⟨hgrow, e⟩ | ⟨-, e⟩
  · rw [e] at h
    obtain ⟨rfl, -⟩ := Prod.mk.inj (Except.ok.inj h)
    exact .heap _ _ _
  · rw [e] at h
    obtain ⟨rfl, -⟩ := Prod.mk.inj (Except.ok.inj h)
    rw [taken, grown, withHeap_withHeap]
    exact grows_iterate hgrow
  · rw [e] at h
    cases h

namespace Owned

variable {s s' : Mm} {owned owned' : List (Nat × Nat)} {p n size : Nat}

/-- Forgetting about chunks. -/
lemma mono (h : Owned s owned) (hn : owned'.Nodup) (hs : owned' ⊆ owned) : Owned s owned' := by
  obtain ⟨-, chunks, live, rep, hsub⟩ := h
  exact ⟨hn, chunks, live, rep, fun q hq => hsub (hs hq)⟩

/-- The order of the chunks does not matter. -/
lemma perm (h : Owned s owned) (hp : owned.Perm owned') : Owned s owned' :=
  h.mono (hp.nodup_iff.1 h.1) hp.symm.subset

/-- The rest of the memory manager does not matter. -/
lemma congr (h : Owned s owned) (hm : s'.mem = s.mem) (hk : s'.kernHeap = s.kernHeap) :
    Owned s' owned := by
  obtain ⟨hn, chunks, live, rep, hsub⟩ := h
  exact ⟨hn, chunks, live, rep.congr hm hk, hsub⟩

/-- `kmalloc` gives a chunk that nobody owns. -/
lemma kmalloc (h : Owned s owned) (km : KernelMap s.ram s.dir)
    (hsize : size + 4 < KERN_HEAP_LIM - KERN_HEAP) (e : kmalloc s size = .ok (s', p)) :
    Owned s' ((p, size) :: owned) ∧ (∀ k, (p, k) ∉ owned) ∧ Grows s s' ∧
      KernelMap s'.ram s'.dir := by
  obtain ⟨hn, chunks, live, rep, hsub⟩ := h
  obtain ⟨⟨chunks', rep'⟩, km', -⟩ := kmalloc_ok rep km hsize e
  have hnew : ∀ k, (p, k) ∉ live := by
    intro k hk
    have hnd := rep'.nodup
    rw [List.map_cons, List.nodup_cons] at hnd
    exact hnd.1 (List.mem_map.2 ⟨_, hk, rfl⟩)
  refine ⟨⟨List.nodup_cons.2 ⟨fun hp => hnew _ (hsub hp), hn⟩, chunks', _, rep', ?_⟩,
    fun k hk => hnew k (hsub hk), kmalloc_grows rep km hsize e, km'⟩
  exact List.cons_subset_cons _ hsub

/-- `kmalloc` returns unless `ksbrk` refuses the growth. -/
lemma kmalloc_total (h : Owned s owned) (km : KernelMap s.ram s.dir)
    (hsize : size + 4 < KERN_HEAP_LIM - KERN_HEAP) :
    (∃ r, Creeks.kmalloc s size = .ok r) ∨
      (KERN_HEAP_LIM < s.kernHeap + growPages size * PAGESIZE ∧
        Creeks.kmalloc s size = .error (.fault s.kernHeap)) := by
  obtain ⟨-, chunks, live, rep, -⟩ := h
  rcases kmalloc_cases rep km hsize with ⟨_, _, _, -, -, -, e⟩ | ⟨-, e⟩ | e
  · exact .inl ⟨_, e⟩
  · exact .inl ⟨_, e⟩
  · exact .inr e

/-- `kfree` of a chunk leaves the others. -/
lemma kfree (h : Owned s owned) (hp : (p, n) ∈ owned) :
    ∃ mem used, Creeks.kfree s p = .ok (s.withHeap mem used) ∧
      Owned (s.withHeap mem used) (owned.erase (p, n)) := by
  obtain ⟨hn, chunks, live, rep, hsub⟩ := h
  obtain ⟨mem, used, e, ⟨chunks', rep'⟩, -⟩ := kfree_ok rep (hsub hp)
  refine ⟨mem, used, e, hn.erase _, chunks', _, rep', fun q hq => ?_⟩
  obtain ⟨hne, hmem⟩ := hn.mem_erase_iff.1 hq
  have hlive : live.Nodup := List.Nodup.of_map _ rep.nodup
  exact hlive.mem_erase_iff.2 ⟨hne, hsub hmem⟩

end Owned

end Creeks
