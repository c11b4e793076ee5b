import Creeks.Mm.Exhaustion

/-!
# Flags that stay up

`oom` and `stale` are never lowered, whatever the page tables, the kernel heap and the free areas contain:
when they are down after a call, they were down at every point of it.
-/

namespace Creeks
open Lib

/-- The flags that are up in the first state are up in the second. -/
structure FlagsKept (s s' : Mm) : Prop where
  oom : s.oom = true → s'.oom = true
  stale : s.stale = true → s'.stale = true

/-- No flag is up. -/
structure NoFlags (s : Mm) : Prop where
  oom : s.oom = false
  stale : s.stale = false

namespace FlagsKept

variable {s s' s'' : Mm} {pd : PageDirectory} {pd0 pd1 : Option PageDirectory} {pg : Page} {pages : List Page}
  {v p n c flags : Nat}

lemma refl (s : Mm) : FlagsKept s s := ⟨id, id⟩

lemma trans (h : FlagsKept s s') (h' : FlagsKept s' s'') : FlagsKept s s'' :=
  ⟨h'.oom ∘ h.oom, h'.stale ∘ h.stale⟩

lemma of_eq (hoom : s'.oom = s.oom) (hstale : s'.stale = s.stale) : FlagsKept s s' :=
  ⟨hoom.trans, hstale.trans⟩

/-- Flags that are down in the end were down before. -/
lemma down (h : FlagsKept s s') (no : NoFlags s') : NoFlags s :=
  ⟨Bool.eq_false_iff.2 fun e => Bool.eq_false_iff.1 no.oom (h.oom e),
    Bool.eq_false_iff.2 fun e => Bool.eq_false_iff.1 no.stale (h.stale e)⟩

lemma withHeap (s : Mm) (mem : Mem) (used : Nat) : FlagsKept s (s.withHeap mem used) :=
  of_eq (withHeap_oom ..) (withHeap_stale ..)

lemma withVm (s : Mm) (areas : List VmArea) (head : Nat × Nat) : FlagsKept s (s.withVm areas head) :=
  of_eq (withVm_oom ..) (withVm_stale ..)

lemma getPageFrame (s : Mm) : FlagsKept s (Creeks.getPageFrame s).1 := by
  obtain ⟨_, _, e, hoom⟩ := getPageFrame_frame s
  rw [e]
  exact ⟨hoom, id⟩

lemma writeWord {w : Nat} (h : Creeks.writeWord s v w = .ok s') : FlagsKept s s' := by
  obtain ⟨_, rfl⟩ := writeWord_frame h
  exact of_eq rfl rfl

lemma pd0AddPage (h : Creeks.pd0AddPage s v p flags = .ok s') : FlagsKept s s' := by
  obtain ⟨_, rfl⟩ := pd0AddPage_frame h
  exact of_eq rfl rfl

lemma kfree (h : Creeks.kfree s v = .ok s') : FlagsKept s s' := by
  obtain ⟨mem, used, rfl⟩ := kfree_frame h
  exact .withHeap s mem used

lemma growHeap {b : Bool} (h : Creeks.growHeap n s = .ok (s', b)) : FlagsKept s s' := by
  induction n generalizing s with
  | zero =>
    cases h
    exact .refl _
  | succ n ih =>
    rw [Creeks.growHeap, if_neg (Nat.not_lt_zero _)] at h
    obtain ⟨t, ha, h⟩ := bind_ok.1 h
    have rest := ih h
    exact ((FlagsKept.getPageFrame s).trans (.pd0AddPage ha)).trans ⟨rest.oom, rest.stale⟩

lemma ksbrk (h : Creeks.ksbrk s n = .ok (s', c)) : FlagsKept s s' := by
  unfold Creeks.ksbrk at h
  split at h
  · cases h
    exact .refl _
  · obtain ⟨r, hg, h⟩ := bind_ok.1 h
    have grown : FlagsKept s r.1 := .growHeap hg
    split at h
    · cases h
      exact grown.trans (.withHeap ..)
    · cases h
      exact grown

lemma kmallocSearch {realsize fuel chunk : Nat} (h : Creeks.kmallocSearch realsize fuel s chunk = .ok (s', c)) :
    FlagsKept s s' := by
  induction fuel generalizing s chunk with
  | zero => cases h
  | succ fuel ih =>
    simp only [Creeks.kmallocSearch, Nat.not_lt_zero, if_false] at h
    split at h
    case isTrue => cases h
    case isFalse =>
      split at h
      case isFalse =>
        cases h
        exact .refl _
      case isTrue =>
        split at h
        case isTrue => cases h
        case isFalse =>
          split at h
          case isTrue =>
            obtain ⟨r, hr, h⟩ := bind_ok.1 h
            exact (FlagsKept.ksbrk hr).trans (ih h)
          case isFalse =>
            split at h
            · cases h
            · exact ih h

lemma kmalloc (h : Creeks.kmalloc s n = .ok (s', p)) : FlagsKept s s' := by
  obtain ⟨r, hr, h⟩ := bind_ok.1 h
  cases h
  exact (FlagsKept.kmallocSearch hr).trans (.withHeap ..)

lemma eatArea {area : VmArea} {rest : List VmArea} (h : Creeks.eatArea s area rest = .ok s') : FlagsKept s s' := by
  unfold Creeks.eatArea at h
  split at h
  · exact (FlagsKept.withVm ..).trans (.kfree h)
  · cases h
    exact .withVm ..

lemma getPageFromHeap (h : Creeks.getPageFromHeap s = .ok (s', pg)) : FlagsKept s s' := by
  simp only [Creeks.getPageFromHeap, Nat.not_lt_zero, if_false] at h
  split at h
  · cases h
  · obtain ⟨s1, he, h⟩ := bind_ok.1 h
    obtain ⟨s2, ha, h⟩ := bind_ok.1 h
    obtain ⟨q, hm, h⟩ := bind_ok.1 h
    cases h
    exact (((FlagsKept.getPageFrame s).trans (.eatArea he)).trans (.pd0AddPage ha)).trans (.kmalloc hm)

lemma setPrevEnd (before after : List VmArea) (e : Nat) : FlagsKept s (Creeks.setPrevEnd s before after e) := by
  cases before <;> exact .withVm ..

lemma setNextStart (before after : List VmArea) (e : Nat) : FlagsKept s (Creeks.setNextStart s before after e) := by
  cases after <;> exact .withVm ..

lemma mergePage {r : Nat} (h : Creeks.mergePage s v = .ok (s', r)) : FlagsKept s s' := by
  unfold Creeks.mergePage at h
  dsimp only at h
  split at h
  · split at h
    · split at h
      · cases h
      · obtain ⟨s1, hf, h⟩ := bind_ok.1 h
        cases h
        exact (FlagsKept.setPrevEnd ..).trans (.kfree hf)
    · cases h
      exact .setPrevEnd ..
  · split at h
    · cases h
      exact .setNextStart ..
    · split at h
      · obtain ⟨q, hm, h⟩ := bind_ok.1 h
        cases h
        exact (FlagsKept.kmalloc hm).trans (.withVm ..)
      · cases h

lemma releasePageFromHeap {r : Nat} (h : Creeks.releasePageFromHeap s v = .ok (s', r)) : FlagsKept s s' := by
  obtain ⟨a, -, h⟩ := bind_ok.1 h
  split at h
  · cases h
    exact .refl _
  · obtain ⟨s1, hr, h⟩ := bind_ok.1 h
    obtain ⟨_, rfl⟩ := pdRemovePage_frame hr
    have merged := FlagsKept.mergePage h
    exact ⟨merged.oom, merged.stale⟩

lemma pdCreate (h : Creeks.pdCreate s = .ok (s', pd)) : FlagsKept s s' := by
  obtain ⟨s1, s2, ram, hk, hg, -, rfl⟩ := pdCreate_ok h
  have taken := (FlagsKept.kmalloc hk).trans (.getPageFromHeap hg)
  exact ⟨taken.oom, taken.stale⟩

lemma releaseTables (h : Creeks.releaseTables pages s = .ok s') : FlagsKept s s' := by
  induction pages generalizing s with
  | nil =>
    cases h
    exact .refl _
  | cons pg pages ih =>
    obtain ⟨r, hr, h⟩ := bind_ok.1 h
    obtain ⟨s1, hf, h⟩ := bind_ok.1 h
    exact ((FlagsKept.releasePageFromHeap hr).trans (.kfree hf)).trans (ih h)

lemma pdDestroy (h : Creeks.pdDestroy s pd = .ok s') : FlagsKept s s' := by
  obtain ⟨s1, ht, h⟩ := bind_ok.1 h
  obtain ⟨r, hr, h⟩ := bind_ok.1 h
  exact ((FlagsKept.releaseTables ht).trans (.releasePageFromHeap hr)).trans (.kfree h)

lemma newTable (h : Creeks.newTable s v flags = .ok (s', pg)) : FlagsKept s s' := by
  obtain ⟨s1, ram, left, hg, rfl⟩ := newTable_ok h
  have taken := FlagsKept.getPageFromHeap hg
  refine ⟨taken.oom, fun e => ?_⟩
  dsimp only
  rw [taken.stale e, Bool.true_or]

lemma pdAddPage (h : Creeks.pdAddPage s v p flags pd0 = .ok (s', pd1)) : FlagsKept s s' := by
  obtain ⟨pde, -, h⟩ := bind_ok.1 h
  split at h
  · obtain ⟨r, hn, h⟩ := bind_ok.1 h
    obtain ⟨s1, hw, h⟩ := bind_ok.1 h
    cases h
    exact (FlagsKept.newTable hn).trans (.writeWord hw)
  · obtain ⟨s1, hw, h⟩ := bind_ok.1 h
    cases h
    exact .writeWord hw

lemma isrPfExc {a : Nat} (h : Creeks.isrPfExc s pages pd0 a = .ok (some (s', pages', pd1))) :
    FlagsKept s s' := by
  unfold Creeks.isrPfExc at h
  split at h
  · obtain ⟨r, hf, h⟩ := bind_ok.1 h
    obtain ⟨t, ha, h⟩ := bind_ok.1 h
    obtain ⟨q, hk, hf⟩ := bind_ok.1 hf
    cases hf
    cases h
    exact ((FlagsKept.kmalloc hk).trans (.getPageFrame _)).trans (.pdAddPage ha)
  · cases h

end FlagsKept

end Creeks
