import Creeks.Lib.Memory

/-!
# Strings in memory

Text at an address, and the string that a zero ends.
-/

namespace Creeks.Lib

/-- The bytes from `a` on are the text. -/
def Spells (m : Mem) (a : Nat) (text : List UInt8) : Prop :=
  ∀ i (h : i < text.length), m (a + i) = text[i]

/-- The string at the start of a buffer. -/
def cString (size : Nat) (m : Mem) : List UInt8 := ((List.range size).map m).takeWhile (· ≠ 0)

/-- The text is stored byte by byte from `a` on. -/
def writeText (m : Mem) (a : Nat) : List UInt8 → Mem
  | [] => m
  | c :: s => writeText (Function.update m a c) (a + 1) s

variable {m m' : Mem} {a size : Nat} {s t : List UInt8}

lemma writeText_other {x : Nat} (h : x < a ∨ a + s.length ≤ x) : writeText m a s x = m x := by
  induction s generalizing m a with
  | nil => rfl
  | cons c s ih =>
    rw [List.length_cons] at h
    unfold writeText
    rw [ih (by omega), Function.update_of_ne (by omega)]

lemma writeText_spells : Spells (writeText m a s) a s := by
  induction s generalizing m a with
  | nil => exact fun i hi => absurd hi (Nat.not_lt_zero i)
  | cons c s ih =>
    intro i hi
    unfold writeText
    cases i with
    | zero => exact (writeText_other (.inl (Nat.lt_succ_self a))).trans (Function.update_self ..)
    | succ i =>
      have e : a + (i + 1) = a + 1 + i := by omega
      rw [List.getElem_cons_succ, e]
      exact ih i (Nat.lt_of_succ_lt_succ hi)

lemma Spells.congr (h : Spells m a s) (he : ∀ x, a ≤ x → x < a + s.length → m' x = m x) :
    Spells m' a s := fun i hi => by rw [he _ (by omega) (by omega), h i hi]

lemma Spells.append (hs : Spells m a s) (ht : Spells m (a + s.length) t) : Spells m a (s ++ t) := by
  intro i hi
  rw [List.length_append] at hi
  by_cases h : i < s.length
  · rw [hs i h, List.getElem_append_left h]
  · have hcell := ht (i - s.length) (by omega)
    rw [List.getElem_append_right (Nat.not_lt.1 h), ← hcell]
    congr 1
    omega

lemma Spells.left (h : Spells m a (s ++ t)) : Spells m a s := fun i hi => by
  rw [h i (by rw [List.length_append]; omega), List.getElem_append_left hi]

lemma Spells.right (h : Spells m a (s ++ t)) : Spells m (a + s.length) t := fun i hi => by
  have hcell := h (s.length + i) (by rw [List.length_append]; omega)
  rw [List.getElem_append_right (Nat.le_add_right ..)] at hcell
  rw [Nat.add_assoc, hcell]
  congr 1
  omega

/-- A text without a zero is a string. -/
lemma takeWhile_text (h : (0 : UInt8) ∉ s) : s.takeWhile (· ≠ 0) = s := by
  refine List.takeWhile_eq_self_iff.2 fun c hc => ?_
  have : c ≠ 0 := by
    rintro rfl
    exact h hc
  simpa using this

/-- A buffer that begins with a text and a zero holds what is in front of the first zero. -/
lemma cString_eq (hlen : s.length < size) (hc : Spells m 0 s) (hz : m s.length = 0) :
    cString size m = s.takeWhile (· ≠ 0) := by
  unfold cString
  obtain ⟨k, hk⟩ : ∃ k, size = s.length + (1 + k) := ⟨size - s.length - 1, by omega⟩
  have htext : (List.range s.length).map m = s := by
    refine List.ext_getElem (by simp) fun i h1 h2 => ?_
    rw [List.getElem_map, List.getElem_range, ← hc i h2, Nat.zero_add]
  have hzero : ((List.range 1).map (s.length + ·)).map m = [(0 : UInt8)] := by
    change [m s.length] = _
    rw [hz]
  rw [hk, List.range_add, List.map_append, htext, List.range_add, List.map_append, List.map_append,
    hzero, List.takeWhile_append]
  split
  · rename_i h
    rw [(List.takeWhile_prefix _).eq_of_length h]
    simp
  · rfl

lemma cString_congr (h : ∀ i, i < size → m' i = m i) : cString size m' = cString size m := by
  unfold cString
  have h : (List.range size).map m' = (List.range size).map m :=
    List.map_congr_left fun i hi => h i (List.mem_range.1 hi)
  rw [h]

end Creeks.Lib
