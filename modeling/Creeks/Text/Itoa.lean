import Creeks.Lib.CString
import Mathlib.Data.Nat.Digits.Lemmas

/-!
# Numbers as text

`itoa` and the loop that shifts a number to its width, as the kernel and the user library have them: the
digits are stored from the lowest one and reversed in place, and the width moves the string up from its
end. `render_spec` says what the buffer holds afterwards.
-/

namespace Creeks
open Lib

/-- `char buf[16]` -/
abbrev NUMBUF : Nat := 16

/-- The character of a digit. -/
def digit (tmp : Nat) : UInt8 :=
  if tmp < 10 then UInt8.ofNat (tmp + 48) else UInt8.ofNat (tmp + 97 - 10)

/-- The loop of `itoa` over the digits. The quotient is smaller each time, so `n + 1` rounds are
enough. -/
def itoaDigits (base : Nat) : Nat → Mem → Nat → Nat → Mem × Nat
  | 0, buf, i, _ => (buf, i)
  | fuel + 1, buf, i, n =>
    let buf := Function.update buf i (digit (n % base))
    if n / base ≠ 0 then itoaDigits base fuel buf (i + 1) (n / base) else (buf, i + 1)

/-- The loop of `itoa` that swaps `buf[j]` and `buf[i]`. -/
def itoaReverse (buf : Mem) (j : Nat) : Nat → Mem
  | 0 => buf
  | i + 1 =>
    if j < i + 1 then
      itoaReverse (Function.update (Function.update buf j (buf (i + 1))) (i + 1) (buf j)) (j + 1) i
    else buf

/-- `itoa` -/
def itoa (buf : Mem) (n base : Nat) : Mem :=
  let r := itoaDigits base (n + 1) buf 0 n
  itoaReverse (Function.update r.1 r.2 0) 0 (r.2 - 1)

/-- The loop that moves the string in `buf` to its width, from its zero down. -/
def padLoop : Nat → Int → Mem → Mem
  | 0, j, buf => Function.update buf 0 (if 0 ≤ j then buf j.toNat else 48)
  | i + 1, j, buf =>
    padLoop i (j - 1) (Function.update buf (i + 1) (if 0 ≤ j then buf j.toNat else 48))

/-- A number in `buf` with its width, and the length it had without it. -/
def render (buf : Mem) (n base size : Nat) : Mem × Nat :=
  let buf := itoa buf n base
  let buflen := (cString NUMBUF buf).length
  (if buflen < size then padLoop size buflen buf else buf, buflen)

/-! ## What they compute -/

/-- The digits of a number from the lowest one. -/
def digitsUp (base n : Nat) : List UInt8 :=
  if n = 0 then [digit 0] else (Nat.digits base n).map digit

/-- A number as text. -/
def numeral (base n : Nat) : List UInt8 := (digitsUp base n).reverse

/-- A text with zeros in front of it up to its width. -/
def padded (size : Nat) (s : List UInt8) : List UInt8 := List.replicate (size - s.length) 48 ++ s

section

variable {base n : Nat} {buf : Mem}

/-- One round of the loop. -/
lemma digitsUp_eq (hb : 2 ≤ base) (n : Nat) :
    digitsUp base n =
      digit (n % base) :: if n / base ≠ 0 then digitsUp base (n / base) else [] := by
  unfold digitsUp
  by_cases h0 : n = 0
  · subst h0
    rw [if_pos rfl, Nat.zero_mod, Nat.zero_div, if_neg (by decide)]
  · rw [if_neg h0, Nat.digits_eq_cons_digits_div hb h0, List.map_cons]
    by_cases hq : n / base = 0
    · rw [if_neg (not_not.2 hq), hq, Nat.digits_zero, List.map_nil]
    · rw [if_pos hq, if_neg hq]

lemma itoaDigits_spec (buf : Mem) (i : Nat) (hb : 2 ≤ base) {fuel : Nat} (hf : n < fuel) :
    (itoaDigits base fuel buf i n).2 = i + (digitsUp base n).length ∧
      Spells (itoaDigits base fuel buf i n).1 i (digitsUp base n) ∧
      ∀ x, x < i → (itoaDigits base fuel buf i n).1 x = buf x := by
  induction fuel generalizing buf i n with
  | zero => omega
  | succ fuel ih =>
    unfold itoaDigits
    rw [digitsUp_eq hb n]
    dsimp only
    by_cases hq : n / base = 0
    · rw [if_neg (not_not.2 hq), if_neg (not_not.2 hq)]
      refine ⟨rfl, fun k hk => ?_, fun x hx => Function.update_of_ne (by omega) ..⟩
      have hk : k = 0 := by simpa using hk
      subst hk
      exact Function.update_self ..
    · rw [if_pos hq, if_pos hq]
      have hless : n / base < n := Nat.div_lt_self (Nat.pos_of_ne_zero fun h => hq (by simp [h])) hb
      obtain ⟨h1, h2, h3⟩ := @ih (n / base) (Function.update buf i (digit (n % base))) (i + 1) (by omega)
      refine ⟨by rw [h1, List.length_cons]; omega, fun k hk => ?_, fun x hx => ?_⟩
      · cases k with
        | zero => exact (h3 i (Nat.lt_succ_self i)).trans (Function.update_self ..)
        | succ k =>
          have e : i + (k + 1) = i + 1 + k := by omega
          rw [List.getElem_cons_succ, e]
          exact h2 k (by simpa using hk)
      · rw [h3 x (by omega), Function.update_of_ne (by omega)]

/-- The two indices meet when everything between them is swapped. -/
lemma itoaReverse_spec {j i : Nat} (x : Nat) :
    itoaReverse buf j i x = if j ≤ x ∧ x ≤ i then buf (i + j - x) else buf x := by
  induction i generalizing buf j with
  | zero =>
    unfold itoaReverse
    split
    · congr 1
      omega
    · rfl
  | succ i ih =>
    unfold itoaReverse
    by_cases hj : j < i + 1
    · rw [if_pos hj, ih]
      by_cases h1 : x = j
      · subst h1
        rw [if_neg (by omega), if_pos (by omega), Function.update_of_ne (by omega),
          Function.update_self]
        congr 1
        omega
      by_cases h2 : x = i + 1
      · subst h2
        rw [if_neg (by omega), if_pos (by omega), Function.update_self]
        congr 1
        omega
      by_cases h3 : j ≤ x ∧ x ≤ i + 1
      · rw [if_pos (by omega), if_pos h3, Function.update_of_ne (by omega),
          Function.update_of_ne (by omega)]
        congr 1
        omega
      · rw [if_neg (by omega), if_neg h3, Function.update_of_ne h2, Function.update_of_ne h1]
    · rw [if_neg hj]
      split
      · congr 1
        omega
      · rfl

lemma digitsUp_ne_nil (base n : Nat) : digitsUp base n ≠ [] := by
  unfold digitsUp
  split
  · exact nofun
  · rename_i h
    simpa [Nat.digits_eq_nil_iff_eq_zero] using h

lemma itoa_spec (buf : Mem) (n : Nat) (hb : 2 ≤ base) :
    Spells (itoa buf n base) 0 (numeral base n) ∧ itoa buf n base (numeral base n).length = 0 := by
  obtain ⟨hlen, hcells, -⟩ := itoaDigits_spec buf 0 hb (Nat.lt_succ_self n)
  have hpos := List.length_pos_iff.2 (digitsUp_ne_nil base n)
  unfold itoa numeral
  dsimp only
  rw [hlen, Nat.zero_add]
  constructor
  · intro k hk
    rw [List.length_reverse] at hk
    have hcell := hcells ((digitsUp base n).length - 1 - k) (by omega)
    have e : (digitsUp base n).length - 1 + 0 - (0 + k) = 0 + ((digitsUp base n).length - 1 - k) := by
      omega
    rw [itoaReverse_spec, if_pos (by omega), e, Function.update_of_ne (by omega), hcell,
      List.getElem_reverse]
  · rw [List.length_reverse, itoaReverse_spec, if_neg (by omega), Function.update_self]

/-- The width moves every byte up to the zero, and fills in front of them. -/
lemma padLoop_spec (buf : Mem) {d : Nat} {i : Nat} {j : Int} (hd : 0 < d) (hj : j = (i : Int) - d)
    (x : Nat) :
    padLoop i j buf x = if x ≤ i then (if d ≤ x then buf (x - d) else 48) else buf x := by
  induction i generalizing buf j with
  | zero =>
    unfold padLoop
    by_cases hx : x = 0
    · subst hx
      rw [Function.update_self, if_neg (by omega), if_pos (le_refl _), if_neg (by omega)]
    · rw [Function.update_of_ne hx, if_neg (by omega)]
  | succ i ih =>
    unfold padLoop
    rw [ih _ (by omega : j - 1 = i - d)]
    by_cases hx : x = i + 1
    · subst hx
      rw [if_neg (by omega), Function.update_self, if_pos (le_refl _)]
      by_cases hdi : d ≤ i + 1
      · rw [if_pos (by omega), if_pos hdi]
        congr 1
        omega
      · rw [if_neg (by omega), if_neg hdi]
    by_cases hxi : x ≤ i
    · have hle : x ≤ i + 1 := by omega
      rw [if_pos hxi, if_pos hle]
      by_cases hdx : d ≤ x
      · rw [if_pos hdx, if_pos hdx, Function.update_of_ne (by omega)]
      · rw [if_neg hdx, if_neg hdx]
    · have hgt : ¬ x ≤ i + 1 := by omega
      rw [if_neg hxi, if_neg hgt, Function.update_of_ne hx]

/-- The characters of a number are digits. -/
lemma digit_mem (hb : 2 ≤ base) (hb16 : base ≤ 16) {c : UInt8} (h : c ∈ numeral base n) :
    c ≠ 0 ∧ c ≠ 37 := by
  have hall : ∀ d : Fin 16, digit d ≠ 0 ∧ digit d ≠ 37 := by decide
  unfold numeral digitsUp at h
  rw [List.mem_reverse] at h
  split at h
  · rw [List.mem_singleton] at h
    exact h ▸ hall 0
  · obtain ⟨d, hd, rfl⟩ := List.mem_map.1 h
    have hlt := Nat.digits_lt_base hb hd
    exact hall ⟨d, by omega⟩

/-- A number of 32 bits has ten digits at most. -/
lemma numeral_length (hb : 10 ≤ base) (hn : n < 4294967296) : (numeral base n).length ≤ 10 := by
  unfold numeral digitsUp
  rw [List.length_reverse]
  split
  · exact Nat.le_add_left 1 9
  · rw [List.length_map]
    refine (Nat.digits_length_le_iff (by omega) n).2 ?_
    calc n < 10 ^ 10 := by omega
      _ ≤ base ^ 10 := Nat.pow_le_pow_left hb 10

/-- The string `itoa` leaves in a buffer of 16 bytes. -/
lemma itoa_string (buf : Mem) (hb : 10 ≤ base) (hb16 : base ≤ 16) (hn : n < 4294967296) :
    cString NUMBUF (itoa buf n base) = numeral base n := by
  obtain ⟨hc, hz⟩ := itoa_spec buf n (by omega : 2 ≤ base)
  have hlen := numeral_length hb hn
  rw [cString_eq (by unfold NUMBUF; omega) hc hz,
    takeWhile_text fun h => (digit_mem (by omega) hb16 h).1 rfl]

end

/-- What the buffer holds: the number with its width, and the length of the number without it. -/
lemma render_spec (buf : Mem) {base n size : Nat} (hb : 10 ≤ base) (hb16 : base ≤ 16) (hn : n < 4294967296)
    (hs : size ≤ 9) :
    cString NUMBUF (render buf n base size).1 = padded size (numeral base n) ∧
      (render buf n base size).2 = (numeral base n).length := by
  obtain ⟨hc, hz⟩ := itoa_spec buf n (by omega : 2 ≤ base)
  have hlen := numeral_length hb hn
  have h0 : (0 : UInt8) ∉ numeral base n := fun h => (digit_mem (by omega) hb16 h).1 rfl
  have hstr := itoa_string buf hb hb16 hn
  unfold render padded
  dsimp only
  rw [hstr]
  refine ⟨?_, rfl⟩
  by_cases hshort : (numeral base n).length < size
  · rw [if_pos hshort]
    have hpad := fun x => padLoop_spec (itoa buf n base) (d := size - (numeral base n).length)
      (i := size) (j := (numeral base n).length) (by omega) (by omega) x
    have hsize : (List.replicate (size - (numeral base n).length) (48 : UInt8) ++ numeral base n).length =
        size := by
      rw [List.length_append, List.length_replicate]
      omega
    rw [cString_eq (s := List.replicate (size - (numeral base n).length) 48 ++ numeral base n),
      takeWhile_text]
    · rw [List.mem_append, List.mem_replicate]
      exact not_or.2 ⟨fun h => absurd h.2 (by decide), h0⟩
    · rw [hsize]
      unfold NUMBUF
      omega
    · refine Spells.append (fun i hi => ?_) fun i hi => ?_
      · rw [List.length_replicate] at hi
        rw [hpad, if_pos (by omega), if_neg (by omega), List.getElem_replicate]
      · rw [List.length_replicate, Nat.zero_add, hpad, if_pos (by omega), if_pos (by omega), ← hc i hi]
        congr 1
        omega
    · rw [hsize, hpad, if_pos (le_refl _), if_pos (by omega), ← hz]
      congr 1
      omega
  · rw [if_neg hshort, hstr, Nat.sub_eq_zero_of_le (Nat.not_lt.1 hshort)]
    rfl

end Creeks
