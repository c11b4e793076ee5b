import Creeks.Kmalloc.Heap
import Creeks.User.Sprintf

/-!
# Numbers read back

`itoa` with the cells of the buffer it stores to, and `atoi`, which reads a number from its digits in an
`int` that wraps. `number_round_trip` says that `itoa` writes the number in the base, inside the buffer of
its callers, and that `atoi` finds in what `%d` writes the number that was given, down to the smallest one.
-/

namespace Creeks
open Lib

/-- The loop of `itoa` over the digits, with the indices it stores to. -/
def itoaDigitsTraced (base : Nat) : Nat → Mem → Nat → Nat → List Nat × (Mem × Nat)
  | 0, buf, i, _ => ([], (buf, i))
  | fuel + 1, buf, i, n =>
    let buf := Function.update buf i (digit (n % base))
    if n / base ≠ 0 then
      let r := itoaDigitsTraced base fuel buf (i + 1) (n / base)
      (i :: r.1, r.2)
    else ([i], (buf, i + 1))

/-- The loop of `itoa` that swaps, with the indices it stores to. -/
def itoaReverseTraced (buf : Mem) (j : Nat) : Nat → List Nat × Mem
  | 0 => ([], buf)
  | i + 1 =>
    if j < i + 1 then
      let r := itoaReverseTraced (Function.update (Function.update buf j (buf (i + 1))) (i + 1) (buf j)) (j + 1) i
      (j :: (i + 1) :: r.1, r.2)
    else ([], buf)

/-- `itoa`, with the indices of `buf` it stores to. -/
def itoaTraced (buf : Mem) (n base : Nat) : List Nat × Mem :=
  let r := itoaDigitsTraced base (n + 1) buf 0 n
  let t := itoaReverseTraced (Function.update r.2.1 r.2.2 0) 0 (r.2.2 - 1)
  (r.1 ++ r.2.2 :: t.1, t.2)

/-- The loop of `atoi` over the digits. -/
def atoiLoop (m : Mem) : Nat → Nat → BitVec 32 → Except Stop (BitVec 32)
  | 0, _, _ => .error .fuel
  | fuel + 1, c, n =>
    if isDigit (m c) then atoiLoop m fuel (c + 1) (n * 10 + BitVec.ofNat 32 (m c).toNat - 48) else .ok n

/-- `atoi` -/
def atoi (m : Mem) (str : Nat) : Except Stop (BitVec 32) := do
  if m str = 45 then
    let n ← atoiLoop m LOOP_MAX (str + 1) 0
    return -1 * n
  else
    let n ← atoiLoop m LOOP_MAX str 0
    return 1 * n

/-- The value of a character as a digit: `0` to `9`, then `a` to `f`. -/
def digitValue (c : UInt8) : Nat := if isDigit c then c.toNat - 48 else c.toNat - 87

/-- The characters that are digits of a base up to 16. -/
def IsDigitOf (base : Nat) (c : UInt8) : Prop := (isDigit c ∨ 97 ≤ c ∧ c ≤ 102) ∧ digitValue c < base

/-- The value of a text in a base. -/
def textValue (base : Nat) (s : List UInt8) : Nat := s.foldl (fun v c => v * base + digitValue c) 0

/-- The string `itoa` leaves in the buffer of its caller. -/
def itoaText (buf : Mem) (n base : Nat) : List UInt8 := cString NUMBUF (itoa buf n base)

/-- `itoa` stores inside a buffer of 16 bytes, and leaves a string of at most ten digits with the value of the
number and no zero in front. -/
structure WritesNumber (buf : Mem) (n base : Nat) : Prop where
  run : (itoaTraced buf n base).2 = itoa buf n base
  inside : ∀ i ∈ (itoaTraced buf n base).1, i < NUMBUF
  text : Spells (itoa buf n base) 0 (itoaText buf n base)
  ends : itoa buf n base (itoaText buf n base).length = 0
  short : (itoaText buf n base).length ≤ 10
  digits : ∀ c ∈ itoaText buf n base, IsDigitOf base c
  leading : itoaText buf n base = [48] ∨ ∃ c ∈ (itoaText buf n base).head?, c ≠ 48
  value : textValue base (itoaText buf n base) = n

/-- The sign of a number and the digits of its absolute value. -/
def signedText (buf : Mem) (n : BitVec 32) : List UInt8 :=
  (if n.toInt < 0 then [45] else []) ++ itoaText buf n.toInt.natAbs 10

/-- `"%d"` -/
def decimalFormat : CText := ⟨[37, 100], by decide⟩

/-! ## itoa -/

section

variable {base n : Nat} {buf : Mem}

lemma itoaDigitsTraced_snd {fuel i : Nat} :
    (itoaDigitsTraced base fuel buf i n).2 = itoaDigits base fuel buf i n := by
  induction fuel generalizing buf i n with
  | zero => rfl
  | succ fuel ih =>
    unfold itoaDigitsTraced itoaDigits
    dsimp only
    split
    · exact ih
    · rfl

lemma itoaReverseTraced_snd {j i : Nat} : (itoaReverseTraced buf j i).2 = itoaReverse buf j i := by
  induction i generalizing buf j with
  | zero => rfl
  | succ i ih =>
    unfold itoaReverseTraced itoaReverse
    split
    · exact ih
    · rfl

lemma itoaTraced_snd : (itoaTraced buf n base).2 = itoa buf n base := by
  unfold itoaTraced itoa
  dsimp only
  rw [itoaReverseTraced_snd, itoaDigitsTraced_snd]

/-- The digits are stored one behind the other. -/
lemma itoaDigitsTraced_fst (hb : 2 ≤ base) {fuel i : Nat} (hf : n < fuel) {x : Nat}
    (hx : x ∈ (itoaDigitsTraced base fuel buf i n).1) : x < i + (digitsUp base n).length := by
  induction fuel generalizing buf i n with
  | zero => cases hx
  | succ fuel ih =>
    unfold itoaDigitsTraced at hx
    dsimp only at hx
    rw [digitsUp_eq hb n]
    by_cases hq : n / base = 0
    · rw [if_neg (not_not.2 hq), List.mem_singleton] at hx
      rw [if_neg (not_not.2 hq), hx]
      exact Nat.lt_succ_self i
    · rw [if_pos hq] at hx ⊢
      have hless : n / base < n := Nat.div_lt_self (Nat.pos_of_ne_zero fun h => hq (by simp [h])) hb
      rw [List.length_cons]
      rcases List.mem_cons.1 hx with rfl | hx
      · omega
      · have := ih (by omega) hx
        omega

/-- The swaps stay between the two indices. -/
lemma itoaReverseTraced_fst {j i x : Nat} (hx : x ∈ (itoaReverseTraced buf j i).1) : x ≤ i := by
  induction i generalizing buf j with
  | zero => cases hx
  | succ i ih =>
    unfold itoaReverseTraced at hx
    split at hx
    · rcases List.mem_cons.1 hx with rfl | hx
      · omega
      rcases List.mem_cons.1 hx with rfl | hx
      · exact le_refl _
      · exact Nat.le_succ_of_le (ih hx)
    · cases hx

/-- Every store of `itoa` is to a cell of the string or to its zero. -/
lemma itoaTraced_fst (hb : 2 ≤ base) {x : Nat} (hx : x ∈ (itoaTraced buf n base).1) :
    x ≤ (numeral base n).length := by
  have hlen := (itoaDigits_spec buf 0 hb (Nat.lt_succ_self n)).1
  unfold itoaTraced at hx
  unfold numeral
  dsimp only at hx
  rw [itoaDigitsTraced_snd, hlen, Nat.zero_add] at hx
  rw [List.length_reverse]
  rcases List.mem_append.1 hx with hx | hx
  · have := itoaDigitsTraced_fst hb (Nat.lt_succ_self n) hx
    omega
  rcases List.mem_cons.1 hx with rfl | hx
  · exact le_refl _
  · have := itoaReverseTraced_fst hx
    omega

lemma digitValue_digit {d : Nat} (h : d < 16) :
    digitValue (digit d) = d ∧ (isDigit (digit d) ∨ 97 ≤ digit d ∧ digit d ≤ 102) ∧
      (digit d = 48 ↔ d = 0) := by
  have hall : ∀ d : Fin 16, digitValue (digit d) = d ∧
      (isDigit (digit d) ∨ 97 ≤ digit d ∧ digit d ≤ 102) ∧ (digit d = 48 ↔ (d : Nat) = 0) := by decide
  exact hall ⟨d, h⟩

lemma digitsUp_map (base n : Nat) :
    digitsUp base n = (if n = 0 then [0] else Nat.digits base n).map digit := by
  unfold digitsUp
  split <;> rfl

/-- The digits of a number, from the lowest one, are digits of the base with its value. -/
lemma ofDigits_digits (hb : 2 ≤ base) (n : Nat) :
    (∀ d ∈ (if n = 0 then [0] else Nat.digits base n), d < base) ∧
      Nat.ofDigits base (if n = 0 then [0] else Nat.digits base n) = n := by
  split
  case isTrue h =>
    refine ⟨fun d hd => ?_, ?_⟩
    · rw [List.mem_singleton.1 hd]
      omega
    · rw [Nat.ofDigits_singleton, h]
  case isFalse => exact ⟨fun d hd => Nat.digits_lt_base hb hd, Nat.ofDigits_digits base n⟩

lemma textValue_append (s : List UInt8) (c : UInt8) :
    textValue base (s ++ [c]) = textValue base s * base + digitValue c := by
  unfold textValue
  rw [List.foldl_append]
  rfl

/-- The value of a text whose digits come from the highest one. -/
lemma textValue_reverse (hb16 : base ≤ 16) {ds : List Nat} (h : ∀ d ∈ ds, d < base) :
    textValue base (ds.map digit).reverse = Nat.ofDigits base ds := by
  induction ds with
  | nil => rfl
  | cons d ds ih =>
    have hd : d < 16 := lt_of_lt_of_le (h d (List.mem_cons_self ..)) hb16
    rw [List.map_cons, List.reverse_cons, textValue_append, ih fun e he => h e (List.mem_cons_of_mem _ he),
      (digitValue_digit hd).1, Nat.ofDigits_cons]
    ring

/-- The text of a number has its value. -/
lemma textValue_numeral (hb : 2 ≤ base) (hb16 : base ≤ 16) (n : Nat) :
    textValue base (numeral base n) = n := by
  obtain ⟨hlt, hval⟩ := ofDigits_digits hb n
  rw [numeral, digitsUp_map, textValue_reverse hb16 hlt, hval]

lemma numeral_digits (hb : 2 ≤ base) (hb16 : base ≤ 16) {c : UInt8} (hc : c ∈ numeral base n) :
    IsDigitOf base c := by
  rw [numeral, List.mem_reverse, digitsUp_map] at hc
  obtain ⟨d, hd, rfl⟩ := List.mem_map.1 hc
  have hlt := (ofDigits_digits hb n).1 d hd
  obtain ⟨hval, hchar, -⟩ := digitValue_digit (lt_of_lt_of_le hlt hb16)
  exact ⟨hchar, hval.symm ▸ hlt⟩

/-- The highest digit of a number other than 0 is not 0. -/
lemma numeral_head (hb : 2 ≤ base) (hb16 : base ≤ 16) (hn : n ≠ 0) :
    ∃ c ∈ (numeral base n).head?, c ≠ 48 := by
  have hne : Nat.digits base n ≠ [] := Nat.digits_ne_nil_iff_ne_zero.2 hn
  have hlast := Nat.getLast_digit_ne_zero base hn
  have hlt := Nat.digits_lt_base hb (List.getLast_mem hne)
  refine ⟨digit ((Nat.digits base n).getLast hne), ?_, fun h => ?_⟩
  · rw [numeral, digitsUp_map, if_neg hn, List.head?_reverse, List.getLast?_map,
      List.getLast?_eq_getLast_of_ne_nil hne]
    rfl
  · exact hlast ((digitValue_digit (lt_of_lt_of_le hlt hb16)).2.2.1 h)

/-- What `itoa` writes in the buffer of its caller. -/
lemma itoa_writes (buf : Mem) (hb : 10 ≤ base) (hb16 : base ≤ 16) (hn : n < 4294967296) :
    WritesNumber buf n base := by
  have hb2 : 2 ≤ base := by omega
  have hstr : itoaText buf n base = numeral base n := itoa_string buf hb hb16 hn
  have hlen := numeral_length hb hn
  obtain ⟨hc, hz⟩ := itoa_spec buf n hb2
  constructor
  · exact itoaTraced_snd
  · intro i hi
    have := itoaTraced_fst hb2 hi
    unfold NUMBUF
    omega
  · rwa [hstr]
  · rwa [hstr]
  · rwa [hstr]
  · rw [hstr]
    exact fun c hc => numeral_digits hb2 hb16 hc
  · rw [hstr]
    by_cases h0 : n = 0
    · exact .inl (by rw [h0]; rfl)
    · exact .inr (numeral_head hb2 hb16 h0)
  · rw [hstr, textValue_numeral hb2 hb16]

end

/-! ## atoi -/

section

variable {m : Mem} {c str : Nat} {s : List UInt8}

/-- The digits of the base 10 are those `atoi` goes on at. -/
lemma IsDigitOf.decimal {c : UInt8} (h : IsDigitOf 10 c) : isDigit c := by
  obtain ⟨hchar | hchar, hval⟩ := h
  · exact hchar
  · by_contra hno
    have h97 : 97 ≤ c.toNat := hchar.1
    rw [digitValue, if_neg hno] at hval
    omega

/-- One round of the loop on the digit of a number. -/
lemma atoi_step {c : UInt8} (h : isDigit c) (v : Nat) :
    BitVec.ofNat 32 v * 10 + BitVec.ofNat 32 c.toNat - 48 = BitVec.ofNat 32 (v * 10 + digitValue c) := by
  have h48 : 48 ≤ c.toNat := (of_decide_eq_true h).1
  obtain ⟨k, hk⟩ := Nat.exists_eq_add_of_le' h48
  rw [digitValue, if_pos h, hk, Nat.add_sub_cancel, BitVec.ofNat_add, BitVec.ofNat_add, BitVec.ofNat_mul,
    ← BitVec.add_assoc]
  exact BitVec.add_sub_cancel ..

/-- The loop reads a text of digits up to the character behind it, modulo 2^32. -/
lemma atoiLoop_text (h : Spells m c s) (hd : ∀ x ∈ s, isDigit x) (hend : ¬ isDigit (m (c + s.length)))
    {fuel : Nat} (hf : s.length < fuel) (v : Nat) :
    atoiLoop m fuel c (BitVec.ofNat 32 v) =
      .ok (BitVec.ofNat 32 (s.foldl (fun v x => v * 10 + digitValue x) v)) := by
  induction s generalizing c fuel v with
  | nil =>
    cases fuel with
    | zero => cases hf
    | succ fuel => exact if_neg hend
  | cons x s ih =>
    cases fuel with
    | zero => cases hf
    | succ fuel =>
      have hx : m c = x := h 0 (Nat.zero_lt_succ _)
      have hdig := hd x (List.mem_cons_self ..)
      rw [List.length_cons] at hf hend
      unfold atoiLoop
      rw [hx, if_pos hdig, atoi_step hdig]
      refine ih (Spells.right (s := [x]) h) (fun y hy => hd y (List.mem_cons_of_mem _ hy)) ?_ (by omega) _
      rwa [List.length_singleton, Nat.add_assoc, Nat.add_comm 1]

/-- The digits of a number below 2^32, in the base 10. -/
lemma atoiLoop_numeral {k : Nat} (hk : k < 4294967296) (h : Spells m c (numeral 10 k))
    (hz : m (c + (numeral 10 k).length) = 0) : atoiLoop m LOOP_MAX c 0 = .ok (BitVec.ofNat 32 k) := by
  have hlen := numeral_length (le_refl 10) hk
  have hdig : ∀ x ∈ numeral 10 k, isDigit x := fun x hx =>
    (numeral_digits (by decide) (by decide) hx).decimal
  have hfuel : (numeral 10 k).length < LOOP_MAX := by
    rw [loopMax_eq]
    omega
  have hrun := atoiLoop_text h hdig (by rw [hz]; decide) hfuel 0
  refine hrun.trans ?_
  exact congrArg (fun v => Except.ok (BitVec.ofNat 32 v)) (textValue_numeral (by decide) (by decide) k)

/-- What `atoi` finds in a sign and the digits of an absolute value. -/
lemma atoi_signedText {buf : Mem} {n : BitVec 32} (h : Spells m str (signedText buf n))
    (hz : m (str + (signedText buf n).length) = 0) : atoi m str = .ok n := by
  have habs : n.toInt.natAbs < 4294967296 := by
    have := n.toInt_lt
    have := n.le_toInt
    omega
  have hstr : itoaText buf n.toInt.natAbs 10 = numeral 10 n.toInt.natAbs :=
    itoa_string buf (by decide) (by decide) habs
  unfold signedText at h hz
  rw [hstr] at h hz
  unfold atoi
  by_cases hneg : n.toInt < 0
  · rw [if_pos hneg] at h hz
    have hminus : m str = 45 := h 0 (Nat.zero_lt_succ _)
    have hrun := atoiLoop_numeral habs (Spells.right (s := [45]) h) (by
      rw [List.length_append, ← Nat.add_assoc] at hz
      exact hz)
    have hn : n = BitVec.ofInt 32 (-(n.toInt.natAbs : Int)) := by
      rw [← Int.abs_eq_natAbs, abs_of_neg hneg, neg_neg, BitVec.ofInt_toInt]
    rw [BitVec.ofInt_neg, BitVec.ofInt_natCast] at hn
    rw [if_pos hminus]
    refine (congrArg (· >>= _) hrun).trans (congrArg Except.ok ?_)
    calc -1 * BitVec.ofNat 32 n.toInt.natAbs = -(1 * BitVec.ofNat 32 n.toInt.natAbs) := BitVec.neg_mul ..
      _ = -BitVec.ofNat 32 n.toInt.natAbs := congrArg _ (BitVec.one_mul _)
      _ = n := hn.symm
  · rw [if_neg hneg, List.nil_append] at h hz
    have hpos : 0 < (numeral 10 n.toInt.natAbs).length := by
      rw [numeral, List.length_reverse]
      exact List.length_pos_iff.2 (digitsUp_ne_nil _ _)
    have hfirst : isDigit (m str) := by
      have e : m str = (numeral 10 n.toInt.natAbs)[0] := h 0 hpos
      rw [e]
      exact (numeral_digits (by decide) (by decide) (List.getElem_mem hpos)).decimal
    have hplus : m str ≠ 45 := fun e => by
      rw [e] at hfirst
      cases hfirst
    rw [if_neg hplus]
    refine (congrArg (· >>= _) (atoiLoop_numeral habs h hz)).trans (congrArg Except.ok ?_)
    have hn : n = BitVec.ofInt 32 (n.toInt.natAbs : Int) := by
      rw [← Int.abs_eq_natAbs, abs_of_nonneg (not_lt.1 hneg), BitVec.ofInt_toInt]
    rw [BitVec.ofInt_natCast] at hn
    calc 1 * BitVec.ofNat 32 n.toInt.natAbs = BitVec.ofNat 32 n.toInt.natAbs := BitVec.one_mul _
      _ = n := hn.symm

/-- The number and the sign `%d` renders. -/
lemma uival_eq (n : BitVec 32) : (uival n).1 = n.toInt.natAbs ∧ ((uival n).2 = true ↔ n.toInt < 0) := by
  have hlt := n.isLt
  have hint := BitVec.toInt_eq_msb_cond n
  unfold uival
  cases hm : n.msb with
  | false =>
    rw [hm] at hint
    rw [if_neg (by decide)] at hint ⊢
    refine ⟨?_, iff_of_false Bool.false_ne_true ?_⟩
    · rw [hint]
      rfl
    · omega
  | true =>
    rw [hm] at hint
    rw [if_pos rfl] at hint ⊢
    have hsub : (0 - n).toNat = 2 ^ 32 - n.toNat := by
      have hbig := BitVec.msb_eq_true_iff_two_mul_ge.1 hm
      have hneg : 0 - n = -n := BitVec.zero_sub n
      rw [hneg, BitVec.toNat_neg, Nat.mod_eq_of_lt (by omega)]
    refine ⟨?_, iff_of_true rfl ?_⟩
    · dsimp only
      omega
    · omega

/-- What `%d` writes. -/
lemma format_decimal (buf out : Mem) (str : Nat) (n : BitVec 32) :
    ∃ depth r, sprintf buf depth out str decimalFormat [.int n] = .ok r ∧
      Spells r.1 str (signedText buf n) ∧ r.1 (str + (signedText buf n).length) = 0 := by
  have hexact : ∀ p ∈ [Piece.num .d none n], p.Exact := fun p hp => by
    rw [List.mem_singleton.1 hp]
    exact Nat.zero_le _
  obtain ⟨depth, r, hr, htext, hz, -⟩ := pieces_format buf out str hexact
  obtain ⟨habs, hneg⟩ := uival_eq n
  have hsigned : renderingOf [Piece.num .d none n] = signedText buf n := by
    change ((if (uival n).2 then [45] else []) ++ (List.replicate (0 - _) 48 ++ numeral 10 (uival n).1)) ++ [] = _
    rw [List.append_nil, Nat.zero_sub, List.replicate_zero, List.nil_append, signedText, itoaText, ← habs,
      itoa_string buf (by decide) (by decide) (uival_lt n)]
    simp only [hneg]
  rw [hsigned] at htext hz
  exact ⟨depth, r, hr, htext, hz⟩

end

/-- `itoa` writes every 32-bit number inside the buffer of its callers, in base 10 and in base 16, and `atoi` finds
in what `%d` writes the number that was given. -/
theorem number_round_trip (buf : Mem) (n : BitVec 32) :
    WritesNumber buf n.toNat 10 ∧ WritesNumber buf n.toNat 16 ∧
      ∀ out str, ∃ depth r, sprintf buf depth out str decimalFormat [.int n] = .ok r ∧
        Spells r.1 str (signedText buf n) ∧ r.1 (str + (signedText buf n).length) = 0 ∧
        atoi r.1 str = .ok n := by
  refine ⟨itoa_writes buf (by decide) (by decide) n.isLt, itoa_writes buf (by decide) (by decide) n.isLt,
    fun out str => ?_⟩
  obtain ⟨depth, r, hr, htext, hz⟩ := format_decimal buf out str n
  exact ⟨depth, r, hr, htext, hz, atoi_signedText htext hz⟩

end Creeks
