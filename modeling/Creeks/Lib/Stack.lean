import Creeks.Lib.Memory

/-!
# Words, halfwords and descending stacks

The access of a machine with 32-bit registers and 16-bit selectors to a byte memory, and its stack: a
push stores a word below the stack pointer. `loadW_pushAll` reads back the words of a sequence of
pushes, and `pushAll_other` is their frame rule.
-/

namespace Creeks.Lib

/-- The word at `a`, as the value of a register. -/
def loadW (m : Mem) (a : Nat) : BitVec 32 := BitVec.ofNat 32 (load32 m a)

/-- Store a register at `a`. -/
def storeW (m : Mem) (a : Nat) (w : BitVec 32) : Mem := store32 m a w.toNat

/-- The halfword at `a`, as the value of a selector. -/
def loadH (m : Mem) (a : Nat) : BitVec 16 :=
  BitVec.ofNat 16 ((m a).toNat + 256 * (m (a + 1)).toNat)

/-- Store a selector at `a`. -/
def storeH (m : Mem) (a : Nat) (h : BitVec 16) : Mem := fun x =>
  if x = a then UInt8.ofNat h.toNat
  else if x = a + 1 then UInt8.ofNat (h.toNat / 256)
  else m x

section Access

variable {m m' : Mem} {a b x : Nat} {w : BitVec 32} {h : BitVec 16}

lemma storeW_other (hx : x < a ∨ a + 4 ≤ x) : storeW m a w x = m x := store32_other hx

lemma storeH_other (hx : x < a ∨ a + 2 ≤ x) : storeH m a h x = m x := by
  rw [storeH, if_neg (by omega), if_neg (by omega)]

lemma loadW_congr (hm : ∀ x, a ≤ x → x < a + 4 → m' x = m x) : loadW m' a = loadW m a := by
  rw [loadW, loadW, load32_congr hm]

lemma loadH_congr (hm : ∀ x, a ≤ x → x < a + 2 → m' x = m x) : loadH m' a = loadH m a := by
  rw [loadH, loadH, hm a (by omega) (by omega), hm (a + 1) (by omega) (by omega)]

@[simp] lemma loadW_storeW : loadW (storeW m a w) a = w := by
  rw [loadW, storeW, load32_store32]
  apply BitVec.eq_of_toNat_eq
  have := w.isLt
  rw [BitVec.toNat_ofNat]
  omega

@[simp] lemma loadH_storeH : loadH (storeH m a h) a = h := by
  apply BitVec.eq_of_toNat_eq
  have := h.isLt
  simp only [loadH, storeH, if_true, Nat.add_eq_left, one_ne_zero, if_false, BitVec.toNat_ofNat,
    UInt8.toNat_ofNat', Nat.reducePow]
  omega

lemma loadW_storeW_other (hab : b + 4 ≤ a ∨ a + 4 ≤ b) : loadW (storeW m a w) b = loadW m b :=
  loadW_congr fun _ _ _ => storeW_other (by omega)

lemma loadW_storeH_other (hab : b + 4 ≤ a ∨ a + 2 ≤ b) : loadW (storeH m a h) b = loadW m b :=
  loadW_congr fun _ _ _ => storeH_other (by omega)

lemma loadH_storeW_other (hab : b + 2 ≤ a ∨ a + 4 ≤ b) : loadH (storeW m a w) b = loadH m b :=
  loadH_congr fun _ _ _ => storeW_other (by omega)

lemma loadH_storeH_other (hab : b + 2 ≤ a ∨ a + 2 ≤ b) :
    loadH (storeH m a h) b = loadH m b :=
  loadH_congr fun _ _ _ => storeH_other (by omega)

/-- A selector register takes the low half of the word it is loaded from. -/
lemma loadW_low (m : Mem) (a : Nat) : (loadW m a).setWidth 16 = loadH m a := by
  apply BitVec.eq_of_toNat_eq
  rw [BitVec.toNat_setWidth, loadW, loadH, BitVec.toNat_ofNat, BitVec.toNat_ofNat, load32]
  omega

end Access

/-- A memory with the stack pointer. -/
structure Stack where
  mem : Mem
  sp : Nat

namespace Stack

variable {s : Stack} {ws : List (BitVec 32)} {w : BitVec 32} {i x : Nat}

/-- Push one word. -/
def push (s : Stack) (w : BitVec 32) : Stack := ⟨storeW s.mem (s.sp - 4) w, s.sp - 4⟩

/-- Push a sequence of words, the first one first. -/
def pushAll (s : Stack) (ws : List (BitVec 32)) : Stack := ws.foldl push s

lemma pushAll_sp : (s.pushAll ws).sp = s.sp - 4 * ws.length := by
  induction ws generalizing s with
  | nil => rfl
  | cons w ws ih =>
    change ((s.push w).pushAll ws).sp = _
    rw [ih, List.length_cons]
    change s.sp - 4 - _ = _
    omega

/-- Pushing only writes between the two stack pointers. -/
lemma pushAll_other (hroom : 4 * ws.length ≤ s.sp) (hx : s.sp ≤ x ∨ x < s.sp - 4 * ws.length) :
    (s.pushAll ws).mem x = s.mem x := by
  induction ws generalizing s with
  | nil => rfl
  | cons w ws ih =>
    rw [List.length_cons] at hroom hx
    change ((s.push w).pushAll ws).mem x = _
    have hroom' : 4 * ws.length ≤ (s.push w).sp := by
      change _ ≤ s.sp - 4
      omega
    have hx' : (s.push w).sp ≤ x ∨ x < (s.push w).sp - 4 * ws.length := by
      change s.sp - 4 ≤ x ∨ x < s.sp - 4 - _
      omega
    rw [ih hroom' hx']
    exact storeW_other (by omega)

/-- The words of a sequence of pushes are where they were pushed. -/
lemma loadW_pushAll (hroom : 4 * ws.length ≤ s.sp) (hi : i < ws.length) :
    loadW (s.pushAll ws).mem (s.sp - 4 * (i + 1)) = ws[i] := by
  induction ws generalizing s i with
  | nil => cases hi
  | cons w ws ih =>
    rw [List.length_cons] at hroom hi
    have hroom' : 4 * ws.length ≤ (s.push w).sp := by
      change _ ≤ s.sp - 4
      omega
    change loadW ((s.push w).pushAll ws).mem _ = _
    cases i with
    | zero =>
      have hkeep : loadW ((s.push w).pushAll ws).mem (s.sp - 4) = loadW (s.push w).mem (s.sp - 4) :=
        loadW_congr fun x hx _ => pushAll_other hroom' (.inl hx)
      exact hkeep.trans loadW_storeW
    | succ i =>
      have hsp : s.sp - 4 * (i + 1 + 1) = (s.push w).sp - 4 * (i + 1) := by
        change _ = s.sp - 4 - _
        omega
      rw [hsp, ih hroom' (by omega), List.getElem_cons_succ]

/-- The words of a sequence of pushes, counted from the last one. -/
lemma loadW_pushed {k : Nat} (hroom : 4 * ws.length ≤ s.sp) (hk : k < ws.length) :
    loadW (s.pushAll ws).mem ((s.pushAll ws).sp + 4 * k) = ws[ws.length - 1 - k] := by
  have hi : ws.length - 1 - k < ws.length := by omega
  have hsp : (s.pushAll ws).sp + 4 * k = s.sp - 4 * (ws.length - 1 - k + 1) := by
    rw [pushAll_sp]
    omega
  rw [hsp, loadW_pushAll hroom hi]

/-- What a sequence of `n` pushes does: the stack pointer, the words counted from the last one, and the
memory that is kept. -/
lemma pushAll_spec (s : Stack) (ws : List (BitVec 32)) (n : Nat) (hn : ws.length = n)
    (hroom : 4 * n ≤ s.sp) :
    (s.pushAll ws).sp = s.sp - 4 * n ∧
      (∀ k (hk : k < n), loadW (s.pushAll ws).mem ((s.pushAll ws).sp + 4 * k) =
        ws.get ⟨n - 1 - k, by omega⟩) ∧
      ∀ x, s.sp ≤ x ∨ x < s.sp - 4 * n → (s.pushAll ws).mem x = s.mem x := by
  subst hn
  exact ⟨pushAll_sp, fun k hk => loadW_pushed hroom hk, fun x hx => pushAll_other hroom hx⟩

end Stack

end Creeks.Lib
