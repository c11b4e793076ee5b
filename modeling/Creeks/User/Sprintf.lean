import Creeks.Text.Printk

/-!
# sprintf

The formatter of the user library. A directive renders into a small buffer, writes it with a `sprintf` of
its own and advances by a length computed beside. `sprintf_exact_iff` says when the result is what the
format asks for: the advance of a padded number is the length it had before, and a string is a format
again.
-/

namespace Creeks
open Lib

/-- A directive of `sprintf`: the memory, the advanced pointer and the arguments that are left. -/
def sprintfDirective (sprintf : Mem → Nat → CText → List Arg → Except Fault (Mem × Nat)) (buf : Mem)
    (size : Nat) (c : UInt8) (args : List Arg) (out : Mem) (str : Nat) :
    Except Fault ((Mem × Nat) × List Arg) :=
  if c = 100 then do                          -- 'd'
    let r ← nextInt args
    let u := uival r.1
    let n := render buf u.1 10 size
    let w ← (if u.2 then sprintf out str minusFormat [.str (bufText n.1)]
      else sprintf out str (bufText n.1) [])
    .ok ((w.1, str + if u.2 then n.2 + 1 else n.2), r.2)
  else if c = 117 then do                     -- 'u'
    let r ← nextInt args
    let n := render buf r.1.toNat 10 size
    let w ← sprintf out str (bufText n.1) []
    .ok ((w.1, str + n.2), r.2)
  else if c = 120 ∨ c = 88 then do            -- 'x', 'X'
    let r ← nextInt args
    let n := render buf r.1.toNat 16 size
    let w ← sprintf out str hexFormat [.str (bufText n.1)]
    .ok ((w.1, str + (n.2 + 2)), r.2)
  else if c = 112 then do                     -- 'p'
    let r ← nextInt args
    let n := render buf r.1.toNat 16 8
    let w ← sprintf out str hexFormat [.str (bufText n.1)]
    .ok ((w.1, str + (n.2 + 2)), r.2)
  else if c = 115 then do                     -- 's'
    let r ← nextStr args
    let w ← sprintf out str r.1 []
    .ok ((w.1, str + r.1.1.length), r.2)
  else if c = 99 then do                      -- 'c'
    let r ← nextInt args
    .ok ((Function.update out str (UInt8.ofNat r.1.toNat), str + 1), r.2)
  else .ok ((out, str), args)

/-- The loop of `sprintf` over the format. -/
def sprintfLoop (sprintf : Mem → Nat → CText → List Arg → Except Fault (Mem × Nat)) (buf : Mem) :
    List UInt8 → List Arg → Mem → Nat → Except Fault (Mem × Nat)
  | [], _, out, str => .ok (out, str)
  | c :: s, args, out, str =>
    if c ≠ 37 then sprintfLoop sprintf buf s args (Function.update out str c) (str + 1)
    else
      match s with
      | [] => .error .pastEnd
      | c :: s =>
        if isDigit c then
          match s with
          | [] => .error .pastEnd
          | d :: s => do
            let r ← sprintfDirective sprintf buf (c.toNat - 48) d args out str
            sprintfLoop sprintf buf s r.2 r.1.1 r.1.2
        else do
          let r ← sprintfDirective sprintf buf 0 c args out str
          sprintfLoop sprintf buf s r.2 r.1.1 r.1.2

/-- `sprintf`, with the memory it leaves and the length it returns. -/
def sprintf (buf : Mem) : Nat → Mem → Nat → CText → List Arg → Except Fault (Mem × Nat)
  | 0, _, _, _, _ => .error .depth
  | depth + 1, out, str, format, args => do
    let r ← sprintfLoop (sprintf buf depth) buf format.1 args out str
    .ok (Function.update r.1 r.2 0, r.2 - str)

/-! ## What a format asks for -/

/-- The directives for numbers. -/
inductive NumKind where
  | d | u | x | p

/-- A piece of a format with its argument. The width is one digit. -/
inductive Piece where
  | lit (c : UInt8) (h : c ≠ 0 ∧ c ≠ 37)
  | num (kind : NumKind) (width : Option (Fin 10)) (n : BitVec 32)
  | str (width : Option (Fin 10)) (s : CText)
  | char (width : Option (Fin 10)) (n : BitVec 32)

namespace NumKind

def char : NumKind → UInt8
  | d => 100
  | u => 117
  | x => 120
  | p => 112

/-- The digits of a number without its width. -/
def digits (n : BitVec 32) : NumKind → List UInt8
  | d => numeral 10 (uival n).1
  | u => numeral 10 n.toNat
  | x | p => numeral 16 n.toNat

/-- What stands in front of them. -/
def sign (n : BitVec 32) : NumKind → List UInt8
  | d => if (uival n).2 then [45] else []
  | u => []
  | x | p => [48, 120]

/-- A pointer is padded to eight digits. -/
def width (size : Nat) : NumKind → Nat
  | p => 8
  | _ => size

end NumKind

namespace Piece

/-- The digit of a width. -/
def widthText : Option (Fin 10) → List UInt8
  | none => []
  | some w => [UInt8.ofNat (w + 48)]

/-- The width that was given, or 0. -/
def size (w : Option (Fin 10)) : Nat := (w.getD 0).val

def format : Piece → List UInt8
  | lit c _ => [c]
  | num kind w _ => 37 :: widthText w ++ [kind.char]
  | str w _ => 37 :: widthText w ++ [115]
  | char w _ => 37 :: widthText w ++ [99]

def args : Piece → List Arg
  | lit .. => []
  | num _ _ n | char _ n => [.int n]
  | str _ s => [.str s]

/-- What the piece contributes to the text. -/
def rendering : Piece → List UInt8
  | lit c _ => [c]
  | num kind w n => kind.sign n ++ padded (kind.width (size w)) (kind.digits n)
  | str _ s => s.1
  | char _ n => [UInt8.ofNat n.toNat]

/-- The number is as long as its width, or the string holds no `%`. -/
def Exact : Piece → Prop
  | num kind w n => kind.width (size w) ≤ (kind.digits n).length
  | str _ s => (37 : UInt8) ∉ s.1
  | _ => True

instance : ∀ p : Piece, Decidable p.Exact
  | lit .. | char .. => .isTrue trivial
  | num kind w n => inferInstanceAs (Decidable (kind.width (size w) ≤ (kind.digits n).length))
  | str _ s => inferInstanceAs (Decidable ((37 : UInt8) ∉ s.1))

/-- By how much the pointer advances. -/
def advance : Piece → Nat
  | num kind _ n => (kind.sign n).length + (kind.digits n).length
  | p => p.rendering.length

end Piece

/-- The format of a list of pieces. -/
def formatOf (ps : List Piece) : List UInt8 := ps.flatMap Piece.format

def argsOf (ps : List Piece) : List Arg := ps.flatMap Piece.args

/-- The concatenation of the renderings. -/
def renderingOf (ps : List Piece) : List UInt8 := ps.flatMap Piece.rendering

lemma directive_nonzero (w : Option (Fin 10)) {c : UInt8} (hc : c ≠ 0) :
    (0 : UInt8) ∉ 37 :: Piece.widthText w ++ [c] := by
  have hw : ∀ w : Option (Fin 10), (0 : UInt8) ∉ Piece.widthText w := by decide
  intro h
  rcases List.mem_cons.1 h with h | h
  · cases h
  · rcases List.mem_append.1 h with h | h
    · exact hw w h
    · exact hc (List.mem_singleton.1 h).symm

lemma Piece.format_nonzero : ∀ p : Piece, (0 : UInt8) ∉ p.format
  | lit c hc => fun h => hc.1 (List.mem_singleton.1 h).symm
  | num kind w n => directive_nonzero w (by cases kind <;> decide)
  | str w s => directive_nonzero w (by decide)
  | char w n => directive_nonzero w (by decide)

lemma formatOf_nonzero (ps : List Piece) : (0 : UInt8) ∉ formatOf ps := fun h => by
  obtain ⟨p, -, h⟩ := List.mem_flatMap.1 h
  exact p.format_nonzero h

/-- `sprintf` returns, and leaves at `str` the text that the format asks for, its zero behind it and its
length. -/
def Formats (buf out : Mem) (str : Nat) (ps : List Piece) : Prop :=
  ∃ depth r, sprintf buf depth out str ⟨formatOf ps, formatOf_nonzero ps⟩ (argsOf ps) = .ok r ∧
    Spells r.1 str (renderingOf ps) ∧ r.1 (str + (renderingOf ps).length) = 0 ∧
    r.2 = (renderingOf ps).length

/-! ## The loop -/

section

variable {call : Mem → Nat → CText → List Arg → Except Fault (Mem × Nat)} {buf out : Mem} {str : Nat}
  {s : List UInt8} {args : List Arg}

lemma sprintfLoop_char {c : UInt8} (h : c ≠ 37) :
    sprintfLoop call buf (c :: s) args out str =
      sprintfLoop call buf s args (Function.update out str c) (str + 1) := by
  rw [sprintfLoop.eq_def]
  exact if_pos h

lemma sprintfLoop_plain {c : UInt8} (hc : ¬ isDigit c) :
    sprintfLoop call buf (37 :: c :: s) args out str =
      sprintfDirective call buf 0 c args out str >>= fun r =>
        sprintfLoop call buf s r.2 r.1.1 r.1.2 := by
  rw [sprintfLoop.eq_def]
  exact if_neg hc

lemma sprintfLoop_wide {w c : UInt8} (hw : isDigit w) :
    sprintfLoop call buf (37 :: w :: c :: s) args out str =
      sprintfDirective call buf (w.toNat - 48) c args out str >>= fun r =>
        sprintfLoop call buf s r.2 r.1.1 r.1.2 := by
  rw [sprintfLoop.eq_def]
  exact if_pos hw

lemma sprintfLoop_short {w : UInt8} (hw : isDigit w) :
    sprintfLoop call buf [37, w] args out str = .error .pastEnd := by
  rw [sprintfLoop.eq_def]
  exact if_pos hw

/-- A directive with its width. -/
lemma sprintfLoop_directive (w : Option (Fin 10)) {c : UInt8} (hc : ¬ isDigit c) :
    sprintfLoop call buf (37 :: Piece.widthText w ++ [c] ++ s) args out str =
      sprintfDirective call buf (Piece.size w) c args out str >>= fun r =>
        sprintfLoop call buf s r.2 r.1.1 r.1.2 := by
  have hw : ∀ w : Fin 10, isDigit (UInt8.ofNat (w + 48)) = true ∧
      (UInt8.ofNat (w + 48)).toNat - 48 = w := by decide
  cases w with
  | none => exact sprintfLoop_plain hc
  | some w =>
    refine (sprintfLoop_wide (hw w).1).trans ?_
    rw [(hw w).2]
    rfl

/-- Characters other than `%` are stored one behind the other. -/
lemma sprintfLoop_literal {pre : List UInt8} (h : (37 : UInt8) ∉ pre) (s : List UInt8)
    (args : List Arg) (out : Mem) (str : Nat) :
    sprintfLoop call buf (pre ++ s) args out str =
      sprintfLoop call buf s args (writeText out str pre) (str + pre.length) := by
  induction pre generalizing out str with
  | nil => rfl
  | cons c pre ih =>
    rw [List.mem_cons, not_or] at h
    rw [List.cons_append, sprintfLoop_char (Ne.symm h.1), ih h.2, List.length_cons]
    have e : str + 1 + pre.length = str + (pre.length + 1) := by omega
    rw [e]
    rfl

/-- Without arguments a directive does nothing or has no result. -/
lemma sprintfDirective_nil {size : Nat} {c : UInt8} {r : (Mem × Nat) × List Arg}
    (h : sprintfDirective call buf size c [] out str = .ok r) : r = ((out, str), []) := by
  unfold sprintfDirective at h
  repeat' split at h
  all_goals cases h
  rfl

/-- What a format without arguments stores: no `%`, and nothing in front of the pointer. -/
lemma sprintfLoop_nil {r : Mem × Nat} (h : sprintfLoop call buf s [] out str = .ok r) :
    str ≤ r.2 ∧ (∀ x, x < str → r.1 x = out x) ∧ ∀ x, str ≤ x → x < r.2 → r.1 x ≠ 37 := by
  generalize hargs : ([] : List Arg) = args at h
  induction s, args, out, str using sprintfLoop.induct generalizing r with
  | case1 args out str =>
    cases h
    exact ⟨le_refl _, fun _ _ => rfl, fun x h1 h2 => absurd h1 (Nat.not_le.2 h2)⟩
  | case2 c s args out str hne ih =>
    rw [sprintfLoop_char hne] at h
    obtain ⟨h1, h2, h3⟩ := ih hargs h
    refine ⟨by omega, fun x hx => ?_, fun x hx hlt => ?_⟩
    · rw [h2 x (by omega), Function.update_of_ne (by omega)]
    · by_cases e : x = str
      · rw [h2 x (by omega), e, Function.update_self]
        exact hne
      · exact h3 x (by omega) hlt
  | case3 c args out str he =>
    rw [not_not.1 he, sprintfLoop.eq_def] at h
    cases h
  | case4 c args out str he d hd =>
    rw [not_not.1 he, sprintfLoop_short hd] at h
    cases h
  | case5 c args out str he d hd e s ih =>
    rw [not_not.1 he, sprintfLoop_wide hd] at h
    subst hargs
    obtain ⟨r', hr, h⟩ := bind_ok.1 h
    have e := sprintfDirective_nil hr
    subst e
    exact ih _ rfl h
  | case6 c args out str he d s hd ih =>
    rw [not_not.1 he, sprintfLoop_plain hd] at h
    subst hargs
    obtain ⟨r', hr, h⟩ := bind_ok.1 h
    have e := sprintfDirective_nil hr
    subst e
    exact ih _ rfl h

/-- A nested call behind the pointer changes nothing in front of it. -/
lemma nested_front {α : Type}
    (hc : ∀ out str s args r, call out str s args = .ok r → ∀ x, x < str → r.1 x = out x)
    {x : Except Fault α} {f : α → CText} {g k : α → List Arg} {len : α → Nat}
    {r : (Mem × Nat) × List Arg}
    (h : (x >>= fun a => call out str (f a) (g a) >>= fun w => .ok ((w.1, str + len a), k a)) = .ok r) :
    str ≤ r.1.2 ∧ ∀ x, x < str → r.1.1 x = out x := by
  obtain ⟨a, -, h⟩ := bind_ok.1 h
  obtain ⟨w, hw, h⟩ := bind_ok.1 h
  cases h
  exact ⟨Nat.le_add_right .., fun y hy => hc _ _ _ _ _ hw y hy⟩

lemma sprintfDirective_front
    (hc : ∀ out str s args r, call out str s args = .ok r → ∀ x, x < str → r.1 x = out x)
    {size : Nat} {c : UInt8} {r : (Mem × Nat) × List Arg}
    (h : sprintfDirective call buf size c args out str = .ok r) :
    str ≤ r.1.2 ∧ ∀ x, x < str → r.1.1 x = out x := by
  unfold sprintfDirective at h
  by_cases hd : c = 100
  · rw [if_pos hd] at h
    obtain ⟨a, -, h⟩ := bind_ok.1 h
    obtain ⟨w, hw, h⟩ := bind_ok.1 h
    cases h
    refine ⟨Nat.le_add_right .., ?_⟩
    split at hw
    · exact fun y hy => hc _ _ _ _ _ hw y hy
    · exact fun y hy => hc _ _ _ _ _ hw y hy
  rw [if_neg hd] at h
  by_cases hu : c = 117
  · rw [if_pos hu] at h
    exact nested_front hc h
  rw [if_neg hu] at h
  by_cases hx : c = 120 ∨ c = 88
  · rw [if_pos hx] at h
    exact nested_front hc h
  rw [if_neg hx] at h
  by_cases hp : c = 112
  · rw [if_pos hp] at h
    exact nested_front hc h
  rw [if_neg hp] at h
  by_cases hs : c = 115
  · rw [if_pos hs] at h
    exact nested_front hc h
  rw [if_neg hs] at h
  by_cases hchar : c = 99
  · rw [if_pos hchar] at h
    obtain ⟨a, -, h⟩ := bind_ok.1 h
    cases h
    exact ⟨Nat.le_succ str, fun x hx => Function.update_of_ne (by omega) ..⟩
  · rw [if_neg hchar] at h
    cases h
    exact ⟨le_refl _, fun _ _ => rfl⟩

/-- The loop stores nothing in front of its pointer. -/
lemma sprintfLoop_front
    (hc : ∀ out str s args r, call out str s args = .ok r → ∀ x, x < str → r.1 x = out x)
    {r : Mem × Nat} (h : sprintfLoop call buf s args out str = .ok r) :
    str ≤ r.2 ∧ ∀ x, x < str → r.1 x = out x := by
  induction s, args, out, str using sprintfLoop.induct generalizing r with
  | case1 args out str =>
    cases h
    exact ⟨le_refl _, fun _ _ => rfl⟩
  | case2 c s args out str hne ih =>
    rw [sprintfLoop_char hne] at h
    obtain ⟨h1, h2⟩ := ih h
    exact ⟨by omega, fun x hx => (h2 x (by omega)).trans (Function.update_of_ne (by omega) ..)⟩
  | case3 c args out str he =>
    rw [not_not.1 he, sprintfLoop.eq_def] at h
    cases h
  | case4 c args out str he d hd =>
    rw [not_not.1 he, sprintfLoop_short hd] at h
    cases h
  | case5 c args out str he d hd e s ih =>
    rw [not_not.1 he, sprintfLoop_wide hd] at h
    obtain ⟨r', hr, h⟩ := bind_ok.1 h
    obtain ⟨h1, h2⟩ := sprintfDirective_front hc hr
    obtain ⟨h3, h4⟩ := ih r' h
    exact ⟨h1.trans h3, fun x hx => (h4 x (by omega)).trans (h2 x hx)⟩
  | case6 c args out str he d s hd ih =>
    rw [not_not.1 he, sprintfLoop_plain hd] at h
    obtain ⟨r', hr, h⟩ := bind_ok.1 h
    obtain ⟨h1, h2⟩ := sprintfDirective_front hc hr
    obtain ⟨h3, h4⟩ := ih r' h
    exact ⟨h1.trans h3, fun x hx => (h4 x (by omega)).trans (h2 x hx)⟩

end

/-! ## Nested calls -/

section

variable {buf out : Mem} {str depth : Nat} {args : List Arg}

/-- What a call leaves: the text at the pointer, with nothing in front of it changed. -/
structure Appended (out : Mem) (str : Nat) (text : List UInt8) (r : Mem × Nat) : Prop where
  text : Spells r.1 str text
  front : ∀ x, x < str → r.1 x = out x

/-- A string without `%` is copied. -/
lemma sprintf_literal (buf out : Mem) (str depth : Nat) (args : List Arg) {s : CText}
    (h : (37 : UInt8) ∉ s.1) :
    ∃ r, sprintf buf (depth + 1) out str s args = .ok r ∧ Appended out str s.1 r := by
  have hloop := @sprintfLoop_literal (sprintf buf depth) buf s.1 h [] args out str
  rw [List.append_nil] at hloop
  refine ⟨(Function.update (writeText out str s.1) (str + s.1.length) 0, str + s.1.length - str), ?_,
    ?_, fun x hx => ?_⟩
  · change (sprintfLoop _ _ _ _ _ _ >>= _) = _
    rw [hloop]
    rfl
  · exact writeText_spells.congr fun x _ hlt => Function.update_of_ne (by omega) ..
  · exact (Function.update_of_ne (by omega) ..).trans (writeText_other (.inl hx))

/-- A prefix in front of `%s`. -/
lemma sprintf_prefixed (pre : List UInt8) (h : (37 : UInt8) ∉ pre) {format s : CText}
    (hf : format.1 = pre ++ [37, 115]) (hs : (37 : UInt8) ∉ s.1) :
    ∃ r, sprintf buf (depth + 2) out str format [.str s] = .ok r ∧ Appended out str (pre ++ s.1) r := by
  obtain ⟨w, hw, wrote⟩ := sprintf_literal buf (writeText out str pre) (str + pre.length) depth [] hs
  have hdir : sprintfLoop (sprintf buf (depth + 1)) buf [37, 115] [.str s] (writeText out str pre)
      (str + pre.length) = .ok (w.1, str + pre.length + s.1.length) := by
    rw [sprintfLoop_plain (by decide)]
    change ((sprintf buf (depth + 1) _ _ s [] >>= _) >>= _) = _
    rw [hw]
    rfl
  refine ⟨(Function.update w.1 (str + pre.length + s.1.length) 0, str + pre.length + s.1.length - str),
    ?_, Spells.append ?_ ?_, fun x hx => ?_⟩
  · change (sprintfLoop _ _ _ _ _ _ >>= _) = _
    rw [hf, sprintfLoop_literal h, hdir]
    rfl
  · refine (writeText_spells (m := out)).congr fun x h1 h2 => ?_
    exact (Function.update_of_ne (by omega) ..).trans (wrote.front x h2)
  · exact wrote.text.congr fun x _ hlt => Function.update_of_ne (by omega) ..
  · refine (Function.update_of_ne (by omega) ..).trans ((wrote.front x (by omega)).trans ?_)
    exact writeText_other (.inl hx)

/-- No call stores in front of its pointer. -/
lemma sprintf_front {s : CText} {r : Mem × Nat} (h : sprintf buf depth out str s args = .ok r) :
    ∀ x, x < str → r.1 x = out x := by
  induction depth generalizing out str s args r with
  | zero => cases h
  | succ depth ih =>
    obtain ⟨w, hw, h⟩ := bind_ok.1 h
    cases h
    obtain ⟨hle, hfront⟩ := sprintfLoop_front (fun _ _ _ _ _ h => ih h) hw
    exact fun x hx => (Function.update_of_ne (by omega) ..).trans (hfront x hx)

/-- A string with a `%` and no arguments never comes out as it is: where the first `%` would be, there is
another byte. -/
lemma sprintf_percent {s : CText} (h : (37 : UInt8) ∈ s.1) {r : Mem × Nat}
    (hr : sprintf buf depth out str s [] = .ok r) : ¬ Spells r.1 str s.1 := by
  cases depth with
  | zero => cases hr
  | succ depth =>
    obtain ⟨w, hw, hr⟩ := bind_ok.1 hr
    cases hr
    obtain ⟨pre, post, hsplit, hpre⟩ := List.eq_append_cons_of_mem h
    rw [hsplit, sprintfLoop_literal hpre] at hw
    obtain ⟨hle, -, hchars⟩ := sprintfLoop_nil hw
    intro spells
    rw [hsplit] at spells
    have hcell : Function.update w.1 w.2 0 (str + pre.length) = 37 :=
      spells.right 0 (Nat.zero_lt_succ _)
    by_cases e : str + pre.length = w.2
    · rw [e, Function.update_self] at hcell
      cases hcell
    · rw [Function.update_of_ne e] at hcell
      exact hchars _ (le_refl _) (by omega) hcell

end

/-! ## Pieces -/

/-- The call that writes a number, given its text. -/
def NumKind.nested (n : BitVec 32) (text : CText) : NumKind → CText × List Arg
  | d => if (uival n).2 then (minusFormat, [.str text]) else (text, [])
  | u => (text, [])
  | x | p => (hexFormat, [.str text])

lemma uival_lt (n : BitVec 32) : (uival n).1 < 4294967296 := by
  unfold uival
  split <;> exact BitVec.isLt _

/-- The digits of a number hold no `%`. -/
lemma NumKind.digits_mem {n : BitVec 32} (kind : NumKind) {c : UInt8} (h : c ∈ kind.digits n) :
    c ≠ 37 := by
  cases kind <;> exact (digit_mem (by decide) (by decide) h).2

lemma padded_mem {size : Nat} {s : List UInt8} (h : (37 : UInt8) ∉ s) : (37 : UInt8) ∉ padded size s := by
  unfold padded
  rw [List.mem_append, List.mem_replicate]
  exact not_or.2 ⟨fun h => absurd h.2 (by decide), h⟩

/-- A directive for a number is one nested call, and the pointer advances by the length without the
width. -/
lemma sprintfDirective_num (kind : NumKind) (buf : Mem) {size : Nat} (hs : size ≤ 9) (n : BitVec 32) :
    ∃ text : CText, text.1 = padded (kind.width size) (kind.digits n) ∧
      ∀ call args out str, sprintfDirective call buf size kind.char (.int n :: args) out str =
        call out str (kind.nested n text).1 (kind.nested n text).2 >>= fun w =>
          .ok ((w.1, str + ((kind.sign n).length + (kind.digits n).length)), args) := by
  cases kind with
  | d =>
    obtain ⟨h1, h2⟩ := @render_spec buf 10 (uival n).1 size (by decide) (by decide) (uival_lt n) hs
    refine ⟨bufText (render buf (uival n).1 10 size).1, h1, fun call args out str => ?_⟩
    unfold sprintfDirective NumKind.nested NumKind.sign NumKind.digits NumKind.char
    rw [if_pos rfl]
    dsimp only [nextInt, ok_bind]
    rw [h2]
    cases (uival n).2 with
    | false => simp
    | true => simp [Nat.add_comm]
  | u =>
    obtain ⟨h1, h2⟩ := @render_spec buf 10 n.toNat size (by decide) (by decide) n.isLt hs
    refine ⟨bufText (render buf n.toNat 10 size).1, h1, fun call args out str => ?_⟩
    change (call out str _ _ >>= fun w => Except.ok ((w.1, str + (render buf n.toNat 10 size).2), args)) = _
    rw [h2]
    simp [NumKind.nested, NumKind.sign, NumKind.digits]
  | x =>
    obtain ⟨h1, h2⟩ := @render_spec buf 16 n.toNat size (by decide) (by decide) n.isLt hs
    refine ⟨bufText (render buf n.toNat 16 size).1, h1, fun call args out str => ?_⟩
    change (call out str _ _ >>= fun w =>
      Except.ok ((w.1, str + ((render buf n.toNat 16 size).2 + 2)), args)) = _
    rw [h2, Nat.add_comm _ 2]
    rfl
  | p =>
    obtain ⟨h1, h2⟩ := @render_spec buf 16 n.toNat 8 (by decide) (by decide) n.isLt (by decide)
    refine ⟨bufText (render buf n.toNat 16 8).1, h1, fun call args out str => ?_⟩
    change (call out str _ _ >>= fun w =>
      Except.ok ((w.1, str + ((render buf n.toNat 16 8).2 + 2)), args)) = _
    rw [h2, Nat.add_comm _ 2]
    rfl

/-- The nested call writes the sign and the digits with their width. -/
lemma nested_wrote (kind : NumKind) (n : BitVec 32) {size : Nat} {text : CText}
    (ht : text.1 = padded (kind.width size) (kind.digits n)) (buf out : Mem) (str depth : Nat) :
    ∃ r, sprintf buf (depth + 2) out str (kind.nested n text).1 (kind.nested n text).2 = .ok r ∧
      Appended out str (kind.sign n ++ padded (kind.width size) (kind.digits n)) r := by
  have h37 : (37 : UInt8) ∉ text.1 := by
    rw [ht]
    exact padded_mem fun h => kind.digits_mem h rfl
  rw [← ht]
  cases kind with
  | d =>
    unfold NumKind.nested NumKind.sign
    cases (uival n).2 with
    | false => exact sprintf_literal buf out str (depth + 1) [] h37
    | true => exact sprintf_prefixed [45] (by decide) rfl h37
  | u => exact sprintf_literal buf out str (depth + 1) [] h37
  | x => exact sprintf_prefixed [48, 120] (by decide) rfl h37
  | p => exact sprintf_prefixed [48, 120] (by decide) rfl h37

section

variable {buf out : Mem} {str depth : Nat} {s : List UInt8} {more : List Arg}

lemma Piece.size_le (w : Option (Fin 10)) : Piece.size w ≤ 9 := Nat.le_of_lt_succ (w.getD 0).isLt

lemma Piece.num_length (kind : NumKind) (w : Option (Fin 10)) (n : BitVec 32) :
    (Piece.num kind w n).rendering.length = (Piece.num kind w n).advance +
      (kind.width (Piece.size w) - (kind.digits n).length) := by
  change (kind.sign n ++ (List.replicate _ _ ++ kind.digits n)).length =
    (kind.sign n).length + (kind.digits n).length + _
  rw [List.length_append, List.length_append, List.length_replicate]
  omega

lemma Piece.advance_le (p : Piece) : p.advance ≤ p.rendering.length := by
  cases p with
  | num kind w n =>
    rw [Piece.num_length]
    exact Nat.le_add_right ..
  | lit | str | char => exact le_refl _

/-- A number that is as long as its width is written as it is, and the advance is right. -/
lemma Piece.Exact.advance {p : Piece} (h : p.Exact) : p.advance = p.rendering.length := by
  cases p with
  | num kind w n =>
    rw [Piece.num_length, Nat.sub_eq_zero_of_le h, Nat.add_zero]
  | lit | str | char => rfl

/-- The call and the loop behind the directive of a number. -/
lemma sprintfLoop_num (buf : Mem) (s : List UInt8) (more : List Arg) (kind : NumKind)
    (w : Option (Fin 10)) (n : BitVec 32) :
    ∃ text : CText, text.1 = padded (kind.width (Piece.size w)) (kind.digits n) ∧
      ∀ call out str, sprintfLoop call buf ((Piece.num kind w n).format ++ s)
          ((Piece.num kind w n).args ++ more) out str =
        call out str (kind.nested n text).1 (kind.nested n text).2 >>= fun r =>
          sprintfLoop call buf s more r.1 (str + (Piece.num kind w n).advance) := by
  obtain ⟨text, ht, hdir⟩ := sprintfDirective_num kind buf (Piece.size_le w) n
  refine ⟨text, ht, fun call out str => ?_⟩
  have hc : ¬ isDigit kind.char := by cases kind <;> decide
  refine (sprintfLoop_directive w hc).trans ?_
  change sprintfDirective call buf (Piece.size w) kind.char (.int n :: more) out str >>= _ = _
  rw [hdir]
  cases call out str (kind.nested n text).1 (kind.nested n text).2 with
  | error f => rfl
  | ok r => rfl

/-- The directive of a string. -/
lemma sprintfLoop_str {call : Mem → Nat → CText → List Arg → Except Fault (Mem × Nat)}
    (w : Option (Fin 10)) (t : CText) :
    sprintfLoop call buf ((Piece.str w t).format ++ s) ((Piece.str w t).args ++ more) out str =
      call out str t [] >>= fun r => sprintfLoop call buf s more r.1 (str + t.1.length) := by
  refine (sprintfLoop_directive w (by decide)).trans ?_
  change (call out str t [] >>= _) >>= _ = _
  cases call out str t [] with
  | error f => rfl
  | ok r => rfl

/-- An exact piece writes its rendering. -/
lemma Piece.Exact.run {p : Piece} (h : p.Exact) (buf out : Mem) (str depth : Nat) (s : List UInt8)
    (more : List Arg) :
    ∃ m, sprintfLoop (sprintf buf (depth + 2)) buf (p.format ++ s) (p.args ++ more) out str =
        sprintfLoop (sprintf buf (depth + 2)) buf s more m (str + p.rendering.length) ∧
      Spells m str p.rendering ∧ ∀ x, x < str → m x = out x := by
  cases p with
  | lit c hc =>
    refine ⟨Function.update out str c, sprintfLoop_char hc.2, fun i hi => ?_, fun x hx =>
      Function.update_of_ne (by omega) ..⟩
    have hi : i = 0 := by simpa [Piece.rendering] using hi
    subst hi
    exact Function.update_self ..
  | num kind w n =>
    obtain ⟨text, ht, hloop⟩ := sprintfLoop_num buf s more kind w n
    obtain ⟨r, hr, wrote⟩ := nested_wrote kind n ht buf out str depth
    refine ⟨r.1, ?_, wrote.text, wrote.front⟩
    rw [hloop, hr, ← h.advance]
    rfl
  | str w t =>
    obtain ⟨r, hr, wrote⟩ := sprintf_literal buf out str (depth + 1) [] h
    refine ⟨r.1, ?_, wrote.text, wrote.front⟩
    rw [sprintfLoop_str, hr]
    rfl
  | char w n =>
    refine ⟨Function.update out str (UInt8.ofNat n.toNat), ?_, fun i hi => ?_, fun x hx =>
      Function.update_of_ne (by omega) ..⟩
    · exact sprintfLoop_directive w (by decide)
    · have hi : i = 0 := by simpa [Piece.rendering] using hi
      subst hi
      exact Function.update_self ..

/-- A piece that is run to the end of the format. It advances as it does, and what it wrote is its
rendering only when it is exact. -/
lemma Piece.inv (p : Piece) (s : List UInt8) (more : List Arg) {r : Mem × Nat}
    (h : sprintfLoop (sprintf buf depth) buf (p.format ++ s) (p.args ++ more) out str = .ok r) :
    ∃ m, sprintfLoop (sprintf buf depth) buf s more m (str + p.advance) = .ok r ∧
      (p.advance = p.rendering.length → Spells m str p.rendering → p.Exact) := by
  cases p with
  | lit c hc => exact ⟨_, (sprintfLoop_char hc.2).symm.trans h, fun _ _ => trivial⟩
  | num kind w n =>
    obtain ⟨text, -, hloop⟩ := sprintfLoop_num buf s more kind w n
    rw [hloop] at h
    obtain ⟨x, -, h⟩ := bind_ok.1 h
    refine ⟨x.1, h, fun hlen _ => ?_⟩
    rw [Piece.num_length] at hlen
    change kind.width (Piece.size w) ≤ (kind.digits n).length
    omega
  | str w t =>
    rw [sprintfLoop_str] at h
    obtain ⟨x, hx, h⟩ := bind_ok.1 h
    exact ⟨x.1, h, fun _ spells hmem => sprintf_percent hmem hx spells⟩
  | char w n => exact ⟨_, (sprintfLoop_directive w (by decide)).symm.trans h, fun _ _ => trivial⟩

end

section

variable {buf out : Mem} {str depth : Nat} {ps : List Piece}

/-- Exact pieces are written one behind the other. -/
lemma pieces_run (buf out : Mem) (str depth : Nat) (h : ∀ p ∈ ps, p.Exact) :
    ∃ m, sprintfLoop (sprintf buf (depth + 2)) buf (formatOf ps) (argsOf ps) out str =
        .ok (m, str + (renderingOf ps).length) ∧
      Spells m str (renderingOf ps) ∧ ∀ x, x < str → m x = out x := by
  induction ps generalizing out str with
  | nil => exact ⟨out, rfl, fun i hi => absurd hi (Nat.not_lt_zero i), fun _ _ => rfl⟩
  | cons p ps ih =>
    obtain ⟨m, hm, htext, hfront⟩ := (h p (List.mem_cons_self ..)).run buf out str depth (formatOf ps)
      (argsOf ps)
    obtain ⟨m', hm', htext', hfront'⟩ := ih m (str + p.rendering.length) fun q hq =>
      h q (List.mem_cons_of_mem _ hq)
    refine ⟨m', ?_, ?_, fun x hx => (hfront' x (by omega)).trans (hfront x hx)⟩
    · refine hm.trans (hm'.trans ?_)
      change Except.ok _ = Except.ok (m', str + (p.rendering ++ renderingOf ps).length)
      rw [List.length_append, Nat.add_assoc]
    · exact (htext.congr fun x _ hx => hfront' x hx).append htext'

/-- `sprintf` of exact pieces. -/
lemma pieces_format (buf out : Mem) (str : Nat) (h : ∀ p ∈ ps, p.Exact) : Formats buf out str ps := by
  obtain ⟨m, hm, htext, -⟩ := pieces_run buf out str 0 h
  refine ⟨3, (Function.update m (str + (renderingOf ps).length) 0,
    str + (renderingOf ps).length - str), ?_, ?_, Function.update_self .., Nat.add_sub_cancel_left ..⟩
  · change (sprintfLoop _ _ _ _ _ _ >>= _) = _
    rw [hm]
    rfl
  · exact htext.congr fun x _ hx => Function.update_of_ne (by omega) ..

/-- The advances never reach behind the renderings. -/
lemma pieces_end {r : Mem × Nat}
    (h : sprintfLoop (sprintf buf depth) buf (formatOf ps) (argsOf ps) out str = .ok r) :
    r.2 ≤ str + (renderingOf ps).length := by
  induction ps generalizing out str with
  | nil =>
    cases h
    exact le_refl _
  | cons p ps ih =>
    obtain ⟨m, hm, -⟩ := p.inv (formatOf ps) (argsOf ps) h
    have := ih hm
    have := p.advance_le
    change _ ≤ str + (p.rendering ++ renderingOf ps).length
    rw [List.length_append]
    omega

/-- When the loop ends where the text ends, and the text is there, every piece was exact. -/
lemma pieces_exact {r : Mem × Nat}
    (h : sprintfLoop (sprintf buf depth) buf (formatOf ps) (argsOf ps) out str = .ok r)
    (hend : r.2 = str + (renderingOf ps).length) (spells : Spells r.1 str (renderingOf ps)) :
    ∀ p ∈ ps, p.Exact := by
  induction ps generalizing out str with
  | nil => exact nofun
  | cons p ps ih =>
    obtain ⟨m, hm, hexact⟩ := p.inv (formatOf ps) (argsOf ps) h
    have hsum : (renderingOf (p :: ps)).length = p.rendering.length + (renderingOf ps).length :=
      List.length_append
    have hle := pieces_end hm
    have hadv : p.advance = p.rendering.length := by
      have := p.advance_le
      omega
    have hfront := (sprintfLoop_front (fun _ _ _ _ _ h => sprintf_front h) hm).2
    rw [hadv] at hm hfront
    intro q hq
    rcases List.mem_cons.1 hq with rfl | hq
    · refine hexact hadv ((Spells.left (t := renderingOf ps) spells).congr fun x _ hx => ?_)
      exact (hfront x hx).symm
    · exact ih hm (by omega) (Spells.right (s := p.rendering) spells) q hq

end

/-- `sprintf` writes what the format asks for exactly when no number is shorter than its width and no
string holds a `%`. -/
theorem sprintf_exact_iff (buf out : Mem) (str : Nat) (ps : List Piece) :
    Formats buf out str ps ↔ ∀ p ∈ ps, p.Exact := by
  constructor
  · rintro ⟨depth, r, hr, htext, -, hlen⟩
    cases depth with
    | zero => cases hr
    | succ depth =>
      obtain ⟨w, hw, hr⟩ := bind_ok.1 hr
      cases hr
      have hle := (sprintfLoop_front (fun _ _ _ _ _ h => sprintf_front h) hw).1
      have hend : w.2 = str + (renderingOf ps).length := by
        dsimp only at hlen
        omega
      refine pieces_exact hw hend (htext.congr fun x _ hx => ?_)
      exact (Function.update_of_ne (by omega) ..).symm
  · exact pieces_format buf out str

/-- The number 7 with the width 3 is written as `007` and advances by one. -/
theorem padded_number_cut : ¬ ∀ ps, Formats (fun _ => 0) (fun _ => 0) 0 ps := by
  intro h
  obtain ⟨depth, r, hr, -, -, hlen⟩ := h [.num .u (some 3) 7]
  cases depth with
  | zero => cases hr
  | succ depth =>
    obtain ⟨w, hw, hr⟩ := bind_ok.1 hr
    cases hr
    obtain ⟨m, hm, -⟩ := Piece.inv (.num .u (some 3) 7) [] [] hw
    cases hm
    have hne : 0 + (Piece.num .u (some 3) 7).advance - 0 ≠ (renderingOf [.num .u (some 3) 7]).length := by
      decide +kernel
    exact hne hlen

end Creeks
