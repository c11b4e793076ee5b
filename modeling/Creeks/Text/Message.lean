import Creeks.User.Sprintf

/-!
# Kernel messages

`printk` has the directives of `sprintf` but for `%c`, which it passes over without its argument. Its
numbers are printed from the buffer, so their widths come out right, and the only arguments that can go
wrong are strings: `printk_renders_iff`.
-/

namespace Creeks
open Lib

/-- A piece that `printk` knows. -/
def Piece.Known : Piece → Prop
  | char .. => False
  | _ => True

instance : ∀ p : Piece, Decidable p.Known
  | .lit .. | .num .. | .str .. => .isTrue trivial
  | .char .. => .isFalse id

section

variable {call : CText → List Arg → Except Fault (List UInt8)} {buf : Mem} {depth : Nat} {s out : List UInt8}
  {args : List Arg}

/-- A directive with or without a width. -/
lemma printkLoop_directive (w : Option (Fin 10)) {c : UInt8} (hc : ¬ isDigit c) :
    printkLoop call buf (37 :: Piece.widthText w ++ [c] ++ s) args =
      printkDirective call buf (Piece.size w) c args >>= fun r =>
        printkLoop call buf s r.2 >>= fun out => .ok (r.1 ++ out) := by
  cases w with
  | none => exact printkLoop_plain hc
  | some w =>
    have hw : ∀ w : Fin 10, isDigit (UInt8.ofNat (w + 48)) ∧ (UInt8.ofNat (w + 48)).toNat - 48 = w.val := by
      decide
    have hsize := (hw w).2
    refine (printkLoop_wide (hw w).1).trans ?_
    rw [hsize]
    rfl

/-- A string without `%` is printed as it is. -/
lemma printk_literal {t : CText} (h : (37 : UInt8) ∉ t.1) : printk buf (depth + 1) t args = .ok t.1 :=
  printkLoop_literal h

/-- A prefix in front of `%s`. -/
lemma printk_prefixed {pre : List UInt8} {format t : CText} (hf : format.1 = pre ++ [37, 115])
    (hpre : (37 : UInt8) ∉ pre) (ht : (37 : UInt8) ∉ t.1) :
    printk buf (depth + 2) format [.str t] = .ok (pre ++ t.1) := by
  change printkLoop (printk buf (depth + 1)) buf format.1 [.str t] = _
  rw [hf]
  clear hf
  induction pre with
  | nil =>
    refine (printkLoop_plain (by decide)).trans ?_
    change (printk buf (depth + 1) t [] >>= _) >>= _ = _
    rw [printk_literal ht]
    exact congrArg Except.ok (List.append_nil _)
  | cons c pre ih =>
    rw [List.mem_cons, not_or] at hpre
    rw [List.cons_append, printkLoop_char (Ne.symm hpre.1), ih hpre.2]
    rfl

/-- The nested call of a number prints the sign and the digits with their width. -/
lemma printk_nested (kind : NumKind) (n : BitVec 32) {size : Nat} {text : CText}
    (ht : text.1 = padded (kind.width size) (kind.digits n)) :
    printk buf (depth + 2) (kind.nested n text).1 (kind.nested n text).2 =
      .ok (kind.sign n ++ padded (kind.width size) (kind.digits n)) := by
  have h37 : (37 : UInt8) ∉ text.1 := by
    rw [ht]
    exact padded_mem fun h => kind.digits_mem h rfl
  rw [← ht]
  cases kind with
  | d =>
    unfold NumKind.nested NumKind.sign
    cases (uival n).2 with
    | false => exact printk_literal h37
    | true => exact @printk_prefixed buf depth [45] _ _ rfl (by decide) h37
  | u => exact printk_literal h37
  | x => exact @printk_prefixed buf depth [48, 120] _ _ rfl (by decide) h37
  | p => exact @printk_prefixed buf depth [48, 120] _ _ rfl (by decide) h37

/-- A directive for a number is one nested call. -/
lemma printkDirective_num (kind : NumKind) (buf : Mem) {size : Nat} (hs : size ≤ 9) (n : BitVec 32) :
    ∃ text : CText, text.1 = padded (kind.width size) (kind.digits n) ∧
      ∀ call args, printkDirective call buf size kind.char (.int n :: args) =
        call (kind.nested n text).1 (kind.nested n text).2 >>= fun out => .ok (out, args) := by
  cases kind with
  | d =>
    refine ⟨bufText (render buf (uival n).1 10 size).1, (render_spec buf (by decide) (by decide) (uival_lt n) hs).1,
      fun call args => ?_⟩
    unfold printkDirective NumKind.nested NumKind.char
    rw [if_pos rfl]
    dsimp only [nextInt, ok_bind]
    cases (uival n).2 with
    | false => rfl
    | true => rfl
  | u =>
    exact ⟨bufText (render buf n.toNat 10 size).1, (render_spec buf (by decide) (by decide) n.isLt hs).1,
      fun call args => rfl⟩
  | x =>
    exact ⟨bufText (render buf n.toNat 16 size).1, (render_spec buf (by decide) (by decide) n.isLt hs).1,
      fun call args => rfl⟩
  | p =>
    exact ⟨bufText (render buf n.toNat 16 8).1, (render_spec buf (by decide) (by decide) n.isLt (by decide)).1,
      fun call args => rfl⟩

/-- A piece prints its rendering, when its string holds no `%`. -/
lemma Piece.Known.run {p : Piece} (h : p.Known) (h37 : (37 : UInt8) ∉ p.rendering) :
    printkLoop (printk buf (depth + 2)) buf (p.format ++ s) (p.args ++ args) =
      printkLoop (printk buf (depth + 2)) buf s args >>= fun out => .ok (p.rendering ++ out) := by
  cases p with
  | lit c hc => exact printkLoop_char hc.2
  | num kind w n =>
    obtain ⟨text, ht, hdir⟩ := printkDirective_num kind buf (Piece.size_le w) n
    have hc : ¬ isDigit kind.char := by cases kind <;> decide
    refine (printkLoop_directive w hc).trans ?_
    change printkDirective _ buf (Piece.size w) kind.char (.int n :: args) >>= _ = _
    rw [hdir, printk_nested kind n ht]
    rfl
  | str w t =>
    refine (printkLoop_directive w (by decide)).trans ?_
    change (printk buf (depth + 2) t [] >>= _) >>= _ = _
    rw [printk_literal h37]
    rfl
  | char w n => exact h.elim

lemma pieces_printed {ps : List Piece} (h : ∀ p ∈ ps, p.Known) (h37 : ∀ p ∈ ps, (37 : UInt8) ∉ p.rendering) :
    printkLoop (printk buf (depth + 2)) buf (formatOf ps) (argsOf ps) = .ok (renderingOf ps) := by
  induction ps with
  | nil => rfl
  | cons p ps ih =>
    have hrest := ih (fun q hq => h q (List.mem_cons_of_mem _ hq)) fun q hq => h37 q (List.mem_cons_of_mem _ hq)
    have hp : printkLoop (printk buf (depth + 2)) buf (p.format ++ formatOf ps) (p.args ++ argsOf ps) = _ :=
      (h p (List.mem_cons_self ..)).run (h37 p (List.mem_cons_self ..))
    unfold formatOf argsOf renderingOf at hrest ⊢
    unfold formatOf argsOf at hp
    rw [List.flatMap_cons, List.flatMap_cons, List.flatMap_cons, hp, hrest]
    rfl

end

/-- No `%` stands in what a known piece renders unless its string has one. -/
lemma Piece.rendering_percent {p : Piece} (h : p.Known) (hs : ∀ w t, p = .str w t → (37 : UInt8) ∉ t.1) :
    (37 : UInt8) ∉ p.rendering := by
  cases p with
  | lit c hc => exact fun h => hc.2 (List.mem_singleton.1 h).symm
  | num kind w n =>
    intro hmem
    rcases List.mem_append.1 hmem with hmem | hmem
    · exact absurd hmem (by cases kind <;> simp [NumKind.sign])
    · exact padded_mem (fun h => kind.digits_mem h rfl) hmem
  | str w t => exact hs w t rfl
  | char w n => exact h.elim

/-- For a format of literals, numbers with any width and strings, and its arguments, `printk` prints the
literals, the numbers padded to their widths and the strings, exactly when no string holds a `%`. -/
theorem printk_renders_iff (buf : Mem) (ps : List Piece) (hps : ∀ p ∈ ps, p.Known) :
    (∃ depth, printk buf depth ⟨formatOf ps, formatOf_nonzero ps⟩ (argsOf ps) = .ok (renderingOf ps)) ↔
      ∀ w t, Piece.str w t ∈ ps → (37 : UInt8) ∉ t.1 := by
  constructor
  · rintro ⟨depth, h⟩ w t ht hmem
    exact printk_no_percent h (List.mem_flatMap.2 ⟨_, ht, hmem⟩)
  · intro hstr
    refine ⟨1 + 2, pieces_printed hps fun p hp => Piece.rendering_percent (hps p hp) fun w t e => ?_⟩
    subst e
    exact hstr w t hp

/-- `[%3d]` with -7 and `%s` with the text `OK`. -/
theorem printk_renders_message :
    (∃ depth, printk (fun _ => 0) depth ⟨formatOf [.lit 91 (by decide), .num .d (some 3) (-7),
        .lit 93 (by decide), .str none ⟨[79, 75], by decide⟩], formatOf_nonzero _⟩
      (argsOf [.lit 91 (by decide), .num .d (some 3) (-7), .lit 93 (by decide),
        .str none ⟨[79, 75], by decide⟩]) =
      .ok (renderingOf [.lit 91 (by decide), .num .d (some 3) (-7), .lit 93 (by decide),
        .str none ⟨[79, 75], by decide⟩])) ↔
      ∀ w t, Piece.str w t ∈ [.lit 91 (by decide), .num .d (some 3) (-7), .lit 93 (by decide),
        .str none ⟨[79, 75], by decide⟩] → (37 : UInt8) ∉ t.1 :=
  printk_renders_iff (fun _ => 0) _ (by decide)

example : renderingOf [.num .d (some 3) (-7)] = [45, 48, 48, 55] := by decide

end Creeks
