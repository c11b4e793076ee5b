import Creeks.Lib.Run
import Creeks.Text.Itoa

/-!
# printk

The formatter of the kernel, which is also what `sys_console_write` does with the string of a user. A
number is rendered in a buffer and printed by `printk` itself, and so is the string of `%s`: whatever it
holds is a format again. `console_write_literal_iff` says which strings come out as they are.

A read behind the zero of a string and a read of an argument that was not passed have no result.
-/

namespace Creeks
open Lib

/-- A string without the zero that ends it. -/
abbrev CText := { s : List UInt8 // (0 : UInt8) ∉ s }

/-- An argument: a word, or a pointer to a string. -/
inductive Arg where
  | int (w : BitVec 32)
  | str (s : CText)

/-- What a formatter reads that it was not given: the byte behind a string, an argument that is missing
or of the other kind. `depth` is the bound of the model on nested calls. -/
inductive Fault where
  | pastEnd | noArgument | wrongKind | depth
  deriving DecidableEq

/-- `va_arg(ap, int)` -/
def nextInt : List Arg → Except Fault (BitVec 32 × List Arg)
  | [] => .error .noArgument
  | .int w :: args => .ok (w, args)
  | .str _ :: _ => .error .wrongKind

/-- `(char *) va_arg(ap, int)` -/
def nextStr : List Arg → Except Fault (CText × List Arg)
  | [] => .error .noArgument
  | .str s :: args => .ok (s, args)
  | .int _ :: _ => .error .wrongKind

lemma cString_nonzero (size : Nat) (m : Mem) : (0 : UInt8) ∉ cString size m := fun h => by
  have := (List.all_takeWhile (l := (List.range size).map m) (p := (· ≠ 0)))
  rw [List.all_eq_true] at this
  exact absurd (this 0 h) (by decide)

/-- The string in the buffer of a number. -/
def bufText (buf : Mem) : CText := ⟨cString NUMBUF buf, cString_nonzero NUMBUF buf⟩

/-- `'0' <= c && c <= '9'` -/
def isDigit (c : UInt8) : Bool := 48 ≤ c ∧ c ≤ 57

/-- `"-%s"` -/
def minusFormat : CText := ⟨[45, 37, 115], by decide⟩

/-- `"0x%s"` -/
def hexFormat : CText := ⟨[48, 120, 37, 115], by decide⟩

/-- The value `%d` renders, and whether it puts the sign in front of it. -/
def uival (ival : BitVec 32) : Nat × Bool :=
  if ival.msb then ((0 - ival).toNat, true) else (ival.toNat, false)

/-- A directive of `printk`, with the characters it prints. -/
def printkDirective (printk : CText → List Arg → Except Fault (List UInt8)) (buf : Mem) (size : Nat)
    (c : UInt8) (args : List Arg) : Except Fault (List UInt8 × List Arg) :=
  if c = 100 then do                          -- 'd'
    let r ← nextInt args
    let u := uival r.1
    let text := bufText (render buf u.1 10 size).1
    let out ← (if u.2 then printk minusFormat [.str text] else printk text [])
    .ok (out, r.2)
  else if c = 117 then do                     -- 'u'
    let r ← nextInt args
    let out ← printk (bufText (render buf r.1.toNat 10 size).1) []
    .ok (out, r.2)
  else if c = 120 ∨ c = 88 then do            -- 'x', 'X'
    let r ← nextInt args
    let out ← printk hexFormat [.str (bufText (render buf r.1.toNat 16 size).1)]
    .ok (out, r.2)
  else if c = 112 then do                     -- 'p'
    let r ← nextInt args
    let out ← printk hexFormat [.str (bufText (render buf r.1.toNat 16 8).1)]
    .ok (out, r.2)
  else if c = 115 then do                     -- 's'
    let r ← nextStr args
    let out ← printk r.1 []
    .ok (out, r.2)
  else .ok ([], args)

/-- The loop of `printk` over the format. -/
def printkLoop (printk : CText → List Arg → Except Fault (List UInt8)) (buf : Mem) :
    List UInt8 → List Arg → Except Fault (List UInt8)
  | [], _ => .ok []
  | c :: s, args =>
    if c ≠ 37 then do
      let out ← printkLoop printk buf s args
      .ok (c :: out)
    else
      match s with
      | [] => .error .pastEnd
      | c :: s =>
        if isDigit c then
          match s with
          | [] => .error .pastEnd
          | d :: s => do
            let r ← printkDirective printk buf (c.toNat - 48) d args
            let out ← printkLoop printk buf s r.2
            .ok (r.1 ++ out)
        else do
          let r ← printkDirective printk buf 0 c args
          let out ← printkLoop printk buf s r.2
          .ok (r.1 ++ out)

/-- `printk`, with the characters it passes to `putcar`. `buf` is what its buffer holds before. -/
def printk (buf : Mem) : Nat → CText → List Arg → Except Fault (List UInt8)
  | 0, _, _ => .error .depth
  | depth + 1, s, args => printkLoop (printk buf depth) buf s.1 args

/-- `sys_console_write` -/
def sysConsoleWrite (buf : Mem) (depth : Nat) (s : CText) : Except Fault (List UInt8) :=
  printk buf depth s []

section

variable {call : CText → List Arg → Except Fault (List UInt8)} {buf : Mem} {s out : List UInt8}
  {args : List Arg}

lemma printkLoop_char {c : UInt8} (h : c ≠ 37) :
    printkLoop call buf (c :: s) args = printkLoop call buf s args >>= fun out => .ok (c :: out) := by
  rw [printkLoop.eq_def]
  exact if_pos h

lemma printkLoop_plain {c : UInt8} (hc : ¬ isDigit c) :
    printkLoop call buf (37 :: c :: s) args = printkDirective call buf 0 c args >>= fun r =>
      printkLoop call buf s r.2 >>= fun out => .ok (r.1 ++ out) := by
  rw [printkLoop.eq_def]
  exact if_neg hc

lemma printkLoop_wide {w c : UInt8} (hw : isDigit w) :
    printkLoop call buf (37 :: w :: c :: s) args = printkDirective call buf (w.toNat - 48) c args >>= fun r =>
      printkLoop call buf s r.2 >>= fun out => .ok (r.1 ++ out) := by
  rw [printkLoop.eq_def]
  exact if_pos hw

lemma printkLoop_short {w : UInt8} (hw : isDigit w) :
    printkLoop call buf [37, w] args = .error .pastEnd := by
  rw [printkLoop.eq_def]
  exact if_pos hw

/-- A format without `%` is printed as it is. -/
lemma printkLoop_literal (h : (37 : UInt8) ∉ s) : printkLoop call buf s args = .ok s := by
  induction s with
  | nil => rfl
  | cons c s ih =>
    rw [List.mem_cons, not_or] at h
    rw [printkLoop_char (Ne.symm h.1), ih h.2]
    rfl

/-- A nested call prints no `%` when no call does. -/
lemma nested_no_percent {α : Type} (hc : ∀ s args out, call s args = .ok out → (37 : UInt8) ∉ out)
    {x : Except Fault α} {f : α → CText} {g k : α → List Arg} {r : List UInt8 × List Arg}
    (h : (x >>= fun a => call (f a) (g a) >>= fun out => .ok (out, k a)) = .ok r) :
    (37 : UInt8) ∉ r.1 := by
  obtain ⟨a, -, h⟩ := bind_ok.1 h
  obtain ⟨out, ho, h⟩ := bind_ok.1 h
  cases h
  exact hc _ _ _ ho

lemma printkDirective_no_percent (hc : ∀ s args out, call s args = .ok out → (37 : UInt8) ∉ out)
    {size : Nat} {c : UInt8} {r : List UInt8 × List Arg}
    (h : printkDirective call buf size c args = .ok r) : (37 : UInt8) ∉ r.1 := by
  unfold printkDirective at h
  by_cases hd : c = 100
  · rw [if_pos hd] at h
    obtain ⟨x, -, h⟩ := bind_ok.1 h
    obtain ⟨out, ho, h⟩ := bind_ok.1 h
    cases h
    split at ho
    · exact hc _ _ _ ho
    · exact hc _ _ _ ho
  rw [if_neg hd] at h
  by_cases hu : c = 117
  · rw [if_pos hu] at h
    exact nested_no_percent hc h
  rw [if_neg hu] at h
  by_cases hx : c = 120 ∨ c = 88
  · rw [if_pos hx] at h
    exact nested_no_percent hc h
  rw [if_neg hx] at h
  by_cases hp : c = 112
  · rw [if_pos hp] at h
    exact nested_no_percent hc h
  rw [if_neg hp] at h
  by_cases hs : c = 115
  · rw [if_pos hs] at h
    exact nested_no_percent hc h
  · rw [if_neg hs] at h
    cases h
    exact nofun

/-- A directive and what comes behind it. -/
lemma behind_no_percent (hc : ∀ s args out, call s args = .ok out → (37 : UInt8) ∉ out) {size : Nat} {c : UInt8}
    (hs : ∀ (r : List UInt8 × List Arg) out, printkLoop call buf s r.2 = .ok out → (37 : UInt8) ∉ out)
    (h : (printkDirective call buf size c args >>= fun r =>
      printkLoop call buf s r.2 >>= fun out => .ok (r.1 ++ out)) = .ok out) : (37 : UInt8) ∉ out := by
  obtain ⟨r, hr, h⟩ := bind_ok.1 h
  obtain ⟨rest, hrest, h⟩ := bind_ok.1 h
  cases h
  rw [List.mem_append, not_or]
  exact ⟨printkDirective_no_percent hc hr, hs r rest hrest⟩

/-- A `%` of the format is never a character, so the loop prints none. -/
lemma printkLoop_no_percent (hc : ∀ s args out, call s args = .ok out → (37 : UInt8) ∉ out)
    (h : printkLoop call buf s args = .ok out) : (37 : UInt8) ∉ out := by
  induction s, args using printkLoop.induct generalizing out with
  | case1 args =>
    cases h
    exact nofun
  | case2 c s args hne ih =>
    rw [printkLoop_char hne] at h
    obtain ⟨rest, hr, h⟩ := bind_ok.1 h
    cases h
    rw [List.mem_cons, not_or]
    exact ⟨Ne.symm hne, ih hr⟩
  | case3 c args he =>
    rw [not_not.1 he, printkLoop.eq_def] at h
    cases h
  | case4 c args he d hd =>
    rw [not_not.1 he, printkLoop_short hd] at h
    cases h
  | case5 c args he d hd e s ih =>
    rw [not_not.1 he, printkLoop_wide hd] at h
    exact behind_no_percent hc (fun r _ hr => ih r hr) h
  | case6 c args he d s hd ih =>
    rw [not_not.1 he, printkLoop_plain hd] at h
    exact behind_no_percent hc (fun r _ hr => ih r hr) h

end

/-- `printk` never prints a `%`, whatever it is given. -/
lemma printk_no_percent {buf : Mem} {depth : Nat} {s : CText} {args : List Arg} {out : List UInt8}
    (h : printk buf depth s args = .ok out) : (37 : UInt8) ∉ out := by
  induction depth generalizing s args out with
  | zero => cases h
  | succ depth ih => exact printkLoop_no_percent (fun _ _ _ h => ih h) h

/-- `"%s"` -/
def strFormat : CText := ⟨[37, 115], by decide⟩

/-- `"%s"` makes its argument the format. -/
lemma printk_str (buf : Mem) (depth : Nat) (s : CText) :
    printk buf (depth + 1) strFormat [.str s] = printk buf depth s [] := by
  change (printk buf depth s [] >>= fun out => Except.ok (out, [])) >>=
    (fun r => Except.ok [] >>= fun out => Except.ok (r.1 ++ out)) = _
  cases printk buf depth s [] with
  | error f => rfl
  | ok out => exact congrArg Except.ok (List.append_nil out)

/-- A string of a user comes out as it is, with no read of anything else, exactly when no `%` is in it,
and so does an argument of `%s`. -/
theorem console_write_literal_iff (buf : Mem) (s : CText) :
    ((∃ depth, sysConsoleWrite buf depth s = .ok s.1) ↔ (37 : UInt8) ∉ s.1) ∧
      ((∃ depth, printk buf depth strFormat [.str s] = .ok s.1) ↔ (37 : UInt8) ∉ s.1) := by
  refine ⟨⟨fun ⟨_, h⟩ => printk_no_percent h, fun h => ⟨1, printkLoop_literal h⟩⟩,
    ⟨fun ⟨_, h⟩ => printk_no_percent h, fun h => ⟨2, ?_⟩⟩⟩
  rw [printk_str]
  exact printkLoop_literal h

/-- The text `100%` is read behind its end. -/
theorem console_write_reads_past_end :
    ¬ ∀ s : CText, ∃ depth, sysConsoleWrite (fun _ => 0) depth s = .ok s.1 := by
  intro h
  obtain ⟨depth, h⟩ := h ⟨[49, 48, 48, 37], by decide⟩
  exact printk_no_percent h (by decide)

example : sysConsoleWrite (fun _ => 0) 1 ⟨[49, 48, 48, 37], by decide⟩ = .error .pastEnd := by rfl

end Creeks
