import Creeks.File.Reading
import Creeks.Text.Printk
import Creeks.User.Discipline

/-!
# What cat prints

The way of a file from the buffer of the kernel to the screen: `cat` asks `read` for 511 bytes at a time,
ends them with a zero and passes them to `console_write`, which is `printk`. `cat_prints_iff` says which files
come out as they are: those without a zero and without a `%`, whatever their length. A zero ends the piece it
lies in, and a `%` is a directive.
-/

namespace Creeks
open Lib

/-- The string at address `a` in a buffer of `size` bytes. -/
def userString (m : Mem) (a size : Nat) : CText :=
  ⟨(bytesAt m a size).takeWhile (· ≠ 0), fun h => by
    have := List.all_takeWhile (l := bytesAt m a size) (p := (· ≠ 0))
    rw [List.all_eq_true] at this
    exact absurd (this 0 h) (by decide)⟩

/-- `"error: read() failed\n"` -/
def readFailed : CText :=
  ⟨[101, 114, 114, 111, 114, 58, 32, 114, 101, 97, 100, 40, 41, 32, 102, 97, 105, 108, 101, 100, 10], by decide⟩

/-- `"\n"` -/
def newlineText : CText := ⟨[10], by decide⟩

section Model

variable (kern buf : Mem) (depth fd uBuf : Nat)

/-- The `do` loop of `cat`, with the characters that reach the screen. -/
def catCopy : Nat → Reader → Option (Reader × List UInt8)
  | 0, _ => none
  | fuel + 1, s => do
    let r ← (readCall kern fd s ⟨uBuf, SIZE - 1⟩).toOption
    if r.count = MINUS_ONE then
      let out ← (sysConsoleWrite buf depth readFailed).toOption
      return (r.reader, out)
    else
      let s : Reader := ⟨r.reader.files, Function.update r.reader.user (wrap (uBuf + r.count)) 0⟩
      let out ← (sysConsoleWrite buf depth (userString s.user uBuf SIZE)).toOption
      if r.count = 0 then return (s, out)
      else
        let rest ← catCopy fuel s
        return (rest.1, out ++ rest.2)

/-- What `cat` does with a file that it has opened: the loop, `close` and the newline. -/
def catOpened (fuel : Nat) (s : Reader) : Option (Files × List UInt8) := do
  let r ← catCopy kern buf depth fd uBuf fuel s
  let files ← (sysClose r.1.files fd).toOption
  let out ← (sysConsoleWrite buf depth newlineText).toOption
  return (files, r.2 ++ out)

end Model

section Strings

variable {m : Mem} {a n size : Nat}

lemma bytesAt_add (m : Mem) (a n k : Nat) : bytesAt m a (n + k) = bytesAt m a n ++ bytesAt m (a + n) k := by
  induction n generalizing a with
  | zero =>
    rw [Nat.zero_add, Nat.add_zero]
    rfl
  | succ n ih =>
    rw [Nat.succ_add, bytesAt_succ, bytesAt_succ, ih, List.cons_append, Nat.add_assoc, Nat.add_comm 1 n]

lemma takeWhile_zero (l r : List UInt8) : (l ++ 0 :: r).takeWhile (· ≠ 0) = l.takeWhile (· ≠ 0) := by
  induction l with
  | nil => rfl
  | cons c l ih =>
    rw [List.cons_append, List.takeWhile_cons, List.takeWhile_cons, ih]

/-- A piece that is ended by a zero. -/
lemma userString_piece (hn : n < size) (hsize : size ≤ 4294967296) :
    (userString (Function.update m (wrap (a + n)) 0) a size).1 = (bytesAt m a n).takeWhile (· ≠ 0) := by
  have hsplit : size = n + (size - n - 1 + 1) := by omega
  have hkeep : bytesAt (Function.update m (wrap (a + n)) 0) a n = bytesAt m a n := by
    refine List.map_congr_left fun i hi => Function.update_of_ne ?_ _ _
    have hi := List.mem_range.1 hi
    rw [wrap_eq, wrap_eq]
    omega
  unfold userString
  dsimp only
  rw [hsplit, bytesAt_add, bytesAt_succ, Function.update_self, hkeep, takeWhile_zero]

end Strings

section Cat

variable {kern buf : Mem} {depth fd uBuf fuel f ptr : Nat} {s s' : Reader} {file : File} {out : List UInt8}

/-- A result that is there. -/
lemma ok_of_toOption {ε α : Type} {x : Except ε α} {a : α} (h : x.toOption = some a) : x = .ok a := by
  cases x with
  | error e => cases h
  | ok b =>
    cases h
    rfl

/-- One `read` of `cat`: the next piece of the file is in the buffer. -/
lemma InFile.piece (h : InFile s fd f ptr file) (kern : Mem) (uBuf : Nat) :
    ∃ r, readCall kern fd s ⟨uBuf, SIZE - 1⟩ = .ok r ∧
    r.count = min (SIZE - 1) (file.iSize - ptr) ∧ InFile r.reader fd f (ptr + r.count) file ∧
      bytesAt r.reader.user uBuf r.count = readAt (file.content kern) ptr (SIZE - 1) := by
  have hptr := h.ptr
  have hsize := h.size
  have hfits : CallFits fd s ⟨uBuf, SIZE - 1⟩ := fun f' ptr' ho => by
    cases h.opened.symm.trans ho
    simp only [SIZE]
    omega
  have hsmall : SIZE - 1 < 4294967296 := by decide
  have hexact : CallExact kern fd s ⟨uBuf, SIZE - 1⟩ :=
    (callExact_iff h.opened (by rw [h.same]; exact hptr) (by rw [h.same]; exact hsize) hsmall).2 hfits
  obtain ⟨f', ptr', r, ho, e, hcount, -, hopen, hle, hbytes⟩ := hexact
  cases h.opened.symm.trans ho
  have hsame : r.reader.files.file f = file := by
    rw [readCall_open h.opened] at e
    cases e
    exact h.same
  rw [h.same] at hcount hle hbytes
  exact ⟨r, e, hcount, ⟨hopen, hsame, hle, hsize⟩, hbytes⟩

/-- The zero that `cat` writes behind the piece leaves the files alone. -/
lemma InFile.withUser (h : InFile s fd f ptr file) (user : Mem) : InFile ⟨s.files, user⟩ fd f ptr file :=
  ⟨h.opened, h.same, h.ptr, h.size⟩

/-- The loop prints no `%`. -/
lemma catCopy_no_percent (h : catCopy kern buf depth fd uBuf fuel s = some (s', out)) : (37 : UInt8) ∉ out := by
  induction fuel generalizing s out with
  | zero => cases h
  | succ fuel ih =>
    obtain ⟨r, -, h⟩ := Option.bind_eq_some_iff.1 h
    split at h
    · obtain ⟨text, ht, h⟩ := Option.bind_eq_some_iff.1 h
      cases h
      exact printk_no_percent (ok_of_toOption ht)
    · obtain ⟨text, ht, h⟩ := Option.bind_eq_some_iff.1 h
      have htext := printk_no_percent (ok_of_toOption ht)
      split at h
      · cases h
        exact htext
      · obtain ⟨rest, hrest, h⟩ := Option.bind_eq_some_iff.1 h
        cases h
        rw [List.mem_append, not_or]
        exact ⟨htext, ih hrest⟩

/-- What the loop prints of the rest of a file without `%`: all of it when no zero is there. -/
lemma catCopy_text (h : InFile s fd f ptr file) (hfuel : file.iSize - ptr + (SIZE - 1) ≤ (SIZE - 1) * fuel)
    (hp : (37 : UInt8) ∉ (file.content kern).drop ptr) : ∃ s' out,
      catCopy kern buf (depth + 1) fd uBuf fuel s = some (s', out) ∧ InFile s' fd f file.iSize file ∧
        (0 : UInt8) ∉ out ∧ ((0 : UInt8) ∉ (file.content kern).drop ptr → out = (file.content kern).drop ptr) := by
  induction fuel generalizing s ptr with
  | zero =>
    simp only [SIZE] at hfuel
    omega
  | succ fuel ih =>
    obtain ⟨r, e, hcount, hin, hbytes⟩ := h.piece kern uBuf
    have hptr := h.ptr
    have hsize := h.size
    simp only [SIZE] at hcount hfuel
    have hlen : (file.content kern).length = file.iSize := length_bytesAt _ _ _
    have hpiece := readAt_append_drop (file.content kern) ptr (SIZE - 1)
    have hplen : (readAt (file.content kern) ptr (SIZE - 1)).length = r.count := by
      rw [← hbytes, length_bytesAt]
    rw [hplen] at hpiece
    obtain ⟨user, huser⟩ : ∃ user, user = Function.update r.reader.user (wrap (uBuf + r.count)) 0 := ⟨_, rfl⟩
    have htext : (userString user uBuf SIZE).1 =
        (readAt (file.content kern) ptr (SIZE - 1)).takeWhile (· ≠ 0) := by
      rw [huser, userString_piece (by simp only [SIZE]; omega) (by decide), hbytes]
    have hnp : (37 : UInt8) ∉ (userString user uBuf SIZE).1 := by
      rw [htext]
      intro hmem
      refine hp ?_
      rw [← hpiece]
      exact List.mem_append_left _ ((List.takeWhile_prefix _).subset hmem)
    have hwrite : sysConsoleWrite buf (depth + 1) (userString user uBuf SIZE) =
        .ok (userString user uBuf SIZE).1 := printkLoop_literal hnp
    have hnz := (userString user uBuf SIZE).2
    have hne : r.count ≠ MINUS_ONE := by
      simp only [MINUS_ONE]
      omega
    unfold catCopy
    rw [e]
    dsimp only [Except.toOption, Option.bind_eq_bind, Option.bind_some]
    rw [if_neg hne, ← huser, hwrite]
    dsimp only [Option.bind_some]
    by_cases h0 : r.count = 0
    · -- nothing is left
      have hend : ptr = file.iSize := by omega
      have hnil : (file.content kern).drop ptr = [] := List.drop_eq_nil_of_le (by omega)
      rw [if_pos h0]
      refine ⟨_, _, rfl, ?_, hnz, fun _ => ?_⟩
      · rw [← hend, ← Nat.add_zero ptr, ← h0]
        exact hin.withUser user
      · rw [htext, readAt, hnil]
        rfl
    · have hrest : (37 : UInt8) ∉ (file.content kern).drop (ptr + r.count) := fun hmem =>
        hp (hpiece ▸ List.mem_append_right _ hmem)
      obtain ⟨s', out, hloop, hdone, hz, hall⟩ := ih (hin.withUser user) (by simp only [SIZE]; omega) hrest
      rw [if_neg h0, hloop]
      refine ⟨s', _, rfl, hdone, ?_, fun hzero => ?_⟩
      · rw [List.mem_append, not_or]
        exact ⟨hnz, hz⟩
      · rw [← hpiece, List.mem_append, not_or] at hzero
        rw [← hpiece, htext, takeWhile_text hzero.1, hall hzero.2]

/-- `close` answers for a descriptor that is open. -/
lemma OpenAt.close {files : Files} (h : OpenAt files fd f ptr) : ∃ files', sysClose files fd = .ok files' := by
  have hlt : fd < files.currentFd.length := (List.getElem?_eq_some_iff.1 h).1
  have hget : files.currentFd[fd] = ⟨some f, ptr⟩ := (List.getElem?_eq_some_iff.1 h).2
  have hseek := seekFd_some hlt
  rw [List.drop_eq_getElem_cons hlt, hget] at hseek
  rw [sysClose, hseek, ok_bind]
  exact ⟨_, rfl⟩

/-- For every file that `cat` has opened, what reaches the screen is the file and a newline exactly when no
byte of the file is a zero or a `%`. -/
theorem cat_prints_iff (h : InFile s fd f 0 file) (hfuel : file.iSize + (SIZE - 1) ≤ (SIZE - 1) * fuel) :
    (∃ files, catOpened kern buf (depth + 1) fd uBuf fuel s = some (files, file.content kern ++ [10])) ↔
      (0 : UInt8) ∉ file.content kern ∧ (37 : UInt8) ∉ file.content kern := by
  have htext : (37 : UInt8) ∉ file.content kern → ∃ s' out,
      catCopy kern buf (depth + 1) fd uBuf fuel s = some (s', out) ∧ InFile s' fd f file.iSize file ∧
        (0 : UInt8) ∉ out ∧ ((0 : UInt8) ∉ file.content kern → out = file.content kern) := catCopy_text h hfuel
  constructor
  · rintro ⟨files, e⟩
    obtain ⟨⟨s1, out⟩, hloop, e⟩ := Option.bind_eq_some_iff.1 e
    obtain ⟨files1, -, e⟩ := Option.bind_eq_some_iff.1 e
    obtain ⟨nl, hnl, e⟩ := Option.bind_eq_some_iff.1 e
    have hline : sysConsoleWrite buf (depth + 1) newlineText = .ok [10] := printkLoop_literal (by decide)
    obtain rfl : nl = [10] := Except.ok.inj ((ok_of_toOption hnl).symm.trans hline)
    have hout : out = file.content kern := (List.append_inj_left' (Prod.mk.inj (Option.some.inj e)).2 rfl)
    have hp : (37 : UInt8) ∉ file.content kern := hout ▸ catCopy_no_percent hloop
    obtain ⟨s2, out2, hloop2, -, hz, -⟩ := htext hp
    cases hloop.symm.trans hloop2
    exact ⟨hout ▸ hz, hp⟩
  · rintro ⟨hz, hp⟩
    obtain ⟨s1, out, hloop, hdone, -, hall⟩ := htext hp
    obtain ⟨files, hclose⟩ := hdone.opened.close
    have hline : sysConsoleWrite buf (depth + 1) newlineText = .ok [10] := printkLoop_literal (by decide)
    refine ⟨files, ?_⟩
    unfold catOpened
    rw [hloop]
    dsimp only [Option.bind_eq_bind, Option.bind_some]
    rw [hclose, hline, hall hz]
    rfl

theorem cat_prints_ten : ∃ files, catOpened (fun _ => 65) (fun _ => 0) 1 0 1073741824 2 tenBytes =
    some (files, File.content (fun _ => 65) ⟨true, 10, 33554432, 1⟩ ++ [10]) :=
  (cat_prints_iff tenBytes_inFile (by decide)).2 ⟨by decide, by decide⟩

end Cat

end Creeks
