import Creeks.Process.Count

/-!
# File descriptors

`sys_open`, `sys_read`, `sys_close` and the part of `sys_exit` that drops the open files. The linked list
of `struct open_file` of a process is the Lean list of its entries, and a pointer into it is the rest of
the list from there; the null pointer is the empty list. A closed descriptor stays in the list with a
null `file`.

Following a null pointer leaves the model (`Null`). `descriptor_safety` says which calls do, and
`open_counter` when the field `opened` of a file is the number of its descriptors.
-/

namespace Creeks
open Lib

/-- `struct open_file` -/
structure OpenFile where
  file : Option Nat
  ptr : Nat
deriving DecidableEq, Repr

/-- The fields of `struct file` that the calls use. `inode` says that the inode is in memory, `iSize` is
its `i_size`, and `mmap` is 0 when there is no buffer. -/
structure File where
  inode : Bool
  iSize : Nat
  mmap : Nat
  opened : Int

/-- A null pointer that has been followed. -/
inductive Null where
  | openFile
  | file
deriving DecidableEq, Repr

/-- The process table, the descriptors of the slots and the file cache. -/
structure Files where
  table : Table
  fd : Nat → List OpenFile
  cached : List Nat
  file : Nat → File

namespace Files

/-- `current->fd` -/
def currentFd (s : Files) : List OpenFile := s.fd s.table.current

/-- Other descriptors for the running process. -/
def setCurrentFd (s : Files) (l : List OpenFile) : Files :=
  { s with fd := Function.update s.fd s.table.current l }

end Files

/-- The loop of `sys_open` over the descriptors: the list with a descriptor of `fp` in it, and its
number. -/
def allotFd (fp : Nat) : List OpenFile → List OpenFile × Nat
  | [] => ([⟨some fp, 0⟩], 0)
  | of :: next =>
    if of.file ≠ none ∧ next ≠ [] then
      let r := allotFd fp next
      (of :: r.1, r.2 + 1)
    else if of.file = none then (⟨some fp, 0⟩ :: next, 0)
    else (of :: [⟨some fp, 0⟩], 1)

/-- `sys_open`, for the node `path_to_file` has found and the buffer `ext2_read_file` returns. -/
def sysOpen (s : Files) (fp : Option Nat) (buf : Nat) : Files × Nat :=
  match fp with
  | none => (s, MINUS_ONE)
  | some fp =>
    let r := allotFd fp s.currentFd
    ({ s.setCurrentFd r.1 with
        file := Function.update s.file fp
          { s.file fp with opened := (s.file fp).opened + 1, inode := true, mmap := buf } }, r.2)

/-- The loop of `sys_read` and `sys_close` that walks to descriptor `fd`: the rest of the list from there,
or nothing when the list is too short. -/
def seekFd : Nat → List OpenFile → Except Null (Option (List OpenFile))
  | 0, of => .ok (some of)
  | _ + 1, [] => .error .openFile
  | fd + 1, _ :: next => if next = [] then .ok none else seekFd fd next

/-- `of->file` -/
def derefFd : List OpenFile → Except Null (OpenFile × Nat)
  | [] => .error .openFile
  | of :: _ =>
    match of.file with
    | none => .error .file
    | some f => .ok (of, f)

/-- The number of bytes `sys_read` copies. -/
def readCount (size ptr bufsize : Nat) : Nat :=
  if wrap (ptr + bufsize) > size then wrap (size + 4294967296 - ptr) else bufsize

/-- `sys_read`, with its return value and the address and number of the bytes it copies. -/
def sysRead (s : Files) (fd bufsize : Nat) : Except Null (Files × Nat × Option (Nat × Nat)) := do
  match ← seekFd fd s.currentFd with
  | none => return (s, MINUS_ONE, none)
  | some rest => do
    let r ← derefFd rest
    let n := readCount (s.file r.2).iSize r.1.ptr bufsize
    return (s.setCurrentFd (s.currentFd.set fd { r.1 with ptr := wrap (r.1.ptr + n) }), n,
      some ((s.file r.2).mmap + r.1.ptr, n))

/-- `sys_close` -/
def sysClose (s : Files) (fd : Nat) : Except Null Files := do
  match ← seekFd fd s.currentFd with
  | none => return s
  | some rest => do
    let r ← derefFd rest
    return { s.setCurrentFd (s.currentFd.set fd ⟨none, 0⟩) with
      file := Function.update s.file r.2 { s.file r.2 with mmap := 0 } }

/-- The loop of `sys_exit` over the open files. -/
def dropFds : List OpenFile → (Nat → File) → Except Null (Nat → File)
  | [], file => .ok file
  | of :: next, file => do
    let r ← derefFd (of :: next)
    let opened := (file r.2).opened - 1
    dropFds next (Function.update file r.2
      { file r.2 with opened := opened, mmap := if opened = 0 then 0 else (file r.2).mmap })

/-- `sys_exit`, with what it does to the files. -/
def exitFiles (s : Files) (status : Int) : Except Null Files := do
  let file ← dropFds s.currentFd s.file
  return { s with file := file, table := sysExit s.table status }

/-- `load_task`: a new process has no open file. -/
def loadFiles (s : Files) (file : Mem) : Files :=
  let r := loadTask s.table file
  { s with table := r.1, fd := if r.2 = 0 then s.fd else Function.update s.fd r.2 [] }

/-- What happens to the files and the processes. A node of the cache is created by `init_root` or
`get_dir_entries` in a chunk whose word for `opened` is whatever it was. -/
inductive FileOp where
  | loadTask (file : Mem)
  | sysWait (junk : Nat)
  | schedule
  | node (f : Nat) (opened : Int)
  | sysOpen (fp : Option Nat) (buf : Nat)
  | sysRead (fd bufsize : Nat)
  | sysClose (fd : Nat)
  | sysExit (status : Int)

/-- One step of the system. -/
inductive FileStep : Files → FileOp → Files → Prop where
  | loadTask {s file} : FileStep s (.loadTask file) (loadFiles s file)
  | sysWait {s junk t' r} :
    s.table.current ≠ 0 →
    sysWait s.table junk = some (t', r) →
    FileStep s (.sysWait junk) { s with table := t' }
  | schedule {s} : FileStep s .schedule { s with table := schedule s.table }
  | node {s f opened iSize} :
    f ∉ s.cached →
    FileStep s (.node f opened) { s with
      cached := f :: s.cached
      file := Function.update s.file f ⟨false, iSize, 0, opened⟩ }
  | sysOpen {s fp buf} :
    s.table.current ≠ 0 →
    (∀ f, fp = some f → f ∈ s.cached) →
    FileStep s (.sysOpen fp buf) (sysOpen s fp buf).1
  | sysRead {s fd bufsize r} :
    s.table.current ≠ 0 →
    sysRead s fd bufsize = .ok r →
    FileStep s (.sysRead fd bufsize) r.1
  | sysClose {s fd s'} :
    s.table.current ≠ 0 →
    sysClose s fd = .ok s' →
    FileStep s (.sysClose fd) s'
  | sysExit {s status s'} :
    s.table.current ≠ 0 →
    exitFiles s status = .ok s' →
    FileStep s (.sysExit status) s'

/-- The system at boot. -/
def bootFiles (beyond : Nat → Process) (file : Nat → File) : Files where
  table := bootTable beyond
  fd _ := []
  cached := []
  file := file

/-! ## Null pointers -/

/-- A descriptor the process has open. -/
def OpenFd (l : List OpenFile) (fd : Nat) : Prop := ∃ of, l[fd]? = some of ∧ of.file ≠ none

/-- A call that follows no null pointer. On a number that is not an open descriptor `sys_read` returns -1
and `sys_close` changes nothing; `sys_exit` drops every open descriptor. -/
def CallSafe (s : Files) : FileOp → Prop
  | .sysRead fd bufsize => ∃ r, sysRead s fd bufsize = .ok r ∧
      (¬ OpenFd s.currentFd fd → r = (s, MINUS_ONE, none))
  | .sysClose fd => ∃ s', sysClose s fd = .ok s' ∧ (¬ OpenFd s.currentFd fd → s' = s)
  | .sysExit status => ∃ s', exitFiles s status = .ok s' ∧ ∀ f, (s'.file f).opened =
      (s.file f).opened - s.currentFd.countP fun of => of.file = some f
  | _ => True

/-- A call the list of descriptors can serve: it is not empty and the number is not that of a closed
descriptor, or, for `sys_exit`, no descriptor is closed. -/
def FileOp.Served (s : Files) : FileOp → Prop
  | .sysRead fd _ | .sysClose fd =>
    s.currentFd ≠ [] ∧ ∀ of, s.currentFd[fd]? = some of → of.file ≠ none
  | .sysExit _ => ∀ of ∈ s.currentFd, of.file ≠ none
  | _ => True

/-- Every call of a sequence is safe. -/
def AllSafe : List FileOp → Files → Prop
  | [], _ => True
  | op :: ops, s => CallSafe s op ∧ ∀ s', FileStep s op s' → AllSafe ops s'

/-- Every call of a sequence is one the descriptors can serve. -/
def AllServed : List FileOp → Files → Prop
  | [], _ => True
  | op :: ops, s => op.Served s ∧ ∀ s', FileStep s op s' → AllServed ops s'

section Walk

variable {l : List OpenFile} {fd f : Nat} {of : OpenFile}

/-- Walking to a descriptor of the list. -/
lemma seekFd_some (h : fd < l.length) : seekFd fd l = .ok (some (l.drop fd)) := by
  induction fd generalizing l with
  | zero => rfl
  | succ fd ih =>
    cases l with
    | nil => cases h
    | cons a l =>
      have hlt : fd < l.length := Nat.lt_of_succ_lt_succ h
      have hne : l ≠ [] := List.ne_nil_of_length_pos (Nat.zero_lt_of_lt hlt)
      rw [seekFd, if_neg hne, ih hlt]
      rfl

/-- Walking off the end of a list that is not empty. -/
lemma seekFd_none (hl : l ≠ []) (h : l.length ≤ fd) : seekFd fd l = .ok none := by
  induction fd generalizing l with
  | zero => exact absurd (List.length_eq_zero_iff.1 (Nat.le_zero.1 h)) hl
  | succ fd ih =>
    cases l with
    | nil => exact absurd rfl hl
    | cons a l =>
      rw [seekFd]
      split
      case isTrue => rfl
      case isFalse hne => exact ih hne (Nat.le_of_succ_le_succ h)

lemma derefFd_open (h : of.file = some f) (rest : List OpenFile) :
    derefFd (of :: rest) = .ok (of, f) := by
  rw [derefFd, h]

lemma derefFd_closed (h : of.file = none) (rest : List OpenFile) :
    derefFd (of :: rest) = .error .file := by
  rw [derefFd, h]

/-- What `sys_read` and `sys_close` find at a number, for a list that is not empty: an open descriptor, a
closed one, or the end of the list. -/
lemma seek_cases (hl : l ≠ []) (fd : Nat) :
    (∃ of f rest, l[fd]? = some of ∧ of.file = some f ∧ seekFd fd l = .ok (some (of :: rest))) ∨
    (∃ of rest, l[fd]? = some of ∧ of.file = none ∧ seekFd fd l = .ok (some (of :: rest))) ∨
    (l[fd]? = none ∧ seekFd fd l = .ok none) := by
  by_cases h : fd < l.length
  · have hget : l[fd]? = some l[fd] := List.getElem?_eq_getElem h
    have hseek := seekFd_some h
    rw [List.drop_eq_getElem_cons h] at hseek
    cases hf : l[fd].file with
    | none => exact .inr (.inl ⟨_, _, hget, hf, hseek⟩)
    | some f => exact .inl ⟨_, f, _, hget, hf, hseek⟩
  · have hle : l.length ≤ fd := Nat.le_of_not_lt h
    exact .inr (.inr ⟨List.getElem?_eq_none hle, seekFd_none hl hle⟩)

/-- With no descriptor the walk ends at a null pointer or follows one. -/
lemma seek_nil (fd : Nat) :
    seekFd fd [] = .ok (some []) ∨ seekFd fd [] = .error .openFile := by
  cases fd with
  | zero => exact .inl rfl
  | succ fd => exact .inr rfl

/-- Dropping a list with no closed descriptor takes each file's descriptors off its counter, and frees
the buffer with the last one. -/
lemma dropFds_ok {file : Nat → File} (h : ∀ of ∈ l, of.file ≠ none) :
    ∃ file', dropFds l file = .ok file' ∧ ∀ f,
      (file' f).opened = (file f).opened - l.countP fun of => of.file = some f := by
  induction l generalizing file with
  | nil => exact ⟨file, rfl, fun f => by simp⟩
  | cons a l ih =>
    cases ha : a.file with
    | none => exact absurd ha (h a List.mem_cons_self)
    | some g =>
      rw [dropFds, derefFd_open ha, ok_bind]
      obtain ⟨file', e, hcount⟩ := ih (fun of hof => h of (List.mem_cons_of_mem _ hof))
      refine ⟨file', e, fun f => ?_⟩
      rw [hcount f, List.countP_cons, ha]
      by_cases hf : g = f
      · subst hf
        simp only [Function.update_self, decide_true, if_true, Nat.cast_add, Nat.cast_one]
        omega
      · rw [Function.update_of_ne (Ne.symm hf)]
        simp [hf]

/-- A list with a closed descriptor makes `sys_exit` follow a null pointer. -/
lemma dropFds_closed {file : Nat → File} (hmem : of ∈ l) (h : of.file = none) :
    dropFds l file = .error .file := by
  induction l generalizing file with
  | nil => cases hmem
  | cons a l ih =>
    cases ha : a.file with
    | none => rw [dropFds, derefFd_closed ha, error_bind]
    | some g =>
      rw [dropFds, derefFd_open ha, ok_bind]
      cases hmem with
      | head =>
        rw [h] at ha
        cases ha
      | tail _ hmem => exact ih hmem

end Walk

section Calls

variable {s : Files} {fd bufsize : Nat} {status : Int}

/-- A call that walks to its descriptor and follows it is safe on a list that is not empty when the
descriptor is not closed. -/
lemma walk_safe_iff {α : Type} {l : List OpenFile} (early : α) (act : OpenFile × Nat → α) :
    (∃ r, (seekFd fd l >>= fun
        | none => .ok early
        | some rest => derefFd rest >>= fun of => .ok (act of)) = .ok r ∧ (¬ OpenFd l fd → r = early)) ↔
      l ≠ [] ∧ ∀ of, l[fd]? = some of → of.file ≠ none := by
  by_cases hl : l = []
  · refine iff_of_false ?_ fun h => h.1 hl
    rintro ⟨r, e, -⟩
    rw [hl] at e
    rcases seek_nil fd with hs | hs <;> rw [hs] at e <;> cases e
  · rcases seek_cases hl fd with ⟨of, f, rest, hget, hf, hs⟩ | ⟨of, rest, hget, hf, hs⟩ | ⟨hget, hs⟩
    · refine iff_of_true ⟨act (of, f), ?_, fun hn => ?_⟩ ⟨hl, fun of' h => ?_⟩
      · rw [hs, ok_bind]
        dsimp only
        rw [derefFd_open hf, ok_bind]
      · exact absurd ⟨of, hget, by rw [hf]; exact nofun⟩ hn
      · rw [hget] at h
        cases h
        rw [hf]
        exact nofun
    · refine iff_of_false ?_ fun h => h.2 of hget hf
      rintro ⟨r, e, -⟩
      rw [hs, ok_bind] at e
      dsimp only at e
      rw [derefFd_closed hf, error_bind] at e
      cases e
    · refine iff_of_true ⟨early, by rw [hs, ok_bind], fun _ => rfl⟩ ⟨hl, fun of h => ?_⟩
      rw [hget] at h
      cases h

lemma sysRead_safe_iff : CallSafe s (.sysRead fd bufsize) ↔ (FileOp.sysRead fd bufsize).Served s :=
  walk_safe_iff (s, MINUS_ONE, none) _

lemma sysClose_safe_iff : CallSafe s (.sysClose fd) ↔ (FileOp.sysClose fd).Served s :=
  walk_safe_iff s _

lemma sysExit_safe_iff : CallSafe s (.sysExit status) ↔ (FileOp.sysExit status).Served s := by
  constructor
  · rintro ⟨s', e, -⟩ of hof hnone
    rw [exitFiles, dropFds_closed hof hnone, error_bind] at e
    cases e
  · intro h
    obtain ⟨file, e, hcount⟩ := @dropFds_ok s.currentFd s.file h
    exact ⟨_, by rw [exitFiles, e, ok_bind]; rfl, hcount⟩

/-- A call is safe exactly when the descriptors can serve it. -/
lemma callSafe_iff (s : Files) (op : FileOp) : CallSafe s op ↔ op.Served s := by
  cases op with
  | sysRead => exact sysRead_safe_iff
  | sysClose => exact sysClose_safe_iff
  | sysExit => exact sysExit_safe_iff
  | _ => exact Iff.rfl

end Calls

/-- A sequence of calls follows no null pointer exactly when each call finds a list of descriptors that
can serve it. -/
theorem descriptor_safety (ops : List FileOp) (s : Files) : AllSafe ops s ↔ AllServed ops s := by
  induction ops generalizing s with
  | nil => exact Iff.rfl
  | cons op ops ih =>
    rw [AllSafe, AllServed, callSafe_iff]
    simp only [ih]

/-- A new process that reads from descriptor 0 before it has opened a file follows a null pointer. -/
theorem read_without_descriptor :
    ¬ AllSafe [.loadTask bareElf, .schedule, .sysRead 0 10]
      (bootFiles (fun _ => blankProcess) fun _ => ⟨false, 0, 0, 0⟩) := by
  intro h
  rw [descriptor_safety] at h
  exact (((h.2 _ .loadTask).2 _ .schedule).1).1 (by decide)

/-! ## The number of a new descriptor -/

/-- The place `sys_open` uses: the first closed descriptor, or the end of the list. -/
def freeFd (l : List OpenFile) : Nat := l.findIdx fun of => of.file.isNone

/-- A descriptor of `fp` has taken place `n`: the walk of `sys_read` and `sys_close` reaches it, and the other
descriptors are as they were. -/
structure Allotted (l l' : List OpenFile) (fp n : Nat) : Prop where
  free : n = freeFd l
  reached : ∃ rest, seekFd n l' = .ok (some (⟨some fp, 0⟩ :: rest))
  others : ∀ j, j ≠ n → l'[j]? = l[j]?

section Allot

variable {l : List OpenFile} {of : OpenFile} {j fp n : Nat}

lemma freeFd_open (h : of.file ≠ none) (l : List OpenFile) : freeFd (of :: l) = freeFd l + 1 := by
  have hsome : of.file.isNone = false := Option.isNone_eq_false_iff.2 (Option.isSome_iff_ne_none.2 h)
  rw [freeFd, List.findIdx_cons, hsome]
  rfl

lemma freeFd_closed (h : of.file = none) (l : List OpenFile) : freeFd (of :: l) = 0 := by
  rw [freeFd, List.findIdx_cons, h]
  rfl

/-- Every descriptor before the free place is open. -/
lemma open_of_lt_freeFd (h : j < freeFd l) : OpenFd l j := by
  have hlt : j < l.length := lt_of_lt_of_le h List.findIdx_le_length
  refine ⟨l[j], List.getElem?_eq_getElem hlt, fun hnone => ?_⟩
  have hopen := List.not_of_lt_findIdx h
  rw [hnone] at hopen
  cases hopen

/-- The free place is closed or at the end. -/
lemma freeFd_spec (l : List OpenFile) :
    freeFd l = l.length ∨ ∃ of, l[freeFd l]? = some of ∧ of.file = none := by
  rcases Nat.lt_or_ge (freeFd l) l.length with h | h
  · refine .inr ⟨l[freeFd l], List.getElem?_eq_getElem h, ?_⟩
    have hnone := List.findIdx_getElem (w := h)
    exact Option.isNone_iff_eq_none.1 hnone
  · exact .inl (le_antisymm List.findIdx_le_length h)

/-- The loop of `sys_open` stops at the free place. -/
lemma allotFd_eq (fp : Nat) (l : List OpenFile) :
    allotFd fp l = (l.take (freeFd l) ++ ⟨some fp, 0⟩ :: l.drop (freeFd l + 1), freeFd l) := by
  induction l with
  | nil => rfl
  | cons of next ih =>
    rw [allotFd]
    by_cases hof : of.file = none
    · rw [if_neg fun h => h.1 hof, if_pos hof, freeFd_closed hof]
      rfl
    · rw [freeFd_open hof]
      by_cases hnext : next = []
      · rw [if_neg fun h => h.2 hnext, if_neg hof, hnext]
        rfl
      · rw [if_pos ⟨hof, hnext⟩, ih]
        rfl

/-- What the loop of `sys_open` leaves. -/
lemma allotted (fp : Nat) (l : List OpenFile) : Allotted l (allotFd fp l).1 fp (allotFd fp l).2 := by
  have hle : freeFd l ≤ l.length := List.findIdx_le_length
  have htake : (l.take (freeFd l)).length = freeFd l := List.length_take_of_le hle
  rw [allotFd_eq]
  refine ⟨rfl, ⟨l.drop (freeFd l + 1), ?_⟩, fun j hj => ?_⟩
  · rw [seekFd_some (by rw [List.length_append, htake, List.length_cons]; omega), List.drop_append,
      htake, Nat.sub_self, List.drop_of_length_le (le_of_eq htake)]
    rfl
  · rcases Nat.lt_or_gt_of_ne hj with hlt | hgt
    · rw [List.getElem?_append_left (by omega), List.getElem?_take_of_lt hlt]
    · obtain ⟨k, rfl⟩ : ∃ k, j = freeFd l + (k + 1) := ⟨j - freeFd l - 1, by omega⟩
      rw [List.getElem?_append_right (by omega), htake, Nat.add_sub_cancel_left,
        List.getElem?_cons_succ, List.getElem?_drop, Nat.add_assoc, Nat.add_comm 1 k]

end Allot

/-- `sys_open` returns the smallest number that is closed, or the length of the list; a walk of that many
steps reaches the new descriptor, and no other descriptor of any process has changed. -/
theorem descriptor_allocation (s : Files) (fp buf : Nat) :
    Allotted s.currentFd (sysOpen s (some fp) buf).1.currentFd fp (sysOpen s (some fp) buf).2 ∧
      (∀ j < (sysOpen s (some fp) buf).2, OpenFd s.currentFd j) ∧
      ((sysOpen s (some fp) buf).2 = s.currentFd.length ∨
        ∃ of, s.currentFd[(sysOpen s (some fp) buf).2]? = some of ∧ of.file = none) ∧
      ∀ pid, pid ≠ s.table.current → (sysOpen s (some fp) buf).1.fd pid = s.fd pid := by
  have h := allotted fp s.currentFd
  have hlist : (sysOpen s (some fp) buf).1.currentFd = (allotFd fp s.currentFd).1 :=
    Function.update_self s.table.current _ s.fd
  have hnum : (sysOpen s (some fp) buf).2 = freeFd s.currentFd := h.free
  rw [hlist]
  refine ⟨h, fun j hj => open_of_lt_freeFd (hnum ▸ hj), ?_, fun pid hpid => Function.update_of_ne hpid _ _⟩
  rw [hnum]
  exact freeFd_spec s.currentFd

end Creeks
