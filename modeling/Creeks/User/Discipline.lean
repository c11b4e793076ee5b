import Creeks.User.Shell

/-!
# The heap discipline of the programs

The rest of the shell's branch, from the substitution of `av[0]` to the frees, and `cat` with its
failures, over the checked heap: a run that returns freed only what it had allocated and had not freed,
and touched no freed block. `heap_discipline_iff` says when they do. `exec` and `wait` leave the blocks of
the shell alone.
-/

namespace Creeks
open Lib

/-- `strncmp`, from index `i` on. -/
def strncmpFrom (h : BlockHeap) (dst src : Ptr) : Nat → Nat → Except Misuse Nat
  | 0, _ => .error .endless
  | n + 1, i => do
    let a ← h.loadByte dst i
    let b ← h.loadByte src i
    if a = b then
      if n = 0 ∨ b = 0 then .ok 0 else strncmpFrom h dst src n (i + 1)
    else .ok 1

/-- `"cat"` and `"kill"`, and the paths they stand for. -/
def catName : List UInt8 := [99, 97, 116]
def killName : List UInt8 := [107, 105, 108, 108]
def catPath : List UInt8 := [47, 98, 105, 110, 47] ++ catName
def killPath : List UInt8 := [47, 98, 105, 110, 47] ++ killName

/-- The substitution of `av[0]`. -/
def substitute (h : BlockHeap) (av : Ptr) : Except Misuse BlockHeap := do
  let p ← h.loadPtr av 0
  let r ← strncmpFrom h (.const catName) p 3 0
  if r = 0 then h.storePtr av 0 (.const catPath)
  else do
    let p ← h.loadPtr av 0
    let r ← strncmpFrom h (.const killName) p 4 0
    if r = 0 then h.storePtr av 0 (.const killPath) else .ok h

/-- `for (i...) free(av[i]);` -/
def freeLoop (av : Ptr) : Nat → Nat → BlockHeap → Except Misuse BlockHeap
  | 0, _, h => .ok h
  | n + 1, i, h => do
    let p ← h.loadPtr av i
    let h ← h.free p
    freeLoop av n (i + 1) h

/-- The branch of the shell that starts a program. -/
def execBranch (line : CText) (h : BlockHeap) : Except Misuse BlockHeap := do
  let r ← splitCommand line h
  match r with
  | none => .ok h
  | some (h, av, ac) => do
    let h ← substitute h av
    let _ ← h.loadPtr av 0                    -- exec(av[0], av)
    let h ← freeLoop av (ac - 1) 0 h
    h.free av

/-- The branch ends, and every block it allocated is free. -/
def ShellClean (line : CText) (bytes : Nat → Mem) (ptrs : Nat → Nat → Ptr) : Prop :=
  ∃ h, execBranch line (.none bytes ptrs) = .ok h ∧ h.AllFreed

/-! ## cat -/

abbrev SIZE : Nat := 512

/-- What `read` returns at once. -/
abbrev Chunk := { d : List UInt8 // d ≠ [] ∧ d.length ≤ SIZE - 1 }

/-- What the system does with an argument: `open` fails, or `read` returns some data and then 0, or -1
when it fails. -/
inductive Outcome where
  | openFails
  | reads (data : List Chunk) (fails : Bool)

/-- `read(fd, buf, SIZE-1)`, `buf[n] = 0` and the write of the string. -/
def catWrite (h : BlockHeap) (buf : Ptr) (d : List UInt8) : Except Misuse BlockHeap := do
  let id ← h.access buf 0 d.length
  let h := { h with bytes := Function.update h.bytes id (writeText (h.bytes id) 0 d) }
  let h ← h.storeByte buf d.length 0
  let _ ← h.access buf 0 ((d.takeWhile (· ≠ 0)).length + 1)
  .ok h

/-- The loop over the data of a file. -/
def catFile (buf : Ptr) (fails : Bool) : List Chunk → BlockHeap → Except Misuse BlockHeap
  | [], h => if fails then h.free buf else catWrite h buf []
  | d :: ds, h => do
    let h ← catWrite h buf d.1
    catFile buf fails ds h

/-- The loop over the arguments. -/
def catLoop (buf : Ptr) : List Outcome → BlockHeap → Except Misuse BlockHeap
  | [], h => .ok h
  | .openFails :: args, h => do
    let h ← h.free buf
    catLoop buf args h
  | .reads data fails :: args, h => do
    let h ← catFile buf fails data h
    catLoop buf args h

/-- `main` of `cat`, with what `malloc`, `open` and `read` do. -/
def cat (mallocFails : Bool) (args : List Outcome) (h : BlockHeap) : Except Misuse BlockHeap :=
  if mallocFails then .ok h
  else do
    let r := h.alloc SIZE
    let h ← catLoop r.2 args r.1
    h.free r.2

def CatClean (mallocFails : Bool) (args : List Outcome) (bytes : Nat → Mem)
    (ptrs : Nat → Nat → Ptr) : Prop :=
  ∃ h, cat mallocFails args (.none bytes ptrs) = .ok h

/-- Nothing failed. -/
def Outcome.Fine : Outcome → Prop
  | .openFails => False
  | .reads _ fails => fails = false

/-! ## The shell -/

/-- A block holds a word and its zero. -/
structure HoldsWord (h : BlockHeap) (id : Nat) (w : List UInt8) : Prop where
  live : id ∉ h.freed
  size : h.sizes.getD id 0 = w.length + 1
  text : Spells (h.bytes id) 0 w
  zero : h.bytes id w.length = 0

section

variable {h : BlockHeap} {id : Nat} {w : List UInt8} {ws : List (List UInt8)}

lemma HoldsWord.load (holds : HoldsWord h id w) {off : Nat} (hoff : off ≤ w.length) :
    h.loadByte (.block id) off = BlockHeap.readByte (w ++ [0]) off := by
  have hsize := holds.size
  unfold BlockHeap.loadByte BlockHeap.readByte
  dsimp only
  rw [BlockHeap.access_ok holds.live (by omega), ok_bind]
  by_cases hlast : off = w.length
  · rw [hlast, List.getElem?_append_right (le_refl _), Nat.sub_self, holds.zero]
    rfl
  · have hlt : off < w.length := by omega
    have hcell := holds.text off hlt
    rw [Nat.zero_add] at hcell
    rw [List.getElem?_append_left hlt, List.getElem?_eq_getElem hlt, hcell]

/-- `strncmp` with the length of a constant tests for a prefix. -/
lemma strncmpFrom_spec (holds : HoldsWord h id w) {s s1 s2 w2 : List UInt8} (hs : s = s1 ++ s2)
    (hw : w = s1 ++ w2) (hne : s2 ≠ []) (h0 : (0 : UInt8) ∉ s) :
    strncmpFrom h (.const s) (.block id) s2.length s1.length = .ok (if s2 <+: w2 then 0 else 1) := by
  induction s2 generalizing s1 w2 with
  | nil => exact absurd rfl hne
  | cons c s2 ih =>
    have hc : c ≠ 0 := by
      rintro rfl
      exact h0 (hs ▸ List.mem_append_right _ (List.mem_cons_self ..))
    have hconst : h.loadByte (.const s) s1.length = .ok c := read_line hs
    have hlen : s1.length ≤ w.length := by
      rw [hw, List.length_append]
      omega
    rw [List.length_cons]
    unfold strncmpFrom
    rw [hconst, ok_bind, holds.load hlen]
    cases w2 with
    | nil =>
      rw [List.append_nil] at hw
      rw [hw, BlockHeap.readByte_at, ok_bind, if_neg hc, if_neg (by simp)]
    | cons d w2 =>
      rw [read_line hw, ok_bind]
      by_cases hcd : c = d
      · subst hcd
        rw [if_pos rfl]
        cases s2 with
        | nil => rw [List.length_nil, if_pos (.inl rfl), if_pos (by simp)]
        | cons e s2 =>
          have hrest := @ih (s1 ++ [c]) w2 (by rw [hs]; simp) (by rw [hw]; simp) nofun
          rw [List.length_append, List.length_singleton] at hrest
          rw [if_neg (by simp [hc]), hrest]
          simp only [List.cons_prefix_cons, true_and]
      · rw [if_neg hcd, if_neg fun h => hcd (List.cons_prefix_cons.1 h).1]

lemma Arguments.holds (args : Arguments h ws) {i : Nat} (hi : i < ws.length) :
    HoldsWord h (i + 1) ws[i] := by
  obtain ⟨-, htext, hzero⟩ := args.word i hi
  refine ⟨?_, ?_, htext, hzero⟩
  · rw [args.live]
    exact nofun
  · rw [args.sizes, List.getD_cons_succ, List.getD_eq_getElem _ _ (by simpa using hi), List.getElem_map]

/-- The shell replaces `av[0]` when the first word begins with `cat` or `kill`, and only then. -/
lemma substitute_spec (args : Arguments h (w :: ws)) :
    (catName <+: w ∨ killName <+: w →
      ∃ h' s, substitute h (.block 0) = .ok h' ∧ h'.loadPtr (.block 0) 0 = .ok (.const s)) ∧
    (¬ catName <+: w → ¬ killName <+: w → substitute h (.block 0) = .ok h) := by
  have holds := args.holds (i := 0) (Nat.zero_lt_succ _)
  have hload := (args.word 0 (Nat.zero_lt_succ _)).1
  have hcat : strncmpFrom h (.const catName) (.block (0 + 1)) 3 0 =
      .ok (if catName <+: w then 0 else 1) :=
    @strncmpFrom_spec _ _ _ holds catName [] catName w rfl rfl nofun (by decide)
  have hkill : strncmpFrom h (.const killName) (.block (0 + 1)) 4 0 =
      .ok (if killName <+: w then 0 else 1) :=
    @strncmpFrom_spec _ _ _ holds killName [] killName w rfl rfl nofun (by decide)
  have hcell : ∀ p, (⟨h.sizes, h.freed, h.bytes, p⟩ : BlockHeap).access (.block 0) (4 * 0) 4 = .ok 0 :=
    fun p => BlockHeap.access_ok (by rw [args.live]; exact nofun) (by
      rw [args.sizes, List.getD_cons_zero]
      omega)
  have hstore : ∀ s, ∃ h', h.storePtr (.block 0) 0 (.const s) = .ok h' ∧
      h'.loadPtr (.block 0) 0 = .ok (.const s) := fun s => by
    refine ⟨⟨h.sizes, h.freed, h.bytes, Function.update h.ptrs 0 (Function.update (h.ptrs 0) 0 (.const s))⟩,
      ?_, ?_⟩
    · unfold BlockHeap.storePtr
      rw [show h.access (.block 0) (4 * 0) 4 = _ from hcell h.ptrs]
      rfl
    · unfold BlockHeap.loadPtr
      rw [hcell, ok_bind]
      dsimp only
      rw [Function.update_self, Function.update_self]
  have hsub : substitute h (.block 0) =
      if catName <+: w then h.storePtr (.block 0) 0 (.const catPath)
      else if killName <+: w then h.storePtr (.block 0) 0 (.const killPath) else .ok h := by
    unfold substitute
    rw [hload, ok_bind]
    rw [hcat, ok_bind, ok_bind, hkill, ok_bind]
    by_cases h1 : catName <+: w
    · rw [if_pos h1, if_pos h1, if_pos rfl]
    · rw [if_neg h1, if_neg h1, if_neg (by decide)]
      by_cases h2 : killName <+: w
      · rw [if_pos h2, if_pos h2, if_pos rfl]
      · rw [if_neg h2, if_neg h2, if_neg (by decide)]
  rw [hsub]
  refine ⟨fun hname => ?_, fun h1 h2 => by rw [if_neg h1, if_neg h2]⟩
  by_cases h1 : catName <+: w
  · rw [if_pos h1]
    obtain ⟨h', he, hl⟩ := hstore catPath
    exact ⟨h', _, he, hl⟩
  · rw [if_neg h1, if_pos (hname.resolve_left h1)]
    obtain ⟨h', he, hl⟩ := hstore killPath
    exact ⟨h', _, he, hl⟩

/-- The blocks with some of them freed. -/
def freedAs (h : BlockHeap) (f : List Nat) : BlockHeap := ⟨h.sizes, f, h.bytes, h.ptrs⟩

/-- The array stays readable while it is not freed itself. -/
lemma Arguments.load (args : Arguments h ws) {f : List Nat} (hf : 0 ∉ f) {i : Nat} (hi : i < ws.length) :
    (freedAs h f).loadPtr (.block 0) i = .ok (.block (i + 1)) := by
  have hroom : 4 * i + 4 ≤ h.sizes.getD 0 0 := by
    rw [args.sizes, List.getD_cons_zero]
    omega
  have hload := (args.word i hi).1
  unfold BlockHeap.loadPtr at hload ⊢
  rw [BlockHeap.access_ok (by rw [args.live]; exact nofun) hroom, ok_bind] at hload
  rw [show (freedAs h f).access (.block 0) (4 * i) 4 = .ok 0 from BlockHeap.access_ok hf hroom, ok_bind]
  exact hload

/-- The frees of the words. -/
lemma freeLoop_spec (args : Arguments h ws) {n i : Nat} (hn : i + n = ws.length) {f : List Nat}
    (hf : ∀ id, id ∈ f ↔ 1 ≤ id ∧ id ≤ i) :
    ∃ f', freeLoop (.block 0) n i (freedAs h f) = .ok (freedAs h f') ∧
      ∀ id, id ∈ f' ↔ 1 ≤ id ∧ id ≤ ws.length := by
  induction n generalizing i f with
  | zero =>
    refine ⟨f, rfl, fun id => ?_⟩
    rw [hf, ← hn, Nat.add_zero]
  | succ n ih =>
    have h0 : 0 ∉ f := fun h => by
      have := (hf 0).1 h
      omega
    have hlen : (freedAs h f).sizes.length = ws.length + 1 := by
      change h.sizes.length = _
      rw [args.sizes, List.length_cons, List.length_map]
    have hlive : i + 1 ∉ (freedAs h f).freed := fun h => by
      have := (hf (i + 1)).1 h
      omega
    obtain ⟨f', hrun, hf'⟩ := ih (f := (i + 1) :: f) (by omega : i + 1 + n = ws.length) fun id => by
      rw [List.mem_cons, hf]
      omega
    refine ⟨f', ?_, hf'⟩
    unfold freeLoop
    rw [args.load h0 (by omega), ok_bind, BlockHeap.free_ok (by omega) hlive, ok_bind]
    exact hrun

end

/-- The branch frees its blocks once each unless it has put a constant into the array. -/
lemma shellClean_iff (line : CText) (bytes : Nat → Mem) (ptrs : Nat → Nat → Ptr) :
    ShellClean line bytes ptrs ↔
      ∀ w ∈ (wordsOf line.1).head?, ¬ catName <+: w ∧ ¬ killName <+: w := by
  obtain ⟨hnil, hwords⟩ := splitCommand_spec line bytes ptrs
  unfold ShellClean execBranch
  cases hws : wordsOf line.1 with
  | nil =>
    rw [hnil hws, ok_bind]
    exact ⟨fun _ => nofun, fun _ => ⟨_, rfl, fun id hid => absurd hid (Nat.not_lt_zero id)⟩⟩
  | cons w ws =>
    obtain ⟨h, hsplit, args⟩ := hwords (by rw [hws]; exact nofun)
    rw [hws] at hsplit args
    rw [hsplit, ok_bind]
    dsimp only
    obtain ⟨hname, hplain⟩ := substitute_spec args
    constructor
    · rintro ⟨h', hrun, -⟩ v hv
      cases hv
      by_contra hn
      have hn : catName <+: w ∨ killName <+: w := by
        by_contra h
        exact hn (not_or.1 h)
      obtain ⟨g, s, hsub, hload⟩ := hname hn
      rw [hsub, ok_bind, hload, ok_bind] at hrun
      rw [List.length_cons, Nat.add_sub_cancel] at hrun
      unfold freeLoop at hrun
      rw [hload] at hrun
      cases hrun
    · intro hv
      obtain ⟨h1, h2⟩ := hv w rfl
      have hself : freedAs h [] = h := by
        unfold freedAs
        rw [← args.live]
      have h00 : 0 ∉ ([] : List Nat) := nofun
      have hload := args.load h00 (Nat.zero_lt_succ ws.length)
      obtain ⟨f', hfree, hf'⟩ := freeLoop_spec (n := (w :: ws).length) (i := 0) args (Nat.zero_add _)
        (f := []) fun id => ⟨nofun, fun h => by omega⟩
      rw [hself] at hload hfree
      have hlen : (freedAs h f').sizes.length = ws.length + 2 := by
        change h.sizes.length = _
        rw [args.sizes, List.length_cons, List.length_map, List.length_cons]
      have h0 : 0 ∉ (freedAs h f').freed := fun h => by
        have := (hf' 0).1 h
        omega
      rw [hplain h1 h2, ok_bind, hload, ok_bind, Nat.add_sub_cancel, hfree, ok_bind,
        BlockHeap.free_ok (by omega) h0]
      refine ⟨_, rfl, fun id hid => ?_⟩
      change id < (freedAs h f').sizes.length at hid
      change id ∈ 0 :: f'
      rw [List.mem_cons, hf', List.length_cons]
      omega

/-! ## cat -/

section

variable {h : BlockHeap} {args : List Outcome}

/-- The only block of `cat`. -/
structure OneBlock (h : BlockHeap) : Prop where
  sizes : h.sizes = [SIZE]
  live : h.freed = []

lemma OneBlock.access (one : OneBlock h) {off len : Nat} (hin : off + len ≤ SIZE) :
    h.access (.block 0) off len = .ok 0 := by
  refine BlockHeap.access_ok ?_ ?_
  · rw [one.live]
    exact nofun
  · rw [one.sizes]
    exact hin

/-- A piece of a file fits in the buffer with its zero. -/
lemma OneBlock.write (one : OneBlock h) {d : List UInt8} (hd : d.length ≤ SIZE - 1) :
    ∃ h', catWrite h (.block 0) d = .ok h' ∧ OneBlock h' := by
  have hsize : SIZE - 1 + 1 = SIZE := rfl
  have hprefix := (List.takeWhile_prefix (· ≠ (0 : UInt8)) (l := d)).length_le
  have hone : ∀ b, OneBlock ⟨h.sizes, h.freed, b, h.ptrs⟩ := fun _ => ⟨one.sizes, one.live⟩
  unfold catWrite BlockHeap.storeByte
  rw [one.access (by omega), ok_bind]
  dsimp only
  rw [(hone _).access (by omega), ok_bind, ok_bind, (hone _).access (by omega)]
  exact ⟨_, rfl, hone _⟩

lemma OneBlock.file (one : OneBlock h) (data : List Chunk) :
    ∃ h', catFile (.block 0) false data h = .ok h' ∧ OneBlock h' := by
  induction data generalizing h with
  | nil => exact one.write (d := []) (Nat.zero_le _)
  | cons d data ih =>
    obtain ⟨h', hw, one'⟩ := one.write d.2.2
    unfold catFile
    rw [hw, ok_bind]
    exact ih one'

/-- After the free in an error branch nothing but the end of the arguments is left without a fault. -/
lemma catLoop_freed (hf : 0 ∈ h.freed) {g : BlockHeap} (hrun : catLoop (.block 0) args h = .ok g) :
    args = [] := by
  have hfree : h.free (.block 0) = .error .notAllocated := if_neg fun h => h.2 hf
  have hwrite : ∀ d, catWrite h (.block 0) d = .error .dangling := fun d => by
    unfold catWrite
    rw [BlockHeap.access_freed hf]
    rfl
  cases args with
  | nil => rfl
  | cons a args =>
    cases a with
    | openFails =>
      unfold catLoop at hrun
      rw [hfree] at hrun
      cases hrun
    | reads data fails =>
      unfold catLoop at hrun
      cases data with
      | nil =>
        unfold catFile at hrun
        rw [hfree, hwrite] at hrun
        cases fails <;> cases hrun
      | cons d data =>
        unfold catFile at hrun
        rw [hwrite] at hrun
        cases hrun

lemma OneBlock.free (one : OneBlock h) {g : BlockHeap} (hrun : h.free (.block 0) = .ok g) :
    0 ∈ g.freed := by
  rw [BlockHeap.free_ok (by rw [one.sizes]; decide) (by rw [one.live]; exact nofun)] at hrun
  cases hrun
  exact List.mem_cons_self ..

lemma OneBlock.failing_file (one : OneBlock h) {data : List Chunk} {g : BlockHeap}
    (hrun : catFile (.block 0) true data h = .ok g) : 0 ∈ g.freed := by
  induction data generalizing h with
  | nil => exact one.free hrun
  | cons d data ih =>
    obtain ⟨h', hw, one'⟩ := one.write d.2.2
    unfold catFile at hrun
    rw [hw, ok_bind] at hrun
    exact ih one' hrun

/-- The arguments in which nothing failed are gone through with the buffer in place. -/
lemma OneBlock.fine (one : OneBlock h) (hargs : ∀ a ∈ args, a.Fine) :
    ∃ g, catLoop (.block 0) args h = .ok g ∧ OneBlock g := by
  induction args generalizing h with
  | nil => exact ⟨h, rfl, one⟩
  | cons a args ih =>
    have ha := hargs a (List.mem_cons_self ..)
    cases a with
    | openFails => exact ha.elim
    | reads data fails =>
      obtain ⟨h', hf, one'⟩ := one.file data
      unfold catLoop
      rw [show fails = false from ha, hf, ok_bind]
      exact ih one' fun b hb => hargs b (List.mem_cons_of_mem _ hb)

/-- The loop returns with the buffer in place only when nothing failed. -/
lemma OneBlock.loop (one : OneBlock h) {g : BlockHeap} (hrun : catLoop (.block 0) args h = .ok g) :
    (∀ a ∈ args, a.Fine) ∨ 0 ∈ g.freed := by
  induction args generalizing h with
  | nil => exact .inl nofun
  | cons a args ih =>
    have hbad : ∀ {h'}, 0 ∈ h'.freed → catLoop (.block 0) args h' = .ok g → 0 ∈ g.freed :=
      fun hf hrun => by
        have := catLoop_freed hf hrun
        subst this
        cases hrun
        exact hf
    cases a with
    | openFails =>
      obtain ⟨h', hf, hrest⟩ := bind_ok.1 hrun
      exact .inr (hbad (one.free hf) hrest)
    | reads data fails =>
      obtain ⟨h', hf, hrest⟩ := bind_ok.1 hrun
      cases fails with
      | true => exact .inr (hbad (one.failing_file hf) hrest)
      | false =>
        obtain ⟨h'', hf', one'⟩ := one.file data
        rw [hf] at hf'
        cases hf'
        refine (ih one' hrest).imp (fun hargs b hb => ?_) id
        rcases List.mem_cons.1 hb with rfl | hb
        · rfl
        · exact hargs b hb

end

/-- `cat` frees its buffer once unless an `open` or a `read` fails. -/
lemma catClean_iff (mallocFails : Bool) (args : List Outcome) (bytes : Nat → Mem) (ptrs : Nat → Nat → Ptr) :
    CatClean mallocFails args bytes ptrs ↔ mallocFails = true ∨ ∀ a ∈ args, a.Fine := by
  unfold CatClean cat
  cases mallocFails with
  | true => exact ⟨fun _ => .inl rfl, fun _ => ⟨_, rfl⟩⟩
  | false =>
    have one : OneBlock ((BlockHeap.none bytes ptrs).alloc SIZE).1 := ⟨rfl, rfl⟩
    rw [if_neg (by decide)]
    constructor
    · rintro ⟨h, hrun⟩
      obtain ⟨g, hloop, hfree⟩ := bind_ok.1 hrun
      refine .inr ((one.loop hloop).resolve_right fun hf => ?_)
      have herr : g.free (.block 0) = .error .notAllocated := if_neg fun h => h.2 hf
      have hfree : g.free (.block 0) = .ok h := hfree
      rw [herr] at hfree
      cases hfree
    · rintro (h | hargs)
      · cases h
      · obtain ⟨g, hloop, one'⟩ := one.fine hargs
        have hloop : catLoop ((BlockHeap.none bytes ptrs).alloc SIZE).2 args
            ((BlockHeap.none bytes ptrs).alloc SIZE).1 = .ok g := hloop
        dsimp only
        rw [hloop, ok_bind]
        exact ⟨_, @BlockHeap.free_ok g 0 (by rw [one'.sizes]; decide) (by rw [one'.live]; exact nofun)⟩

/-- The shell frees every block of a command once, and touches none after it, exactly when the first word
does not begin with `cat` or `kill`. `cat` frees its buffer once, and does not touch it afterwards, exactly
when no `open` and no `read` fails. -/
theorem heap_discipline_iff (line : CText) (mallocFails : Bool) (args : List Outcome) (bytes : Nat → Mem)
    (ptrs : Nat → Nat → Ptr) :
    (ShellClean line bytes ptrs ↔
      ∀ w ∈ (wordsOf line.1).head?, ¬ catName <+: w ∧ ¬ killName <+: w) ∧
    (CatClean mallocFails args bytes ptrs ↔ mallocFails = true ∨ ∀ a ∈ args, a.Fine) :=
  ⟨shellClean_iff line bytes ptrs, catClean_iff mallocFails args bytes ptrs⟩

/-- The line `cat` frees the constant `/bin/cat`, and a file that cannot be opened makes `cat` free its
buffer twice. -/
theorem cat_frees_constant :
    (¬ ∀ line, ShellClean line (fun _ _ => 0) fun _ _ => .null) ∧
      ¬ ∀ args, CatClean false args (fun _ _ => 0) fun _ _ => .null := by
  refine ⟨fun h => ?_, fun h => ?_⟩
  · have h := (shellClean_iff _ _ _).1 (h ⟨[99, 97, 116, 10], by decide⟩) [99, 97, 116] (by decide)
    exact h.1 (List.prefix_refl _)
  · rcases (catClean_iff _ _ _ _).1 (h [.openFails]) with h | h
    · cases h
    · exact h .openFails (List.mem_cons_self ..)

end Creeks
