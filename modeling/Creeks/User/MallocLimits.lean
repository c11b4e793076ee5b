import Creeks.User.MallocSafety

/-!
# The limits of the heap of a process

`malloc` computes the size of a record modulo 2^32, stores it in 31 bits and passes it to `sys_sbrk`, which
never fails. `malloc_within_limits` is about the runs of a process in which no request outgrows the header or
the space below the stack: each `malloc` ends, its block lies in the heap, and the next one ends as well.
`stored_size_zero` is a first request that is too large for the header; the next one never ends.
-/

namespace Creeks
open Lib

/-- One step of a process whose break starts at `b0`: a request of any size that returns, a free of a live
allocation, or a write inside one. -/
inductive AnyStep (b0 : Nat) :
    UserHeap × List (Nat × Nat) → UserOp → UserHeap × List (Nat × Nat) → Prop where
  | malloc {s live size s' p} :
    size < 4294967296 →
    malloc s size = some (s', p) →
    AnyStep b0 (s, live) (.malloc size) (s', if p = MINUS_ONE then live else (p, size) :: live)
  | free {s live p n s'} :
    (p, n) ∈ live →
    free s p = some s' →
    AnyStep b0 (s, live) (.free p) (s', live.erase (p, n))
  | write {s live p n i b} :
    (p, n) ∈ live →
    i < n →
    AnyStep b0 (s, live) (.write (p + i) b) (s.withMem (Function.update s.mem (p + i) b), live)

/-- The walk from `b_heap` reaches `e_heap`. -/
def Walkable (s : UserHeap) : Prop :=
  s.bHeap = 0 ∨ ∃ chunks, Tiling MALLOC_MINSIZE (hdrSize s.mem) s.bHeap chunks s.eHeap

/-- A free block of the heap has room for a record of `n` bytes. -/
def HasBlock (s : UserHeap) (n : Nat) : Prop :=
  s.bHeap ≠ 0 ∧ ∃ chunks, Tiling MALLOC_MINSIZE (hdrSize s.mem) s.bHeap chunks s.eHeap ∧
    ∃ c ∈ chunks, hdrUsed s.mem c = 0 ∧ n ≤ hdrSize s.mem c

/-- A request whose record a header can hold and for which there is a free block, or room below the stack
behind the break. -/
def MallocServed (s : UserHeap) (size : Nat) : Prop :=
  roundedSize size < 2147483648 ∧
    (HasBlock s (roundedSize size) ∨ s.kernelEHeap + roundedSize size < USER_STACK)

/-- What a request can rely on: it fails and changes nothing, or its block lies in the heap and below the
stack; and a later request ends, whatever its size as long as a header can hold it. -/
def MallocSafe (s : UserHeap) (size : Nat) : Prop :=
  ∃ s' p, malloc s size = some (s', p) ∧
    (p = MINUS_ONE ∧ s' = s ∧ Walkable s ∨
      s'.bHeap ≤ p ∧ p + size ≤ s'.eHeap ∧ p + size ≤ USER_STACK ∧ Walkable s') ∧
    ∀ later, roundedSize later < 2147483648 → (malloc s' later).isSome

/-- A step that stays within the limits: a request that can be served, or a free whose merged block a header
can hold. -/
def ServedStep (b0 : Nat) (x : UserHeap × List (Nat × Nat)) (op : UserOp)
    (y : UserHeap × List (Nat × Nat)) : Prop :=
  AnyStep b0 x op y ∧ (∀ size, op = .malloc size → MallocServed x.1 size) ∧
    ∀ p, op = .free p → MergeFits x.1 p

section Limits

variable {b0 size : Nat} {s s' : UserHeap} {live : List (Nat × Nat)}

/-- The blocks of a heap are determined by its headers. -/
lemma UserInv.walkable (inv : UserInv b0 s live) : Walkable s := by
  cases inv with
  | blank hb => exact .inl hb
  | heap hb rep => exact .inr ⟨_, hb ▸ rep.blocks.tiles⟩

/-- A request that can be served leaves the break below the stack, and returns a block of the heap. -/
lemma MallocServed.spec (hb0 : 0 < b0) (hlim : b0 < USER_STACK) (inv : UserInv b0 s live)
    (served : MallocServed s size) :
    ∃ s' p, malloc s size = some (s', p) ∧ b0 + s'.obtained < USER_STACK ∧ p ≠ MINUS_ONE := by
  obtain ⟨hsize, hroom⟩ := served
  obtain ⟨t, chunks, rep, hb, -, hmem, hobt, hcases⟩ := malloc_cases hb0 hlim inv hsize
  have hend := rep.limit
  have hsbrk := rep.sbrk
  simp only [USER_STACK] at hend
  rcases hcases with ⟨l, c, r, rfl, -, -, e⟩ | ⟨hnone, e⟩
  · obtain ⟨-, -, hle, -⟩ := rep.blocks.bounds (c := c) (by simp)
    refine ⟨_, _, e, ?_, by simp only [MINUS_ONE]; omega⟩
    rw [takenBlock, withMem_obtained, ← hsbrk]
    exact rep.limit
  · refine ⟨_, _, e, ?_, by simp only [MINUS_ONE]; omega⟩
    rw [takenBlock, withMem_obtained, extendHeap_obtained, ← Nat.add_assoc, ← hsbrk]
    cases inv with
    | blank hb' hk ho =>
      rcases hroom with ⟨hne, -⟩ | hroom
      · exact absurd hb' hne
      · rwa [hsbrk, hobt, ho, Nat.add_zero, ← hk]
    | heap hb' rep' =>
      -- the walk has seen every block, so that none is large enough
      have hends : t.eHeap = s.eHeap := by rw [hsbrk, rep'.sbrk, hobt]
      rcases hroom with ⟨-, chunks', tiles', c, hc, hfree, hfit⟩ | hroom
      · have htiles := rep.blocks.tiles
        rw [hmem, hends] at htiles
        rw [hb'] at tiles'
        rw [Tiling.unique (by decide) tiles' htiles] at hc
        rcases hnone c hc with hused | hsmall
        · exact absurd (hmem ▸ hfree) (hmem ▸ hused)
        · exact absurd hfit (not_le.2 (hmem ▸ hsmall))
      · rwa [hends, ← rep'.kernel]

/-- A step within the limits keeps the invariant. -/
lemma UserInv.servedStep {x y : UserHeap × List (Nat × Nat)} {op : UserOp} (hb0 : 0 < b0)
    (hlim : b0 < USER_STACK) (inv : UserInv b0 x.1 x.2) (st : ServedStep b0 x op y) :
    UserInv b0 y.1 y.2 := by
  obtain ⟨st, hserved, hfits⟩ := st
  cases st with
  | malloc _ h =>
    have served := hserved _ rfl
    obtain ⟨s', p, e, hbound, hne⟩ := served.spec hb0 hlim inv
    rw [e] at h
    cases h
    dsimp only
    rw [if_neg hne]
    exact (malloc_ok hb0 hlim inv served.1 e hbound).1
  | free hp h =>
    exact inv.step hb0 hlim ⟨.free hp h, fun q hq => hfits q hq⟩
  | write hp hi =>
    exact inv.step hb0 hlim ⟨.write hp hi, nofun⟩

/-- A request in a heap with the invariant. -/
lemma UserInv.mallocSafe (hb0 : 0 < b0) (hlim : b0 < USER_STACK) (inv : UserInv b0 s live)
    (served : MallocServed s size) : MallocSafe s size := by
  obtain ⟨s', p, e, hbound, -⟩ := served.spec hb0 hlim inv
  have inv' := (malloc_ok hb0 hlim inv served.1 e hbound).1
  refine ⟨s', p, e, .inr ?_, fun later hlater => ?_⟩
  · have hwalk := inv'.walkable
    cases inv' with
    | heap hb rep =>
      obtain ⟨c, hc, rfl, hk⟩ := rep.blocks.room p size List.mem_cons_self
      obtain ⟨hlo, -, hle, -⟩ := rep.blocks.bounds hc
      have hend := rep.limit
      exact ⟨by omega, by omega, by omega, hwalk⟩
  · obtain ⟨t, q, e', -⟩ := (inv'.safe hb0 hlim).malloc_total later hlater
    rw [e']
    rfl

end Limits

/-- In every state a process reaches without a request or a free that outgrows a header or the space below the
stack, `malloc` is safe for every request that does not either. -/
theorem malloc_within_limits {b0 : Nat} {mem : Mem} {s : UserHeap} {ops : List UserOp}
    {live : List (Nat × Nat)} (hb0 : 0 < b0) (hlim : b0 < USER_STACK)
    (run : Run (ServedStep b0) (freshHeap mem b0, []) ops (s, live)) {size : Nat}
    (served : MallocServed s size) : MallocSafe s size := by
  have init : UserInv b0 (freshHeap mem b0) [] := .blank rfl rfl rfl
  have inv : UserInv b0 s live :=
    run.invariant (I := fun x => UserInv b0 x.1 x.2) (fun _ _ _ inv st => inv.servedStep hb0 hlim st) init
  exact inv.mallocSafe hb0 hlim served

/-- The first request of a process, of ten bytes. -/
theorem malloc_within_limits_ten : MallocSafe (freshHeap (fun _ => 0) 0x40001000) 10 :=
  @malloc_within_limits 0x40001000 (fun _ => 0) _ [] [] (by decide) (by decide) .nil 10
    ⟨by decide, .inr (by decide)⟩

/-- The walk of `malloc` does not get past a used block of size 0. -/
lemma mallocSearch_stuck {s : UserHeap} {c n : Nat} (hused : hdrUsed s.mem c ≠ 0)
    (hsize : hdrSize s.mem c = 0) (hc : c < s.eHeap) (hend : c < 4294967296) (fuel : Nat) :
    mallocSearch n fuel s c = none := by
  induction fuel with
  | zero => rfl
  | succ fuel ih =>
    rw [mallocSearch, if_pos (.inl hused), hsize, Nat.add_zero, wrap_of_lt hend, if_neg (by omega),
      if_neg (by omega)]
    exact ih

/-- The header of a first block of 2^31 bytes. -/
lemma takeChunk_truncated (m : Mem) (a : Nat) :
    hdrSize (takeChunk (freshBlock m a 0x80000000) a 0x80000000) a = 0 ∧
      hdrUsed (takeChunk (freshBlock m a 0x80000000) a 0x80000000) a = 1 := by
  have hzero : ∀ m : Mem, hdrSize (setSize m a 0x80000000) a = 0 := by
    intro m
    have := hdrUsed_lt m a
    rw [hdrSize, setSize, load32_store32]
    omega
  have hfresh : hdrSize (freshBlock m a 0x80000000) a = 0 := by
    rw [freshBlock, hdrSize_setUsed, hzero]
  have hrest : wrap (0 + 4294967296 - 0x80000000) = 0x80000000 := wrap_of_lt (by decide)
  rw [takeChunk, hfresh, hrest, if_neg (by decide)]
  exact ⟨by rw [hdrSize_setUsed, hzero], hdrUsed_setUsed (by decide)⟩

/-- After a first request of 0x7FFFFFFC bytes, whose record has a size of 0 in its header, no request
ends. -/
theorem stored_size_zero : ¬ MallocSafe (freshHeap (fun _ => 0) 0x40001000) 0x7FFFFFFC := by
  rintro ⟨s', p, e, -, hlater⟩
  have hreal : recordSize 0x7FFFFFFC = 0x80000000 := by
    have hwrap : wrap (4 + 0x7FFFFFFC) = 0x80000000 := wrap_of_lt (by decide)
    rw [recordSize, hwrap]
    rfl
  have hend : wrap (0x40001000 + 0x80000000) = 0xC0001000 := wrap_of_lt (by decide)
  have hb : (freshHeap (fun _ => 0) 0x40001000).bHeap = 0 := rfl
  rw [malloc, hreal, if_pos hb, if_neg (by decide)] at e
  cases e
  obtain ⟨hsize, hused⟩ := takeChunk_truncated (fun _ => 0) 0x40001000
  have hstuck : ∀ t : UserHeap, t.bHeap = 0x40001000 → t.eHeap = 0xC0001000 →
      t.mem = takeChunk (freshBlock (fun _ => 0) 0x40001000 0x80000000) 0x40001000 0x80000000 →
      malloc t 1 = none := by
    intro t hb he hm
    rw [malloc, if_neg (by rw [hb]; decide), hb, mallocSearch_stuck (by rw [hm, hused]; decide)
      (by rw [hm, hsize]) (by rw [he]; decide) (by decide)]
  exact Option.isSome_iff_ne_none.1 (hlater 1 (by decide)) (hstuck _ rfl hend rfl)

end Creeks
