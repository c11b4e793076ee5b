import Creeks.User.Malloc

/-!
# Safety of the heap of a process

Runs of `malloc` and `free` by a process that only frees what it was given and only writes inside what
it owns. `user_heap_safe` is the result: as long as no block that `free` puts together outgrows the 31
bits of `size`, the headers tile the heap up to the break of the kernel, the used blocks are the live
allocations, and neither function loops or touches a byte of one. `merged_block_truncated` is the run
in which two blocks do outgrow it.
-/

namespace Creeks
open Lib

/-- The headers tile the heap from `b0` up to the break of the kernel, in multiples of 16 bytes. -/
structure UserRep (b0 : Nat) (s : UserHeap) (chunks : List Nat) (live : List (Nat × Nat)) :
    Prop where
  blocks : Blocks s.mem b0 s.eHeap chunks live
  aligned : ∀ c ∈ chunks, hdrSize s.mem c % 16 = 0
  kernel : s.kernelEHeap = s.eHeap
  sbrk : s.eHeap = b0 + s.obtained
  limit : s.eHeap < USER_STACK

/-- The invariant of a process: its heap has not been created, or starts at `b0`. -/
inductive UserInv (b0 : Nat) : UserHeap → List (Nat × Nat) → Prop where
  | blank {s} :
    s.bHeap = 0 →
    s.kernelEHeap = b0 →
    s.obtained = 0 →
    UserInv b0 s []
  | heap {s r live} :
    s.bHeap = b0 →
    UserRep b0 s (b0 :: r) live →
    UserInv b0 s live

section Extend

variable {b0 n : Nat} {s : UserHeap} {chunks : List Nat} {live : List (Nat × Nat)}

/-- A block that `sbrk` has just returned is free and has the size asked for. -/
lemma freshBlock_header {m : Mem} {a : Nat} (hn : n < 2147483648) :
    hdrUsed (freshBlock m a n) a = 0 ∧ hdrSize (freshBlock m a n) a = n :=
  ⟨hdrUsed_setUsed (by decide), by rw [freshBlock, hdrSize_setUsed, hdrSize_setSize hn]⟩

/-- The growth of the heap appends a free block. -/
lemma UserRep.extend (rep : UserRep b0 s chunks live) (h16 : 16 ≤ n) (hal : n % 16 = 0)
    (hn : n < 2147483648) (hlim : b0 + (s.obtained + n) < USER_STACK) :
    UserRep b0 (extendHeap s n) (chunks ++ [s.eHeap]) live ∧
      ∀ x, x < s.eHeap → (extendHeap s n).mem x = s.mem x := by
  simp only [USER_STACK] at hlim
  have hsbrk := rep.sbrk
  have hmem : (extendHeap s n).mem = setUsed (setSize s.mem s.eHeap n) s.eHeap 0 := by
    rw [← rep.kernel]
    rfl
  have hend : (extendHeap s n).eHeap = s.eHeap + n := by
    change wrap (s.kernelEHeap + n) = _
    rw [rep.kernel]
    exact wrap_of_lt (by omega)
  obtain ⟨hblocks, -, hsz, hframe⟩ := rep.blocks.grow h16 hn (by omega) hmem
  refine ⟨⟨?_, ?_, ?_, ?_, ?_⟩, hframe⟩
  · rw [hend]
    exact hblocks
  · intro c hc
    rcases List.mem_append.1 hc with hc | hc
    · obtain ⟨-, hc16, hle, -⟩ := rep.blocks.bounds hc
      rw [(hdr_congr fun x _ hx => hframe x (by omega)).1]
      exact rep.aligned c hc
    · cases List.mem_singleton.1 hc
      rw [hsz]
      exact hal
  · rfl
  · rw [hend, hsbrk, Nat.add_assoc]
    rfl
  · rw [hend]
    simp only [USER_STACK]
    omega

/-- The walk of `malloc` finds a free block that is large enough, or reaches the end of the heap and
goes on in the block `sbrk` adds there. -/
lemma UserRep.search {fuel c : Nat} {l r : List Nat} (rep : UserRep b0 s (l ++ c :: r) live)
    (hfuel : r.length + 1 < fuel) :
    (∃ l' d r', l ++ c :: r = l' ++ d :: r' ∧ hdrUsed s.mem d = 0 ∧ n ≤ hdrSize s.mem d ∧
      mallocSearch n fuel s c = some (s, some d)) ∨
    (∀ d ∈ c :: r, hdrUsed s.mem d ≠ 0 ∨ hdrSize s.mem d < n) ∧
      ∃ k, mallocSearch n fuel s c = mallocSearch n (k + 1) (extendHeap s n) s.eHeap := by
  induction r generalizing fuel c l with
  | nil =>
    obtain ⟨k, rfl⟩ : ∃ k, fuel = k + 2 := ⟨fuel - 2, by simp at hfuel; omega⟩
    rw [mallocSearch]
    split
    case isTrue hfull =>
      obtain ⟨-, -, hle, hlim⟩ := rep.blocks.bounds (c := c) (by simp)
      have hend : c + hdrSize s.mem c = s.eHeap := by
        rcases rep.blocks.next with ⟨-, h⟩ | ⟨_, _, h, -⟩
        · exact h
        · cases h
      rw [wrap_of_lt (by omega), if_pos hend, rep.kernel]
      refine .inr ⟨fun d hd => ?_, k, rfl⟩
      cases List.mem_singleton.1 hd
      exact hfull
    case isFalse h =>
      rw [not_or, not_not, not_lt] at h
      exact .inl ⟨l, c, [], rfl, h.1, h.2, rfl⟩
  | cons d r ih =>
    obtain ⟨k, rfl⟩ : ∃ k, fuel = k + 1 := ⟨fuel - 1, by simp at hfuel; omega⟩
    rw [mallocSearch]
    split
    case isTrue hfull =>
      obtain ⟨-, -, hle, hlim⟩ := rep.blocks.bounds (c := c) (by simp)
      obtain ⟨-, hd16, hdle, -⟩ := rep.blocks.bounds (c := d) (by simp)
      have hnext : c + hdrSize s.mem c = d := by
        rcases rep.blocks.next with ⟨h, -⟩ | ⟨_, _, h, e⟩
        · cases h
        · cases h
          exact e
      rw [wrap_of_lt (by omega), hnext, if_neg (by omega), if_neg (by omega)]
      have hassoc : l ++ c :: d :: r = (l ++ [c]) ++ d :: r := by simp
      rw [hassoc] at rep ⊢
      refine (ih rep (by simp at hfuel; omega)).imp_right fun ⟨hnone, hk⟩ => ⟨fun x hx => ?_, hk⟩
      cases hx with
      | head => exact hfull
      | tail _ hx => exact hnone x hx
    case isFalse h =>
      rw [not_or, not_not, not_lt] at h
      exact .inl ⟨l, c, d :: r, rfl, h.1, h.2, rfl⟩

end Extend

/-- The heap with its memory replaced. -/
def UserHeap.withMem (s : UserHeap) (mem : Mem) : UserHeap := { s with mem := mem }

/-- The state `malloc` leaves after taking the block at `bl`. -/
def takenBlock (s : UserHeap) (bl realsize : Nat) : UserHeap :=
  s.withMem (takeChunk s.mem bl realsize)

section Fields

variable (s : UserHeap) (mem : Mem) (n : Nat)

@[simp] lemma withMem_mem : (s.withMem mem).mem = mem := by
  rw [UserHeap.withMem]

@[simp] lemma withMem_bHeap : (s.withMem mem).bHeap = s.bHeap := by
  rw [UserHeap.withMem]

@[simp] lemma withMem_eHeap : (s.withMem mem).eHeap = s.eHeap := by
  rw [UserHeap.withMem]

@[simp] lemma withMem_kernelEHeap : (s.withMem mem).kernelEHeap = s.kernelEHeap := by
  rw [UserHeap.withMem]

@[simp] lemma withMem_obtained : (s.withMem mem).obtained = s.obtained := by
  rw [UserHeap.withMem]

@[simp] lemma extendHeap_bHeap : (extendHeap s n).bHeap = s.bHeap := by
  rw [extendHeap, sysSbrk]

@[simp] lemma extendHeap_obtained : (extendHeap s n).obtained = s.obtained + n := by
  rw [extendHeap, sysSbrk]

end Fields

/-- The heap before its first growth, when its two pointers are set to the break. -/
def started (s : UserHeap) : UserHeap :=
  { s with bHeap := s.kernelEHeap, eHeap := s.kernelEHeap }

/-- The first request creates the heap: it is grown from nothing. -/
lemma malloc_create {s : UserHeap} {size : Nat} (hb : s.bHeap = 0) (hk : s.kernelEHeap < USER_STACK)
    (hsize : roundedSize size < 2147483648) :
    malloc s size = some (takenBlock (extendHeap (started s) (roundedSize size)) s.kernelEHeap
      (roundedSize size), s.kernelEHeap + 4) := by
  obtain ⟨hreal, -, -, -⟩ := recordSize_eq hsize
  simp only [USER_STACK] at hk
  have hne : s.kernelEHeap ≠ MINUS_ONE := by
    simp only [MINUS_ONE]
    omega
  have hwrap : wrap (s.kernelEHeap + 4) = s.kernelEHeap + 4 := wrap_of_lt (by omega)
  rw [malloc, hreal, if_pos hb, if_neg hne]
  change some (_, wrap (s.kernelEHeap + 4)) = _
  rw [hwrap]
  rfl

/-- The two outcomes of `malloc`: a free block is taken, or the heap is grown and the new block is
taken. A heap that has not been created is first grown from nothing. -/
lemma malloc_cases {b0 size : Nat} {s : UserHeap} {live : List (Nat × Nat)} (hb0 : 0 < b0)
    (hlim : b0 < USER_STACK) (inv : UserInv b0 s live) (hsize : roundedSize size < 2147483648) :
    ∃ t chunks, UserRep b0 t chunks live ∧ t.bHeap = b0 ∧ (chunks = [] ∨ ∃ r, chunks = b0 :: r) ∧
      t.mem = s.mem ∧ t.obtained = s.obtained ∧
      ((∃ l c r, chunks = l ++ c :: r ∧ hdrUsed t.mem c = 0 ∧ roundedSize size ≤ hdrSize t.mem c ∧
          malloc s size = some (takenBlock t c (roundedSize size), c + 4)) ∨
        (∀ c ∈ chunks, hdrUsed t.mem c ≠ 0 ∨ hdrSize t.mem c < roundedSize size) ∧
          malloc s size = some (takenBlock (extendHeap t (roundedSize size)) t.eHeap
            (roundedSize size), t.eHeap + 4)) := by
  obtain ⟨hreal, h16, -, -⟩ := recordSize_eq hsize
  cases inv with
  | blank hb hk ho =>
    subst hk
    refine ⟨started s, [], ⟨⟨.nil, ?_, by simp, by simp, by simp⟩, by simp, rfl, ?_, ?_⟩, rfl,
      .inl rfl, rfl, rfl, .inr ⟨nofun, malloc_create hb hlim hsize⟩⟩
    · change s.kernelEHeap ≤ _
      simp only [USER_STACK] at hlim
      omega
    · change s.kernelEHeap = s.kernelEHeap + s.obtained
      rw [ho, Nat.add_zero]
    · exact hlim
  | heap hb rep =>
    rename_i r
    have hlen := rep.blocks.tiles.length_le
    have hend := rep.limit
    have hfuel : r.length + 1 < LOOP_MAX := by
      rw [loopMax_eq]
      simp only [List.length_cons, USER_STACK] at hlen hend
      omega
    simp only [USER_STACK] at hend
    have hb' : s.bHeap ≠ 0 := by
      rw [hb]
      exact Nat.pos_iff_ne_zero.1 hb0
    refine ⟨s, b0 :: r, rep, hb, .inr ⟨r, rfl⟩, rfl, rfl, ?_⟩
    rcases UserRep.search (l := []) (n := roundedSize size) rep hfuel with
      ⟨l', c, r', e, hfree, hfit, hs⟩ | ⟨hnone, k, hs⟩
    · left
      have hc : c ∈ b0 :: r := by
        have : c ∈ l' ++ c :: r' := by simp
        rwa [← e] at this
      obtain ⟨-, -, hle, -⟩ := rep.blocks.bounds hc
      refine ⟨l', c, r', e, hfree, hfit, ?_⟩
      rw [malloc, hreal, if_neg hb', hb, hs]
      change some (_, wrap (c + 4)) = _
      rw [wrap_of_lt (by omega)]
      rfl
    · refine .inr ⟨hnone, ?_⟩
      have hfresh : hdrUsed (extendHeap s (roundedSize size)).mem s.eHeap = 0 ∧
          hdrSize (extendHeap s (roundedSize size)).mem s.eHeap = roundedSize size := by
        rw [← rep.kernel]
        exact freshBlock_header hsize
      have hsearch : mallocSearch (roundedSize size) (k + 1) (extendHeap s (roundedSize size))
          s.eHeap = some (extendHeap s (roundedSize size), some s.eHeap) := by
        rw [mallocSearch, if_neg]
        rw [not_or, not_not, not_lt]
        exact ⟨hfresh.1, le_of_eq hfresh.2.symm⟩
      rw [malloc, hreal, if_neg hb', hb, hs, hsearch]
      change some (_, wrap (s.eHeap + 4)) = _
      rw [wrap_of_lt (by omega)]
      rfl

/-- A change of the memory that keeps the break only has to keep the tiling. -/
lemma UserRep.withMem {b0 : Nat} {s : UserHeap} {chunks chunks' : List Nat}
    {live live' : List (Nat × Nat)} {mem : Mem} (rep : UserRep b0 s chunks live)
    (blocks : Blocks mem b0 s.eHeap chunks' live')
    (aligned : ∀ c ∈ chunks', hdrSize mem c % 16 = 0) :
    UserRep b0 (s.withMem mem) chunks' live' := by
  refine ⟨?_, ?_, ?_, ?_, ?_⟩
  · rw [withMem_mem, withMem_eHeap]
    exact blocks
  · rw [withMem_mem]
    exact aligned
  · rw [withMem_kernelEHeap, withMem_eHeap]
    exact rep.kernel
  · rw [withMem_eHeap, withMem_obtained]
    exact rep.sbrk
  · rw [withMem_eHeap]
    exact rep.limit

/-- Taking a free block keeps the invariant, with a new allocation, and writes no byte of the others. -/
lemma UserRep.take {b0 c n size : Nat} {s : UserHeap} {l r : List Nat} {live : List (Nat × Nat)}
    (rep : UserRep b0 s (l ++ c :: r) live) (hfree : hdrUsed s.mem c = 0)
    (hfit : n ≤ hdrSize s.mem c) (h16 : 16 ≤ n) (hal : n % 16 = 0) (hsize : size + 4 ≤ n) :
    (∃ mid, UserRep b0 (takenBlock s c n) (l ++ c :: mid ++ r) ((c + 4, size) :: live)) ∧
      ∀ p k i, (p, k) ∈ live → i < k → (takenBlock s c n).mem (p + i) = s.mem (p + i) := by
  obtain ⟨⟨mid, hblocks, hcut, hsides⟩, hframe⟩ := rep.blocks.take hfree hfit h16 hsize rfl
  have hc16 := rep.aligned c (by simp)
  refine ⟨⟨mid, rep.withMem hblocks fun d hd => ?_⟩, fun p k i hp hi => ?_⟩
  rotate_left
  · rw [takenBlock, withMem_mem]
    exact rep.blocks.payload hfree hframe hp hi
  have hcases : d = c ∨ d ∈ mid ∨ d ∈ l ++ r := by
    simp only [List.mem_append, List.mem_cons] at hd ⊢
    tauto
  rcases hcases with rfl | hd | hd
  · rcases hcut with ⟨-, e⟩ | ⟨-, e, -⟩
    · rw [e]
      exact hc16
    · rw [e]
      exact hal
  · rcases hcut with ⟨rfl, -⟩ | ⟨rfl, -, e⟩
    · cases hd
    · cases List.mem_singleton.1 hd
      rw [e]
      omega
  · rw [hsides d hd]
    exact rep.aligned d (rep.blocks.mem_sides.1 hd).1

/-- A successful `malloc` keeps the invariant, with its result as a new allocation, and writes no byte
of an allocation. -/
lemma malloc_ok {b0 size p : Nat} {s s' : UserHeap} {live : List (Nat × Nat)} (hb0 : 0 < b0)
    (hlim : b0 < USER_STACK) (inv : UserInv b0 s live) (hsize : roundedSize size < 2147483648)
    (h : malloc s size = some (s', p)) (hbound : b0 + s'.obtained < USER_STACK) :
    UserInv b0 s' ((p, size) :: live) ∧
      ∀ q k i, (q, k) ∈ live → i < k → s'.mem (q + i) = s.mem (q + i) := by
  obtain ⟨-, h16, hroom, hal⟩ := recordSize_eq hsize
  obtain ⟨t, chunks, rep, hb, hfirst, hmem, hobt, hcases⟩ := malloc_cases hb0 hlim inv hsize
  rcases hcases with ⟨l, c, r, e, hfree, hfit, hm⟩ | ⟨-, hm⟩
  · rw [hm] at h
    cases h
    subst e
    obtain ⟨⟨mid, hrep⟩, hframe⟩ := rep.take hfree hfit h16 hal hroom
    refine ⟨?_, fun q k i hq hi => by rw [hframe q k i hq hi, hmem]⟩
    have hhead : ∃ r', l ++ c :: mid ++ r = b0 :: r' := by
      cases l with
      | nil =>
        rcases hfirst with h | ⟨r', h⟩
        · cases h
        · cases h
          exact ⟨_, rfl⟩
      | cons x l =>
        rcases hfirst with h | ⟨r', h⟩
        · cases h
        · cases h
          exact ⟨_, rfl⟩
    obtain ⟨r', hhead⟩ := hhead
    rw [hhead] at hrep
    exact .heap (by rw [takenBlock, withMem_bHeap, hb]) hrep
  · rw [hm] at h
    cases h
    rw [takenBlock, withMem_obtained, extendHeap_obtained] at hbound
    obtain ⟨hrep, hkeep⟩ := rep.extend h16 hal hsize hbound
    have hfresh : hdrUsed (extendHeap t (roundedSize size)).mem t.eHeap = 0 ∧
        hdrSize (extendHeap t (roundedSize size)).mem t.eHeap = roundedSize size := by
      rw [← rep.kernel]
      exact freshBlock_header hsize
    obtain ⟨⟨mid, hrep'⟩, hframe⟩ :=
      hrep.take hfresh.1 (le_of_eq hfresh.2.symm) h16 hal hroom
    refine ⟨?_, fun q k i hq hi => ?_⟩
    · have hhead : ∃ r', chunks ++ t.eHeap :: mid ++ [] = b0 :: r' := by
        rcases hfirst with rfl | ⟨r', rfl⟩
        · have hnil : b0 = t.eHeap := by
            have htiles := rep.blocks.tiles
            generalize t.eHeap = b at htiles
            cases htiles
            rfl
          exact ⟨_, by rw [hnil]; rfl⟩
        · exact ⟨_, rfl⟩
      obtain ⟨r', hhead⟩ := hhead
      rw [hhead] at hrep'
      exact .heap (by rw [takenBlock, withMem_bHeap, extendHeap_bHeap, hb]) hrep'
    · rw [hframe q k i hq hi, ← hmem]
      obtain ⟨c, hc, rfl, hk⟩ := rep.blocks.room q k hq
      obtain ⟨-, -, hle, -⟩ := rep.blocks.bounds hc
      exact hkeep _ (by omega)

/-- The size of the block that `free` puts together fits the 31 bits of a header. -/
def MergeFits (s : UserHeap) (vAddr : Nat) : Prop :=
  mergedSize s.eHeap LOOP_MAX s.mem (vAddr - 4) (hdrSize s.mem (vAddr - 4)) < 2147483648

/-- `free` of a live allocation succeeds when the merged block fits, keeps the invariant without that
allocation, and writes no byte of the others. -/
lemma free_ok {b0 p n : Nat} {s : UserHeap} {live : List (Nat × Nat)} (hb0 : 0 < b0)
    (inv : UserInv b0 s live) (hp : (p, n) ∈ live) (hfits : MergeFits s p) :
    ∃ s', free s p = some s' ∧ UserInv b0 s' (live.erase (p, n)) ∧
      ∀ q k i, (q, k) ∈ live.erase (p, n) → i < k → s'.mem (q + i) = s.mem (q + i) := by
  cases inv with
  | blank => cases hp
  | heap hb rep =>
    rename_i r₀
    obtain ⟨c, hc, rfl, hroom⟩ := rep.blocks.room p n hp
    obtain ⟨l, r, e⟩ := List.append_of_mem hc
    obtain ⟨hlo, h16, hle, hlim⟩ := rep.blocks.bounds hc
    have haligned := rep.aligned
    have hblocks := rep.blocks
    rw [e] at hblocks haligned
    have hlen := hblocks.tiles.length_le
    simp only [List.length_append, List.length_cons] at hlen
    have hfuel : r.length < LOOP_MAX := by
      rw [loopMax_eq]
      omega
    have hwrap : wrap (c + 4 + 4294967296 - 4) = c := by
      rw [wrap_eq]
      omega
    rw [MergeFits, Nat.add_sub_cancel] at hfits
    obtain ⟨m, r0, r', hm, rfl, hfree0, ht, -, hsz, hframe⟩ :=
      coalesce_ok hblocks.tiles (by omega) hlim hfuel hfits
    have hframe' : ∀ x, x < c ∨ c + 4 ≤ x → setUsed m c 0 x = s.mem x := by
      intro x hx
      rw [setUsed_other hx, hframe x hx]
    have hsep : ∀ d ∈ l ++ (r0 ++ r'), d + 4 ≤ c ∨ c + 4 ≤ d := by
      intro d hd
      rcases hblocks.header_apart hd with h | h
      · exact .inl h
      · exact .inr (by omega)
    have hsub : ∀ d ∈ l ++ r', d ∈ l ++ (r0 ++ r') := by
      intro d hd
      simp only [List.mem_append] at hd ⊢
      tauto
    have hsize : hdrSize (setUsed m c 0) c = hdrSize s.mem c + (r0.map (hdrSize s.mem)).sum := by
      rw [hdrSize_setUsed, hsz]
    have hsides : ∀ d ∈ l ++ c :: r', d = c ∨ d ∈ l ++ r' := by
      intro d hd
      simp only [List.mem_append, List.mem_cons] at hd ⊢
      tauto
    have htiles : Tiling 16 (hdrSize (setUsed m c 0)) b0 (l ++ c :: r') s.eHeap := by
      refine ht.congr fun d hd => ?_
      rcases hsides d hd with rfl | h
      · exact hdrSize_setUsed
      · exact (hdr_setUsed_other (hsep d (hsub d h))).1
    obtain ⟨hrep, hpay⟩ :=
      hblocks.free hp hfree0 htiles (hdrUsed_setUsed (by decide)) hframe'
    refine ⟨s.withMem (setUsed m c 0), ?_, ?_, fun q k i hq hi => ?_⟩
    · rw [free, hwrap, hm, UserHeap.withMem]
      rfl
    · have hrep' : UserRep b0 (s.withMem (setUsed m c 0)) (l ++ c :: r') (live.erase (c + 4, n)) := by
        refine rep.withMem hrep fun d hd => ?_
        rcases hsides d hd with rfl | h
        · rw [hsize]
          apply Nat.mod_eq_zero_of_dvd
          apply Nat.dvd_add (Nat.dvd_of_mod_eq_zero (haligned d (by simp)))
          apply List.dvd_sum
          intro x hx
          obtain ⟨d', hd', rfl⟩ := List.mem_map.1 hx
          exact Nat.dvd_of_mod_eq_zero (haligned d' (by simp [hd']))
        · have hkeep : hdrSize (setUsed m c 0) d = hdrSize s.mem d := by
            apply (hdr_congr _).1
            intro x h1 h2
            apply hframe'
            rcases hsep d (hsub d h) with h | h <;> omega
          rw [hkeep]
          exact haligned d (hblocks.mem_sides.1 (hsub d h)).1
      have hhead : ∃ r'', l ++ c :: r' = b0 :: r'' := by
        cases l with
        | nil =>
          cases e
          exact ⟨r', rfl⟩
        | cons x l =>
          cases e
          exact ⟨l ++ c :: r', rfl⟩
      obtain ⟨r'', hhead⟩ := hhead
      rw [hhead] at hrep'
      exact .heap (by rw [withMem_bHeap, hb]) hrep'
    · rw [withMem_mem]
      exact hpay q k i hq hi

/-- What a process does with its heap. -/
inductive UserOp where
  | malloc (size : Nat)
  | free (vAddr : Nat)
  | write (addr : Nat) (b : UInt8)

/-- One step of a process whose break starts at `b0`: a request whose rounded size a header can hold
and which leaves the total of `sbrk` below the stack, a free of a live allocation, or a write inside
one. -/
inductive UserStep (b0 : Nat) :
    UserHeap × List (Nat × Nat) → UserOp → UserHeap × List (Nat × Nat) → Prop where
  | malloc {s live size s' p} :
    roundedSize size < 2147483648 →
    malloc s size = some (s', p) →
    b0 + s'.obtained < USER_STACK →
    UserStep b0 (s, live) (.malloc size) (s', (p, size) :: live)
  | free {s live p n s'} :
    (p, n) ∈ live →
    free s p = some s' →
    UserStep b0 (s, live) (.free p) (s', live.erase (p, n))
  | write {s live p n i b} :
    (p, n) ∈ live →
    i < n →
    UserStep b0 (s, live) (.write (p + i) b) (s.withMem (Function.update s.mem (p + i) b), live)

/-- A step that frees no block whose merged size a header cannot hold. -/
def FittingStep (b0 : Nat) (x : UserHeap × List (Nat × Nat)) (op : UserOp)
    (y : UserHeap × List (Nat × Nat)) : Prop :=
  UserStep b0 x op y ∧ ∀ p, op = .free p → MergeFits x.1 p

/-- Every fitting step of a process keeps the invariant. -/
lemma UserInv.step {b0 : Nat} {x y : UserHeap × List (Nat × Nat)} {op : UserOp} (hb0 : 0 < b0)
    (hlim : b0 < USER_STACK) (inv : UserInv b0 x.1 x.2) (st : FittingStep b0 x op y) :
    UserInv b0 y.1 y.2 := by
  obtain ⟨st, hfits⟩ := st
  cases st with
  | malloc hsize h hbound => exact (malloc_ok hb0 hlim inv hsize h hbound).1
  | free hp h =>
    obtain ⟨s', e, hinv, -⟩ := free_ok hb0 inv hp (hfits _ rfl)
    rw [e] at h
    cases h
    exact hinv
  | write hp hi =>
    rename_i b
    cases inv with
    | blank => cases hp
    | heap hb rep =>
      obtain ⟨hblocks, hsize⟩ := rep.blocks.write (w := b) hp hi
      refine .heap (by rw [withMem_bHeap, hb]) (rep.withMem hblocks fun d hd => ?_)
      rw [hsize d hd]
      exact rep.aligned d hd

/-- What a process relies on: the state of its heap and the next call of each function. -/
structure UserHeapSafe (b0 : Nat) (s : UserHeap) (live : List (Nat × Nat)) : Prop where
  /-- Once the first `malloc` has created the heap, the walk from `b_heap` by `bl->size` lands on
  `e_heap`, in blocks of a positive multiple of 16 bytes, `e_heap` is the break of the kernel, the used
  blocks are the live allocations, and each of them has room for what was asked. -/
  walk : s.bHeap = 0 ∧ live = [] ∨ s.bHeap = b0 ∧ s.eHeap = s.kernelEHeap ∧
    ∃ chunks, Tiling MALLOC_MINSIZE (hdrSize s.mem) s.bHeap chunks s.eHeap ∧
      (∀ c ∈ chunks, hdrSize s.mem c % MALLOC_MINSIZE = 0) ∧
      (∀ c ∈ chunks, hdrUsed s.mem c ≠ 0 ↔ c + 4 ∈ live.map Prod.fst) ∧
      ∀ p n, (p, n) ∈ live → ∃ c ∈ chunks, p = c + 4 ∧ n + 4 ≤ hdrSize s.mem c
  distinct : (live.map Prod.fst).Nodup
  disjoint : ∀ p n q k i j, (p, n) ∈ live → (q, k) ∈ live → p ≠ q → i < n → j < k → p + i ≠ q + j
  /-- `malloc` returns, and not through its `BUG` exit. -/
  malloc_total : ∀ size, roundedSize size < 2147483648 →
    ∃ s' p, malloc s size = some (s', p) ∧ p ≠ MINUS_ONE
  /-- `malloc` writes no byte of a live allocation. -/
  malloc_frame : ∀ size s' r p n i, roundedSize size < 2147483648 → malloc s size = some (s', r) →
    b0 + s'.obtained < USER_STACK → (p, n) ∈ live → i < n → s'.mem (p + i) = s.mem (p + i)
  /-- `free` returns, and writes no byte of the allocations that stay live. -/
  free_frame : ∀ q k, (q, k) ∈ live → MergeFits s q →
    ∃ s', free s q = some s' ∧
      ∀ p n i, (p, n) ∈ live.erase (q, k) → i < n → s'.mem (p + i) = s.mem (p + i)

/-- The invariant of a process gives what it relies on. -/
lemma UserInv.safe {b0 : Nat} {s : UserHeap} {live : List (Nat × Nat)} (hb0 : 0 < b0)
    (hlim : b0 < USER_STACK) (inv : UserInv b0 s live) : UserHeapSafe b0 s live := by
  refine
    { walk := ?_
      distinct := ?_
      disjoint := ?_
      malloc_total := ?_
      malloc_frame := fun _ _ _ p n i hsize h hbound => (malloc_ok hb0 hlim inv hsize h hbound).2 p n i
      free_frame := ?_ }
  · cases inv with
    | blank hb => exact .inl ⟨hb, rfl⟩
    | heap hb rep =>
      refine .inr ⟨hb, rep.kernel.symm, _, ?_, rep.aligned, rep.blocks.used, rep.blocks.room⟩
      rw [hb]
      exact rep.blocks.tiles
  · cases inv with
    | blank => exact .nil
    | heap _ rep => exact rep.blocks.nodup
  · intro p n q k i j hp hq hne hi hj
    cases inv with
    | blank => cases hp
    | heap _ rep => exact rep.blocks.payload_disjoint hp hq hne hi hj
  · intro size hsize
    obtain ⟨t, chunks, rep, -, -, -, -, hcases⟩ := malloc_cases hb0 hlim inv hsize
    have hend := rep.limit
    simp only [USER_STACK] at hend
    rcases hcases with ⟨l, c, r, rfl, -, -, e⟩ | ⟨-, e⟩
    · obtain ⟨-, -, hle, -⟩ := rep.blocks.bounds (c := c) (by simp)
      exact ⟨_, _, e, by simp only [MINUS_ONE]; omega⟩
    · exact ⟨_, _, e, by simp only [MINUS_ONE]; omega⟩
  · intro q k hq hfits
    obtain ⟨s', e, -, hframe⟩ := free_ok hb0 inv hq hfits
    exact ⟨s', e, hframe⟩

/-- The heap of a process before its first request: the pointers of the library are zero and the break
is where the loader has put it. -/
def freshHeap (mem : Mem) (b0 : Nat) : UserHeap where
  mem := mem
  bHeap := 0
  eHeap := 0
  kernelEHeap := b0
  obtained := 0

/-- The heap of a process is safe after every run whose frees fit a header. -/
theorem user_heap_safe {b0 : Nat} {mem : Mem} {s : UserHeap} {ops : List UserOp}
    {live : List (Nat × Nat)} (hb0 : 0 < b0) (hlim : b0 < USER_STACK)
    (run : Run (FittingStep b0) (freshHeap mem b0, []) ops (s, live)) : UserHeapSafe b0 s live := by
  have init : UserInv b0 (freshHeap mem b0) [] := .blank rfl rfl rfl
  have inv : UserInv b0 s live :=
    run.invariant (I := fun x => UserInv b0 x.1 x.2) (fun _ _ _ inv st => inv.step hb0 hlim st) init
  exact inv.safe hb0 hlim

/-- The heap of a process is safe after a request of ten bytes. -/
theorem user_heap_safe_ten : ∃ s, UserHeapSafe 0x40001000 s [(0x40001004, 10)] := by
  have e : malloc (freshHeap (fun _ => 0) 0x40001000) 10 = _ :=
    malloc_create rfl (by decide) (by decide)
  obtain ⟨s, st⟩ : ∃ s, FittingStep 0x40001000 (freshHeap (fun _ => 0) 0x40001000, []) (.malloc 10)
      (s, [(0x40001004, 10)]) := by
    refine ⟨_, .malloc (by decide) e ?_, nofun⟩
    rw [takenBlock, withMem_obtained, extendHeap_obtained]
    decide
  exact ⟨s, user_heap_safe (by decide) (by decide) (.snoc .nil st)⟩

section Truncated

/-- The state after the heap was grown by one block that was then taken whole. -/
structure GrownBy (t u : UserHeap) (n : Nat) : Prop where
  bHeap : u.bHeap = t.bHeap
  eHeap : u.eHeap = t.eHeap + n
  kernel : u.kernelEHeap = u.eHeap
  obtained : u.obtained = t.obtained + n
  size : hdrSize u.mem t.eHeap = n
  used : hdrUsed u.mem t.eHeap = 1
  frame : ∀ x, x < t.eHeap ∨ t.eHeap + 4 ≤ x → u.mem x = t.mem x

/-- A request that grows the heap takes the new block whole. -/
lemma grownBy_taken {t : UserHeap} {n : Nat} (hn : n < 2147483648)
    (hk : t.kernelEHeap = t.eHeap) (hlim : t.eHeap + n < 4294967296) :
    GrownBy t (takenBlock (extendHeap t n) t.eHeap n) n := by
  have hfresh : (extendHeap t n).mem = freshBlock t.mem t.eHeap n := by
    rw [← hk]
    rfl
  obtain ⟨-, hsz⟩ := freshBlock_header (m := t.mem) (a := t.eHeap) hn
  have hmem : (takenBlock (extendHeap t n) t.eHeap n).mem =
      setUsed (freshBlock t.mem t.eHeap n) t.eHeap 1 := by
    rw [takenBlock, withMem_mem, hfresh, takeChunk_whole (le_of_eq hsz.symm) (by omega)]
  have hend : wrap (t.kernelEHeap + n) = t.eHeap + n := by
    rw [hk]
    exact wrap_of_lt hlim
  refine ⟨?_, ?_, ?_, ?_, ?_, ?_, fun x hx => ?_⟩
  · rw [takenBlock, withMem_bHeap, extendHeap_bHeap]
  · rw [takenBlock, withMem_eHeap]
    exact hend
  · rw [takenBlock, withMem_eHeap, withMem_kernelEHeap]
    rfl
  · rw [takenBlock, withMem_obtained, extendHeap_obtained]
  · rw [hmem, hdrSize_setUsed, hsz]
  · rw [hmem, hdrUsed_setUsed (by decide)]
  · rw [hmem, setUsed_other hx, freshBlock, setUsed_other hx, setSize_other hx]

/-- The merge loop never ends on a header of size zero. -/
lemma coalesce_stuck {b fuel c : Nat} {m : Mem} (hend : c + hdrSize m c < b) (hb : b < 4294967296)
    (h4 : 4 ≤ hdrSize m c) (hzero : load32 m (c + hdrSize m c) = 0) :
    coalesce b fuel m c = .error .fuel := by
  induction fuel generalizing m with
  | zero => rfl
  | succ fuel ih =>
    have hsize : hdrSize m (c + hdrSize m c) = 0 := by rw [hdrSize, hzero]
    have hused : hdrUsed m (c + hdrSize m c) = 0 := by rw [hdrUsed, hzero]
    have hkeep : hdrSize (setSize m c (hdrSize m c + 0)) c = hdrSize m c :=
      hdrSize_setSize (hdrSize_lt m c)
    rw [coalesce]
    simp only [wrap_of_lt (lt_trans hend hb), hsize]
    rw [if_pos ⟨by omega, hend, hused⟩]
    refine ih ?_ ?_ ?_
    · rw [hkeep]
      exact hend
    · rw [hkeep]
      exact h4
    · rw [hkeep, load32_congr fun x hx _ => setSize_other (.inr (by omega)), hzero]

/-- A request when the only block is used: the heap grows. -/
lemma malloc_full {s : UserHeap} {size : Nat} (hb : s.bHeap ≠ 0)
    (hused : hdrUsed s.mem s.bHeap ≠ 0) (hend : s.bHeap + hdrSize s.mem s.bHeap = s.eHeap)
    (hk : s.kernelEHeap = s.eHeap) (hlim : s.eHeap < USER_STACK)
    (hsize : roundedSize size < 2147483648) :
    malloc s size = some (takenBlock (extendHeap s (roundedSize size)) s.eHeap (roundedSize size),
      s.eHeap + 4) := by
  obtain ⟨hreal, -, -, -⟩ := recordSize_eq hsize
  simp only [USER_STACK] at hlim
  obtain ⟨k, hmax⟩ : ∃ k, LOOP_MAX = k + 1 + 1 := ⟨4294967294, loopMax_eq⟩
  have hfresh : hdrUsed (extendHeap s (roundedSize size)).mem s.eHeap = 0 ∧
      hdrSize (extendHeap s (roundedSize size)).mem s.eHeap = roundedSize size := by
    rw [← hk]
    exact freshBlock_header hsize
  have hsearch : mallocSearch (roundedSize size) LOOP_MAX s s.bHeap =
      some (extendHeap s (roundedSize size), some s.eHeap) := by
    rw [hmax, mallocSearch, if_pos (.inl hused), hend, wrap_of_lt (by omega), if_pos rfl, hk,
      mallocSearch, if_neg]
    rw [not_or, not_not, not_lt]
    exact ⟨hfresh.1, le_of_eq hfresh.2.symm⟩
  rw [malloc, hreal, if_neg hb, hsearch]
  change some (_, wrap (s.eHeap + 4)) = _
  rw [wrap_of_lt (by omega)]
  rfl

/-- The last block of the heap has nothing to be joined to. -/
lemma free_last {s : UserHeap} {c : Nat} (hend : c + hdrSize s.mem c = s.eHeap)
    (hlim : s.eHeap < USER_STACK) : free s (c + 4) = some (s.withMem (setUsed s.mem c 0)) := by
  simp only [USER_STACK] at hlim
  obtain ⟨k, hmax⟩ : ∃ k, LOOP_MAX = k + 1 := ⟨4294967295, loopMax_eq⟩
  have hwrap : wrap (c + 4 + 4294967296 - 4) = c := by
    rw [wrap_eq]
    omega
  have hm : coalesce s.eHeap LOOP_MAX s.mem c = .ok s.mem := by
    rw [hmax, coalesce, hend, wrap_of_lt (by omega)]
    simp only [lt_irrefl, false_and, and_false, if_false]
  rw [free, hwrap, hm, UserHeap.withMem]
  rfl

/-- A free block of 0x48000000 bytes behind one of the same size makes the size of the merged block
2^31 too small, and the merge loop goes on inside it. -/
lemma free_truncated {s : UserHeap} {c : Nat} (hc : c < 0x50000000)
    (hend : s.eHeap = c + 0x90000000) (hsize : hdrSize s.mem c = 0x48000000)
    (hnext : hdrSize s.mem (c + 0x48000000) = 0x48000000)
    (hfree : hdrUsed s.mem (c + 0x48000000) = 0)
    (hzero : load32 s.mem (c + 0x10000000) = 0) : free s (c + 4) = none := by
  obtain ⟨k, hmax⟩ : ∃ k, LOOP_MAX = k + 1 := ⟨4294967295, loopMax_eq⟩
  have hwrap : wrap (c + 4 + 4294967296 - 4) = c := by
    rw [wrap_eq]
    omega
  have htrunc : hdrSize (setSize s.mem c (0x48000000 + 0x48000000)) c = 0x10000000 := by
    have := hdrUsed_lt s.mem c
    rw [hdrSize, setSize, load32_store32]
    omega
  have hm : coalesce s.eHeap LOOP_MAX s.mem c = .error .fuel := by
    rw [hmax, coalesce, hsize, wrap_of_lt (by omega)]
    rw [if_pos ⟨by omega, by omega, hfree⟩, hnext]
    refine coalesce_stuck ?_ (by omega) ?_ ?_
    · rw [htrunc]
      omega
    · rw [htrunc]
      decide
    · rw [htrunc, load32_congr fun x hx _ => setSize_other (.inr (by omega)), hzero]
  rw [free, hwrap, hm]
  rfl

/-- The run of two requests of 0x47FFFFFC bytes, after which the second block is given back. -/
lemma two_blocks {mem : Mem} {b0 : Nat} (hb0 : 0 < b0) (hlim : b0 < 0x50000000)
    (hzero : load32 mem (b0 + 0x10000000) = 0) :
    ∃ s, Run (UserStep b0) (freshHeap mem b0, [])
      [.malloc 0x47FFFFFC, .malloc 0x47FFFFFC, .free (b0 + 0x48000000 + 4)]
      (s, [(b0 + 4, 0x47FFFFFC)]) ∧ free s (b0 + 4) = none := by
  have hsize : roundedSize 0x47FFFFFC = 0x48000000 := by decide
  have hlt : roundedSize 0x47FFFFFC < 2147483648 := by decide
  have e1 : malloc (freshHeap mem b0) 0x47FFFFFC =
      some (takenBlock (extendHeap (started (freshHeap mem b0)) _) b0 _, b0 + 4) :=
    malloc_create rfl (lt_trans hlim (by decide)) hlt
  have hend0 : (started (freshHeap mem b0)).eHeap = b0 := rfl
  have h1 := grownBy_taken (t := started (freshHeap mem b0)) (n := 0x48000000) (by decide) rfl
    (by rw [hend0]; omega)
  rw [hend0] at h1
  rw [hsize] at e1
  have hb1 : (started (freshHeap mem b0)).bHeap = b0 := rfl
  have ho1 : (started (freshHeap mem b0)).obtained = 0 := rfl
  have hm1 : (started (freshHeap mem b0)).mem = mem := rfl
  generalize takenBlock (extendHeap (started (freshHeap mem b0)) 0x48000000) b0 0x48000000 = s1
    at e1 h1
  obtain ⟨hb, he, hk, ho, hs, hu, hf⟩ := h1
  rw [hend0] at he hs hu hf
  rw [hb1] at hb
  rw [ho1] at ho
  have e2 : malloc s1 0x47FFFFFC = _ :=
    malloc_full (by omega) (by rw [hb, hu]; decide) (by rw [hb, hs, he]) hk
      (by rw [he]; simp only [USER_STACK]; omega) hlt
  rw [hsize] at e2
  have h2 := grownBy_taken (t := s1) (n := 0x48000000) (by decide) hk (by omega)
  generalize takenBlock (extendHeap s1 0x48000000) s1.eHeap 0x48000000 = s2 at e2 h2
  rw [he] at e2
  obtain ⟨-, he2, -, ho2, hs2, hu2, hf2⟩ := h2
  rw [he] at he2 hs2 hu2 hf2
  have e3 : free s2 (b0 + 0x48000000 + 4) = _ :=
    free_last (by rw [hs2, he2]) (by rw [he2]; simp only [USER_STACK]; omega)
  refine ⟨s2.withMem (setUsed s2.mem (b0 + 0x48000000) 0), ?_, ?_⟩
  · have st1 : UserStep b0 (freshHeap mem b0, []) (.malloc 0x47FFFFFC)
        (s1, [(b0 + 4, 0x47FFFFFC)]) :=
      .malloc hlt e1 (by rw [ho]; simp only [USER_STACK]; omega)
    have st2 : UserStep b0 (s1, [(b0 + 4, 0x47FFFFFC)]) (.malloc 0x47FFFFFC)
        (s2, [(b0 + 0x48000000 + 4, 0x47FFFFFC), (b0 + 4, 0x47FFFFFC)]) :=
      .malloc hlt e2 (by rw [ho2, ho]; simp only [USER_STACK]; omega)
    have st3 : UserStep b0 (s2, [(b0 + 0x48000000 + 4, 0x47FFFFFC), (b0 + 4, 0x47FFFFFC)])
        (.free (b0 + 0x48000000 + 4)) (s2.withMem (setUsed s2.mem (b0 + 0x48000000) 0),
          [(b0 + 0x48000000 + 4, 0x47FFFFFC), (b0 + 4, 0x47FFFFFC)].erase
            (b0 + 0x48000000 + 4, 0x47FFFFFC)) :=
      .free (by simp) e3
    rw [List.erase_cons_head] at st3
    exact .snoc (.snoc (.snoc .nil st1) st2) st3
  · have hb0size : hdrSize s2.mem b0 = 0x48000000 := by
      rw [(hdr_congr fun x _ hx => hf2 x (.inl (by omega))).1, hs]
    have hapart : b0 + 4 ≤ b0 + 0x48000000 ∨ b0 + 0x48000000 + 4 ≤ b0 := .inl (by omega)
    refine free_truncated hlim ?_ ?_ ?_ ?_ ?_
    · rw [withMem_eHeap]
      exact he2.trans (Nat.add_assoc b0 0x48000000 0x48000000)
    · rw [withMem_mem, (hdr_setUsed_other hapart).1, hb0size]
    · rw [withMem_mem, hdrSize_setUsed, hs2]
    · rw [withMem_mem, hdrUsed_setUsed (by decide)]
    · have hbelow : ∀ x, x < b0 + 0x10000000 + 4 → x < b0 + 0x48000000 := by
        intro x hx
        rw [Nat.add_assoc] at hx
        exact lt_of_lt_of_le hx (Nat.add_le_add_left (by decide) _)
      have habove : ∀ x, b0 + 0x10000000 ≤ x → b0 + 4 ≤ x :=
        fun x hx => le_trans (Nat.add_le_add_left (by decide) _) hx
      rw [hm1] at hf
      rw [withMem_mem, ← hzero]
      apply load32_congr
      intro x hlo hhi
      rw [setUsed_other (.inl (hbelow x hhi)), hf2 x (.inl (hbelow x hhi)),
        hf x (.inr (habove x hlo))]

/-- A process takes two blocks of 0x47FFFFFC bytes and gives the second back. The `free` of the first
never returns. Before the first request, `e_heap` is not the break of the kernel. -/
theorem merged_block_truncated :
    (freshHeap (fun _ => 0) 0x40001000).eHeap ≠ (freshHeap (fun _ => 0) 0x40001000).kernelEHeap ∧
    ∃ s, Run (UserStep 0x40001000) (freshHeap (fun _ => 0) 0x40001000, [])
      [.malloc 0x47FFFFFC, .malloc 0x47FFFFFC, .free 0x88001004] (s, [(0x40001004, 0x47FFFFFC)]) ∧
      free s 0x40001004 = none :=
  ⟨by decide, two_blocks (by decide) (by decide) rfl⟩

end Truncated

end Creeks
