import Creeks.Kmalloc.Heap

/-!
# Heaps divided by their headers

Both heaps of the system, the kernel's and that of a process, keep a one-word header in front of each
record. `Blocks m a b chunks live` is the invariant they share: the headers tile `[a, b)` as
`chunks`, the used ones are those of the allocations `live`, and each is large enough for its
allocation. The lemmas are the edits of an allocator: a free block at the end (`Blocks.grow`), a free
block taken whole or cut in two (`Blocks.take`), and an allocation given back, its block joined to the
free ones behind it (`coalesce_ok`, `Blocks.free`).
-/

namespace Creeks
open Lib

/-- The headers tile `[a, b)`, and the used blocks are the live allocations. -/
structure Blocks (m : Mem) (a b : Nat) (chunks : List Nat) (live : List (Nat × Nat)) : Prop where
  tiles : Tiling 16 (hdrSize m) a chunks b
  limit : b ≤ 4294963200
  nodup : (live.map Prod.fst).Nodup
  used : ∀ c ∈ chunks, (hdrUsed m c ≠ 0 ↔ c + 4 ∈ live.map Prod.fst)
  room : ∀ p n, (p, n) ∈ live → ∃ c ∈ chunks, p = c + 4 ∧ n + 4 ≤ hdrSize m c

/-- The size the merge loop gives to the block at `chunk`, whose size so far is `size`. -/
def mergedSize (heapEnd : Nat) : Nat → Mem → Nat → Nat → Nat
  | 0, _, _, size => size
  | fuel + 1, m, chunk, size =>
    if chunk + size < heapEnd ∧ hdrUsed m (chunk + size) = 0 then
      mergedSize heapEnd fuel m chunk (size + hdrSize m (chunk + size))
    else size

section Merge

variable {b fuel c size : Nat} {m m' : Mem}

/-- Merging only makes a block larger. -/
lemma le_mergedSize : size ≤ mergedSize b fuel m c size := by
  induction fuel generalizing size with
  | zero => exact le_refl _
  | succ fuel ih =>
    rw [mergedSize]
    split
    · exact le_trans (Nat.le_add_right _ _) ih
    · exact le_refl _

/-- The merged size only depends on the headers behind the block. -/
lemma mergedSize_congr (h : ∀ x, c + size ≤ x → m' x = m x) :
    mergedSize b fuel m' c size = mergedSize b fuel m c size := by
  induction fuel generalizing size with
  | zero => rfl
  | succ fuel ih =>
    obtain ⟨h1, h2⟩ := hdr_congr (a := c + size) fun x hx _ => h x hx
    rw [mergedSize, mergedSize, h1, h2, ih fun x hx => h x (by omega)]

/-- A block merged with others of its tiling stays inside it. -/
lemma mergedSize_le {r : List Nat} (tiles : Tiling 16 (hdrSize m) (c + size) r b) :
    c + mergedSize b fuel m c size ≤ b := by
  induction fuel generalizing size r with
  | zero => exact tiles.le
  | succ fuel ih =>
    rw [mergedSize]
    split
    case isTrue h =>
      cases tiles with
      | nil => exact absurd h.1 (lt_irrefl _)
      | cons _ ht =>
        rw [Nat.add_assoc] at ht
        exact ih ht
    case isFalse => exact tiles.le

end Merge

namespace Blocks

variable {m m' : Mem} {a b c n size : Nat} {chunks l r : List Nat} {live : List (Nat × Nat)}

/-- A block lies between the ends of the heap. -/
lemma bounds (blocks : Blocks m a b chunks live) (hc : c ∈ chunks) :
    a ≤ c ∧ 16 ≤ hdrSize m c ∧ c + hdrSize m c ≤ b ∧ b ≤ 4294963200 := by
  obtain ⟨h1, h2, h3⟩ := blocks.tiles.mem_bounds hc
  exact ⟨h1, h2, h3, blocks.limit⟩

/-- The block after `c` is the next one of the tiling, or `c` is the last. -/
lemma next (blocks : Blocks m a b (l ++ c :: r) live) :
    (r = [] ∧ c + hdrSize m c = b) ∨ ∃ d r', r = d :: r' ∧ c + hdrSize m c = d := by
  obtain ⟨-, -, h⟩ := blocks.tiles.split_at
  cases h with
  | nil => exact .inl ⟨rfl, rfl⟩
  | cons _ _ => exact .inr ⟨_, _, rfl, rfl⟩

/-- A block other than `c` lies on one side of it. -/
lemma apart (blocks : Blocks m a b (l ++ c :: r) live) {d : Nat} (hd : d ∈ l ++ c :: r)
    (hne : d ≠ c) : d + hdrSize m d ≤ c ∨ c + hdrSize m c ≤ d :=
  blocks.tiles.disjoint hd (by simp) hne

/-- The blocks on both sides of `c` are the blocks other than `c`. -/
lemma mem_sides (blocks : Blocks m a b (l ++ c :: r) live) {d : Nat} :
    d ∈ l ++ r ↔ d ∈ l ++ c :: r ∧ d ≠ c := by
  have hnd := blocks.tiles.nodup (by decide)
  rw [List.nodup_middle, List.nodup_cons] at hnd
  simp only [List.mem_append, List.mem_cons] at hnd ⊢
  constructor
  · rintro h
    refine ⟨by tauto, ?_⟩
    rintro rfl
    exact hnd.1 h
  · tauto

/-- The header of another block does not overlap `c`. -/
lemma header_apart (blocks : Blocks m a b (l ++ c :: r) live) {d : Nat} (hd : d ∈ l ++ r) :
    d + 4 ≤ c ∨ c + hdrSize m c ≤ d := by
  obtain ⟨hd', hne⟩ := blocks.mem_sides.1 hd
  obtain ⟨-, hd16, -, -⟩ := blocks.bounds hd'
  rcases blocks.apart hd' hne with h | h
  · exact .inl (by omega)
  · exact .inr h

/-- A write that stays inside a free block touches no byte of an allocation. -/
lemma payload (blocks : Blocks m a b (l ++ c :: r) live) (hfree : hdrUsed m c = 0)
    (hm : ∀ x, x < c ∨ c + hdrSize m c ≤ x → m' x = m x) {p k i : Nat}
    (hp : (p, k) ∈ live) (hi : i < k) : m' (p + i) = m (p + i) := by
  obtain ⟨d, hd, rfl, hroom⟩ := blocks.room p k hp
  have hne : d ≠ c := by
    rintro rfl
    exact (blocks.used d hd).2 (List.mem_map_of_mem hp) hfree
  apply hm
  rcases blocks.apart hd hne with h | h <;> omega

/-- A free block of `n` bytes is appended at the end. -/
lemma grow (blocks : Blocks m a b chunks live) (h16 : 16 ≤ n) (hn : n < 2147483648)
    (hlim : b + n ≤ 4294963200) (hm : m' = setUsed (setSize m b n) b 0) :
    Blocks m' a (b + n) (chunks ++ [b]) live ∧ hdrUsed m' b = 0 ∧ hdrSize m' b = n ∧
      ∀ x, x < b → m' x = m x := by
  have hold : ∀ c ∈ chunks, hdrSize m' c = hdrSize m c ∧ hdrUsed m' c = hdrUsed m c := by
    intro c hc
    obtain ⟨-, hc16, hle, -⟩ := blocks.bounds hc
    have hsep : c + 4 ≤ b ∨ b + 4 ≤ c := .inl (by omega)
    obtain ⟨h1, h2⟩ := hdr_setSize_other (m := m) (n := n) hsep
    obtain ⟨h3, h4⟩ := hdr_setUsed_other (m := setSize m b n) (u := 0) hsep
    rw [hm]
    exact ⟨h3.trans h1, h4.trans h2⟩
  have hsz : hdrSize m' b = n := by rw [hm, hdrSize_setUsed, hdrSize_setSize hn]
  have hus : hdrUsed m' b = 0 := by rw [hm, hdrUsed_setUsed (by decide)]
  refine ⟨⟨?_, hlim, blocks.nodup, ?_, ?_⟩, hus, hsz, fun x hx => ?_⟩
  · have htiles : Tiling 16 (hdrSize m') a (chunks ++ [b]) (b + hdrSize m' b) :=
      blocks.tiles.grow (fun c hc => (hold c hc).1) (by rw [hsz]; exact h16)
    rwa [hsz] at htiles
  · intro c hc
    rcases List.mem_append.1 hc with hc | hc
    · rw [(hold c hc).2]
      exact blocks.used c hc
    · cases List.mem_singleton.1 hc
      refine ⟨fun h => absurd hus h, fun h => ?_⟩
      obtain ⟨⟨p, k⟩, hp, e⟩ := List.mem_map.1 h
      obtain ⟨c', hc', e', -⟩ := blocks.room p k hp
      obtain ⟨-, hc16, hle, -⟩ := blocks.bounds hc'
      change p = b + 4 at e
      omega
  · intro p k hp
    obtain ⟨c, hc, e, hsize⟩ := blocks.room p k hp
    exact ⟨c, List.mem_append_left _ hc, e, by rw [(hold c hc).1]; exact hsize⟩
  · rw [hm, setUsed_other (.inl hx), setSize_other (.inl hx)]

/-- The blocks around `c` when their headers are kept and `c` becomes the blocks `mid`, the first of
which is `c` itself, used by a new allocation of `size` bytes. -/
lemma alloc (blocks : Blocks m a b (l ++ c :: r) live) (hfree : hdrUsed m c = 0) {mid : List Nat}
    (htiles : Tiling 16 (hdrSize m') a (l ++ c :: mid ++ r) b)
    (hkeep : ∀ d ∈ l ++ r, hdrSize m' d = hdrSize m d ∧ hdrUsed m' d = hdrUsed m d)
    (hused : hdrUsed m' c ≠ 0) (hsize : size + 4 ≤ hdrSize m' c)
    (hmid : ∀ d ∈ mid, hdrUsed m' d = 0 ∧ c < d ∧ d < c + hdrSize m c) :
    Blocks m' a b (l ++ c :: mid ++ r) ((c + 4, size) :: live) := by
  have hnew : c + 4 ∉ live.map Prod.fst := fun h => (blocks.used c (by simp)).2 h hfree
  have hold : ∀ p k, (p, k) ∈ live → ∃ d ∈ l ++ r, p = d + 4 ∧ k + 4 ≤ hdrSize m d := by
    intro p k hp
    obtain ⟨d, hd, e, hroom⟩ := blocks.room p k hp
    refine ⟨d, blocks.mem_sides.2 ⟨hd, ?_⟩, e, hroom⟩
    rintro rfl
    subst e
    exact hnew (List.mem_map_of_mem hp)
  refine ⟨htiles, blocks.limit, ?_, ?_, ?_⟩
  · exact List.nodup_cons.2 ⟨hnew, blocks.nodup⟩
  · intro d hd
    have hcases : d = c ∨ d ∈ mid ∨ d ∈ l ++ r := by
      simp only [List.mem_append, List.mem_cons] at hd ⊢
      tauto
    rcases hcases with rfl | hd | hd
    · exact ⟨fun _ => by simp, fun _ => hused⟩
    · obtain ⟨h0, hlt, hgt⟩ := hmid d hd
      refine ⟨fun h => absurd h0 h, fun h => ?_⟩
      -- a free block cut out of `c` starts where no allocation does
      obtain ⟨⟨p, k⟩, hp, e⟩ := List.mem_map.1 h
      change p = d + 4 at e
      rcases List.mem_cons.1 hp with hp | hp
      · cases hp
        omega
      · obtain ⟨d', hd', e', -⟩ := hold p k hp
        obtain ⟨hmem, hne⟩ := blocks.mem_sides.1 hd'
        obtain ⟨-, h16, -, -⟩ := blocks.bounds hmem
        rcases blocks.apart hmem hne with h | h <;> omega
    · obtain ⟨hd', hne⟩ := blocks.mem_sides.1 hd
      rw [(hkeep d hd).2, blocks.used d hd']
      simp only [List.map_cons, List.mem_cons]
      refine ⟨.inr, fun h => h.resolve_left (by omega)⟩
  · intro p k hp
    rcases List.mem_cons.1 hp with hp | hp
    · cases hp
      exact ⟨c, by simp, rfl, hsize⟩
    · obtain ⟨d, hd, e, hroom⟩ := hold p k hp
      refine ⟨d, ?_, e, by rw [(hkeep d hd).1]; exact hroom⟩
      simp only [List.mem_append, List.mem_cons] at hd ⊢
      tauto

/-- Taking a free block that is large enough makes it the allocation of its payload. The blocks stay
those of before, with the cut-off rest of the block added if there is one. -/
lemma take (blocks : Blocks m a b (l ++ c :: r) live) {realsize : Nat} (hfree : hdrUsed m c = 0)
    (hfit : realsize ≤ hdrSize m c) (h16 : 16 ≤ realsize) (hsize : size + 4 ≤ realsize)
    (hm : m' = takeChunk m c realsize) :
    (∃ mid, Blocks m' a b (l ++ c :: mid ++ r) ((c + 4, size) :: live) ∧
      (mid = [] ∧ hdrSize m' c = hdrSize m c ∨
        mid = [c + realsize] ∧ hdrSize m' c = realsize ∧
          hdrSize m' (c + realsize) = hdrSize m c - realsize) ∧
      ∀ d ∈ l ++ r, hdrSize m' d = hdrSize m d) ∧
      ∀ x, x < c ∨ c + hdrSize m c ≤ x → m' x = m x := by
  obtain ⟨hlo, hc16, hle, hlim⟩ := blocks.bounds (c := c) (by simp)
  have hsep := fun d hd => blocks.header_apart (d := d) hd
  by_cases hrest : hdrSize m c - realsize < 16
  · have e : m' = setUsed m c 1 := hm.trans (takeChunk_whole hfit hrest)
    have hframe : ∀ x, x < c ∨ c + 4 ≤ x → m' x = m x := by
      intro x hx
      rw [e, setUsed_other hx]
    have hkeep : ∀ d ∈ l ++ r, hdrSize m' d = hdrSize m d ∧ hdrUsed m' d = hdrUsed m d := by
      intro d hd
      apply hdr_congr
      intro x h1 h2
      apply hframe
      rcases hsep d hd with h | h <;> omega
    have hszc : hdrSize m' c = hdrSize m c := by rw [e, hdrSize_setUsed]
    have hsizes : ∀ d ∈ l ++ c :: r, hdrSize m' d = hdrSize m d := by
      intro d hd
      by_cases h : d = c
      · rw [h, hszc]
      · exact (hkeep d (blocks.mem_sides.2 ⟨hd, h⟩)).1
    have htiles : Tiling 16 (hdrSize m') a (l ++ c :: [] ++ r) b := by
      simpa using blocks.tiles.congr hsizes
    refine ⟨⟨[], blocks.alloc hfree htiles hkeep ?_ ?_ (by simp), .inl ⟨rfl, hszc⟩,
      fun d hd => (hkeep d hd).1⟩, fun x hx => hframe x ?_⟩
    · rw [e, hdrUsed_setUsed (by decide)]
      decide
    · omega
    · omega
  · have hend : c + hdrSize m c ≤ 4294967296 := by omega
    have hroom : realsize + 16 ≤ hdrSize m c := by omega
    obtain ⟨h1, h2, h3, h4, h5⟩ := takeChunk_split hend h16 hroom
    rw [← hm] at h1 h2 h3 h4 h5
    have hkeep : ∀ d ∈ l ++ r, hdrSize m' d = hdrSize m d ∧ hdrUsed m' d = hdrUsed m d := by
      intro d hd
      apply hdr_congr
      intro x hx1 hx2
      apply h5 <;> rcases hsep d hd with h | h <;> omega
    have hcut : Tiling 16 (hdrSize m') a (l ++ c :: (c + realsize) :: r) b :=
      blocks.tiles.split (fun d hd => (hkeep d (List.mem_append_left _ hd)).1)
        (fun d hd => (hkeep d (List.mem_append_right _ hd)).1) h1 h3 h16 (by omega) (by omega)
    have htiles : Tiling 16 (hdrSize m') a (l ++ c :: [c + realsize] ++ r) b := by
      simpa using hcut
    refine ⟨⟨[c + realsize], blocks.alloc hfree htiles hkeep ?_ ?_ ?_, .inr ⟨rfl, h1, h3⟩,
      fun d hd => (hkeep d hd).1⟩, fun x hx => ?_⟩
    · rw [h2]
      decide
    · omega
    · intro d hd
      cases List.mem_singleton.1 hd
      exact ⟨h4, by omega, by omega⟩
    · apply h5 <;> omega

/-- An allocation is given back: its block, now free, has swallowed the free blocks `r0`. -/
lemma free {r0 r' : List Nat} (blocks : Blocks m a b (l ++ c :: (r0 ++ r')) live)
    (hp : (c + 4, n) ∈ live) (hfree0 : ∀ d ∈ r0, hdrUsed m d = 0)
    (htiles : Tiling 16 (hdrSize m') a (l ++ c :: r') b) (hfree : hdrUsed m' c = 0)
    (hframe : ∀ x, x < c ∨ c + 4 ≤ x → m' x = m x) :
    Blocks m' a b (l ++ c :: r') (live.erase (c + 4, n)) ∧
      ∀ q k i, (q, k) ∈ live.erase (c + 4, n) → i < k → m' (q + i) = m (q + i) := by
  have hndlive : live.Nodup := List.Nodup.of_map _ blocks.nodup
  have h16 := (blocks.bounds (c := c) (by simp)).2.1
  have hkeep : ∀ d ∈ l ++ (r0 ++ r'), hdrSize m' d = hdrSize m d ∧ hdrUsed m' d = hdrUsed m d := by
    intro d hd
    apply hdr_congr
    intro x h1 h2
    apply hframe
    rcases blocks.header_apart hd with h | h <;> omega
  have hother : ∀ q k, (q, k) ∈ live.erase (c + 4, n) → (q, k) ∈ live ∧ q ≠ c + 4 := by
    intro q k hq
    obtain ⟨hne, hmem⟩ := hndlive.mem_erase_iff.1 hq
    refine ⟨hmem, ?_⟩
    rintro rfl
    exact hne (List.inj_on_of_nodup_map blocks.nodup hmem hp rfl)
  refine ⟨⟨htiles, blocks.limit, (List.erase_sublist.map _).nodup blocks.nodup, ?_, ?_⟩, ?_⟩
  · intro d hd
    by_cases hdc : d = c
    · subst hdc
      refine ⟨fun h => absurd hfree h, fun h => ?_⟩
      obtain ⟨⟨q, k⟩, hq, e'⟩ := List.mem_map.1 h
      exact absurd e' (hother q k hq).2
    · have hd' : d ∈ l ++ (r0 ++ r') := by
        rcases List.mem_append.1 hd with h | h
        · exact List.mem_append_left _ h
        · exact List.mem_append_right _ (List.mem_append_right _
            ((List.mem_cons.1 h).resolve_left hdc))
      rw [(hkeep d hd').2, blocks.used d (blocks.mem_sides.1 hd').1]
      constructor
      · intro h
        obtain ⟨⟨q, k⟩, hq, e'⟩ := List.mem_map.1 h
        refine List.mem_map.2 ⟨(q, k), hndlive.mem_erase_iff.2 ⟨?_, hq⟩, e'⟩
        rintro e''
        cases e''
        exact hdc (by simpa using e'.symm)
      · intro h
        obtain ⟨⟨q, k⟩, hq, e'⟩ := List.mem_map.1 h
        exact List.mem_map.2 ⟨(q, k), (hother q k hq).1, e'⟩
  · intro q k hq
    obtain ⟨hmem, hne⟩ := hother q k hq
    obtain ⟨d, hd, rfl, hroom'⟩ := blocks.room q k hmem
    have hd' : d ∈ l ++ (r0 ++ r') := blocks.mem_sides.2 ⟨hd, fun h => hne (by rw [h])⟩
    refine ⟨d, ?_, rfl, by rw [(hkeep d hd').1]; exact hroom'⟩
    -- a block that was swallowed was free, so it holds no allocation
    have hnot : d ∉ r0 := fun h =>
      (blocks.used d hd).2 (List.mem_map_of_mem hmem) (hfree0 d h)
    rcases List.mem_append.1 hd' with h | h
    · exact List.mem_append_left _ h
    · exact List.mem_append_right _ (List.mem_cons_of_mem _
        ((List.mem_append.1 h).resolve_left hnot))
  · intro q k i hq hi
    obtain ⟨hmem, hne⟩ := hother q k hq
    obtain ⟨d, hd, rfl, hroom'⟩ := blocks.room q k hmem
    apply hframe
    obtain ⟨-, hd16, -, -⟩ := blocks.bounds hd
    rcases blocks.apart hd (fun h => hne (by rw [h])) with h | h <;> omega

/-- An edit inside an allocation changes no header. -/
lemma edit (blocks : Blocks m a b chunks live) {p : Nat} (hp : (p, n) ∈ live)
    (hout : ∀ x, x < p ∨ p + n ≤ x → m' x = m x) :
    Blocks m' a b chunks live ∧ ∀ d ∈ chunks, hdrSize m' d = hdrSize m d := by
  obtain ⟨c, hc, rfl, hroom⟩ := blocks.room p n hp
  obtain ⟨l, r, rfl⟩ := List.append_of_mem hc
  have hkeep : ∀ d ∈ l ++ c :: r, hdrSize m' d = hdrSize m d ∧ hdrUsed m' d = hdrUsed m d := by
    intro d hd
    apply hdr_congr
    intro x hx1 hx2
    apply hout
    obtain ⟨-, hd16, -, -⟩ := blocks.bounds hd
    by_cases h : d = c
    · omega
    · rcases blocks.apart hd h with h | h <;> omega
  refine ⟨⟨?_, blocks.limit, blocks.nodup, ?_, ?_⟩, fun d hd => (hkeep d hd).1⟩
  · exact blocks.tiles.congr fun d hd => (hkeep d hd).1
  · intro d hd
    rw [(hkeep d hd).2]
    exact blocks.used d hd
  · intro q k hq
    obtain ⟨d, hd, e, hk⟩ := blocks.room q k hq
    exact ⟨d, hd, e, by rw [(hkeep d hd).1]; exact hk⟩

/-- Writing inside an allocation changes no header. -/
lemma write (blocks : Blocks m a b chunks live) {p i : Nat} {w : UInt8} (hp : (p, n) ∈ live)
    (hi : i < n) :
    Blocks (Function.update m (p + i) w) a b chunks live ∧
      ∀ d ∈ chunks, hdrSize (Function.update m (p + i) w) d = hdrSize m d :=
  blocks.edit hp fun _ hx => Function.update_of_ne (by omega) ..

/-- The payloads of two allocations do not meet. -/
lemma payload_disjoint (blocks : Blocks m a b chunks live) {p q k i j : Nat} (hp : (p, n) ∈ live)
    (hq : (q, k) ∈ live) (hne : p ≠ q) (hi : i < n) (hj : j < k) : p + i ≠ q + j := by
  obtain ⟨c, hc, rfl, hroom⟩ := blocks.room p n hp
  obtain ⟨d, hd, rfl, hroom'⟩ := blocks.room q k hq
  have hcd : c ≠ d := fun e => hne (by rw [e])
  rcases blocks.tiles.disjoint hc hd hcd with h | h <;> omega

end Blocks

/-- The merge loop joins to a block the free blocks that follow it, as long as the result has a size a
header can hold. -/
lemma coalesce_ok {a b fuel c : Nat} {m : Mem} {l r : List Nat}
    (tiles : Tiling 16 (hdrSize m) a (l ++ c :: r) b) (hc : 0 < c) (limit : b ≤ 4294963200)
    (hfuel : r.length < fuel) (hmax : mergedSize b fuel m c (hdrSize m c) < 2147483648) :
    ∃ m' r0 r', coalesce b fuel m c = .ok m' ∧
      r = r0 ++ r' ∧ (∀ d ∈ r0, hdrUsed m d = 0) ∧ Tiling 16 (hdrSize m') a (l ++ c :: r') b ∧
      hdrUsed m' c = hdrUsed m c ∧ hdrSize m' c = hdrSize m c + (r0.map (hdrSize m)).sum ∧
      ∀ x, x < c ∨ c + 4 ≤ x → m' x = m x := by
  induction r generalizing m fuel with
  | nil =>
    obtain ⟨k, rfl⟩ : ∃ k, fuel = k + 1 := ⟨fuel - 1, by simp at hfuel; omega⟩
    have hend : c + hdrSize m c = b := by
      obtain ⟨-, -, h⟩ := tiles.split_at
      cases h
      rfl
    have hwrap : wrap (c + hdrSize m c) = b := by
      rw [hend]
      exact wrap_of_lt (by omega)
    refine ⟨m, [], [], ?_, rfl, by simp, tiles, rfl, by simp, fun _ _ => rfl⟩
    rw [coalesce]
    simp only [hwrap, Nat.lt_irrefl, false_and, and_false, if_false]
  | cons d r ih =>
    obtain ⟨k, rfl⟩ : ∃ k, fuel = k + 1 := ⟨fuel - 1, by simp at hfuel; omega⟩
    obtain ⟨hlo, h16, hle⟩ := tiles.mem_bounds (x := c) (by simp)
    obtain ⟨-, h16', hle'⟩ := tiles.mem_bounds (x := d) (by simp)
    have hnd := tiles.nodup (by decide)
    have hnext : c + hdrSize m c = d := by
      obtain ⟨-, -, h⟩ := tiles.split_at
      cases h
      rfl
    have hwrap : wrap (c + hdrSize m c) = d := by
      rw [hnext]
      exact wrap_of_lt (by omega)
    rw [coalesce]
    simp only [hwrap]
    by_cases hfree : hdrUsed m d = 0
    · rw [if_pos ⟨by omega, by omega, hfree⟩]
      have hsep : ∀ x ∈ l ++ r, x + 4 ≤ c ∨ c + 4 ≤ x := by
        intro x hx
        have hmem : x ∈ l ++ c :: d :: r := by
          simp only [List.mem_append, List.mem_cons] at hx ⊢
          tauto
        have hne : x ≠ c := by
          rintro rfl
          rw [List.nodup_middle, List.nodup_cons] at hnd
          apply hnd.1
          simp only [List.mem_append, List.mem_cons] at hx ⊢
          tauto
        obtain ⟨-, hx16, -⟩ := tiles.mem_bounds hmem
        rcases tiles.disjoint hmem (y := c) (by simp) hne with h | h <;> omega
      have hmerge : mergedSize b (k + 1) m c (hdrSize m c) =
          mergedSize b k m c (hdrSize m c + hdrSize m d) := by
        rw [mergedSize, hnext, if_pos ⟨by omega, hfree⟩]
      rw [hmerge] at hmax
      have hsum : hdrSize m c + hdrSize m d < 2147483648 := lt_of_le_of_lt le_mergedSize hmax
      have htiles : Tiling 16 (hdrSize (setSize m c (hdrSize m c + hdrSize m d))) a
          (l ++ c :: r) b :=
        (tiles.join (fun x hx => (hdr_setSize_other (hsep x (List.mem_append_left _ hx))).1)
          (fun x hx => (hdr_setSize_other (hsep x (List.mem_append_right _ hx))).1)
          (hdrSize_setSize hsum)).2
      obtain ⟨m', r0, r', e, hr, hused, ht, hu, hsz, hframe⟩ := ih htiles
        (by simp at hfuel; omega) (by
          rw [hdrSize_setSize hsum, mergedSize_congr fun x hx => setSize_other (.inr (by omega))]
          exact hmax)
      have hr0 : ∀ x ∈ r0, hdrSize (setSize m c (hdrSize m c + hdrSize m d)) x = hdrSize m x :=
        fun x hx => (hdr_setSize_other (hsep x (by rw [hr]; simp [hx]))).1
      refine ⟨m', d :: r0, r', e, by rw [hr]; rfl, ?_, ht, by rw [hu, hdrUsed_setSize], ?_, ?_⟩
      · intro x hx
        rcases List.mem_cons.1 hx with rfl | hx
        · exact hfree
        · have := hused x hx
          rwa [(hdr_setSize_other (hsep x (by rw [hr]; simp [hx]))).2] at this
      · rw [hsz, hdrSize_setSize hsum, List.map_cons, List.sum_cons, List.map_congr_left hr0]
        omega
      · intro x hx
        rw [hframe x hx, setSize_other hx]
    · rw [if_neg (fun h => hfree h.2.2)]
      exact ⟨m, [], d :: r, rfl, rfl, by simp, tiles, rfl, by simp, fun _ _ => rfl⟩

end Creeks
