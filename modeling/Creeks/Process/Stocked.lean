import Creeks.Drive.Transfer
import Creeks.Process.Pushing

/-!
# Arguments that are pushed

While there are pages and frames to spare, `load_task` loads a file of a header only with one argument: the
copies, the stores to the stack of the new process and the calls of `kfree` go through. `Stock` is a process in
its space with that supply and with the account of the kernel heap, which says what is stored in the chunks.
-/

namespace Creeks
open Lib

section Stocked

variable {s : Mm} {k k' : Kernel} {pid p dst fuel size n : Nat} {pd pd' : PageDirectory} {kernel users : List Page}
  {others : List (Nat × Nat)} {A F G : Multiset (Nat × Nat)} {text : List UInt8} {mem : Mem} {used : Nat}

/-- A well-formed heap after a change of its contents. -/
lemma Supply.contents (h : Supply s others n) (hA : heapLedger.holds (s.withHeap mem used) A) :
    Supply (s.withHeap mem used) [] n := by
  obtain ⟨chunks, live, rep, e⟩ := hA
  have hle : (chunksOf (s.withHeap mem used).kernFreeVm : Multiset (Nat × Nat)) ≤ live := by
    rw [e]
    exact Multiset.le_add_right _ _
  have hnodup : (live : Multiset (Nat × Nat)).Nodup := Multiset.coe_nodup.2 (List.Nodup.of_map _ rep.nodup)
  refine h.same ⟨?_, ⟨?_, chunks, live, rep, ?_⟩, ?_⟩ (withHeap_kernHeap ..) (withHeap_memBitmap ..) (withHeap_oom ..)
    (withHeap_kernFreeVm ..)
  · have hdir : (s.withHeap mem used).dir = s.dir := by rw [Mm.dir, Mm.dir, withHeap_cr3]
    rw [withHeap_ram, hdir]
    exact h.heap.map
  · rw [List.append_nil]
    exact Multiset.coe_nodup.1 (Multiset.nodup_of_le hle hnodup)
  · rw [List.append_nil]
    exact fun a ha => Multiset.mem_coe.1 (Multiset.mem_of_le hle (Multiset.mem_coe.2 ha))
  · rw [withHeap_kernFreeVm]
    exact h.heap.areas

lemma Ready.contents (h : Ready k pid pd kernel users others n) (w : Writable k' pid pd' kernel users F)
    (hmm : k'.mm = k.mm.withHeap mem used) : Ready k' pid pd' kernel users [] n := by
  have chunks := w.chunks
  rw [hmm] at chunks
  refine ⟨w.space, ?_, ?_, ?_⟩
  · rw [hmm]
    exact h.supply.contents chunks
  · refine h.fresh.keep (fun q hq => ?_) fun f _ => ?_
    · rw [hmm, withHeap_memBitmap]
      exact hq
    · rw [hmm, withHeap_ram]
  · rw [hmm, withHeap_stale]
    exact h.stale

/-- The directory of a process is one. -/
lemma Writable.with (h : Ready k pid pd kernel users others n) (w : Writable k pid pd' kernel users F) :
    Writable k pid pd kernel users F := by
  obtain rfl : pd = pd' := Option.some.inj (h.space.own.symm.trans w.space.own)
  exact w

lemma Ready.flags (h : Ready k pid pd kernel users others n) : NoFlags k.mm := ⟨h.supply.oom, h.stale⟩

lemma strlen_returns {m : Mem} {a : Nat} (hz : 0 ∉ text)
    (hb : ∀ i (h : i < (text ++ [0]).length), m (a + i) = (text ++ [0])[i]) (hfuel : text.length < fuel) :
    strlen m fuel a = .ok text.length := by
  induction text generalizing fuel a with
  | nil =>
    obtain ⟨fuel, rfl⟩ := Nat.exists_eq_succ_of_ne_zero (Nat.ne_zero_of_lt hfuel)
    have hzero : m a = 0 := hb 0 (Nat.zero_lt_succ _)
    rw [strlen, if_pos hzero]
    rfl
  | cons c text ih =>
    obtain ⟨fuel, rfl⟩ := Nat.exists_eq_succ_of_ne_zero (Nat.ne_zero_of_lt hfuel)
    have hc : m a = c := hb 0 (Nat.zero_lt_succ _)
    have hne : m a ≠ 0 := fun h => hz (by rw [← h, hc]; exact List.mem_cons_self)
    have hrest : ∀ i (h : i < (text ++ [0]).length), m (a + 1 + i) = (text ++ [0])[i] := fun i hi => by
      have haddr : a + 1 + i = a + (i + 1) := by omega
      rw [haddr]
      exact hb (i + 1) (Nat.succ_lt_succ hi)
    rw [strlen, if_neg hne, ih (fun h => hz (List.mem_cons_of_mem _ h)) hrest (Nat.lt_of_succ_lt_succ hfuel)]
    rfl

/-- The copy of a string goes through. -/
lemma Ready.strcpy {o : Nat} (h : Ready k pid pd kernel users others (n + 4 * (text.length + 1)))
    (w : Writable k pid pd kernel users F) (hp : (p, size) ∈ F) (hroom : o + text.length + 1 ≤ size)
    (hz : 0 ∉ text) (hb : ∀ i (h : i < (text ++ [0]).length), k.mm.mem (p + o + i) = (text ++ [0])[i])
    (hlo : USER_OFFSET ≤ dst) (hhi : dst + text.length < USER_STACK) (hfuel : text.length < fuel) :
    ∃ k' pd' others', strcpyUser pid fuel k dst (p + o) = .ok k' ∧ Ready k' pid pd' kernel users others' n := by
  induction text generalizing fuel k dst o pd others with
  | nil =>
    obtain ⟨fuel, rfl⟩ := Nat.exists_eq_succ_of_ne_zero (Nat.ne_zero_of_lt hfuel)
    have hzero : k.mm.mem (p + o) = 0 := hb 0 (Nat.zero_lt_succ _)
    obtain ⟨k', pd', l, e, ready⟩ := h.store hlo hhi 0
    refine ⟨k', pd', _, ?_, ready⟩
    rw [strcpyUser, hzero, e, ok_bind, if_pos rfl]
    rfl
  | cons c text ih =>
    obtain ⟨fuel, rfl⟩ := Nat.exists_eq_succ_of_ne_zero (Nat.ne_zero_of_lt hfuel)
    have hc : k.mm.mem (p + o) = c := hb 0 (Nat.zero_lt_succ _)
    have hne : c ≠ 0 := fun h => hz (h ▸ List.mem_cons_self)
    rw [List.length_cons] at hroom hhi hfuel h
    have hcount : n + 4 * (text.length + 1 + 1) = n + 4 * (text.length + 1) + 4 := by omega
    rw [hcount] at h
    obtain ⟨k1, pd1, l, e, ready⟩ := h.store hlo (by omega) c
    obtain ⟨pd2, first, -, -⟩ := w.store e (by omega) ready.flags
    have hrest : ∀ i (h : i < (text ++ [0]).length), k1.mm.mem (p + (o + 1) + i) = (text ++ [0])[i] := fun i hi => by
      have hi' : i < text.length + 1 := by simpa using hi
      have hnext := hb (i + 1) (Nat.succ_lt_succ hi)
      have haddr : p + (o + 1) + i = p + (o + 1 + i) := by omega
      have haddr' : p + (o + 1 + i) = p + o + (i + 1) := by omega
      rw [haddr, payload_byte (a := (p, size)) (first.same _ hp) (show o + 1 + i < size by omega), haddr', hnext]
      rfl
    obtain ⟨k', pd', others', e', ready'⟩ := ih ready (.with ready first.writable) (by omega)
      (fun h => hz (List.mem_cons_of_mem _ h)) hrest (by omega : USER_OFFSET ≤ dst + 1) (by omega)
      (Nat.lt_of_succ_lt_succ hfuel)
    have hwrap : wrap (dst + 1) = dst + 1 := wrap_of_lt (by simp only [USER_STACK] at hhi; omega)
    refine ⟨k', pd', others', ?_, ready'⟩
    rw [strcpyUser, hc, e, ok_bind, if_neg hne, hwrap, Nat.add_assoc]
    exact e'

lemma Ready.pushWord {c : Kernel × Nat} (w : Nat) (h : Ready c.1 pid pd kernel users others (n + 4 * 4))
    (hlo : USER_OFFSET + 4 ≤ c.2) (hhi : c.2 ≤ USER_STACK) :
    ∃ r pd' others', Creeks.pushWord pid c w = .ok r ∧ Ready r.1 pid pd' kernel users others' n := by
  have hsub : wrap (c.2 + 4294967296 - 4) = c.2 - 4 := by
    rw [wrap_eq]
    simp only [USER_OFFSET, USER_STACK] at hlo hhi
    omega
  have haddr : ∀ i < 4, wrap (c.2 - 4 + i) = c.2 - 4 + i := fun i hi => by
    refine wrap_of_lt ?_
    simp only [USER_STACK] at hhi
    omega
  obtain ⟨k', pd', l, e, ready, -⟩ := Ready.stores (t := fun a => UInt8.ofNat (w / 256 ^ (a - (c.2 - 4))))
    (fun i => wrap (c.2 - 4 + i)) (fun i => UInt8.ofNat (w / 256 ^ i)) (List.range 4) h fun i hi => by
      have hi4 := List.mem_range.1 hi
      rw [haddr i hi4, Nat.add_sub_cancel_left]
      exact ⟨by omega, by omega, rfl⟩
  refine ⟨(k', c.2 - 4), pd', _, ?_, ready⟩
  rw [Creeks.pushWord, hsub, e]
  rfl

/-- A chunk that is out is freed. -/
lemma Ready.kfree (h : Ready k pid pd kernel users others n) (w : Writable k pid pd kernel users ({(p, size)} + G)) :
    ∃ k', k.kfree p = .ok k' ∧ Ready k' pid pd kernel users [] n ∧ Writable k' pid pd kernel users G := by
  have chunks := w.chunks
  rw [add_left_comm] at chunks
  obtain ⟨s', e⟩ := kfree_total chunks
  obtain ⟨mem, used, hs⟩ := kfree_frame e
  have hk : k.kfree p = .ok { k with
      mm := s', allocated := k.allocated.erase p, strayFree := k.strayFree || !k.allocated.contains p } := by
    rw [Kernel.kfree, e]
    rfl
  have freed : Pushes k _ pid pd pd kernel users (0 + G) G 0 0 := w.heap (.kfree hk) (Kernel.kfree_effect hk)
  rw [zero_add] at freed
  exact ⟨_, hk, h.contents freed.writable hs, freed.writable⟩

/-- A process that can be given arguments, while the chunks `F` are out. -/
structure Stock (k : Kernel) (pid : Nat) (pd : PageDirectory) (kernel users : List Page) (n : Nat)
    (F : Multiset (Nat × Nat)) : Prop where
  ready : ∃ others, Ready k pid pd kernel users others n
  writable : Writable k pid pd kernel users F

lemma Stock.pushWord {c : Kernel × Nat} (w : Nat) (h : Stock c.1 pid pd kernel users (n + 4 * 4) F)
    (hlo : USER_OFFSET + 4 ≤ c.2) (hhi : c.2 ≤ USER_STACK) : ∃ r pd', Creeks.pushWord pid c w = .ok r ∧
      r.2 = c.2 - 4 ∧ Stock r.1 pid pd' kernel users n F ∧ ∀ a ∈ F, payload a r.1.mm = payload a c.1.mm := by
  obtain ⟨⟨others, ready⟩, writable⟩ := h
  obtain ⟨r, pd', others', e, ready'⟩ := ready.pushWord w hlo hhi
  obtain ⟨hr, -, pd2, pushed, -⟩ := writable.pushWord e ⟨by omega, hhi⟩ ready'.flags
  exact ⟨r, pd', e, hr, ⟨⟨_, ready'⟩, .with ready' pushed.writable⟩, pushed.same⟩

lemma Stock.kfree (h : Stock k pid pd kernel users n ({(p, size)} + G)) :
    ∃ k', k.kfree p = .ok k' ∧ Stock k' pid pd kernel users n G := by
  obtain ⟨⟨others, ready⟩, writable⟩ := h
  obtain ⟨k', e, ready', writable'⟩ := ready.kfree writable
  exact ⟨k', e, ⟨_, ready'⟩, writable'⟩

/-- One string is pushed. -/
lemma Stock.pushString {c : Kernel × Nat} {str : Nat × Nat} {param u : Nat}
    (h : Stock c.1 pid pd kernel users (n + 4 * (text.length + 1)) ({(u, size)} + F)) (hstr : str ∈ F)
    (ht : StringChunk c.1.mm str text) (hz : 0 ∉ text) (hword : load32 c.1.mm.mem (param + 4 * 0) = str.1)
    (hsize : 4 ≤ size) (hlo : USER_OFFSET + text.length + 1 ≤ c.2) (hhi : c.2 ≤ USER_STACK) :
    ∃ r pd', Creeks.pushString pid param u c 0 = .ok r ∧ r.2 = c.2 - (text.length + 1) ∧
      Stock r.1 pid pd' kernel users n ({(u, size)} + F) ∧ ∀ a ∈ F, payload a r.1.mm = payload a c.1.mm := by
  obtain ⟨⟨others, ready⟩, writable⟩ := h
  have hfuel : text.length < LOOP_MAX := by
    rw [loopMax_eq]
    simp only [USER_STACK] at hhi
    omega
  have hlen := strlen_returns hz ht.bytes hfuel
  have hsub : wrap (c.2 + 4294967296 - (text.length + 1)) = c.2 - (text.length + 1) := by
    rw [wrap_eq]
    simp only [USER_STACK] at hhi
    omega
  have hstr' : (str.1, str.2) ∈ ({(u, size)} : Multiset (Nat × Nat)) + F := Multiset.mem_add.2 (.inr hstr)
  have hdst : USER_OFFSET ≤ c.2 - (text.length + 1) := by omega
  obtain ⟨k1, pd1, others1, e1, ready1⟩ := ready.strcpy (o := 0) writable hstr' (by rw [ht.size]; omega) hz ht.bytes
    hdst (by omega) hfuel
  have e1 : strcpyUser pid LOOP_MAX c.1 (c.2 - (text.length + 1)) str.1 = .ok k1 := e1
  have e : Creeks.pushString pid param u c 0 =
      .ok (k1.withMem (store32 k1.mm.mem (u + 4 * 0) (c.2 - (text.length + 1))), c.2 - (text.length + 1)) := by
    rw [Creeks.pushString]
    dsimp only
    rw [hword, hlen, ok_bind, hsub, e1]
    rfl
  have no : NoFlags (k1.withMem (store32 k1.mm.mem (u + 4 * 0) (c.2 - (text.length + 1)))).mm := by
    refine ⟨?_, ?_⟩
    · exact (withHeap_oom ..).trans ready1.supply.oom
    · exact (withHeap_stale ..).trans ready1.stale
  obtain ⟨-, -, ⟨pd2, pushed⟩, -⟩ := writable.pushString e hstr ht hz hword hsize
    (fun l hl => by rw [hword, hlen] at hl; cases hl; omega) hhi no
  exact ⟨_, pd2, e, rfl, ⟨⟨_, ready1.contents pushed.writable rfl⟩, pushed.writable⟩, pushed.same⟩

/-- The argument of `main` is pushed. -/
lemma Stock.pushArg {str : Nat × Nat} {param : Nat}
    (h : Stock k pid pd kernel users (n + 4 * (4 * 4) + 4 * (text.length + 1) + 1) ({str} + ({(param, 8)} + G)))
    (ht : StringChunk k.mm str text) (hz : 0 ∉ text) (hword : load32 k.mm.mem (param + 4 * 0) = str.1)
    (hshort : text.length < 4000) :
    ∃ r pd', Creeks.pushArgs pid k 1 param = .ok r ∧ Stock r.1 pid pd' kernel users n G := by
  obtain ⟨⟨others, ready⟩, writable⟩ := h
  -- the array of the addresses
  obtain ⟨k1, u, e1, supply1, grows1⟩ := ready.supply.kernelKmalloc (show 4 * 1 < 4092 by decide)
  have taken : Pushes k k1 pid pd pd kernel users ({(u, 4 * 1)} + ({str} + ({(param, 8)} + G)))
      ({str} + ({(param, 8)} + G)) 0 0 := by
    have started : Writable k pid pd kernel users (0 + ({str} + ({(param, 8)} + G))) := by rwa [zero_add]
    exact started.heap (.kmalloc (by decide) e1) (Kernel.kmalloc_effect (by decide) e1)
  have stock1 : Stock k1 pid pd kernel users (n + 4 * (4 * 4) + 4 * (text.length + 1)) _ :=
    ⟨⟨_, ready.grow (Kernel.kmalloc_frame e1) grows1 supply1⟩, taken.writable⟩
  have hstr : str ∈ {str} + (({(param, 8)} : Multiset (Nat × Nat)) + G) :=
    Multiset.mem_add.2 (.inl (Multiset.mem_singleton_self _))
  have hparam : (param, 8) ∈ {str} + (({(param, 8)} : Multiset (Nat × Nat)) + G) :=
    Multiset.mem_add.2 (.inr (Multiset.mem_add.2 (.inl (Multiset.mem_singleton_self _))))
  have word1 : load32 k1.mm.mem (param + 4 * 0) = str.1 := by
    rw [load32_payload (taken.same _ hparam) (by decide), hword]
  have hlow : USER_OFFSET + 4100 ≤ USER_STACK - 16 := by decide
  obtain ⟨c2, pd2, e2, hc2, stock2, same2⟩ := Stock.pushString (c := (k1, USER_STACK - 16)) stock1 hstr
    (ht.congr (taken.same _ hstr)) hz word1 (by decide) (by dsimp only; omega) (Nat.sub_le _ _)
  have hland := land_field c2.2 28 4
  norm_num at hland
  have htop : c2.2 &&& 0xFFFFFFF0 ≤ c2.2 ∧ USER_OFFSET + 64 ≤ c2.2 &&& 0xFFFFFFF0 := by
    dsimp only at hc2
    simp only [USER_OFFSET, USER_STACK] at hc2 ⊢
    rw [hland]
    omega
  have hstack : USER_STACK - 16 ≤ USER_STACK := Nat.sub_le _ _
  dsimp only at hc2
  -- the four words
  have hcount : n + 4 * (4 * 4) = n + 4 * 4 + 4 * 4 + 4 * 4 + 4 * 4 := by omega
  rw [hcount] at stock2
  obtain ⟨c3, pd3, e3, hc3, stock3, same3⟩ :=
    Stock.pushWord (c := (c2.1, c2.2 &&& 0xFFFFFFF0)) 0 stock2 (by dsimp only; omega) (by dsimp only; omega)
  dsimp only at hc3
  obtain ⟨c4, pd4, e4, hc4, stock4, same4⟩ := Stock.pushWord (load32 c3.1.mm.mem (u + 4 * 0)) stock3 (by omega) (by omega)
  obtain ⟨c5, pd5, e5, hc5, stock5, same5⟩ := Stock.pushWord c4.2 stock4 (by omega) (by omega)
  obtain ⟨c6, pd6, e6, hc6, stock6, same6⟩ := Stock.pushWord 1 stock5 (by omega) (by omega)
  have hup : ∀ {a}, a ∈ {str} + (({(param, 8)} : Multiset (Nat × Nat)) + G) →
      a ∈ ({(u, 4 * 1)} : Multiset (Nat × Nat)) + ({str} + ({(param, 8)} + G)) := fun ha =>
    Multiset.mem_add.2 (.inr ha)
  have word6 : load32 c6.1.mm.mem (param + 4 * 0) = str.1 := by
    have hsame : payload (param, 8) c6.1.mm = payload (param, 8) k1.mm := by
      rw [same6 _ (hup hparam), same5 _ (hup hparam), same4 _ (hup hparam), same3 _ (hup hparam)]
      exact same2 _ hparam
    rw [load32_payload hsame (by decide), word1]
  -- the copies are freed
  have stock6' : Stock c6.1 pid pd6 kernel users n ({(str.1, str.2)} + ({(param, 8)} + ({(u, 4 * 1)} + G))) := by
    convert stock6 using 1
    change {str} + _ = _
    abel
  obtain ⟨k7, e7, stock7⟩ := stock6'.kfree
  obtain ⟨k8, e8, stock8⟩ := stock7.kfree
  obtain ⟨k9, e9, stock9⟩ := stock8.kfree
  refine ⟨(k9, wrap (c6.2 + 4294967296 - 4)), pd6, ?_, stock9⟩
  have hfree : freeArgs c6.1 1 param = .ok k8 := by
    rw [freeArgs, List.range_one, List.foldlM_cons, word6, e7, ok_bind, List.foldlM_nil, pure_eq_ok, ok_bind]
    exact e8
  rw [Creeks.pushArgs, if_neg Nat.one_ne_zero, e1, ok_bind]
  dsimp only
  rw [List.range_one, List.foldlM_cons, e2, ok_bind, List.foldlM_nil, pure_eq_ok, ok_bind, e3, ok_bind,
    List.reverse_singleton, List.foldlM_cons, e4, ok_bind, List.foldlM_nil, pure_eq_ok, ok_bind, e5, ok_bind, e6,
    ok_bind, hfree, ok_bind, e9]
  rfl

end Stocked

section Load

variable {k : Kernel} {m : Machine} {x : ExecArgs} {kernel users : List Page} {others : List (Nat × Nat)} {n : Nat}
  {A : Multiset (Nat × Nat)} {text : List UInt8}

/-- The copy of one argument goes through. -/
lemma Idle.copyArg (h : Idle k.mm kernel users others (n + 2)) (hA : heapLedger.holds k.mm A) (sized : Sized x)
    (hx : x.argv = [text]) (hshort : text.length < 4000) :
    ∃ r, copyArgs k x.argv x.param = .ok r ∧ Idle r.1.mm kernel users [] n := by
  obtain ⟨k1, param, e1, supply1, grows1⟩ := h.supply.kernelKmalloc (show 4 * (1 + 1) < 4092 by decide)
  obtain ⟨k2, p, e2, supply2, grows2⟩ := supply1.kernelKmalloc (show text.length + 1 < 4092 by omega)
  generalize hmem : storeString (store32 k2.mm.mem (param + 4 * 0) p) p text = mem
  have ec : Creeks.copyArg param k1 (text, 0) = .ok (k2.withMem mem) := by
    rw [Creeks.copyArg, e2, ok_bind, ← hmem]
    rfl
  have e : copyArgs k x.argv x.param =
      .ok ((k2.withMem mem).withMem (store32 (k2.withMem mem).mm.mem (param + 4 * 1) 0), param) := by
    rw [hx, copyArgs, if_neg (List.cons_ne_nil _ _), List.length_singleton, e1, ok_bind]
    dsimp only
    rw [List.zipIdx_singleton, List.foldlM_cons, ec, ok_bind, List.foldlM_nil, pure_eq_ok, ok_bind]
    rfl
  obtain ⟨strings, -, holds⟩ := copyArgs_text sized (by rw [hx]; exact List.cons_ne_nil _ _) hA e
  refine ⟨_, e, ?_⟩
  generalize hlast : store32 (k2.withMem mem).mm.mem (param + 4 * 1) 0 = last at holds ⊢
  have grows : Grows k.mm (k2.mm.withHeap last k2.mm.kmallocUsed) := (grows1.trans grows2).trans (.heap ..)
  have lower := h.frames.held.lower
  refine ⟨h.frames.grows grows, ?_, h.pd0.congr fun j => grows.ram lower (.inl (by decide)), supply2.contents holds,
    h.fresh.keep (fun _ => grows.used) fun f hf => grows.ram lower (.inr ((h.frames.grows grows).held.free f hf)),
    grows.fields.2.2.2.1.trans h.stale⟩
  have hcr3 : ((k2.withMem mem).withMem last).mm.cr3 = k.mm.cr3 := grows.fields.2.2.1
  unfold Loaded
  rw [hcr3]
  exact h.loaded

/-- A file of a header only, with one argument. -/
structure OneArgument (x : ExecArgs) (text : List UInt8) : Prop where
  argv : x.argv = [text]
  short : text.length ≤ 200
  block : x.blocksize < 4092
  file : x.size < 4092
  reads : x.reads = []
  elf : isElf x.file = true
  segments : ePhnum x.file = 0
  entry : eEntry x.file ≠ 0

lemma OneArgument.sized (hx : OneArgument x text) : Sized x := by
  have hblock := hx.block
  have hfile := hx.file
  have hshort := hx.short
  refine ⟨?_, fun arg harg => ?_, ?_, ?_, fun n hn => ?_⟩
  · rw [hx.argv, List.length_singleton]
    decide
  · rw [hx.argv, List.mem_singleton] at harg
    rw [harg]
    unfold Served
    omega
  · unfold Served
    omega
  · unfold Served
    omega
  · rw [hx.reads] at hn
    cases hn

/-- The file is read, and the process has its directory. -/
lemma OneArgument.image (hx : OneArgument x text) (h : Idle k.mm kernel users others (n + 5 + 3 + 2))
    (hA : heapLedger.holds k.mm A) : ∃ l pd others', loadImage k x = .ok l ∧ l.eEntry = eEntry x.file ∧
      Ready l.kernel (freeSlot k.table) pd kernel users others' n := by
  obtain ⟨c, ec, h1⟩ := Idle.copyArg (k := { k with
    table := claimSlot k.table (freeSlot k.table), allocated := [] }) h hA hx.sized hx.argv
      (lt_of_le_of_lt hx.short (by decide))
  obtain ⟨s1, pd, create, frames, map, supply, fresh, stale, -⟩ := h1.create
  obtain ⟨k1, hk1⟩ : ∃ k1, k1 = (({ c.1 with
      mm := s1
      pd := Function.update c.1.pd (freeSlot k.table) (some pd)
      pglist := Function.update c.1.pglist (freeSlot k.table) [] } : Kernel).setCurrent
        (freeSlot k.table)).setCr3 pd.base.pAddr := ⟨_, rfl⟩
  have own : k1.pd (freeSlot k.table) = some pd := by
    rw [hk1]
    exact Function.update_self ..
  have list : k1.pglist (freeSlot k.table) = [] := by
    rw [hk1]
    exact Function.update_self ..
  have mm : k1.mm = { s1 with cr3 := pd.base.pAddr } := by
    rw [hk1]
    rfl
  have ready : Ready k1 (freeSlot k.table) pd kernel users
      (pageChunk pd.base :: directoryChunk pd :: []) (n + 5) := by
    refine ⟨⟨own, ?_, ?_, by rw [mm]⟩, ?_, ?_, by rw [mm]; exact stale⟩
    · rw [list, mm]
      exact frames.load
    · rw [list, mm]
      exact map
    · rw [mm]
      exact supply.load map.kernel
    · rw [mm]
      exact fresh
  obtain ⟨k2, p, e2, supply2, g2⟩ := ready.supply.ext2ReadFile hx.block hx.file hx.reads
  obtain ⟨k3, e3, supply3, g3⟩ := Supply.kernelKfree (l := []) supply2
  refine ⟨⟨k3, c.1.table.current, c.2, eEntry x.file⟩, pd, _, ?_, rfl,
    ready.grow ((ext2ReadFile_frame e2).trans (Kernel.kfree_frame e3)) (g2.trans g3) supply3⟩
  unfold loadImage
  dsimp only
  rw [ec, ok_bind, create, ok_bind]
  dsimp only
  rw [← hk1, e2, ok_bind, loadElfInto, if_neg (by rw [hx.elf]; exact Bool.false_ne_true), hx.segments,
    List.range_zero, List.map_nil, loadSegments, ok_bind, e3, ok_bind]
  rfl

/-- The end of `load_task` finds its frame. -/
lemma Supply.start_flags {m' : Machine} {pid previous stackp : Nat} {pd : PageDirectory}
    (h : Supply m.kernel.mm others (n + 2 + 2)) (stale : m.kernel.mm.stale = false) (frames : Frames m.kernel.mm kernel users)
    (own : m.kernel.pd pid = some pd) (e : m.start pid previous stackp = .ok m') : NoFlags m'.kernel.mm := by
  obtain ⟨pg, s1, s2, started⟩ := start_ok own e
  obtain ⟨s1', pg', get, supply1⟩ := h.get
  obtain ⟨rfl, rfl⟩ := Prod.mk.inj (Except.ok.inj (get.symm.trans started.get))
  have hgrow : growPages VCONSOLE_SIZE = 2 := by
    rw [growPages, realSize, wrap_of_lt (by decide)]
    rfl
  obtain ⟨s2', console, kmalloc, supply2, grows⟩ := supply1.kmalloc (by decide) hgrow
  obtain ⟨rfl, -⟩ := Prod.mk.inj (Except.ok.inj (kmalloc.symm.trans started.kmalloc))
  have held := frames.held
  obtain ⟨_, _, -, -, -, g⟩ := getPageFromHeap_frame h.heap.map held.areas held.lower held.upper get
  obtain ⟨_, _, hframe, -⟩ := getPageFrame_frame m.kernel.mm
  rw [started.mm]
  refine ⟨supply2.oom, ?_⟩
  change s2'.stale = false
  rw [grows.fields.2.2.2.1, g.fields.2.2.2.1]
  change (getPageFrame m.kernel.mm).1.stale = false
  rw [hframe]
  exact stale

end Load

end Creeks
