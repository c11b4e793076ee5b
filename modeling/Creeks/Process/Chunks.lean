import Creeks.Process.Life
import Creeks.Mm.Account

/-!
# The kernel heap over a life
-/

namespace Creeks
open Lib

/-! ## The arguments -/

section Calls

variable {k k' : Kernel} {a n p size : Nat}

lemma Kernel.kmalloc_effect {r : Kernel × Nat} (hsize : Served size) (h : k.kmalloc size = .ok r) :
    HeapEffect k.mm 0 r.1.mm {(r.2, size)} := by
  obtain ⟨⟨s, p⟩, hk, h⟩ := bind_ok.1 h
  cases h
  exact Creeks.kmalloc_effect hsize hk

lemma Kernel.kfree_effect (h : k.kfree p = .ok k') : HeapEffect k.mm {(p, n)} k'.mm 0 := by
  obtain ⟨s, hk, h⟩ := bind_ok.1 h
  cases h
  exact Creeks.kfree_effect hk

lemma Kernel.withMem_effect {mem : Mem} (hout : ∀ x, x < p ∨ p + n ≤ x → mem x = k.mm.mem x) :
    HeapEffect k.mm {(p, n)} (k.withMem mem).mm {(p, n)} :=
  edit_effect hout

/-- A pointer is a word. -/
lemma kmalloc_lt {s : Mm} {r : Mm × Nat} (h : kmalloc s size = .ok r) : r.2 < 4294967296 := by
  rw [kmalloc] at h
  obtain ⟨q, -, h⟩ := bind_ok.1 h
  cases h
  change wrap (q.2 + 4) < 4294967296
  rw [wrap_eq]
  exact Nat.mod_lt _ (by decide)

/-- The words of a chunk, as its owner sees them. -/
lemma load32_payload {s t : Mm} (h : payload (p, n) t = payload (p, n) s) (ha : a + 4 ≤ n) :
    load32 t.mem (p + a) = load32 s.mem (p + a) := by
  have hb : ∀ i < 4, t.mem (p + (a + i)) = s.mem (p + (a + i)) := fun i hi =>
    payload_byte (a := (p, n)) h (show a + i < n by omega)
  exact load32_congr fun x h1 h2 => by
    have := hb (x - (p + a)) (by omega)
    rwa [show p + (a + (x - (p + a))) = x by omega] at this

end Calls

section Args

variable {k k' : Kernel} {argc param n size : Nat} {F : Multiset (Nat × Nat)}

@[simp] lemma Kernel.withMem_mem (k : Kernel) (mem : Mem) : (k.withMem mem).mm.mem = mem :=
  withHeap_mem _ _ _

@[simp] lemma Kernel.withMem_withMem (k : Kernel) (m1 m2 : Mem) :
    (k.withMem m1).withMem m2 = k.withMem m2 := rfl

/-- One turn of the copy: the string has a chunk of its own, and its address is in the array. -/
lemma copyArg_spec {arg : List UInt8} (hsize : Served (arg.length + 1)) (hn : 4 * n + 4 ≤ size)
    (hF : heapLedger.holds k.mm ({(param, size)} + F)) (h : copyArg param k (arg, n) = .ok k') :
    ∃ p, heapLedger.holds k'.mm ({(param, size)} + ({(p, arg.length + 1)} + F)) ∧
      (∀ a ∈ F, payload a k'.mm = payload a k.mm) ∧ load32 k'.mm.mem (param + 4 * n) = p ∧
      ∀ i, i ≠ n → 4 * i + 4 ≤ size →
        load32 k'.mm.mem (param + 4 * i) = load32 k.mm.mem (param + 4 * i) := by
  obtain ⟨⟨k1, p⟩, hr, h⟩ := bind_ok.1 h
  cases h
  have hp : p < 4294967296 := by
    obtain ⟨q, hq, hr⟩ := bind_ok.1 hr
    cases hr
    exact kmalloc_lt hq
  rw [← zero_add ({(param, size)} + F)] at hF
  obtain ⟨h1, v1⟩ := Kernel.kmalloc_effect hsize hr _ hF
  -- the pointer is entered in the array, then the string is written in its own chunk
  rw [add_left_comm] at h1
  have e2 : HeapEffect k1.mm {(param, size)} (k1.withMem (store32 k1.mm.mem (param + 4 * n) p)).mm
      {(param, size)} := Kernel.withMem_effect fun x hx => store32_other (by omega)
  obtain ⟨h2, v2⟩ := e2 _ h1
  rw [add_left_comm] at h2
  have e3 : HeapEffect (k1.withMem (store32 k1.mm.mem (param + 4 * n) p)).mm {(p, arg.length + 1)}
      (k1.withMem (storeString (store32 k1.mm.mem (param + 4 * n) p) p arg)).mm
      {(p, arg.length + 1)} := by
    rw [← Kernel.withMem_withMem k1 (store32 k1.mm.mem (param + 4 * n) p)]
    refine Kernel.withMem_effect fun x hx => ?_
    rw [Kernel.withMem_mem, storeString, if_neg (by omega)]
  obtain ⟨h3, v3⟩ := e3 _ h2
  have hparam : (param, size) ∈ ({(param, size)} : Multiset (Nat × Nat)) + F :=
    Multiset.mem_add.2 (.inl (Multiset.mem_singleton_self _))
  have hword : ∀ i, 4 * i + 4 ≤ size →
      load32 (storeString (store32 k1.mm.mem (param + 4 * n) p) p arg) (param + 4 * i) =
        load32 (store32 k1.mm.mem (param + 4 * n) p) (param + 4 * i) := by
    intro i hi
    have := load32_payload (a := 4 * i) (v3 _ hparam) hi
    rwa [Kernel.withMem_mem, Kernel.withMem_mem] at this
  refine ⟨p, ?_, fun a ha => ?_, ?_, fun i hi hle => ?_⟩
  · rwa [add_left_comm]
  · have hF' : a ∈ ({(param, size)} : Multiset (Nat × Nat)) + F := Multiset.mem_add.2 (.inr ha)
    exact ((v3 a hF').trans (v2 a (Multiset.mem_add.2 (.inr ha)))).trans (v1 a hF')
  · rw [Kernel.withMem_mem, hword n hn, load32_store32, Nat.mod_eq_of_lt hp]
  · rw [Kernel.withMem_mem, hword i hle, load32_store32_other (by omega)]
    exact load32_payload (v1 _ hparam) hle

/-- The loop that copies the arguments from the `n`-th on. -/
lemma copyLoop_spec {argv : List (List UInt8)} (hsize : ∀ arg ∈ argv, Served (arg.length + 1))
    (hn : 4 * (n + argv.length) + 4 ≤ size) (hF : heapLedger.holds k.mm ({(param, size)} + F))
    (h : (argv.zipIdx n).foldlM (copyArg param) k = .ok k') :
    ∃ strings : List (Nat × Nat), strings.length = argv.length ∧
      heapLedger.holds k'.mm ({(param, size)} + (strings + F)) ∧
      (∀ a ∈ F, payload a k'.mm = payload a k.mm) ∧
      (∀ i (h : i < strings.length), load32 k'.mm.mem (param + 4 * (n + i)) = strings[i].1) ∧
      ∀ i < n, load32 k'.mm.mem (param + 4 * i) = load32 k.mm.mem (param + 4 * i) := by
  induction argv generalizing k n F with
  | nil =>
    cases h
    exact ⟨[], rfl, by rwa [Multiset.coe_nil, zero_add], fun _ _ => rfl, nofun, fun _ _ => rfl⟩
  | cons arg argv ih =>
    rw [List.zipIdx_cons, List.foldlM_cons] at h
    obtain ⟨k1, h1, h⟩ := bind_ok.1 h
    rw [List.length_cons] at hn
    obtain ⟨p, hF1, v1, hw1, hk1⟩ :=
      copyArg_spec (hsize arg List.mem_cons_self) (by omega) hF h1
    obtain ⟨strings, hlen, hF2, v2, hw2, hk2⟩ :=
      ih (fun a ha => hsize a (List.mem_cons_of_mem _ ha)) (by omega) hF1 h
    refine ⟨(p, arg.length + 1) :: strings, by rw [List.length_cons, List.length_cons, hlen], ?_,
      fun a ha => ?_, fun i hi => ?_, fun i hi => ?_⟩
    · rw [← Multiset.cons_coe, ← Multiset.singleton_add, add_assoc, add_left_comm {(p, _)}]
      exact hF2
    · rw [v2 a (Multiset.mem_add.2 (.inr ha)), v1 a ha]
    · cases i with
      | zero => exact (hk2 n (Nat.lt_succ_self n)).trans hw1
      | succ i =>
        rw [List.getElem_cons_succ, ← hw2 i (by simpa using hi)]
        congr 2
        omega
    · rw [hk2 i (by omega), hk1 i (by omega) (by omega)]

/-- Freeing the strings of the array from the `n`-th on. -/
lemma freeLoop_effect {strings : List (Nat × Nat)} (hn : 4 * (n + strings.length) ≤ size)
    (hwords : ∀ i (h : i < strings.length),
      load32 k.mm.mem (param + 4 * (n + i)) = strings[i].1)
    (h : (List.range' n strings.length).foldlM
      (fun k i => k.kfree (load32 k.mm.mem (param + 4 * i))) k = .ok k') :
    HeapEffect k.mm (strings + {(param, size)}) k'.mm {(param, size)} := by
  induction strings generalizing k n with
  | nil =>
    cases h
    exact (Ledger.Effect.refl _ _).cast (zero_add _).symm rfl
  | cons a strings ih =>
    rw [List.length_cons, List.range'_succ, List.foldlM_cons] at h
    obtain ⟨k1, h1, h⟩ := bind_ok.1 h
    rw [List.length_cons] at hn
    have hw := hwords 0 (Nat.zero_lt_succ _)
    rw [Nat.add_zero, List.getElem_cons_zero] at hw
    rw [hw] at h1
    rw [← Multiset.cons_coe, ← Multiset.singleton_add, add_assoc]
    intro F hF
    rw [add_assoc] at hF
    -- freeing one string leaves the array as it is
    obtain ⟨hF1, v1⟩ := Kernel.kfree_effect (n := a.2) h1 _ hF
    rw [zero_add] at hF1
    have hparam : (param, size) ∈ (strings : Multiset (Nat × Nat)) + {(param, size)} + F :=
      Multiset.mem_add.2 (.inl (Multiset.mem_add.2 (.inr (Multiset.mem_singleton_self _))))
    have hwords' : ∀ i (h : i < strings.length),
        load32 k1.mm.mem (param + 4 * (n + 1 + i)) = strings[i].1 := by
      intro i hi
      rw [load32_payload (v1 _ hparam) (by omega), show n + 1 + i = n + (i + 1) by omega,
        hwords (i + 1) (Nat.succ_lt_succ hi), List.getElem_cons_succ]
    obtain ⟨hF2, v2⟩ := ih (by omega) hwords' h F hF1
    exact ⟨hF2, fun b hb => (v2 b hb).trans (v1 b (Multiset.mem_add.2 (.inr hb)))⟩

/-- The sizes `load_task` asks `kmalloc` for: the arguments lie in user space, and the limit test of
`ksbrk` does not wrap around for the buffers of the file. -/
structure Sized (x : ExecArgs) : Prop where
  array : Served (4 * (x.argv.length + 1))
  strings : ∀ arg ∈ x.argv, Served (arg.length + 1)
  block : Served x.blocksize
  file : Served x.size
  reads : ∀ n ∈ x.reads, Served n

/-- The array `param` points to the strings. -/
structure Copied (s : Mm) (argc param : Nat) (strings : List (Nat × Nat)) : Prop where
  length : strings.length = argc
  words : ∀ i (h : i < strings.length), load32 s.mem (param + 4 * i) = strings[i].1

/-- The chunks of the copies of the arguments. -/
def argChunks (argc param : Nat) (strings : List (Nat × Nat)) : Multiset (Nat × Nat) :=
  if argc = 0 then 0 else strings + {(param, 4 * (argc + 1))}

/-- The array only depends on its chunk. -/
lemma Copied.congr {s t : Mm} {strings : List (Nat × Nat)} (h : Copied s argc param strings)
    (hv : ∀ a ∈ argChunks argc param strings, payload a t = payload a s) :
    Copied t argc param strings where
  length := h.length
  words := fun i hi => by
    have hlen := h.length
    rw [← h.words i hi]
    refine load32_payload (n := 4 * (argc + 1)) (hv _ ?_) (by omega)
    rw [argChunks, if_neg (by omega)]
    exact Multiset.mem_add.2 (.inr (Multiset.mem_singleton_self _))

lemma copyArgs_spec {x : ExecArgs} {r : Kernel × Nat} (sized : Sized x)
    (hF : heapLedger.holds k.mm F) (h : copyArgs k x.argv x.param = .ok r) :
    ∃ strings, Copied r.1.mm x.argv.length r.2 strings ∧
      heapLedger.holds r.1.mm (argChunks x.argv.length r.2 strings + F) ∧
      ∀ a ∈ F, payload a r.1.mm = payload a k.mm := by
  rw [copyArgs] at h
  by_cases hne : x.argv = []
  · rw [if_pos hne] at h
    cases h
    rw [hne]
    exact ⟨[], ⟨rfl, nofun⟩, by rwa [List.length_nil, argChunks, if_pos rfl, zero_add], fun _ _ => rfl⟩
  rw [if_neg hne] at h
  obtain ⟨⟨k1, param⟩, h1, h⟩ := bind_ok.1 h
  obtain ⟨k2, h2, h⟩ := bind_ok.1 h
  cases h
  rw [← zero_add F] at hF
  obtain ⟨hF1, v1⟩ := Kernel.kmalloc_effect sized.array h1 _ hF
  obtain ⟨strings, hlen, hF2, v2, hw, -⟩ :=
    copyLoop_spec (n := 0) sized.strings (by omega) hF1 h2
  -- the word behind the last pointer ends the array
  have e3 : HeapEffect k2.mm {(param, 4 * (x.argv.length + 1))}
      (k2.withMem (store32 k2.mm.mem (param + 4 * x.argv.length) 0)).mm
      {(param, 4 * (x.argv.length + 1))} :=
    Kernel.withMem_effect fun y hy => store32_other (by omega)
  obtain ⟨hF3, v3⟩ := e3 _ hF2
  refine ⟨strings, ⟨hlen, fun i hi => ?_⟩, ?_, fun a ha => ?_⟩
  · rw [Kernel.withMem_mem, load32_store32_other (by omega), ← hw i hi, Nat.zero_add]
  · rw [argChunks, if_neg (mt List.length_eq_zero_iff.1 hne), add_comm (strings : Multiset (Nat × Nat)),
      add_assoc]
    exact hF3
  · exact (v3 a (Multiset.mem_add.2 (.inr ha))).trans ((v2 a ha).trans (v1 a ha))

/-- The copies of the arguments are given back. -/
lemma freeArgs_effect {strings : List (Nat × Nat)} (hc : Copied k.mm argc param strings)
    (hne : argc ≠ 0) (h : freeArgs k argc param = .ok k') :
    HeapEffect k.mm (argChunks argc param strings) k'.mm 0 := by
  rw [argChunks, if_neg hne]
  obtain ⟨k1, h1, h⟩ := bind_ok.1 h
  have hlen := hc.length
  rw [List.range_eq_range', ← hlen] at h1
  have hwords : ∀ i (h : i < strings.length),
      load32 k.mm.mem (param + 4 * (0 + i)) = strings[i].1 := fun i hi => by
    rw [Nat.zero_add]
    exact hc.words i hi
  have hroom : 4 * (0 + strings.length) ≤ 4 * (argc + 1) := by omega
  have e := freeLoop_effect hroom hwords h1
  exact e.trans (Kernel.kfree_effect h)

/-- `ext2_read_file` leaves the chunk of the file. -/
lemma ext2ReadFile_effect {x : ExecArgs} {r : Kernel × Nat} (sized : Sized x)
    (h : ext2ReadFile k x = .ok r) : HeapEffect k.mm 0 r.1.mm {(r.2, x.size)} := by
  obtain ⟨r1, r2, r3, r4, k5, k6, k7, k8, k9, h1, h2, h3, h4, h5, h6, h7, h8, h9, h10⟩ := ext2ReadFile_ok h
  have buffers := ((((Kernel.kmalloc_effect sized.block h1).add
    (Kernel.kmalloc_effect sized.block h2)).add (Kernel.kmalloc_effect sized.block h3)).add
    (Kernel.kmalloc_effect sized.block h4)).add (Kernel.kmalloc_effect sized.file h5)
  have frees := (((Kernel.kfree_effect (n := x.blocksize) h7).add
    (Kernel.kfree_effect (n := x.blocksize) h8)).add
    (Kernel.kfree_effect (n := x.blocksize) h9)).add (Kernel.kfree_effect (n := x.blocksize) h10)
  have reads : HeapEffect k5.mm 0 k6.mm 0 := by
    refine @Ledger.Effect.foldlM _ _ _ heapLedger _ _ _ _ Kernel.mm (fun _ => 0) _ (fun j n hn j' e => ?_) _ _ h6
    obtain ⟨q, hq, e⟩ := bind_ok.1 e
    exact (Kernel.kmalloc_effect (sized.reads n hn) hq).trans (Kernel.kfree_effect e)
  simp only [add_zero] at buffers frees
  exact (buffers.trans (((reads.frame _).cast (zero_add _) (zero_add _)).trans
    ((frees.frame {(r.2, x.size)}).cast rfl (zero_add _))))

end Args

/-! ## User memory -/

section UserMemory

variable {k k' : Kernel} {pid : Nat} {pd : PageDirectory}

/-- The chunks of the pages a process has faulted in: its user pages and its page tables. -/
def userChunks (k : Kernel) (pid : Nat) : Multiset (Nat × Nat) :=
  listChunks (k.pglist pid) + (k.pd pid).elim 0 fun pd => listChunks pd.pt

/-- Stores to user memory only add to `pglist` and to the tables of the directory. -/
lemma TouchRun.effect (h : TouchRun pid k k') (hpd : k.pd pid = some pd) :
    ∃ pt, k'.pd pid = some { pd with pt := pt } ∧
      HeapEffect k.mm (userChunks k pid) k'.mm (userChunks k' pid) := by
  induction h with
  | refl => exact ⟨pd.pt, hpd, .refl _ _⟩
  | @tail k1 k2 _ st ih =>
    obtain ⟨pt, hpd1, e⟩ := ih
    cases st with
    | @fault a mm pages pd' hf =>
      rw [hpd1] at hf
      obtain ⟨pt', rfl, e'⟩ := isrPfExc_effect hf
      refine ⟨pt', Function.update_self .., e.trans (e'.cast ?_ ?_)⟩
      · rw [userChunks, hpd1]
        rfl
      · simp only [userChunks, Function.update_self, Option.elim_some]
    | ram => exact ⟨pt, hpd1, e.trans (heapEffect_outside rfl rfl rfl)⟩
    | image => exact ⟨pt, hpd1, e⟩

lemma strcpyUser_run {fuel dst src : Nat} (h : strcpyUser pid fuel k dst src = .ok k') :
    TouchRun pid k k' := by
  induction fuel generalizing k dst src with
  | zero => cases h
  | succ fuel ih =>
    obtain ⟨k1, h1, h⟩ := bind_ok.1 h
    split at h
    · cases h
      exact storeUser_run h1
    · exact (storeUser_run h1).trans (ih h)

lemma pushWord_run {c r : Kernel × Nat} {w : Nat} (h : pushWord pid c w = .ok r) :
    TouchRun pid c.1 r.1 := by
  obtain ⟨k1, h1, h⟩ := bind_ok.1 h
  cases h
  exact storeLoop_run (fun _ _ _ => storeUser_run) h1

/-- What a part of `load_task` that writes user memory does while the chunks `A` are out. -/
def Writes (A : Multiset (Nat × Nat)) (pid : Nat) (k k' : Kernel) : Prop :=
  ∀ pd, k.pd pid = some pd → ∃ pt, k'.pd pid = some { pd with pt := pt } ∧
    HeapEffect k.mm (A + userChunks k pid) k'.mm (A + userChunks k' pid)

lemma Writes.trans {A : Multiset (Nat × Nat)} {k1 k2 k3 : Kernel} (h : Writes A pid k1 k2)
    (h' : Writes A pid k2 k3) : Writes A pid k1 k3 := by
  intro pd hpd
  obtain ⟨pt, hpd2, e⟩ := h pd hpd
  obtain ⟨pt', hpd3, e'⟩ := h' _ hpd2
  exact ⟨pt', hpd3, e.trans e'⟩

lemma TouchRun.writes (h : TouchRun pid k k') (A : Multiset (Nat × Nat)) : Writes A pid k k' := by
  intro pd hpd
  obtain ⟨pt, hpd', e⟩ := h.effect hpd
  exact ⟨pt, hpd', (e.frame A).cast (add_comm _ _) (add_comm _ _)⟩

lemma pushString_writes {argc param uparam i : Nat} {c r : Kernel × Nat} (hi : i < argc)
    (h : pushString pid param uparam c i = .ok r) : Writes {(uparam, 4 * argc)} pid c.1 r.1 := by
  obtain ⟨n, -, h⟩ := bind_ok.1 h
  obtain ⟨k1, h1, h⟩ := bind_ok.1 h
  cases h
  refine ((strcpyUser_run h1).writes _).trans fun pd hpd => ⟨pd.pt, hpd, ?_⟩
  exact (Kernel.withMem_effect fun x hx => store32_other (by omega)).frame _

/-- The arguments of `main` are pushed, and their copies are given back. -/
lemma pushArgs_effect {argc param : Nat} {strings : List (Nat × Nat)} {r : Kernel × Nat}
    (hsize : Served (4 * (argc + 1))) (hc : Copied k.mm argc param strings) (hpd : k.pd pid = some pd)
    (h : pushArgs pid k argc param = .ok r) :
    ∃ pt, r.1.pd pid = some { pd with pt := pt } ∧
      HeapEffect k.mm (argChunks argc param strings + userChunks k pid) r.1.mm
        (userChunks r.1 pid) := by
  by_cases hne : argc = 0
  · rw [pushArgs, if_pos hne] at h
    cases h
    rw [argChunks, if_pos hne, zero_add]
    exact ⟨pd.pt, hpd, .refl _ _⟩
  obtain ⟨k1, u, c2, c3, c4, c5, c6, k7, h1, h2, h3, h4, h5, h6, h7, h8⟩ := pushArgs_ok hne h
  have f1 := Kernel.kmalloc_frame h1
  have hserved : Served (4 * argc) := by
    unfold Served at hsize ⊢
    omega
  have e1 := (Kernel.kmalloc_effect hserved h1).frame (userChunks k pid)
  have w2 : Writes {(u, 4 * argc)} pid k1 c2.1 := by
    refine foldlM_mem (P := fun c => Writes {(u, 4 * argc)} pid k1 c.1)
      (fun c i hi c' hw e => hw.trans (pushString_writes (List.mem_range.1 hi) e))
      (TouchRun.writes .refl _) h2
  have w5 : TouchRun pid c2.1 c5.1 := by
    have r4 : TouchRun pid c3.1 c4.1 := foldlM_ok (P := fun c => TouchRun pid c3.1 c.1)
      (fun c i c' hr e => hr.trans (pushWord_run e)) .refl h4
    exact ((pushWord_run h3).trans r4).trans (pushWord_run h5)
  have hpd1 : k1.pd pid = some pd := by rw [f1.pd, hpd]
  obtain ⟨pt, hpd6, e6⟩ := (w2.trans (TouchRun.writes (w5.trans (pushWord_run h6)) _)) pd hpd1
  have f8 := (freeArgs_frame h7).trans (Kernel.kfree_frame h8)
  have huser : userChunks k1 pid = userChunks k pid := by
    rw [userChunks, userChunks, f1.pd, f1.pglist]
  have huser8 : userChunks r.1 pid = userChunks c6.1 pid := by
    rw [userChunks, userChunks, f8.pd, f8.pglist]
  refine ⟨pt, by rw [f8.pd, hpd6], fun F hF => ?_⟩
  rw [huser] at e6
  -- the copies are still there when they are freed
  have hF' : heapLedger.holds k.mm (userChunks k pid + (argChunks argc param strings + F)) := by
    rwa [← add_assoc, add_comm (userChunks k pid)]
  obtain ⟨hF6, v6⟩ := (e1.trans e6).cast (zero_add _) rfl _ hF'
  have hc6 := hc.congr fun a ha => v6 a (Multiset.mem_add.2 (.inl ha))
  have e8 := ((freeArgs_effect hc6 hne h7).add (Kernel.kfree_effect (n := 4 * argc) h8)).frame
    (userChunks c6.1 pid)
  have hF6' : heapLedger.holds c6.1.mm (argChunks argc param strings + {(u, 4 * argc)} +
      userChunks c6.1 pid + F) := by
    convert hF6 using 1
    abel
  obtain ⟨hF8, v8⟩ := e8 F hF6'
  refine ⟨?_, fun a ha => (v8 a ha).trans (v6 a (Multiset.mem_add.2 (.inr ha)))⟩
  rwa [add_zero, zero_add, ← huser8] at hF8

end UserMemory

/-! ## The life -/

/-- The chunks of a process that `sys_exit` knows. -/
def taskChunks (m : Machine) (pid : Nat) (pd : PageDirectory) : Multiset (Nat × Nat) :=
  userChunks m.kernel pid + {directoryChunk pd} + {(m.console pid, VCONSOLE_SIZE)}

section Load

variable {k : Kernel} {m m' : Machine} {x : ExecArgs} {l : Loading} {pid : Nat} {pd : PageDirectory}

/-- `load_task` up to the test of `e_entry`: the copy of the arguments, then the directory, the file and
the pages the segments are copied to. -/
lemma loadImage_effect (sized : Sized x) (h : loadImage k x = .ok l) :
    ∃ c pd, copyArgs { k with table := claimSlot k.table (freeSlot k.table), allocated := [] } x.argv
        x.param = .ok c ∧ l.param = c.2 ∧ l.kernel.pd (freeSlot k.table) = some pd ∧
      HeapEffect c.1.mm 0 l.kernel.mm
        (userChunks l.kernel (freeSlot k.table) + ({directoryChunk pd} + {pageChunk pd.base})) := by
  obtain ⟨c, hc, h⟩ := bind_ok.1 h
  obtain ⟨⟨s1, pd⟩, hd, h⟩ := bind_ok.1 h
  obtain ⟨⟨k2, file⟩, hf, h⟩ := bind_ok.1 h
  obtain ⟨⟨k3, entry⟩, he, h⟩ := bind_ok.1 h
  obtain ⟨k4, hk, h⟩ := bind_ok.1 h
  cases h
  obtain ⟨e1, hpt⟩ := pdCreate_effect hd
  have e2 := ext2ReadFile_effect sized hf
  have f2 := ext2ReadFile_frame hf
  have hpd2 : k2.pd (freeSlot k.table) = some pd := by
    rw [f2.pd]
    exact Function.update_self ..
  obtain ⟨pt, hpd3, e3⟩ := (loadElfInto_spec he).1.effect hpd2
  have f4 := Kernel.kfree_frame hk
  have e4 := Kernel.kfree_effect (n := x.size) hk
  have huser2 : userChunks k2 (freeSlot k.table) = 0 := by
    rw [userChunks, hpd2, f2.pglist]
    change listChunks (Function.update c.1.pglist (freeSlot k.table) [] (freeSlot k.table)) +
      listChunks pd.pt = 0
    rw [Function.update_self, hpt]
    rfl
  have huser4 : userChunks k4 (freeSlot k.table) = userChunks k3 (freeSlot k.table) := by
    rw [userChunks, userChunks, f4.pd, f4.pglist]
  refine ⟨c, { pd with pt := pt }, hc, rfl, by rw [f4.pd, hpd3], ?_⟩
  rw [huser2] at e3
  rw [huser4]
  have e0 : HeapEffect s1 0 { s1 with cr3 := pd.base.pAddr } 0 := heapEffect_outside rfl rfl rfl
  have e := ((e1.add e0).add e2).add e3
  refine (e.trans ((e4.frame (userChunks k3 (freeSlot k.table) +
    ({directoryChunk pd} + {pageChunk pd.base}))).cast ?_ ?_)).cast ?_ rfl
  · abel
  · rw [zero_add]
    rfl
  · abel

end Load

end Creeks
