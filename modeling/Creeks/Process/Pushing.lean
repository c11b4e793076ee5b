import Creeks.Process.Isolation

/-!
# Pushing the arguments

`load_task` copies the arguments of a program to the kernel heap and from there downwards to the user stack of
the new process, while the page faults of the copy take pages and chunks of the heap. `MainFrame` is what the
process is to find there: `argc`, a pointer to the array, the array with the null pointer behind it, and the
strings. `Writable.pushArgs` says that it is there after the copy, and `copyArgs_text` that the copies in the
heap are the arguments.
-/

namespace Creeks
open Lib

/-- The process sees the text at `a`. -/
def SeesText (see : Nat → Option UInt8) (a : Nat) (text : List UInt8) : Prop :=
  ∀ i (h : i < text.length), see (a + i) = some text[i]

/-- The bytes of a word. -/
def wordBytes (w : Nat) : List UInt8 := (List.range 4).map fun i => UInt8.ofNat (w / 256 ^ i)

/-- The first `n` strings of `argv` lie between `lo` and `hi`, each with its final zero below the one before. -/
structure Strings (see : Nat → Option UInt8) (argv : List (List UInt8)) (n lo hi : Nat) (ptr : Nat → Nat) :
    Prop where
  text : ∀ i (h : i < argv.length), i < n → SeesText see (ptr i) (argv[i] ++ [0])
  room : ∀ i (h : i < argv.length), i < n → lo ≤ ptr i ∧ ptr i + argv[i].length < hi
  apart : ∀ i (h : i + 1 < argv.length), i + 1 < n → ptr (i + 1) + argv[i + 1].length < ptr i

/-- The frame of `main` at `esp`: behind the place of the return address `argc` and the array, then the array
itself with the null pointer, and above it the strings. -/
structure MainFrame (see : Nat → Option UInt8) (esp : Nat) (argv : List (List UInt8)) (ptr : Nat → Nat) :
    Prop where
  low : USER_OFFSET ≤ esp + 4
  argc : SeesText see (esp + 4) (wordBytes argv.length)
  array : SeesText see (esp + 8) (wordBytes (esp + 12))
  pointers : ∀ i < argv.length, SeesText see (esp + 12 + 4 * i) (wordBytes (ptr i))
  last : SeesText see (esp + 12 + 4 * argv.length) (wordBytes 0)
  strings : Strings see argv argv.length (esp + 16 + 4 * argv.length) USER_STACK ptr

section Texts

variable {see see' : Nat → Option UInt8} {a esp : Nat} {text : List UInt8} {argv : List (List UInt8)}
  {ptr : Nat → Nat}

lemma SeesText.mono (h : SeesText see a text)
    (hsee : ∀ c b, a ≤ c → c < a + text.length → see c = some b → see' c = some b) : SeesText see' a text :=
  fun i hi => hsee _ _ (Nat.le_add_right _ _) (Nat.add_lt_add_left hi a) (h i hi)

lemma length_wordBytes (w : Nat) : (wordBytes w).length = 4 := by
  rw [wordBytes, List.length_map, List.length_range]

lemma length_zero (text : List UInt8) : (text ++ [0]).length = text.length + 1 := by
  rw [List.length_append, List.length_singleton]

/-- The frame lies in user space. -/
lemma MainFrame.mono (h : MainFrame see esp argv ptr) (hne : argv ≠ [])
    (hsee : ∀ c b, USER_OFFSET ≤ c → c < USER_STACK → see c = some b → see' c = some b) :
    MainFrame see' esp argv ptr := by
  have hlo := h.low
  have hpos := List.length_pos_iff.2 hne
  have htop := h.strings.room 0 hpos hpos
  have word : ∀ {a w}, esp + 4 ≤ a → a < esp + 16 + 4 * argv.length - 3 → SeesText see a (wordBytes w) →
      SeesText see' a (wordBytes w) := fun h1 h2 hs => hs.mono fun c b hc1 hc2 => by
    rw [length_wordBytes] at hc2
    exact hsee c b (by omega) (by omega)
  refine ⟨hlo, word (by omega) (by omega) h.argc, word (by omega) (by omega) h.array,
    fun i hi => word (by omega) (by omega) (h.pointers i hi), word (by omega) (by omega) h.last,
    fun i hi hin => ?_, h.strings.room, h.strings.apart⟩
  have hroom := h.strings.room i hi hin
  refine (h.strings.text i hi hin).mono fun c b hc1 hc2 => hsee c b (by omega) ?_
  rw [length_zero] at hc2
  omega

end Texts

/-! ## Writing downwards -/

/-- Process `pid` has written bytes from `lo` to `hi`, and the chunks `G` among those that are out, `F`, are
what they were. -/
structure Pushes (k k' : Kernel) (pid : Nat) (pd pd' : PageDirectory) (kernel users : List Page)
    (F G : Multiset (Nat × Nat)) (lo hi : Nat) : Prop where
  wrote : Wrote k k' pid pd pd' kernel users fun c => lo ≤ c ∧ c < hi
  chunks : heapLedger.holds k'.mm (userChunks k' pid + F)
  same : ∀ a ∈ G, payload a k'.mm = payload a k.mm

/-- A process that can be given bytes, while the chunks `F` are out. -/
structure Writable (k : Kernel) (pid : Nat) (pd : PageDirectory) (kernel users : List Page)
    (F : Multiset (Nat × Nat)) : Prop where
  space : InSpace k pid pd kernel users
  chunks : heapLedger.holds k.mm (userChunks k pid + F)

section Push

variable {k k1 k' : Kernel} {pid a p j n : Nat} {pd pd1 pd' : PageDirectory} {kernel users : List Page}
  {F G : Multiset (Nat × Nat)} {lo hi lo' hi' : Nat} {b : UInt8} {text : List UInt8}

lemma Pushes.writable (h : Pushes k k' pid pd pd' kernel users F G lo hi) :
    Writable k' pid pd' kernel users F := ⟨h.wrote.space, h.chunks⟩

lemma Writable.refl (h : Writable k pid pd kernel users F) : Pushes k k pid pd pd kernel users F G lo hi :=
  ⟨.refl h.space, h.chunks, fun _ _ => rfl⟩

lemma Pushes.mono (h : Pushes k k' pid pd pd' kernel users F G lo hi) (hlo : lo' ≤ lo) (hhi : hi ≤ hi') :
    Pushes k k' pid pd pd' kernel users F G lo' hi' :=
  ⟨h.wrote.mono fun _ hc => ⟨hlo.trans hc.1, hc.2.trans_le hhi⟩, h.chunks, h.same⟩

lemma Pushes.trans (h : Pushes k k1 pid pd pd1 kernel users F G lo hi)
    (h' : Pushes k1 k' pid pd1 pd' kernel users F G lo hi) : Pushes k k' pid pd pd' kernel users F G lo hi :=
  ⟨h.wrote.trans h'.wrote, h'.chunks, fun a ha => (h'.same a ha).trans (h.same a ha)⟩

/-- What lies outside stays. -/
lemma Pushes.keep (h : Pushes k k' pid pd pd' kernel users F G lo hi) (hs : SeesText (userByte k.mm) a text)
    (hlo : USER_OFFSET ≤ a) (hhi : a + text.length ≤ USER_STACK) (hout : a + text.length ≤ lo ∨ hi ≤ a) :
    SeesText (userByte k'.mm) a text :=
  hs.mono fun c b h1 h2 => h.wrote.keeps c b (by omega) (by omega) fun hc => by omega

/-- One byte is stored. -/
lemma Writable.store (h : Writable k pid pd kernel users F) (e : storeUser pid k a b = .ok k')
    (hhi : a < USER_STACK) (no : NoFlags k'.mm) : ∃ pd', Pushes k k' pid pd pd' kernel users F F a (a + 1) ∧
      USER_OFFSET ≤ a ∧ userByte k'.mm a = some b := by
  obtain ⟨pd', wrote, hself⟩ := h.space.store hhi e no.oom no.stale
  obtain ⟨pt, -, effect⟩ := (storeUser_run e).effect h.space.own
  obtain ⟨holds, same⟩ := effect F h.chunks
  refine ⟨pd', ⟨wrote.mono fun c hc => ?_, holds, same⟩, ?_, hself⟩
  · omega
  · unfold storeUser at e
    split at e
    · cases e
    · rename_i hlo
      exact not_lt.1 hlo

/-- A loop of stores. -/
lemma Writable.stores {f : Nat → UInt8} (h : Writable k pid pd kernel users F)
    (e : (List.range' j n).foldlM (fun k i => storeUser pid k (wrap (p + i)) (f i)) k = .ok k')
    (hhi : p + (j + n) ≤ USER_STACK) (no : NoFlags k'.mm) :
    ∃ pd', Pushes k k' pid pd pd' kernel users F F (p + j) (p + (j + n)) ∧ (n ≠ 0 → USER_OFFSET ≤ p + j) ∧
      ∀ i, j ≤ i → i < j + n → userByte k'.mm (p + i) = some (f i) := by
  induction n generalizing k j pd with
  | zero =>
    cases e
    exact ⟨pd, h.refl, fun h => absurd rfl h, fun i h1 h2 => by omega⟩
  | succ n ih =>
    rw [List.range'_succ, List.foldlM_cons] at e
    obtain ⟨k1, h1, e⟩ := bind_ok.1 e
    have hwrap : wrap (p + j) = p + j := wrap_of_lt (by simp only [USER_STACK] at hhi; omega)
    rw [hwrap] at h1
    have no1 : NoFlags k1.mm := by
      have moves : Moves pid (p + (j + 1) ≤ USER_STACK) _ k1 k' := stores_moves e
      exact moves.flags.down no
    obtain ⟨pd1, first, hlo, hself⟩ := h.store h1 (by omega) no1
    obtain ⟨pd2, rest, -, hrest⟩ := ih first.writable e (by omega)
    refine ⟨pd2, (first.mono (by omega) (by omega)).trans (rest.mono (by omega) (by omega)), fun _ => hlo,
      fun i hi1 hi2 => ?_⟩
    by_cases hij : i = j
    · rw [hij]
      refine rest.wrote.keeps _ _ hlo (by omega) (fun hc => ?_) hself
      omega
    · exact hrest i (by omega) (by omega)

/-- A word is pushed. -/
lemma Writable.pushWord {c r : Kernel × Nat} {w : Nat} (h : Writable c.1 pid pd kernel users F)
    (e : Creeks.pushWord pid c w = .ok r) (on : OnStack c.2) (no : NoFlags r.1.mm) :
    r.2 = c.2 - 4 ∧ OnStack r.2 ∧ ∃ pd', Pushes c.1 r.1 pid pd pd' kernel users F F r.2 c.2 ∧
      SeesText (userByte r.1.mm) r.2 (wordBytes w) := by
  obtain ⟨k1, h1, e⟩ := bind_ok.1 e
  cases e
  obtain ⟨hlo, hhi⟩ := on
  have hsub : wrap (c.2 + 4294967296 - 4) = c.2 - 4 := by
    rw [wrap_eq]
    simp only [USER_OFFSET, USER_STACK] at hlo hhi
    omega
  have hfour : 4 ≤ c.2 := by
    simp only [USER_OFFSET] at hlo
    omega
  dsimp only at no ⊢
  rw [hsub] at h1 ⊢
  rw [List.range_eq_range'] at h1
  obtain ⟨pd', pushed, hoff, hbytes⟩ := h.stores h1 (by omega) no
  refine ⟨rfl, ⟨hoff (by decide), by omega⟩, pd', pushed.mono (by omega) (by omega), fun i hi => ?_⟩
  have hi4 : i < 4 := by simpa [wordBytes] using hi
  rw [hbytes i (by omega) (by omega)]
  simp [wordBytes]

/-- The words of the array are pushed, the last one first. -/
lemma Writable.pushWords {u size : Nat} {ptr : Nat → Nat} {c r : Kernel × Nat}
    (h : Writable c.1 pid pd kernel users F)
    (e : (List.range n).reverse.foldlM (fun c i => Creeks.pushWord pid c (load32 c.1.mm.mem (u + 4 * i))) c = .ok r)
    (hu : (u, size) ∈ F) (hsize : 4 * n ≤ size) (hptr : ∀ i < n, load32 c.1.mm.mem (u + 4 * i) = ptr i)
    (on : OnStack c.2) (no : NoFlags r.1.mm) :
    r.2 + 4 * n = c.2 ∧ OnStack r.2 ∧ ∃ pd', Pushes c.1 r.1 pid pd pd' kernel users F F r.2 c.2 ∧
      ∀ i < n, SeesText (userByte r.1.mm) (r.2 + 4 * i) (wordBytes (ptr i)) := by
  induction n generalizing c pd with
  | zero =>
    cases e
    exact ⟨rfl, on, pd, h.refl, nofun⟩
  | succ n ih =>
    rw [List.range_succ, List.reverse_append, List.reverse_singleton, List.singleton_append, List.foldlM_cons] at e
    obtain ⟨c1, h1, e⟩ := bind_ok.1 e
    rw [hptr n (Nat.lt_succ_self n)] at h1
    have no1 : NoFlags c1.1.mm := by
      have flags : FlagsKept c1.1.mm r.1.mm := foldlM_ok (P := fun c => FlagsKept c1.1.mm c.1.mm)
        (fun b i b' hb eb => hb.trans (pushWord_moves eb).flags) (.refl _) e
      exact flags.down no
    obtain ⟨hc1, on1, pd1, first, hword⟩ := h.pushWord h1 on no1
    have hptr1 : ∀ i < n, load32 c1.1.mm.mem (u + 4 * i) = ptr i := fun i hi => by
      rw [load32_payload (first.same _ hu) (by omega)]
      exact hptr i (Nat.lt_succ_of_lt hi)
    obtain ⟨hr, onr, pd2, rest, hrest⟩ := ih first.writable e (by omega) hptr1 on1
    have hfour : c1.2 + 4 = c.2 := by
      have hlo := on.1
      simp only [USER_OFFSET] at hlo
      omega
    refine ⟨by omega, onr, pd2, (first.mono (by omega) (le_refl _)).trans (rest.mono (le_refl _) (by omega)),
      fun i hi => ?_⟩
    by_cases hin : i = n
    · have haddr : r.2 + 4 * i = c1.2 := by omega
      have hhi := on.2
      rw [haddr, hin]
      refine rest.keep hword on1.1 ?_ (.inr (le_refl _))
      rw [length_wordBytes]
      omega
    · exact hrest i (by omega)

/-- The kernel heap is used between the pushes. -/
lemma Writable.heap {A B : Multiset (Nat × Nat)} (h : Writable k pid pd kernel users (A + G)) (only : HeapOnly k k')
    (e : HeapEffect k.mm A k'.mm B) : Pushes k k' pid pd pd kernel users (B + G) G lo hi := by
  have holds := h.chunks
  rw [add_left_comm] at holds
  obtain ⟨after, same⟩ := e _ holds
  have huser : userChunks k' pid = userChunks k pid := by
    rw [userChunks, userChunks, only.same.pd, only.same.pglist]
  refine ⟨(only.bytes h.space).mono fun _ => False.elim, ?_, fun a ha => same a (Multiset.mem_add.2 (.inr ha))⟩
  rw [huser, add_left_comm]
  exact after

/-- Less is known to be the same. -/
lemma Pushes.less {G' : Multiset (Nat × Nat)} (h : Pushes k k' pid pd pd' kernel users F G lo hi)
    (hsub : ∀ a ∈ G', a ∈ G) : Pushes k k' pid pd pd' kernel users F G' lo hi :=
  ⟨h.wrote, h.chunks, fun a ha => h.same a (hsub a ha)⟩

end Push

/-! ## The strings -/

/-- The chunk of a string, with its final zero. -/
structure StringChunk (s : Mm) (c : Nat × Nat) (text : List UInt8) : Prop where
  size : c.2 = text.length + 1
  bytes : ∀ i (h : i < (text ++ [0]).length), s.mem (c.1 + i) = (text ++ [0])[i]

lemma StringChunk.congr {s t : Mm} {c : Nat × Nat} {text : List UInt8} (h : StringChunk s c text)
    (hsame : payload c t = payload c s) : StringChunk t c text := by
  refine ⟨h.size, fun i hi => ?_⟩
  have hroom : i < c.2 := by
    rw [h.size]
    simpa using hi
  rw [payload_byte hsame hroom]
  exact h.bytes i hi

lemma SeesText.cons {see : Nat → Option UInt8} {a : Nat} {c : UInt8} {text : List UInt8} (hc : see a = some c)
    (h : SeesText see (a + 1) text) : SeesText see a (c :: text) := fun i hi => by
  cases i with
  | zero => exact hc
  | succ i =>
    have haddr : a + (i + 1) = a + 1 + i := by omega
    rw [haddr]
    exact h i (Nat.lt_of_succ_lt_succ hi)

section Copy

variable {k k' : Kernel} {pid p dst fuel : Nat} {pd : PageDirectory} {kernel users : List Page}
  {F G : Multiset (Nat × Nat)} {text : List UInt8}

lemma strlen_text {m : Mem} {a n : Nat} (hz : 0 ∉ text)
    (hb : ∀ i (h : i < (text ++ [0]).length), m (a + i) = (text ++ [0])[i]) (e : strlen m fuel a = .ok n) :
    n = text.length := by
  induction text generalizing fuel a n with
  | nil =>
    cases fuel with
    | zero => cases e
    | succ fuel =>
      have hzero : m a = 0 := hb 0 (Nat.zero_lt_succ _)
      rw [strlen, if_pos hzero] at e
      cases e
      rfl
  | cons c text ih =>
    cases fuel with
    | zero => cases e
    | succ fuel =>
      have hc : m a = c := hb 0 (Nat.zero_lt_succ _)
      have hne : m a ≠ 0 := fun h => hz (by rw [← h, hc]; exact List.mem_cons_self)
      rw [strlen, if_neg hne] at e
      obtain ⟨l, hl, e⟩ := bind_ok.1 e
      cases e
      have hrest : ∀ i (h : i < (text ++ [0]).length), m (a + 1 + i) = (text ++ [0])[i] := fun i hi => by
        have haddr : a + 1 + i = a + (i + 1) := by omega
        rw [haddr]
        exact hb (i + 1) (Nat.succ_lt_succ hi)
      rw [ih (fun h => hz (List.mem_cons_of_mem _ h)) hrest hl, List.length_cons]

/-- A string is copied to the stack. -/
lemma Writable.strcpy {size o : Nat} (h : Writable k pid pd kernel users F)
    (e : strcpyUser pid fuel k dst (p + o) = .ok k') (hp : (p, size) ∈ F) (hroom : o + text.length + 1 ≤ size)
    (hz : 0 ∉ text) (hb : ∀ i (h : i < (text ++ [0]).length), k.mm.mem (p + o + i) = (text ++ [0])[i])
    (hhi : dst + text.length < USER_STACK) (no : NoFlags k'.mm) :
    ∃ pd', Pushes k k' pid pd pd' kernel users F F dst (dst + text.length + 1) ∧ USER_OFFSET ≤ dst ∧
      SeesText (userByte k'.mm) dst (text ++ [0]) := by
  induction text generalizing fuel k dst o pd with
  | nil =>
    cases fuel with
    | zero => cases e
    | succ fuel =>
      have hzero : k.mm.mem (p + o) = 0 := hb 0 (Nat.zero_lt_succ _)
      obtain ⟨k1, h1, e⟩ := bind_ok.1 e
      rw [hzero, if_pos rfl] at e
      cases e
      rw [hzero] at h1
      obtain ⟨pd', pushed, hlo, hself⟩ := h.store h1 hhi no
      exact ⟨pd', pushed, hlo, .cons hself nofun⟩
  | cons c text ih =>
    cases fuel with
    | zero => cases e
    | succ fuel =>
      have hc : k.mm.mem (p + o) = c := hb 0 (Nat.zero_lt_succ _)
      have hne : c ≠ 0 := fun h => hz (h ▸ List.mem_cons_self)
      rw [List.length_cons] at hroom hhi
      obtain ⟨k1, h1, e⟩ := bind_ok.1 e
      have hwrap : wrap (dst + 1) = dst + 1 := wrap_of_lt (by simp only [USER_STACK] at hhi; omega)
      rw [hc, if_neg hne, hwrap, Nat.add_assoc] at e
      rw [hc] at h1
      obtain ⟨pd1, first, hlo, hself⟩ := h.store h1 (by omega) ((strcpyUser_moves e).flags.down no)
      have hrest : ∀ i (h : i < (text ++ [0]).length), k1.mm.mem (p + (o + 1) + i) = (text ++ [0])[i] := fun i hi => by
        have hi' : i < text.length + 1 := by simpa using hi
        have hnext := hb (i + 1) (Nat.succ_lt_succ hi)
        have haddr : p + (o + 1) + i = p + (o + 1 + i) := by omega
        have haddr' : p + (o + 1 + i) = p + o + (i + 1) := by omega
        rw [haddr, payload_byte (a := (p, size)) (first.same _ hp) (show o + 1 + i < size by omega), haddr', hnext]
        rfl
      obtain ⟨pd2, rest, -, hsees⟩ := ih first.writable e (by omega) (fun h => hz (List.mem_cons_of_mem _ h)) hrest
        (by omega)
      have hend : dst + (c :: text).length + 1 = dst + 1 + text.length + 1 := by
        rw [List.length_cons]
        omega
      rw [hend]
      refine ⟨pd2, (first.mono (le_refl _) (by omega)).trans (rest.mono (by omega) (le_refl _)), hlo, .cons ?_ hsees⟩
      exact rest.wrote.keeps _ _ hlo (by omega) (fun hc => by omega) hself

/-- One turn of the loop: the string lies on the stack, and its address is in the array. -/
lemma Writable.pushString {c r : Kernel × Nat} {param u size i : Nat} {str : Nat × Nat}
    (h : Writable c.1 pid pd kernel users ({(u, size)} + G))
    (e : Creeks.pushString pid param u c i = .ok r) (hstr : str ∈ G) (ht : StringChunk c.1.mm str text)
    (hz : 0 ∉ text) (hword : load32 c.1.mm.mem (param + 4 * i) = str.1) (hi : 4 * i + 4 ≤ size)
    (hfit : ∀ l, strlen c.1.mm.mem LOOP_MAX (load32 c.1.mm.mem (param + 4 * i)) = .ok l → l < c.2)
    (hhi : c.2 ≤ USER_STACK) (no : NoFlags r.1.mm) :
    r.2 + text.length + 1 = c.2 ∧ USER_OFFSET ≤ r.2 ∧
      (∃ pd', Pushes c.1 r.1 pid pd pd' kernel users ({(u, size)} + G) G r.2 c.2) ∧
      SeesText (userByte r.1.mm) r.2 (text ++ [0]) ∧ load32 r.1.mm.mem (u + 4 * i) = r.2 ∧
      ∀ j, j ≠ i → 4 * j + 4 ≤ size → load32 r.1.mm.mem (u + 4 * j) = load32 c.1.mm.mem (u + 4 * j) := by
  obtain ⟨n, hn, e⟩ := bind_ok.1 e
  obtain ⟨k1, h1, e⟩ := bind_ok.1 e
  cases e
  have hlen := hfit n hn
  rw [hword] at hn h1
  obtain rfl : n = text.length := strlen_text hz ht.bytes hn
  have hsub : wrap (c.2 + 4294967296 - (text.length + 1)) = c.2 - (text.length + 1) := by
    rw [wrap_eq]
    simp only [USER_STACK] at hhi
    omega
  dsimp only at no ⊢
  rw [hsub] at h1 ⊢
  have hstr' : (str.1, str.2) ∈ ({(u, size)} : Multiset (Nat × Nat)) + G := Multiset.mem_add.2 (.inr hstr)
  obtain ⟨pd1, pushed, hlo, hsees⟩ := h.strcpy (o := 0) h1 hstr' (by rw [ht.size]; omega) hz ht.bytes (by omega)
    ⟨no.oom, no.stale⟩
  have edit : HeapEffect k1.mm {(u, size)} (k1.withMem (store32 k1.mm.mem (u + 4 * i) (c.2 - (text.length + 1)))).mm
      {(u, size)} := Kernel.withMem_effect fun x hx => store32_other (by omega)
  have entered : Pushes k1 _ pid pd1 pd1 kernel users ({(u, size)} + G) G 0 0 :=
    pushed.writable.heap (.withMem k1 _) edit
  have hu : (u, size) ∈ ({(u, size)} : Multiset (Nat × Nat)) + G :=
    Multiset.mem_add.2 (.inl (Multiset.mem_singleton_self _))
  have hsmall : (c.2 - (text.length + 1)) % 4294967296 = c.2 - (text.length + 1) := by
    refine Nat.mod_eq_of_lt ?_
    simp only [USER_STACK] at hhi
    omega
  refine ⟨by omega, hlo, ⟨pd1, ?_⟩, ?_, ?_, fun j hj hle => ?_⟩
  · refine ((pushed.less fun a ha => Multiset.mem_add.2 (.inr ha)).mono (le_refl _) (by omega)).trans ?_
    exact pushed.writable.heap (.withMem k1 _) edit
  · refine entered.keep hsees hlo ?_ (.inr (Nat.zero_le _))
    rw [length_zero]
    omega
  · rw [Kernel.withMem_mem, load32_store32, hsmall]
  · rw [Kernel.withMem_mem, load32_store32_other (by omega)]
    exact load32_payload (pushed.same _ hu) hle

end Copy

/-- The strings a loop has pushed, with the array of their addresses. -/
structure PushedStrings (k : Kernel) (argv : List (List UInt8)) (n lo hi u : Nat) (ptr : Nat → Nat) : Prop where
  strings : Strings (userByte k.mm) argv n lo hi ptr
  words : ∀ i < n, load32 k.mm.mem (u + 4 * i) = ptr i

/-- The copies of `argv` that are in the array `param`. -/
structure Copies (s : Mm) (argv : List (List UInt8)) (param : Nat) (strings : List (Nat × Nat)) : Prop where
  copied : Copied s argv.length param strings
  chunks : ∀ i (h : i < argv.length) (h' : i < strings.length), StringChunk s strings[i] argv[i]

section Loop

variable {k k' : Kernel} {pid param u size n : Nat} {pd : PageDirectory} {kernel users : List Page}
  {G : Multiset (Nat × Nat)} {argv : List (List UInt8)} {strings : List (Nat × Nat)}

lemma Copies.congr {s t : Mm} (h : Copies s argv param strings)
    (hv : ∀ a ∈ argChunks argv.length param strings, payload a t = payload a s) : Copies t argv param strings where
  copied := h.copied.congr hv
  chunks := fun i hi hi' => by
    refine (h.chunks i hi hi').congr (hv _ ?_)
    rw [argChunks, if_neg (by omega)]
    exact Multiset.mem_add.2 (.inl (Multiset.mem_coe.2 (List.getElem_mem hi')))

/-- The strings are pushed one below the other. -/
lemma Writable.pushStrings {c r : Kernel × Nat} (h : Writable c.1 pid pd kernel users ({(u, size)} + G))
    (e : (List.range n).foldlM (Creeks.pushString pid param u) c = .ok r) (hn : n ≤ argv.length)
    (hcopies : Copies c.1.mm argv param strings) (hG : ∀ a ∈ argChunks argv.length param strings, a ∈ G)
    (hz : ∀ arg ∈ argv, 0 ∉ arg) (hsize : 4 * n ≤ size)
    (hfit : ∀ i < n, ∀ c', (List.range i).foldlM (Creeks.pushString pid param u) c = .ok c' →
      ∀ l, strlen c'.1.mm.mem LOOP_MAX (load32 c'.1.mm.mem (param + 4 * i)) = .ok l → l < c'.2)
    (hhi : c.2 ≤ USER_STACK) (no : NoFlags r.1.mm) :
    r.2 ≤ c.2 ∧ (n ≠ 0 → USER_OFFSET ≤ r.2) ∧
      (∃ pd', Pushes c.1 r.1 pid pd pd' kernel users ({(u, size)} + G) G r.2 c.2) ∧
      ∃ ptr, PushedStrings r.1 argv n r.2 c.2 u ptr := by
  induction n generalizing r with
  | zero =>
    cases e
    exact ⟨le_refl _, fun h => absurd rfl h, ⟨pd, h.refl⟩, fun _ => 0, ⟨nofun, nofun, nofun⟩, nofun⟩
  | succ n ih =>
    rw [List.range_succ, List.foldlM_append] at e
    obtain ⟨c1, h1, e⟩ := bind_ok.1 e
    rw [List.foldlM_cons] at e
    obtain ⟨c2, h2, e⟩ := bind_ok.1 e
    cases e
    obtain ⟨hle, -, ⟨pd1, before⟩, ptr, ⟨text, room, apart⟩, words⟩ := ih h1 (by omega) (by omega)
      (fun i hi => hfit i (Nat.lt_succ_of_lt hi)) ((pushString_moves h2).flags.down no)
    have now := hcopies.congr fun a ha => before.same a (hG a ha)
    have hlen : n < strings.length := by rw [now.copied.length]; exact hn
    have hmem : strings[n] ∈ G := hG _ (by
      rw [argChunks, if_neg (by omega)]
      exact Multiset.mem_add.2 (.inl (Multiset.mem_coe.2 (List.getElem_mem hlen))))
    obtain ⟨hsub, hlo, ⟨pd2, pushed⟩, hsees, hword, hothers⟩ := before.writable.pushString h2 hmem
      (now.chunks n hn hlen) (hz _ (List.getElem_mem hn)) (now.copied.words n hlen) (by omega)
      (hfit n (Nat.lt_succ_self n) c1 h1) (by omega) no
    have both := (before.mono (by omega) (le_refl _)).trans (pushed.mono (le_refl r.2) hle)
    refine ⟨by omega, fun _ => hlo, ⟨pd2, both⟩,
      Function.update ptr n r.2, ⟨fun i hi hin => ?_, fun i hi hin => ?_, fun i hi hin => ?_⟩, fun i hin => ?_⟩
    · by_cases heq : i = n
      · subst heq
        rw [Function.update_self]
        exact hsees
      · have hold := room i hi (by omega)
        rw [Function.update_of_ne heq]
        refine pushed.keep (text i hi (by omega)) (by omega) ?_ (.inr hold.1)
        rw [length_zero]
        omega
    · by_cases heq : i = n
      · subst heq
        rw [Function.update_self]
        omega
      · have hold := room i hi (by omega)
        rw [Function.update_of_ne heq]
        omega
    · have hne : i ≠ n := by omega
      have hold := room i (by omega) (by omega)
      rw [Function.update_of_ne hne]
      by_cases heq : i + 1 = n
      · subst heq
        rw [Function.update_self]
        omega
      · rw [Function.update_of_ne heq]
        exact apart i hi (by omega)
    · by_cases heq : i = n
      · rw [heq, Function.update_self]
        exact hword
      · rw [Function.update_of_ne heq, hothers i heq (by omega)]
        exact words i (by omega)

lemma Strings.keep {k0 k1 : Kernel} {pd1 : PageDirectory} {F : Multiset (Nat × Nat)} {lo hi lo' hi' : Nat}
    {ptr : Nat → Nat} (h : Strings (userByte k0.mm) argv n lo hi ptr) (hlo : USER_OFFSET ≤ lo) (hhi : hi ≤ USER_STACK)
    (p : Pushes k0 k1 pid pd pd1 kernel users F G lo' hi') (hout : hi' ≤ lo) :
    Strings (userByte k1.mm) argv n lo hi ptr := by
  refine ⟨fun i hi hin => ?_, h.room, h.apart⟩
  have hroom := h.room i hi hin
  refine p.keep (h.text i hi hin) (by omega) ?_ (.inr (by omega))
  rw [length_zero]
  omega

/-- The part of `load_task` that puts the arguments of `main` on the stack. -/
lemma Writable.pushArgs {r : Kernel × Nat} (h : Writable k pid pd kernel users G) (hne : argv ≠ [])
    (hserved : Served (4 * (argv.length + 1))) (hcopies : Copies k.mm argv param strings)
    (hG : ∀ a ∈ argChunks argv.length param strings, a ∈ G) (hz : ∀ arg ∈ argv, 0 ∉ arg)
    (hfit : StackHolds pid k argv.length param) (e : Creeks.pushArgs pid k argv.length param = .ok r)
    (no : NoFlags r.1.mm) :
    ∃ pd' ptr, InSpace r.1 pid pd' kernel users ∧ MainFrame (userByte r.1.mm) r.2 argv ptr := by
  have hlen : argv.length ≠ 0 := mt List.length_eq_zero_iff.1 hne
  rw [Creeks.pushArgs, if_neg hlen] at e
  obtain ⟨⟨k1, u⟩, h1, e⟩ := bind_ok.1 e
  obtain ⟨c2, h2, e⟩ := bind_ok.1 e
  obtain ⟨c3, h3, e⟩ := bind_ok.1 e
  obtain ⟨c4, h4, e⟩ := bind_ok.1 e
  obtain ⟨c5, h5, e⟩ := bind_ok.1 e
  obtain ⟨c6, h6, e⟩ := bind_ok.1 e
  obtain ⟨k7, h7, e⟩ := bind_ok.1 e
  obtain ⟨k8, h8, e⟩ := bind_ok.1 e
  cases e
  dsimp only at no h2 h3 h4 ⊢
  have hserved' : Served (4 * argv.length) := by
    unfold Served at hserved ⊢
    omega
  have freed : HeapOnly c6.1 k8 := (HeapOnly.freeArgs h7).trans (.kfree h8)
  have no6 := freed.flags.down no
  have no5 := (pushWord_moves h6).flags.down no6
  have no4 := (pushWord_moves h5).flags.down no5
  have no3 : NoFlags c3.1.mm := by
    have flags : FlagsKept c3.1.mm c4.1.mm := foldlM_ok (P := fun c => FlagsKept c3.1.mm c.1.mm)
      (fun b i b' hb eb => hb.trans (pushWord_moves eb).flags) (.refl _) h4
    exact flags.down no4
  have no2 : NoFlags c2.1.mm := (pushWord_moves h3).flags.down no3
  -- the array of the addresses
  have taken : Pushes k k1 pid pd pd kernel users ({(u, 4 * argv.length)} + G) G 0 0 := by
    rw [← zero_add G] at h
    exact h.heap (.kmalloc hserved' h1) (Kernel.kmalloc_effect hserved' h1)
  have copies1 := hcopies.congr fun a ha => taken.same a (hG a ha)
  obtain ⟨hle, hlo, ⟨pd2, pushed⟩, ptr, strings2, words⟩ := taken.writable.pushStrings (c := (k1, USER_STACK - 16)) h2
    (le_refl _) copies1 hG hz (le_refl _) (fun i hi c hc l hl => hfit (k1, u) c i l h1 hi hc hl) (Nat.sub_le _ _) no2
  dsimp only at hle strings2
  have on2 : OnStack c2.2 := ⟨hlo hlen, hle.trans (Nat.sub_le _ _)⟩
  have on := aligned_onStack on2
  have halign : c2.2 &&& 0xFFFFFFF0 ≤ c2.2 := Nat.and_le_left
  have hu : (u, 4 * argv.length) ∈ ({(u, 4 * argv.length)} : Multiset (Nat × Nat)) + G :=
    Multiset.mem_add.2 (.inl (Multiset.mem_singleton_self _))
  -- the null pointer, the array, its address and `argc`
  obtain ⟨e3, on3, pd3, null, hnull⟩ :=
    Writable.pushWord (c := (c2.1, c2.2 &&& 0xFFFFFFF0)) pushed.writable h3 on no3
  have words3 : ∀ i < argv.length, load32 c3.1.mm.mem (u + 4 * i) = ptr i := fun i hi => by
    rw [load32_payload (null.same _ hu) (by omega)]
    exact words i hi
  obtain ⟨e4, on4, pd4, array, harray⟩ := null.writable.pushWords h4 hu (le_refl _) words3 on3 no4
  obtain ⟨e5, on5, pd5, addr, haddr⟩ := array.writable.pushWord h5 on4 no5
  obtain ⟨e6, on6, pd6, argc, hargc⟩ := addr.writable.pushWord h6 on5 no6
  dsimp only at e3 null
  have hword : 64 ≤ USER_OFFSET := by decide
  have hlo6 := on6.1
  have hhi := on.2
  have hesp : wrap (c6.2 + 4294967296 - 4) = c6.2 - 4 := by
    have hhi6 := on6.2
    rw [wrap_eq]
    simp only [USER_STACK] at hhi6
    omega
  -- what is pushed lies below what was pushed before
  have frame : MainFrame (userByte c6.1.mm) (c6.2 - 4) argv ptr := by
    have below4 : Pushes c4.1 c6.1 pid pd4 pd6 kernel users _ _ c6.2 c4.2 :=
      (addr.mono (by omega) (le_refl _)).trans (argc.mono (le_refl _) (by omega))
    have below3 : Pushes c3.1 c6.1 pid pd3 pd6 kernel users _ _ c6.2 c3.2 :=
      (array.mono (by omega) (le_refl _)).trans (below4.mono (le_refl _) (by omega))
    have below2 : Pushes c2.1 c6.1 pid pd2 pd6 kernel users _ _ c6.2 (c2.2 &&& 0xFFFFFFF0) :=
      (null.mono (by omega) (le_refl _)).trans (below3.mono (le_refl _) (by omega))
    have a1 : c6.2 - 4 + 4 = c6.2 := by omega
    have a2 : c6.2 - 4 + 8 = c5.2 := by omega
    have a3 : c6.2 - 4 + 12 = c4.2 := by omega
    have a4 : c4.2 + 4 * argv.length = c3.2 := by omega
    refine ⟨?_, ?_, ?_, fun i hi => ?_, ?_, ?_⟩
    · rw [a1]
      exact hlo6
    · rw [a1]
      exact hargc
    · rw [a2, a3]
      refine argc.keep haddr (by omega) ?_ (.inr (le_refl _))
      rw [length_wordBytes]
      omega
    · rw [a3]
      refine below4.keep (harray i hi) (by omega) ?_ (.inr (by omega))
      rw [length_wordBytes]
      omega
    · rw [a3, a4]
      refine below3.keep hnull (by omega) ?_ (.inr (le_refl _))
      rw [length_wordBytes]
      omega
    · obtain ⟨text, room, apart⟩ := strings2.keep on2.1 (Nat.sub_le _ _) below2 halign
      refine ⟨text, fun i hi hin => ?_, apart⟩
      have hroom := room i hi hin
      omega
  have kept := freed.bytes argc.wrote.space
  rw [hesp]
  exact ⟨pd6, ptr, kept.space, frame.mono hne fun c b h1 h2 => kept.keeps c b h1 h2 id⟩

end Loop

/-! ## The copies -/

section Copies

variable {k k' : Kernel} {param n size : Nat} {F : Multiset (Nat × Nat)} {arg : List UInt8}
  {argv : List (List UInt8)} {strings : List (Nat × Nat)}

/-- One turn of the copy, with the text of the string. -/
lemma copyArg_text (hsize : Served (arg.length + 1)) (hn : 4 * n + 4 ≤ size)
    (hF : heapLedger.holds k.mm ({(param, size)} + F)) (h : copyArg param k (arg, n) = .ok k') :
    ∃ p, heapLedger.holds k'.mm ({(param, size)} + ({(p, arg.length + 1)} + F)) ∧
      (∀ a ∈ F, payload a k'.mm = payload a k.mm) ∧ load32 k'.mm.mem (param + 4 * n) = p ∧
      (∀ i, i ≠ n → 4 * i + 4 ≤ size → load32 k'.mm.mem (param + 4 * i) = load32 k.mm.mem (param + 4 * i)) ∧
      StringChunk k'.mm (p, arg.length + 1) arg := by
  obtain ⟨p, holds, same, word, words⟩ := copyArg_spec hsize hn hF h
  refine ⟨p, holds, same, word, words, rfl, fun i hi => ?_⟩
  obtain ⟨⟨k1, q⟩, hr, h⟩ := bind_ok.1 h
  cases h
  have hq : q < 4294967296 := by
    obtain ⟨t, ht, hr⟩ := bind_ok.1 hr
    cases hr
    exact kmalloc_lt ht
  -- the string is not written over its address in the array
  have hword : load32 (storeString (store32 k1.mm.mem (param + 4 * n) q) q arg) (param + 4 * n) = q := by
    rw [← zero_add ({(param, size)} + F)] at hF
    obtain ⟨h1, -⟩ := Kernel.kmalloc_effect hsize hr _ hF
    have entered : HeapEffect k1.mm {(param, size)} (k1.withMem (store32 k1.mm.mem (param + 4 * n) q)).mm
        {(param, size)} := Kernel.withMem_effect fun x hx => store32_other (by omega)
    rw [add_left_comm] at h1
    obtain ⟨h2, -⟩ := entered _ h1
    rw [add_left_comm] at h2
    have stored : HeapEffect (k1.withMem (store32 k1.mm.mem (param + 4 * n) q)).mm {(q, arg.length + 1)}
        (k1.withMem (storeString (store32 k1.mm.mem (param + 4 * n) q) q arg)).mm {(q, arg.length + 1)} := by
      rw [← Kernel.withMem_withMem k1 (store32 k1.mm.mem (param + 4 * n) q)]
      refine Kernel.withMem_effect fun x hx => ?_
      rw [Kernel.withMem_mem, storeString, if_neg (by omega)]
    obtain ⟨-, v3⟩ := stored _ h2
    have kept := load32_payload (a := 4 * n)
      (v3 (param, size) (Multiset.mem_add.2 (.inl (Multiset.mem_singleton_self _)))) hn
    rw [Kernel.withMem_mem, Kernel.withMem_mem, load32_store32, Nat.mod_eq_of_lt hq] at kept
    exact kept
  rw [Kernel.withMem_mem] at word
  obtain rfl : p = q := word.symm.trans hword
  rw [length_zero] at hi
  have hin : p ≤ p + i ∧ p + i ≤ p + arg.length := by omega
  rw [Kernel.withMem_mem]
  dsimp only
  rw [storeString, if_pos hin, Nat.add_sub_cancel_left]
  by_cases hlt : i < arg.length
  · rw [List.getElem_append_left hlt, List.getD_eq_getElem _ _ hlt]
  · rw [List.getElem_append_right (not_lt.1 hlt), List.getD_eq_default _ _ (not_lt.1 hlt)]
    simp

/-- The loop, with the texts of the strings. -/
lemma copyLoop_text (hsize : ∀ arg ∈ argv, Served (arg.length + 1)) (hn : 4 * (n + argv.length) + 4 ≤ size)
    (hF : heapLedger.holds k.mm ({(param, size)} + F)) (h : (argv.zipIdx n).foldlM (copyArg param) k = .ok k') :
    ∃ strings : List (Nat × Nat), strings.length = argv.length ∧
      heapLedger.holds k'.mm ({(param, size)} + (strings + F)) ∧
      (∀ a ∈ F, payload a k'.mm = payload a k.mm) ∧
      (∀ i (h : i < strings.length), load32 k'.mm.mem (param + 4 * (n + i)) = strings[i].1) ∧
      (∀ i < n, load32 k'.mm.mem (param + 4 * i) = load32 k.mm.mem (param + 4 * i)) ∧
      ∀ i (h : i < argv.length) (h' : i < strings.length), StringChunk k'.mm strings[i] argv[i] := by
  induction argv generalizing k n F with
  | nil =>
    cases h
    exact ⟨[], rfl, by rwa [Multiset.coe_nil, zero_add], fun _ _ => rfl, nofun, fun _ _ => rfl, nofun⟩
  | cons arg argv ih =>
    rw [List.zipIdx_cons, List.foldlM_cons] at h
    obtain ⟨k1, h1, h⟩ := bind_ok.1 h
    rw [List.length_cons] at hn
    obtain ⟨p, hF1, v1, hw1, hk1, text⟩ := copyArg_text (hsize arg List.mem_cons_self) (by omega) hF h1
    obtain ⟨strings, hlen, hF2, v2, hw2, hk2, texts⟩ :=
      ih (fun a ha => hsize a (List.mem_cons_of_mem _ ha)) (by omega) hF1 h
    have hp : (p, arg.length + 1) ∈ ({(p, arg.length + 1)} : Multiset (Nat × Nat)) + F :=
      Multiset.mem_add.2 (.inl (Multiset.mem_singleton_self _))
    refine ⟨(p, arg.length + 1) :: strings, by rw [List.length_cons, List.length_cons, hlen], ?_,
      fun a ha => ?_, fun i hi => ?_, fun i hi => ?_, fun i hi hi' => ?_⟩
    · rw [← Multiset.cons_coe, ← Multiset.singleton_add, add_assoc, add_left_comm {(p, _)}]
      exact hF2
    · rw [v2 a (Multiset.mem_add.2 (.inr ha)), v1 a ha]
    · cases i with
      | zero => exact (hk2 n (Nat.lt_succ_self n)).trans hw1
      | succ i =>
        have haddr : n + (i + 1) = n + 1 + i := by omega
        rw [haddr]
        exact hw2 i (Nat.lt_of_succ_lt_succ hi)
    · rw [hk2 i (by omega), hk1 i (by omega) (by omega)]
    · cases i with
      | zero => exact text.congr (v2 _ hp)
      | succ i => exact texts i (Nat.lt_of_succ_lt_succ hi) (Nat.lt_of_succ_lt_succ hi')

/-- The copies of the arguments in the kernel heap are the arguments. -/
lemma copyArgs_text {x : ExecArgs} {r : Kernel × Nat} (sized : Sized x) (hne : x.argv ≠ [])
    (hF : heapLedger.holds k.mm F) (h : copyArgs k x.argv x.param = .ok r) :
    ∃ strings, Copies r.1.mm x.argv r.2 strings ∧
      heapLedger.holds r.1.mm (argChunks x.argv.length r.2 strings + F) := by
  rw [copyArgs, if_neg hne] at h
  obtain ⟨⟨k1, param⟩, h1, h⟩ := bind_ok.1 h
  obtain ⟨k2, h2, h⟩ := bind_ok.1 h
  cases h
  rw [← zero_add F] at hF
  obtain ⟨hF1, -⟩ := Kernel.kmalloc_effect sized.array h1 _ hF
  obtain ⟨strings, hlen, hF2, -, hw, -, texts⟩ := copyLoop_text (n := 0) sized.strings (by omega) hF1 h2
  -- the word behind the last pointer ends the array
  have e3 : HeapEffect k2.mm {(param, 4 * (x.argv.length + 1))}
      (k2.withMem (store32 k2.mm.mem (param + 4 * x.argv.length) 0)).mm {(param, 4 * (x.argv.length + 1))} :=
    Kernel.withMem_effect fun y hy => store32_other (by omega)
  obtain ⟨hF3, v3⟩ := e3 _ hF2
  refine ⟨strings, ⟨⟨hlen, fun i hi => ?_⟩, fun i hi hi' => ?_⟩, ?_⟩
  · rw [Kernel.withMem_mem, load32_store32_other (by omega), ← hw i hi, Nat.zero_add]
  · refine (texts i hi hi').congr (v3 _ ?_)
    exact Multiset.mem_add.2 (.inl (Multiset.mem_coe.2 (List.getElem_mem hi')))
  · rw [argChunks, if_neg (mt List.length_eq_zero_iff.1 hne), add_comm (strings : Multiset (Nat × Nat)), add_assoc]
    exact hF3

end Copies

end Creeks
