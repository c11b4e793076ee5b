import Creeks.Mm.Flags
import Creeks.Mm.Tally
import Creeks.Process.Chunks
import Creeks.Process.UserMemory

/-!
# What a process does in its own space

`Moves` is what the kernel does for a process while its directory is loaded, seen by the others: their
pages keep their words. The stores of `load_task` are of this kind as long as they stay below the top of
user space. Behind it lie the directory and its tables, mapped on themselves; a loop of stores that starts
in user space stops at the top, where no page is mapped.
-/

namespace Creeks
open Lib

/-- The pages of a process lie in user space. -/
def Bounded (k : Kernel) (pid : Nat) : Prop := ∀ pg ∈ k.pglist pid, pg.vAddr < USER_STACK

namespace InSpace

variable {k k' : Kernel} {pid : Nat} {pd : PageDirectory} {kernel users : List Page}

/-- The pages of the others are not those of the process. -/
lemma apart (h : InSpace k pid pd kernel users) {pg : Page} (hpg : pg ∈ kernel ++ users) :
    2048 ≤ pg.pAddr / 4096 ∧ ∀ own ∈ pd.pages ++ k.pglist pid, own.pAddr / 4096 ≠ pg.pAddr / 4096 := by
  have hframes := h.frames.held.frames
  have hnodup := h.frames.nodup
  rw [List.map_append, List.nodup_append] at hframes hnodup
  rcases List.mem_append.1 hpg with hpg | hpg
  · have hk : pg ∈ pd.pages ++ kernel := List.mem_append_right _ hpg
    obtain ⟨hlo, -, hpage⟩ := h.frames.kernel_frame hk
    refine ⟨hlo, fun own hown => ?_⟩
    rcases List.mem_append.1 hown with hown | hown
    · obtain ⟨-, -, hpage'⟩ := h.frames.kernel_frame (List.mem_append_left kernel hown)
      have hne := hframes.2.2 _ (List.mem_map_of_mem hown) _ (List.mem_map_of_mem hpg)
      omega
    · exact (h.frames.frame_ne (List.mem_append_left _ hown) hk).symm
  · have hu : pg ∈ k.pglist pid ++ users := List.mem_append_right _ hpg
    obtain ⟨hlo, -, hpage⟩ := h.frames.user_frame hu
    refine ⟨hlo, fun own hown => ?_⟩
    rcases List.mem_append.1 hown with hown | hown
    · exact h.frames.frame_ne hu (List.mem_append_left _ hown)
    · obtain ⟨-, -, hpage'⟩ := h.frames.user_frame (List.mem_append_left users hown)
      have hne := hnodup.2.2 _ (List.mem_map_of_mem hown) _ (List.mem_map_of_mem hpg)
      omega

/-- Nothing is mapped at the top of user space. -/
lemma top_unmapped (h : InSpace k pid pd kernel users) (hb : Bounded k pid) :
    walk k.mm.ram k.mm.dir USER_STACK = none := by
  rw [h.dir]
  unfold walk
  dsimp only
  have hi : USER_STACK / 4194304 = 896 := by decide
  have hj : USER_STACK / 4096 % 1024 = 0 := by decide
  rw [hi, hj]
  split
  case isFalse => rfl
  case isTrue hp =>
    obtain ⟨hsmall, -⟩ := h.map.tables 896 (by decide) (by decide) hp
    rw [hsmall, if_neg (by decide)]
    split
    case isFalse => rfl
    case isTrue hq =>
      obtain ⟨pg, hpg, hv, -⟩ := h.map.mapped 896 0 (by decide) (by decide) (by decide) hp hq
      have := hb pg hpg
      simp only [USER_STACK] at this
      omega

/-- A process sees its bytes when its pages have kept their words. -/
lemma byte_outside {s : Mm} {a : Nat} (h : InSpace k pid pd kernel users)
    (out : SameOutside k.mm.ram s.ram) (hdir : s.dir = k.mm.dir) (hlo : USER_OFFSET ≤ a) (hhi : a < USER_STACK) :
    userByte s a = userByte k.mm a := by
  have hwalk : walk s.ram k.mm.dir a = walk k.mm.ram k.mm.dir a := by
    rw [h.dir]
    refine h.map.walk_congr hlo hhi (fun i => out _ i (.inr ?_)) fun t ht i => out _ i (.inr ?_)
    · exact (h.frames.kernel_frame (List.mem_append_left _ List.mem_cons_self)).1
    · exact (h.frames.kernel_frame (List.mem_append_left _ (List.mem_cons_of_mem _ ht))).1
  unfold userByte
  rw [hdir, hwalk]
  cases hx : walk k.mm.ram k.mm.dir a with
  | none => rfl
  | some x =>
    obtain ⟨pg, hpg, -, rfl⟩ := h.page hlo hhi hx
    obtain ⟨hframe, -, hpage⟩ := h.frames.user_frame (List.mem_append_left _ hpg)
    have heq : (pg.pAddr + a % 4096) / 4096 = pg.pAddr / 4096 := by omega
    rw [Option.map_some, Option.map_some, heq, out _ _ (.inr hframe)]

end InSpace

namespace Wrote

variable {k k1 k' : Kernel} {pid : Nat} {pd pd1 pd' : PageDirectory} {kernel users : List Page}
  {A B : Nat → Prop}

lemma directory (h : Wrote k k' pid pd pd' kernel users A) : pd.pages ⊆ pd'.pages := by
  unfold PageDirectory.pages
  rw [h.base]
  exact List.cons_subset_cons _ h.tables

lemma trans (h : Wrote k k1 pid pd pd1 kernel users A) (h' : Wrote k1 k' pid pd1 pd' kernel users A) :
    Wrote k k' pid pd pd' kernel users A where
  space := h'.space
  base := h'.base.trans h.base
  tables := fun _ ht => h'.tables (h.tables ht)
  pages := fun _ hpg => h'.pages (h.pages hpg)
  keeps := fun c v h1 h2 hA hv => h'.keeps c v h1 h2 hA (h.keeps c v h1 h2 hA hv)
  outside := fun f i hf hne => by
    rw [h'.outside f i hf hne]
    refine h.outside f i hf fun pg hpg => hne pg ?_
    rcases List.mem_append.1 hpg with hpg | hpg
    · exact List.mem_append_left _ (h'.directory hpg)
    · exact List.mem_append_right _ (h'.pages hpg)

lemma mono (h : Wrote k k' pid pd pd' kernel users A) (hA : ∀ c, A c → B c) :
    Wrote k k' pid pd pd' kernel users B :=
  { h with keeps := fun c v h1 h2 hB => h.keeps c v h1 h2 (mt (hA c) hB) }

/-- The others keep their words. -/
lemma spared (h : Wrote k k' pid pd pd' kernel users A) : Spared k.mm.ram k'.mm.ram (kernel ++ users) :=
  fun _ hpg i => h.outside _ i (.inr (h.space.apart hpg).1) (h.space.apart hpg).2

/-- The directory of the kernel keeps its words. -/
lemma low (h : Wrote k k' pid pd pd' kernel users A) (i : Nat) : k'.mm.ram 1 i = k.mm.ram 1 i := by
  refine h.outside 1 i (.inl (by decide)) fun pg hpg => ?_
  rcases List.mem_append.1 hpg with hpg | hpg
  · obtain ⟨hlo, -⟩ := h.space.frames.kernel_frame (List.mem_append_left _ hpg)
    omega
  · obtain ⟨hlo, -⟩ := h.space.frames.user_frame (List.mem_append_left _ hpg)
    omega

end Wrote

/-! ## The kernel heap -/

/-- A request that `ksbrk` serves grows the heap, whatever is stored in it. -/
lemma Served.grows {s s' : Mm} {size p : Nat} (hsize : Served size) (km : KernelMap s.ram s.dir)
    (hk : KERN_HEAP ≤ s.kernHeap) (hlim : s.kernHeap ≤ KERN_HEAP_LIM) (h : kmalloc s size = .ok (s', p)) :
    Grows s s' := by
  obtain ⟨⟨t, c⟩, hs, h⟩ := bind_ok.1 h
  cases h
  have hroom : KERN_HEAP_LIM + growPages size * PAGESIZE < 4294967296 :=
    hsize.growth_lt (s := { s with kernHeap := KERN_HEAP_LIM }) (le_refl _)
  exact (kmallocSearch_grows km hk hlim hroom hs).trans (.heap _ _ _)

/-- What a part of `load_task` does that only uses the kernel heap. -/
structure HeapOnly (k k' : Kernel) : Prop where
  same : MemoryOnly k k'
  takes : Takes 0 k.mm k'.mm
  grows : KernelMap k.mm.ram k.mm.dir → KERN_HEAP ≤ k.mm.kernHeap → k.mm.kernHeap ≤ KERN_HEAP_LIM →
    Grows k.mm k'.mm

namespace HeapOnly

variable {k k1 k' : Kernel} {n a argc param : Nat} {x : ExecArgs} {r : Kernel × Nat}

lemma flags (h : HeapOnly k k') : FlagsKept k.mm k'.mm := h.takes.flags

lemma refl (k : Kernel) : HeapOnly k k := ⟨.refl k, .refl _, fun _ _ _ => .refl _⟩

lemma trans (h : HeapOnly k k1) (h' : HeapOnly k1 k') : HeapOnly k k' := by
  refine ⟨h.same.trans h'.same, h.takes.trans h'.takes, fun km hk hlim => ?_⟩
  have first := h.grows km hk hlim
  have hdir : k1.mm.dir = k.mm.dir := by rw [Mm.dir, Mm.dir, first.fields.2.2.1]
  exact first.trans (h'.grows (hdir ▸ first.map km hk) (le_trans hk first.fields.2.2.2.2.1)
    (first.kernHeap_le hlim))

lemma kmalloc (hsize : Served n) (h : k.kmalloc n = .ok r) : HeapOnly k r.1 := by
  refine ⟨Kernel.kmalloc_frame h, ?_, ?_⟩
  all_goals
    obtain ⟨q, hq, h⟩ := bind_ok.1 h
    cases h
  · exact .kmalloc hsize hq
  · exact fun km hk hlim => hsize.grows km hk hlim hq

lemma kfree (h : k.kfree a = .ok k') : HeapOnly k k' := by
  refine ⟨Kernel.kfree_frame h, ?_, ?_⟩
  all_goals
    obtain ⟨mm, hf, h⟩ := bind_ok.1 h
    cases h
  · exact .kfree hf
  · obtain ⟨mem, used, rfl⟩ := kfree_frame hf
    exact fun _ _ _ => .heap _ mem used

lemma withMem (k : Kernel) (mem : Mem) : HeapOnly k (k.withMem mem) :=
  ⟨k.withMem_frame mem, .withHeap .., fun _ _ _ => .heap ..⟩

lemma loop {α : Type} {f : Kernel → α → Except Stop Kernel} {l : List α}
    (hf : ∀ j, ∀ a ∈ l, ∀ j', f j a = .ok j' → HeapOnly j j') (h : l.foldlM f k = .ok k') : HeapOnly k k' :=
  foldlM_mem (P := HeapOnly k) (fun j a ha j' hj e => hj.trans (hf j a ha j' e)) (.refl k) h

lemma copyArgs (sized : Sized x) (h : Creeks.copyArgs k x.argv x.param = .ok r) : HeapOnly k r.1 := by
  unfold Creeks.copyArgs at h
  split at h
  · cases h
    exact .refl k
  · obtain ⟨q, hq, h⟩ := bind_ok.1 h
    obtain ⟨k1, h1, h⟩ := bind_ok.1 h
    cases h
    refine ((HeapOnly.kmalloc sized.array hq).trans (loop (fun j arg harg j' e => ?_) h1)).trans (.withMem _ _)
    obtain ⟨str, hstr, e⟩ := bind_ok.1 e
    cases e
    have hmem : arg.1 ∈ x.argv := List.fst_mem_of_mem_zipIdx harg
    exact (HeapOnly.kmalloc (sized.strings _ hmem) hstr).trans (.withMem _ _)

lemma freeArgs (h : Creeks.freeArgs k argc param = .ok k') : HeapOnly k k' := by
  obtain ⟨k1, h1, h⟩ := bind_ok.1 h
  exact (loop (fun _ _ _ _ => HeapOnly.kfree) h1).trans (.kfree h)

lemma ext2ReadFile (sized : Sized x) (h : Creeks.ext2ReadFile k x = .ok r) : HeapOnly k r.1 := by
  obtain ⟨r1, r2, r3, r4, k5, k6, k7, k8, k9, h1, h2, h3, h4, h5, h6, h7, h8, h9, h10⟩ := ext2ReadFile_ok h
  have buffers := ((((HeapOnly.kmalloc sized.block h1).trans (.kmalloc sized.block h2)).trans
    (.kmalloc sized.block h3)).trans (.kmalloc sized.block h4)).trans (.kmalloc sized.file h5)
  have reads : HeapOnly k5 k6 := loop (fun j n hn j' e => by
    obtain ⟨q, hq, e⟩ := bind_ok.1 e
    exact (HeapOnly.kmalloc (sized.reads n hn) hq).trans (.kfree e)) h6
  have frees := (((HeapOnly.kfree h7).trans (.kfree h8)).trans (.kfree h9)).trans (.kfree h10)
  exact (buffers.trans reads).trans frees

/-- The kernel heap has no bytes of the process. -/
lemma bytes {pid : Nat} {pd : PageDirectory} {kernel users : List Page} (only : HeapOnly k k')
    (space : InSpace k pid pd kernel users) : Wrote k k' pid pd pd kernel users fun _ => False := by
  have held := space.frames.held
  have grows := only.grows space.dirMap held.lower held.upper
  have hkeep : ∀ pg ∈ pd.pages, ∀ i, k'.mm.ram (pg.pAddr / 4096) i = k.mm.ram (pg.pAddr / 4096) i :=
    fun pg hpg i => grows.ram held.lower (.inr (space.frames.kernel_frame (List.mem_append_left _ hpg)).1)
  have hlist : k'.pglist pid = k.pglist pid := by rw [only.same.pglist]
  have hcr3 : k'.mm.cr3 = k.mm.cr3 := grows.fields.2.2.1
  refine ⟨⟨?_, ?_, ?_, ?_⟩, rfl, fun _ => id, ?_, fun c v hlo hhi _ hv => ?_, fun f i hf _ => grows.ram held.lower hf⟩
  · rw [only.same.pd]
    exact space.own
  · rw [hlist]
    exact space.frames.grows grows
  · rw [hlist]
    exact space.map.congr (hkeep pd.base List.mem_cons_self) fun t ht => hkeep t (List.mem_cons_of_mem _ ht)
  · rw [hcr3]
    exact space.cr3
  · rw [hlist]
    exact fun _ => id
  · have hdir : k'.mm.dir = k.mm.dir := by rw [Mm.dir, Mm.dir, hcr3]
    rw [space.byte_outside (grows.sameOutside held.lower) hdir hlo hhi]
    exact hv

end HeapOnly

/-! ## Steps in a space -/

/-- The frames that are taken or given back are those of the pages of process `pid`. -/
def Level (pid : Nat) (k k' : Kernel) : Prop :=
  ∀ pd, k.pd pid = some pd → ∃ pd', k'.pd pid = some pd' ∧
    Takes ((pd'.pages ++ k'.pglist pid).length - (pd.pages ++ k.pglist pid).length : Int) k.mm k'.mm

namespace Level

variable {k k1 k' : Kernel} {pid a : Nat}

lemma of_takes (h : Takes 0 k.mm k'.mm) (hpd : k'.pd pid = k.pd pid) (hlist : k'.pglist pid = k.pglist pid) :
    Level pid k k' := fun pd own => by
  refine ⟨pd, hpd.trans own, h.cast ?_⟩
  rw [hlist, sub_self]

lemma refl (pid : Nat) (k : Kernel) : Level pid k k := .of_takes (.refl _) rfl rfl

lemma trans (h : Level pid k k1) (h' : Level pid k1 k') : Level pid k k' := fun pd own => by
  obtain ⟨pd1, own1, first⟩ := h pd own
  obtain ⟨pd2, own2, second⟩ := h' pd1 own1
  exact ⟨pd2, own2, (first.trans second).cast (by omega)⟩

/-- A store takes no frame. -/
lemma withRam (h : Level pid k k1) (ram : Nat → Nat → Nat) :
    Level pid k { k1 with mm := { k1.mm with ram := ram } } :=
  h.trans (.of_takes (.withRam k1.mm ram) rfl rfl)

/-- A page fault takes the page that it maps, and its table. -/
lemma touch (h : Creeks.touch k pid a = .ok k') : Level pid k k' := by
  unfold Creeks.touch at h
  split at h
  · cases h
    exact .refl pid k
  · obtain ⟨r, hr, h⟩ := bind_ok.1 h
    cases r with
    | none => cases h
    | some r =>
      obtain ⟨mm, pages, pd1⟩ := r
      cases h
      intro pd own
      rw [own] at hr
      obtain ⟨pd', rfl, taken⟩ := Takes.isrPfExc hr
      refine ⟨pd', Function.update_self .., ?_⟩
      dsimp only
      rwa [Function.update_self]

end Level

/-- What the kernel does for process `pid` while its directory is loaded, if `P` holds before it; `Q` holds
then after it. -/
structure Moves (pid : Nat) (P Q : Prop) (k k' : Kernel) : Prop where
  flags : FlagsKept k.mm k'.mm
  level : Level pid k k'
  table : k'.table = k.table
  regsCr3 : k'.regsCr3 = k.regsCr3
  others : ∀ q, q ≠ pid → k'.pd q = k.pd q ∧ k'.pglist q = k.pglist q
  wrote : ∀ pd kernel users, NoFlags k'.mm → InSpace k pid pd kernel users → Bounded k pid → P →
    (∃ pd', Wrote k k' pid pd pd' kernel users fun _ => True) ∧ Bounded k' pid ∧ Q

namespace Moves

variable {k k1 k' : Kernel} {pid a : Nat} {P P' Q Q' R : Prop} {b : UInt8}

lemma refl (h : P → Q) (k : Kernel) : Moves pid P Q k k where
  flags := .refl _
  level := .refl pid k
  table := rfl
  regsCr3 := rfl
  others := fun _ _ => ⟨rfl, rfl⟩
  wrote := fun pd _ _ _ space hb hP => ⟨⟨pd, .refl space⟩, hb, h hP⟩

lemma trans (h : Moves pid P Q k k1) (h' : Moves pid Q R k1 k') : Moves pid P R k k' where
  flags := h.flags.trans h'.flags
  level := h.level.trans h'.level
  table := h'.table.trans h.table
  regsCr3 := h'.regsCr3.trans h.regsCr3
  others := fun q hq => ⟨(h'.others q hq).1.trans (h.others q hq).1, (h'.others q hq).2.trans (h.others q hq).2⟩
  wrote := fun pd kernel users no space hb hP => by
    obtain ⟨⟨pd1, first⟩, hb1, hQ⟩ := h.wrote pd kernel users (h'.flags.down no) space hb hP
    obtain ⟨⟨pd2, second⟩, hb2, hR⟩ := h'.wrote pd1 kernel users no first.space hb1 hQ
    exact ⟨⟨pd2, first.trans second⟩, hb2, hR⟩

lemma weaken (h : Moves pid P Q k k') (hP : P' → P) (hQ : P' → Q → Q') : Moves pid P' Q' k k' where
  flags := h.flags
  level := h.level
  table := h.table
  regsCr3 := h.regsCr3
  others := h.others
  wrote := fun pd kernel users no space hb hP' => by
    obtain ⟨wrote, hb', hQ1⟩ := h.wrote pd kernel users no space hb (hP hP')
    exact ⟨wrote, hb', hQ hP' hQ1⟩

/-- The kernel heap is used for the process. -/
lemma heap (h : HeapOnly k k') (hPQ : P → Q) : Moves pid P Q k k' where
  flags := h.flags
  level := .of_takes h.takes (by rw [h.same.pd]) (by rw [h.same.pglist])
  table := h.same.table
  regsCr3 := h.same.regsCr3
  others := fun q _ => ⟨by rw [h.same.pd], by rw [h.same.pglist]⟩
  wrote := fun pd kernel users _ space hb hP => by
    have hlist : k'.pglist pid = k.pglist pid := by rw [h.same.pglist]
    refine ⟨⟨pd, (h.bytes space).mono fun _ => False.elim⟩, ?_, hPQ hP⟩
    unfold Bounded
    rw [hlist]
    exact hb

/-- The description of the segments is no memory. -/
lemma image (h : P → Q) (k : Kernel) (image : Nat → Image) : Moves pid P Q k { k with image := image } where
  flags := .refl _
  level := .of_takes (.refl _) rfl rfl
  table := rfl
  regsCr3 := rfl
  others := fun _ _ => ⟨rfl, rfl⟩
  wrote := fun pd kernel users _ space hb hP =>
    have space' : InSpace { k with image := image } pid pd kernel users :=
      ⟨space.own, space.frames, space.map, space.cr3⟩
    ⟨⟨pd, space', rfl, fun _ => id, fun _ => id, fun _ _ _ _ hA => absurd trivial hA, fun _ _ _ _ => rfl⟩, hb,
      h hP⟩

end Moves

section Stores

variable {k k' : Kernel} {pid a : Nat} {b : UInt8} {P : Prop}

/-- A page fault in user space only gives the process a page there. -/
lemma touch_same (h : touch k pid a = .ok k') : FlagsKept k.mm k'.mm ∧ k'.table = k.table ∧
    k'.regsCr3 = k.regsCr3 ∧ (∀ q, q ≠ pid → k'.pd q = k.pd q ∧ k'.pglist q = k.pglist q) ∧
    (Bounded k pid → Bounded k' pid) := by
  unfold touch at h
  split at h
  · cases h
    exact ⟨.refl _, rfl, rfl, fun _ _ => ⟨rfl, rfl⟩, id⟩
  · obtain ⟨r, hr, h⟩ := bind_ok.1 h
    cases r with
    | none => cases h
    | some r =>
      obtain ⟨mm, pages, pd⟩ := r
      cases h
      refine ⟨.isrPfExc hr, rfl, rfl, fun q hq => ⟨Function.update_of_ne hq .., Function.update_of_ne hq ..⟩,
        fun hb pg hpg => ?_⟩
      unfold isrPfExc at hr
      split at hr
      case isFalse => cases hr
      case isTrue hrange =>
        obtain ⟨⟨s1, page⟩, hf, hr⟩ := bind_ok.1 hr
        obtain ⟨t, -, hr⟩ := bind_ok.1 hr
        obtain ⟨q, -, hf⟩ := bind_ok.1 hf
        cases hf
        cases hr
        dsimp only at hpg
        rw [Function.update_self] at hpg
        rcases List.mem_cons.1 hpg with rfl | hpg
        · exact lt_of_le_of_lt Nat.and_le_left hrange.2
        · exact hb pg hpg

/-- A store up to the top of user space lies below it. -/
lemma storeUser_moves (h : storeUser pid k a b = .ok k') :
    Moves pid (a ≤ USER_STACK) (USER_OFFSET ≤ a ∧ a < USER_STACK) k k' := by
  have hstore := h
  unfold storeUser at h
  split at h
  · cases h
  · rename_i hlo
    rw [not_lt] at hlo
    obtain ⟨k1, h1, h⟩ := bind_ok.1 h
    split at h
    case h_2 => cases h
    case h_1 x hx =>
      cases h
      obtain ⟨flags, table, regsCr3, others, bounded⟩ := touch_same h1
      refine ⟨⟨flags.oom, flags.stale⟩, (Level.touch h1).withRam _, table, regsCr3, others,
        fun pd kernel users no space hb hle => ?_⟩
      have hhi : a < USER_STACK := by
        refine lt_of_le_of_ne hle fun e => ?_
        -- the fault at the top ends the process
        unfold touch at h1
        rw [e, space.top_unmapped hb, if_neg (by decide)] at h1
        obtain ⟨r, hr, h1⟩ := bind_ok.1 h1
        unfold isrPfExc at hr
        rw [if_neg (by decide)] at hr
        cases hr
        cases h1
      obtain ⟨pd', wrote, -⟩ := space.store hhi hstore no.oom no.stale
      exact ⟨⟨pd', wrote.mono fun _ _ => trivial⟩, bounded hb, hlo, hhi⟩

/-- A loop of stores that starts in user space stays there. -/
lemma stores_moves {f : Nat → UInt8} {p j n : Nat}
    (h : (List.range' j n).foldlM (fun k i => storeUser pid k (wrap (p + i)) (f i)) k = .ok k') :
    Moves pid (p + j ≤ USER_STACK) (p + (j + n) ≤ USER_STACK ∧ (n ≠ 0 → USER_OFFSET ≤ p + j)) k k' := by
  induction n generalizing k j with
  | zero =>
    cases h
    exact .refl (fun hle => ⟨hle, fun h => absurd rfl h⟩) _
  | succ n ih =>
    rw [List.range'_succ, List.foldlM_cons] at h
    obtain ⟨k1, h1, h⟩ := bind_ok.1 h
    have hwrap : p + j ≤ USER_STACK → wrap (p + j) = p + j := fun hle =>
      wrap_of_lt (lt_of_le_of_lt hle (by decide))
    have first : Moves pid (p + j ≤ USER_STACK) (p + (j + 1) ≤ USER_STACK ∧ USER_OFFSET ≤ p + j) k k1 := by
      refine (storeUser_moves h1).weaken (fun hle => (hwrap hle).le.trans hle) fun hle hin => ?_
      rw [hwrap hle] at hin
      omega
    have rest : Moves pid (p + (j + 1) ≤ USER_STACK ∧ USER_OFFSET ≤ p + j)
        (p + (j + (n + 1)) ≤ USER_STACK ∧ (n + 1 ≠ 0 → USER_OFFSET ≤ p + j)) k1 k' :=
      (ih h).weaken And.left fun hP hQ => ⟨by omega, fun _ => hP.2⟩
    exact first.trans rest

lemma copySegment_moves {file : Mem} {ph : Phdr} (h : copySegment pid file k ph = .ok k') :
    Moves pid (ph.pVaddr ≤ USER_STACK) True k k' := by
  obtain ⟨k1, h1, h2⟩ := bind_ok.1 h
  rw [List.range_eq_range'] at h1
  have first : Moves pid (ph.pVaddr ≤ USER_STACK) (ph.pVaddr + ph.pFilesz ≤ USER_STACK) k k1 :=
    (stores_moves h1).weaken id fun _ hQ => by rw [← Nat.zero_add ph.pFilesz]; exact hQ.1
  exact first.trans ((stores_moves h2).weaken id fun _ _ => trivial)

/-- The segments that are loaded start below the top of user space. -/
def StartsBelow (headers : List Phdr) : Prop := ∀ ph ∈ headers, ph.pType = PT_LOAD → ph.pVaddr ≤ USER_STACK

lemma loadSegments_moves {file : Mem} {l : List Phdr} {r : Kernel × Nat}
    (h : loadSegments pid file l k = .ok r) (hl : StartsBelow l) : Moves pid True True k r.1 := by
  induction l generalizing k with
  | nil =>
    cases h
    exact .refl id k
  | cons ph l ih =>
    have hrest : StartsBelow l := fun ph hph => hl ph (List.mem_cons_of_mem _ hph)
    unfold loadSegments at h
    split at h
    · exact ih h hrest
    · rename_i ht
      split at h
      · cases h
        exact .refl id k
      · obtain ⟨k1, h1, h⟩ := bind_ok.1 h
        have hstart := hl ph List.mem_cons_self (not_not.1 ht)
        exact ((Moves.image (fun _ => hstart) k _).trans (copySegment_moves h1)).trans (ih h hrest)

/-- `load_elf` stays in user space when its segments start there. -/
lemma loadElfInto_moves {file : Mem} {r : Kernel × Nat} (h : loadElfInto pid file k = .ok r)
    (hl : StartsBelow ((List.range (ePhnum file)).map (phdr file))) : Moves pid True True k r.1 := by
  unfold loadElfInto at h
  split at h
  · cases h
    exact .refl id k
  · exact loadSegments_moves h hl

end Stores

/-! ## The arguments -/

/-- The strings that are pushed do not wrap the stack pointer around. -/
def StackHolds (pid : Nat) (k : Kernel) (argc param : Nat) : Prop :=
  ∀ u c i n, k.kmalloc (4 * argc) = .ok u → i < argc →
    (List.range i).foldlM (pushString pid param u.2) (u.1, USER_STACK - 16) = .ok c →
    strlen c.1.mm.mem LOOP_MAX (load32 c.1.mm.mem (param + 4 * i)) = .ok n → n < c.2

/-- The stack pointer lies in user space. -/
def OnStack (stackp : Nat) : Prop := USER_OFFSET ≤ stackp ∧ stackp ≤ USER_STACK

section Arguments

variable {k k' : Kernel} {pid param uparam n argc : Nat} {c r : Kernel × Nat}

lemma strcpyUser_moves {fuel dst src : Nat} (h : strcpyUser pid fuel k dst src = .ok k') :
    Moves pid (dst ≤ USER_STACK) (USER_OFFSET ≤ dst) k k' := by
  induction fuel generalizing k dst src with
  | zero => cases h
  | succ fuel ih =>
    obtain ⟨k1, h1, h⟩ := bind_ok.1 h
    have first := storeUser_moves h1
    split at h
    · cases h
      exact first.weaken id fun _ => And.left
    · have rest : Moves pid (USER_OFFSET ≤ dst ∧ dst < USER_STACK) (USER_OFFSET ≤ dst) k1 k' := by
        refine (ih h).weaken (fun hin => ?_) fun hin _ => hin.1
        rw [wrap_of_lt (lt_of_le_of_lt (Nat.succ_le_of_lt hin.2) (by decide))]
        exact hin.2
      exact first.trans rest

lemma pushString_moves {i : Nat} (h : pushString pid param uparam c i = .ok r) :
    Moves pid ((∀ n, strlen c.1.mm.mem LOOP_MAX (load32 c.1.mm.mem (param + 4 * i)) = .ok n → n < c.2) ∧
      c.2 ≤ USER_STACK) (OnStack r.2) c.1 r.1 := by
  obtain ⟨n, hn, h⟩ := bind_ok.1 h
  obtain ⟨k1, h1, h⟩ := bind_ok.1 h
  cases h
  have hsub : n < c.2 → c.2 ≤ USER_STACK → wrap (c.2 + 4294967296 - (n + 1)) ≤ USER_STACK := fun h1 h2 => by
    simp only [USER_STACK] at h2 ⊢
    rw [wrap_eq]
    omega
  have copied : Moves pid ((∀ n, strlen c.1.mm.mem LOOP_MAX (load32 c.1.mm.mem (param + 4 * i)) = .ok n →
      n < c.2) ∧ c.2 ≤ USER_STACK) (OnStack (wrap (c.2 + 4294967296 - (n + 1)))) c.1 k1 :=
    (strcpyUser_moves h1).weaken (fun hP => hsub (hP.1 n hn) hP.2) fun hP hQ => ⟨hQ, hsub (hP.1 n hn) hP.2⟩
  exact copied.trans (.heap (.withMem _ _) id)

/-- The strings are pushed one below the other. -/
lemma pushStrings_moves (h : (List.range n).foldlM (pushString pid param uparam) c = .ok r)
    (hfit : ∀ i < n, ∀ c', (List.range i).foldlM (pushString pid param uparam) c = .ok c' →
      ∀ l, strlen c'.1.mm.mem LOOP_MAX (load32 c'.1.mm.mem (param + 4 * i)) = .ok l → l < c'.2) :
    Moves pid (c.2 ≤ USER_STACK) (r.2 ≤ USER_STACK ∧ (n ≠ 0 → OnStack r.2)) c.1 r.1 := by
  induction n generalizing r with
  | zero =>
    cases h
    exact .refl (fun hle => ⟨hle, fun h => absurd rfl h⟩) c.1
  | succ n ih =>
    rw [List.range_succ, List.foldlM_append] at h
    obtain ⟨c1, h1, h⟩ := bind_ok.1 h
    rw [List.foldlM_cons] at h
    obtain ⟨c2, h2, h⟩ := bind_ok.1 h
    cases h
    have before := ih h1 fun i hi => hfit i (Nat.lt_succ_of_lt hi)
    exact before.trans ((pushString_moves h2).weaken (fun hQ => ⟨hfit n (Nat.lt_succ_self n) c1 h1, hQ.1⟩)
      fun _ on => ⟨on.2, fun _ => on⟩)

lemma pushWord_moves {w : Nat} (h : pushWord pid c w = .ok r) : Moves pid (OnStack c.2) (OnStack r.2) c.1 r.1 := by
  obtain ⟨k1, h1, h⟩ := bind_ok.1 h
  cases h
  rw [List.range_eq_range'] at h1
  have hsub : OnStack c.2 → wrap (c.2 + 4294967296 - 4) = c.2 - 4 := fun on => by
    unfold OnStack at on
    simp only [USER_OFFSET, USER_STACK] at on
    rw [wrap_eq]
    omega
  refine (stores_moves h1).weaken (fun on => ?_) fun on hQ => ?_
  · rw [hsub on]
    exact (Nat.sub_le _ _).trans on.2
  · rw [hsub on] at hQ ⊢
    exact ⟨hQ.2 (by decide), (Nat.sub_le _ _).trans on.2⟩

lemma aligned_onStack {stackp : Nat} (on : OnStack stackp) : OnStack (stackp &&& 0xFFFFFFF0) := by
  obtain ⟨hlo, hhi⟩ := on
  have h := land_field stackp 28 4
  norm_num at h
  simp only [USER_OFFSET, USER_STACK] at hlo hhi
  unfold OnStack
  simp only [USER_OFFSET, USER_STACK]
  rw [h]
  omega

/-- The arguments of `main` are pushed inside the user space of the process. -/
lemma pushArgs_moves (hsize : Served (4 * (argc + 1))) (hfit : StackHolds pid k argc param)
    (h : pushArgs pid k argc param = .ok r) : Moves pid True True k r.1 := by
  by_cases hne : argc = 0
  · rw [pushArgs, if_pos hne] at h
    cases h
    exact .refl id k
  obtain ⟨k1, u, c2, c3, c4, c5, c6, k7, h1, h2, h3, h4, h5, h6, h7, h8⟩ := pushArgs_ok hne h
  have hserved : Served (4 * argc) := by
    unfold Served at hsize ⊢
    omega
  have taken : Moves pid True ((k1, USER_STACK - 16).2 ≤ USER_STACK) k k1 :=
    .heap (.kmalloc hserved h1) fun _ => Nat.sub_le _ _
  have strings := pushStrings_moves h2 fun i hi c hc l hl => hfit (k1, u) c i l h1 hi hc hl
  have words : Moves pid (OnStack (c2.2 &&& 0xFFFFFFF0)) (OnStack c4.2) c2.1 c4.1 := by
    refine (pushWord_moves h3).trans ?_
    exact foldlM_ok (P := fun c => Moves pid (OnStack c3.2) (OnStack c.2) c3.1 c.1)
      (fun c i c' hc e => hc.trans (pushWord_moves e)) (.refl id _) h4
  have pushed := (words.trans (pushWord_moves h5)).trans (pushWord_moves h6)
  have freed : HeapOnly c6.1 r.1 := (HeapOnly.freeArgs h7).trans (.kfree h8)
  exact ((taken.trans strings).trans (pushed.weaken (fun hQ => aligned_onStack (hQ.2 hne)) fun _ => id)).trans
    (.heap freed fun _ => trivial)

end Arguments

end Creeks
