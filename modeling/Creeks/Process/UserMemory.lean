import Creeks.Process.Life
import Creeks.Mm.Supply

/-!
# User memory

What the processes see of the page tables: `userByte` is the byte at an address of the loaded directory.
`InSpace` says that the loaded directory is that of a process and that its pages are its own; a byte
stored by the process is then read back, and every other byte of user memory keeps its value.
-/

namespace Creeks
open Lib

/-! ## Bytes of words -/

/-- Byte `i` of a word. -/
def getByte (w i : Nat) : UInt8 := UInt8.ofNat (w / 256 ^ i)

lemma getByte_setByte_same {w i : Nat} (b : UInt8) (hi : i < 4) : getByte (setByte w i b) i = b := by
  have hb := b.toNat_lt
  have e : setByte w i b / 256 ^ i % 256 = b.toNat := by
    unfold setByte
    interval_cases i <;> norm_num <;> omega
  rw [getByte, ← UInt8.toNat_inj, UInt8.toNat_ofNat', e]

lemma getByte_setByte_other {w i j : Nat} (b : UInt8) (hi : i < 4) (hj : j < 4) (hne : j ≠ i) :
    getByte (setByte w i b) j = getByte w j := by
  have hb := b.toNat_lt
  have e : setByte w i b / 256 ^ j % 256 = w / 256 ^ j % 256 := by
    unfold setByte
    interval_cases i <;> interval_cases j <;> first | exact absurd rfl hne | (norm_num; omega)
  rw [getByte, getByte, ← UInt8.toNat_inj, UInt8.toNat_ofNat', UInt8.toNat_ofNat', e]

/-- The byte at a user address. -/
def userByte (s : Mm) (a : Nat) : Option UInt8 :=
  (walk s.ram s.dir a).map fun x => getByte (s.ram (x / 4096) (x % 4096 / 4)) (x % 4)

/-- The byte of `t` is the one the processes see at a user address. -/
def Shows (s : Mm) (t : Mem) (a : Nat) : Prop :=
  USER_OFFSET ≤ a ∧ a < USER_STACK ∧ userByte s a = some (t a)

/-! ## The space of a process -/

/-- The loaded directory is that of process `pid`; `kernel` and `users` are the pages of the others. -/
structure InSpace (k : Kernel) (pid : Nat) (pd : PageDirectory) (kernel users : List Page) : Prop where
  own : k.pd pid = some pd
  frames : Frames k.mm (pd.pages ++ kernel) (k.pglist pid ++ users)
  map : UserMap k.mm.ram pd (k.pglist pid)
  cr3 : k.mm.cr3 = pd.base.pAddr

namespace InSpace

variable {k k' : Kernel} {pid a : Nat} {pd : PageDirectory} {kernel users : List Page}

lemma dir (h : InSpace k pid pd kernel users) : k.mm.dir = pd.frame := SpaceInv.dir_of_cr3 h.cr3

lemma dirMap (h : InSpace k pid pd kernel users) : KernelMap k.mm.ram k.mm.dir := h.dir ▸ h.map.kernel

/-- A user address that is translated lies in a page of the process. -/
lemma page {x : Nat} (h : InSpace k pid pd kernel users) (hlo : USER_OFFSET ≤ a) (hhi : a < USER_STACK)
    (hx : walk k.mm.ram k.mm.dir a = some x) :
    ∃ pg ∈ k.pglist pid, pg.vAddr = a / 4096 * 4096 ∧ x = pg.pAddr + a % 4096 := by
  simp only [USER_OFFSET, USER_STACK] at hlo hhi
  rw [h.dir] at hx
  unfold walk at hx
  dsimp only at hx
  split at hx
  case isFalse => cases hx
  case isTrue hp =>
    obtain ⟨hsmall, -⟩ := h.map.tables _ (by omega) (by omega) hp
    rw [hsmall, if_neg (by decide)] at hx
    split at hx
    case isFalse => cases hx
    case isTrue hq =>
      cases hx
      obtain ⟨pg, hpg, hv, hf⟩ := h.map.mapped _ _ (by omega) (by omega) (by omega) hp hq
      obtain ⟨-, -, hpage⟩ := h.frames.user_frame (List.mem_append_left _ hpg)
      have hsplit : a / 4194304 * 4194304 + a / 4096 % 1024 * 4096 = a / 4096 * 4096 := by omega
      exact ⟨pg, hpg, hv.trans hsplit, by rw [hf, ← hpage]⟩

/-- Two user addresses are not translated to one place. -/
lemma injective {b x : Nat} (h : InSpace k pid pd kernel users) (ha : USER_OFFSET ≤ a)
    (ha' : a < USER_STACK) (hb : USER_OFFSET ≤ b) (hb' : b < USER_STACK)
    (hx : walk k.mm.ram k.mm.dir a = some x) (hy : walk k.mm.ram k.mm.dir b = some x) : a = b := by
  obtain ⟨pg, hpg, hv, rfl⟩ := h.page ha ha' hx
  obtain ⟨pg', hpg', hv', e⟩ := h.page hb hb' hy
  obtain ⟨-, -, hpage⟩ := h.frames.user_frame (List.mem_append_left users hpg)
  obtain ⟨-, -, hpage'⟩ := h.frames.user_frame (List.mem_append_left users hpg')
  have hp : pg.pAddr = pg'.pAddr := by omega
  have hsame : pg = pg' :=
    List.inj_on_of_nodup_map h.frames.nodup (List.mem_append_left _ hpg) (List.mem_append_left _ hpg') hp
  rw [hsame] at hv
  omega

/-- A byte stored in a page of the process. -/
lemma write {x : Nat} {b : UInt8} (h : InSpace k pid pd kernel users) (hlo : USER_OFFSET ≤ a)
    (hhi : a < USER_STACK) (hx : walk k.mm.ram k.mm.dir a = some x)
    (hk : k' = { k with mm := { k.mm with
      ram := setWord k.mm.ram (x / 4096) (x % 4096 / 4)
        (setByte (k.mm.ram (x / 4096) (x % 4096 / 4)) (x % 4) b) } }) :
    InSpace k' pid pd kernel users ∧
      (∀ c, USER_OFFSET ≤ c → c < USER_STACK → walk k'.mm.ram k'.mm.dir c = walk k.mm.ram k.mm.dir c) ∧
      userByte k'.mm a = some b ∧
      (∀ c, USER_OFFSET ≤ c → c < USER_STACK → c ≠ a → userByte k'.mm c = userByte k.mm c) ∧
      ∀ f i, (∀ pg ∈ k.pglist pid, pg.pAddr / 4096 ≠ f) → k'.mm.ram f i = k.mm.ram f i := by
  obtain ⟨pg, hpg, -, rfl⟩ := h.page hlo hhi hx
  have hmem : pg ∈ k.pglist pid ++ users := List.mem_append_left _ hpg
  obtain ⟨hge, -, hpage⟩ := h.frames.user_frame hmem
  have hfr : (pg.pAddr + a % 4096) / 4096 = pg.pAddr / 4096 := by omega
  have hdir : k'.mm.dir = k.mm.dir := by rw [hk]; rfl
  have hout : ∀ f i, f ≠ pg.pAddr / 4096 → k'.mm.ram f i = k.mm.ram f i := fun f i hf => by
    rw [hk]
    exact setWord_other (.inl (by rwa [hfr]))
  have hkp : ∀ kp ∈ pd.pages, ∀ j, k'.mm.ram (kp.pAddr / 4096) j = k.mm.ram (kp.pAddr / 4096) j :=
    fun kp hkp j => hout _ j (h.frames.frame_ne hmem (List.mem_append_left _ hkp))
  have hd : ∀ j, k'.mm.ram pd.frame j = k.mm.ram pd.frame j := hkp pd.base List.mem_cons_self
  have ht : ∀ t ∈ pd.pt, ∀ j, k'.mm.ram (t.pAddr / 4096) j = k.mm.ram (t.pAddr / 4096) j :=
    fun t ht => hkp t (List.mem_cons_of_mem _ ht)
  have hwalk : ∀ c, USER_OFFSET ≤ c → c < USER_STACK →
      walk k'.mm.ram k'.mm.dir c = walk k.mm.ram k.mm.dir c := fun c h1 h2 => by
    rw [hdir, h.dir]
    exact h.map.walk_congr h1 h2 hd ht
  refine ⟨⟨?_, ?_, ?_, ?_⟩, hwalk, ?_, fun c h1 h2 hne => ?_, fun f i hf => hout f i (hf pg hpg).symm⟩
  · rw [hk]
    exact h.own
  · rw [hk]
    exact h.frames.ram fun f i h1 h2 => setWord_other (.inl (by omega))
  · have hp : k'.pglist = k.pglist := by rw [hk]
    rw [hp]
    exact h.map.congr hd ht
  · rw [hk]
    exact h.cr3
  · rw [userByte, hwalk a hlo hhi, hx, Option.map_some, hk]
    dsimp only
    rw [setWord_same, getByte_setByte_same _ (Nat.mod_lt _ (by decide))]
  · rw [userByte, userByte, hwalk c h1 h2]
    cases hy : walk k.mm.ram k.mm.dir c with
    | none => rfl
    | some y =>
      rw [Option.map_some, Option.map_some, hk]
      dsimp only
      by_cases hw : y / 4096 = (pg.pAddr + a % 4096) / 4096 ∧
          y % 4096 / 4 = (pg.pAddr + a % 4096) % 4096 / 4
      · have hbyte : y % 4 ≠ (pg.pAddr + a % 4096) % 4 := by
          intro e
          have hsame : y = pg.pAddr + a % 4096 := by omega
          rw [hsame] at hy
          exact hne (h.injective h1 h2 hlo hhi hy hx)
        rw [hw.1, hw.2, setWord_same,
          getByte_setByte_other _ (Nat.mod_lt _ (by decide)) (Nat.mod_lt _ (by decide)) hbyte]
      · rw [setWord_other (by tauto)]

end InSpace

/-- What the process `pid` has done to memory when it has written the bytes `A`: pages may have joined
it. -/
structure Wrote (k k' : Kernel) (pid : Nat) (pd pd' : PageDirectory) (kernel users : List Page)
    (A : Nat → Prop) : Prop where
  space : InSpace k' pid pd' kernel users
  base : pd'.base = pd.base
  tables : pd.pt ⊆ pd'.pt
  pages : k.pglist pid ⊆ k'.pglist pid
  keeps : ∀ c v, USER_OFFSET ≤ c → c < USER_STACK → ¬ A c → userByte k.mm c = some v →
    userByte k'.mm c = some v
  outside : ∀ f i, f < 1024 ∨ 2048 ≤ f →
    (∀ pg ∈ pd'.pages ++ k'.pglist pid, pg.pAddr / 4096 ≠ f) → k'.mm.ram f i = k.mm.ram f i

namespace Wrote

variable {k k1 k2 : Kernel} {pid a : Nat} {pd pd1 pd2 : PageDirectory} {kernel users : List Page}
  {A B : Nat → Prop}

lemma refl (h : InSpace k pid pd kernel users) : Wrote k k pid pd pd kernel users A where
  space := h
  base := rfl
  tables := fun _ => id
  pages := fun _ => id
  keeps := fun _ _ _ _ _ => id
  outside := fun _ _ _ _ => rfl

end Wrote

namespace InSpace

variable {k k' : Kernel} {pid a : Nat} {pd : PageDirectory} {kernel users : List Page}

/-- A translation depends on the page of the address. -/
lemma walk_page {c x : Nat} (hp : c / 4096 = a / 4096) (hc : walk k.mm.ram k.mm.dir c = some x) :
    (walk k.mm.ram k.mm.dir a).isSome := by
  have h1 : c / 4194304 = a / 4194304 := by omega
  unfold walk at hc ⊢
  dsimp only at hc ⊢
  rw [h1, hp] at hc
  split at hc
  case isFalse => cases hc
  case isTrue hpde =>
    rw [if_pos hpde]
    split at hc
    case isTrue hbig =>
      rw [if_pos hbig]
      rfl
    case isFalse hsmall =>
      rw [if_neg hsmall]
      split at hc
      case isFalse => cases hc
      case isTrue hpte =>
        rw [if_pos hpte]
        rfl

/-- A page fault of the process: its memory keeps its bytes. -/
lemma fault {mm : Mm} {pages : List Page} {pd0 : Option PageDirectory}
    (h : InSpace k pid pd kernel users) (hnone : ¬ (walk k.mm.ram k.mm.dir a).isSome)
    (e : isrPfExc k.mm (k.pglist pid) (k.pd pid) a = .ok (some (mm, pages, pd0)))
    (hoom : mm.oom = false) (hstale : mm.stale = false)
    (hk : k' = { k with
      mm := mm
      pglist := Function.update k.pglist pid pages
      pd := Function.update k.pd pid pd0 }) :
    ∃ pd', Wrote k k' pid pd pd' kernel users fun _ => False := by
  rw [h.own] at e
  obtain ⟨pg, pd', rfl, rfl, f⟩ := h.frames.fault h.map h.cr3 e hoom hstale
  have hlist : k'.pglist pid = pg :: k.pglist pid := by
    rw [hk]
    exact Function.update_self ..
  have hmm : k'.mm = mm := by rw [hk]
  have space : InSpace k' pid pd' kernel users := by
    refine ⟨?_, ?_, ?_, ?_⟩
    · rw [hk]
      exact Function.update_self ..
    · rw [hmm, hlist]
      exact f.frames
    · rw [hmm, hlist]
      exact f.map
    · rw [hmm, f.cr3, h.cr3, f.base]
  have hdir : k'.mm.dir = pd.frame := by
    rw [space.dir, PageDirectory.frame, f.base]
    rfl
  refine ⟨pd', space, f.base, f.tables, ?_, fun c v h1 h2 _ hv => ?_, fun g i hg hne => ?_⟩
  · rw [hlist]
    exact List.subset_cons_self _ _
  · unfold userByte at hv ⊢
    obtain ⟨x, hx, rfl⟩ := Option.map_eq_some_iff.1 hv
    have hc : c / 4096 ≠ a / 4096 := fun hp => hnone (walk_page hp hx)
    obtain ⟨pg', hpg', -, rfl⟩ := h.page h1 h2 hx
    have hmem : pg' ∈ pg :: (k.pglist pid ++ users) :=
      List.mem_cons_of_mem _ (List.mem_append_left _ hpg')
    obtain ⟨hge, -, hpage⟩ := f.frames.user_frame hmem
    have hfr : (pg'.pAddr + c % 4096) / 4096 = pg'.pAddr / 4096 := by omega
    rw [hdir, hmm, f.other c h1 h2 hc, ← h.dir, hx, Option.map_some, hfr, f.outside _ _ (.inr hge)]
    exact fun kp hkp => f.frames.frame_ne hmem (List.mem_append_left _ hkp)
  · rw [hmm]
    exact f.outside g i hg fun kp hkp => hne kp (List.mem_append_left _ hkp)

lemma touch (h : InSpace k pid pd kernel users) (e : touch k pid a = .ok k')
    (hoom : k'.mm.oom = false) (hstale : k'.mm.stale = false) :
    ∃ pd', Wrote k k' pid pd pd' kernel users fun _ => False := by
  unfold Creeks.touch at e
  split at e
  · cases e
    exact ⟨pd, .refl h⟩
  · rename_i hnone
    obtain ⟨r, hr, e⟩ := bind_ok.1 e
    cases r with
    | none => cases e
    | some r =>
      obtain ⟨mm, pages, pd0⟩ := r
      cases e
      exact h.fault hnone hr hoom hstale rfl

/-- A byte the process stores is read back, and the others keep their values. -/
lemma store {b : UInt8} (h : InSpace k pid pd kernel users) (hhi : a < USER_STACK)
    (e : storeUser pid k a b = .ok k') (hoom : k'.mm.oom = false) (hstale : k'.mm.stale = false) :
    ∃ pd', Wrote k k' pid pd pd' kernel users (fun c => c = a) ∧ userByte k'.mm a = some b := by
  unfold storeUser at e
  split at e
  · cases e
  · rename_i hlo
    rw [not_lt] at hlo
    obtain ⟨k1, h1, e⟩ := bind_ok.1 e
    split at e
    case h_2 => cases e
    case h_1 x hx =>
      have hk := (Except.ok.inj e).symm
      obtain ⟨pd', wrote⟩ := h.touch h1 (by rw [← hoom, hk]) (by rw [← hstale, hk])
      obtain ⟨space, hwalk, hself, hother, hout⟩ := wrote.space.write hlo hhi hx hk
      have hlist : k'.pglist = k1.pglist := by rw [hk]
      refine ⟨pd', ⟨space, wrote.base, wrote.tables, ?_, fun c v h1 h2 hne hv => ?_, fun f i hf hne => ?_⟩,
        hself⟩
      · rw [hlist]
        exact wrote.pages
      · rw [hother c h1 h2 hne]
        exact wrote.keeps c v h1 h2 id hv
      · rw [hout f i fun pg hpg => hne pg (List.mem_append_right _ (hlist ▸ hpg))]
        exact wrote.outside f i hf (hlist ▸ hne)

end InSpace

/-! ## Stores that go through -/

/-- A process that can write its memory while there are pages and frames to spare. -/
structure Ready (k : Kernel) (pid : Nat) (pd : PageDirectory) (kernel users : List Page)
    (others : List (Nat × Nat)) (n : Nat) : Prop where
  space : InSpace k pid pd kernel users
  supply : Supply k.mm others n
  fresh : FreshWords k.mm
  stale : k.mm.stale = false

namespace Ready

variable {k : Kernel} {pid a n : Nat} {pd : PageDirectory} {kernel users : List Page}
  {others : List (Nat × Nat)}

lemma mono {m : Nat} (h : Ready k pid pd kernel users others n) (hm : m ≤ n) :
    Ready k pid pd kernel users others m :=
  { h with supply := h.supply.mono hm }

/-- The page of a user address is there, or a page fault maps it. -/
lemma touch (h : Ready k pid pd kernel users others (n + 4)) (hlo : USER_OFFSET ≤ a)
    (hhi : a < USER_STACK) : ∃ k' pd' l, Creeks.touch k pid a = .ok k' ∧
      Ready k' pid pd' kernel users (l ++ others) n ∧ (walk k'.mm.ram k'.mm.dir a).isSome := by
  by_cases hx : (walk k.mm.ram k.mm.dir a).isSome
  · exact ⟨k, pd, [], if_pos hx, h.mono (Nat.le_add_right n 4), hx⟩
  · obtain ⟨s', pg, l, e, supply, hstale⟩ :=
      h.supply.fault h.space.frames h.space.map h.space.cr3 hlo hhi h.fresh
    rw [h.stale] at hstale
    obtain ⟨pg', pd', hpg, hpd, f⟩ := h.space.frames.fault h.space.map h.space.cr3 e supply.oom hstale
    cases hpg
    have hstate : InSpace { k with
        mm := s'
        pglist := Function.update k.pglist pid (pg :: k.pglist pid)
        pd := Function.update k.pd pid (some { pd with pt := l ++ pd.pt }) } pid
        { pd with pt := l ++ pd.pt } kernel users := by
      cases hpd
      refine ⟨Function.update_self .., ?_, ?_, f.cr3.trans h.space.cr3⟩
      · dsimp only
        rw [Function.update_self]
        exact f.frames
      · dsimp only
        rw [Function.update_self]
        exact f.map
    refine ⟨_, _, l.map pageChunk ++ [pageChunk pg], ?_, ⟨hstate, ?_, ?_, hstale⟩, ?_⟩
    · rw [Creeks.touch, if_neg hx, h.space.own, e]
      rfl
    · rw [List.append_assoc]
      exact supply
    · refine h.fresh.keep f.used fun g hg => f.outside g 0 (.inr (f.frames.held.free g hg)) ?_
      exact fun kp hkp => f.frames.free_ne hg (List.mem_append_left _ hkp)
    · rw [hstate.dir]
      change (walk s'.ram pd.frame a).isSome
      rw [f.same a rfl]
      rfl

/-- The process stores a byte. -/
lemma store (h : Ready k pid pd kernel users others (n + 4)) (hlo : USER_OFFSET ≤ a)
    (hhi : a < USER_STACK) (b : UInt8) : ∃ k' pd' l, storeUser pid k a b = .ok k' ∧
      Ready k' pid pd' kernel users (l ++ others) n := by
  obtain ⟨k1, pd1, l, e, h1, hsome⟩ := h.touch hlo hhi
  obtain ⟨x, hx⟩ := Option.isSome_iff_exists.1 hsome
  obtain ⟨k2, hk2⟩ : ∃ k2 : Kernel, k2 = { k1 with mm := { k1.mm with
      ram := setWord k1.mm.ram (x / 4096) (x % 4096 / 4)
        (setByte (k1.mm.ram (x / 4096) (x % 4096 / 4)) (x % 4) b) } } := ⟨_, rfl⟩
  obtain ⟨space, -, -, -, hout⟩ := h1.space.write hlo hhi hx hk2
  have hram : k2.mm = { k1.mm with ram := k2.mm.ram } := by rw [hk2]
  refine ⟨k2, pd1, l, ?_, space, ?_, ?_, ?_⟩
  · rw [storeUser, if_neg (not_lt.2 hlo), e, ok_bind, hx, hk2]
    rfl
  · rw [hram]
    exact h1.supply.ram (by rw [show k1.mm.dir = k2.mm.dir by rw [hk2]; rfl]; exact space.dirMap)
  · have hbit : k2.mm.memBitmap = k1.mm.memBitmap := by rw [hk2]
    refine h1.fresh.keep (fun q hq => by rwa [hbit]) fun g hg => hout g 0 fun pg hpg => ?_
    rintro rfl
    obtain ⟨f, hf, -, -, hused⟩ := h1.space.frames.used pg (List.mem_append_left _ hpg)
    rw [hbit, hf, Nat.mul_div_cancel _ (by decide), hused] at hg
    cases hg
  · rw [hk2]
    exact h1.stale

/-- A byte stored in user memory is one of those to be there in the end, and keeps the others. -/
lemma store_shows {t : Mem} (h : Ready k pid pd kernel users others (n + 4)) (hlo : USER_OFFSET ≤ a)
    (hhi : a < USER_STACK) : ∃ k' pd' l, storeUser pid k a (t a) = .ok k' ∧
      Ready k' pid pd' kernel users (l ++ others) n ∧
      ∀ c, c = a ∨ Shows k.mm t c → Shows k'.mm t c := by
  obtain ⟨k', pd', l, e, r⟩ := h.store hlo hhi (t a)
  obtain ⟨pd2, wrote, hself⟩ := h.space.store hhi e r.supply.oom r.stale
  refine ⟨k', pd', l, e, r, fun c hc => ?_⟩
  by_cases hca : c = a
  · rw [hca]
    exact ⟨hlo, hhi, hself⟩
  · obtain ⟨h1, h2, hv⟩ := hc.resolve_left hca
    exact ⟨h1, h2, wrote.keeps c _ h1 h2 hca hv⟩

/-- The process stores some bytes, each of them one that is to be there in the end. -/
lemma stores {α : Type} {t : Mem} (addr : α → Nat) (byte : α → UInt8) (l : List α)
    (h : Ready k pid pd kernel users others (n + 4 * l.length))
    (hl : ∀ x ∈ l, USER_OFFSET ≤ addr x ∧ addr x < USER_STACK ∧ byte x = t (addr x)) :
    ∃ k' pd' l', l.foldlM (fun k x => storeUser pid k (addr x) (byte x)) k = .ok k' ∧
      Ready k' pid pd' kernel users (l' ++ others) n ∧
      ∀ c, (∃ x ∈ l, c = addr x) ∨ Shows k.mm t c → Shows k'.mm t c := by
  induction l generalizing k pd others with
  | nil =>
    refine ⟨k, pd, [], rfl, h, fun c hc => hc.resolve_left ?_⟩
    rintro ⟨x, hx, -⟩
    cases hx
  | cons x l ih =>
    have hlen : n + 4 * (x :: l).length = n + 4 * l.length + 4 := by
      rw [List.length_cons]
      omega
    rw [hlen] at h
    obtain ⟨h1, h2, hbyte⟩ := hl x List.mem_cons_self
    obtain ⟨k1, pd1, l1, e1, r1, s1⟩ := h.store_shows (t := t) h1 h2
    obtain ⟨k2, pd2, l2, e2, r2, s2⟩ := ih r1 fun y hy => hl y (List.mem_cons_of_mem _ hy)
    refine ⟨k2, pd2, l2 ++ l1, ?_, by rwa [List.append_assoc], fun c hc => s2 c ?_⟩
    · rw [List.foldlM_cons, hbyte, e1, ok_bind, e2]
    · rcases hc with ⟨y, hy, rfl⟩ | hc
      · rcases List.mem_cons.1 hy with rfl | hy
        · exact .inr (s1 _ (.inl rfl))
        · exact .inl ⟨y, hy, rfl⟩
      · exact .inr (s1 c (.inr hc))

end Ready

end Creeks
