import Creeks.Process.Context

/-!
# The context switch

What `schedule` saves at a timer interrupt, `do_switch` loads again: `context_switch`. `Saved` is the
state in between, the fields of `struct process` holding the registers. `saveContext_saved` establishes
it from the frame of the interrupt, whichever of its two layouts the processor has pushed, and
`resume_saved` reads it back.
-/

namespace Creeks
open Lib

/-- The structure at `p` holds the registers `c` and the kernel stack of `t`. -/
structure Saved (m : Mem) (p : Nat) (c : Cpu) (t : Tss) : Prop where
  eax : loadW m (p + 4) = c.eax
  ecx : loadW m (p + 8) = c.ecx
  edx : loadW m (p + 12) = c.edx
  ebx : loadW m (p + 16) = c.ebx
  esp : loadW m (p + 20) = c.esp
  ebp : loadW m (p + 24) = c.ebp
  esi : loadW m (p + 28) = c.esi
  edi : loadW m (p + 32) = c.edi
  eip : loadW m (p + 36) = c.eip
  eflags : loadW m (p + 40) = c.eflags
  cs : loadH m (p + 44) = c.cs
  ss : loadH m (p + 46) = c.ss
  ds : loadH m (p + 48) = c.ds
  es : loadH m (p + 50) = c.es
  fs : loadH m (p + 52) = c.fs
  gs : loadH m (p + 54) = c.gs
  esp0 : loadW m (p + 60) = t.esp0
  ss0 : loadH m (p + 64) = t.ss0

/-- The first 66 bytes of the structure are all that has to be kept. -/
lemma Saved.congr {m m' : Mem} {p : Nat} {c : Cpu} {t : Tss} (saved : Saved m p c t)
    (h : ∀ x, p ≤ x → x < p + 66 → m' x = m x) : Saved m' p c t := by
  have hw : ∀ k, k + 4 ≤ 66 → loadW m' (p + k) = loadW m (p + k) := fun k hk =>
    loadW_congr fun x h1 h2 => h x (by omega) (by omega)
  have hh : ∀ k, k + 2 ≤ 66 → loadH m' (p + k) = loadH m (p + k) := fun k hk =>
    loadH_congr fun x h1 h2 => h x (by omega) (by omega)
  refine ⟨?_, ?_, ?_, ?_, ?_, ?_, ?_, ?_, ?_, ?_, ?_, ?_, ?_, ?_, ?_, ?_, ?_, ?_⟩
  · rw [hw 4 (by decide), saved.eax]
  · rw [hw 8 (by decide), saved.ecx]
  · rw [hw 12 (by decide), saved.edx]
  · rw [hw 16 (by decide), saved.ebx]
  · rw [hw 20 (by decide), saved.esp]
  · rw [hw 24 (by decide), saved.ebp]
  · rw [hw 28 (by decide), saved.esi]
  · rw [hw 32 (by decide), saved.edi]
  · rw [hw 36 (by decide), saved.eip]
  · rw [hw 40 (by decide), saved.eflags]
  · rw [hh 44 (by decide), saved.cs]
  · rw [hh 46 (by decide), saved.ss]
  · rw [hh 48 (by decide), saved.ds]
  · rw [hh 50 (by decide), saved.es]
  · rw [hh 52 (by decide), saved.fs]
  · rw [hh 54 (by decide), saved.gs]
  · rw [hw 60 (by decide), saved.esp0]
  · rw [hh 64 (by decide), saved.ss0]

/-- The words `schedule` finds in the frame of the interrupt. -/
structure Frame (s : Stack) (c : Cpu) : Prop where
  gs : loadH s.mem (s.sp + 4 * 2) = c.gs
  fs : loadH s.mem (s.sp + 4 * 3) = c.fs
  es : loadH s.mem (s.sp + 4 * 4) = c.es
  ds : loadH s.mem (s.sp + 4 * 5) = c.ds
  edi : loadW s.mem (s.sp + 4 * 6) = c.edi
  esi : loadW s.mem (s.sp + 4 * 7) = c.esi
  ebp : loadW s.mem (s.sp + 4 * 8) = c.ebp
  ebx : loadW s.mem (s.sp + 4 * 10) = c.ebx
  edx : loadW s.mem (s.sp + 4 * 11) = c.edx
  ecx : loadW s.mem (s.sp + 4 * 12) = c.ecx
  eax : loadW s.mem (s.sp + 4 * 13) = c.eax
  eip : loadW s.mem (s.sp + 4 * 14) = c.eip
  cs : loadH s.mem (s.sp + 4 * 15) = c.cs
  eflags : loadW s.mem (s.sp + 4 * 16) = c.eflags
  user : isRing3 c.cs = true →
    loadW s.mem (s.sp + 4 * 17) = c.esp ∧ loadH s.mem (s.sp + 4 * 18) = c.ss
  kernel : isRing3 c.cs = false → loadW s.mem (s.sp + 4 * 9) + 12 = c.esp

/-- The fields after the saving code of `schedule`: the words of the frame it names. -/
lemma saveContext_saved {t : Tss} {p : Nat} {s : Stack} {c : Cpu} (frame : Frame s c)
    (hring : isRing3 c.cs = true ∨ c.cs = KERN_CS ∧ c.ss = t.ss0) :
    Saved (saveContext t p s) p c t := by
  obtain ⟨o1, o2, o3, o4, o5, o6, o7, o8, o9, o10, o11, o12, o13, o14, o15, o16, -, o18, o19, -⟩ :=
    Field.offset_eq
  have hesp : (if decide (c.cs ≠ KERN_CS) = true then loadW s.mem (s.sp + 4 * 17)
      else loadW s.mem (s.sp + 4 * 9) + 12) = c.esp := by
    rcases hring with h | ⟨h, -⟩
    · rw [if_pos, (frame.user h).1]
      apply decide_eq_true
      rintro e
      rw [e] at h
      exact absurd h (by decide)
    · rw [if_neg (by simp [h]), frame.kernel (by rw [h]; decide)]
  have hss : (if decide (c.cs ≠ KERN_CS) = true then loadH s.mem (s.sp + 4 * 18) else t.ss0) =
      c.ss := by
    rcases hring with h | ⟨h, h'⟩
    · rw [if_pos, (frame.user h).2]
      apply decide_eq_true
      rintro e
      rw [e] at h
      exact absurd h (by decide)
    · rw [if_neg (by simp [h]), h']
  unfold saveContext
  simp only [o1, o2, o3, o4, o5, o6, o7, o8, o9, o10, o11, o12, o13, o14, o15, o16, o18, o19,
    frame.cs, frame.gs, frame.fs, frame.es, frame.ds, frame.edi, frame.esi, frame.ebp, frame.ebx,
    frame.edx, frame.ecx, frame.eax, frame.eip, frame.eflags, hesp, hss]
  constructor <;>
    simp (disch := omega) only [loadW_storeW, loadH_storeH, loadW_storeW_other,
      loadW_storeH_other, loadH_storeW_other, loadH_storeH_other]

/-- A selector survives being pushed as a word. -/
lemma setWidth_selector (h : BitVec 16) : (h.setWidth 32).setWidth 16 = h := by
  apply BitVec.eq_of_toNat_eq
  have := h.isLt
  simp only [BitVec.toNat_setWidth]
  omega

/-- Two sequences of pushes are one. -/
lemma pushAll_append (s : Stack) (ws vs : List (BitVec 32)) :
    (s.pushAll ws).pushAll vs = s.pushAll (ws ++ vs) :=
  (List.foldl_append ..).symm

/-- The words of the interrupt frame, in the order they are pushed. -/
def frameWords (t : Tss) (c : Cpu) (ret : BitVec 32) (mem : Mem) : List (BitVec 32) :=
  gateFrame c ++ [c.eax, c.ecx, c.edx, c.ebx,
    BitVec.ofNat 32 ((gateStack t c mem).sp - 4 * (gateFrame c).length), c.ebp, c.esi, c.edi,
    c.ds.setWidth 32, c.es.setWidth 32, c.fs.setWidth 32, c.gs.setWidth 32, ret, c.ebp]

/-- The interrupt pushes its frame on the stack of the gate. -/
lemma clockInterrupt_eq (t : Tss) (c : Cpu) (ret : BitVec 32) (mem : Mem) :
    clockInterrupt t c ret mem = (gateStack t c mem).pushAll (frameWords t c ret mem) := by
  rw [clockInterrupt, saveRegs, pushAll_append, pushAll_append, Stack.pushAll_sp, frameWords]
  rfl

/-- The frame of a timer interrupt holds the interrupted registers where `schedule` looks for them. -/
lemma clockInterrupt_frame {t : Tss} {c : Cpu} {ret : BitVec 32} {mem : Mem}
    (hroom : 76 ≤ (gateStack t c mem).sp) : Frame (clockInterrupt t c ret mem) c := by
  rw [clockInterrupt_eq]
  have hsel := setWidth_selector
  cases h : isRing3 c.cs with
  | true =>
    have hw : frameWords t c ret mem = [c.ss.setWidth 32, c.esp, c.eflags, c.cs.setWidth 32, c.eip,
        c.eax, c.ecx, c.edx, c.ebx, BitVec.ofNat 32 ((gateStack t c mem).sp - 4 * 5), c.ebp, c.esi,
        c.edi, c.ds.setWidth 32, c.es.setWidth 32, c.fs.setWidth 32, c.gs.setWidth 32, ret,
        c.ebp] := by
      rw [frameWords, gateFrame, if_pos h]
      rfl
    rw [hw]
    obtain ⟨-, hload, -⟩ := Stack.pushAll_spec (gateStack t c mem) [c.ss.setWidth 32, c.esp,
      c.eflags, c.cs.setWidth 32, c.eip, c.eax, c.ecx, c.edx, c.ebx,
      BitVec.ofNat 32 ((gateStack t c mem).sp - 4 * 5), c.ebp, c.esi, c.edi, c.ds.setWidth 32,
      c.es.setWidth 32, c.fs.setWidth 32, c.gs.setWidth 32, ret, c.ebp] 19 rfl hroom
    constructor
    case user =>
      intro _
      rw [hload 17 (by decide), ← loadW_low, hload 18 (by decide)]
      exact ⟨rfl, hsel _⟩
    case kernel => exact fun h' => absurd (h.symm.trans h') (by decide)
    all_goals first
      | (rw [← loadW_low, hload]; exacts [hsel _, by decide])
      | (rw [hload]; exacts [rfl, by decide])
  | false =>
    have hw : frameWords t c ret mem = [c.eflags, c.cs.setWidth 32, c.eip,
        c.eax, c.ecx, c.edx, c.ebx, BitVec.ofNat 32 ((gateStack t c mem).sp - 4 * 3), c.ebp, c.esi,
        c.edi, c.ds.setWidth 32, c.es.setWidth 32, c.fs.setWidth 32, c.gs.setWidth 32, ret,
        c.ebp] := by
      rw [frameWords, gateFrame, if_neg (by rw [h]; decide)]
      rfl
    have hroom' : 4 * 17 ≤ (gateStack t c mem).sp := by
      omega
    rw [hw]
    obtain ⟨-, hload, -⟩ := Stack.pushAll_spec (gateStack t c mem) [c.eflags, c.cs.setWidth 32,
      c.eip, c.eax, c.ecx, c.edx, c.ebx, BitVec.ofNat 32 ((gateStack t c mem).sp - 4 * 3), c.ebp,
      c.esi, c.edi, c.ds.setWidth 32, c.es.setWidth 32, c.fs.setWidth 32, c.gs.setWidth 32, ret,
      c.ebp] 17 rfl hroom'
    constructor
    case user => exact fun h' => absurd (h.symm.trans h') (by decide)
    case kernel =>
      intro _
      rw [hload 9 (by decide)]
      change BitVec.ofNat 32 ((gateStack t c mem).sp - 4 * 3) + 12 = c.esp
      have hsp : (gateStack t c mem).sp = c.esp.toNat := by
        rw [gateStack, if_neg (by rw [h]; decide)]
      rw [hsp] at hroom ⊢
      apply BitVec.eq_of_toNat_eq
      have := c.esp.isLt
      rw [BitVec.toNat_add, BitVec.toNat_ofNat]
      change ((c.esp.toNat - 4 * 3) % 4294967296 + 12) % 4294967296 = _
      omega
    all_goals first
      | (rw [← loadW_low, hload]; exacts [hsel _, by decide])
      | (rw [hload]; exacts [rfl, by decide])

/-- The frame lies in the 76 bytes below the top of the stack. -/
lemma clockInterrupt_other {t : Tss} {c : Cpu} {ret : BitVec 32} {mem : Mem} {x : Nat}
    (hroom : 76 ≤ (gateStack t c mem).sp)
    (hx : (gateStack t c mem).sp ≤ x ∨ x < (gateStack t c mem).sp - 76) :
    (clockInterrupt t c ret mem).mem x = mem x := by
  have hlen : (frameWords t c ret mem).length ≤ 19 := by
    rw [frameWords, gateFrame]
    split <;> simp
  rw [clockInterrupt_eq]
  exact Stack.pushAll_other (by omega) (by omega)

/-- The words `switch_to_task` has pushed for `do_switch` and its `iret`. -/
structure IretFrame (s : Stack) (p : Nat) (c : Cpu) : Prop where
  current : loadW s.mem s.sp = BitVec.ofNat 32 p
  eip : loadW s.mem (s.sp + 4 * 1) = c.eip
  cs : loadH s.mem (s.sp + 4 * 2) = c.cs
  eflags : loadW s.mem (s.sp + 4 * 3) = c.eflags
  user : isRing3 c.cs = true →
    loadW s.mem (s.sp + 4 * 4) = c.esp ∧ loadH s.mem (s.sp + 4 * 5) = c.ss

/-- `do_switch` loads the registers of the structure, except for those `iret` pops. -/
lemma doSwitch_eq {s : Stack} {p : Nat} {c c' : Cpu} {t : Tss} {kss : BitVec 16} (hp : p < 4294967296)
    (saved : Saved s.mem p c t) (frame : IretFrame s p c')
    (hcs : c'.cs = c.cs) (hesp : c'.esp = c.esp) (hss : c'.ss = c.ss) (heip : c'.eip = c.eip)
    (hkernel : isRing3 c.cs = false → c.esp = BitVec.ofNat 32 (s.sp + 4 * 4) ∧ c.ss = kss)
    (hroom : 40 ≤ s.sp) (hapart : p + 66 ≤ s.sp - 40 ∨ s.sp + 4 ≤ p) :
    doSwitch s kss = { c with eflags := c'.eflags, cr3 := loadW s.mem (p + 56) } := by
  have hesi : (loadW s.mem s.sp).toNat = p := by
    rw [frame.current, BitVec.toNat_ofNat]
    exact Nat.mod_eq_of_lt hp
  have hlow : ∀ k, (loadW s.mem (p + k)).setWidth 16 = loadH s.mem (p + k) := fun k => loadW_low _ _
  have hroom' : 4 * 11 ≤ s.sp + 4 := by
    omega
  obtain ⟨hsp, hpush, hother⟩ := Stack.pushAll_spec ⟨s.mem, s.sp + 4⟩ [loadW s.mem (p + 4),
    loadW s.mem (p + 8), loadW s.mem (p + 12), loadW s.mem (p + 16), loadW s.mem (p + 24),
    loadW s.mem (p + 28), loadW s.mem (p + 32), loadW s.mem (p + 48), loadW s.mem (p + 50),
    loadW s.mem (p + 52), loadW s.mem (p + 54)] 11 rfl hroom'
  unfold doSwitch
  simp only [hesi]
  generalize Stack.pushAll ⟨s.mem, s.sp + 4⟩ _ = u at hpush hsp hother ⊢
  change u.sp = s.sp + 4 - 4 * 11 at hsp
  change ∀ x, s.sp + 4 ≤ x ∨ x < s.sp + 4 - 4 * 11 → u.mem x = s.mem x at hother
  -- what `iret` pops lies above the registers
  have hiret : ∀ k, loadW u.mem (u.sp + 4 * (11 + k)) = loadW s.mem (s.sp + 4 * (1 + k)) := by
    intro k
    have e : u.sp + 4 * (11 + k) = s.sp + 4 * (1 + k) := by
      omega
    rw [e]
    exact loadW_congr fun x hx _ => hother x (.inl (by omega))
  have hcr3 : loadW u.mem (p + 56) = loadW s.mem (p + 56) :=
    loadW_congr fun x h1 h2 => hother x (by omega)
  have h12 : (loadW u.mem (u.sp + 4 * 12)).setWidth 16 = c.cs := by
    rw [hiret 1, loadW_low, frame.cs, hcs]
  have hesp' : (if isRing3 c.cs = true then loadW u.mem (u.sp + 4 * 14)
      else BitVec.ofNat 32 (u.sp + 4 * 14)) = c.esp := by
    cases h : isRing3 c.cs with
    | true =>
      rw [if_pos rfl, hiret 3, (frame.user (by rw [hcs, h])).1, hesp]
    | false =>
      have e : u.sp + 4 * 14 = s.sp + 4 * 4 := by
        omega
      rw [if_neg (by decide), e, (hkernel h).1]
  have hss' : (if isRing3 c.cs = true then (loadW u.mem (u.sp + 4 * 15)).setWidth 16
      else kss) = c.ss := by
    cases h : isRing3 c.cs with
    | true =>
      rw [if_pos rfl, hiret 4, loadW_low, (frame.user (by rw [hcs, h])).2, hss]
    | false => rw [if_neg (by decide), (hkernel h).2]
  ext1
  case eflags => rw [hiret 2, frame.eflags]
  case eip => rw [hiret 0, frame.eip, heip]
  case cs => exact h12
  case esp =>
    simp only [h12]
    exact hesp'
  case ss =>
    simp only [h12]
    exact hss'
  case cr3 => exact hcr3
  case eax => rw [hpush 10 (by decide)]; exact saved.eax
  case ecx => rw [hpush 9 (by decide)]; exact saved.ecx
  case edx => rw [hpush 8 (by decide)]; exact saved.edx
  case ebx => rw [hpush 7 (by decide)]; exact saved.ebx
  case ebp => rw [hpush 6 (by decide)]; exact saved.ebp
  case esi => rw [hpush 5 (by decide)]; exact saved.esi
  case edi => rw [hpush 4 (by decide)]; exact saved.edi
  case ds => rw [hpush 3 (by decide)]; exact (hlow 48).trans saved.ds
  case es => rw [hpush 2 (by decide)]; exact (hlow 50).trans saved.es
  case fs => rw [hpush 1 (by decide)]; exact (hlow 52).trans saved.fs
  case gs => rw [hpush 0 (by decide)]; exact (hlow 54).trans saved.gs

/-- The low half of a word `push` has read at a 16-bit variable is the variable. -/
lemma setWidth_pad (pad h : BitVec 16) : (pad ++ h : BitVec 32).setWidth 16 = h := by
  apply BitVec.eq_of_toNat_eq
  have e : (pad ++ h).toNat = pad.toNat <<< 16 ||| h.toNat := BitVec.toNat_append pad h
  have hlt := h.isLt
  rw [BitVec.toNat_setWidth]
  change (pad ++ h).toNat % 65536 = _
  rw [e, ← Nat.shiftLeft_add_eq_or_of_lt hlt, Nat.shiftLeft_eq]
  omega

/-- The selector of kernel code is not of level 3. -/
lemma ne_kernCs {cs : BitVec 16} (h : isRing3 cs = true) : cs ≠ KERN_CS := by
  rintro rfl
  exact absurd h (by decide)

/-- The stack on which `switch_to_task` pushes, as the processor would have on an interrupt. -/
lemma loadContext_saved {m : Mem} {p : Nat} {c : Cpu} {t : Tss} {pad : BitVec 16} (hp : p < 4294967296)
    (saved : Saved m p c t) (hring : isRing3 c.cs = true ∨ c.cs = KERN_CS)
    (hroom : 64 ≤ (gateStack t c m).sp)
    (hapart : p + 66 ≤ (gateStack t c m).sp - 64 ∨ (gateStack t c m).sp ≤ p) :
    loadContext m p (c.cs ≠ KERN_CS) pad = ({ c with
      eflags := (c.eflags ||| 0x200) &&& 0xFFFFBFFF, cr3 := loadW m (p + 56) }, t) := by
  obtain ⟨-, -, -, -, o5, -, -, -, o9, o10, o11, o12, -, -, -, -, -, o18, o19, -⟩ :=
    Field.offset_eq
  have hpad := setWidth_pad pad
  unfold loadContext
  simp only [o5, o9, o10, o11, o12, o18, o19, saved.esp0, saved.ss0, saved.cs, saved.ss, saved.esp,
    saved.eflags, saved.eip]
  rcases hring with h | h
  · have hsp : (gateStack t c m).sp = t.esp0.toNat := by rw [gateStack, if_pos h]
    rw [hsp] at hroom hapart
    simp only [ne_kernCs h, ne_eq, not_false_eq_true, decide_true, if_true, pushAll_append,
      List.cons_append, List.nil_append]
    have hroom' : 4 * 6 ≤ t.esp0.toNat := by
      omega
    obtain ⟨hs, hload, hother⟩ := Stack.pushAll_spec ⟨m, t.esp0.toNat⟩ [pad ++ c.ss, c.esp,
      (c.eflags ||| 0x200) &&& 0xFFFFBFFF, pad ++ c.cs, c.eip, BitVec.ofNat 32 p] 6 rfl hroom'
    generalize Stack.pushAll ⟨m, t.esp0.toNat⟩ _ = s at hload hother hs ⊢
    change s.sp = t.esp0.toNat - 4 * 6 at hs
    change ∀ x, t.esp0.toNat ≤ x ∨ x < t.esp0.toNat - 4 * 6 → s.mem x = m x at hother
    have hkeep : ∀ x, p ≤ x → x < p + 66 → s.mem x = m x := fun x h1 h2 => hother x (by omega)
    have frame : IretFrame s p { c with eflags := (c.eflags ||| 0x200) &&& 0xFFFFBFFF } := by
      refine ⟨hload 0 (by decide), hload 1 (by decide), ?_, hload 3 (by decide), fun _ => ⟨?_, ?_⟩⟩
      · rw [← loadW_low, hload 2 (by decide)]
        exact hpad _
      · exact hload 4 (by decide)
      · rw [← loadW_low, hload 5 (by decide)]
        exact hpad _
    rw [doSwitch_eq hp (saved.congr hkeep) frame rfl rfl rfl rfl
      (fun h' => absurd (h.symm.trans h') (by decide)) (by omega) (by omega),
      loadW_congr fun x h1 h2 => hkeep x (by omega) (by omega)]
  · have h3 : isRing3 c.cs = false := by rw [h]; decide
    have hsp : (gateStack t c m).sp = c.esp.toNat := by
      rw [gateStack, if_neg (by rw [h3]; decide)]
    rw [hsp] at hroom hapart
    simp only [h, ne_eq, not_true_eq_false, decide_false, Bool.false_eq_true, if_false,
      pushAll_append, List.nil_append]
    have hroom' : 4 * 4 ≤ c.esp.toNat := by
      omega
    obtain ⟨hs, hload, hother⟩ := Stack.pushAll_spec ⟨m, c.esp.toNat⟩
      [(c.eflags ||| 0x200) &&& 0xFFFFBFFF, pad ++ KERN_CS, c.eip, BitVec.ofNat 32 p] 4 rfl hroom'
    generalize Stack.pushAll ⟨m, c.esp.toNat⟩ _ = s at hload hother hs ⊢
    change s.sp = c.esp.toNat - 4 * 4 at hs
    change ∀ x, c.esp.toNat ≤ x ∨ x < c.esp.toNat - 4 * 4 → s.mem x = m x at hother
    have hkeep : ∀ x, p ≤ x → x < p + 66 → s.mem x = m x := fun x h1 h2 => hother x (by omega)
    have frame : IretFrame s p { c with eflags := (c.eflags ||| 0x200) &&& 0xFFFFBFFF } := by
      refine ⟨hload 0 (by decide), hload 1 (by decide), ?_, hload 3 (by decide),
        fun h' => absurd (h3.symm.trans h') (by decide)⟩
      rw [← loadW_low, hload 2 (by decide)]
      exact (hpad _).trans h.symm
    have hesp : c.esp = BitVec.ofNat 32 (s.sp + 4 * 4) := by
      rw [hs, Nat.sub_add_cancel (by omega), BitVec.ofNat_toNat, BitVec.setWidth_eq]
    rw [doSwitch_eq hp (saved.congr hkeep) frame rfl rfl rfl rfl
      (fun _ => ⟨hesp, rfl⟩) (by omega) (by omega),
      loadW_congr fun x h1 h2 => hkeep x (by omega) (by omega), h]

/-- A saved context without a pending signal is resumed. -/
lemma resume_saved {m : Mem} {p : Nat} {c : Cpu} {t : Tss} {pad : BitVec 16} (hp : p < 4294967296)
    (saved : Saved m p c t) (hsig : loadW m (p + Field.signal.offset) = 0)
    (hring : isRing3 c.cs = true ∨ c.cs = KERN_CS) (hroom : 64 ≤ (gateStack t c m).sp)
    (hapart : p + 66 ≤ (gateStack t c m).sp - 64 ∨ (gateStack t c m).sp ≤ p) :
    resume m p pad = some ({ c with
      eflags := (c.eflags ||| 0x200) &&& 0xFFFFBFFF, cr3 := loadW m (p + 56) }, t) := by
  have hcs : loadH m (p + Field.cs.offset) = c.cs := saved.cs
  rw [resume_eq, if_neg (by rw [hsig]; decide), hcs, loadContext_saved hp saved hring hroom hapart]

/-- Saving the context leaves the page directory of the process and what lies behind the registers. -/
lemma saveContext_other {t : Tss} {p x : Nat} {s : Stack}
    (hx : p + 56 ≤ x ∧ x < p + 60 ∨ p + 66 ≤ x) : saveContext t p s x = s.mem x := by
  obtain ⟨o1, o2, o3, o4, o5, o6, o7, o8, o9, o10, o11, o12, o13, o14, o15, o16, -, o18, o19, -⟩ :=
    Field.offset_eq
  unfold saveContext
  simp (disch := omega) only [o1, o2, o3, o4, o5, o6, o7, o8, o9, o10, o11, o12, o13, o14, o15, o16,
    o18, o19, storeW_other, storeH_other]

/-- A process interrupted by the timer, in user mode or in the kernel during a system call, is resumed
with the registers it had, interrupts on, the nested flag off, its page directory and its kernel
stack. -/
theorem context_switch {c : Cpu} {t : Tss} {ret : BitVec 32} {mem mem' : Mem} {p : Nat}
    {pad : BitVec 16} (hp : p < 4294967296)
    (hring : isRing3 c.cs = true ∨ c.cs = KERN_CS ∧ c.ss = t.ss0)
    (hroom : 76 ≤ (gateStack t c mem).sp)
    (hapart : p + 66 ≤ (gateStack t c mem).sp - 76 ∨ (gateStack t c mem).sp ≤ p)
    (hkeep : ∀ x, p ≤ x → x < p + 66 → mem' x = saveContext t p (clockInterrupt t c ret mem) x)
    (hsig : loadW mem' (p + Field.signal.offset) = 0) :
    resume mem' p pad = some ({ c with
      eflags := (c.eflags ||| 0x200) &&& 0xFFFFBFFF
      cr3 := loadW mem (p + Field.cr3.offset) }, t) := by
  have frame : Frame (clockInterrupt t c ret mem) c := clockInterrupt_frame hroom
  have saved := (saveContext_saved frame hring).congr hkeep
  have hsp : (gateStack t c mem').sp = (gateStack t c mem).sp := rfl
  have hcr3 : loadW mem' (p + 56) = loadW mem (p + 56) := by
    apply loadW_congr
    intro x h1 h2
    rw [hkeep x (by omega) (by omega), saveContext_other (by omega)]
    exact clockInterrupt_other hroom (by omega)
  rw [resume_saved hp saved hsig (hring.imp_right And.left) (by omega) (by omega), hcr3]
  rfl

/-- A processor in user mode. -/
def userCpu : Cpu where
  eax := 1
  ecx := 2
  edx := 3
  ebx := 4
  esp := 0xDFFFF000
  ebp := 5
  esi := 6
  edi := 7
  eip := 0x40000000
  eflags := 0x202
  cs := 0x23
  ss := 0x33
  ds := 0x2B
  es := 0x2B
  fs := 0x2B
  gs := 0x2B
  cr3 := 0

/-- A process in user mode whose structure is at 0x1000 and whose kernel stack ends at 0x8000. -/
theorem context_switch_user :
    resume (saveContext ⟨0x8000, 0x18⟩ 0x1000
        (clockInterrupt ⟨0x8000, 0x18⟩ userCpu 0 fun _ => 0)) 0x1000 0 =
      some ({ userCpu with
        eflags := (userCpu.eflags ||| 0x200) &&& 0xFFFFBFFF
        cr3 := loadW (fun _ => 0) (0x1000 + Field.cr3.offset) }, ⟨0x8000, 0x18⟩) := by
  have hsp : (gateStack ⟨0x8000, 0x18⟩ userCpu fun _ => 0).sp = 0x8000 := by decide
  refine context_switch (by decide) (.inl (by decide)) (by rw [hsp]; decide) (by rw [hsp]; decide)
    (fun _ _ _ => rfl) ?_
  have hkeep : loadW (saveContext ⟨0x8000, 0x18⟩ 0x1000
      (clockInterrupt ⟨0x8000, 0x18⟩ userCpu 0 fun _ => 0)) (0x1000 + Field.signal.offset) =
      loadW (fun _ => 0) (0x1000 + Field.signal.offset) := by
    have ho : Field.signal.offset = 134 := by decide
    rw [ho]
    apply loadW_congr
    intro x h1 h2
    rw [saveContext_other (by omega)]
    exact clockInterrupt_other (by rw [hsp]; decide) (by rw [hsp]; omega)
  rw [hkeep]
  rfl

end Creeks
