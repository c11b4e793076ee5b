import Creeks.Process.Boarding
import Creeks.Process.Space

/-!
# Processes apart

`Apart` is the invariant of memory with several processes in it: each live process has a directory of its
own, which maps its user space to the pages of its `pglist`, and all the frames of all the processes are
different and in use. `load_task`, `sys_exit` and what a process does in its space keep it, and leave the
pages of the other processes as they are.

`lost` are the user pages of refused files: `load_task` forgets them, and their frames stay in use.
-/

namespace Creeks
open Lib

/-- Process `q` lives in the directory `dir`. -/
structure Guest (k : Kernel) (dir : PageDirectory) (q : Nat) : Prop where
  own : k.pd q = some dir
  map : UserMap k.mm.ram dir (k.pglist q)
  bounded : Bounded k q
  registers : k.regsCr3 q = dir.base.pAddr

/-- The pages the kernel holds for a process: its directory with the tables, and its kernel stack. -/
def heldPages (dir : Nat → PageDirectory) (kstack : Nat → Page) (q : Nat) : List Page :=
  (dir q).pages ++ [kstack q]

/-- All the pages of some processes, and those that are lost. -/
def allPages (k : Kernel) (dir : Nat → PageDirectory) (kstack : Nat → Page) (live : List Nat)
    (lost : List Page) : List Page :=
  live.flatMap (heldPages dir kstack) ++ (live.flatMap k.pglist ++ lost)

/-- The live processes have directories and frames of their own. -/
structure Apart (k : Kernel) (live : List Nat) (dir : Nat → PageDirectory) (kstack : Nat → Page)
    (lost : List Page) : Prop where
  nodup : live.Nodup
  guests : ∀ q ∈ live, Guest k (dir q) q
  frames : Frames k.mm (live.flatMap (heldPages dir kstack)) (live.flatMap k.pglist ++ lost)
  registers : k.regsCr3 0 = KERN_PDIR
  map : KernelMap k.mm.ram 1

/-- What the kernel does to the processes other than `pid`, when it leaves `pages` as they are. -/
structure Elsewhere (k k' : Kernel) (pid : Nat) (pages : List Page) : Prop where
  spared : Spared k.mm.ram k'.mm.ram pages
  low : ∀ i, k'.mm.ram 1 i = k.mm.ram 1 i
  slots : ∀ q, q ≠ pid → k'.pd q = k.pd q ∧ k'.pglist q = k.pglist q ∧ k'.regsCr3 q = k.regsCr3 q

/-- The byte that process `q` sees at `a` when it runs. -/
def processByte (k : Kernel) (q a : Nat) : Option UInt8 := userByte (k.setCr3 (k.regsCr3 q)).mm a

lemma Kernel.setCr3_self {k : Kernel} {cr3 : Nat} (h : k.mm.cr3 = cr3) : k.setCr3 cr3 = k := by
  subst h
  rfl

namespace Elsewhere

variable {k k1 k' : Kernel} {pid : Nat} {pages pages' : List Page}

lemma refl (k : Kernel) (pid : Nat) (pages : List Page) : Elsewhere k k pid pages :=
  ⟨.refl _ _, fun _ => rfl, fun _ _ => ⟨rfl, rfl, rfl⟩⟩

lemma trans (h : Elsewhere k k1 pid pages) (h' : Elsewhere k1 k' pid pages) : Elsewhere k k' pid pages := by
  refine ⟨h.spared.trans h'.spared, fun i => (h'.low i).trans (h.low i), fun q hq => ?_⟩
  obtain ⟨h1, h2, h3⟩ := h.slots q hq
  obtain ⟨h4, h5, h6⟩ := h'.slots q hq
  exact ⟨h4.trans h1, h5.trans h2, h6.trans h3⟩

lemma subset (h : Elsewhere k k' pid pages) (hsub : pages' ⊆ pages) : Elsewhere k k' pid pages' :=
  ⟨h.spared.subset hsub, h.low, h.slots⟩

/-- The frames outside `pg1` are the same. -/
lemma of_outside (h : SameOutside k.mm.ram k'.mm.ram) (hpages : ∀ pg ∈ pages, 2048 ≤ pg.pAddr / 4096)
    (hslots : ∀ q, q ≠ pid → k'.pd q = k.pd q ∧ k'.pglist q = k.pglist q ∧ k'.regsCr3 q = k.regsCr3 q) :
    Elsewhere k k' pid pages :=
  ⟨fun pg hpg i => h _ i (.inr (hpages pg hpg)), fun i => h 1 i (.inl (by decide)), hslots⟩

/-- A process in its space. -/
lemma of_wrote {pd pd' : PageDirectory} {kernel users : List Page} {A : Nat → Prop} {P Q : Prop}
    (moves : Moves pid P Q k k') (wrote : Wrote k k' pid pd pd' kernel users A) :
    Elsewhere k k' pid (kernel ++ users) :=
  ⟨wrote.spared, wrote.low, fun q hq => ⟨(moves.others q hq).1, (moves.others q hq).2, by rw [moves.regsCr3]⟩⟩

end Elsewhere

namespace Guest

variable {k k' : Kernel} {q pid : Nat} {dir : PageDirectory} {pages : List Page}

lemma spared (sp : Spared k.mm.ram k'.mm.ram pages) (hsub : dir.pages ++ k.pglist q ⊆ pages) :
    (∀ i, k'.mm.ram dir.frame i = k.mm.ram dir.frame i) ∧
      ∀ t ∈ dir.pt, ∀ i, k'.mm.ram (t.pAddr / 4096) i = k.mm.ram (t.pAddr / 4096) i :=
  ⟨sp dir.base (hsub List.mem_cons_self), fun t ht =>
    sp t (hsub (List.mem_append_left _ (List.mem_cons_of_mem _ ht)))⟩

/-- A guest elsewhere stays where it is. -/
lemma elsewhere (h : Guest k dir q) (e : Elsewhere k k' pid pages) (hq : q ≠ pid)
    (hsub : dir.pages ++ k.pglist q ⊆ pages) : Guest k' dir q := by
  obtain ⟨hpd, hlist, hregs⟩ := e.slots q hq
  obtain ⟨hd, ht⟩ := spared e.spared hsub
  refine ⟨hpd.trans h.own, ?_, ?_, hregs.trans h.registers⟩
  · rw [hlist]
    exact h.map.congr hd ht
  · unfold Bounded
    rw [hlist]
    exact h.bounded

/-- Its bytes stay what they are. -/
lemma byte {kernel users : List Page} {a : Nat} (h : Guest k dir q) (e : Elsewhere k k' pid pages)
    (hq : q ≠ pid) (hsub : dir.pages ++ k.pglist q ⊆ pages)
    (space : InSpace (k.setCr3 (k.regsCr3 q)) q dir kernel users) (hlo : USER_OFFSET ≤ a)
    (hhi : a < USER_STACK) : processByte k' q a = processByte k q a := by
  obtain ⟨-, -, hregs⟩ := e.slots q hq
  obtain ⟨hd, ht⟩ := spared e.spared hsub
  have hdir : (k.setCr3 (k.regsCr3 q)).mm.dir = dir.frame := space.dir
  have hdir' : (k'.setCr3 (k'.regsCr3 q)).mm.dir = dir.frame := by
    rw [← hdir, hregs]
    rfl
  have hwalk : walk k'.mm.ram dir.frame a = walk k.mm.ram dir.frame a := h.map.walk_congr hlo hhi hd ht
  unfold processByte userByte
  rw [hdir, hdir']
  change (walk k'.mm.ram dir.frame a).map _ = (walk k.mm.ram dir.frame a).map _
  rw [hwalk]
  cases hx : walk k.mm.ram dir.frame a with
  | none => rfl
  | some x =>
    obtain ⟨pg, hpg, -, rfl⟩ := space.page hlo hhi (by rw [hdir]; exact hx)
    obtain ⟨-, -, hpage⟩ := space.frames.user_frame (List.mem_append_left _ hpg)
    have hframe : (pg.pAddr + a % 4096) / 4096 = pg.pAddr / 4096 := by omega
    rw [Option.map_some, Option.map_some, hframe]
    have hword := e.spared pg (hsub (List.mem_append_right _ hpg)) ((pg.pAddr + a % 4096) % 4096 / 4)
    exact congrArg some (congrArg (getByte · _) hword)

end Guest

namespace Apart

variable {k k' : Kernel} {live others : List Nat} {dir : Nat → PageDirectory} {kstack : Nat → Page}
  {lost : List Page} {p q pid : Nat}

/-- The pages of a process are among all. -/
lemma sub_allPages (hq : q ∈ live) : (dir q).pages ++ k.pglist q ⊆ allPages k dir kstack live lost := by
  intro pg hpg
  rcases List.mem_append.1 hpg with hpg | hpg
  · exact List.mem_append_left _ (List.mem_flatMap.2 ⟨q, hq, List.mem_append_left _ hpg⟩)
  · exact List.mem_append_right _ (List.mem_append_left _ (List.mem_flatMap.2 ⟨q, hq, hpg⟩))

lemma allPages_cons : allPages k dir kstack others lost ⊆
    (kstack p :: others.flatMap (heldPages dir kstack)) ++ (others.flatMap k.pglist ++ lost) := by
  unfold allPages
  rw [List.cons_append]
  exact List.subset_cons_self _ _

lemma length_allPages_cons : (allPages k dir kstack (p :: others) lost).length =
    (heldPages dir kstack p ++ k.pglist p).length + (allPages k dir kstack others lost).length := by
  unfold allPages
  simp only [List.flatMap_cons, List.length_append]
  omega

lemma length_allPages_perm (e : live.Perm others) : (allPages k dir kstack live lost).length =
    (allPages k dir kstack others lost).length :=
  ((e.flatMap_right _).append ((e.flatMap_right _).append_right lost)).length_eq

/-- The order of the processes does not matter. -/
lemma perm (h : Apart k live dir kstack lost) (e : live.Perm others) : Apart k others dir kstack lost where
  nodup := e.nodup_iff.1 h.nodup
  guests := fun q hq => h.guests q (e.mem_iff.2 hq)
  frames := h.frames.subperm (e.symm.flatMap_right _).subperm ((e.symm.flatMap_right _).append_right _).subperm
  registers := h.registers
  map := h.map

/-- Every page lies above the kernel. -/
lemma lower (h : Apart k live dir kstack lost) : ∀ pg ∈ allPages k dir kstack live lost, 2048 ≤ pg.pAddr / 4096 := by
  intro pg hpg
  rcases List.mem_append.1 hpg with hpg | hpg
  · exact (h.frames.kernel_frame hpg).1
  · exact (h.frames.user_frame hpg).1

/-- One of the processes in its space. -/
lemma inSpace (h : Apart k (p :: others) dir kstack lost) : InSpace (k.setCr3 (k.regsCr3 p)) p (dir p)
    (kstack p :: others.flatMap (heldPages dir kstack)) (others.flatMap k.pglist ++ lost) := by
  have guest := h.guests p List.mem_cons_self
  have frames := h.frames
  rw [List.flatMap_cons, List.flatMap_cons, heldPages, List.append_assoc, List.append_assoc] at frames
  exact ⟨guest.own, frames.load, guest.map, guest.registers⟩

/-- The pages of the other processes depend on them only. -/
lemma held_update (hp : p ∉ others) (pd : PageDirectory) (pg : Page) :
    others.flatMap (heldPages (Function.update dir p pd) (Function.update kstack p pg)) =
      others.flatMap (heldPages dir kstack) := by
  refine List.flatMap_congr fun q hq => ?_
  have hne : q ≠ p := fun e => hp (e ▸ hq)
  unfold heldPages
  rw [Function.update_of_ne hne, Function.update_of_ne hne]

lemma pglist_elsewhere {pages : List Page} (e : Elsewhere k k' p pages) (hp : p ∉ others) :
    others.flatMap k'.pglist = others.flatMap k.pglist :=
  List.flatMap_congr fun q hq => (e.slots q fun h => hp (h ▸ hq)).2.1

/-- So do all their pages. -/
lemma allPages_elsewhere {pages : List Page} (e : Elsewhere k k' p pages) (hp : p ∉ others) (pd : PageDirectory)
    (pg : Page) : allPages k' (Function.update dir p pd) (Function.update kstack p pg) others lost =
      allPages k dir kstack others lost := by
  unfold allPages
  rw [held_update hp, pglist_elsewhere e hp]

/-- The other processes stay, and one has the pages `pd` and `pg` of the kernel. -/
lemma join {pd : PageDirectory} {pg : Page} {pages : List Page}
    (nodup : (p :: others).Nodup) (h0 : p ≠ 0)
    (guests : ∀ q ∈ others, Guest k (dir q) q) (registers : k.regsCr3 0 = KERN_PDIR)
    (map : KernelMap k.mm.ram 1) (hpages : allPages k dir kstack others lost ⊆ pages)
    (e : Elsewhere k k' p pages) (guest : Guest k' pd p)
    (frames : Frames k'.mm (pd.pages ++ (pg :: others.flatMap (heldPages dir kstack)))
      (k'.pglist p ++ (others.flatMap k.pglist ++ lost))) :
    Apart k' (p :: others) (Function.update dir p pd) (Function.update kstack p pg) lost := by
  have hp := (List.nodup_cons.1 nodup).1
  refine ⟨nodup, fun q hq => ?_, ?_, ?_, map.congr e.low⟩
  · rcases List.mem_cons.1 hq with rfl | hq
    · rw [Function.update_self]
      exact guest
    · have hne : q ≠ p := fun h => hp (h ▸ hq)
      rw [Function.update_of_ne hne]
      exact (guests q hq).elsewhere e hne fun _ hmem => hpages (sub_allPages hq hmem)
  · rw [List.flatMap_cons, List.flatMap_cons, held_update hp, pglist_elsewhere e hp, heldPages,
      Function.update_self, Function.update_self, List.append_assoc, List.append_assoc]
    exact frames
  · rw [(e.slots 0 h0.symm).2.2]
    exact registers

/-- A process has moved in its space. -/
lemma moved {pd : PageDirectory} {A : Nat → Prop} (h : Apart k (p :: others) dir kstack lost) (h0 : p ≠ 0)
    (wrote : Wrote (k.setCr3 (k.regsCr3 p)) k' p (dir p) pd
      (kstack p :: others.flatMap (heldPages dir kstack)) (others.flatMap k.pglist ++ lost) A)
    (hslots : ∀ q, q ≠ p → k'.pd q = k.pd q ∧ k'.pglist q = k.pglist q) (hregs : k'.regsCr3 = k.regsCr3)
    (hb : Bounded k' p) :
    Apart k' (p :: others) (Function.update dir p pd) kstack lost ∧
      Elsewhere k k' p (allPages k dir kstack others lost) := by
  have e : Elsewhere k k' p (allPages k dir kstack others lost) :=
    ⟨wrote.spared.subset allPages_cons, wrote.low, fun q hq =>
      ⟨(hslots q hq).1, (hslots q hq).2, by rw [hregs]⟩⟩
  have guest : Guest k' pd p := by
    refine ⟨wrote.space.own, wrote.space.map, hb, ?_⟩
    rw [hregs, wrote.base]
    exact (h.guests p List.mem_cons_self).registers
  refine ⟨?_, e⟩
  have hothers : ∀ q ∈ others, Guest k (dir q) q := fun q hq => h.guests q (List.mem_cons_of_mem _ hq)
  have joined : Apart k' (p :: others) (Function.update dir p pd) (Function.update kstack p (kstack p)) lost :=
    join h.nodup h0 hothers h.registers h.map (fun _ => id) e guest wrote.space.frames
  rwa [Function.update_eq_self] at joined

/-- The kernel heap is used. -/
lemma heap (h : Apart k live dir kstack lost) (ho : HeapOnly k k') (km : KernelMap k.mm.ram k.mm.dir) (pid : Nat) :
    Apart k' live dir kstack lost ∧ Elsewhere k k' pid (allPages k dir kstack live lost) := by
  have grows := ho.grows km h.frames.held.lower h.frames.held.upper
  have e : ∀ pid, Elsewhere k k' pid (allPages k dir kstack live lost) := fun pid =>
    .of_outside (grows.sameOutside h.frames.held.lower) h.lower fun q _ =>
      ⟨by rw [ho.same.pd], by rw [ho.same.pglist], by rw [ho.same.regsCr3]⟩
  refine ⟨⟨h.nodup, fun q hq => ?_, ?_, ?_, h.map.congr (e 0).low⟩, e pid⟩
  · exact (h.guests q hq).elsewhere (e (q + 1)) (Nat.succ_ne_self q).symm (sub_allPages hq)
  · rw [ho.same.pglist]
    exact h.frames.grows grows
  · rw [ho.same.regsCr3]
    exact h.registers

/-- Another directory is loaded, and the process table has changed. -/
lemma switch (h : Apart k live dir kstack lost) (table : Table) (allocated : List Nat) (cr3 : Nat) :
    Apart (Kernel.setCr3 { k with table := table, allocated := allocated } cr3) live dir kstack lost :=
  ⟨h.nodup, fun q hq => ⟨(h.guests q hq).own, (h.guests q hq).map, (h.guests q hq).bounded,
    (h.guests q hq).registers⟩, h.frames.load, h.registers, h.map⟩

end Apart

end Creeks
