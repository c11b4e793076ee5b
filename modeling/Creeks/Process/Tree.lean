import Creeks.Process.Count

/-!
# The process tree

Every slot in use hangs in the child list of exactly one slot, its parent, and the parent links lead
to the kernel thread. `Tree` is the invariant; `process_tree` reads the result off it.

The slots the tree is about are those `load_task` can ever fill: the array, and the slot behind it
when the memory there happens to read as a free one.
-/

namespace Creeks
open Lib

/-- The parent links of `p` reach the kernel thread. -/
inductive Rooted (t : Table) : Nat → Prop where
  | root : Rooted t 0
  | up {p} : Rooted t (t.pList p).parent → Rooted t p

/-- A way up stays one when every link on it is kept or now leads to the kernel thread at once. -/
lemma Rooted.congr {t t' : Table} {P : Nat → Prop} {p : Nat} (h : Rooted t p) (hp : P p)
    (up : ∀ q, P q → q = 0 ∨ (t'.pList q).parent = 0 ∨
      (t'.pList q).parent = (t.pList q).parent ∧ P (t.pList q).parent) : Rooted t' p := by
  induction h with
  | root => exact .root
  | @up p _ ih =>
    rcases up p hp with rfl | e | ⟨e, hq⟩
    · exact .root
    · exact .up (e.symm ▸ .root)
    · exact .up (e.symm ▸ ih hq)

/-- A chain of parent links that ends is a number of steps up. -/
lemma Rooted.iterate {t : Table} {p : Nat} (h : Rooted t p) :
    ∃ n, (fun q => (t.pList q).parent)^[n] p = 0 := by
  induction h with
  | root => exact ⟨0, rfl⟩
  | up _ ih =>
    obtain ⟨n, hn⟩ := ih
    exact ⟨n + 1, hn⟩

/-- A slot in use, among those `load_task` can fill. -/
def InUse (last : Nat) (t : Table) (p : Nat) : Prop :=
  1 ≤ p ∧ p ≤ last ∧ (t.pList p).state ≠ 0

/-- The last slot `load_task` can ever fill, by what lies behind the array at the boot. -/
def lastSlot (beyond : Nat → Process) : Nat :=
  if (beyond (MAXPID + 1)).state = 0 then MAXPID + 1 else MAXPID

/-- The tree of the slots `1` to `last` under the kernel thread. What the slot behind the array
holds as a child list means nothing while that slot is free. -/
structure Tree (last : Nat) (t : Table) : Prop where
  le_last : MAXPID ≤ last
  last_le : last ≤ MAXPID + 1
  closed : last = MAXPID → (t.pList (MAXPID + 1)).state ≠ 0
  child : ∀ q ≤ last, q ≤ MAXPID ∨ (t.pList q).state ≠ 0 →
    ∀ p, p ∈ (t.pList q).child ↔ InUse last t p ∧ (t.pList p).parent = q
  nodup : ∀ q ≤ last, q ≤ MAXPID ∨ (t.pList q).state ≠ 0 → (t.pList q).child.Nodup
  parent : ∀ p, InUse last t p →
    (t.pList p).parent = 0 ∨
      (t.pList p).parent ≤ last ∧ 0 < (t.pList (t.pList p).parent).state
  rooted : ∀ p, InUse last t p → Rooted t p

namespace Tree

variable {last : Nat} {t t' : Table} {op : TableOp}

/-- The parent of a slot in use has a child list of its own. -/
lemma parent_listed (tree : Tree last t) {p : Nat} (h : InUse last t p) :
    (t.pList p).parent ≤ last ∧
      ((t.pList p).parent ≤ MAXPID ∨ (t.pList (t.pList p).parent).state ≠ 0) := by
  rcases tree.parent p h with e | ⟨hl, hs⟩
  · rw [e]
    exact ⟨Nat.zero_le _, .inl (Nat.zero_le _)⟩
  · exact ⟨hl, .inr (by omega)⟩

/-- A slot is in the list of its parent, once. -/
lemma count_parent (tree : Tree last t) {p : Nat} (h : InUse last t p) :
    (t.pList (t.pList p).parent).child.count p = 1 := by
  obtain ⟨h1, h2⟩ := tree.parent_listed h
  exact List.count_eq_one_of_mem (tree.nodup _ h1 h2) ((tree.child _ h1 h2 p).2 ⟨h, rfl⟩)

/-- Nobody's parent is a slot that is not live. -/
lemma parent_ne (tree : Tree last t) {p q : Nat} (h : InUse last t p) (h0 : q ≠ 0)
    (hs : ¬ 0 < (t.pList q).state) : (t.pList p).parent ≠ q := by
  rintro rfl
  rcases tree.parent p h with e | ⟨-, e⟩
  · exact h0 e
  · exact hs e

/-- The children of the running process. -/
lemma mem_child_current (tree : Tree last t) (seats : Seats t) (p : Nat) :
    p ∈ (t.pList t.current).child ↔ InUse last t p ∧ (t.pList p).parent = t.current :=
  tree.child _ (by have := seats.current_lt; have := tree.le_last; omega)
    (.inl seats.current_lt.le) p

lemma nodup_child_current (tree : Tree last t) (seats : Seats t) :
    (t.pList t.current).child.Nodup :=
  tree.nodup _ (by have := seats.current_lt; have := tree.le_last; omega)
    (.inl seats.current_lt.le)

/-- The running process is in use, unless it is the kernel thread. -/
lemma inUse_current (tree : Tree last t) (seats : Seats t) (h : t.current ≠ 0) :
    InUse last t t.current := by
  have h1 := seats.current_lt
  have h2 := tree.le_last
  refine ⟨by omega, by omega, ?_⟩
  rw [seats.running]
  decide

/-- The tree only depends on the state, the parent and the children of each slot. -/
lemma congr (tree : Tree last t) (hs : ∀ p, (t'.pList p).state = (t.pList p).state)
    (hp : ∀ p, (t'.pList p).parent = (t.pList p).parent)
    (hc : ∀ p, (t'.pList p).child = (t.pList p).child) : Tree last t' := by
  have hu : ∀ p, InUse last t' p ↔ InUse last t p := fun p => by
    unfold InUse
    rw [hs]
  refine ⟨tree.le_last, tree.last_le, fun e => ?_, fun q hq hl p => ?_, fun q hq hl => ?_,
    fun p h => ?_, fun p h => ?_⟩
  · rw [hs]
    exact tree.closed e
  · rw [hs] at hl
    rw [hc, hu, hp]
    exact tree.child q hq hl p
  · rw [hs] at hl
    rw [hc]
    exact tree.nodup q hq hl
  · rw [hp, hs]
    exact tree.parent p ((hu p).1 h)
  · refine (tree.rooted p ((hu p).1 h)).congr (P := fun _ => True) trivial fun q _ => ?_
    exact .inr (.inr ⟨hp q, trivial⟩)

/-- A slot of the array other than the first is blank after the boot. -/
lemma boot_blank (beyond : Nat → Process) {p : Nat} (h1 : 1 ≤ p) (h2 : p ≤ MAXPID) :
    (bootTable beyond).pList p = blankProcess := by
  change (ite _ _ _ : Process) = _
  rw [if_neg (by omega), if_pos h2]

/-- After the boot every slot a process can ever get is free. -/
lemma boot_free (beyond : Nat → Process) {p : Nat} (h1 : 1 ≤ p) (h2 : p ≤ lastSlot beyond) :
    ((bootTable beyond).pList p).state = 0 := by
  by_cases h : p ≤ MAXPID
  · rw [boot_blank beyond h1 h]
    rfl
  · unfold lastSlot at h2
    split at h2
    · rename_i hb
      rw [show p = MAXPID + 1 by omega]
      exact hb
    · exact absurd h2 h

/-- The boot leaves an empty tree. -/
lemma boot (beyond : Nat → Process) : Tree (lastSlot beyond) (bootTable beyond) := by
  have hnil : ∀ p, p ≤ MAXPID → ((bootTable beyond).pList p).child = [] := by
    intro p h
    by_cases e : p = 0
    · rw [e]
      rfl
    · rw [boot_blank beyond (by omega) h]
      rfl
  have hfree := fun p (h1 : 1 ≤ p) (h2 : p ≤ lastSlot beyond) => boot_free beyond h1 h2
  obtain ⟨h1, h2, hclosed⟩ : MAXPID ≤ lastSlot beyond ∧ lastSlot beyond ≤ MAXPID + 1 ∧
      (lastSlot beyond = MAXPID → ((bootTable beyond).pList (MAXPID + 1)).state ≠ 0) := by
    unfold lastSlot
    split
    · exact ⟨by omega, le_refl _, fun h => by omega⟩
    · rename_i hb
      exact ⟨le_refl _, by omega, fun _ => hb⟩
  generalize lastSlot beyond = last at h1 h2 hclosed hfree
  have hnone : ∀ p, ¬ InUse last (bootTable beyond) p :=
    fun p ⟨h1, h2, h⟩ => h (hfree p h1 h2)
  have hlisted : ∀ q ≤ last, q ≤ MAXPID ∨ ((bootTable beyond).pList q).state ≠ 0 →
      q ≤ MAXPID := by
    intro q hq hl
    rcases hl with hl | hl
    · exact hl
    · by_contra hgt
      exact hl (hfree q (by omega) hq)
  refine ⟨h1, h2, hclosed, fun q hq hl p => ?_, fun q hq hl => ?_,
    fun p h => absurd h (hnone p), fun p h => absurd h (hnone p)⟩
  · rw [hnil q (hlisted q hq hl)]
    exact ⟨nofun, fun h => absurd h.1 (hnone p)⟩
  · rw [hnil q (hlisted q hq hl)]
    exact List.nodup_nil

end Tree

/-! ## A new process -/

/-- What a new process does to the tree: the free slot `pid` becomes a child of the running process. -/
structure LeafAdded (last : Nat) (t t' : Table) (pid : Nat) : Prop where
  free : (t.pList pid).state = 0
  ne_current : pid ≠ t.current
  pos : 1 ≤ pid
  le_last : pid ≤ last
  state : ∀ j, (t'.pList j).state = if j = pid then 1 else (t.pList j).state
  parent : ∀ j, (t'.pList j).parent = if j = pid then t.current else (t.pList j).parent
  child_new : (t'.pList pid).child = []
  child_current : (t'.pList t.current).child = pid :: (t.pList t.current).child
  child_other : ∀ j, j ≠ pid → j ≠ t.current → (t'.pList j).child = (t.pList j).child

namespace LeafAdded

variable {last pid p q : Nat} {t t' : Table}

lemma fill (tree : Tree last t) (seats : Seats t) (hs : (t.pList (freeSlot t)).state = 0) :
    LeafAdded last t (fillSlot (claimSlot t (freeSlot t)) (freeSlot t) (newParent t)) (freeSlot t) := by
  have hne := seats.slot_ne_current hs
  have hle : freeSlot t ≤ last := by
    have hle := freeSlot_le t
    have hl := tree.le_last
    by_contra hgt
    refine tree.closed (by omega) ?_
    rwa [show MAXPID + 1 = freeSlot t by omega]
  rw [seats.newParent_eq]
  refine ⟨hs, hne, one_le_freeSlot t, hle, fun j => ?_, fun j => ?_, ?_, ?_, fun j h h' => ?_⟩
  · rw [fillSlot_state, claimSlot_state]
  · rw [fillSlot_parent, claimSlot_parent]
  · exact fillSlot_child_new hne.symm
  · rw [fillSlot_child_parent hne.symm, claimSlot_child]
  · rw [fillSlot_child_other h h', claimSlot_child]

lemma not_inUse (leaf : LeafAdded last t t' pid) : ¬ InUse last t pid := fun h => h.2.2 leaf.free

lemma inUse (leaf : LeafAdded last t t' pid) (p : Nat) : InUse last t' p ↔ p = pid ∨ InUse last t p := by
  unfold InUse
  rw [leaf.state]
  by_cases e : p = pid
  · simp [e, leaf.pos, leaf.le_last]
  · simp [e]

/-- Another slot that has a child list had one before. -/
lemma listed (leaf : LeafAdded last t t' pid) (hq : q ≠ pid)
    (hl : q ≤ MAXPID ∨ (t'.pList q).state ≠ 0) : q ≤ MAXPID ∨ (t.pList q).state ≠ 0 := by
  rwa [leaf.state, if_neg hq] at hl

/-- Nobody is a child of the new process. -/
lemma child_leaf (tree : Tree last t) (leaf : LeafAdded last t t' pid) :
    p ∈ (t'.pList pid).child ↔ InUse last t' p ∧ (t'.pList p).parent = pid := by
  rw [leaf.child_new, leaf.inUse, leaf.parent]
  refine ⟨fun h => absurd h List.not_mem_nil, fun ⟨h, e⟩ => ?_⟩
  have hfree := leaf.free
  have hpos := leaf.pos
  by_cases ep : p = pid
  · rw [if_pos ep] at e
    exact absurd e.symm leaf.ne_current
  · rw [if_neg ep] at e
    exact absurd e (tree.parent_ne (h.resolve_left ep) (by omega) (by omega))

lemma child (tree : Tree last t) (leaf : LeafAdded last t t' pid) (hq : q ≤ last)
    (hl : q ≤ MAXPID ∨ (t'.pList q).state ≠ 0) :
    p ∈ (t'.pList q).child ↔ InUse last t' p ∧ (t'.pList p).parent = q := by
  by_cases eq : q = pid
  · rw [eq]
    exact child_leaf tree leaf
  have hl' := leaf.listed eq hl
  rw [leaf.inUse, leaf.parent]
  by_cases ec : q = t.current
  · subst ec
    rw [leaf.child_current, List.mem_cons, tree.child _ hq hl']
    by_cases ep : p = pid
    · simp [ep]
    · simp [ep]
  · rw [leaf.child_other q eq ec, tree.child _ hq hl']
    by_cases ep : p = pid
    · subst ep
      rw [if_pos rfl]
      exact ⟨fun h => absurd h.1 leaf.not_inUse, fun h => absurd h.2.symm ec⟩
    · simp [ep]

lemma nodup (tree : Tree last t) (leaf : LeafAdded last t t' pid) (hq : q ≤ last)
    (hl : q ≤ MAXPID ∨ (t'.pList q).state ≠ 0) : (t'.pList q).child.Nodup := by
  by_cases eq : q = pid
  · rw [eq, leaf.child_new]
    exact List.nodup_nil
  have hl' := leaf.listed eq hl
  by_cases ec : q = t.current
  · subst ec
    rw [leaf.child_current]
    exact List.nodup_cons.2
      ⟨fun h => leaf.not_inUse ((tree.child _ hq hl' _).1 h).1, tree.nodup _ hq hl'⟩
  · rw [leaf.child_other q eq ec]
    exact tree.nodup q hq hl'

lemma parent_live (tree : Tree last t) (seats : Seats t) (leaf : LeafAdded last t t' pid)
    (h : InUse last t' p) : (t'.pList p).parent = 0 ∨
      (t'.pList p).parent ≤ last ∧ 0 < (t'.pList (t'.pList p).parent).state := by
  rw [leaf.parent]
  by_cases ep : p = pid
  · rw [if_pos ep, leaf.state, if_neg leaf.ne_current.symm, seats.running]
    have hlt := seats.current_lt
    have hle := tree.le_last
    exact .inr ⟨by omega, by decide⟩
  · rw [if_neg ep, leaf.state]
    rcases tree.parent p (((leaf.inUse p).1 h).resolve_left ep) with e | ⟨h, h'⟩
    · exact .inl e
    · refine .inr ⟨h, ?_⟩
      split
      · decide
      · exact h'

/-- The slots that were in use keep their way up. -/
lemma rooted_old (tree : Tree last t) (leaf : LeafAdded last t t' pid) (h : InUse last t p) :
    Rooted t' p := by
  refine (tree.rooted p h).congr (P := fun q => q = 0 ∨ InUse last t q) (.inr h) fun q hq => ?_
  refine hq.imp_right fun hq => .inr ⟨?_, ?_⟩
  · have hne : q ≠ pid := fun e => leaf.not_inUse (e ▸ hq)
    rw [leaf.parent, if_neg hne]
  · rcases tree.parent q hq with e | ⟨h, h'⟩
    · exact .inl e
    · by_cases e : (t.pList q).parent = 0
      · exact .inl e
      · exact .inr ⟨by omega, h, by omega⟩

lemma rooted (tree : Tree last t) (seats : Seats t) (leaf : LeafAdded last t t' pid)
    (h : InUse last t' p) : Rooted t' p := by
  by_cases ep : p = pid
  · refine .up ?_
    rw [leaf.parent, if_pos ep]
    by_cases e : t.current = 0
    · rw [e]
      exact .root
    · exact rooted_old tree leaf (tree.inUse_current seats e)
  · exact rooted_old tree leaf (((leaf.inUse p).1 h).resolve_left ep)

end LeafAdded

namespace Tree

variable {last : Nat} {t t' : Table} {op : TableOp}

/-- A new process becomes a leaf under the one that created it. -/
lemma fill (tree : Tree last t) (seats : Seats t) (hs : (t.pList (freeSlot t)).state = 0) :
    Tree last (fillSlot (claimSlot t (freeSlot t)) (freeSlot t) (newParent t)) := by
  have leaf := LeafAdded.fill tree seats hs
  refine ⟨tree.le_last, tree.last_le, fun e => ?_, fun q hq hl p => LeafAdded.child tree leaf hq hl,
    fun q hq hl => LeafAdded.nodup tree leaf hq hl, fun p h => LeafAdded.parent_live tree seats leaf h,
    fun p h => LeafAdded.rooted tree seats leaf h⟩
  have hle := leaf.le_last
  rw [leaf.state, if_neg (by omega)]
  exact tree.closed e

/-! ## An exit -/

section Exit

variable {status : Int} {p q : Nat}

/-- A slot that has a child list after an exit had one before. -/
lemma exit_listed (seats : Seats t) (hl : q ≤ MAXPID ∨ ((sysExit t status).pList q).state ≠ 0) :
    q ≤ MAXPID ∨ (t.pList q).state ≠ 0 := by
  refine hl.elim .inl fun h => ?_
  by_cases e : q = t.current
  · exact .inl (e ▸ seats.current_lt.le)
  · rw [sysExit_state, if_neg e] at h
    exact .inr h

/-- A process that exits keeps its slot. -/
lemma exit_inUse (seats : Seats t) (p : Nat) : InUse last (sysExit t status) p ↔ InUse last t p := by
  unfold InUse
  rw [sysExit_state]
  by_cases e : p = t.current
  · simp [e, seats.running]
  · simp [e]

lemma exit_parent (tree : Tree last t) (seats : Seats t) (hp : InUse last t p) :
    ((sysExit t status).pList p).parent =
      if (t.pList p).parent = t.current then 0 else (t.pList p).parent := by
  rw [sysExit_parent]
  simp only [tree.mem_child_current seats, hp, true_and]

/-- The kernel thread gets the children of the process. -/
lemma exit_child_root (tree : Tree last t) (seats : Seats t) (h0 : t.current ≠ 0) :
    p ∈ ((sysExit t status).pList 0).child ↔
      InUse last t p ∧ ((sysExit t status).pList p).parent = 0 := by
  rw [sysExit_child_root _ h0, List.mem_append, List.mem_reverse, tree.mem_child_current seats,
    tree.child 0 (Nat.zero_le _) (.inl (Nat.zero_le _))]
  constructor
  · rintro (⟨hp, e⟩ | ⟨hp, e⟩)
    · exact ⟨hp, by rw [tree.exit_parent seats hp, if_pos e]⟩
    · exact ⟨hp, by rw [tree.exit_parent seats hp, e, ite_self]⟩
  · rintro ⟨hp, e⟩
    rw [tree.exit_parent seats hp] at e
    by_cases ec : (t.pList p).parent = t.current
    · exact .inl ⟨hp, ec⟩
    · rw [if_neg ec] at e
      exact .inr ⟨hp, e⟩

/-- The process that exits has no children left. -/
lemma exit_child_current (tree : Tree last t) (seats : Seats t) (h0 : t.current ≠ 0) :
    p ∈ ((sysExit t status).pList t.current).child ↔
      InUse last t p ∧ ((sysExit t status).pList p).parent = t.current := by
  rw [sysExit_child_current _ h0]
  refine ⟨fun h => absurd h List.not_mem_nil, fun ⟨hp, e⟩ => ?_⟩
  rw [tree.exit_parent seats hp] at e
  split at e
  · exact absurd e.symm h0
  · rename_i hn
    exact absurd e hn

/-- The children of the others stay theirs. -/
lemma exit_child_other (tree : Tree last t) (seats : Seats t) (e0 : q ≠ 0) (ec : q ≠ t.current)
    (hq : q ≤ last) (hl : q ≤ MAXPID ∨ (t.pList q).state ≠ 0) :
    p ∈ ((sysExit t status).pList q).child ↔
      InUse last t p ∧ ((sysExit t status).pList p).parent = q := by
  rw [sysExit_child_other _ e0 ec, tree.child q hq hl]
  refine and_congr_right fun hp => ?_
  rw [tree.exit_parent seats hp]
  by_cases e : (t.pList p).parent = t.current
  · rw [if_pos e, e]
    exact ⟨fun h => absurd h.symm ec, fun h => absurd h.symm e0⟩
  · rw [if_neg e]

lemma exit_nodup (tree : Tree last t) (seats : Seats t) (h0 : t.current ≠ 0) (hq : q ≤ last)
    (hl : q ≤ MAXPID ∨ (t.pList q).state ≠ 0) : ((sysExit t status).pList q).child.Nodup := by
  by_cases e0 : q = 0
  · subst e0
    rw [sysExit_child_root _ h0]
    refine List.nodup_append.2 ⟨List.nodup_reverse.2 (tree.nodup_child_current seats),
      tree.nodup 0 hq hl, fun a ha b hb e => ?_⟩
    subst e
    have h1 := ((tree.mem_child_current seats a).1 (List.mem_reverse.1 ha)).2
    have h2 := ((tree.child 0 hq hl a).1 hb).2
    exact h0 (h1.symm.trans h2)
  by_cases ec : q = t.current
  · subst ec
    rw [sysExit_child_current _ h0]
    exact List.nodup_nil
  · rw [sysExit_child_other _ e0 ec]
    exact tree.nodup q hq hl

lemma exit_rooted (tree : Tree last t) (h : InUse last t p) : Rooted (sysExit t status) p := by
  refine (tree.rooted p h).congr (P := fun _ => True) trivial fun q _ => .inr ?_
  rw [sysExit_parent]
  split
  · exact .inl rfl
  · exact .inr ⟨rfl, trivial⟩

end Exit

/-- An exit hangs the children of the process under the kernel thread. -/
lemma exit (tree : Tree last t) (seats : Seats t) (h0 : t.current ≠ 0) (status : Int) :
    Tree last (sysExit t status) := by
  refine ⟨tree.le_last, tree.last_le, fun e => ?_, fun q hq hl p => ?_, fun q hq hl => ?_,
    fun p h => ?_, fun p h => ?_⟩
  · have hlt := seats.current_lt
    rw [sysExit_state, if_neg (by omega)]
    exact tree.closed e
  · rw [exit_inUse seats]
    by_cases e0 : q = 0
    · rw [e0]
      exact tree.exit_child_root seats h0
    by_cases ec : q = t.current
    · rw [ec]
      exact tree.exit_child_current seats h0
    · exact tree.exit_child_other seats e0 ec hq (exit_listed seats hl)
  · exact tree.exit_nodup seats h0 hq (exit_listed seats hl)
  · have hp := (exit_inUse seats p).1 h
    rw [tree.exit_parent seats hp]
    by_cases e : (t.pList p).parent = t.current
    · rw [if_pos e]
      exact .inl rfl
    · rw [if_neg e, sysExit_state, if_neg e]
      exact tree.parent p hp
  · exact tree.exit_rooted ((exit_inUse seats p).1 h)

/-! ## The steps -/

/-- Collecting a dead child takes a leaf off. -/
lemma collect (tree : Tree last t) (seats : Seats t) {c : Nat}
    (hc : c ∈ (t.pList t.current).child) (hz : (t.pList c).state = -1) :
    Tree last (collected t c) := by
  obtain ⟨hcu, hcp⟩ := (tree.mem_child_current seats c).1 hc
  have hlisted : ∀ q, q ≤ MAXPID ∨ ((collected t c).pList q).state ≠ 0 →
      q ≤ MAXPID ∨ (t.pList q).state ≠ 0 := by
    rintro q (h | h)
    · exact .inl h
    · refine .inr fun hq => h ?_
      rw [collected_state, hq, ite_self]
  have hu : ∀ p, InUse last (collected t c) p ↔ p ≠ c ∧ InUse last t p := by
    intro p
    unfold InUse
    rw [collected_state]
    by_cases e : p = c
    · simp [e]
    · simp [e]
  refine ⟨tree.le_last, tree.last_le, fun e => ?_, fun q hq hl p => ?_, fun q hq hl => ?_,
    fun p h => ?_, fun p h => ?_⟩
  · have := hcu.2.1
    rw [collected_state, if_neg (by omega)]
    exact tree.closed e
  · rw [hu, collected_parent]
    by_cases ec : q = t.current
    · subst ec
      rw [collected_child_current, (tree.nodup_child_current seats).mem_erase_iff,
        tree.mem_child_current seats, and_assoc]
    · rw [collected_child_other ec, tree.child q hq (hlisted q hl)]
      refine ⟨fun ⟨hp, e⟩ => ⟨⟨?_, hp⟩, e⟩, fun ⟨⟨_, hp⟩, e⟩ => ⟨hp, e⟩⟩
      rintro rfl
      exact ec (e.symm.trans hcp)
  · by_cases ec : q = t.current
    · subst ec
      rw [collected_child_current]
      exact (tree.nodup_child_current seats).erase c
    · rw [collected_child_other ec]
      exact tree.nodup q hq (hlisted q hl)
  · rw [collected_parent, collected_state]
    rcases tree.parent p ((hu p).1 h).2 with e | ⟨h, h'⟩
    · exact .inl e
    · refine .inr ⟨h, ?_⟩
      rw [if_neg]
      · exact h'
      · intro e
        rw [e, hz] at h'
        exact absurd h' (by decide)
  · refine (tree.rooted p ((hu p).1 h).2).congr (P := fun _ => True) trivial fun q _ => ?_
    exact .inr (.inr ⟨collected_parent .., trivial⟩)

/-- Every step keeps the tree. -/
lemma step (tree : Tree last t) (seats : Seats t) (st : TableStep t op t') : Tree last t' := by
  cases st with
  | loadTask =>
    rename_i file
    rcases loadTask_cases t file with ⟨-, e⟩ | ⟨-, -, e⟩ | ⟨hs, -, e⟩
    · rw [e]
      exact tree
    · rw [e]
      exact tree.congr (fun _ => claimSlot_state ..) (fun _ => claimSlot_parent ..)
        fun _ => claimSlot_child ..
    · rw [e]
      exact tree.fill seats hs
  | sysExit h0 => exact tree.exit seats h0 _
  | sysWait h0 h =>
    obtain ⟨-, ⟨p, hp, hz, rfl, -⟩ | ⟨-, rfl, -⟩⟩ := sysWait_cases h
    · exact tree.collect seats hp hz
    · exact tree
  | schedule =>
    have e := schedule_pList t
    exact tree.congr (fun _ => by rw [e]) (fun _ => by rw [e]) fun _ => by rw [e]

lemma run {beyond : Nat → Process} {ls : List TableOp}
    (run : Run TableStep (bootTable beyond) ls t) : Tree (lastSlot beyond) t := by
  have h := run.invariant (I := fun t => Seats t ∧ Tree (lastSlot beyond) t)
    (fun _ _ _ h st => ⟨h.1.step st, h.2.step h.1 st⟩) ⟨Seats.boot beyond, boot beyond⟩
  exact h.2

end Tree

end Creeks
