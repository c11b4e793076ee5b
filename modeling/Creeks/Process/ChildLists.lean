import Creeks.Lib.Link
import Creeks.Process.Tree

/-!
# The child lists in memory

`list.h` under the process table: the `struct list_head` that heads the children of a slot, `child`,
and the one by which a slot hangs in the list of its parent, `sibling`. `load_task`, `sys_exit` and
`sys_wait` are read again here with the links they write and the links they walk. The list that
`Process.child` holds is what the links stand for; no function of this module reads it.

`p_list` lies in the zeroed data of the kernel, and `load_task` is the only caller of
`INIT_LIST_HEAD` on a child list. So the head of slot 0, which no `load_task` fills, starts with two
null links.
-/

namespace Creeks
open Lib

/-- What a link can hold: the null pointer, the address of one of the two list nodes of a slot, or
any other word. The null pointer has links too: memory at address 0 is mapped, and holds the IDT. -/
inductive Node where
  | null
  | child (slot : Nat)
  | sibling (slot : Nat)
  | other (word : BitVec 32)
  deriving DecidableEq

/-- The process table with the links of its nodes. `nullUsed` records that a `list_add` or a
`list_del` has read or written through the null pointer. -/
structure LinkedTable where
  table : Table
  links : Links Node
  nullUsed : Bool

namespace LinkedTable

/-- `INIT_LIST_HEAD` -/
def initListHead (s : LinkedTable) (list : Node) : LinkedTable :=
  { s with links := s.links.initHead list }

/-- `list_add`. It goes through `new`, `head` and `head->next`. -/
def listAdd (s : LinkedTable) (new head : Node) : LinkedTable where
  table := s.table
  links := s.links.add new head
  nullUsed := s.nullUsed || decide (.null ∈ [new, head, s.links.next head])

/-- `list_del`. It goes through `p`, `p->next` and `p->prev`. -/
def listDel (s : LinkedTable) (p : Node) : LinkedTable where
  table := s.table
  links := s.links.del .null p
  nullUsed := s.nullUsed || decide (.null ∈ [p, s.links.next p, s.links.prev p])

/-- `load_task` -/
def loadTask (s : LinkedTable) (file : Mem) : LinkedTable × Nat :=
  let (table, pid) := Creeks.loadTask s.table file
  if pid = 0 then ({ s with table }, 0)
  else
    let s' := { s with table }.initListHead (.child pid)
    (s'.listAdd (.sibling pid) (.child (newParent s.table)), pid)

/-- The body of the reparenting loop of `sys_exit`. -/
def reparent (s : LinkedTable) (proc : Nat) : LinkedTable :=
  let s := { s with table := Creeks.reparent s.table proc }
  (s.listDel (.sibling proc)).listAdd (.sibling proc) (.child 0)

/-- The rest of the reparenting loop: it is at `p`, and has read `n` behind it. There is no result
when the walk leaves the table or is not done after as many turns as `fuel` says. -/
def reparentLoop (head : Node) : Nat → Node → Node → LinkedTable → Option LinkedTable
  | 0, _, _, _ => none
  | fuel + 1, p, n, s =>
    if p = head then some s
    else match p with
      | .sibling proc =>
        let s := s.reparent proc
        reparentLoop head fuel n (s.links.next n) s
      | _ => none

/-- The turns of a walk over a list that has every slot in it. -/
abbrev walkTurns : Nat := MAXPID + 2

/-- `sys_exit` -/
def sysExit (s : LinkedTable) (status : Int) : Option LinkedTable :=
  let s := { s with table := becomeZombie s.table status }
  let head := .child s.table.current
  let p := s.links.next head
  (reparentLoop head walkTurns p (s.links.next p) s).map
    fun s => { s with table := { s.table with current := 0 } }

/-- The search of `sys_wait` for a dead child, from `p` on. The inner result is the slot it stops
at. -/
def deadLoop (s : LinkedTable) (head : Node) : Nat → Node → Option (Option Nat)
  | 0, _ => none
  | fuel + 1, p =>
    if p = head then some none
    else match p with
      | .sibling proc =>
        if (s.table.pList proc).state = -1 then some (some proc)
        else deadLoop s head fuel (s.links.next p)
      | _ => none

/-- `sys_wait` past its loop, without what it returns. -/
def sysWait (s : LinkedTable) : Option LinkedTable :=
  if isSignal (s.table.pList s.table.current).signal SIGCHLD then
    let head := .child s.table.current
    match s.deadLoop head walkTurns (s.links.next head) with
    | none => none
    | some none => some s
    | some (some proc) =>
      some ({ s with table := collected s.table proc }.listDel (.sibling proc))
  else none

/-- The state `kmain` sets up: every link of the table is null. `word` is what the links of the null
pointer and of addresses outside the table hold. -/
def boot (beyond : Nat → Process) (word : Links Node) : LinkedTable where
  table := bootTable beyond
  links :=
    let blank := fun (f : Node → Node) node =>
      match node with
      | .child slot | .sibling slot => if slot ≤ MAXPID then .null else f node
      | _ => f node
    ⟨blank word.next, blank word.prev⟩
  nullUsed := false

end LinkedTable

/-- One step of the system, with the links. -/
inductive LinkedStep : LinkedTable → TableOp → LinkedTable → Prop where
  | loadTask {s file} : LinkedStep s (.loadTask file) (s.loadTask file).1
  | sysExit {s status s'} :
    s.table.current ≠ 0 →
    s.sysExit status = some s' →
    LinkedStep s (.sysExit status) s'
  | sysWait {s junk s'} :
    s.table.current ≠ 0 →
    s.sysWait = some s' →
    LinkedStep s (.sysWait junk) s'
  | schedule {s} : LinkedStep s .schedule { s with table := schedule s.table }

/-! ## A family of lists -/

/-- Where the last link of a child list leads: to the head, but for slot 0. -/
def listEnd (q : Nat) : Node := if q = 0 then .null else .child q

/-- The lists of the used slots hang behind their heads, have no node in common, and the head of
slot 0 has no link back. -/
structure Hanging (used : Nat → Prop) (child : Nat → List Nat) (l : Links Node) : Prop where
  hung : ∀ q, used q → l.Hung .null (.child q) ((child q).map .sibling) (listEnd q)
  apart : ∀ q q', used q → used q' → q ≠ q' → ∀ p ∈ child q, p ∉ child q'
  rootPrev : l.prev (.child 0) = .null

namespace Hanging

variable {used used' : Nat → Prop} {child child' : Nat → List Nat} {l : Links Node} {q p : Nat}
  {as bs : List Nat}

/-- Slots go out of use, and the lists of those that stay are the same. -/
lemma congr (hang : Hanging used child l) (hu : ∀ q, used' q → used q)
    (hc : ∀ q, used' q → child' q = child q) : Hanging used' child' l := by
  refine ⟨fun q hq => ?_, fun q q' hq hq' hne => ?_, hang.rootPrev⟩
  · rw [hc q hq]
    exact hang.hung q (hu q hq)
  · rw [hc q hq, hc q' hq']
    exact hang.apart q q' (hu q hq) (hu q' hq') hne

/-- The nodes a used head leads to. -/
lemma next_mem (hang : Hanging used child l) (hq : used q) :
    l.next (.child q) ∈ (child q).map Node.sibling ++ [listEnd q] := by
  rw [(hang.hung q hq).next_head]
  exact List.head_mem _

/-- The head of a list leads to null exactly when it is that of slot 0 and nothing hangs there. -/
lemma next_null (hang : Hanging used child l) (hq : used q) :
    l.next (.child q) = .null ↔ q = 0 ∧ child q = [] := by
  rw [(hang.hung q hq).next_head]
  cases hc : child q with
  | nil => simp [listEnd]
  | cons a as => simp

/-- Two lists of used slots have no node in common. -/
lemma disjoint (hang : Hanging used child l) {j : Nat} (hj : used j) (hq : used q) (hne : j ≠ q)
    {a : Node} (ha : a ∈ (child j).map Node.sibling ++ [listEnd j]) (hn : a ≠ .null) :
    a ∉ Node.child q :: ((child q).map Node.sibling ++ [listEnd q]) := by
  have hapart := hang.apart j q hj hq hne
  unfold listEnd at *
  grind

/-- The lists after an operation on the list of `q` that writes to nodes of that list only. -/
lemma edit {l' : Links Node} {cs : List Nat} (hang : Hanging used child l) (hq : used q)
    (hung : l'.Hung .null (.child q) (cs.map .sibling) (listEnd q))
    (hcs : ∀ p ∈ cs, ∀ j, used j → j ≠ q → p ∉ child j)
    (hn : ∀ j, used j → j ≠ q → ∀ a ∈ Node.child j :: (child j).map Node.sibling,
      l'.next a = l.next a)
    (hp : ∀ j, used j → j ≠ q → ∀ a ∈ (child j).map Node.sibling ++ [listEnd j], a ≠ .null →
      l'.prev a = l.prev a)
    (hroot : l'.prev (.child 0) = l.prev (.child 0)) :
    Hanging used (Function.update child q cs) l' := by
  refine ⟨fun j hj => ?_, fun j j' hj hj' hne => ?_, hroot.trans hang.rootPrev⟩
  · by_cases e : j = q
    · subst e
      rwa [Function.update_self]
    · rw [Function.update_of_ne e]
      exact (hang.hung j hj).congr (hn j hj e) (hp j hj e)
  · by_cases e : j = q
    · subst e
      rw [Function.update_self, Function.update_of_ne hne.symm]
      exact fun p hp => hcs p hp j' hj' hne.symm
    · rw [Function.update_of_ne e]
      by_cases e' : j' = q
      · subst e'
        rw [Function.update_self]
        exact fun p hp hm => hcs p hm j hj e hp
      · rw [Function.update_of_ne e']
        exact hang.apart j j' hj hj' hne

/-- A free slot gets an empty list. -/
lemma init (hang : Hanging used child l) (hq : ¬ used q) (h0 : q ≠ 0) :
    Hanging (fun j => j = q ∨ used j) (Function.update child q []) (l.initHead (.child q)) := by
  have hne : ∀ {j}, used j → j ≠ q := by
    rintro j hj rfl
    exact hq hj
  refine ⟨fun j hj => ?_, fun j j' hj hj' hne' => ?_, ?_⟩
  · rcases hj with rfl | hj
    · rw [Function.update_self, listEnd, if_neg h0]
      exact Links.Hung.init nofun
    · have e := hne hj
      rw [Function.update_of_ne e]
      refine (hang.hung j hj).congr (fun a ha => (Links.initHead_other ?_).1)
        fun a ha _ => (Links.initHead_other ?_).2
      · grind
      · unfold listEnd at ha
        grind
  · rcases hj with rfl | hj
    · rw [Function.update_self]
      exact nofun
    · rw [Function.update_of_ne (hne hj)]
      rcases hj' with rfl | hj'
      · rw [Function.update_self]
        exact fun _ _ => List.not_mem_nil
      · rw [Function.update_of_ne (hne hj')]
        exact hang.apart j j' hj hj' hne'
  · rw [(Links.initHead_other _).2]
    · exact hang.rootPrev
    · exact fun e => h0 (Node.child.inj e).symm

/-- A slot in no list is hung first into one. -/
lemma add (hang : Hanging used child l) (hq : used q) (hp : ∀ j, used j → p ∉ child j) :
    Hanging used (Function.update child q (p :: child q)) (l.add (.sibling p) (.child q)) := by
  have hnext := hang.next_mem hq
  have hin : ∀ j, used j → Node.sibling p ∉ Node.child j :: (child j).map Node.sibling := by
    intro j hj
    have := hp j hj
    grind
  apply hang.edit hq
  · apply (hang.hung q hq).add (hin q hq) nofun
    unfold listEnd
    split <;> exact nofun
  · intro p' hp' j hj hne
    cases hp' with
    | head => exact hp j hj
    | tail _ hp' => exact fun h => hang.apart j q hj hq hne p' h hp'
  · intro j hj hne a ha
    apply Links.add_next_other
    · rintro rfl
      exact hin j hj ha
    · grind
  · intro j hj hne a ha hn
    have hd := hang.disjoint hj hq hne ha hn
    apply Links.add_prev_other
    · exact nofun
    · rintro rfl
      have := hp j hj
      unfold listEnd at ha
      grind
    · rintro rfl
      exact hd (List.mem_cons_of_mem _ hnext)
  · apply Links.add_prev_other
    · exact nofun
    · exact nofun
    · intro e
      rw [← e] at hnext
      unfold listEnd at hnext
      grind

/-- A slot is taken out of its list. -/
lemma del (hang : Hanging used child l) (hq : used q) (hc : child q = as ++ p :: bs) :
    Hanging used (Function.update child q (as ++ bs)) (l.del .null (.sibling p)) := by
  have hung := hang.hung q hq
  rw [hc, List.map_append, List.map_cons] at hung
  obtain ⟨hprev, hnext⟩ := hung.around
  have hprev : l.prev (.sibling p) ∈ Node.child q :: (child q).map Node.sibling := by
    rw [hprev, hc]
    have := List.getLast_mem (List.cons_ne_nil (Node.child q) (as.map Node.sibling))
    grind
  have hnext : l.next (.sibling p) ∈ (child q).map Node.sibling ++ [listEnd q] := by
    rw [hnext, hc]
    have := List.head_mem (l := bs.map Node.sibling ++ [listEnd q]) (by simp)
    grind
  have hp : Node.sibling p ∈ (child q).map Node.sibling := by
    rw [hc]
    simp
  apply hang.edit hq
  · rw [List.map_append]
    exact hung.del
  · intro p' hp' j hj hne h
    refine hang.apart j q hj hq hne p' h ?_
    grind
  · intro j hj hne a ha
    have hd : a ∉ Node.child q :: (child q).map Node.sibling := by
      have := hang.apart j q hj hq hne
      grind
    apply Links.del_next_other
    · grind
    · rintro rfl
      exact hd hprev
  · intro j hj hne a ha hn
    have hd := hang.disjoint hj hq hne ha hn
    apply Links.del_prev_other
    · grind
    · rintro rfl
      exact hd (List.mem_cons_of_mem _ hnext)
  · apply Links.del_prev_other
    · exact nofun
    · intro e
      rw [← e] at hnext
      unfold listEnd at hnext
      grind

/-- A slot hangs in its list once. -/
lemma nodup (hang : Hanging used child l) (hq : used q) : (child q).Nodup :=
  List.Nodup.of_map _ (List.nodup_cons.1 (hang.hung q hq).nodup).2

/-- The links of a slot in the list of a slot other than 0 are not null. -/
lemma around (hang : Hanging used child l) (hq : used q) (h0 : q ≠ 0)
    (hc : child q = as ++ p :: bs) :
    l.next (.sibling p) = (bs.map Node.sibling ++ [Node.child q]).head (by simp) ∧
      Node.null ∉ [Node.sibling p, l.next (.sibling p), l.prev (.sibling p)] := by
  have hung := hang.hung q hq
  have hproper := hung.proper
  rw [hc, List.map_append, List.map_cons, listEnd, if_neg h0] at hung
  obtain ⟨hprev, hnext⟩ := hung.around
  refine ⟨hnext, ?_⟩
  have h1 : l.prev (.sibling p) ∈ Node.child q :: as.map Node.sibling := hprev ▸ List.getLast_mem _
  have h2 : l.next (.sibling p) ∈ bs.map Node.sibling ++ [Node.child q] := hnext ▸ List.head_mem _
  grind

end Hanging

/-! ## What each function does to the lists -/

/-- The child lists as the table records them. -/
def Table.children (t : Table) (q : Nat) : List Nat := (t.pList q).child

/-- A used slot of the table. -/
def Listed (last : Nat) (t : Table) (q : Nat) : Prop := q ≤ last ∧ (t.pList q).state ≠ 0

/-- The links stand for the child lists of the table, and the null pointer has been used since
something hangs under slot 0. -/
structure Linked (last : Nat) (s : LinkedTable) : Prop where
  hanging : Hanging (Listed last s.table) s.table.children s.links
  nullUsed : s.nullUsed = true ↔ s.table.children 0 ≠ []

namespace LinkedTable

variable {used : Nat → Prop} {s s' : LinkedTable} {last : Nat}

/-- `list_add` goes through the null pointer when the head leads there. -/
lemma null_mem {p q : Nat} {n : Node} :
    Node.null ∈ [Node.sibling p, Node.child q, n] ↔ n = Node.null := by
  grind

/-- The first child of the running process moves to slot 0. The null pointer is used when that list
is empty. -/
lemma reparent_hanging (hang : Hanging used s.table.children s.links) (h0 : s.table.current ≠ 0)
    (hcur : used s.table.current) (hroot : used 0) {c : Nat} {cs : List Nat}
    (hc : s.table.children s.table.current = c :: cs) :
    Hanging used (s.reparent c).table.children (s.reparent c).links ∧
      (s.reparent c).nullUsed = (s.nullUsed || decide (s.table.children 0 = [])) := by
  have hnodup := hang.nodup hcur
  rw [hc] at hnodup
  have hfirst : s.table.children s.table.current = [] ++ c :: cs := hc
  have hdel := hang.del hcur hfirst
  have hloose : ∀ j, used j → c ∉ Function.update s.table.children s.table.current ([] ++ cs) j := by
    intro j hj
    by_cases e : j = s.table.current
    · rw [e, Function.update_self]
      exact (List.nodup_cons.1 hnodup).1
    · rw [Function.update_of_ne e]
      refine hang.apart _ j hcur hj (Ne.symm e) c ?_
      rw [hc]
      exact List.mem_cons_self
  have hadd := hdel.add hroot hloose
  have hnull := hdel.next_null hroot
  rw [Function.update_of_ne h0.symm] at hnull hadd
  refine ⟨hadd.congr (fun _ h => h) fun q _ => ?_, ?_⟩
  · change ((Creeks.reparent s.table c).pList q).child = _
    by_cases e0 : q = 0
    · subst e0
      rw [reparent_child_root h0, Function.update_self]
      rfl
    · rw [Function.update_of_ne e0]
      by_cases e : q = s.table.current
      · subst e
        have hc' : (s.table.pList s.table.current).child = c :: cs := hc
        rw [reparent_child_current h0, Function.update_self, hc', List.erase_cons_head]
        rfl
      · rw [reparent_child_other e0 e, Function.update_of_ne e]
        rfl
  · have haround := (hang.around hcur h0 hfirst).2
    change (s.nullUsed || decide (Node.null ∈ [Node.sibling c, _, _]) ||
      decide (Node.null ∈ [Node.sibling c, Node.child 0, _])) = _
    rw [decide_eq_false haround, Bool.or_false]
    congr 1
    rw [decide_eq_decide, null_mem]
    exact hnull.trans (and_iff_right rfl)

/-- The reparenting loop moves every child of the running process to slot 0. -/
lemma reparentLoop_spec {cur : Nat} (h0 : cur ≠ 0) (hcur : used cur) (hroot : used 0) :
    ∀ (cs : List Nat) (fuel : Nat) (s : LinkedTable),
      Hanging used s.table.children s.links → s.table.current = cur →
      s.table.children cur = cs → cs.length < fuel →
      ∃ s', reparentLoop (.child cur) fuel (s.links.next (.child cur))
          (s.links.next (s.links.next (.child cur))) s = some s' ∧
        s'.table = cs.foldl Creeks.reparent s.table ∧
        Hanging used s'.table.children s'.links ∧
        (s'.nullUsed = true ↔ s.nullUsed = true ∨ s.table.children 0 = [] ∧ cs ≠ []) := by
  intro cs
  induction cs with
  | nil =>
    intro fuel s hang hc hnil hlt
    obtain ⟨fuel, rfl⟩ := Nat.exists_eq_add_of_lt hlt
    have hnext := (hang.hung cur hcur).next_head
    simp only [hnil, List.map_nil, List.nil_append, List.head_cons, listEnd, if_neg h0] at hnext
    refine ⟨s, ?_, rfl, hang, by simp⟩
    unfold reparentLoop
    rw [if_pos hnext]
  | cons c cs ih =>
    intro fuel s hang hc hcs hlt
    subst hc
    obtain ⟨fuel, rfl⟩ := Nat.exists_eq_add_of_lt hlt
    have hnext := (hang.hung _ hcur).next_head
    simp only [hcs, List.map_cons, List.cons_append, List.head_cons] at hnext
    obtain ⟨hmoved, hnull⟩ := reparent_hanging hang h0 hcur hroot hcs
    have hcs' : (s.reparent c).table.children s.table.current = cs := by
      change ((Creeks.reparent s.table c).pList s.table.current).child = cs
      have hcs : (s.table.pList s.table.current).child = c :: cs := hcs
      rw [reparent_child_current h0, hcs, List.erase_cons_head]
    obtain ⟨s', hs', htable, hhang, hused⟩ := ih ((c :: cs).length + fuel) (s.reparent c) hmoved
      rfl hcs' (by rw [List.length_cons]; omega)
    refine ⟨s', ?_, htable, hhang, ?_⟩
    · have hahead : s.links.next (.sibling c) =
          (s.reparent c).links.next (.child s.table.current) := by
        have hnext' := (hmoved.hung _ hcur).next_head
        simp only [hcs', listEnd, if_neg h0] at hnext'
        have hfirst : s.table.children s.table.current = [] ++ c :: cs := hcs
        rw [hnext', (hang.around hcur h0 hfirst).1]
      unfold reparentLoop
      rw [hnext, if_neg nofun, hahead]
      exact hs'
    · have hroot' : (s.reparent c).table.children 0 = c :: s.table.children 0 :=
        reparent_child_root h0
      rw [hused, hnull, hroot']
      simp

/-- The search of `sys_wait` along the links finds what the search along the list finds. -/
lemma deadLoop_eq (hang : Hanging used s.table.children s.links) {cur : Nat} (h0 : cur ≠ 0)
    (hcur : used cur) :
    ∀ (bs as : List Nat) (fuel : Nat), s.table.children cur = as ++ bs → bs.length < fuel →
      s.deadLoop (.child cur) fuel ((bs.map Node.sibling ++ [Node.child cur]).head (by simp)) =
        some (bs.find? fun p => (s.table.pList p).state == -1) := by
  intro bs
  induction bs with
  | nil =>
    intro as fuel _ hlt
    obtain ⟨fuel, rfl⟩ := Nat.exists_eq_add_of_lt hlt
    unfold deadLoop
    exact if_pos rfl
  | cons b bs ih =>
    intro as fuel hc hlt
    obtain ⟨fuel, rfl⟩ := Nat.exists_eq_add_of_lt hlt
    have hnext := (hang.around hcur h0 hc).1
    change s.deadLoop _ _ (Node.sibling b) = _
    unfold deadLoop
    rw [if_neg nofun]
    by_cases hs : (s.table.pList b).state = -1
    · rw [List.find?_cons_of_pos (by simpa using hs)]
      exact if_pos hs
    · rw [List.find?_cons_of_neg (by simpa using hs)]
      refine (if_neg hs).trans ?_
      rw [hnext]
      refine ih (as ++ [b]) _ ?_ (by rw [List.length_cons]; omega)
      rw [hc, List.append_assoc, List.singleton_append]

end LinkedTable

namespace Linked

variable {last : Nat} {s s' : LinkedTable} {op : TableOp}

/-- The child list of a used slot is shorter than the walks are given turns. -/
lemma length_lt (tree : Tree last s.table) {q : Nat} (hq : Listed last s.table q) :
    (s.table.children q).length < LinkedTable.walkTurns := by
  have hnodup := tree.nodup q hq.1 (.inr hq.2)
  have hsub : (s.table.pList q).child ⊆ List.range' 1 last := by
    intro p hp
    obtain ⟨⟨h1, h2, -⟩, -⟩ := (tree.child q hq.1 (.inr hq.2) p).1 hp
    exact List.mem_range'_1.2 ⟨h1, by omega⟩
  have hlen := (List.subperm_of_subset hnodup hsub).length_le
  have hlast := tree.last_le
  rw [List.length_range'] at hlen
  change (s.table.pList q).child.length < MAXPID + 2
  omega

/-- The slots in use are those of the running process and of the kernel thread. -/
lemma listed_current (tree : Tree last s.table) (seats : Seats s.table) :
    Listed last s.table s.table.current := by
  have h1 := seats.current_lt
  have h2 := tree.le_last
  refine ⟨by omega, ?_⟩
  rw [seats.running]
  decide

lemma listed_root (seats : Seats s.table) : Listed last s.table 0 := by
  refine ⟨Nat.zero_le _, ?_⟩
  rw [seats.kernel]
  decide

/-- A refused `load_task` writes no link. -/
lemma loadTask_refused {t : Table} {file : Mem} (h : loadTask s.table file = (t, 0)) :
    s.loadTask file = ({ s with table := t }, 0) := by
  unfold LinkedTable.loadTask
  rw [h]
  rfl

/-- A `load_task` that fills a slot writes the links of its two nodes. -/
lemma loadTask_filled {t : Table} {file : Mem} {pid : Nat} (h : loadTask s.table file = (t, pid))
    (hpid : pid ≠ 0) :
    s.loadTask file = ((({ s with table := t } : LinkedTable).initListHead (.child pid)).listAdd
      (.sibling pid) (.child (newParent s.table)), pid) := by
  unfold LinkedTable.loadTask
  rw [h]
  exact if_neg hpid

/-- A new process is hung into the list of its parent. -/
lemma load (linked : Linked last s) (tree : Tree last s.table) (seats : Seats s.table)
    (file : Mem) :
    TableStep s.table (.loadTask file) (s.loadTask file).1.table ∧
      Linked last (s.loadTask file).1 := by
  have hstep : TableStep s.table (.loadTask file) (loadTask s.table file).1 := .loadTask
  obtain ⟨-, e⟩ | ⟨-, -, e⟩ | ⟨hs, -, e⟩ := loadTask_cases s.table file
  · rw [e] at hstep
    rw [loadTask_refused e]
    exact ⟨hstep, linked⟩
  · rw [e] at hstep
    rw [loadTask_refused e]
    refine ⟨hstep, linked.hanging.congr (fun q hq => ?_) fun q _ => claimSlot_child .., ?_⟩
    · unfold Listed at hq
      rwa [claimSlot_state] at hq
    · change s.nullUsed = true ↔ ((claimSlot s.table _).pList 0).child ≠ []
      rw [claimSlot_child]
      exact linked.nullUsed
  · have hpid := one_le_freeSlot s.table
    have leaf := LeafAdded.fill tree seats hs
    rw [e] at hstep
    rw [loadTask_filled e (by omega)]
    rw [seats.newParent_eq] at hstep leaf ⊢
    generalize freeSlot s.table = pid at *
    have hne := leaf.ne_current
    have hfree : ¬ Listed last s.table pid := fun h => h.2 hs
    have hcur := listed_current tree seats
    have hinit := linked.hanging.init hfree (by omega)
    have hloose : ∀ j, j = pid ∨ Listed last s.table j →
        pid ∉ Function.update s.table.children pid [] j := by
      rintro j (rfl | hj)
      · rw [Function.update_self]
        exact List.not_mem_nil
      · rw [Function.update_of_ne (by rintro rfl; exact hfree hj)]
        intro h
        exact ((tree.child j hj.1 (.inr hj.2) pid).1 h).1.2.2 hs
    have hadd := hinit.add (.inr hcur) hloose
    have hnull := hinit.next_null (.inr hcur)
    rw [Function.update_of_ne hne.symm] at hadd hnull
    have hchild : (fillSlot (claimSlot s.table pid) pid s.table.current).children
        s.table.current = pid :: s.table.children s.table.current := leaf.child_current
    have hother : ∀ j, j ≠ pid → j ≠ s.table.current →
        (fillSlot (claimSlot s.table pid) pid s.table.current).children j =
          s.table.children j := leaf.child_other
    refine ⟨hstep, hadd.congr (fun q hq => ?_) fun q _ => ?_, ?_⟩
    · by_cases e : q = pid
      · exact .inl e
      · refine .inr ⟨hq.1, ?_⟩
        have hstate := hq.2
        change ((fillSlot _ _ _).pList q).state ≠ 0 at hstate
        rwa [leaf.state, if_neg e] at hstate
    · change (fillSlot _ _ _).children q = _
      by_cases e : q = s.table.current
      · rw [e, hchild, Function.update_self]
      · rw [Function.update_of_ne e]
        by_cases e' : q = pid
        · rw [e', Function.update_self]
          exact leaf.child_new
        · rw [Function.update_of_ne e', hother q e' e]
    · change (s.nullUsed || decide (Node.null ∈ [Node.sibling pid, Node.child s.table.current,
        (s.links.initHead (.child pid)).next (.child s.table.current)])) = true ↔
          (fillSlot _ _ _).children 0 ≠ []
      rw [Bool.or_eq_true, decide_eq_true_eq, LinkedTable.null_mem, hnull, linked.nullUsed]
      by_cases e : s.table.current = 0
      · rw [← e, hchild]
        simp [or_iff_not_imp_left]
      · rw [hother 0 (by omega) (Ne.symm e)]
        simp [e]

/-- An exit ends its walk and hangs the children of the process under slot 0. -/
lemma exit (linked : Linked last s) (tree : Tree last s.table) (seats : Seats s.table)
    (h0 : s.table.current ≠ 0) (status : Int) :
    ∃ s', s.sysExit status = some s' ∧ s'.table = sysExit s.table status ∧ Linked last s' := by
  have hcur := listed_current tree seats
  have hchildren : (becomeZombie s.table status).children = s.table.children :=
    funext fun q => becomeZombie_child s.table status q
  obtain ⟨s', hs', htable, hang, hused⟩ := LinkedTable.reparentLoop_spec h0 hcur
    (listed_root seats) (s.table.children s.table.current) LinkedTable.walkTurns
    { s with table := becomeZombie s.table status } (by simpa only [hchildren] using linked.hanging)
    (becomeZombie_current _ _) (by simp only [hchildren]) (length_lt tree hcur)
  have hfold : { s'.table with current := 0 } = sysExit s.table status := by
    rw [htable]
    unfold sysExit
    dsimp only
    rw [becomeZombie_current]
    exact congrArg (fun l => ({ List.foldl reparent _ l with current := 0 } : Table))
      (becomeZombie_child s.table status _).symm
  refine ⟨{ s' with table := sysExit s.table status }, ?_, rfl, ?_, ?_⟩
  · unfold LinkedTable.sysExit
    dsimp only
    rw [becomeZombie_current, hs', Option.map_some, hfold]
  · refine hang.congr (fun q hq => ⟨hq.1, fun h => ?_⟩) fun q _ => ?_
    · have hs := hq.2
      rw [sysExit_state] at hs
      split at hs
      · rename_i e
        exact hcur.2 (e ▸ h)
      · exact hs h
    · rw [← hfold]
      rfl
  · have hroot : (sysExit s.table status).children 0 =
        (s.table.children s.table.current).reverse ++ s.table.children 0 :=
      sysExit_child_root status h0
    have hbefore := linked.nullUsed
    change s'.nullUsed = true ↔ (sysExit s.table status).children 0 ≠ []
    rw [hused, hroot, hchildren]
    change s.nullUsed = true ∨ _ ↔ _
    rw [hbefore]
    cases s.table.children 0 with
    | nil => simp
    | cons a as => simp

/-- `sys_wait` ends its walk, at the child that a search of the list finds. -/
lemma sysWait_eq (linked : Linked last s) (tree : Tree last s.table) (seats : Seats s.table)
    (h0 : s.table.current ≠ 0) :
    s.sysWait = if isSignal (s.table.pList s.table.current).signal SIGCHLD then
        match deadChild s.table with
        | none => some s
        | some proc =>
          some (({ s with table := collected s.table proc } : LinkedTable).listDel (.sibling proc))
      else none := by
  have hcur := listed_current tree seats
  have hnext := (linked.hanging.hung _ hcur).next_head
  simp only [listEnd, if_neg h0] at hnext
  have hloop : s.deadLoop (.child s.table.current) LinkedTable.walkTurns
      (s.links.next (.child s.table.current)) = some (deadChild s.table) := by
    rw [hnext]
    exact LinkedTable.deadLoop_eq linked.hanging h0 hcur _ [] _ rfl (length_lt tree hcur)
  unfold LinkedTable.sysWait
  dsimp only
  rw [hloop]
  cases deadChild s.table with
  | none => rfl
  | some proc => rfl

/-- A `sys_wait` that returns takes the child it collects out of the list. -/
lemma wait (linked : Linked last s) (tree : Tree last s.table) (seats : Seats s.table)
    (h0 : s.table.current ≠ 0) (h : s.sysWait = some s') (junk : Nat) :
    TableStep s.table (.sysWait junk) s'.table ∧ Linked last s' := by
  have hcur := listed_current tree seats
  rw [linked.sysWait_eq tree seats h0] at h
  split at h
  · rename_i hsig
    cases hdead : deadChild s.table with
    | none =>
      rw [hdead] at h
      cases h
      refine ⟨.sysWait (r := (junk, none)) h0 ?_, linked⟩
      unfold sysWait
      rw [if_pos hsig, hdead]
    | some c =>
      rw [hdead] at h
      cases h
      refine ⟨.sysWait (r := ((s.table.pList c).pid, some (s.table.pList c).status)) h0 ?_, ?_⟩
      · unfold sysWait
        rw [if_pos hsig, hdead]
        rfl
      · have hmem : c ∈ s.table.children s.table.current := List.mem_of_find?_eq_some hdead
        obtain ⟨as, bs, hc⟩ := List.append_of_mem hmem
        have hnodup := linked.hanging.nodup hcur
        have herase : (s.table.children s.table.current).erase c = as ++ bs := by
          rw [hc] at hnodup ⊢
          rw [List.erase_append_right _ (by grind), List.erase_cons_head]
        have hother : ∀ j, j ≠ s.table.current →
            (collected s.table c).children j = s.table.children j :=
          fun j hj => collected_child_other hj
        refine ⟨(linked.hanging.del hcur hc).congr (fun q hq => ⟨hq.1, fun hs => ?_⟩) fun q _ => ?_,
          ?_⟩
        · have hstate := hq.2
          change ((collected s.table c).pList q).state ≠ 0 at hstate
          rw [collected_state, hs, ite_self] at hstate
          exact hstate rfl
        · change (collected s.table c).children q = _
          by_cases e : q = s.table.current
          · rw [e, Function.update_self, ← herase]
            exact collected_child_current s.table c
          · rw [Function.update_of_ne e, hother q e]
        · have haround := (linked.hanging.around hcur h0 hc).2
          change (s.nullUsed || decide (Node.null ∈ [Node.sibling c, s.links.next (.sibling c),
            s.links.prev (.sibling c)])) = true ↔ (collected s.table c).children 0 ≠ []
          rw [decide_eq_false haround, Bool.or_false, hother 0 (Ne.symm h0)]
          exact linked.nullUsed
  · cases h

/-- The switch to another process touches no link. -/
lemma sched (linked : Linked last s) : Linked last { s with table := schedule s.table } := by
  have hlist := schedule_pList s.table
  refine ⟨linked.hanging.congr (fun q hq => ?_) fun q _ => ?_, ?_⟩
  · refine ⟨hq.1, ?_⟩
    have hs := hq.2
    change ((schedule s.table).pList q).state ≠ 0 at hs
    rwa [hlist] at hs
  · change ((schedule s.table).pList q).child = _
    rw [hlist]
    rfl
  · change s.nullUsed = true ↔ ((schedule s.table).pList 0).child ≠ []
    rw [hlist]
    exact linked.nullUsed

/-- A step of the links is a step of the table, and keeps the links standing for the lists. -/
lemma step (linked : Linked last s) (tree : Tree last s.table) (seats : Seats s.table)
    (st : LinkedStep s op s') : TableStep s.table op s'.table ∧ Linked last s' := by
  cases st with
  | loadTask => exact linked.load tree seats _
  | sysExit h0 h =>
    obtain ⟨s'', e, htable, hlinked⟩ := linked.exit tree seats h0 _
    cases h.symm.trans e
    rw [htable]
    exact ⟨.sysExit h0, hlinked⟩
  | sysWait h0 h => exact linked.wait tree seats h0 h _
  | schedule => exact ⟨.schedule, linked.sched⟩

/-- After the boot only slot 0 is in use, and nothing hangs under it. -/
lemma boot (beyond : Nat → Process) (word : Links Node) :
    Linked (lastSlot beyond) (LinkedTable.boot beyond word) := by
  have hzero : ∀ q, Listed (lastSlot beyond) (bootTable beyond) q → q = 0 := by
    rintro q ⟨hq, hs⟩
    by_contra h
    exact hs (Tree.boot_free beyond (by omega) hq)
  refine ⟨⟨fun q hq => ?_, fun q q' hq hq' hne => ?_, rfl⟩, ?_⟩
  · rw [hzero q hq]
    refine ⟨?_, ?_, ?_, ?_⟩
    · exact List.isChain_cons_cons.2 ⟨⟨rfl, fun h => absurd rfl h⟩, .singleton _⟩
    · exact List.nodup_singleton _
    · exact List.not_mem_nil
    · exact nofun
  · exact absurd ((hzero q hq).trans (hzero q' hq').symm) hne
  · exact ⟨nofun, fun h => absurd rfl h⟩

/-- Every run of the links is a run of the table, and ends with links that stand for its lists. -/
lemma run {beyond : Nat → Process} {word : Links Node} {ls : List TableOp}
    (run : Run LinkedStep (LinkedTable.boot beyond word) ls s) :
    Run TableStep (bootTable beyond) ls s.table ∧ Linked (lastSlot beyond) s := by
  induction run with
  | nil => exact ⟨.nil, boot beyond word⟩
  | snoc _ st ih =>
    obtain ⟨hrun, hlinked⟩ := ih
    obtain ⟨htable, hlinked⟩ := hlinked.step (Tree.run hrun) (Seats.run hrun) st
    exact ⟨.snoc hrun htable, hlinked⟩

end Linked

/-! ## Which lists are circular -/

/-- The list of slot `q` is circular through its head, and on the way round it are the processes
whose parent is `q`. -/
def ChildListOk (last : Nat) (s : LinkedTable) (q : Nat) : Prop :=
  ∃ xs : List Nat, s.links.Circular (.child q) (xs.map .sibling) ∧
    ∀ p, p ∈ xs ↔ InUse last s.table p ∧ (s.table.pList p).parent = q

/-- Every used slot of the array has such a list, and the null pointer was never used. -/
def ListsOk (last : Nat) (s : LinkedTable) : Prop :=
  (∀ q ≤ MAXPID, (s.table.pList q).state ≠ 0 → ChildListOk last s q) ∧ s.nullUsed = false

/-- While a process is in use something hangs under slot 0. -/
lemma Tree.root_listed {last : Nat} {t : Table} (tree : Tree last t) {p : Nat}
    (h : InUse last t p) : (t.pList 0).child ≠ [] := by
  have hr := tree.rooted p h
  induction hr with
  | root => exact absurd h.1 (by decide)
  | @up p _ ih =>
    rcases tree.parent p h with e | ⟨hle, hs⟩
    · exact List.ne_nil_of_mem ((tree.child 0 (Nat.zero_le _) (.inl (Nat.zero_le _)) p).2 ⟨h, e⟩)
    · by_cases e : (t.pList p).parent = 0
      · exact List.ne_nil_of_mem ((tree.child 0 (Nat.zero_le _) (.inl (Nat.zero_le _)) p).2 ⟨h, e⟩)
      · exact ih ⟨by omega, hle, by omega⟩

/-- Something hangs under slot 0 once a `load_task` has been given a program. -/
lemma root_listed_iff {beyond : Nat → Process} {ls : List TableOp} {t : Table}
    (run : Run TableStep (bootTable beyond) ls t) :
    (t.pList 0).child ≠ [] ↔ ∃ file, TableOp.loadTask file ∈ ls ∧ loadElf file ≠ 0 := by
  induction run with
  | nil => exact ⟨fun h => absurd rfl h, fun ⟨_, h, _⟩ => absurd h List.not_mem_nil⟩
  | @snoc ls t op t' run st ih =>
    have tree := Tree.run run
    have seats := Seats.run run
    have hle := tree.le_last
    -- once true, both sides stay true
    have hkeep : (t.pList 0).child ≠ [] → (t'.pList 0).child ≠ [] →
        ((t'.pList 0).child ≠ [] ↔ ∃ file, .loadTask file ∈ ls ++ [op] ∧ loadElf file ≠ 0) := by
      intro h h'
      obtain ⟨file, hf, he⟩ := ih.1 h
      exact ⟨fun _ => ⟨file, List.mem_append_left _ hf, he⟩, fun _ => h'⟩
    cases st with
    | loadTask =>
      rename_i file
      obtain ⟨hs, e⟩ | ⟨-, he, e⟩ | ⟨hs, he, e⟩ := loadTask_cases t file
      · rw [e] at hkeep ⊢
        have hfull := (freeSlot_cases t).resolve_left fun h => hs h.2.2
        have hone : InUse (lastSlot beyond) t 1 :=
          ⟨le_refl _, le_trans (by decide) hle, hfull.2 1 (le_refl _) (by decide)⟩
        have hroot := tree.root_listed hone
        exact hkeep hroot hroot
      · rw [e]
        dsimp only
        rw [claimSlot_child, ih]
        constructor
        · rintro ⟨file', hf, he'⟩
          exact ⟨file', List.mem_append_left _ hf, he'⟩
        · rintro ⟨file', hf, he'⟩
          rcases List.mem_append.1 hf with hf | hf
          · exact ⟨file', hf, he'⟩
          · cases List.mem_singleton.1 hf
            exact absurd he he'
      · rw [e]
        refine ⟨fun _ => ⟨file, by simp, he⟩, fun _ => ?_⟩
        have hne := seats.slot_ne_current hs
        have hpos := one_le_freeSlot t
        dsimp only
        rw [seats.newParent_eq]
        by_cases h0 : t.current = 0
        · rw [h0, fillSlot_child_parent (by omega)]
          exact List.cons_ne_nil _ _
        · rw [fillSlot_child_other (by omega) (Ne.symm h0), claimSlot_child]
          exact tree.root_listed (tree.inUse_current seats h0)
    | sysExit h0 =>
      have hroot := tree.root_listed (tree.inUse_current seats h0)
      apply hkeep hroot
      rw [sysExit_child_root _ h0]
      exact fun h => hroot (List.append_eq_nil_iff.1 h).2
    | sysWait h0 h =>
      have hroot := tree.root_listed (tree.inUse_current seats h0)
      apply hkeep hroot
      obtain ⟨-, ⟨p, -, -, rfl, -⟩ | ⟨-, rfl, -⟩⟩ := sysWait_cases h
      · rwa [collected_child_other (Ne.symm h0)]
      · exact hroot
    | schedule =>
      rw [schedule_pList, ih]
      simp

section

variable {beyond : Nat → Process} {word : Links Node} {ls : List TableOp} {s : LinkedTable}

/-- The list of a used slot is circular, unless the slot is the first. -/
lemma childListOk_iff (run : Run LinkedStep (LinkedTable.boot beyond word) ls s) {q : Nat}
    (hq : q ≤ MAXPID) (hs : (s.table.pList q).state ≠ 0) :
    ChildListOk (lastSlot beyond) s q ↔ q ≠ 0 := by
  obtain ⟨hrun, linked⟩ := Linked.run run
  have tree := Tree.run hrun
  have hle := tree.le_last
  constructor
  · rintro ⟨xs, hcirc, -⟩ rfl
    have hprev := hcirc.prev_mem
    rw [linked.hanging.rootPrev] at hprev
    simp at hprev
  · intro h0
    have hung := linked.hanging.hung q ⟨by omega, hs⟩
    rw [listEnd, if_neg h0] at hung
    exact ⟨s.table.children q, hung.circular, tree.child q (by omega) (.inl hq)⟩

/-- In every state the kernel reaches the child list of slot 0 is broken; that of every other used
slot is circular, with exactly the children of the slot on it. The null pointer has been used if and
only if a `load_task` was given a program. -/
theorem intrusive_lists (run : Run LinkedStep (LinkedTable.boot beyond word) ls s) :
    ¬ ListsOk (lastSlot beyond) s ∧
      (∀ q ≤ MAXPID, (s.table.pList q).state ≠ 0 →
        (ChildListOk (lastSlot beyond) s q ↔ q ≠ 0)) ∧
      (s.nullUsed = true ↔ ∃ file, TableOp.loadTask file ∈ ls ∧ loadElf file ≠ 0) := by
  obtain ⟨hrun, linked⟩ := Linked.run run
  refine ⟨fun h => ?_, fun q hq hs => childListOk_iff run hq hs, ?_⟩
  · have hroot : Listed (lastSlot beyond) s.table 0 := Linked.listed_root (Seats.run hrun)
    have hok := h.1 0 (Nat.zero_le _) hroot.2
    exact (childListOk_iff run (Nat.zero_le _) hroot.2).1 hok rfl
  · rw [linked.nullUsed]
    exact root_listed_iff hrun

end

/-- The boot before an IDT whose first words are zero, with nothing behind the array. -/
def plainBoot : LinkedTable :=
  LinkedTable.boot (fun _ => blankProcess) ⟨fun _ => .other 0#32, fun _ => .other 0#32⟩

theorem intrusive_lists_load :
    let s := (plainBoot.loadTask bareElf).1
    ¬ ListsOk (lastSlot fun _ => blankProcess) s ∧
      (∀ q ≤ MAXPID, (s.table.pList q).state ≠ 0 →
        (ChildListOk (lastSlot fun _ => blankProcess) s q ↔ q ≠ 0)) ∧
      (s.nullUsed = true ↔
        ∃ file, TableOp.loadTask file ∈ [TableOp.loadTask bareElf] ∧ loadElf file ≠ 0) :=
  intrusive_lists (.snoc .nil .loadTask : Run LinkedStep plainBoot _ _)

/-- The first `load_task` of the kernel writes through the null pointer, and leaves a list that ends
there: the process it creates leads on to null, and the head leads back to null. -/
theorem first_load_through_null :
    let s := (plainBoot.loadTask bareElf).1
    (s.table.pList 0).state = 1 ∧ s.nullUsed = true ∧ s.links.prev .null = .sibling 1 ∧
      s.links.next (.sibling 1) = .null ∧ s.links.prev (.child 0) = .null ∧
      ¬ ChildListOk (lastSlot fun _ => blankProcess) s 0 := by
  have hprev : (plainBoot.loadTask bareElf).1.links.prev (.child 0) = .null := by decide
  refine ⟨by decide, by decide, by decide, by decide, hprev, ?_⟩
  rintro ⟨xs, hcirc, -⟩
  have hmem := hcirc.prev_mem
  rw [hprev] at hmem
  simp at hmem

end Creeks
