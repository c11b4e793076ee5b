import Mathlib.Data.List.Chain
import Mathlib.Data.List.Iterate
import Mathlib.Logic.Function.Basic

/-!
# Doubly linked lists

Nodes with two links each, and the two operations that write them one after the other: `add` hangs a
node behind another one, `del` takes a node out. `Hung` says that the nodes of a list hang behind a
head, up to the node their last link leads to. When that node is the head the list is `Circular`;
when it is the null node the list is open at its end. Both operations are proved for both kinds.

`null` is the node a link that leads nowhere points to. It has links like every other node, since
nothing stops a program from writing through such a link.
-/

namespace Creeks.Lib

variable {α : Type*}

/-- The two links of every node. -/
structure Links (α : Type*) where
  next : α → α
  prev : α → α

namespace Links

variable {l l' : Links α} {null h e new p : α} {xs as bs : List α}

/-! ## Lists of nodes -/

/-- `b` comes right behind `a`, and leads back to it unless it is the null node. -/
def Joined (null : α) (l : Links α) (a b : α) : Prop := l.next a = b ∧ (b ≠ null → l.prev b = a)

/-- The nodes `xs` hang behind the head `h`, and the last link leads to `e`. -/
structure Hung (null : α) (l : Links α) (h : α) (xs : List α) (e : α) : Prop where
  chain : (h :: (xs ++ [e])).IsChain (l.Joined null)
  nodup : (h :: xs).Nodup
  stop : e ∉ xs
  proper : null ∉ h :: xs

/-- The nodes `xs` are met, each once, on the way from the head back to the head, and the two links
of every node on that way undo each other. -/
structure Circular (l : Links α) (h : α) (xs : List α) : Prop where
  inverse : ∀ a ∈ h :: xs, l.prev (l.next a) = a ∧ l.next (l.prev a) = a
  walk : List.iterate l.next h (xs.length + 1) = h :: xs
  back : l.next^[xs.length + 1] h = h
  nodup : (h :: xs).Nodup

/-- The head of a circular list leads back to a node of the list. -/
lemma Circular.prev_mem (c : l.Circular h xs) : l.prev h ∈ h :: xs := by
  have hmem : l.next^[xs.length] h ∈ h :: xs := by
    rw [← c.walk, List.mem_iterate]
    exact ⟨xs.length, Nat.lt_succ_self _, rfl⟩
  have hback := c.back
  rw [Function.iterate_succ_apply'] at hback
  have hinv := (c.inverse _ hmem).1
  rw [hback] at hinv
  rwa [hinv]

/-- A chain up to a last element depends on the pairs that start before it. -/
lemma chain_congr {R S : α → α → Prop} (hxs : (h :: (xs ++ [e])).IsChain R)
    (hRS : ∀ a ∈ h :: xs, ∀ b ∈ xs ++ [e], R a b → S a b) : (h :: (xs ++ [e])).IsChain S := by
  induction xs generalizing h with
  | nil =>
    obtain ⟨hr, -⟩ := List.isChain_cons_cons.1 hxs
    refine List.isChain_cons_cons.2 ⟨?_, .singleton _⟩
    exact hRS h List.mem_cons_self e (by simp) hr
  | cons x xs ih =>
    obtain ⟨hr, hc⟩ := List.isChain_cons_cons.1 hxs
    refine List.isChain_cons_cons.2 ⟨?_, ?_⟩
    · exact hRS h List.mem_cons_self x (by simp) hr
    · apply ih hc
      intro a ha b hb
      exact hRS a (List.mem_cons_of_mem _ ha) b (List.mem_cons_of_mem _ hb)

/-- Along a chain of links the walk meets the nodes of the chain. -/
lemma chain_walk (hxs : (h :: (xs ++ [e])).IsChain (l.Joined null)) :
    List.iterate l.next h (xs.length + 1) = h :: xs ∧ l.next^[xs.length + 1] h = e := by
  induction xs generalizing h with
  | nil =>
    obtain ⟨hr, -⟩ := List.isChain_cons_cons.1 hxs
    exact ⟨rfl, hr.1⟩
  | cons x xs ih =>
    obtain ⟨hr, hc⟩ := List.isChain_cons_cons.1 hxs
    obtain ⟨h1, h2⟩ := ih hc
    refine ⟨?_, ?_⟩
    · rw [List.length_cons, List.iterate, hr.1, h1]
    · rw [List.length_cons, Function.iterate_succ_apply, hr.1, h2]

/-- Every node of a chain but the last is joined to a later one. -/
lemma chain_forward (hxs : (h :: (xs ++ [e])).IsChain (l.Joined null)) :
    ∀ a ∈ h :: xs, ∃ b ∈ xs ++ [e], l.Joined null a b := by
  induction xs generalizing h with
  | nil =>
    intro a ha
    cases List.mem_singleton.1 ha
    exact ⟨e, List.mem_singleton_self e, (List.isChain_cons_cons.1 hxs).1⟩
  | cons x xs ih =>
    obtain ⟨hr, hc⟩ := List.isChain_cons_cons.1 hxs
    intro a ha
    cases ha with
    | head => exact ⟨x, by simp, hr⟩
    | tail _ ha =>
      obtain ⟨b, hb, hj⟩ := ih hc a ha
      exact ⟨b, List.mem_cons_of_mem _ hb, hj⟩

/-- Every node of a chain but the first has an earlier one joined to it. -/
lemma chain_backward (hxs : (h :: (xs ++ [e])).IsChain (l.Joined null)) :
    ∀ b ∈ xs ++ [e], ∃ a ∈ h :: xs, l.Joined null a b := by
  induction xs generalizing h with
  | nil =>
    intro b hb
    cases List.mem_singleton.1 hb
    exact ⟨h, List.mem_cons_self, (List.isChain_cons_cons.1 hxs).1⟩
  | cons x xs ih =>
    obtain ⟨hr, hc⟩ := List.isChain_cons_cons.1 hxs
    intro b hb
    cases hb with
    | head => exact ⟨h, List.mem_cons_self, hr⟩
    | tail _ hb =>
      obtain ⟨a, ha, hj⟩ := ih hc b hb
      exact ⟨a, List.mem_cons_of_mem _ ha, hj⟩

namespace Hung

/-- The first node. -/
lemma next_head (hung : l.Hung null h xs e) : l.next h = (xs ++ [e]).head (by simp) := by
  have hc := hung.chain
  cases xs with
  | nil => exact (List.isChain_cons_cons.1 hc).1.1
  | cons x xs => exact (List.isChain_cons_cons.1 hc).1.1

/-- A list is kept by whatever leaves the links of its nodes alone. -/
lemma congr (hung : l.Hung null h xs e) (hn : ∀ a ∈ h :: xs, l'.next a = l.next a)
    (hp : ∀ a ∈ xs ++ [e], a ≠ null → l'.prev a = l.prev a) : l'.Hung null h xs e := by
  refine ⟨?_, hung.nodup, hung.stop, hung.proper⟩
  apply chain_congr hung.chain
  rintro a ha b hb ⟨h1, h2⟩
  exact ⟨(hn a ha).trans h1, fun hne => (hp b hb hne).trans (h2 hne)⟩

/-- The links around a node of the list. -/
lemma around (hung : l.Hung null h (as ++ p :: bs) e) :
    l.prev p = (h :: as).getLast (by simp) ∧ l.next p = (bs ++ [e]).head (by simp) := by
  have hc := hung.chain
  have hp : p ≠ null := by
    rintro rfl
    exact hung.proper (by simp)
  rw [List.append_assoc, List.cons_append, ← List.cons_append, List.isChain_split] at hc
  obtain ⟨h1, h2⟩ := hc
  refine ⟨?_, ?_⟩
  · have hlast := List.dropLast_append_getLast (List.cons_ne_nil h as)
    rw [← hlast, List.append_assoc, List.singleton_append, List.isChain_split,
      List.isChain_pair] at h1
    exact h1.2.2 hp
  · cases bs with
    | nil => exact (List.isChain_cons_cons.1 h2).1.1
    | cons b bs => exact (List.isChain_cons_cons.1 h2).1.1

/-- A list whose last link leads to its head is circular. -/
lemma circular (hung : l.Hung null h xs h) : l.Circular h xs := by
  obtain ⟨h1, h2⟩ := chain_walk hung.chain
  have hmem : ∀ b, b ∈ xs ++ [h] ↔ b ∈ h :: xs := fun b => by simp [or_comm]
  have hne : ∀ b ∈ xs ++ [h], b ≠ null := by
    rintro b hb rfl
    exact hung.proper ((hmem b).1 hb)
  refine ⟨fun a ha => ⟨?_, ?_⟩, h1, h2, hung.nodup⟩
  · obtain ⟨b, hb, hj⟩ := chain_forward hung.chain a ha
    rw [hj.1, hj.2 (hne b hb)]
  · have ha' := (hmem a).2 ha
    obtain ⟨b, -, hj⟩ := chain_backward hung.chain a ha'
    rw [hj.2 (hne a ha'), hj.1]

end Hung

variable [DecidableEq α]

/-- Write the forward link of a node. -/
def setNext (l : Links α) (a b : α) : Links α := { l with next := Function.update l.next a b }

/-- Write the backward link of a node. -/
def setPrev (l : Links α) (a b : α) : Links α := { l with prev := Function.update l.prev a b }

/-- Link a head to itself. -/
def initHead (l : Links α) (head : α) : Links α := (l.setNext head head).setPrev head head

/-- Hang a node behind a head, in four writes. -/
def add (l : Links α) (new head : α) : Links α :=
  let l := l.setNext new (l.next head)
  let l := l.setPrev new head
  let l := l.setPrev (l.next head) new
  l.setNext head new

/-- Take a node out and clear its links, in four writes. -/
def del (null : α) (l : Links α) (p : α) : Links α :=
  let l := l.setPrev (l.next p) (l.prev p)
  let l := l.setNext (l.prev p) (l.next p)
  let l := l.setNext p null
  l.setPrev p null

/-! ## The links after an operation -/

lemma initHead_other {a : α} (ha : a ≠ h) :
    (l.initHead h).next a = l.next a ∧ (l.initHead h).prev a = l.prev a :=
  ⟨Function.update_of_ne ha .., Function.update_of_ne ha ..⟩

lemma initHead_same : (l.initHead h).next h = h ∧ (l.initHead h).prev h = h :=
  ⟨Function.update_self .., Function.update_self ..⟩

/-- What `add` writes to the forward links. -/
lemma add_next :
    (l.add new h).next = Function.update (Function.update l.next new (l.next h)) h new := by
  simp only [add, setNext, setPrev]

/-- What `add` writes to the backward links. -/
lemma add_prev (hne : new ≠ h) :
    (l.add new h).prev = Function.update (Function.update l.prev new h) (l.next h) new := by
  simp only [add, setNext, setPrev, Function.update_of_ne hne.symm]

lemma add_next_other {a : α} (h1 : a ≠ new) (h2 : a ≠ h) : (l.add new h).next a = l.next a := by
  rw [add_next, Function.update_of_ne h2, Function.update_of_ne h1]

lemma add_prev_other {a : α} (hne : new ≠ h) (h1 : a ≠ new) (h2 : a ≠ l.next h) :
    (l.add new h).prev a = l.prev a := by
  rw [add_prev hne, Function.update_of_ne h2, Function.update_of_ne h1]

/-- What `del` writes to the forward links. -/
lemma del_next : (l.del null p).next =
    Function.update (Function.update l.next (l.prev p) (l.next p)) p null := by
  have hp : Function.update l.prev (l.next p) (l.prev p) p = l.prev p := by
    rw [Function.update_apply]
    split <;> rfl
  simp only [del, setNext, setPrev, hp]

/-- What `del` writes to the backward links. -/
lemma del_prev : (l.del null p).prev =
    Function.update (Function.update l.prev (l.next p) (l.prev p)) p null := by
  simp only [del, setNext, setPrev]

lemma del_next_other {a : α} (h1 : a ≠ p) (h2 : a ≠ l.prev p) :
    (l.del null p).next a = l.next a := by
  rw [del_next, Function.update_of_ne h1, Function.update_of_ne h2]

lemma del_prev_other {a : α} (h1 : a ≠ p) (h2 : a ≠ l.next p) :
    (l.del null p).prev a = l.prev a := by
  rw [del_prev, Function.update_of_ne h1, Function.update_of_ne h2]

/-! ## The lists after an operation -/

namespace Hung

/-- A head linked to itself is an empty circular list. -/
lemma init (hne : h ≠ null) : (l.initHead h).Hung null h [] h := by
  refine ⟨?_, by simp, by simp, by simpa using hne.symm⟩
  refine List.isChain_cons_cons.2 ⟨⟨?_, fun _ => ?_⟩, .singleton _⟩
  · exact initHead_same.1
  · exact initHead_same.2

/-- A new node comes first. -/
lemma add (hung : l.Hung null h xs e) (hnew : new ∉ h :: xs) (hn : new ≠ null) (he : new ≠ e) :
    (l.add new h).Hung null h (new :: xs) e := by
  have hne : new ≠ h := fun e => hnew (by rw [e]; exact List.mem_cons_self)
  have hhead := hung.next_head
  have hnodup := hung.nodup
  have hproper := hung.proper
  have hnext : (l.add new h).next h = new := by rw [add_next, Function.update_self]
  have hnext' : (l.add new h).next new = l.next h := by
    rw [add_next, Function.update_of_ne hne, Function.update_self]
  have hprev' : (l.add new h).prev (l.next h) = new := by rw [add_prev hne, Function.update_self]
  have hprev : l.next h ≠ new → (l.add new h).prev new = h := by
    intro h'
    rw [add_prev hne, Function.update_of_ne h'.symm, Function.update_self]
  refine ⟨?_, by grind, ?_, by grind⟩
  · cases xs with
    | nil =>
      change l.next h = e at hhead
      rw [hhead] at hnext' hprev hprev'
      apply List.isChain_cons_cons.2
      refine ⟨⟨hnext, fun _ => hprev he.symm⟩, List.isChain_cons_cons.2 ⟨?_, .singleton _⟩⟩
      exact ⟨hnext', fun _ => hprev'⟩
    | cons x xs =>
      change l.next h = x at hhead
      have hx : x ≠ new := by grind
      obtain ⟨-, hc⟩ := List.isChain_cons_cons.1 hung.chain
      rw [hhead] at hnext' hprev hprev'
      apply List.isChain_cons_cons.2
      refine ⟨⟨hnext, fun _ => hprev hx⟩, List.isChain_cons_cons.2 ⟨⟨hnext', fun _ => hprev'⟩, ?_⟩⟩
      refine chain_congr hc ?_
      have hstop := hung.stop
      rintro a ha b hb ⟨h1, h2⟩
      rw [Joined, add_next_other (by grind) (by grind), add_prev_other hne (by grind) (by grind)]
      exact ⟨h1, h2⟩
  · have hstop := hung.stop
    grind

/-- A node taken out leaves the others. -/
lemma del (hung : l.Hung null h (as ++ p :: bs) e) : (l.del null p).Hung null h (as ++ bs) e := by
  obtain ⟨hprev, hnext⟩ := hung.around
  have hnodup := hung.nodup
  have hstop := hung.stop
  have hproper := hung.proper
  have hc := hung.chain
  rw [List.append_assoc, List.cons_append, ← List.cons_append, List.isChain_split] at hc
  obtain ⟨hleft, hright⟩ := hc
  refine ⟨?_, by grind, by grind, by grind⟩
  -- what is behind the node
  have hbehind : (bs ++ [e]).IsChain ((l.del null p).Joined null) := by
    cases bs with
    | nil => exact .singleton _
    | cons b bs =>
      obtain ⟨-, hright⟩ := List.isChain_cons_cons.1 hright
      refine chain_congr hright ?_
      rintro a ha b' hb ⟨h1, h2⟩
      change l.next p = b at hnext
      have hu : l.prev p ∈ h :: as := hprev ▸ List.getLast_mem _
      rw [Joined, del_next_other (by grind) (by grind), del_prev_other (by grind) (by grind)]
      exact ⟨h1, h2⟩
  -- what is before it
  have hv : l.next p ∈ bs ++ [e] := hnext ▸ List.head_mem _
  have hbefore : (h :: as).IsChain ((l.del null p).Joined null) := by
    rcases List.eq_nil_or_concat as with rfl | ⟨as', u, rfl⟩
    · exact .singleton _
    · have hu : l.prev p = u := by
        rw [hprev]
        simp
      rw [List.concat_eq_append] at *
      refine chain_congr hleft.left_of_append ?_
      rintro a ha b hb ⟨h1, h2⟩
      rw [Joined, del_next_other (by grind) (by grind), del_prev_other (by grind) (by grind)]
      exact ⟨h1, h2⟩
  have hjoin : (l.del null p).Joined null (l.prev p) (l.next p) := by
    have hu : l.prev p ∈ h :: as := hprev ▸ List.getLast_mem _
    refine ⟨?_, fun _ => ?_⟩
    · rw [del_next, Function.update_of_ne (by grind), Function.update_self]
    · rw [del_prev, Function.update_of_ne (by grind), Function.update_self]
  rw [List.append_assoc, ← List.cons_append]
  refine List.IsChain.append hbefore hbehind fun a ha b hb => ?_
  rw [List.getLast?_eq_getLast_of_ne_nil (List.cons_ne_nil h as), ← hprev] at ha
  rw [List.head?_eq_some_head (by simp), ← hnext] at hb
  cases ha
  cases hb
  exact hjoin

end Hung

end Links

end Creeks.Lib
