/-
**Runs of additions and deletions on one list.**

A list is to be a sequence of nodes: an addition appends one, a deletion removes one.  What has to
be kept for that is that the nodes form a segment linked both ways, that the header leads to its
two ends, and that the counter is its length; the nodes that were created and not yet added are
outside of it.

Main definitions:

* `ListMem.linkOf`, `IsList` — the links of the nodes of a memory, and the invariant;
* `ListRun` — the states reached by creating nodes, adding them and deleting them;
* `ListMem.Meets`, `RefinesSequence` — a walk through the memory, and what a list shows of itself.

Main results:

* `IsList.add`, `IsList.del` — an addition and a deletion return, and keep the invariant;
* `listRun_runInv` — every state of a run satisfies it;
* `RefinesSequence.unique` — what a list shows is one sequence;
* `listRun_refinesSequence` — **a list refines the sequence of its nodes**.
-/

import SdsStorage.DoublyLinked
import SdsStorage.LinkedList

set_option relaxedAutoImplicit false
set_option autoImplicit false

open DoublyLinked

variable {α : Type}

/-! ### Nodes and their links -/

namespace ListMem

theorem node_eq_ok {m : ListMem α} {a : Addr} {n : ListNode α} :
    m.node (some a) = .ok n ↔ m.nodes[a]? = some (some n) := by
  simp only [node]
  split
  · rename_i k hk
    rw [hk]
    simp
  · rename_i hno
    constructor
    · intro h
      cases h
    · intro h
      exact absurd h (hno n)

theorem list_eq_ok {m : ListMem α} {a : Addr} {l : CList} :
    m.list (some a) = .ok l ↔ m.lists[a]? = some (some l) := by
  simp only [list]
  split
  · rename_i k hk
    rw [hk]
    simp
  · rename_i hno
    constructor
    · intro h
      cases h
    · intro h
      exact absurd h (hno l)

/-- The link out of the node at `a`; none where there is no node. -/
def linkOf (m : ListMem α) (link : ListNode α → Option Addr) (a : Addr) : Option Addr :=
  match m.nodes[a]? with
  | some (some n) => link n
  | _ => none

theorem linkOf_eq {m : ListMem α} {link : ListNode α → Option Addr} {a : Addr} {n : ListNode α}
    (h : m.nodes[a]? = some (some n)) : m.linkOf link a = link n := by
  simp only [linkOf, h]

/-- There is a node at `a`. -/
def Live (m : ListMem α) (a : Addr) : Prop := ∃ n, m.nodes[a]? = some (some n)

theorem Live.lt_length {m : ListMem α} {a : Addr} (h : m.Live a) : a < m.nodes.length := by
  obtain ⟨n, hn⟩ := h
  exact (List.getElem?_eq_some_iff.1 hn).1

/-- A store to a node leaves the others alone. -/
theorem updNode_ok {m : ListMem α} {a : Addr} {n : ListNode α} (h : m.nodes[a]? = some (some n))
    (f : ListNode α → ListNode α) :
    m.updNode a f = .ok { m with nodes := m.nodes.set a (some (f n)) } := by
  simp only [updNode, node_eq_ok.2 h, Outcome.ok_bind]

theorem updList_ok {m : ListMem α} {a : Addr} {l : CList} (h : m.lists[a]? = some (some l))
    (f : CList → CList) :
    m.updList a f = .ok { m with lists := m.lists.set a (some (f l)) } := by
  simp only [updList, list_eq_ok.2 h, Outcome.ok_bind]

/-- A header that was stored to. -/
theorem getElem?_lists_set {m : ListMem α} {a : Addr} {l : CList}
    (h : m.lists[a]? = some (some l)) (l' : Option CList) : (m.lists.set a l')[a]? = some l' := by
  rw [List.getElem?_set_self (List.getElem?_eq_some_iff.1 h).1]

/-- The node at `b` after `q` was stored to the `next` of the node at `p`, if there is one. -/
def setNext (p q : Option Addr) (b : Addr) (n : ListNode α) : ListNode α :=
  if p = some b then { n with next := q } else n

/-- The same for `prev`. -/
def setPrev (p q : Option Addr) (b : Addr) (n : ListNode α) : ListNode α :=
  if p = some b then { n with prev := q } else n

@[simp] theorem setNext_prev (p q : Option Addr) (b : Addr) (n : ListNode α) :
    (setNext p q b n).prev = n.prev := by
  rw [setNext]
  split <;> rfl

@[simp] theorem setPrev_next (p q : Option Addr) (b : Addr) (n : ListNode α) :
    (setPrev p q b n).next = n.next := by
  rw [setPrev]
  split <;> rfl

theorem setNext_next (p q : Option Addr) (b : Addr) (n : ListNode α) :
    (setNext p q b n).next = if p = some b then q else n.next := by
  rw [setNext]
  split <;> rfl

theorem setPrev_prev (p q : Option Addr) (b : Addr) (n : ListNode α) :
    (setPrev p q b n).prev = if p = some b then q else n.prev := by
  rw [setPrev]
  split <;> rfl

/-- The nodes of `m'` are those of `m` with `f` applied to them. -/
def Mapped (f : Addr → ListNode α → ListNode α) (m m' : ListMem α) : Prop :=
  ∀ b, m'.nodes[b]? = (m.nodes[b]?).map (Option.map (f b))

theorem Mapped.trans {f g : Addr → ListNode α → ListNode α} {m m' m'' : ListMem α}
    (h : Mapped f m m') (h' : Mapped g m' m'') : Mapped (fun b n => g b (f b n)) m m'' := by
  intro b
  rw [h' b, h b, Option.map_map]
  congr 1
  funext o
  cases o <;> rfl

theorem Mapped.getElem? {f : Addr → ListNode α → ListNode α} {m m' : ListMem α} (h : Mapped f m m')
    {b : Addr} {n : ListNode α} (hn : m.nodes[b]? = some (some n)) :
    m'.nodes[b]? = some (some (f b n)) := by
  rw [h b, hn]
  rfl

/-- The links of a node that was mapped. -/
theorem Mapped.linkOf_eq {f : Addr → ListNode α → ListNode α} {m m' : ListMem α}
    (h : Mapped f m m') (link : ListNode α → Option Addr) {b : Addr} {n : ListNode α}
    (hn : m.nodes[b]? = some (some n)) : m'.linkOf link b = link (f b n) :=
  ListMem.linkOf_eq (h.getElem? hn)

theorem Mapped.live {f : Addr → ListNode α → ListNode α} {m m' : ListMem α} (h : Mapped f m m')
    {b : Addr} (hb : m.Live b) : m'.Live b := by
  obtain ⟨n, hn⟩ := hb
  exact ⟨f b n, h.getElem? hn⟩

theorem mapped_id {f : Addr → ListNode α → ListNode α} {m m' : ListMem α}
    (hf : ∀ b n, f b n = n) (h : m'.nodes = m.nodes) : Mapped f m m' := by
  intro b
  have hfb : f b = id := funext (hf b)
  rw [h, hfb]
  simp

/-- A store to one node. -/
theorem mapped_set {f : Addr → ListNode α → ListNode α} {m : ListMem α} {a : Addr} {n : ListNode α}
    (h : m.nodes[a]? = some (some n)) (hf : ∀ b k, b ≠ a → f b k = k)
    (lists : List (Option CList)) :
    Mapped f m { nodes := m.nodes.set a (some (f a n)), lists := lists } := by
  intro b
  dsimp only
  by_cases hab : a = b
  · subst hab
    rw [List.getElem?_set_self (List.getElem?_eq_some_iff.1 h).1, h]
    rfl
  · have hfb : f b = id := funext fun k => hf b k (Ne.symm hab)
    rw [List.getElem?_set_ne hab, hfb]
    simp

theorem setNext_of_ne {p : Addr} {q : Option Addr} {b : Addr} (n : ListNode α) (h : b ≠ p) :
    setNext (some p) q b n = n := by
  rw [setNext, if_neg (by simpa using Ne.symm h)]

theorem setPrev_of_ne {p : Addr} {q : Option Addr} {b : Addr} (n : ListNode α) (h : b ≠ p) :
    setPrev (some p) q b n = n := by
  rw [setPrev, if_neg (by simpa using Ne.symm h)]

/-- A store to the `next` of a node. -/
theorem mapped_setNext {m : ListMem α} {a : Addr} {n : ListNode α} (q : Option Addr)
    (h : m.nodes[a]? = some (some n)) (lists : List (Option CList)) :
    Mapped (setNext (some a) q) m
      { nodes := m.nodes.set a (some { n with next := q }), lists := lists } := by
  have hset : setNext (some a) q a n = { n with next := q } := if_pos rfl
  rw [← hset]
  exact mapped_set h (fun b k hb => setNext_of_ne k hb) lists

/-- A store to the `prev` of a node. -/
theorem mapped_setPrev {m : ListMem α} {a : Addr} {n : ListNode α} (q : Option Addr)
    (h : m.nodes[a]? = some (some n)) (lists : List (Option CList)) :
    Mapped (setPrev (some a) q) m
      { nodes := m.nodes.set a (some { n with prev := q }), lists := lists } := by
  have hset : setPrev (some a) q a n = { n with prev := q } := if_pos rfl
  rw [← hset]
  exact mapped_set h (fun b k hb => setPrev_of_ne k hb) lists

/-- The first store of a deletion. -/
theorem unlinkPrev_ok {m : ListMem α} {lt : Addr} {l : CList} {n : ListNode α}
    (hl : m.lists[lt]? = some (some l)) (hlive : ∀ p, n.prev = some p → m.Live p) :
    ∃ m', m.unlinkPrev lt n = .ok m' ∧ Mapped (setNext n.prev n.next) m m' ∧
      m'.lists[lt]? =
        some (some { l with head := if n.prev = none then n.next else l.head }) := by
  rw [unlinkPrev]
  cases hp : n.prev with
  | none =>
      refine ⟨_, updList_ok hl _, mapped_id (fun _ _ => rfl) rfl, ?_⟩
      rw [if_pos rfl]
      exact getElem?_lists_set hl _
  | some p =>
      obtain ⟨k, hk⟩ := hlive p hp
      refine ⟨_, updNode_ok hk _, mapped_setNext n.next hk m.lists, ?_⟩
      rw [if_neg (Option.some_ne_none p)]
      exact hl

/-- The second store of a deletion. -/
theorem unlinkNext_ok {m : ListMem α} {lt : Addr} {l : CList} {n : ListNode α}
    (hl : m.lists[lt]? = some (some l)) (hlive : ∀ q, n.next = some q → m.Live q) :
    ∃ m', m.unlinkNext lt n = .ok m' ∧ Mapped (setPrev n.next n.prev) m m' ∧
      m'.lists[lt]? =
        some (some { l with tail := if n.next = none then n.prev else l.tail }) := by
  rw [unlinkNext]
  cases hq : n.next with
  | none =>
      refine ⟨_, updList_ok hl _, mapped_id (fun _ _ => rfl) rfl, ?_⟩
      rw [if_pos rfl]
      exact getElem?_lists_set hl _
  | some q =>
      obtain ⟨k, hk⟩ := hlive q hq
      refine ⟨_, updNode_ok hk _, mapped_setPrev n.prev hk m.lists, ?_⟩
      rw [if_neg (Option.some_ne_none q)]
      exact hl

end ListMem

/-! ### The invariant -/

/-- The list at `lt` is made of the nodes `s`. -/
structure IsList (m : ListMem α) (lt : Addr) (s : List Addr) : Prop where
  header : m.lists[lt]? =
    some (some { head := s.head?, tail := s.getLast?, size := s.length })
  nodup : s.Nodup
  live : ∀ a ∈ s, m.Live a
  links : Seg (m.linkOf ListNode.next) (m.linkOf ListNode.prev) none s none

/-- The nodes that were created and not yet added: they lead nowhere, and are no nodes of `s`. -/
structure IsFresh (m : ListMem α) (s : List Addr) (a : Addr) : Prop where
  unlinked : ∃ n, m.nodes[a]? = some (some n) ∧ n.next = none ∧ n.prev = none
  not_mem : a ∉ s

theorem IsFresh.live {m : ListMem α} {s : List Addr} {a : Addr} (h : IsFresh m s a) : m.Live a := by
  obtain ⟨n, hn, -⟩ := h.unlinked
  exact ⟨n, hn⟩

theorem IsFresh.linkOf {m : ListMem α} {s : List Addr} {a : Addr} (h : IsFresh m s a) :
    m.linkOf ListNode.next a = none ∧ m.linkOf ListNode.prev a = none := by
  obtain ⟨n, hn, hnext, hprev⟩ := h.unlinked
  rw [ListMem.linkOf_eq hn, ListMem.linkOf_eq hn]
  exact ⟨hnext, hprev⟩

/-- A list is a list in every memory that agrees with the first on its nodes and its header. -/
theorem IsList.congr {m m' : ListMem α} {lt : Addr} {s : List Addr} (h : IsList m lt s)
    (hlist : m'.lists[lt]? = m.lists[lt]?) (hnodes : ∀ a ∈ s, m'.nodes[a]? = m.nodes[a]?) :
    IsList m' lt s where
  header := hlist.trans h.header
  nodup := h.nodup
  live := by
    intro a ha
    obtain ⟨n, hn⟩ := h.live a ha
    exact ⟨n, (hnodes a ha).trans hn⟩
  links := by
    refine h.links.congr ?_ ?_
    · intro a ha
      simp only [ListMem.linkOf, hnodes a ha]
    · intro a ha
      simp only [ListMem.linkOf, hnodes a ha]

theorem isList_listCreate (m : ListMem α) :
    IsList (listCreate m).1 (listCreate m).2 [] where
  header := by simp [listCreate]
  nodup := List.nodup_nil
  live := by simp
  links := trivial

/-- A live node's successor and predecessor in the list are live. -/
theorem IsList.linkOf_mem {m : ListMem α} {lt : Addr} {l r : List Addr} {a : Addr}
    (h : IsList m lt (l ++ a :: r)) :
    m.linkOf ListNode.prev a = l.getLast? ∧ m.linkOf ListNode.next a = r.head? := by
  have hlinks := h.links
  rw [seg_append, seg_cons] at hlinks
  obtain ⟨-, hprev, hnext, -⟩ := hlinks
  rw [Option.or_none] at hprev hnext
  exact ⟨hprev, hnext⟩

/-! ### Adding -/

/-- Adding the first node stores to the header alone. -/
theorem IsList.add_nil {m : ListMem α} {lt : Addr} (h : IsList m lt []) {a : Addr}
    (ha : IsFresh m [] a) :
    ∃ m', listAdd m (some lt) a = .ok (m', 0) ∧ IsList m' lt [a] ∧ m'.nodes = m.nodes := by
  have hlist : m.list (some lt) = .ok { head := none, tail := none, size := 0 } :=
    ListMem.list_eq_ok.2 h.header
  obtain ⟨hnext, hprev⟩ := ha.linkOf
  simp only [listAdd, hlist, Outcome.ok_bind, if_true]
  refine ⟨_, rfl, ?_, rfl⟩
  constructor
  · exact ListMem.getElem?_lists_set h.header _
  · exact List.nodup_singleton a
  · intro b hb
    rw [List.mem_singleton] at hb
    exact hb ▸ ha.live
  · rw [seg_singleton]
    exact ⟨hprev, hnext⟩

/-- Adding a further node stores to the last node and to it. -/
theorem IsList.listAdd_ok {m : ListMem α} {lt : Addr} {s : List Addr} {b : Addr}
    (h : IsList m lt (s ++ [b])) {a : Addr} (ha : IsFresh m (s ++ [b]) a) :
    ∃ m', listAdd m (some lt) a = .ok (m', 0) ∧
      ListMem.Mapped (fun c n => ListMem.setPrev (some a) (some b) c
        (ListMem.setNext (some b) (some a) c n)) m m' ∧
      m'.lists[lt]? =
        some (some
          { head := (s ++ [b]).head?, tail := some a, size := (s ++ [b]).length + 1 }) := by
  have hheader := h.header
  rw [List.getLast?_concat] at hheader
  have hlist := ListMem.list_eq_ok.2 hheader
  have hsize : (s ++ [b]).length ≠ 0 := by simp
  obtain ⟨nb, hnb⟩ := h.live b (by simp)
  obtain ⟨na, hna, -⟩ := ha.unlinked
  have hab : a ≠ b := by
    intro hab
    exact ha.not_mem (by simp [hab])
  have hfirst := ListMem.mapped_setNext (some a) hnb m.lists
  have hna' := hfirst.getElem? hna
  rw [ListMem.setNext_of_ne na hab] at hna'
  have hsecond := ListMem.mapped_setPrev (some b) hna' (m.lists.set lt
    (some { head := (s ++ [b]).head?, tail := some a, size := (s ++ [b]).length + 1 }))
  have htail := ListMem.node_eq_ok.2 hnb
  have hnode := ListMem.node_eq_ok.2 hna'
  simp only [listAdd, hlist, Outcome.ok_bind, if_neg hsize, htail, Option.getD_some, hnode]
  exact ⟨_, rfl, hfirst.trans hsecond, ListMem.getElem?_lists_set hheader _⟩

/-- Adding a further node keeps the list one. -/
theorem IsList.of_listAdd {m m' : ListMem α} {lt : Addr} {s : List Addr} {b : Addr}
    (h : IsList m lt (s ++ [b])) {a : Addr} (ha : IsFresh m (s ++ [b]) a)
    (hmap : ListMem.Mapped (fun c n => ListMem.setPrev (some a) (some b) c
      (ListMem.setNext (some b) (some a) c n)) m m')
    (hlist : m'.lists[lt]? =
      some (some { head := (s ++ [b]).head?, tail := some a, size := (s ++ [b]).length + 1 })) :
    IsList m' lt (s ++ [b] ++ [a]) := by
  constructor
  · rw [hlist, List.getLast?_concat]
    simp
  · rw [List.nodup_append]
    refine ⟨h.nodup, List.nodup_singleton a, ?_⟩
    intro c hc d hd hcd
    rw [List.mem_singleton] at hd
    exact ha.not_mem (hd ▸ hcd ▸ hc)
  · intro c hc
    rcases List.mem_append.1 hc with hc | hc
    · exact hmap.live (h.live c hc)
    · rw [List.mem_singleton] at hc
      exact hmap.live (hc ▸ ha.live)
  · obtain ⟨na, hna, hna', -⟩ := ha.unlinked
    have hab : a ≠ b := by
      intro hab
      exact ha.not_mem (by simp [hab])
    refine h.links.append_node h.nodup ?_ ?_ ?_ ?_ ?_
    · intro c hc
      rw [List.getLast?_concat] at hc
      obtain ⟨n, hn⟩ := h.live c (by simp [Option.some.inj hc])
      rw [hmap.linkOf_eq _ hn, ListMem.setPrev_next, ListMem.setNext_next, if_pos hc]
    · intro c hc hne
      rw [List.getLast?_concat] at hne
      obtain ⟨n, hn⟩ := h.live c hc
      rw [hmap.linkOf_eq _ hn, ListMem.linkOf_eq hn, ListMem.setPrev_next, ListMem.setNext_next,
        if_neg hne]
    · intro c hc
      obtain ⟨n, hn⟩ := h.live c hc
      have hac : some a ≠ some c := by
        intro hac
        exact ha.not_mem (Option.some.inj hac ▸ hc)
      rw [hmap.linkOf_eq _ hn, ListMem.linkOf_eq hn, ListMem.setPrev_prev, if_neg hac,
        ListMem.setNext_prev]
    · rw [hmap.linkOf_eq _ hna, ListMem.setPrev_prev, if_pos rfl, List.getLast?_concat]
    · rw [hmap.linkOf_eq _ hna, ListMem.setPrev_next, ListMem.setNext_of_ne na hab, hna']

/-- **An addition returns, and appends the node**; the other nodes stay as they are. -/
theorem IsList.add {m : ListMem α} {lt : Addr} {s : List Addr} (h : IsList m lt s) {a : Addr}
    (ha : IsFresh m s a) :
    ∃ m', listAdd m (some lt) a = .ok (m', 0) ∧ IsList m' lt (s ++ [a]) ∧
      ∀ c, c ∉ s → c ≠ a → m'.nodes[c]? = m.nodes[c]? := by
  rcases List.eq_nil_or_concat s with rfl | ⟨l, b, rfl⟩
  · obtain ⟨m', hadd, hlist, hnodes⟩ := h.add_nil ha
    exact ⟨m', hadd, hlist, fun c _ _ => by rw [hnodes]⟩
  · rw [List.concat_eq_append] at h ha ⊢
    obtain ⟨m', hadd, hmap, hheader⟩ := h.listAdd_ok ha
    refine ⟨m', hadd, h.of_listAdd ha hmap hheader, ?_⟩
    intro c hc hca
    have hcb : c ≠ b := by
      intro hcb
      exact hc (by simp [hcb])
    rw [hmap c]
    cases m.nodes[c]? with
    | none => rfl
    | some o =>
        cases o with
        | none => rfl
        | some n =>
            simp only [Option.map_some, ListMem.setNext_of_ne n hcb, ListMem.setPrev_of_ne _ hca]

/-! ### Deleting -/

/-- The first node once `a` is gone. -/
theorem head?_removed (l r : List Addr) (a : Addr) :
    (if l.getLast? = none then r.head? else (l ++ a :: r).head?) = (l ++ r).head? := by
  cases l with
  | nil => rfl
  | cons b l => simp

/-- The last node once `a` is gone. -/
theorem getLast?_removed (l r : List Addr) (a : Addr) :
    (if r.head? = none then l.getLast? else (l ++ a :: r).getLast?) = (l ++ r).getLast? := by
  cases r with
  | nil => simp
  | cons b r =>
      rw [List.head?_cons, if_neg (Option.some_ne_none b), List.getLast?_append,
        List.getLast?_append, List.getLast?_cons_cons]

/-- What is left after the stores of a deletion. -/
theorem IsList.listDel_ok {m : ListMem α} {lt : Addr} {l r : List Addr} {a : Addr}
    (h : IsList m lt (l ++ a :: r)) :
    ∃ m' m₂, listDel m (some lt) a = .ok m' ∧
      ListMem.Mapped (fun c n => ListMem.setPrev r.head? l.getLast? c
        (ListMem.setNext l.getLast? r.head? c n)) m m₂ ∧
      m'.nodes = m₂.nodes.set a none ∧
      m'.lists[lt]? =
        some (some
          { head := (l ++ r).head?, tail := (l ++ r).getLast?, size := (l ++ r).length }) := by
  have hheader := h.header
  have hlist := ListMem.list_eq_ok.2 hheader
  obtain ⟨n, hn⟩ := h.live a (by simp)
  obtain ⟨hprev, hnext⟩ := h.linkOf_mem
  rw [ListMem.linkOf_eq hn] at hprev hnext
  have hsize : (l ++ a :: r).length ≠ 0 := by simp
  have hnd := List.nodup_append.1 h.nodup
  -- neither neighbour is the node itself
  have hap : l.getLast? ≠ some a := by
    intro hlast
    exact hnd.2.2 a (List.mem_of_getLast? hlast) a (by simp) rfl
  have han : r.head? ≠ some a := by
    intro hhead
    exact (List.nodup_cons.1 hnd.2.1).1 (List.mem_of_head? hhead)
  obtain ⟨m₁, hun₁, hmap₁, hheader₁⟩ := ListMem.unlinkPrev_ok (n := n) hheader (by
    intro p hp
    exact h.live p (List.mem_append_left _ (List.mem_of_getLast? (hprev ▸ hp))))
  rw [hprev, hnext] at hmap₁
  have hn₁ := hmap₁.getElem? hn
  rw [ListMem.setNext, if_neg hap] at hn₁
  obtain ⟨m₂, hun₂, hmap₂, hheader₂⟩ := ListMem.unlinkNext_ok (n := n) hheader₁ (by
    intro q hq
    have hmem : q ∈ l ++ a :: r := by
      refine List.mem_append_right _ (List.mem_cons_of_mem a (List.mem_of_head? ?_))
      rw [← hnext, hq]
    exact hmap₁.live (h.live q hmem))
  rw [hprev, hnext] at hmap₂
  have hn₂ := hmap₂.getElem? hn₁
  rw [ListMem.setPrev, if_neg han] at hn₂
  have hfreed : listNodeDestroy m₂ (some a) = .ok { m₂ with nodes := m₂.nodes.set a none } := by
    simp only [listNodeDestroy, ListMem.node_eq_ok.2 hn₂, Outcome.ok_bind]
  rw [hprev, hnext] at hheader₂
  dsimp only at hheader₂
  rw [head?_removed, getLast?_removed] at hheader₂
  have hlast := ListMem.updList_ok (m := { m₂ with nodes := m₂.nodes.set a none }) hheader₂
    fun l => { l with size := l.size - 1 }
  have hcount : (l ++ a :: r).length - 1 = (l ++ r).length := by simp
  dsimp only at hlast
  rw [hcount] at hlast
  refine ⟨{ nodes := m₂.nodes.set a none
            lists := m₂.lists.set lt (some { head := (l ++ r).head?, tail := (l ++ r).getLast?,
                                             size := (l ++ r).length }) },
    m₂, ?_, hmap₁.trans hmap₂, rfl, ListMem.getElem?_lists_set hheader₂ _⟩
  simp only [listDel, hlist, Outcome.ok_bind, if_neg hsize, ListMem.node_eq_ok.2 hn, hun₁,
    ListMem.node_eq_ok.2 hn₁, hun₂, hfreed]
  exact hlast

/-- **A deletion returns, and removes the node**; the nodes outside the list stay as they are. -/
theorem IsList.del {m : ListMem α} {lt : Addr} {l r : List Addr} {a : Addr}
    (h : IsList m lt (l ++ a :: r)) :
    ∃ m', listDel m (some lt) a = .ok m' ∧ IsList m' lt (l ++ r) ∧
      ∀ c, c ∉ l ++ a :: r → m'.nodes[c]? = m.nodes[c]? := by
  obtain ⟨m', m₂, hdel, hmap, hnodes, hheader⟩ := h.listDel_ok
  have ha : ∀ c ∈ l ++ r, c ≠ a := by
    intro c hc hca
    subst hca
    have hmid := List.nodup_middle.1 h.nodup
    exact (List.nodup_cons.1 hmid).1 hc
  have hlive : ∀ c ∈ l ++ r, ∃ n, m.nodes[c]? = some (some n) ∧
      m'.nodes[c]? = some (some (ListMem.setPrev r.head? l.getLast? c
        (ListMem.setNext l.getLast? r.head? c n))) := by
    intro c hc
    obtain ⟨n, hn⟩ := h.live c (by
      rw [List.mem_append] at hc ⊢
      exact hc.imp_right (List.mem_cons_of_mem a))
    refine ⟨n, hn, ?_⟩
    rw [hnodes, List.getElem?_set_ne (ha c hc).symm]
    exact hmap.getElem? hn
  refine ⟨m', hdel, ?_, ?_⟩
  · constructor
    · exact hheader
    · exact (List.nodup_cons.1 (List.nodup_middle.1 h.nodup)).2
    · intro c hc
      obtain ⟨n, -, hn⟩ := hlive c hc
      exact ⟨_, hn⟩
    · refine h.links.remove h.nodup ?_ ?_ ?_ ?_
      · intro c hlast
        obtain ⟨n, -, hn⟩ := hlive c (List.mem_append_left r (List.mem_of_getLast? hlast))
        rw [ListMem.linkOf_eq hn, ListMem.setPrev_next, ListMem.setNext_next, if_pos hlast,
          Option.or_none]
      · intro c hfirst
        obtain ⟨n, -, hn⟩ := hlive c (List.mem_append_right l (List.mem_of_head? hfirst))
        rw [ListMem.linkOf_eq hn, ListMem.setPrev_prev, if_pos hfirst, Option.or_none]
      · intro c hc hne
        obtain ⟨n, hm, hn⟩ := hlive c hc
        rw [ListMem.linkOf_eq hn, ListMem.linkOf_eq hm, ListMem.setPrev_next, ListMem.setNext_next,
          if_neg hne]
      · intro c hc hne
        obtain ⟨n, hm, hn⟩ := hlive c hc
        rw [ListMem.linkOf_eq hn, ListMem.linkOf_eq hm, ListMem.setPrev_prev, if_neg hne,
          ListMem.setNext_prev]
  · intro c hc
    have hlast : l.getLast? ≠ some c := by
      intro hlast
      exact hc (List.mem_append_left _ (List.mem_of_getLast? hlast))
    have hfirst : r.head? ≠ some c := by
      intro hfirst
      exact hc (List.mem_append_right _ (List.mem_cons_of_mem a (List.mem_of_head? hfirst)))
    have hca : a ≠ c := by
      intro hca
      exact hc (by simp [hca])
    rw [hnodes, List.getElem?_set_ne hca, hmap c]
    cases m.nodes[c]? with
    | none => rfl
    | some o =>
        cases o with
        | none => rfl
        | some n => simp only [Option.map_some, ListMem.setNext, ListMem.setPrev, if_neg hlast,
            if_neg hfirst]

/-! ### Runs -/

/-- The states reached from a new list by creating nodes, adding nodes that were created, and
deleting nodes of the list: the memory, the address of the list, the nodes that were created and
not yet added, and the sequence the additions and deletions make. -/
inductive ListRun : ListMem α → Addr → List Addr → List Addr → Prop
  | create (m : ListMem α) : ListRun (listCreate m).1 (listCreate m).2 [] []
  | nodeCreate {m : ListMem α} {lt : Addr} {fresh s : List Addr} (h : ListRun m lt fresh s)
      (value : α) :
      ListRun (listNodeCreate m value).1 lt ((listNodeCreate m value).2 :: fresh) s
  | add {m m' : ListMem α} {lt : Addr} {fresh s : List Addr} {node : Addr} {r : ℤ}
      (h : ListRun m lt fresh s) (hnode : node ∈ fresh)
      (hadd : listAdd m (some lt) node = .ok (m', r)) :
      ListRun m' lt (fresh.erase node) (s ++ [node])
  | del {m m' : ListMem α} {lt : Addr} {fresh s : List Addr} {node : Addr}
      (h : ListRun m lt fresh s) (hnode : node ∈ s) (hdel : listDel m (some lt) node = .ok m') :
      ListRun m' lt fresh (s.erase node)

/-- What a run keeps: the list is one, and the fresh nodes are outside of it. -/
structure RunInv (m : ListMem α) (lt : Addr) (fresh s : List Addr) : Prop where
  isList : IsList m lt s
  nodup : fresh.Nodup
  fresh : ∀ a ∈ fresh, IsFresh m s a

/-- A fresh node stays fresh where it is left alone and not added. -/
theorem IsFresh.congr {m m' : ListMem α} {s s' : List Addr} {a : Addr} (h : IsFresh m s a)
    (hnode : m'.nodes[a]? = m.nodes[a]?) (hs : a ∉ s') : IsFresh m' s' a where
  unlinked := by
    obtain ⟨n, hn, hlinks⟩ := h.unlinked
    exact ⟨n, hnode.trans hn, hlinks⟩
  not_mem := hs

theorem RunInv.nodeCreate {m : ListMem α} {lt : Addr} {fresh s : List Addr}
    (h : RunInv m lt fresh s) (value : α) :
    RunInv (listNodeCreate m value).1 lt ((listNodeCreate m value).2 :: fresh) s := by
  have hold : ∀ c, m.Live c → (listNodeCreate m value).1.nodes[c]? = m.nodes[c]? := by
    intro c hc
    exact List.getElem?_append_left hc.lt_length
  have hnew : ∀ c, m.Live c → c ≠ m.nodes.length := by
    intro c hc
    exact Nat.ne_of_lt hc.lt_length
  constructor
  · exact h.isList.congr rfl fun c hc => hold c (h.isList.live c hc)
  · refine List.nodup_cons.2 ⟨?_, h.nodup⟩
    intro hmem
    exact hnew _ (h.fresh _ hmem).live rfl
  · intro c hc
    rcases List.mem_cons.1 hc with rfl | hc
    · refine ⟨⟨_, List.getElem?_concat_length, rfl, rfl⟩, ?_⟩
      intro hmem
      exact hnew _ (h.isList.live _ hmem) rfl
    · have hfresh := h.fresh c hc
      exact hfresh.congr (hold c hfresh.live) hfresh.not_mem

theorem RunInv.add {m m' : ListMem α} {lt : Addr} {fresh s : List Addr} {node : Addr} {r : ℤ}
    (h : RunInv m lt fresh s) (hnode : node ∈ fresh)
    (hadd : listAdd m (some lt) node = .ok (m', r)) :
    RunInv m' lt (fresh.erase node) (s ++ [node]) := by
  obtain ⟨m₁, hadd₁, hlist, hothers⟩ := h.isList.add (h.fresh node hnode)
  rw [hadd] at hadd₁
  cases hadd₁
  refine ⟨hlist, h.nodup.erase node, ?_⟩
  intro c hc
  have hne : c ≠ node := by
    intro hcn
    exact h.nodup.not_mem_erase (hcn ▸ hc)
  have hfresh := h.fresh c (List.mem_of_mem_erase hc)
  refine hfresh.congr (hothers c hfresh.not_mem hne) ?_
  rw [List.mem_append, List.mem_singleton]
  exact fun hmem => hmem.elim hfresh.not_mem hne

theorem RunInv.del {m m' : ListMem α} {lt : Addr} {fresh s : List Addr} {node : Addr}
    (h : RunInv m lt fresh s) (hnode : node ∈ s) (hdel : listDel m (some lt) node = .ok m') :
    RunInv m' lt fresh (s.erase node) := by
  obtain ⟨l, r, rfl⟩ := List.append_of_mem hnode
  have hl : node ∉ l := by
    intro hmem
    exact (List.nodup_append.1 h.isList.nodup).2.2 node hmem node (by simp) rfl
  have herase : (l ++ node :: r).erase node = l ++ r := by
    rw [List.erase_append_right _ hl, List.erase_cons_head]
  obtain ⟨m₁, hdel₁, hlist, hothers⟩ := h.isList.del
  rw [hdel] at hdel₁
  cases hdel₁
  rw [herase]
  refine ⟨hlist, h.nodup, ?_⟩
  intro c hc
  have hfresh := h.fresh c hc
  refine hfresh.congr (hothers c hfresh.not_mem) ?_
  intro hmem
  refine hfresh.not_mem ?_
  rw [List.mem_append] at hmem ⊢
  exact hmem.imp_right (List.mem_cons_of_mem node)

/-- **The run lemma**: every state of a run satisfies the invariant. -/
theorem listRun_runInv {m : ListMem α} {lt : Addr} {fresh s : List Addr}
    (h : ListRun m lt fresh s) : RunInv m lt fresh s := by
  induction h with
  | create m => exact ⟨isList_listCreate m, List.nodup_nil, by simp⟩
  | nodeCreate _ value ih => exact ih.nodeCreate value
  | add _ hnode hadd ih => exact ih.add hnode hadd
  | del _ hnode hdel ih => exact ih.del hnode hdel

/-! ### The sequence a list shows -/

/-- The nodes met from `p` on along `link`: each is read, and the last leads nowhere. -/
def ListMem.Meets (m : ListMem α) (link : ListNode α → Option Addr) :
    Option Addr → List Addr → Prop
  | p, [] => p = none
  | p, a :: s => p = some a ∧ ∃ n, m.node (some a) = .ok n ∧ m.Meets link (link n) s

/-- A walk along the links of live nodes reads each of them. -/
theorem meets_of_follows {m : ListMem α} {link : ListNode α → Option Addr} {s : List Addr}
    (hlive : ∀ a ∈ s, m.Live a) : ∀ {p : Option Addr}, Follows (m.linkOf link) p s →
      m.Meets link p s := by
  induction s with
  | nil => exact fun h => h
  | cons a s ih =>
      rintro p ⟨rfl, hrest⟩
      obtain ⟨n, hn⟩ := hlive a (by simp)
      rw [ListMem.linkOf_eq hn] at hrest
      refine ⟨rfl, n, ListMem.node_eq_ok.2 hn, ih ?_ hrest⟩
      exact fun b hb => hlive b (List.mem_cons_of_mem a hb)

/-- A walk that reads its nodes follows their links. -/
theorem ListMem.Meets.follows {m : ListMem α} {link : ListNode α → Option Addr} {s : List Addr} :
    ∀ {p : Option Addr}, m.Meets link p s → Follows (m.linkOf link) p s := by
  induction s with
  | nil => exact fun h => h
  | cons a s ih =>
      rintro p ⟨rfl, n, hn, hrest⟩
      refine ⟨rfl, ?_⟩
      rw [ListMem.linkOf_eq (ListMem.node_eq_ok.1 hn)]
      exact ih hrest

/-- The list at `lt` shows the sequence `s`: along `next` from its head, backwards along `prev`
from its tail, in its null pointers and in its counter. -/
structure RefinesSequence (m : ListMem α) (lt : Addr) (s : List Addr) : Prop where
  shown : ∃ l, m.list (some lt) = .ok l ∧ m.Meets ListNode.next l.head s ∧
    m.Meets ListNode.prev l.tail s.reverse ∧ (l.head = none ↔ s = []) ∧ (l.tail = none ↔ s = []) ∧
    l.size = s.length

theorem IsList.refinesSequence {m : ListMem α} {lt : Addr} {s : List Addr} (h : IsList m lt s) :
    RefinesSequence m lt s := by
  refine ⟨_, ListMem.list_eq_ok.2 h.header, ?_, ?_, List.head?_eq_none_iff,
    List.getLast?_eq_none_iff, rfl⟩
  · exact meets_of_follows h.live h.links.follows
  · refine meets_of_follows ?_ h.links.follows_reverse
    exact fun a ha => h.live a (List.mem_reverse.1 ha)

/-- **A list shows one sequence.** -/
theorem RefinesSequence.unique {m : ListMem α} {lt : Addr} {s t : List Addr}
    (hs : RefinesSequence m lt s) (ht : RefinesSequence m lt t) : s = t := by
  obtain ⟨l, hl, hmeets, -⟩ := hs.shown
  obtain ⟨l', hl', hmeets', -⟩ := ht.shown
  rw [hl] at hl'
  cases hl'
  exact hmeets.follows.unique hmeets'.follows

/-- **A list refines the sequence of its nodes**: in every state of a run the list shows exactly
the nodes added and not deleted, and every addition and deletion that is allowed returns. -/
theorem listRun_refinesSequence {m : ListMem α} {lt : Addr} {fresh s : List Addr}
    (h : ListRun m lt fresh s) :
    RefinesSequence m lt s ∧
      (∀ node ∈ fresh, ∃ m', listAdd m (some lt) node = .ok (m', 0)) ∧
      ∀ node ∈ s, ∃ m', listDel m (some lt) node = .ok m' := by
  have hinv := listRun_runInv h
  refine ⟨hinv.isList.refinesSequence, ?_, ?_⟩
  · intro node hnode
    obtain ⟨m', hadd, -⟩ := hinv.isList.add (hinv.fresh node hnode)
    exact ⟨m', hadd⟩
  · intro node hnode
    obtain ⟨l, r, rfl⟩ := List.append_of_mem hnode
    obtain ⟨m', hdel, -⟩ := hinv.isList.del
    exact ⟨m', hdel⟩

/-- Two nodes are added, and the first is deleted. -/
theorem listRun_refinesSequence_second :
    ∃ m : ListMem ℕ, RefinesSequence m 0 [1] ∧
      (∀ node ∈ ([] : List Addr), ∃ m', listAdd m (some 0) node = .ok (m', 0)) ∧
      ∀ node ∈ [1], ∃ m', listDel m (some 0) node = .ok m' := by
  have hfresh := ListRun.nodeCreate (ListRun.nodeCreate (ListRun.create ListMem.empty) 7) 8
  have hfirst := hfresh.add (by decide : 0 ∈ _) rfl
  have hsecond := hfirst.add (by decide : 1 ∈ _) rfl
  exact ⟨_, listRun_refinesSequence (hsecond.del (by decide : 0 ∈ _) rfl)⟩
