/-
**Destroying a list from both ends.**

`list_destroy` walks from both ends of the list towards the middle, destroying two nodes a turn, and
destroys the node the two walks meet at.  They meet when the number of nodes is odd; when it is
even they pass each other, and go on over nodes that were just freed.  Whether the middle node is
destroyed is decided by a counter that was set to zero and then counted down, so that a list of one
node, which takes no turn, keeps it.

Main definitions:

* `Freed` — what the memory has become once the nodes of a sequence are freed;
* `DestroysOnce` — every value is handed to the callback once, and everything is freed.

Main results:

* `run_listDestroyTurn_odd`, `run_listDestroyTurn_even` — where the loop ends;
* `listDestroy_once_iff` — **a list is destroyed exactly when its length is odd and not one**.
-/

import SdsStorage.ListRun
import Mathlib.Data.List.Perm.Subperm

set_option relaxedAutoImplicit false
set_option autoImplicit false

open DoublyLinked

variable {α : Type}

/-! ### Freeing nodes -/

/-- The value of the node at `a`. -/
def ListMem.valueOf (m : ListMem α) (a : Addr) : Option α :=
  match m.nodes[a]? with
  | some (some n) => some n.value
  | _ => none

theorem ListMem.valueOf_eq {m : ListMem α} {a : Addr} {n : ListNode α}
    (h : m.nodes[a]? = some (some n)) : m.valueOf a = some n.value := by
  simp only [ListMem.valueOf, h]

/-- The nodes `s` are freed, and nothing else has changed. -/
structure Freed (m : ListMem α) (s : List Addr) (m' : ListMem α) : Prop where
  lists : m'.lists = m.lists
  freed : ∀ a ∈ s, m'.nodes[a]? = some none
  others : ∀ a, a ∉ s → m'.nodes[a]? = m.nodes[a]?

theorem Freed.refl (m : ListMem α) : Freed m [] m :=
  ⟨rfl, by simp, fun _ _ => rfl⟩

theorem Freed.trans {m m' m'' : ListMem α} {s s' t : List Addr} (h : Freed m s m')
    (h' : Freed m' s' m'') (ht : ∀ a, a ∈ t ↔ a ∈ s ∨ a ∈ s') : Freed m t m'' where
  lists := h'.lists.trans h.lists
  freed := by
    intro a ha
    by_cases has' : a ∈ s'
    · exact h'.freed a has'
    · rw [h'.others a has']
      exact h.freed a (((ht a).1 ha).resolve_right has')
  others := by
    intro a ha
    rw [ht, not_or] at ha
    rw [h'.others a ha.2, h.others a ha.1]

/-- Destroying a node that is there frees it. -/
theorem listNodeDestroy_freed {m : ListMem α} {a : Addr} (h : m.Live a) :
    ∃ m', listNodeDestroy m (some a) = .ok m' ∧ Freed m [a] m' := by
  obtain ⟨n, hn⟩ := h
  refine ⟨{ m with nodes := m.nodes.set a none }, ?_, rfl, ?_, ?_⟩
  · simp only [listNodeDestroy, ListMem.node_eq_ok.2 hn, Outcome.ok_bind]
  · intro b hb
    rw [List.mem_singleton] at hb
    subst hb
    exact List.getElem?_set_self (List.getElem?_eq_some_iff.1 hn).1
  · intro b hb
    rw [List.mem_singleton] at hb
    exact List.getElem?_set_ne (Ne.symm hb)

/-- The nodes that are not freed stay as they were. -/
theorem Freed.live {m m' : ListMem α} {s : List Addr} (h : Freed m s m') {a : Addr}
    (ha : m.Live a) (hs : a ∉ s) : m'.Live a := by
  obtain ⟨n, hn⟩ := ha
  exact ⟨n, (h.others a hs).trans hn⟩

theorem Freed.linkOf_eq {m m' : ListMem α} {s : List Addr} (h : Freed m s m')
    (link : ListNode α → Option Addr) {a : Addr} (hs : a ∉ s) :
    m'.linkOf link a = m.linkOf link a := by
  simp only [ListMem.linkOf, h.others a hs]

theorem Freed.valueOf_eq {m m' : ListMem α} {s : List Addr} (h : Freed m s m') {a : Addr}
    (hs : a ∉ s) : m'.valueOf a = m.valueOf a := by
  simp only [ListMem.valueOf, h.others a hs]

/-- The values of nodes that are not freed. -/
theorem Freed.filterMap_valueOf {m m' : ListMem α} {s t : List Addr} (h : Freed m s m')
    (ht : ∀ a ∈ t, a ∉ s) : t.filterMap m'.valueOf = t.filterMap m.valueOf := by
  refine List.filterMap_congr ?_
  intro a ha
  exact h.valueOf_eq (ht a ha)

/-- A freed node is not read again without a fault. -/
theorem node_of_freed {m : ListMem α} {a : Addr} (h : m.nodes[a]? = some none) :
    m.node (some a) = .error .wild := by
  simp only [ListMem.node, h]

/-! ### One turn -/

/-- The segment that is left in the middle. -/
structure Middle (m : ListMem α) (s : List Addr) : Prop where
  nodup : s.Nodup
  live : ∀ a ∈ s, m.Live a
  links : ∃ p q, Seg (m.linkOf ListNode.next) (m.linkOf ListNode.prev) p s q

/-- **The turn lemma**: both ends are destroyed, and the walks go on along their links. -/
theorem listDestroyTurn_again {st : ListDestroy α} {a b : Addr} {mid : List Addr}
    (h : Middle st.mem (a :: (mid ++ [b]))) (hhead : st.head = some a) (htail : st.tail = some b) :
    ∃ st', listDestroyTurn true st = .again st' ∧ st'.head = mid.head?.or (some b) ∧
      st'.tail = mid.getLast?.or (some a) ∧ st'.size = sizeSub st.size ∧
      Freed st.mem [a, b] st'.mem ∧
      st'.calls = st.calls ++ [a, b].filterMap st.mem.valueOf := by
  obtain ⟨p, q, hlinks⟩ := h.links
  obtain ⟨hanotin, hnd⟩ := List.nodup_cons.1 h.nodup
  have hab : a ≠ b := by
    intro hab
    exact hanotin (by simp [hab])
  obtain ⟨na, hna⟩ := h.live a (by simp)
  obtain ⟨nb, hnb⟩ := h.live b (by simp)
  -- the links of the two ends
  rw [seg_cons, seg_append, seg_singleton] at hlinks
  obtain ⟨-, hnext, -, hprev, -⟩ := hlinks
  rw [ListMem.linkOf_eq hna, List.head?_append, Option.or_assoc, List.head?_cons,
    Option.some_or] at hnext
  rw [ListMem.linkOf_eq hnb] at hprev
  obtain ⟨m₁, hfree₁, hfreed₁⟩ := listNodeDestroy_freed ⟨na, hna⟩
  obtain ⟨m₂, hfree₂, hfreed₂⟩ :=
    listNodeDestroy_freed (hfreed₁.live ⟨nb, hnb⟩ (by simpa using hab.symm))
  have hpair : listDestroyPair true st =
      .ok { mem := m₂, head := na.next, tail := nb.prev, size := sizeSub st.size,
            calls := st.calls ++ [na.value] ++ [nb.value] } := by
    simp only [listDestroyPair, hhead, htail, ListMem.node_eq_ok.2 hna, ListMem.node_eq_ok.2 hnb,
      destroyCb, if_true, Outcome.ok_bind, hfree₁, hfree₂]
  refine ⟨{ mem := m₂, head := na.next, tail := nb.prev, size := sizeSub st.size,
            calls := st.calls ++ [na.value] ++ [nb.value] }, ?_, hnext, hprev, rfl,
    hfreed₁.trans hfreed₂ (by simp), ?_⟩
  · rw [listDestroyTurn, hhead, htail, if_pos (by simpa using hab), hpair]
  · simp [ListMem.valueOf_eq hna, ListMem.valueOf_eq hnb]

/-- The ends are no nodes of the middle. -/
theorem Middle.not_mem_ends {m : ListMem α} {a b : Addr} {mid : List Addr}
    (h : Middle m (a :: (mid ++ [b]))) : ∀ c ∈ mid, c ∉ [a, b] := by
  obtain ⟨hanotin, hnd⟩ := List.nodup_cons.1 h.nodup
  intro c hc hmem
  rcases List.mem_cons.1 hmem with rfl | hmem
  · exact hanotin (List.mem_append_left _ hc)
  · exact (List.nodup_append.1 hnd).2.2 c hc b (by simp) (List.mem_singleton.1 hmem)

/-- What is in the middle stays as it is. -/
theorem Middle.inner {m m' : ListMem α} {a b : Addr} {mid : List Addr}
    (h : Middle m (a :: (mid ++ [b]))) (hfreed : Freed m [a, b] m') : Middle m' mid := by
  have hmid := h.not_mem_ends
  obtain ⟨p, q, hlinks⟩ := h.links
  rw [seg_cons, seg_append] at hlinks
  refine ⟨?_, ?_, _, _, hlinks.2.2.1.congr ?_ ?_⟩
  · exact (List.nodup_append.1 (List.nodup_cons.1 h.nodup).2).1
  · exact fun c hc => hfreed.live (h.live c (by simp [hc])) (hmid c hc)
  · exact fun c hc => hfreed.linkOf_eq _ (hmid c hc)
  · exact fun c hc => hfreed.linkOf_eq _ (hmid c hc)

/-! ### The loop -/

/-- A sequence of two nodes or more has two ends. -/
theorem exists_ends {s : List Addr} (h : 2 ≤ s.length) : ∃ a mid b, s = a :: (mid ++ [b]) := by
  cases s with
  | nil => simp at h
  | cons a s =>
      rcases List.eq_nil_or_concat s with rfl | ⟨mid, b, rfl⟩
      · simp at h
      · exact ⟨a, mid, b, by rw [List.concat_eq_append]⟩

theorem getLast?_ends (a b : Addr) (mid : List Addr) :
    (a :: (mid ++ [b])).getLast? = some b := by
  rw [← List.cons_append, List.getLast?_concat]

/-- **An odd number of nodes**: the walks meet, and all nodes but the one they meet at are
destroyed.  The induction is on the number of turns, from the ends inwards. -/
theorem run_listDestroyTurn_odd (k : ℕ) :
    ∀ {st : ListDestroy α} {s : List Addr}, Middle st.mem s → s.length = 2 * k + 1 →
      st.head = s.head? → st.tail = s.getLast? →
      ∃ st' l c r vs, Loop.run (listDestroyTurn true) (k + 1) st = some (.ok st') ∧
        s = l ++ c :: r ∧ st'.head = some c ∧ st'.size = sizeSub^[k] st.size ∧
        Freed st.mem (l ++ r) st'.mem ∧ st'.calls = st.calls ++ vs ∧
        vs.Perm ((l ++ r).filterMap st.mem.valueOf) := by
  induction k with
  | zero =>
      intro st s _ hlen hhead htail
      obtain ⟨c, rfl⟩ := List.length_eq_one_iff.1 hlen
      have hturn : listDestroyTurn true st = .done (.ok st) := by
        rw [listDestroyTurn, hhead, htail, if_neg (by simp)]
      refine ⟨st, [], c, [], [], Loop.run_done hturn, rfl, hhead, rfl, Freed.refl _, ?_, ?_⟩
      · rw [List.append_nil]
      · exact List.Perm.refl _
  | succ k ih =>
      intro st s hmid hlen hhead htail
      obtain ⟨a, mid, b, rfl⟩ := exists_ends (by omega : 2 ≤ s.length)
      have hlen' : mid.length = 2 * k + 1 := by
        simp only [List.length_cons, List.length_append, List.length_nil] at hlen
        omega
      have hne : mid ≠ [] := by
        rintro rfl
        simp at hlen'
      obtain ⟨st₁, hturn, hhead₁, htail₁, hsize₁, hfreed₁, hcalls₁⟩ :=
        listDestroyTurn_again hmid hhead (htail.trans (getLast?_ends a b mid))
      rw [Option.or_of_isSome (by simpa using hne)] at hhead₁ htail₁
      obtain ⟨st', l, c, r, vs, hrun, hs, hhead', hsize', hfreed', hcalls', hperm⟩ :=
        ih (hmid.inner hfreed₁) hlen' hhead₁ htail₁
      refine ⟨st', a :: l, c, r ++ [b], [a, b].filterMap st.mem.valueOf ++ vs, ?_, ?_, hhead', ?_,
        hfreed₁.trans hfreed' ?_, ?_, ?_⟩
      · rw [Loop.run_again hturn, hrun]
      · rw [hs]
        simp
      · rw [hsize', hsize₁, Function.iterate_succ_apply]
      · intro x
        simp only [List.mem_append, List.mem_cons, List.not_mem_nil]
        tauto
      · rw [hcalls', hcalls₁, List.append_assoc]
      · have hsame := hfreed₁.filterMap_valueOf (t := l ++ r) (by
          intro x hx
          refine hmid.not_mem_ends x ?_
          rw [hs, List.mem_append, List.mem_cons]
          exact (List.mem_append.1 hx).imp_right Or.inr)
        rw [hsame] at hperm
        have hends : ([a, b] ++ (l ++ r)).Perm (a :: l ++ (r ++ [b])) := by
          have hlast : (b :: (l ++ r)).Perm (l ++ r ++ [b]) := (List.perm_append_singleton b _).symm
          have hout : a :: l ++ (r ++ [b]) = a :: (l ++ r ++ [b]) := by simp
          rw [hout]
          exact hlast.cons a
        refine (hperm.append_left _).trans ?_
        rw [← List.filterMap_append]
        exact hends.filterMap _

/-- **An even number of nodes**: the walks pass each other, and go on over freed nodes. -/
theorem run_listDestroyTurn_even (k : ℕ) :
    ∀ {st : ListDestroy α} {s : List Addr}, Middle st.mem s → s.length = 2 * k + 2 →
      st.head = s.head? → st.tail = s.getLast? →
      Loop.run (listDestroyTurn true) (k + 2) st = some (.error .wild) := by
  induction k with
  | zero =>
      intro st s hmid hlen hhead htail
      obtain ⟨a, mid, b, rfl⟩ := exists_ends (by omega : 2 ≤ s.length)
      have hnil : mid = [] := by
        simp only [List.length_cons, List.length_append, List.length_nil] at hlen
        exact List.length_eq_zero_iff.1 (by omega)
      subst hnil
      obtain ⟨st₁, hturn, hhead₁, htail₁, -, hfreed₁, -⟩ :=
        listDestroyTurn_again hmid hhead (htail.trans (getLast?_ends a b []))
      have hab : a ≠ b := by
        have hnd := hmid.nodup
        simpa using hnd
      -- the walks have changed places, and both nodes are gone
      have hlost : listDestroyPair true st₁ = .error .wild := by
        have hwild := node_of_freed (hfreed₁.freed b (by simp))
        simp only [listDestroyPair, hhead₁, List.head?_nil, Option.none_or, hwild,
          Outcome.error_bind]
      have hturn₁ : listDestroyTurn true st₁ = .done (.error .wild) := by
        rw [listDestroyTurn, if_pos, hlost]
        rw [hhead₁, htail₁]
        simpa using hab.symm
      rw [Loop.run_again hturn, Loop.run_done hturn₁]
  | succ k ih =>
      intro st s hmid hlen hhead htail
      obtain ⟨a, mid, b, rfl⟩ := exists_ends (by omega : 2 ≤ s.length)
      have hlen' : mid.length = 2 * k + 2 := by
        simp only [List.length_cons, List.length_append, List.length_nil] at hlen
        omega
      have hne : mid ≠ [] := by
        rintro rfl
        simp at hlen'
      obtain ⟨st₁, hturn, hhead₁, htail₁, -, hfreed₁, -⟩ :=
        listDestroyTurn_again hmid hhead (htail.trans (getLast?_ends a b mid))
      rw [Option.or_of_isSome (by simpa using hne)] at hhead₁ htail₁
      rw [Loop.run_again hturn]
      exact ih (hmid.inner hfreed₁) hlen' hhead₁ htail₁

/-! ### The whole list -/

/-- The counter after `k` turns. -/
theorem iterate_sizeSub (k : ℕ) :
    sizeSub^[k] 0 < 2 ^ 64 ∧ (sizeSub^[k] 0 + k) % 2 ^ 64 = 0 := by
  induction k with
  | zero => decide
  | succ k ih =>
      rw [Function.iterate_succ_apply', sizeSub]
      omega

theorem iterate_sizeSub_pos_iff (k : ℕ) : 0 < sizeSub^[k] 0 ↔ k % 2 ^ 64 ≠ 0 := by
  have h := iterate_sizeSub k
  omega

/-- A list does not have more nodes than the memory. -/
theorem IsList.length_le {m : ListMem α} {lt : Addr} {s : List Addr} (h : IsList m lt s) :
    s.length ≤ m.nodes.length := by
  have hsub : s ⊆ List.range m.nodes.length := by
    intro a ha
    exact List.mem_range.2 (h.live a ha).lt_length
  have hle := (List.subperm_of_subset h.nodup hsub).length_le
  rwa [List.length_range] at hle

/-- Every value of the list is handed to the callback once, every node is freed, once, and so is
the header; a node freed twice or read after that would be a fault. -/
def DestroysOnce (m : ListMem α) (lt : Addr) (s : List Addr)
    (res : Outcome (ListMem α × List α)) : Prop :=
  ∃ m' calls, res = .ok (m', calls) ∧ calls.Perm (s.filterMap m.valueOf) ∧
    (∀ a ∈ s, m'.nodes[a]? = some none) ∧ (∀ a, a ∉ s → m'.nodes[a]? = m.nodes[a]?) ∧
    m'.lists = m.lists.set lt none

/-- The state the loop of `list_destroy` starts from. -/
def destroyStart (m : ListMem α) (s : List Addr) : ListDestroy α :=
  { mem := m, head := s.head?, tail := s.getLast?, size := 0, calls := [] }

theorem IsList.middle {m : ListMem α} {lt : Addr} {s : List Addr} (h : IsList m lt s) :
    Middle (destroyStart m s).mem s :=
  ⟨h.nodup, h.live, none, none, h.links⟩

/-- `list_destroy` of a list with nodes. -/
theorem listDestroy_of_ne_nil {m : ListMem α} {lt : Addr} {s : List Addr} (h : IsList m lt s)
    (hne : s ≠ []) :
    listDestroy true m (some lt) =
      ((Loop.run (listDestroyTurn true) (m.nodes.length + 1) (destroyStart m s)).getD
        (.error .blocked) >>= fun st => listDestroyMiddle true st >>= fun st =>
          .ok ({ st.mem with lists := st.mem.lists.set lt none }, st.calls)) := by
  have hsize : s.length ≠ 0 := by simpa using hne
  have hhead : s.head? ≠ none := by simpa using hne
  simp only [listDestroy, ListMem.list_eq_ok.2 h.header, Outcome.ok_bind, if_neg hsize,
    if_neg hhead, destroyStart]

/-- The node the walks meet at is destroyed when the counter is not zero. -/
theorem listDestroyMiddle_ok {st : ListDestroy α} {c : Addr} (hhead : st.head = some c)
    (hsize : 0 < st.size) (hc : st.mem.Live c) :
    ∃ st', listDestroyMiddle true st = .ok st' ∧ Freed st.mem [c] st'.mem ∧
      st'.calls = st.calls ++ [c].filterMap st.mem.valueOf := by
  obtain ⟨m', hfree, hfreed⟩ := listNodeDestroy_freed hc
  obtain ⟨n, hn⟩ := hc
  refine ⟨{ mem := m', head := none, tail := none, size := sizeSub st.size,
            calls := st.calls ++ [n.value] }, ?_, hfreed, ?_⟩
  · simp only [listDestroyMiddle, if_pos hsize, hhead, ListMem.node_eq_ok.2 hn, destroyCb, if_true,
      Outcome.ok_bind, hfree]
  · simp [ListMem.valueOf_eq hn]

/-- The loop is given turns enough. -/
theorem IsList.run_listDestroyTurn {m : ListMem α} {lt : Addr} {s : List Addr} (h : IsList m lt s)
    {k : ℕ} (hk : k ≤ s.length) {res : Outcome (ListDestroy α)}
    (hrun : Loop.run (listDestroyTurn true) (k + 1) (destroyStart m s) = some res) :
    Loop.run (listDestroyTurn true) (m.nodes.length + 1) (destroyStart m s) = some res := by
  have hle := h.length_le
  exact Loop.run_mono hrun (by omega)

/-- A list of odd length is destroyed when the counter does not come round to zero. -/
theorem IsList.destroysOnce {m : ListMem α} {lt : Addr} {s : List Addr} (h : IsList m lt s)
    (hodd : s.length % 2 = 1) (hcount : s.length / 2 % 2 ^ 64 ≠ 0) :
    DestroysOnce m lt s (listDestroy true m (some lt)) := by
  have hne : s ≠ [] := by
    rintro rfl
    simp at hodd
  obtain ⟨st, l, c, r, vs, hrun, hs, hhead, hsize, hfreed, hcalls, hperm⟩ :=
    run_listDestroyTurn_odd (s.length / 2) h.middle (by omega) rfl rfl
  have hrun' := h.run_listDestroyTurn (by omega) hrun
  have hpos : 0 < st.size := by
    rw [hsize]
    exact (iterate_sizeSub_pos_iff _).2 hcount
  have hcm : c ∉ l ++ r := by
    have hnd := h.nodup
    rw [hs] at hnd
    exact (List.nodup_cons.1 (List.nodup_middle.1 hnd)).1
  have hcs : c ∈ s := by simp [hs]
  obtain ⟨st', hmiddle, hfreed', hcalls'⟩ :=
    listDestroyMiddle_ok hhead hpos (hfreed.live (h.live c hcs) hcm)
  have hall : Freed m s st'.mem := by
    refine hfreed.trans hfreed' ?_
    intro x
    rw [hs]
    simp only [List.mem_append, List.mem_cons, List.not_mem_nil]
    tauto
  refine ⟨{ st'.mem with lists := st'.mem.lists.set lt none }, st'.calls, ?_, ?_, hall.freed,
    hall.others, ?_⟩
  · rw [listDestroy_of_ne_nil h hne, hrun', Option.getD_some, Outcome.ok_bind, hmiddle,
      Outcome.ok_bind]
  · rw [hcalls', hcalls, hfreed.filterMap_valueOf (by simpa using hcm)]
    have hmid : (l ++ r ++ [c]).Perm (l ++ c :: r) :=
      (List.perm_append_singleton c _).trans List.perm_middle.symm
    have hvalues := hmid.filterMap m.valueOf
    rw [List.filterMap_append] at hvalues
    rw [hs]
    exact (hperm.append_right _).trans hvalues
  · rw [hall.lists]

/-- The node the walks meet at is kept when the counter is zero. -/
theorem listDestroyMiddle_of_zero {st : ListDestroy α} (hsize : st.size = 0) :
    listDestroyMiddle true st = .ok st := by
  rw [listDestroyMiddle, if_neg (by omega)]

/-- A list that is destroyed has odd length, and its counter does not come round to zero. -/
theorem IsList.odd_of_destroysOnce {m : ListMem α} {lt : Addr} {s : List Addr} (h : IsList m lt s)
    (hd : DestroysOnce m lt s (listDestroy true m (some lt))) :
    s.length % 2 = 1 ∧ s.length / 2 % 2 ^ 64 ≠ 0 := by
  obtain ⟨m', calls, hres, -, hfreed, -, hlists⟩ := hd
  rcases List.eq_nil_or_concat s with rfl | ⟨s', b, hs⟩
  · -- the header of an empty list is kept
    exfalso
    have hkept : listDestroy true m (some lt) = .ok (m, []) := by
      simp [listDestroy, ListMem.list_eq_ok.2 h.header]
    rw [hkept] at hres
    cases hres
    have hset := ListMem.getElem?_lists_set h.header none
    rw [← hlists, h.header] at hset
    cases hset
  · have hne : s ≠ [] := by
      rw [hs, List.concat_eq_append]
      simp
    have hpos : 0 < s.length := List.length_pos_of_ne_nil hne
    rw [listDestroy_of_ne_nil h hne] at hres
    rcases Nat.mod_two_eq_zero_or_one s.length with heven | hodd
    · exfalso
      have hrun := run_listDestroyTurn_even (s.length / 2 - 1) h.middle (by omega) rfl rfl
      have hturns : s.length / 2 - 1 + 1 ≤ s.length := by omega
      rw [h.run_listDestroyTurn hturns hrun] at hres
      cases hres
    · refine ⟨hodd, ?_⟩
      intro hcount
      obtain ⟨st, l, c, r, vs, hrun, hs, hhead, hsize, hfreed', -, -⟩ :=
        run_listDestroyTurn_odd (s.length / 2) h.middle (by omega) rfl rfl
      have hzero : st.size = 0 := by
        have hiff := iterate_sizeSub_pos_iff (s.length / 2)
        have hsize' : st.size = sizeSub^[s.length / 2] 0 := hsize
        omega
      rw [h.run_listDestroyTurn (by omega) hrun, Option.getD_some, Outcome.ok_bind,
        listDestroyMiddle_of_zero hzero, Outcome.ok_bind] at hres
      cases hres
      -- the node in the middle is still there
      have hcm : c ∉ l ++ r := by
        have hnd := h.nodup
        rw [hs] at hnd
        exact (List.nodup_cons.1 (List.nodup_middle.1 hnd)).1
      have hcs : c ∈ s := by simp [hs]
      obtain ⟨n, hn⟩ := hfreed'.live (h.live c hcs) hcm
      rw [hfreed c hcs] at hn
      cases hn

/-- **A list is destroyed exactly when its length is odd and not one**; a counter of 64 bits makes
no difference for any list that fits into a memory. -/
theorem listDestroy_once_iff {m : ListMem α} {lt : Addr} {fresh s : List Addr}
    (h : ListRun m lt fresh s) :
    DestroysOnce m lt s (listDestroy true m (some lt)) ↔
      s.length % 2 = 1 ∧ s.length / 2 % 2 ^ 64 ≠ 0 := by
  have hlist := (listRun_runInv h).isList
  constructor
  · intro hd
    exact hlist.odd_of_destroysOnce hd
  · rintro ⟨hodd, hcount⟩
    exact hlist.destroysOnce hodd hcount

/-- A list of three nodes is destroyed. -/
theorem listDestroy_once_iff_three :
    ∃ m : ListMem ℕ, DestroysOnce m 0 [0, 1, 2] (listDestroy true m (some 0)) := by
  have hfresh := ListRun.nodeCreate (ListRun.nodeCreate (ListRun.nodeCreate
    (ListRun.create ListMem.empty) 7) 8) 9
  have hfirst := hfresh.add (by decide : 0 ∈ _) rfl
  have hsecond := hfirst.add (by decide : 1 ∈ _) rfl
  exact ⟨_, (listDestroy_once_iff (hsecond.add (by decide : 2 ∈ _) rfl)).2 (by decide)⟩

/-- A list of two nodes is not: the first node is read again after it was freed. -/
theorem listDestroy_two_not_once :
    ∃ m : ListMem ℕ, ListRun m 0 [] [0, 1] ∧
      ¬ DestroysOnce m 0 [0, 1] (listDestroy true m (some 0)) := by
  have hfresh := ListRun.nodeCreate (ListRun.nodeCreate (ListRun.create ListMem.empty) 7) 8
  have hfirst := hfresh.add (by decide : 0 ∈ _) rfl
  have hsecond := hfirst.add (by decide : 1 ∈ _) rfl
  refine ⟨_, hsecond, ?_⟩
  rintro ⟨m', calls, hres, -⟩
  cases hres
