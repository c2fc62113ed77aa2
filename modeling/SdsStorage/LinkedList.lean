/-
**Doubly linked lists.**

List headers and nodes live in a memory that hands out their addresses; a node keeps the pointer it
was created with.  Nothing is ever moved, so an address stays good until the object is freed.

Main definitions:

* `ListNode`, `CList`, `ListMem` — nodes, headers and the memory they live in;
* `listCreate`, `listNodeCreate`, `listAdd` — `list_create`, `list_node_create` and `list_add`;
* `listNodeDestroy`, `listDel` — `list_node_destroy` and `list_del`;
* `listDestroy` — `list_destroy`, with the values its callback is called on;
* `listValues` — the values met from the head on.
-/

import SdsStorage.Outcome
import SdsStorage.Loop
import Mathlib.Data.Nat.Notation
import Mathlib.Data.Int.Notation

set_option relaxedAutoImplicit false
set_option autoImplicit false

/-- The address of an allocated object; a pointer is an optional address. -/
abbrev Addr := ℕ

/-- `list_node`. -/
structure ListNode (α : Type) where
  next : Option Addr
  prev : Option Addr
  value : α

/-- `list`. -/
structure CList where
  head : Option Addr
  tail : Option Addr
  size : ℕ
  deriving DecidableEq, Repr

/-- The memory lists live in; an address of a freed object leads nowhere. -/
structure ListMem (α : Type) where
  nodes : List (Option (ListNode α))
  lists : List (Option CList)

variable {α : Type}

namespace ListMem

/-- A memory nothing was allocated in. -/
def empty : ListMem α := { nodes := [], lists := [] }

/-- The node a pointer leads to. -/
def node (m : ListMem α) : Option Addr → Outcome (ListNode α)
  | none => .error .nullDeref
  | some a =>
      match m.nodes[a]? with
      | some (some n) => .ok n
      | _ => .error .wild

/-- The header a pointer leads to. -/
def list (m : ListMem α) : Option Addr → Outcome CList
  | none => .error .nullDeref
  | some a =>
      match m.lists[a]? with
      | some (some lt) => .ok lt
      | _ => .error .wild

end ListMem

/-- `list_create`. -/
def listCreate (m : ListMem α) : ListMem α × Addr :=
  ({ m with lists := m.lists ++ [some { head := none, tail := none, size := 0 }] },
    m.lists.length)

/-- `list_node_create` of a pointer that is not null. -/
def listNodeCreate (m : ListMem α) (value : α) : ListMem α × Addr :=
  ({ m with nodes := m.nodes ++ [some { next := none, prev := none, value := value }] },
    m.nodes.length)

/-- `list_add`: the memory and the status. -/
def listAdd (m : ListMem α) (lt : Option Addr) (node : Addr) : Outcome (ListMem α × ℤ) :=
  match lt with
  | none => .ok (m, -1)
  | some a => do
      let l ← m.list (some a)
      if l.size = 0 then
        .ok ({ m with
          lists := m.lists.set a (some { head := some node, tail := some node, size := 1 }) }, 0)
      else
        let tail ← m.node l.tail
        let nodes := m.nodes.set (l.tail.getD 0) (some { tail with next := some node })
        let n ← ({ m with nodes := nodes } : ListMem α).node (some node)
        let nodes := nodes.set node (some { n with prev := l.tail })
        .ok ({ nodes := nodes
               lists := m.lists.set a (some { l with tail := some node, size := l.size + 1 }) }, 0)

/-! ### Deleting a node -/

namespace ListMem

/-- A store to the node at `a`. -/
def updNode (m : ListMem α) (a : Addr) (f : ListNode α → ListNode α) : Outcome (ListMem α) := do
  let n ← m.node (some a)
  .ok { m with nodes := m.nodes.set a (some (f n)) }

/-- A store to the header at `a`. -/
def updList (m : ListMem α) (a : Addr) (f : CList → CList) : Outcome (ListMem α) := do
  let l ← m.list (some a)
  .ok { m with lists := m.lists.set a (some (f l)) }

/-- The node before `n` is made to lead past it, or the list to start behind it. -/
def unlinkPrev (m : ListMem α) (lt : Addr) (n : ListNode α) : Outcome (ListMem α) :=
  match n.prev with
  | some p => m.updNode p fun k => { k with next := n.next }
  | none => m.updList lt fun l => { l with head := n.next }

/-- The node behind `n` is made to lead past it, or the list to end before it. -/
def unlinkNext (m : ListMem α) (lt : Addr) (n : ListNode α) : Outcome (ListMem α) :=
  match n.next with
  | some q => m.updNode q fun k => { k with prev := n.prev }
  | none => m.updList lt fun l => { l with tail := n.prev }

end ListMem

/-- `list_node_destroy`: the node is freed. -/
def listNodeDestroy (m : ListMem α) : Option Addr → Outcome (ListMem α)
  | none => .ok m
  | some a => do
      let _ ← m.node (some a)
      .ok { m with nodes := m.nodes.set a none }

/-- `list_del`; it is declared to return a status and returns none. -/
def listDel (m : ListMem α) (lt : Option Addr) (node : Addr) : Outcome (ListMem α) :=
  match lt with
  | none => .ok m
  | some a => do
      let l ← m.list (some a)
      if l.size = 0 then .ok m
      else
        let n ← m.node (some node)
        let m ← m.unlinkPrev a n
        let n ← m.node (some node)
        let m ← m.unlinkNext a n
        let m ← listNodeDestroy m (some node)
        m.updList a fun l => { l with size := l.size - 1 }

/-! ### Destroying a list -/

/-- `lt->destroy_cb(value)`, where `set` tells whether the callback is set: the values it has been
called on. -/
def destroyCb (set : Bool) (calls : List α) (value : α) : Outcome (List α) :=
  if set then .ok (calls ++ [value]) else .error .nullDeref

/-- The state of the loop of `list_destroy`: the memory, `head` and `tail`, the counter of the
header, and the calls made. -/
structure ListDestroy (α : Type) where
  mem : ListMem α
  head : Option Addr
  tail : Option Addr
  size : ℕ
  calls : List α

/-- `__sync_fetch_and_sub` of one on a `size_t`. -/
def sizeSub (size : ℕ) : ℕ := (size + (2 ^ 64 - 1)) % 2 ^ 64

/-- The body of the loop of `list_destroy`: both ends are destroyed. -/
def listDestroyPair (cb : Bool) (s : ListDestroy α) : Outcome (ListDestroy α) := do
  let head ← s.mem.node s.head
  let tail ← s.mem.node s.tail
  let calls ← destroyCb cb s.calls head.value
  let calls ← destroyCb cb calls tail.value
  let mem ← listNodeDestroy s.mem s.head
  let mem ← listNodeDestroy mem s.tail
  .ok { mem := mem, head := head.next, tail := tail.prev, size := sizeSub s.size, calls := calls }

/-- One turn of the loop of `list_destroy`. -/
def listDestroyTurn (cb : Bool) (s : ListDestroy α) :
    Loop.Turn (ListDestroy α) (Outcome (ListDestroy α)) :=
  if s.head ≠ s.tail then
    match listDestroyPair cb s with
    | .error f => .done (.error f)
    | .ok s' => .again s'
  else .done (.ok s)

/-- What follows the loop: the node in the middle. -/
def listDestroyMiddle (cb : Bool) (s : ListDestroy α) : Outcome (ListDestroy α) :=
  if 0 < s.size then do
    let head ← s.mem.node s.head
    let calls ← destroyCb cb s.calls head.value
    let mem ← listNodeDestroy s.mem s.head
    .ok { mem := mem, head := none, tail := none, size := sizeSub s.size, calls := calls }
  else .ok s

/-- `list_destroy`: the memory, and the values the callback was called on.  The counter is zeroed
before the loop counts down. -/
def listDestroy (cb : Bool) (m : ListMem α) (lt : Option Addr) : Outcome (ListMem α × List α) :=
  match lt with
  | none => .ok (m, [])
  | some a => do
      let l ← m.list (some a)
      if l.size = 0 then .ok (m, [])
      else
        let start : ListDestroy α :=
          { mem := m, head := l.head, tail := l.tail, size := 0, calls := [] }
        let s ←
          if l.head = none then .ok start
          else do
            let s ← (Loop.run (listDestroyTurn cb) (m.nodes.length + 1) start).getD
              (.error .blocked)
            listDestroyMiddle cb s
        .ok ({ s.mem with lists := s.mem.lists.set a none }, s.calls)

/-! ### The values of a list -/

/-- The values met from `p` on along `next`, for at most `fuel` nodes. -/
def valuesFrom (m : ListMem α) : ℕ → Option Addr → List α
  | 0, _ => []
  | fuel + 1, p =>
      match m.node p with
      | .ok n => n.value :: valuesFrom m fuel n.next
      | .error _ => []

/-- The values met from the head of a list on. -/
def listValues (m : ListMem α) (lt : Addr) : List α :=
  match m.list (some lt) with
  | .ok l => valuesFrom m m.nodes.length l.head
  | .error _ => []

/-! ### A list that was just created -/

theorem list_listCreate (m : ListMem α) :
    (listCreate m).1.list (some (listCreate m).2) =
      .ok { head := none, tail := none, size := 0 } := by
  simp [listCreate, ListMem.list]

/-- Adding the first node to a list that was just created returns. -/
theorem listAdd_listCreate (m : ListMem α) (value : α) :
    ∃ m', listAdd (listNodeCreate (listCreate m).1 value).1 (some (listCreate m).2)
      (listNodeCreate (listCreate m).1 value).2 = .ok (m', 0) := by
  have hlist : (listNodeCreate (listCreate m).1 value).1.list (some (listCreate m).2) =
      .ok { head := none, tail := none, size := 0 } := list_listCreate m
  simp only [listAdd, hlist, Outcome.ok_bind, if_true]
  exact ⟨_, rfl⟩

/-- Adding a node makes no list. -/
theorem listAdd_length {m m' : ListMem α} {lt : Option Addr} {node : Addr} {r : ℤ}
    (h : listAdd m lt node = .ok (m', r)) : m'.lists.length = m.lists.length := by
  cases lt with
  | none =>
      cases h
      rfl
  | some a =>
      simp only [listAdd, Outcome.bind_eq_ok] at h
      obtain ⟨l, -, h⟩ := h
      split at h
      · cases h
        exact List.length_set
      · simp only [Outcome.bind_eq_ok] at h
        obtain ⟨tail, -, n, -, h⟩ := h
        cases h
        exact List.length_set
