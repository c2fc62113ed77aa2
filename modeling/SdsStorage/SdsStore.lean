/-
**The store and `sds_store_add`.**

The store is a vector with room for 8192 pointers.  `sds_store_add` treats it as a hash table of
lists: it computes a slot from the name of the set and the number of slots in use, looks the slot
up, inserts a new list there if it finds none, and adds the set to the list.  Insertion does not
count the slot as used, so every call computes the same slot, finds nothing there, and inserts a
list that nothing can find.

Main definitions:

* `SdsStore`, `sdsStoreInit`, `sdsStoreAdd` — the store and its operations;
* `AddRun`, `addStep` — a store, and the sets added to it so far;
* `AddedVisible` — every set added is in exactly one list the store shows.

Main results:

* `sdsStoreInit_ok`, `sdsStoreAdd_eq` — a new store, and what an addition does to it;
* `adds_visible_iff` — **the sets added stay in the store exactly when none is added**.
-/

import SdsStorage.Bucketset
import SdsStorage.Conf

set_option relaxedAutoImplicit false
set_option autoImplicit false

/-! ### The store -/

/-- `sds_store`; its mutex is released by every call that takes it. -/
structure SdsStore where
  sets : CVector Addr
  cf : Conf

/-- `SDS_STORE_MAX_SET`. -/
def sdsStoreMaxSet : ℕ := 8192

/-- `sds_store_init` of pointers that are not null. -/
def sdsStoreInit (jsonLoads : Bytes → Option Json) (io : ConfIo) : Outcome SdsStore := do
  let cf ← confCreate jsonLoads io
  match cf with
  | none => .error .abort
  | some cf => do
      let sets ← vectorInit sdsStoreMaxSet
      .ok { sets := sets, cf := cf }

theorem sdsStoreInit_ok {jsonLoads : Bytes → Option Json} {io : ConfIo} {ss : SdsStore}
    (h : sdsStoreInit jsonLoads io = .ok ss) :
    ss.sets.size = 0 ∧ ss.sets.cap = sdsStoreMaxSet ∧
      confCreate jsonLoads io = .ok (some ss.cf) := by
  rw [sdsStoreInit] at h
  rw [Outcome.bind_eq_ok] at h
  obtain ⟨cf, hcf, h⟩ := h
  cases cf with
  | none => cases h
  | some cf =>
      rw [Outcome.bind_eq_ok] at h
      obtain ⟨sets, hsets, h⟩ := h
      cases h
      obtain ⟨hsize, hcap, -⟩ := vectorInit_ok hsets
      exact ⟨hsize, hcap, hcf⟩

/-- The JSON text of an object without members. -/
def emptyObject : Bytes := [123, 125]

/-- A parser, as far as that text goes. -/
def parseEmptyObject (text : Bytes) : Option Json :=
  if text = emptyObject then some (.object []) else none

/-- A start of the server with that text as its configuration. -/
def emptyObjectIo : ConfIo := { file := .bytes emptyObject, stray := .null, cf := .null }

theorem sdsStoreInit_emptyObject : ∃ ss, sdsStoreInit parseEmptyObject emptyObjectIo = .ok ss ∧
    ss.cf.dataDir = Slice.zero := by
  obtain ⟨cf, hcf, hdir⟩ : ∃ cf, confFields .null (.object []) = .ok cf ∧ cf.dataDir = Slice.zero :=
    ⟨_, rfl, rfl⟩
  have hconf : confCreate parseEmptyObject emptyObjectIo = .ok (some cf) :=
    confCreate_isOk (by decide) (by decide) (if_pos rfl) hcf
  have hserves : callocServes sdsStoreMaxSet := by decide
  obtain ⟨sets, hsets⟩ : ∃ sets : CVector Addr, _ := vectorInit_isOk hserves
  simp only [sdsStoreInit, hconf, hsets, Outcome.ok_bind]
  exact ⟨_, rfl, hdir⟩

/-! ### `sds_store_add` -/

/-- The slot of a set in a store that has `size` slots in use. -/
def sdsStoreIndex (bst : Bucketset) (size : ℕ) : Outcome ℕ :=
  (Hash.gfsHashfn (sliceValue bst.setName) (sliceSize bst.setName)).map fun hash =>
    Hash.hashJumpConsistent hash (CInt.toInt32 (CInt.toUInt32 size))

/-- The list `sds_store_add` adds to: the one it finds at the slot, else a new one, which it inserts
there. -/
def sdsStoreList (lists : ListMem Addr) (ss : SdsStore) (index : ℕ) :
    Outcome (ListMem Addr × SdsStore × Addr) :=
  match vectorAt ss.sets index with
  | some lt => .ok (lists, ss, lt)
  | none =>
      (vectorInsert ss.sets index (some (listCreate lists).2)).bind fun sets =>
        .ok ((listCreate lists).1, { ss with sets := sets.1 }, (listCreate lists).2)

/-- `sds_store_add`: the lists and the store.  It always returns 0. -/
def sdsStoreAdd (m : Memory) (lists : ListMem Addr) (ss : SdsStore) (bst : Addr) :
    Outcome (ListMem Addr × SdsStore) := do
  let set ← m.bucketset (some bst)
  let index ← sdsStoreIndex set ss.sets.size
  let found ← sdsStoreList lists ss index
  let node := listNodeCreate found.1 bst
  let added ← listAdd node.1 (some found.2.2) node.2
  .ok (added.1, found.2.1)

/-- The name of a set, read back as a string, can be hashed. -/
theorem gfsHashfn_of_represents {se : Slice} {s : Bytes} (h : se.Represents s) :
    ∃ hash, Hash.gfsHashfn (sliceValue se) (sliceSize se) = .ok hash := by
  rw [h.value_eq, h.size_eq]
  split
  · rename_i hnil
    rw [hnil]
    exact ⟨_, rfl⟩
  · exact Hash.gfsHashfn_isOk (by simp [CString.cstr])

/-- **What an addition does to a store that shows nothing**: it inserts a list at slot 1, and the
store still shows nothing. -/
theorem sdsStoreAdd_eq {m : Memory} (lists : ListMem Addr) {ss : SdsStore} {bst : Addr}
    {set : Bucketset} {s : Bytes} (hbst : m.bucketset (some bst) = .ok set)
    (hname : set.setName.Represents s) (hsize : ss.sets.size = 0) (hcap : 1 < ss.sets.cap) :
    ∃ lists' ss', sdsStoreAdd m lists ss bst = .ok (lists', ss') ∧ ss'.sets.size = 0 ∧
      ss'.sets.cap = ss.sets.cap := by
  obtain ⟨hash, hhash⟩ := gfsHashfn_of_represents hname
  have hindex : sdsStoreIndex set ss.sets.size = .ok 1 := by
    have hnum : CInt.toInt32 (CInt.toUInt32 ((0 : ℕ) : ℤ)) ≤ 0 := by decide
    rw [sdsStoreIndex, hhash, hsize, Except.map, Hash.hashJumpConsistent_of_nonpos hnum]
  obtain ⟨sets, hinsert, hsize', hcap'⟩ :=
    vectorInsert_of_lt (by omega) hcap (listCreate lists).2
  have hfound : sdsStoreList lists ss 1 =
      .ok ((listCreate lists).1, { ss with sets := sets }, (listCreate lists).2) := by
    simp only [sdsStoreList, vectorAt_of_size_eq_zero hsize, hinsert, Except.bind]
  obtain ⟨lists', hadd⟩ := listAdd_listCreate lists bst
  simp only [sdsStoreAdd, hbst, hindex, hfound, hadd, Outcome.ok_bind]
  exact ⟨_, _, rfl, hsize'.trans hsize, hcap'⟩

/-! ### Runs of additions -/

/-- A store with its lists, and the sets added to it so far. -/
structure AddRun where
  lists : ListMem Addr
  ss : SdsStore
  added : List Addr

/-- The state a run starts from. -/
def AddRun.start (ss : SdsStore) : AddRun := { lists := ListMem.empty, ss := ss, added := [] }

/-- One addition of a run. -/
def addStep (m : Memory) (s : AddRun) (bst : Addr) : Outcome AddRun := do
  let r ← sdsStoreAdd m s.lists s.ss bst
  .ok { lists := r.1, ss := r.2, added := s.added ++ [bst] }

/-- The lists the store shows. -/
def AddRun.Shows (s : AddRun) (lt : Addr) : Prop := ∃ i, vectorAt s.ss.sets i = some lt

/-- Every set added is in exactly one list the store shows. -/
def AddedVisible (s : AddRun) : Prop :=
  ∀ bst ∈ s.added, ∃! lt, s.Shows lt ∧ bst ∈ listValues s.lists lt

/-- The sets of a run are sets that were made, and have a name. -/
def Named (m : Memory) (adds : List Addr) : Prop :=
  ∀ bst ∈ adds, ∃ set s, m.bucketset (some bst) = .ok set ∧ set.setName.Represents s

theorem not_addedVisible {s : AddRun} (hsize : s.ss.sets.size = 0) (hadded : s.added ≠ []) :
    ¬ AddedVisible s := by
  intro h
  obtain ⟨bst, hbst⟩ := List.exists_mem_of_ne_nil _ hadded
  obtain ⟨lt, ⟨⟨i, hi⟩, -⟩, -⟩ := h bst hbst
  rw [vectorAt_of_size_eq_zero hsize] at hi
  cases hi

/-- A run with an addition loses it. -/
theorem not_always_addedVisible {ss : SdsStore} (hsize : ss.sets.size = 0)
    (hcap : ss.sets.cap = sdsStoreMaxSet) {m : Memory} {bst : Addr} {adds : List Addr}
    (hadds : Named m (bst :: adds)) :
    ¬ Outcome.Always AddedVisible (addStep m) (bst :: adds) (AddRun.start ss) := by
  rw [Outcome.always_cons]
  rintro ⟨-, h⟩
  obtain ⟨set, s, hbst, hname⟩ := hadds bst (by simp)
  have hroom : 1 < ss.sets.cap := by rw [hcap]; decide
  obtain ⟨lists', ss', hadd, hsize', -⟩ := sdsStoreAdd_eq ListMem.empty hbst hname hsize hroom
  have hstep : addStep m (AddRun.start ss) bst =
      .ok { lists := lists', ss := ss', added := [bst] } := by
    simp only [addStep, AddRun.start, hadd, Outcome.ok_bind, List.nil_append]
  rw [hstep, Outcome.holds_ok] at h
  exact not_addedVisible hsize' (List.cons_ne_nil _ _) h.start

/-- **The sets added stay in the store exactly when none is added.**  For every store set up by
`sds_store_init` and every sequence of additions of sets: every set added is in exactly one list
the store shows, in every state of the run and with nothing stored outside the vector, exactly
when the sequence is empty. -/
theorem adds_visible_iff {jsonLoads : Bytes → Option Json} {io : ConfIo} {ss : SdsStore}
    (hinit : sdsStoreInit jsonLoads io = .ok ss) {m : Memory} {adds : List Addr}
    (hadds : Named m adds) :
    Outcome.Always AddedVisible (addStep m) adds (AddRun.start ss) ↔ adds = [] := by
  obtain ⟨hsize, hcap, -⟩ := sdsStoreInit_ok hinit
  cases adds with
  | nil =>
      refine iff_of_true (Outcome.always_nil.2 ?_) rfl
      intro bst hbst
      cases hbst
  | cons bst adds =>
      exact iff_of_false (not_always_addedVisible hsize hcap hadds) (List.cons_ne_nil _ _)

theorem named_two {m : Memory} {fs : Fs} {a : Addr}
    (h : bucketsetCreate Memory.empty Fs.empty
      (fun _ => { openFails := false, fallocateFails := false }) (.mem [115, 0]) .null 2 0 64 =
      .ok (m, fs, a)) : Named m [a] := by
  intro bst hbst
  rw [List.mem_singleton] at hbst
  obtain ⟨set, hset, hname⟩ := bucketsetCreate_name (s := [115]) (t := []) (by decide) h
  exact ⟨set, [115], hbst ▸ hset, hname⟩

/-- The result applied to one addition. -/
theorem adds_visible_iff_one :
    ∃ ss m a, sdsStoreInit parseEmptyObject emptyObjectIo = .ok ss ∧
      (Outcome.Always AddedVisible (addStep m) [a] (AddRun.start ss) ↔ [a] = []) := by
  obtain ⟨ss, hss, -⟩ := sdsStoreInit_emptyObject
  obtain ⟨m, fs, a, h⟩ := bucketsetCreate_two_isOk
  exact ⟨ss, m, a, hss, adds_visible_iff hss (named_two h)⟩

/-- One set that is added to a new store cannot be found in it. -/
theorem add_one_not_visible :
    ∃ ss m fs a, sdsStoreInit parseEmptyObject emptyObjectIo = .ok ss ∧
      bucketsetCreate Memory.empty Fs.empty
        (fun _ => { openFails := false, fallocateFails := false }) (.mem [115, 0]) .null 2 0 64 =
        .ok (m, fs, a) ∧
      ¬ Outcome.Always AddedVisible (addStep m) [a] (AddRun.start ss) := by
  obtain ⟨ss, hss, -⟩ := sdsStoreInit_emptyObject
  obtain ⟨hsize, hcap, -⟩ := sdsStoreInit_ok hss
  obtain ⟨m, fs, a, h⟩ := bucketsetCreate_two_isOk
  exact ⟨ss, m, fs, a, hss, h, not_always_addedVisible hsize hcap (named_two h)⟩
