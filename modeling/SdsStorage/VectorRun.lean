/-
**Runs of pushes and insertions on one vector.**

Pushes alone make a vector an append-only sequence: whatever capacity it starts from, the capacity
is doubled whenever the table is full.  The one capacity this fails for is zero, whose double is
zero.  An insertion is a different matter: it stores at the index it is given and leaves the size
alone, so that what it stored is seen only where the index was visible before.

Main definitions:

* `pushStep`, `Appended`, `RefinesAppend` — runs of pushes, and the sequence they stand for;
* `VectorCall`, `vectorStep` — a call of either kind;
* `InsertSound`, `InsertFits` — an insertion that is seen and kept, and one within the visible
  slots.

Main results:

* `vectorPushBack_refinesAppend_iff` — **pushes append exactly when the capacity is positive**;
* `vectorInsert_sound_iff` — **an insertion is sound exactly when its index is visible**, or when
  the table can no longer be expanded.
-/

import SdsStorage.CVector

set_option relaxedAutoImplicit false
set_option autoImplicit false

universe u

variable {α : Type u}

/-! ### Runs of pushes -/

/-- `vector_size`. -/
def vectorSize (vec : CVector α) : ℕ := vec.size

/-- One `vector_push_back` of a run; a run ends where an allocation fails. -/
def pushStep (vec : CVector α) (d : α) : Outcome (CVector α) := do
  let r ← vectorPushBack vec (some d)
  if r.2 = 0 then .ok r.1 else .error .abort

/-- The vector shows the pointers `ds`, in their order, and no others. -/
structure Appended (ds : List α) (vec : CVector α) : Prop where
  size_le : vec.size ≤ vec.cap
  size_eq : vectorSize vec = ds.length
  at_eq : ∀ i, vectorAt vec i = ds[i]?

/-- After every part of the run `ds` of pushes the vector shows what was pushed, and no push
stores outside the table. -/
def RefinesAppend (vec : CVector α) (ds : List α) : Prop :=
  ∀ ds', ds' <+: ds → Outcome.Holds (Appended ds') (ds'.foldlM pushStep vec)

/-- What is seen of a sequence with one more element behind it. -/
theorem getElem?_append_singleton_eq {ds : List α} {d : α} {a : ℕ → Option α}
    (hsame : ∀ i < ds.length, a i = ds[i]?) (hnew : a ds.length = some d)
    (hbeyond : ∀ i, ds.length < i → a i = none) (i : ℕ) : a i = (ds ++ [d])[i]? := by
  rcases Nat.lt_trichotomy i ds.length with hlt | rfl | hgt
  · rw [hsame i hlt, List.getElem?_append_left hlt]
  · rw [hnew, List.getElem?_concat_length]
  · have hlen : (ds ++ [d]).length ≤ i := by
      rw [List.length_append, List.length_singleton]
      omega
    rw [hbeyond i hgt, List.getElem?_eq_none hlen]

/-- **The step lemma**: a push onto a vector of positive capacity appends. -/
theorem pushStep_appended {ds : List α} {vec : CVector α} (hcap : 0 < vec.cap)
    (h : Appended ds vec) (d : α) :
    Outcome.Holds (fun vec' => 0 < vec'.cap ∧ Appended (ds ++ [d]) vec') (pushStep vec d) := by
  obtain ⟨⟨vec', r⟩, hpush⟩ := vectorPushBack_isOk hcap d
  simp only [pushStep, hpush, Outcome.ok_bind]
  split
  · rename_i hr
    rcases vectorPushBack_ok hpush with ⟨-, hfail⟩ | ⟨-, hsize, hgrown, hnew, hsame⟩
    · omega
    · have hlen : vec.size = ds.length := h.size_eq
      refine ⟨by omega, vec'.size_le, ?_, ?_⟩
      · rw [vectorSize, hsize, hlen, List.length_append, List.length_singleton]
      · refine getElem?_append_singleton_eq ?_ ?_ ?_
        · intro i hi
          rw [hsame i (by omega), h.at_eq]
        · rw [← hlen, hnew]
        · intro i hi
          exact vectorAt_of_size_le (by omega)
  · exact fun hundef => hundef

/-- **The run lemma**: pushes onto a vector of positive capacity append, one after the other. -/
theorem foldlM_pushStep_appended (ds' : List α) :
    ∀ {ds : List α} {vec : CVector α}, 0 < vec.cap → Appended ds vec →
      Outcome.Holds (Appended (ds ++ ds')) (ds'.foldlM pushStep vec) := by
  induction ds' with
  | nil =>
      intro ds vec _ h
      rw [List.append_nil]
      exact h
  | cons d ds' ih =>
      intro ds vec hcap h
      rw [List.foldlM_cons]
      refine Outcome.Holds.bind (pushStep_appended hcap h d) ?_
      rintro vec' ⟨hcap', h'⟩
      have hrest := ih hcap' h'
      rwa [List.append_assoc, List.singleton_append] at hrest

/-- A new vector shows nothing. -/
theorem vectorInit_appended {cap : ℕ} {vec : CVector α} (h : vectorInit cap = .ok vec) :
    Appended [] vec := by
  obtain ⟨hsize, -, -⟩ := vectorInit_ok h
  refine ⟨vec.size_le, hsize, ?_⟩
  intro i
  rw [vectorAt_of_size_eq_zero hsize, List.getElem?_nil]

/-- A push onto a table of no slots stores outside it: twice no slots is no slots. -/
theorem pushStep_of_cap_eq_zero {vec : CVector α} (hcap : vec.cap = 0) (d : α) :
    pushStep vec d = .error .outOfBounds := by
  have hsize : vec.size = 0 := by
    have := vec.size_le
    omega
  simp [pushStep, vectorPushBack, vectorGrow, vectorExpand, callocServes, hcap, hsize]

/-- **Pushes append exactly when the capacity is positive**, or nothing is pushed. -/
theorem vectorPushBack_refinesAppend_iff {cap : ℕ} {vec : CVector α}
    (h : vectorInit cap = .ok vec) (ds : List α) :
    RefinesAppend vec ds ↔ 0 < cap ∨ ds = [] := by
  obtain ⟨-, hcap, -⟩ := vectorInit_ok h
  constructor
  · intro hruns
    rcases Nat.eq_zero_or_pos cap with hzero | hpos
    · cases ds with
      | nil => exact Or.inr rfl
      | cons d ds =>
          have hfirst := hruns [d] (by simp)
          rw [List.foldlM_cons, pushStep_of_cap_eq_zero (by omega)] at hfirst
          exact absurd trivial hfirst
    · exact Or.inl hpos
  · rintro (hpos | rfl) ds' hds'
    · have hrun := foldlM_pushStep_appended ds' (by omega) (vectorInit_appended h)
      rwa [List.nil_append] at hrun
    · rw [List.prefix_nil.1 hds']
      exact vectorInit_appended h

/-- A table of two slots takes three pushes. -/
theorem vectorPushBack_refinesAppend_iff_two :
    ∃ vec : CVector ℕ, vectorInit 2 = .ok vec ∧ RefinesAppend vec [7, 8, 9] := by
  obtain ⟨vec, hinit⟩ : ∃ vec : CVector ℕ, vectorInit 2 = .ok vec := ⟨_, rfl⟩
  exact ⟨vec, hinit, (vectorPushBack_refinesAppend_iff hinit [7, 8, 9]).2 (Or.inl Nat.two_pos)⟩

/-- A vector made for no pointers does not take the first one. -/
theorem vectorInit_zero_not_refinesAppend :
    ∃ vec : CVector ℕ, vectorInit 0 = .ok vec ∧ ¬ RefinesAppend vec [7] := by
  refine ⟨_, rfl, ?_⟩
  intro h
  have hfirst := h [7] (List.prefix_refl _)
  rw [List.foldlM_cons, pushStep_of_cap_eq_zero (by rfl)] at hfirst
  exact hfirst trivial

/-! ### Runs of pushes and insertions -/

/-- A call on a vector. -/
inductive VectorCall (α : Type u) where
  | pushBack (data : Option α)
  | insert (index : ℕ) (data : Option α)

/-- The call of a run. -/
def vectorStep (vec : CVector α) : VectorCall α → Outcome (CVector α)
  | .pushBack data => do
      let r ← vectorPushBack vec data
      .ok r.1
  | .insert index data => do
      let r ← vectorInsert vec index data
      .ok r.1

/-- The vectors show the same. -/
def SameContents (vec vec' : CVector α) : Prop :=
  vec'.size = vec.size ∧ ∀ i, vectorAt vec' i = vectorAt vec i

/-- What an insertion is to leave: `d` is stored inside the table, seen at its index, and kept by
every later push. -/
structure Inserted (vec : CVector α) (index : ℕ) (d : α) (vec' : CVector α) : Prop where
  lt_cap : index < vec'.cap
  at_index : vectorAt vec' index = some d
  at_other : ∀ i, i ≠ index → vectorAt vec' i = vectorAt vec i
  kept : ∀ (ds : List (Option α)) (vec'' : CVector α),
    (ds.map VectorCall.pushBack).foldlM vectorStep vec' = .ok vec'' →
      vectorAt vec'' index = some d

/-- An insertion of a pointer either inserts and returns 0, or returns -1 and leaves the contents
as they were; nothing is asked of the other calls. -/
def InsertSound (vec : CVector α) : VectorCall α → Prop
  | .insert index (some d) =>
      ∃ vec' r, vectorInsert vec index (some d) = .ok (vec', r) ∧
        ((r = 0 ∧ Inserted vec index d vec') ∨ (r = -1 ∧ SameContents vec vec'))
  | _ => True

/-- The table is full, and there is no table of twice its slots. -/
def NoRoom (vec : CVector α) : Prop := vec.size = vec.cap ∧ ¬ callocServes (vec.cap * 2)

/-- The insertions that keep to the visible slots, or find no room to expand into. -/
def InsertFits (vec : CVector α) : VectorCall α → Prop
  | .insert index (some _) => index < vec.size ∨ NoRoom vec
  | _ => True

/-! ### One insertion -/

theorem callocServes_double_iff (vec : CVector α) :
    callocServes (vec.cap * 2 % 2 ^ 64) ↔ callocServes (vec.cap * 2) := by
  have hserves := vec.serves
  rw [callocServes] at hserves
  rw [Nat.mod_eq_of_lt (by omega)]

/-- Expanding never writes past the new table: it fails only for want of room. -/
theorem vectorGrow_cases (vec : CVector α) :
    (vectorGrow vec = .ok none ∧ NoRoom vec) ∨
      ((∃ w, vectorGrow vec = .ok (some w)) ∧ ¬ NoRoom vec) := by
  have hserves := vec.serves
  have hle := vec.size_le
  rw [callocServes] at hserves
  rw [vectorGrow, NoRoom]
  split
  · rename_i hfull
    rw [vectorExpand]
    split
    · rename_i hyes
      rw [callocServes_double_iff] at hyes
      rw [dif_pos (by omega)]
      exact Or.inr ⟨⟨_, rfl⟩, fun h => h.2 hyes⟩
    · rename_i hno
      rw [callocServes_double_iff] at hno
      exact Or.inl ⟨rfl, hfull, hno⟩
  · rename_i hroom
    exact Or.inr ⟨⟨vec, rfl⟩, fun h => hroom h.1⟩

/-- **What an insertion does**: it finds no room, it stores in the grown table, or it stores
outside of it. -/
theorem vectorInsert_cases (vec : CVector α) (index : ℕ) (d : α) :
    (vectorInsert vec index (some d) = .ok (vec, -1) ∧ NoRoom vec) ∨
      (¬ NoRoom vec ∧ ∃ vec', vectorInsert vec index (some d) = .ok (vec', 0) ∧ index < vec'.cap ∧
        vec'.size = vec.size ∧ (index < vec.size → vectorAt vec' index = some d) ∧
        ∀ i, i ≠ index → vectorAt vec' i = vectorAt vec i) ∨
      (¬ NoRoom vec ∧ vectorInsert vec index (some d) = .error .outOfBounds ∧
        vec.size ≤ index) := by
  rcases vectorGrow_cases vec with ⟨hnone, hno⟩ | ⟨⟨w, hw⟩, hroom⟩
  · refine Or.inl ⟨?_, hno⟩
    simp only [vectorInsert, hnone, Outcome.ok_bind]
  · obtain ⟨hsize, hcap, hat⟩ := vectorGrow_ok hw
    have hle := w.size_le
    have hlen := w.length_eq
    simp only [vectorInsert, hw, Outcome.ok_bind]
    split
    · rename_i hi
      refine Or.inr (Or.inl ⟨hroom, _, rfl, hi, hsize, ?_, ?_⟩)
      · intro hvis
        rw [vectorAt_eq_getElem? (by dsimp only; omega)]
        dsimp only
        rw [List.getElem?_set_self (by omega)]
        rfl
      · intro i hne
        rw [← hat i]
        rcases Nat.lt_or_ge i w.size with hlt | hge
        · rw [vectorAt_eq_getElem? (by dsimp only; omega), vectorAt_eq_getElem? hlt]
          dsimp only
          rw [List.getElem?_set_ne (Ne.symm hne)]
        · rw [vectorAt_of_size_le hge, vectorAt_of_size_le (by dsimp only; omega)]
    · exact Or.inr (Or.inr ⟨hroom, rfl, by omega⟩)

/-- A push keeps what is visible. -/
theorem vectorStep_pushBack_keeps {vec vec' : CVector α} {data : Option α} {index : ℕ} {d : α}
    (h : vectorStep vec (.pushBack data) = .ok vec') (hat : vectorAt vec index = some d) :
    vectorAt vec' index = some d := by
  have hi := lt_size_of_vectorAt hat
  cases data with
  | none =>
      cases h
      exact hat
  | some e =>
      simp only [vectorStep, Outcome.bind_eq_ok] at h
      obtain ⟨⟨w, r⟩, hpush, hw⟩ := h
      cases hw
      rcases vectorPushBack_ok hpush with ⟨rfl, -⟩ | ⟨-, -, -, -, hsame⟩
      · exact hat
      · exact (hsame index hi).trans hat

/-- So does a run of pushes. -/
theorem foldlM_pushBack_keeps {vec vec' : CVector α} {index : ℕ} {d : α} (ds : List (Option α))
    (h : (ds.map VectorCall.pushBack).foldlM vectorStep vec = .ok vec')
    (hat : vectorAt vec index = some d) : vectorAt vec' index = some d := by
  refine Outcome.foldlM_ok_inv (I := fun v => vectorAt v index = some d) h hat ?_
  intro v w call hcall hstep hv
  obtain ⟨data, -, rfl⟩ := List.mem_map.1 hcall
  exact vectorStep_pushBack_keeps hstep hv

/-- Whatever vector it is made on, an insertion is sound exactly when it fits. -/
theorem insertSound_iff_fits (vec : CVector α) (call : VectorCall α) :
    InsertSound vec call ↔ InsertFits vec call := by
  rcases call with data | ⟨index, _ | d⟩
  · exact Iff.rfl
  · exact Iff.rfl
  · simp only [InsertSound, InsertFits]
    rcases vectorInsert_cases vec index d with
      ⟨hins, hno⟩ | ⟨hroom, w, hins, hcap, hsize, hself, hother⟩ | ⟨hroom, hins, hge⟩
    · constructor
      · intro _
        exact Or.inr hno
      · intro _
        exact ⟨vec, -1, hins, Or.inr ⟨rfl, rfl, fun _ => rfl⟩⟩
    · constructor
      · rintro ⟨vec', r, hins', hres⟩
        rw [hins] at hins'
        cases hins'
        rcases hres with ⟨-, h⟩ | ⟨hr, -⟩
        · have hlt := lt_size_of_vectorAt h.at_index
          exact Or.inl (by omega)
        · exact absurd hr (by decide)
      · rintro (hlt | hno)
        · refine ⟨w, 0, hins, Or.inl ⟨rfl, hcap, hself hlt, hother, ?_⟩⟩
          intro ds vec'' hrun
          exact foldlM_pushBack_keeps ds hrun (hself hlt)
        · exact absurd hno hroom
    · constructor
      · rintro ⟨vec', r, hins', -⟩
        rw [hins] at hins'
        cases hins'
      · rintro (hlt | hno)
        · omega
        · exact absurd hno hroom

/-! ### Runs of both -/

/-- **An insertion is sound exactly when its index is visible**, or the table can no longer be
expanded: this holds of each call of every run of pushes and insertions on a new vector. -/
theorem vectorInsert_sound_iff (cap : ℕ) (calls : List (VectorCall α)) :
    Outcome.Holds
      (Outcome.EachCall (fun vec call => InsertSound vec call ↔ InsertFits vec call) vectorStep
        calls)
      (vectorInit cap) := by
  cases hinit : vectorInit (α := α) cap with
  | error e =>
      rw [vectorInit] at hinit
      split at hinit
      · cases hinit
      · cases hinit
        exact fun hundef => hundef
  | ok vec =>
      intro l₁ call l₂ _ v _
      exact insertSound_iff_fits v call

/-- The first insertion into a new vector of four slots returns 0 and is not seen. -/
theorem vectorInsert_not_sound :
    ∃ vec : CVector ℕ, vectorInit 4 = .ok vec ∧ ¬ InsertSound vec (.insert 0 (some 7)) := by
  refine ⟨_, rfl, ?_⟩
  rintro ⟨vec', r, hins, ⟨-, h⟩ | ⟨hr, -⟩⟩
  · have hsize := lt_size_of_vectorAt h.at_index
    cases hins
    exact absurd hsize (by decide)
  · cases hins
    exact absurd hr (by decide)
