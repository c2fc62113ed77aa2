/-
**Append-only tables that are searched for the first match.**

A table is a list of keys.  A key `r` may cover other keys; looking a key up finds the first entry
that covers it, among the first `w` entries only.  A request for a key that nothing covers appends
the key, as long as the table has room.  Since nothing is ever removed or moved, what a key resolves
to is stable; since one key may cover another, it need not be what was asked for.

Main definitions:

* `Cover` — a reflexive covering of keys by keys;
* `Cover.slot`, `Cover.register`, `Cover.table` — looking up, requesting, and the table made by a
  sequence of requests;
* `Cover.Exact` — no earlier request covers a key but the key itself.

Main results:

* `Cover.slot_foldl_register` — **resolution is stable**;
* `Cover.slot_register_self` — **a request is resolved afterwards exactly when it was before, or
  there was still room in the part that is searched**;
* `Cover.find?_table` — when every request has an entry, the table is searched as the requests are;
* `Cover.table_of_exact` — the requests that are exact make a table with one entry for each.
-/

import Mathlib.Data.Finset.Dedup
import Mathlib.Data.Finset.Card
import Mathlib.Data.List.Basic

set_option relaxedAutoImplicit false
set_option autoImplicit false

universe u

/-- A covering of keys by keys. -/
structure Cover (κ : Type u) where
  covers : κ → κ → Bool
  refl : ∀ r, covers r r = true

namespace Cover

variable {κ : Type u} (c : Cover κ) (w room : ℕ)

/-- The position of the first entry that covers a key, among the first `w`. -/
def slot (l : List κ) (s : κ) : Option ℕ := (l.take w).findIdx? (c.covers · s)

/-- A request for a key. -/
def register (l : List κ) (s : κ) : List κ :=
  if c.slot w l s = none ∧ l.length < room then l ++ [s] else l

/-- The table a sequence of requests makes. -/
def table (rs : List κ) : List κ := rs.foldl (c.register w room) []

/-- The first request that covers a key is a request for that key. -/
def Exact (rs : List κ) (t : κ) : Prop := ∀ r, rs.find? (c.covers · t) = some r → r = t

/-! ### Stability -/

variable {c w room}

theorem slot_append {l : List κ} {s : κ} {i : ℕ} (h : c.slot w l s = some i) (l' : List κ) :
    c.slot w (l ++ l') s = some i := by
  refine List.IsPrefix.findIdx?_eq_some ?_ h
  rw [List.take_append]
  exact List.prefix_append _ _

theorem prefix_register (l : List κ) (s : κ) : l <+: c.register w room l s := by
  rw [register]
  split
  · exact List.prefix_append _ _
  · exact List.prefix_rfl

theorem prefix_foldl_register (rs l : List κ) : l <+: rs.foldl (c.register w room) l := by
  induction rs generalizing l with
  | nil => exact List.prefix_rfl
  | cons r rs ih => exact (prefix_register l r).trans (ih _)

/-- **Resolution is stable**: no sequence of requests changes what a key resolves to. -/
theorem slot_foldl_register {l : List κ} {s : κ} {i : ℕ} (h : c.slot w l s = some i)
    (rs : List κ) : c.slot w (rs.foldl (c.register w room) l) s = some i := by
  obtain ⟨l', hl'⟩ := prefix_foldl_register (c := c) (w := w) rs l
  exact hl' ▸ slot_append h l'

/-! ### Resolution of a request -/

theorem slot_eq_none_iff {l : List κ} {s : κ} :
    c.slot w l s = none ↔ ∀ r ∈ l.take w, c.covers r s = false :=
  List.findIdx?_eq_none_iff

theorem slot_of_mem {l : List κ} {s : κ} (h : s ∈ l.take w) : (c.slot w l s).isSome := by
  rw [Option.isSome_iff_ne_none, Ne, slot_eq_none_iff]
  intro hnone
  exact absurd (hnone s h) (by rw [c.refl]; decide)

/-- The entry a key resolves to covers the key. -/
theorem exists_of_slot {l : List κ} {s : κ} {i : ℕ} (h : c.slot w l s = some i) :
    i < w ∧ ∃ r, l[i]? = some r ∧ c.covers r s = true := by
  obtain ⟨hlt, hr, -⟩ := List.findIdx?_eq_some_iff_getElem.1 h
  rw [List.length_take] at hlt
  refine ⟨by omega, _, ?_, hr⟩
  rw [List.getElem_take, List.getElem?_eq_getElem (by omega)]

/-- No entry before the one a key resolves to covers the key. -/
theorem first_of_slot {l : List κ} {s r : κ} {i j : ℕ} (h : c.slot w l s = some i) (hj : j < i)
    (hr : l[j]? = some r) : c.covers r s = false := by
  obtain ⟨hlt, -, hfirst⟩ := List.findIdx?_eq_some_iff_getElem.1 h
  have hnot := hfirst j hj
  rw [List.getElem_take] at hnot
  obtain ⟨_, rfl⟩ := List.getElem?_eq_some_iff.1 hr
  exact Bool.not_eq_true _ ▸ hnot

/-- Appending a key that nothing covers makes it resolve within reach of the search only. -/
theorem slot_append_self {l : List κ} {s : κ} (h : c.slot w l s = none) :
    (c.slot w (l ++ [s]) s).isSome ↔ l.length < w := by
  constructor
  · intro hsome
    by_contra hge
    rw [slot, List.take_append_of_le_length (by omega)] at hsome
    rw [slot] at h
    rw [h] at hsome
    cases hsome
  · intro hlt
    refine slot_of_mem ?_
    rw [List.take_of_length_le (by simp; omega)]
    simp

/-- **A request is resolved afterwards exactly when it was before, or there was still room in the
part that is searched.** -/
theorem slot_register_self {l : List κ} {s : κ} (hw : w ≤ room) :
    (c.slot w (c.register w room l s) s).isSome ↔ (c.slot w l s).isSome ∨ l.length < w := by
  cases hslot : c.slot w l s with
  | some i =>
      have hsame : c.register w room l s = l := by simp [register, hslot]
      simp [hsame, hslot]
  | none =>
      rw [register]
      by_cases hroom : l.length < room
      · rw [if_pos ⟨hslot, hroom⟩, slot_append_self hslot]
        simp
      · rw [if_neg (by simp [hroom]), hslot]
        simp
        omega

/-- A request that is resolved leaves the table alone. -/
theorem register_of_slot {l : List κ} {s : κ} (h : (c.slot w l s).isSome) :
    c.register w room l s = l := by
  rw [register, if_neg]
  rintro ⟨hnone, -⟩
  rw [hnone] at h
  cases h

/-! ### The table of a sequence of requests -/

theorem table_concat (rs : List κ) (t : κ) :
    c.table w room (rs ++ [t]) = c.register w room (c.table w room rs) t := by
  simp [table]

/-- Requests none of which covers a later one make the table of the requests themselves. -/
theorem table_of_pairwise {rs : List κ} (h : rs.Pairwise fun r s => c.covers r s = false)
    (hroom : rs.length ≤ room) : c.table w room rs = rs := by
  induction rs using List.reverseRecOn with
  | nil => rfl
  | append_singleton rs t ih =>
      obtain ⟨hrs, -, hlast⟩ := List.pairwise_append.1 h
      rw [List.length_append, List.length_singleton] at hroom
      rw [table_concat, ih hrs (by omega), register, if_pos]
      refine ⟨slot_eq_none_iff.2 ?_, by omega⟩
      intro r hr
      exact hlast r (List.mem_of_mem_take hr) t (by simp)

theorem mem_of_mem_table {rs : List κ} {s : κ} (h : s ∈ c.table w room rs) : s ∈ rs := by
  induction rs using List.reverseRecOn with
  | nil => exact h
  | append_singleton rs t ih =>
      rw [table_concat, register] at h
      split at h
      · rcases List.mem_append.1 h with h | h
        · exact List.mem_append_left _ (ih h)
        · exact List.mem_append_right _ h
      · exact List.mem_append_left _ (ih h)

/-- Every request resolves, as long as the whole table is searched. -/
theorem slot_table_of_mem (hw : w < room) {rs : List κ} (hlen : (c.table w room rs).length ≤ w)
    {t : κ} (ht : t ∈ rs) : (c.slot w (c.table w room rs) t).isSome := by
  induction rs using List.reverseRecOn with
  | nil => cases ht
  | append_singleton rs u ih =>
      rw [table_concat] at hlen ⊢
      have hle : (c.table w room rs).length ≤ w :=
        (prefix_register (c := c) (w := w) _ u).length_le.trans hlen
      rcases List.mem_append.1 ht with ht | ht
      · obtain ⟨i, hi⟩ := Option.isSome_iff_exists.1 (ih hle ht)
        have hpre : c.table w room rs <+: c.register w room (c.table w room rs) u :=
          prefix_register _ u
        obtain ⟨l', hl'⟩ := hpre
        rw [← hl', slot_append hi]
        rfl
      · rw [List.mem_singleton] at ht
        subst ht
        rw [slot_register_self hw.le]
        by_contra hno
        rw [not_or, Option.not_isSome_iff_eq_none] at hno
        rw [register, if_pos ⟨hno.1, by omega⟩, List.length_append, List.length_singleton] at hlen
        omega

/-- No entry covers a later one, as long as the whole table is searched. -/
theorem pairwise_table {rs : List κ} (hlen : (c.table w room rs).length ≤ w) :
    (c.table w room rs).Pairwise fun r s => c.covers r s = false := by
  induction rs using List.reverseRecOn with
  | nil => exact List.Pairwise.nil
  | append_singleton rs u ih =>
      rw [table_concat] at hlen ⊢
      have hle : (c.table w room rs).length ≤ w :=
        (prefix_register (c := c) (w := w) _ u).length_le.trans hlen
      rw [register]
      split
      · rename_i hnew
        refine List.pairwise_append.2 ⟨ih hle, List.pairwise_singleton _ _, ?_⟩
        intro r hr s hs
        rw [List.mem_singleton] at hs
        subst hs
        refine slot_eq_none_iff.1 hnew.1 r ?_
        rwa [List.take_of_length_le hle]
      · exact ih hle

theorem nodup_table {rs : List κ} (hlen : (c.table w room rs).length ≤ w) :
    (c.table w room rs).Nodup := by
  refine (pairwise_table hlen).imp ?_
  rintro r s h rfl
  rw [c.refl] at h
  cases h

/-- **When every request has an entry of its own, the table is searched as the requests are.** -/
theorem find?_table (hw : w < room) {rs : List κ} (hlen : (c.table w room rs).length ≤ w)
    (hall : ∀ t ∈ rs, t ∈ c.table w room rs) (s : κ) :
    (c.table w room rs).find? (c.covers · s) = rs.find? (c.covers · s) := by
  induction rs using List.reverseRecOn with
  | nil => rfl
  | append_singleton rs u ih =>
      rw [table_concat] at hlen hall ⊢
      have hle : (c.table w room rs).length ≤ w :=
        (prefix_register (c := c) (w := w) _ u).length_le.trans hlen
      by_cases hslot : (c.slot w (c.table w room rs) u).isSome
      · rw [register_of_slot hslot] at hall ⊢
        have hu := mem_of_mem_table (hall u (by simp))
        rw [ih hle fun t ht => hall t (List.mem_append_left _ ht), List.find?_append]
        cases hfind : rs.find? (c.covers · s) with
        | some r => rfl
        | none =>
            have := List.find?_eq_none.1 hfind u hu
            simp [this]
      · have hu : u ∉ rs := fun h => hslot (slot_table_of_mem hw hle h)
        rw [Option.not_isSome_iff_eq_none] at hslot
        rw [register, if_pos ⟨hslot, by omega⟩] at hall ⊢
        have hrs : ∀ t ∈ rs, t ∈ c.table w room rs := by
          intro t ht
          rcases List.mem_append.1 (hall t (List.mem_append_left _ ht)) with h | h
          · exact h
          · rw [List.mem_singleton] at h
            exact absurd (h ▸ ht) hu
        rw [List.find?_append, List.find?_append, ih hle hrs]

theorem Exact.of_concat {rs : List κ} {u t : κ} (h : c.Exact (rs ++ [u]) t) : c.Exact rs t := by
  intro r hr
  refine h r ?_
  rw [List.find?_append, hr]
  rfl

/-- A request that is its own first match and was not made before does not resolve. -/
theorem slot_table_eq_none {rs : List κ} (hlen : (c.table w room rs).length ≤ w) {u : κ}
    (hu : u ∉ rs) (hexact : c.Exact rs u) : c.slot w (c.table w room rs) u = none := by
  rw [slot_eq_none_iff, List.take_of_length_le hlen]
  intro r hr
  by_contra hcov
  rw [Bool.not_eq_false] at hcov
  have hfound : (rs.find? (c.covers · u)).isSome :=
    List.find?_isSome.2 ⟨r, mem_of_mem_table hr, hcov⟩
  obtain ⟨r', hr'⟩ := Option.isSome_iff_exists.1 hfound
  exact hu (hexact r' hr' ▸ List.mem_of_find?_eq_some hr')

section Card

variable [DecidableEq κ]

/-- **Requests that are exact and not too many make a table with one entry for each.** -/
theorem table_of_exact (hw : w < room) {rs : List κ} (hexact : ∀ t ∈ rs, c.Exact rs t)
    (hcard : rs.toFinset.card ≤ w) :
    (∀ t ∈ rs, t ∈ c.table w room rs) ∧ (c.table w room rs).length = rs.toFinset.card := by
  induction rs using List.reverseRecOn with
  | nil => simp [table]
  | append_singleton rs u ih =>
      have hsub : rs.toFinset ⊆ (rs ++ [u]).toFinset := by
        intro t ht
        simp only [List.mem_toFinset, List.mem_append] at ht ⊢
        exact Or.inl ht
      obtain ⟨hall, hlen⟩ := ih
        (fun t ht => (hexact t (List.mem_append_left _ ht)).of_concat)
        ((Finset.card_le_card hsub).trans hcard)
      have hle : (c.table w room rs).length ≤ w :=
        hlen ▸ (Finset.card_le_card hsub).trans hcard
      rw [table_concat]
      by_cases hu : u ∈ rs
      · rw [register_of_slot (slot_table_of_mem hw hle hu)]
        have hsame : (rs ++ [u]).toFinset = rs.toFinset := by
          ext t
          simp only [List.mem_toFinset, List.mem_append, List.mem_singleton]
          exact ⟨fun h => h.elim id fun h => h ▸ hu, Or.inl⟩
        refine ⟨?_, hsame ▸ hlen⟩
        intro t ht
        rcases List.mem_append.1 ht with ht | ht
        · exact hall t ht
        · rw [List.mem_singleton] at ht
          exact ht ▸ hall u hu
      · have hslot := slot_table_eq_none hle hu (hexact u (by simp)).of_concat
        rw [register, if_pos ⟨hslot, by omega⟩]
        refine ⟨?_, ?_⟩
        · intro t ht
          rcases List.mem_append.1 ht with ht | ht
          · exact List.mem_append_left _ (hall t ht)
          · exact List.mem_append_right _ ht
        · have hcons : (rs ++ [u]).toFinset = insert u rs.toFinset := by
            ext t
            simp only [List.mem_toFinset, List.mem_append, List.mem_singleton, Finset.mem_insert]
            exact or_comm
          rw [hcons, Finset.card_insert_of_notMem (by simpa using hu), List.length_append, hlen]
          rfl

/-- A table in which every request has an entry has one entry for each. -/
theorem length_table {rs : List κ} (hlen : (c.table w room rs).length ≤ w)
    (hall : ∀ t ∈ rs, t ∈ c.table w room rs) :
    (c.table w room rs).length = rs.toFinset.card := by
  rw [← List.toFinset_card_of_nodup (nodup_table hlen)]
  congr 1
  ext t
  simp only [List.mem_toFinset]
  exact ⟨mem_of_mem_table, hall t⟩

end Card

end Cover
