/-
**Segments of nodes linked both ways.**

Nodes carry two links, each leading to a node or nowhere.  A segment is a sequence of nodes whose
links lead to each other in the order of the sequence, with given links out of its two ends.  The
two views this file is about are the local one, in which a segment is cut in two or has one of its
ends redirected, and the walks along one link, which see the whole sequence.

Main definitions:

* `DoublyLinked.Seg` — a segment and the links out of its ends;
* `DoublyLinked.Follows` — the nodes met along one link.

Main results:

* `DoublyLinked.seg_append` — a segment is two segments that meet;
* `DoublyLinked.seg_reverse` — read backwards, with the links exchanged, it is a segment again;
* `DoublyLinked.Seg.redirect_last`, `DoublyLinked.Seg.redirect_first` — one end is redirected;
* `DoublyLinked.Seg.append_node`, `DoublyLinked.Seg.remove` — **a node is appended, and removed**;
* `DoublyLinked.Seg.follows`, `DoublyLinked.Follows.unique` — a walk meets exactly the sequence.
-/

import Mathlib.Data.List.Nodup

set_option relaxedAutoImplicit false
set_option autoImplicit false

namespace DoublyLinked

variable {ι : Type*} {next prev next' prev' : ι → Option ι}

/-- The nodes of `s` are linked both ways in their order; the first leads back to `p`, and the last
leads on to `q`. -/
def Seg (next prev : ι → Option ι) : Option ι → List ι → Option ι → Prop
  | _, [], _ => True
  | p, a :: s, q => prev a = p ∧ next a = s.head?.or q ∧ Seg next prev (some a) s q

@[simp] theorem seg_nil (p q : Option ι) : Seg next prev p [] q := trivial

theorem seg_cons {p q : Option ι} {a : ι} {s : List ι} :
    Seg next prev p (a :: s) q ↔
      prev a = p ∧ next a = s.head?.or q ∧ Seg next prev (some a) s q := Iff.rfl

theorem seg_singleton {p q : Option ι} {a : ι} :
    Seg next prev p [a] q ↔ prev a = p ∧ next a = q := by
  simp [seg_cons]

/-- A segment only depends on the links of its nodes. -/
theorem Seg.congr {p q : Option ι} {s : List ι} (h : Seg next prev p s q)
    (hnext : ∀ a ∈ s, next' a = next a) (hprev : ∀ a ∈ s, prev' a = prev a) :
    Seg next' prev' p s q := by
  induction s generalizing p with
  | nil => trivial
  | cons a s ih =>
      obtain ⟨hp, hn, hrest⟩ := h
      refine ⟨(hprev a (by simp)).trans hp, (hnext a (by simp)).trans hn, ih hrest ?_ ?_⟩
      · exact fun b hb => hnext b (List.mem_cons_of_mem a hb)
      · exact fun b hb => hprev b (List.mem_cons_of_mem a hb)

/-- **A segment is two segments that meet.** -/
theorem seg_append {p q : Option ι} {s t : List ι} :
    Seg next prev p (s ++ t) q ↔
      Seg next prev p s (t.head?.or q) ∧ Seg next prev (s.getLast?.or p) t q := by
  induction s generalizing p with
  | nil => simp
  | cons a s ih =>
      have hlast : (a :: s).getLast?.or p = s.getLast?.or (some a) := by
        rw [List.getLast?_cons]
        cases s.getLast? <;> rfl
      rw [List.cons_append, seg_cons, seg_cons, ih, List.head?_append, Option.or_assoc, hlast]
      simp only [and_assoc]

/-- **Read backwards**, with the links exchanged, a segment is a segment. -/
theorem seg_reverse {p q : Option ι} {s : List ι} :
    Seg prev next q s.reverse p ↔ Seg next prev p s q := by
  induction s generalizing p with
  | nil => simp
  | cons a s ih =>
      rw [List.reverse_cons, seg_append, seg_singleton, seg_cons, List.head?_cons, Option.some_or,
        ih, List.getLast?_reverse]
      constructor
      · rintro ⟨hrest, hn, hp⟩
        exact ⟨hp, hn, hrest⟩
      · rintro ⟨hp, hn, hrest⟩
        exact ⟨hrest, hn, hp⟩

/-! ### Redirecting an end -/

/-- The link out of the last node is redirected. -/
theorem Seg.redirect_last {p q q' : Option ι} {s : List ι} (h : Seg next prev p s q)
    (hnd : s.Nodup) (hlast : ∀ a, s.getLast? = some a → next' a = q')
    (hnext : ∀ a ∈ s, s.getLast? ≠ some a → next' a = next a)
    (hprev : ∀ a ∈ s, prev' a = prev a) : Seg next' prev' p s q' := by
  rcases List.eq_nil_or_concat s with rfl | ⟨l, b, rfl⟩
  · trivial
  · rw [List.concat_eq_append] at h hnd hlast hnext hprev ⊢
    rw [List.getLast?_concat] at hlast hnext
    rw [seg_append, seg_singleton] at h ⊢
    obtain ⟨hl, hp, -⟩ := h
    have hb : b ∉ l := by
      intro hmem
      exact List.disjoint_of_nodup_append hnd hmem (List.mem_singleton_self b)
    refine ⟨hl.congr ?_ ?_, (hprev b (by simp)).trans hp, hlast b rfl⟩
    · intro a ha
      refine hnext a (List.mem_append_left _ ha) ?_
      intro hab
      exact hb (Option.some.inj hab ▸ ha)
    · exact fun a ha => hprev a (List.mem_append_left _ ha)

/-- The link out of the first node is redirected. -/
theorem Seg.redirect_first {p p' q : Option ι} {s : List ι} (h : Seg next prev p s q)
    (hnd : s.Nodup) (hfirst : ∀ a, s.head? = some a → prev' a = p')
    (hprev : ∀ a ∈ s, s.head? ≠ some a → prev' a = prev a)
    (hnext : ∀ a ∈ s, next' a = next a) : Seg next' prev' p' s q := by
  have hback := seg_reverse.2 h
  rw [← seg_reverse]
  refine hback.redirect_last (List.nodup_reverse.2 hnd) ?_ ?_ ?_
  · intro a ha
    exact hfirst a (by rwa [List.getLast?_reverse] at ha)
  · intro a ha hne
    rw [List.getLast?_reverse] at hne
    exact hprev a (List.mem_reverse.1 ha) hne
  · exact fun a ha => hnext a (List.mem_reverse.1 ha)

/-! ### Appending and removing a node -/

/-- **A node is appended**: the last node is made to lead to it, and it to the last node. -/
theorem Seg.append_node {q q' : Option ι} {s : List ι} {a : ι} (h : Seg next prev none s q)
    (hnd : s.Nodup) (hlast : ∀ b, s.getLast? = some b → next' b = some a)
    (hnext : ∀ b ∈ s, s.getLast? ≠ some b → next' b = next b)
    (hprev : ∀ b ∈ s, prev' b = prev b) (hback : prev' a = s.getLast?) (hon : next' a = q') :
    Seg next' prev' none (s ++ [a]) q' := by
  rw [seg_append, seg_singleton]
  refine ⟨?_, by rw [Option.or_none]; exact hback, hon⟩
  exact h.redirect_last hnd hlast hnext hprev

/-- **A node is removed**: its two neighbours are made to lead to each other. -/
theorem Seg.remove {p q : Option ι} {l r : List ι} {a : ι} (h : Seg next prev p (l ++ a :: r) q)
    (hnd : (l ++ a :: r).Nodup)
    (hlast : ∀ b, l.getLast? = some b → next' b = r.head?.or q)
    (hfirst : ∀ b, r.head? = some b → prev' b = l.getLast?.or p)
    (hnext : ∀ b ∈ l ++ r, l.getLast? ≠ some b → next' b = next b)
    (hprev : ∀ b ∈ l ++ r, r.head? ≠ some b → prev' b = prev b) :
    Seg next' prev' p (l ++ r) q := by
  rw [seg_append, seg_cons] at h
  obtain ⟨hl, -, -, hr⟩ := h
  have hdisj : List.Disjoint l (a :: r) := List.disjoint_of_nodup_append hnd
  have hndl : l.Nodup := hnd.of_append_left
  have hndr : r.Nodup := hnd.of_append_right.of_cons
  -- the end of one part is no node of the other
  have hlr : ∀ b ∈ l, r.head? ≠ some b := by
    intro b hb hhead
    exact hdisj hb (List.mem_cons_of_mem a (List.mem_of_head? hhead))
  have hrl : ∀ b ∈ r, l.getLast? ≠ some b := by
    intro b hb htail
    exact hdisj (List.mem_of_getLast? htail) (List.mem_cons_of_mem a hb)
  rw [seg_append]
  constructor
  · refine hl.redirect_last hndl hlast ?_ ?_
    · exact fun b hb => hnext b (List.mem_append_left r hb)
    · exact fun b hb => hprev b (List.mem_append_left r hb) (hlr b hb)
  · refine hr.redirect_first hndr hfirst ?_ ?_
    · exact fun b hb => hprev b (List.mem_append_right l hb)
    · exact fun b hb => hnext b (List.mem_append_right l hb) (hrl b hb)

/-! ### Walks -/

/-- The nodes met from `p` on along `link`, until it leads nowhere. -/
def Follows (link : ι → Option ι) : Option ι → List ι → Prop
  | p, [] => p = none
  | p, a :: s => p = some a ∧ Follows link (link a) s

/-- A walk meets one sequence of nodes. -/
theorem Follows.unique {link : ι → Option ι} {p : Option ι} {s t : List ι}
    (hs : Follows link p s) (ht : Follows link p t) : s = t := by
  induction s generalizing p t with
  | nil =>
      cases t with
      | nil => rfl
      | cons b t =>
          cases hs
          cases ht.1
  | cons a s ih =>
      obtain ⟨rfl, hs⟩ := hs
      cases t with
      | nil => cases ht
      | cons b t =>
          obtain ⟨hab, ht⟩ := ht
          cases hab
          rw [ih hs ht]

/-- Forwards, a walk meets the nodes of a segment in their order. -/
theorem Seg.follows {p : Option ι} {s : List ι} (h : Seg next prev p s none) :
    Follows next s.head? s := by
  induction s generalizing p with
  | nil => rfl
  | cons a s ih =>
      obtain ⟨-, hn, hrest⟩ := h
      rw [Option.or_none] at hn
      exact ⟨rfl, hn ▸ ih hrest⟩

/-- Backwards, it meets them in the reverse order. -/
theorem Seg.follows_reverse {q : Option ι} {s : List ι} (h : Seg next prev none s q) :
    Follows prev s.getLast? s.reverse := by
  rw [← List.head?_reverse]
  exact (seg_reverse.2 h).follows

end DoublyLinked
