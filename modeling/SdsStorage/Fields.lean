/-
**Text with fields behind it.**

A line is put together from a free text and a number of fields, each behind a separator.  The text
may contain anything, separators included; a field may not contain the separator it stands behind.
Such a line is read from the right, and there is one way to read it.

Main definitions:

* `Fields.render` — the line of a text and its fields;
* `Fields.Free` — no field contains its own separator.

Main results:

* `Fields.append_cons_inj` — a list is divided in one way by the last of its separators;
* `Fields.render_inj` — **lines with the same separators have the same text and the same fields**
  when they are the same.
-/

import Mathlib.Data.List.Induction

set_option relaxedAutoImplicit false
set_option autoImplicit false

namespace Fields

variable {α : Type*}

/-- The line of a text and the fields behind it, each a pair of its separator and its contents. -/
def render (text : List α) (fields : List (α × List α)) : List α :=
  fields.foldl (fun line field => line ++ field.1 :: field.2) text

/-- No field contains its own separator. -/
def Free (fields : List (α × List α)) : Prop := ∀ field ∈ fields, field.1 ∉ field.2

@[simp] theorem render_nil (text : List α) : render text [] = text := rfl

@[simp] theorem render_cons (text : List α) (field : α × List α) (fields : List (α × List α)) :
    render text (field :: fields) = render (text ++ field.1 :: field.2) fields := rfl

theorem render_concat (text : List α) (fields : List (α × List α)) (field : α × List α) :
    render text (fields ++ [field]) = render text fields ++ field.1 :: field.2 := by
  simp [render]

/-- **A list is divided in one way by the last of its separators.** -/
theorem append_cons_inj {sep : α} {a b c d : List α} (hb : sep ∉ b) (hd : sep ∉ d)
    (h : a ++ sep :: b = c ++ sep :: d) : a = c ∧ b = d := by
  rcases List.append_eq_append_iff.1 h with ⟨e, hc, hrest⟩ | ⟨e, ha, hrest⟩
  · cases e with
    | nil =>
        rw [List.nil_append] at hrest
        cases hrest
        exact ⟨by rw [hc, List.append_nil], rfl⟩
    | cons x e =>
        -- the separator of the right line would lie in the field of the left one
        rw [List.cons_append] at hrest
        cases hrest
        exact absurd (by simp) hb
  · cases e with
    | nil =>
        rw [List.nil_append] at hrest
        cases hrest
        exact ⟨by rw [ha, List.append_nil], rfl⟩
    | cons x e =>
        rw [List.cons_append] at hrest
        cases hrest
        exact absurd (by simp) hd

/-- **Lines with the same separators have the same text and the same fields when they are the
same.** -/
theorem render_inj {text text' : List α} {fields fields' : List (α × List α)} (hfree : Free fields)
    (hfree' : Free fields') (hsep : fields.map Prod.fst = fields'.map Prod.fst)
    (h : render text fields = render text' fields') : text = text' ∧ fields = fields' := by
  induction fields using List.reverseRecOn generalizing fields' with
  | nil =>
      have hnil : fields' = [] := by simpa using hsep.symm
      subst hnil
      exact ⟨h, rfl⟩
  | append_singleton fields field ih =>
      cases fields' using List.reverseRecOn with
      | nil => simp at hsep
      | append_singleton fields' field' =>
          obtain ⟨sep, contents⟩ := field
          obtain ⟨sep', contents'⟩ := field'
          simp only [List.map_append, List.map_cons, List.map_nil] at hsep
          obtain ⟨hseps, hlast⟩ := List.append_inj' hsep rfl
          have hsame : sep = sep' := by simpa using hlast
          subst hsame
          rw [render_concat, render_concat] at h
          have hin : sep ∉ contents := hfree (sep, contents) (by simp)
          have hin' : sep ∉ contents' := hfree' (sep, contents') (by simp)
          obtain ⟨hfront, rfl⟩ := append_cons_inj hin hin' h
          obtain ⟨htext, rfl⟩ := ih (fun f hf => hfree f (List.mem_append_left _ hf))
            (fun f hf => hfree' f (List.mem_append_left _ hf)) hseps hfront
          exact ⟨htext, rfl⟩

end Fields
