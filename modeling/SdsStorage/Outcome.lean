/-
**The outcome of a piece of C code.**

A call either returns, or the process stops, waits for ever, or does something the language
leaves undefined.  The last kind is what a safety property forbids; the others end a run without
violating anything that is claimed about the states it went through.

Main definitions:

* `Fault`, `Fault.Undefined` — the ways of not returning, and those that are undefined behaviour;
* `Outcome` — a value or a fault;
* `Outcome.Holds` — **partial correctness with safety**: nothing undefined happens, and if the
  call returns then the postcondition holds;
* `Outcome.Always` — the same for every state a run of calls goes through;
* `Outcome.EachCall` — a property of the calls of a run;
* `Outcome.Metered` — steps of which an account is kept, which ends where something undefined
  happens.

Main results:

* `Outcome.Holds.bind` — the rule for sequencing;
* `Outcome.foldlM_ok_append` — a run that returns is a run of its first part and then of the rest;
* `Outcome.map_foldlM` — **the refinement rule for runs**;
* `Outcome.always_cons`, `Outcome.eachCall_cons` — the step rules for runs;
* `Outcome.Metered.holds_iff` — **a run is defined exactly when its account goes on to the end**.
-/

import Mathlib.Data.List.Basic

set_option relaxedAutoImplicit false
set_option autoImplicit false

universe u

/-! ### Faults -/

/-- The ways in which a C call does not return. -/
inductive Fault where
  /-- A store or a copy outside the object it is aimed at. -/
  | outOfBounds
  /-- A read through a null pointer. -/
  | nullDeref
  /-- A read past the end of the memory the pointer leads into. -/
  | overread
  /-- A use of bytes that are not a pointer, or of a pointer to freed memory. -/
  | wild
  /-- `abort`, from a failed `assert` or from a log line of level `LOG_FATAL`. -/
  | abort
  /-- A lock taken again by the thread that holds it. -/
  | deadlock
  /-- A system call that never returns, because nothing more arrives. -/
  | blocked
  deriving DecidableEq, Repr

namespace Fault

/-- The faults that are undefined behaviour rather than a process that stops or waits. -/
def Undefined : Fault → Prop
  | outOfBounds | nullDeref | overread | wild => True
  | abort | deadlock | blocked => False

instance : DecidablePred Undefined := fun f => by
  cases f <;> unfold Undefined <;> infer_instance

end Fault

/-- The outcome of a C call: the value it returns, or the fault that kept it from returning. -/
abbrev Outcome (α : Type u) := Except Fault α

namespace Outcome

variable {α β σ : Type u} {ι : Type*}

/-! ### Sequencing -/

@[simp] theorem ok_bind (a : α) (f : α → Outcome β) :
    ((Except.ok a : Outcome α) >>= f) = f a := rfl

@[simp] theorem error_bind (e : Fault) (f : α → Outcome β) :
    ((Except.error e : Outcome α) >>= f) = Except.error e := rfl

@[simp] theorem pure_eq_ok (a : α) : (pure a : Outcome α) = Except.ok a := rfl

/-- A sequence that returns is made of two calls that return. -/
theorem bind_eq_ok {x : Outcome α} {f : α → Outcome β} {b : β} :
    (x >>= f) = Except.ok b ↔ ∃ a, x = Except.ok a ∧ f a = Except.ok b := by
  cases x with
  | error e => simp
  | ok a => simp

/-! ### Partial correctness with safety -/

/-- **Partial correctness with safety**: nothing undefined happens, and a value that is returned
satisfies `Q`. -/
def Holds (Q : α → Prop) : Outcome α → Prop
  | .ok a => Q a
  | .error f => ¬ f.Undefined

@[simp] theorem holds_ok (Q : α → Prop) (a : α) : Holds Q (.ok a) ↔ Q a := Iff.rfl

@[simp] theorem holds_error (Q : α → Prop) (f : Fault) :
    Holds Q (.error f) ↔ ¬ f.Undefined := Iff.rfl

theorem Holds.bind {Q : α → Prop} {R : β → Prop} {x : Outcome α} {f : α → Outcome β}
    (h : Holds Q x) (hf : ∀ a, Q a → Holds R (f a)) : Holds R (x >>= f) := by
  cases x with
  | ok a => exact hf a h
  | error e => exact h

/-! ### Runs -/

/-- A run that returns goes through the state its first part returns. -/
theorem foldlM_ok_append {f : σ → ι → Outcome σ} {l l' : List ι} {s s' : σ} :
    (l ++ l').foldlM f s = .ok s' ↔ ∃ t, l.foldlM f s = .ok t ∧ l'.foldlM f t = .ok s' := by
  rw [List.foldlM_append]
  exact bind_eq_ok

/-- An invariant that every returning call of a run keeps holds after a run that returns. -/
theorem foldlM_ok_inv {I : σ → Prop} {f : σ → ι → Outcome σ} {l : List ι} {s s' : σ}
    (hrun : l.foldlM f s = .ok s') (hs : I s)
    (hstep : ∀ s t, ∀ i ∈ l, f s i = .ok t → I s → I t) : I s' := by
  induction l generalizing s with
  | nil =>
      have hss : s = s' := by simpa using hrun
      exact hss ▸ hs
  | cons i l ih =>
      rw [List.foldlM_cons, bind_eq_ok] at hrun
      obtain ⟨t, ht, hrest⟩ := hrun
      exact ih hrest (hstep s t i (by simp) ht hs)
        fun u v j hj => hstep u v j (List.mem_cons_of_mem _ hj)

/-- An invariant of a counted loop, indexed by the number of turns made, holds after a loop that
returns. -/
theorem foldlM_range_ok {I : ℕ → σ → Prop} {f : σ → ℕ → Outcome σ} {n : ℕ} {s s' : σ}
    (hrun : (List.range n).foldlM f s = .ok s') (hs : I 0 s)
    (hstep : ∀ k s t, k < n → f s k = .ok t → I k s → I (k + 1) t) : I n s' := by
  induction n generalizing s' with
  | zero =>
      have hss : s = s' := by simpa using hrun
      exact hss ▸ hs
  | succ n ih =>
      rw [List.range_succ, foldlM_ok_append] at hrun
      obtain ⟨t, ht, hlast⟩ := hrun
      have hn := ih ht fun k u v hk => hstep k u v (by omega)
      rw [List.foldlM_cons, bind_eq_ok] at hlast
      obtain ⟨v, hv, hlast⟩ := hlast
      have hvs : v = s' := by simpa using hlast
      exact hvs ▸ hstep n t v (by omega) hv hn

/-- A run that returns also returns, in the same state, under calls that return whatever the given
ones return. -/
theorem foldlM_ok_mono {f g : σ → ι → Outcome σ} (hfg : ∀ s i t, f s i = .ok t → g s i = .ok t)
    {l : List ι} {s s' : σ} (h : l.foldlM f s = .ok s') : l.foldlM g s = .ok s' := by
  induction l generalizing s with
  | nil => exact h
  | cons i l ih =>
      rw [List.foldlM_cons, bind_eq_ok] at h ⊢
      obtain ⟨t, ht, hrest⟩ := h
      exact ⟨t, hfg s i t ht, ih hrest⟩

/-- A run returns when each of its calls does. -/
theorem foldlM_isOk {I : σ → Prop} {f : σ → ι → Outcome σ} {l : List ι} {s : σ} (hs : I s)
    (hstep : ∀ s, ∀ i ∈ l, I s → ∃ t, f s i = .ok t ∧ I t) :
    ∃ s', l.foldlM f s = .ok s' ∧ I s' := by
  induction l generalizing s with
  | nil => exact ⟨s, rfl, hs⟩
  | cons i l ih =>
      obtain ⟨t, ht, hi⟩ := hstep s i List.mem_cons_self hs
      obtain ⟨s', hrun, hs'⟩ := ih hi fun u j hj => hstep u j (List.mem_cons_of_mem _ hj)
      exact ⟨s', by rw [List.foldlM_cons, ht, ok_bind, hrun], hs'⟩

/-- A counted loop returns when each of its turns does. -/
theorem foldlM_range_isOk {I : ℕ → σ → Prop} {f : σ → ℕ → Outcome σ} {n : ℕ} {s : σ} (hs : I 0 s)
    (hstep : ∀ k s, k < n → I k s → ∃ t, f s k = .ok t ∧ I (k + 1) t) :
    ∃ s', (List.range n).foldlM f s = .ok s' ∧ I n s' := by
  induction n with
  | zero => exact ⟨s, rfl, hs⟩
  | succ n ih =>
      obtain ⟨t, ht, hn⟩ := ih fun k u hk => hstep k u (by omega)
      obtain ⟨v, hv, hnv⟩ := hstep n t (by omega) hn
      refine ⟨v, ?_, hnv⟩
      rw [List.range_succ, foldlM_ok_append]
      exact ⟨t, ht, by rw [List.foldlM_cons, hv]; rfl⟩

/-- **The refinement rule for runs**: a run, seen through `abs`, is the run of what each of its
calls is seen as. -/
theorem map_foldlM {τ : Type u} {I : σ → Prop} {abs : σ → τ} {f : σ → ι → Outcome σ}
    {g : τ → ι → Outcome τ} {l : List ι} {s : σ} (hs : I s)
    (hseen : ∀ s, ∀ i ∈ l, I s → (f s i).map abs = g (abs s) i)
    (hkeep : ∀ s t, ∀ i ∈ l, f s i = .ok t → I s → I t) :
    (l.foldlM f s).map abs = l.foldlM g (abs s) := by
  induction l generalizing s with
  | nil => rfl
  | cons i l ih =>
      have hi := hseen s i List.mem_cons_self hs
      rw [List.foldlM_cons, List.foldlM_cons, ← hi]
      cases ht : f s i with
      | error e => rfl
      | ok t =>
          exact ih (hkeep s t i List.mem_cons_self ht hs)
            (fun u j hj => hseen u j (List.mem_cons_of_mem _ hj))
            fun u v j hj => hkeep u v j (List.mem_cons_of_mem _ hj)

/-- Nothing undefined happens in a run, and `Q` holds of every state it goes through. -/
def Always (Q : σ → Prop) (f : σ → ι → Outcome σ) (l : List ι) (s : σ) : Prop :=
  ∀ l', l' <+: l → Holds Q (l'.foldlM f s)

theorem always_nil {Q : σ → Prop} {f : σ → ι → Outcome σ} {s : σ} :
    Always Q f [] s ↔ Q s := by
  constructor
  · intro h
    exact h [] List.nil_prefix
  · intro h l' hl'
    rw [List.prefix_nil.1 hl']
    exact h

/-- **The step rule** for runs: the first state is good, and after the first call the rest of the
run is. -/
theorem always_cons {Q : σ → Prop} {f : σ → ι → Outcome σ} {i : ι} {l : List ι} {s : σ} :
    Always Q f (i :: l) s ↔ Q s ∧ Holds (Always Q f l) (f s i) := by
  constructor
  · intro h
    refine ⟨h [] List.nil_prefix, ?_⟩
    have hrest : ∀ l', l' <+: l → Holds Q (f s i >>= fun s' => l'.foldlM f s') := by
      intro l' hl'
      have := h (i :: l') (List.cons_prefix_cons.2 ⟨rfl, hl'⟩)
      rwa [List.foldlM_cons] at this
    cases hi : f s i with
    | ok s' =>
        intro l' hl'
        have := hrest l' hl'
        rwa [hi, ok_bind] at this
    | error e =>
        have := hrest [] List.nil_prefix
        rwa [hi, error_bind] at this
  · rintro ⟨hs, hi⟩ l' hl'
    cases l' with
    | nil => exact hs
    | cons j l' =>
        obtain ⟨rfl, htail⟩ := List.cons_prefix_cons.1 hl'
        rw [List.foldlM_cons]
        exact Holds.bind hi fun s' hs' => hs' l' htail

/-- The first state of a good run is good. -/
theorem Always.start {Q : σ → Prop} {f : σ → ι → Outcome σ} {l : List ι} {s : σ}
    (h : Always Q f l s) : Q s :=
  h [] List.nil_prefix

/-- `Q` holds of every call of a run and the state it is made in. -/
def EachCall (Q : σ → ι → Prop) (f : σ → ι → Outcome σ) (l : List ι) (s : σ) : Prop :=
  ∀ l₁ i l₂, l = l₁ ++ i :: l₂ → ∀ t, l₁.foldlM f s = .ok t → Q t i

theorem eachCall_nil {Q : σ → ι → Prop} {f : σ → ι → Outcome σ} {s : σ} : EachCall Q f [] s := by
  intro l₁ i l₂ h
  simp at h

/-- **The step rule** for what holds of the calls of a run. -/
theorem eachCall_cons {Q : σ → ι → Prop} {f : σ → ι → Outcome σ} {i : ι} {l : List ι} {s : σ} :
    EachCall Q f (i :: l) s ↔ Q s i ∧ ∀ t, f s i = .ok t → EachCall Q f l t := by
  constructor
  · intro h
    refine ⟨h [] i l rfl s rfl, ?_⟩
    intro t ht l₁ j l₂ hl u hu
    refine h (i :: l₁) j l₂ (by rw [hl, List.cons_append]) u ?_
    rw [List.foldlM_cons, ht, ok_bind, hu]
  · rintro ⟨hi, hrest⟩ l₁ j l₂ hl u hu
    cases l₁ with
    | nil =>
        obtain ⟨rfl, -⟩ := List.cons.inj hl
        have hsu : s = u := by simpa using hu
        exact hsu ▸ hi
    | cons k l₁ =>
        obtain ⟨rfl, htail⟩ := List.cons.inj hl
        rw [List.foldlM_cons, bind_eq_ok] at hu
        obtain ⟨t, ht, hu⟩ := hu
        exact hrest t ht l₁ j l₂ htail u hu

/-- What an invariant says of each call holds of every call of a run. -/
theorem eachCall_of_inv {I : σ → Prop} {Q : σ → ι → Prop} {f : σ → ι → Outcome σ} {l : List ι}
    {s : σ} (hs : I s) (hstep : ∀ s t, ∀ i ∈ l, f s i = .ok t → I s → I t)
    (hcall : ∀ s i, I s → Q s i) : EachCall Q f l s := by
  rintro l₁ i l₂ rfl t ht
  exact hcall t i (foldlM_ok_inv ht hs fun u v j hj =>
    hstep u v j (List.mem_append_left _ hj))

/-! ### Accounts -/

/-- An account is kept of every step: as long as there is one, the step returns and is related to
its account; where there is none, the step is undefined. -/
def Metered {τ : Type*} (R : σ → τ → Prop) (f : σ → ι → Outcome σ) (g : τ → ι → Option τ) : Prop :=
  ∀ s t i, R s t → (∀ t', g t i = some t' → ∃ s', f s i = .ok s' ∧ R s' t') ∧
    (g t i = none → ∃ e, f s i = .error e ∧ e.Undefined)

namespace Metered

variable {τ : Type*} {R : σ → τ → Prop} {f : σ → ι → Outcome σ} {g : τ → ι → Option τ}
  {l : List ι} {s s' : σ} {t : τ}

/-- The account of a run is kept by keeping that of each step. -/
theorem run (h : Metered R f g) (hs : R s t) :
    (∀ t', l.foldlM g t = some t' → ∃ s', l.foldlM f s = .ok s' ∧ R s' t') ∧
      (l.foldlM g t = none → ∃ e, l.foldlM f s = .error e ∧ e.Undefined) := by
  induction l generalizing s t with
  | nil =>
      refine ⟨?_, ?_⟩
      · rintro t' ⟨⟩
        exact ⟨s, rfl, hs⟩
      · rintro ⟨⟩
  | cons i l ih =>
      obtain ⟨hsome, hnone⟩ := h s t i hs
      rw [List.foldlM_cons, List.foldlM_cons]
      cases ht : g t i with
      | none =>
          obtain ⟨e, he, hundef⟩ := hnone ht
          rw [he]
          refine ⟨?_, fun _ => ⟨e, rfl, hundef⟩⟩
          rintro t' ⟨⟩
      | some t₁ =>
          obtain ⟨s₁, hs₁, hR⟩ := hsome t₁ ht
          rw [hs₁]
          exact ih hR

/-- **A run is defined exactly when its account goes on to the end.** -/
theorem holds_iff (h : Metered R f g) (hs : R s t) :
    Holds (fun _ => True) (l.foldlM f s) ↔ ∃ t', l.foldlM g t = some t' := by
  obtain ⟨hsome, hnone⟩ := h.run (l := l) hs
  cases ht : l.foldlM g t with
  | none =>
      obtain ⟨e, he, hundef⟩ := hnone ht
      rw [he, holds_error]
      refine iff_of_false (fun hno => hno hundef) ?_
      rintro ⟨t', ⟨⟩⟩
  | some t' =>
      obtain ⟨s', hs', -⟩ := hsome t' ht
      rw [hs', holds_ok]
      exact iff_of_true trivial ⟨t', rfl⟩

/-- A run that returns has an account. -/
theorem of_ok (h : Metered R f g) (hs : R s t) (hrun : l.foldlM f s = .ok s') :
    ∃ t', l.foldlM g t = some t' ∧ R s' t' := by
  obtain ⟨hsome, hnone⟩ := h.run (l := l) hs
  cases ht : l.foldlM g t with
  | none =>
      obtain ⟨e, he, -⟩ := hnone ht
      rw [hrun] at he
      cases he
  | some t' =>
      obtain ⟨s'', hs'', hR⟩ := hsome t' ht
      rw [hrun] at hs''
      cases hs''
      exact ⟨t', rfl, hR⟩

end Metered

end Outcome
