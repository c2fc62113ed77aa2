/-
**Two parties joined by two channels.**

A party takes steps by itself, reading from its inbox and handing tokens over to its channel.  A
channel keeps tokens in order and delivers any first part of what it carries, so that a stream may
arrive in any segmentation; once a party has closed its side and its channel has run empty, the
other party finds the end.  Every order of these steps is a run.

Main definitions:

* `Link.Inbox`, `Link.Party` — what a party reads from, and a party;
* `Link.System`, `Link.Step` — both parties with their channels, and one step of the whole;
* `Link.Reaches` — the states a run goes through.

Main results:

* `Link.Reaches.inv` — the invariant rule;
* `Link.reaches_iff_of_stages` — **the reachable states are the stages of a run**, when the stages
  are reached and no step leads out of them.
-/

import Mathlib.Logic.Relation
import Mathlib.Data.List.Basic

set_option relaxedAutoImplicit false
set_option autoImplicit false

namespace Link

variable {ι β σ τ : Type*}

/-- What a party reads from: a segment is put behind those that arrived, or the end is marked. -/
structure Inbox (ι β : Type*) where
  put : ι → β → List β → ι
  finish : ι → ι

/-- A party: the steps it takes with its inbox, each with the tokens it hands over, and the states
in which it has closed its side. -/
structure Party (ι β σ : Type*) where
  Step : σ → ι → σ → ι → List β → Prop
  Closed : σ → Prop

/-- A party's side: its state, its inbox, and what its channel carries to the other party. -/
structure Side (ι β σ : Type*) where
  state : σ
  inbox : ι
  out : List β

/-- Both sides. -/
structure System (ι β σ τ : Type*) where
  left : Side ι β σ
  right : Side ι β τ

section

variable (box : Inbox ι β) (L : Party ι β σ) (R : Party ι β τ)

/-- One step of the whole. -/
inductive Step : System ι β σ τ → System ι β σ τ → Prop
  /-- The left party takes a step. -/
  | left {l : Side ι β σ} {r : Side ι β τ} {s : σ} {i : ι} {bs : List β} :
      L.Step l.state l.inbox s i bs →
      Step { left := l, right := r }
        { left := { state := s, inbox := i, out := l.out ++ bs }, right := r }
  /-- The right party takes a step. -/
  | right {l : Side ι β σ} {r : Side ι β τ} {s : τ} {i : ι} {bs : List β} :
      R.Step r.state r.inbox s i bs →
      Step { left := l, right := r }
        { left := l, right := { state := s, inbox := i, out := r.out ++ bs } }
  /-- A segment arrives at the right party. -/
  | toRight {l : Side ι β σ} {r : Side ι β τ} (b : β) (bs rest : List β) :
      l.out = b :: bs ++ rest →
      Step { left := l, right := r }
        { left := { l with out := rest }, right := { r with inbox := box.put r.inbox b bs } }
  /-- A segment arrives at the left party. -/
  | toLeft {l : Side ι β σ} {r : Side ι β τ} (b : β) (bs rest : List β) :
      r.out = b :: bs ++ rest →
      Step { left := l, right := r }
        { left := { l with inbox := box.put l.inbox b bs }, right := { r with out := rest } }
  /-- The right party finds the end. -/
  | leftClosed {l : Side ι β σ} {r : Side ι β τ} :
      L.Closed l.state → l.out = [] →
      Step { left := l, right := r }
        { left := l, right := { r with inbox := box.finish r.inbox } }
  /-- The left party finds the end. -/
  | rightClosed {l : Side ι β σ} {r : Side ι β τ} :
      R.Closed r.state → r.out = [] →
      Step { left := l, right := r }
        { left := { l with inbox := box.finish l.inbox }, right := r }

/-- A run leads from the first state to the second. -/
def Reaches (s t : System ι β σ τ) : Prop := Relation.ReflTransGen (Step box L R) s t

end

variable {box : Inbox ι β} {L : Party ι β σ} {R : Party ι β τ} {s t u : System ι β σ τ}

theorem Reaches.refl (s : System ι β σ τ) : Reaches box L R s s := Relation.ReflTransGen.refl

theorem Reaches.tail (h : Reaches box L R s t) (h' : Step box L R t u) : Reaches box L R s u :=
  Relation.ReflTransGen.tail h h'

theorem Reaches.head (h : Step box L R s t) (h' : Reaches box L R t u) : Reaches box L R s u :=
  Relation.ReflTransGen.head h h'

/-- **The invariant rule.** -/
theorem Reaches.inv {I : System ι β σ τ → Prop} (h : Reaches box L R s t) (hs : I s)
    (hstep : ∀ s t, I s → Step box L R s t → I t) : I t := by
  induction h with
  | refl => exact hs
  | tail _ hbc ih => exact hstep _ _ ih hbc

/-- **The reachable states are the stages of a run**, when each stage is reached and every step from
a stage leads to a stage. -/
theorem reaches_iff_of_stages {κ : Type*} {f : κ → System ι β σ τ} (k₀ : κ)
    (hclosed : ∀ k t, Step box L R (f k) t → ∃ k', t = f k')
    (hreach : ∀ k, Reaches box L R (f k₀) (f k)) :
    Reaches box L R (f k₀) t ↔ ∃ k, t = f k := by
  constructor
  · intro h
    refine h.inv (I := fun u => ∃ k, u = f k) ⟨k₀, rfl⟩ ?_
    rintro _ u ⟨k, rfl⟩ hstep
    exact hclosed k u hstep
  · rintro ⟨k, rfl⟩
    exact hreach k

end Link
