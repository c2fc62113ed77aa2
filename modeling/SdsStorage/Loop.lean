/-
**Loops run with fuel.**

A loop of the source is given by what one of its turns does: go round again from a new state, or
leave with a result.  It is run with a bound on the number of turns, so that it is a total
function; the rules below say that the bound does not matter once it is large enough, that an
invariant kept by every turn holds throughout, and that a decreasing measure makes the loop leave.

Main definitions:

* `Loop.Turn`, `Loop.run` — one turn, and the loop;
* `Loop.Reaches` — the states the loop passes through;
* `Loop.forInt` — the loop `for (int i = 0; i < n; i++)` against an unsigned bound, left by the
  first turn whose body has a result.

Main results:

* `Loop.run_mono`, `Loop.run_det` — the fuel does not change the result;
* `Loop.run_inv`, `Loop.Reaches.inv` — the invariant rule;
* `Loop.run_isSome_of_variant` — the variant rule;
* `Loop.forInt_eq_findSome?` — **an `int` index sees the first `2 ^ 31` positions only**.
-/

import SdsStorage.CInt
import Mathlib.Logic.Relation
import Mathlib.Data.List.Basic

set_option relaxedAutoImplicit false
set_option autoImplicit false

namespace Loop

variable {σ ρ : Type*}

/-- What one turn of a loop does. -/
inductive Turn (σ ρ : Type*) where
  /-- Go round again from the state `s`. -/
  | again (s : σ)
  /-- Leave the loop with the result `r`. -/
  | done (r : ρ)

/-- The loop, for at most `fuel` turns. -/
def run (turn : σ → Turn σ ρ) : ℕ → σ → Option ρ
  | 0, _ => none
  | fuel + 1, s =>
      match turn s with
      | .again s' => run turn fuel s'
      | .done r => some r

variable {turn : σ → Turn σ ρ}

theorem run_again {fuel : ℕ} {s s' : σ} (h : turn s = .again s') :
    run turn (fuel + 1) s = run turn fuel s' := by
  simp only [run, h]

theorem run_done {fuel : ℕ} {s : σ} {r : ρ} (h : turn s = .done r) :
    run turn (fuel + 1) s = some r := by
  simp only [run, h]

/-! ### The fuel does not matter -/

/-- More fuel does not change a result. -/
theorem run_mono {fuel fuel' : ℕ} {s : σ} {r : ρ} (h : run turn fuel s = some r)
    (hle : fuel ≤ fuel') : run turn fuel' s = some r := by
  induction fuel generalizing fuel' s with
  | zero => simp [run] at h
  | succ fuel ih =>
      obtain ⟨k, rfl⟩ : ∃ k, fuel' = k + 1 := ⟨fuel' - 1, by omega⟩
      cases ht : turn s with
      | again s' =>
          rw [run_again ht] at h ⊢
          exact ih h (by omega)
      | done r' =>
          rw [run_done ht] at h ⊢
          exact h

/-- Two runs from one state that both leave the loop leave it with the same result. -/
theorem run_det {fuel fuel' : ℕ} {s : σ} {r r' : ρ} (h : run turn fuel s = some r)
    (h' : run turn fuel' s = some r') : r = r' := by
  have h₁ := run_mono h (Nat.le_max_left fuel fuel')
  have h₂ := run_mono h' (Nat.le_max_right fuel fuel')
  rw [h₁] at h₂
  exact Option.some_inj.1 h₂

/-! ### The states a loop passes through -/

/-- The loop passes through `t` when it is started in `s`. -/
def Reaches (turn : σ → Turn σ ρ) (s t : σ) : Prop :=
  Relation.ReflTransGen (fun a b => turn a = .again b) s t

theorem Reaches.inv {I : σ → Prop} (hstep : ∀ s s', I s → turn s = .again s' → I s') {s t : σ}
    (hs : I s) (h : Reaches turn s t) : I t := by
  induction h with
  | refl => exact hs
  | tail _ hab ih => exact hstep _ _ ih hab

/-- A loop that is run to its end leaves from a state it passes through. -/
theorem reaches_of_run {fuel : ℕ} {s : σ} {r : ρ} (h : run turn fuel s = some r) :
    ∃ t, Reaches turn s t ∧ turn t = .done r := by
  induction fuel generalizing s with
  | zero => simp [run] at h
  | succ fuel ih =>
      cases ht : turn s with
      | again s' =>
          rw [run_again ht] at h
          obtain ⟨t, hreach, hdone⟩ := ih h
          exact ⟨t, Relation.ReflTransGen.head ht hreach, hdone⟩
      | done r' =>
          rw [run_done ht] at h
          cases h
          exact ⟨s, Relation.ReflTransGen.refl, ht⟩

/-- A loop leaves from one state. -/
theorem Reaches.done_unique {s t t' : σ} {r r' : ρ} (ht : Reaches turn s t)
    (hr : turn t = .done r) (ht' : Reaches turn s t') (hr' : turn t' = .done r') : t = t' := by
  have hfun : Relator.RightUnique fun a b : σ => turn a = .again b := by
    intro a b c hb hc
    rw [hb] at hc
    cases hc
    rfl
  rcases Relation.ReflTransGen.total_of_right_unique hfun ht ht' with h | h
  · rcases Relation.ReflTransGen.cases_head h with rfl | ⟨u, hu, -⟩
    · rfl
    · rw [hr] at hu
      cases hu
  · rcases Relation.ReflTransGen.cases_head h with rfl | ⟨u, hu, -⟩
    · rfl
    · rw [hr'] at hu
      cases hu

/-- **The invariant rule.** -/
theorem run_inv {I : σ → Prop} {Q : ρ → Prop} (hstep : ∀ s s', I s → turn s = .again s' → I s')
    (hdone : ∀ s r, I s → turn s = .done r → Q r) {fuel : ℕ} {s : σ} {r : ρ} (hs : I s)
    (h : run turn fuel s = some r) : Q r := by
  induction fuel generalizing s with
  | zero => simp [run] at h
  | succ fuel ih =>
      cases ht : turn s with
      | again s' =>
          rw [run_again ht] at h
          exact ih (hstep s s' hs ht) h
      | done r' =>
          rw [run_done ht] at h
          exact Option.some_inj.1 h ▸ hdone s r' hs ht

/-- **The variant rule**: a measure that every turn decreases makes the loop leave. -/
theorem run_isSome_of_variant {I : σ → Prop} (μ : σ → ℕ)
    (hstep : ∀ s s', I s → turn s = .again s' → I s' ∧ μ s' < μ s) {fuel : ℕ} {s : σ} (hs : I s)
    (hfuel : μ s < fuel) : (run turn fuel s).isSome := by
  induction fuel generalizing s with
  | zero => omega
  | succ fuel ih =>
      cases ht : turn s with
      | again s' =>
          obtain ⟨hI, hlt⟩ := hstep s s' hs ht
          rw [run_again ht]
          exact ih hI (by omega)
      | done r => rw [run_done ht]; rfl

/-! ### Counting with an `int` -/

/-- One turn of `for (int i = 0; i < n; i++)`: the index is converted to the unsigned type of the
bound for the comparison, and incremented as an `int`. -/
def forIntTurn (body : ℕ → Option ρ) (n : ℕ) (i : ℤ) : Turn ℤ (Option ρ) :=
  if CInt.toUInt64 i < n then
    match body (CInt.toUInt64 i) with
    | some r => .done (some r)
    | none => .again (CInt.toInt32 (i + 1))
  else .done none

/-- The loop `for (int i = 0; i < n; i++)`, left by the first turn whose body has a result.  The
index takes at most `2 ^ 31` values before it turns negative. -/
def forInt (body : ℕ → Option ρ) (n : ℕ) : Option ρ :=
  (run (forIntTurn body n) (2 ^ 31 + 1) 0).join

theorem forIntTurn_of_lt (body : ℕ → Option ρ) {n i : ℕ} (hi : i < 2 ^ 31) (hin : i < n) :
    forIntTurn body n (CInt.toInt32 i) =
      match body i with
      | some r => .done (some r)
      | none => .again (CInt.toInt32 ((i + 1 : ℕ) : ℤ)) := by
  have hidx : CInt.toInt32 (i : ℤ) = i := CInt.toInt32_of_range (by omega) (by omega)
  have hu : CInt.toUInt64 (i : ℤ) = i := CInt.toUInt64_natCast_of_lt (by omega)
  rw [forIntTurn, hidx, hu, if_pos hin]
  rfl

theorem forIntTurn_of_ge {body : ℕ → Option ρ} {n i : ℕ} (hn : n ≤ 2 ^ 64 - 2 ^ 31)
    (hi : i ≤ 2 ^ 31) (hin : min n (2 ^ 31) ≤ i) :
    forIntTurn body n (CInt.toInt32 i) = .done none := by
  rw [forIntTurn, if_neg]
  -- either the bound is met, or the index has turned negative and is compared as a huge number
  rcases Nat.lt_or_ge i (2 ^ 31) with hlt | hge
  · have hidx : CInt.toInt32 (i : ℤ) = i := CInt.toInt32_of_range (by omega) (by omega)
    rw [hidx, CInt.toUInt64_natCast_of_lt (by omega)]
    omega
  · have hidx : CInt.toInt32 (i : ℤ) = -2 ^ 31 := by
      rw [CInt.toInt32_eq]
      omega
    have hu := CInt.toUInt64_neg (x := -2 ^ 31) (by omega) (by omega)
    rw [hidx]
    omega

/-- The loop from the index `i` on. -/
theorem run_forIntTurn (body : ℕ → Option ρ) {n : ℕ} (hn : n ≤ 2 ^ 64 - 2 ^ 31) :
    ∀ (k i : ℕ), i + k = 2 ^ 31 →
      run (forIntTurn body n) (k + 1) (CInt.toInt32 i) =
        some ((List.range' i (min n (2 ^ 31) - i)).findSome? body) := by
  intro k
  induction k with
  | zero =>
      intro i hik
      have hz : min n (2 ^ 31) - i = 0 := by omega
      rw [run_done (forIntTurn_of_ge hn (by omega) (by omega)), hz]
      rfl
  | succ k ih =>
      intro i hik
      rcases Nat.lt_or_ge i (min n (2 ^ 31)) with hlt | hge
      · have hturn := forIntTurn_of_lt body (n := n) (i := i) (by omega) (by omega)
        have hlen : min n (2 ^ 31) - i = (min n (2 ^ 31) - (i + 1)) + 1 := by omega
        rw [hlen, List.range'_succ, List.findSome?_cons]
        cases hb : body i with
        | some r =>
            rw [hb] at hturn
            rw [run_done hturn]
        | none =>
            rw [hb] at hturn
            rw [run_again hturn]
            exact ih (i + 1) (by omega)
      · have hz : min n (2 ^ 31) - i = 0 := by omega
        rw [run_done (forIntTurn_of_ge hn (by omega) hge), hz]
        rfl

/-- **An `int` index sees the first `2 ^ 31` positions only.** -/
theorem forInt_eq_findSome? (body : ℕ → Option ρ) {n : ℕ} (hn : n ≤ 2 ^ 64 - 2 ^ 31) :
    forInt body n = (List.range (min n (2 ^ 31))).findSome? body := by
  have h := run_forIntTurn body hn (2 ^ 31) 0 (by omega)
  have h0 : CInt.toInt32 ((0 : ℕ) : ℤ) = 0 := by decide
  rw [h0] at h
  rw [forInt, h, List.range_eq_range']
  rfl

/-- What holds of every result of the body holds of the result of the loop. -/
theorem forInt_inv {Q : ρ → Prop} {body : ℕ → Option ρ} {n : ℕ} {r : ρ}
    (hbody : ∀ i r, body i = some r → Q r) (hr : forInt body n = some r) : Q r := by
  have hrun := Option.join_eq_some_iff.1 hr
  refine run_inv (I := fun _ => True) (Q := fun o : Option ρ => ∀ r, o = some r → Q r)
    (fun _ _ _ _ => trivial) ?_ trivial hrun r rfl
  intro i o _ hdone r' hr'
  subst hr'
  rw [forIntTurn] at hdone
  split at hdone
  · cases hb : body (CInt.toUInt64 i) with
    | none =>
        rw [hb] at hdone
        cases hdone
    | some r'' =>
        rw [hb] at hdone
        cases hdone
        exact hbody _ _ hb
  · cases hdone

/-- The loop leaves at the first position with a result. -/
theorem forInt_of_first (body : ℕ → Option ρ) {n k : ℕ} {r : ρ} (hn : n ≤ 2 ^ 64 - 2 ^ 31)
    (hk : k < min n (2 ^ 31)) (hr : body k = some r) (hbefore : ∀ i < k, body i = none) :
    forInt body n = some r := by
  rw [forInt_eq_findSome? body hn, List.findSome?_eq_some_iff]
  have hsplit : min n (2 ^ 31) = k + 1 + (min n (2 ^ 31) - (k + 1)) := by omega
  refine ⟨List.range k, k, List.range' (k + 1) (min n (2 ^ 31) - (k + 1)), ?_, hr, ?_⟩
  · rw [hsplit, List.range_eq_range', ← List.range'_append_1, ← List.range_eq_range',
      List.range_succ, Nat.zero_add]
    simp
  · intro i hi
    exact hbefore i (List.mem_range.1 hi)

/-- The loop runs to its end when no position within its reach has a result. -/
theorem forInt_of_none (body : ℕ → Option ρ) {n : ℕ} (hn : n ≤ 2 ^ 64 - 2 ^ 31)
    (h : ∀ i < min n (2 ^ 31), body i = none) : forInt body n = none := by
  rw [forInt_eq_findSome? body hn, List.findSome?_eq_none_iff]
  intro i hi
  exact h i (List.mem_range.1 hi)

end Loop
