/-
**The message hash, block by block.**

`gfs_hashfn` walks through its message with three counters, of the words and of the bytes that are
left and of the pointer.  Over them it folds the complete blocks of sixteen bytes, and then one last
block: the complete words that are left, one word with the left-over bytes shifted into the padding,
and the padding.

To say which bytes are read, the function is written once more over an arbitrary way of reading a
byte; read with a record of the offsets, it turns out to take the message byte by byte.

Main definitions:

* `Hash.gfsFillM`, `Hash.gfsHashfnM` — the function over a way of reading bytes;
* `Hash.tracedByteAt` — reading with a record of the offsets;
* `Hash.blockArray`, `Hash.pushByte`, `Hash.lastArray` — the words of a block, a byte shifted into a
  word as the source does it, and the last block.

Main results:

* `Hash.gfsHashfnM_byteAt` — read without a record, the function is `gfs_hashfn`;
* `Hash.erases_gfsFill` — the record changes nothing;
* `Hash.gfsFillM_run` — **what the two loops compute, and that they read each byte once**.
-/

import SdsStorage.Blocks
import SdsStorage.Hash
import Mathlib.Tactic.IntervalCases

set_option relaxedAutoImplicit false
set_option autoImplicit false

namespace Hash

/-! ### Over a way of reading a byte -/

section Reading

variable {M : Type → Type} [Monad M] (read : ℕ → M UInt8)

/-- `wordAt`. -/
def wordAtM (i : ℕ) : M UInt32 := do
  let b0 ← read i
  let b1 ← read (i + 1)
  let b2 ← read (i + 2)
  let b3 ← read (i + 3)
  pure (b0.toUInt32 ||| (b1.toUInt32 <<< 8) ||| (b2.toUInt32 <<< 16) ||| (b3.toUInt32 <<< 24))

/-- `takeWord`. -/
def takeWordM (s : GfsState) (j : ℕ) : M GfsState := do
  let word ← wordAtM read s.intmsg
  pure { s with
    array := Function.update s.array j word
    intmsg := s.intmsg + 4
    fullWords := s.fullWords - 1
    fullBytes := s.fullBytes - 4 }

/-- What a `char` makes of a word: it is sign-extended. -/
def pushByte (word : UInt32) (c : UInt8) : UInt32 := (word <<< 8) ||| c.toInt8.toInt32.toUInt32

/-- `drainBytes`. -/
def drainBytesM (len : ℕ) : ℕ → UInt32 → M UInt32
  | 0, word => pure word
  | fullBytes + 1, word => do
      let c ← read (len - (fullBytes + 1))
      drainBytesM len fullBytes (pushByte word c)

/-- `fullQuad`. -/
def fullQuadM (s : GfsState) (_i : ℕ) : M GfsState := do
  let s ← [0, 1, 2, 3].foldlM (takeWordM read) s
  pure { s with h := dmRound dmPartRounds s.array s.h }

/-- `lastWord`. -/
def lastWordM (len : ℕ) (s : GfsState) (j : ℕ) : M GfsState :=
  if s.fullWords ≠ 0 then takeWordM read s j
  else do
    let word ← drainBytesM read len s.fullBytes (pad len)
    pure { s with array := Function.update s.array j word, fullBytes := 0 }

/-- The two loops of `gfs_hashfn`: what they leave is given to the last `dm_round`. -/
def gfsFillM (len : ℕ) : M GfsState := do
  let s : GfsState :=
    { intmsg := 0, fullWords := len / 4, fullBytes := len, array := fun _ => 0,
      h := (0x9464a485, 0x542e1a94) }
  let s ← (List.range (len / 16)).foldlM (fullQuadM read) s
  [0, 1, 2, 3].foldlM (lastWordM read len) s

/-- What is returned. -/
def gfsFinish (s : GfsState) : UInt64 :=
  let h := dmRound dmFullRounds s.array s.h
  (h.1 ^^^ h.2).toUInt64

/-- `gfsHashfn`. -/
def gfsHashfnM (len : ℕ) : M UInt64 := do
  let s ← gfsFillM read len
  pure (gfsFinish s)

end Reading

theorem drainBytesM_byteAt (msg : CharPtr) (len n : ℕ) (word : UInt32) :
    drainBytesM (byteAt msg) len n word = drainBytes msg len n word := by
  induction n generalizing word with
  | zero => rfl
  | succ n ih =>
      rw [drainBytesM, drainBytes]
      congr 1
      funext c
      exact ih _

/-- Read without a record, the function is `gfs_hashfn`. -/
theorem gfsHashfnM_byteAt (msg : CharPtr) (len : ℕ) :
    gfsHashfnM (byteAt msg) len = gfsHashfn msg len := by
  have hlast : lastWordM (byteAt msg) len = lastWord msg len := by
    funext s j
    rw [lastWordM, lastWord, drainBytesM_byteAt]
    rfl
  have hquad : fullQuadM (byteAt msg) = fullQuad msg := rfl
  rw [gfsHashfnM, gfsFillM, gfsHashfn, hlast, hquad]
  simp only [bind_assoc]
  rfl

/-! ### With a record of what is read -/

/-- A call with a record of the offsets that were read. -/
abbrev Traced := StateT (List ℕ) Outcome

/-- `byteAt`, with a record. -/
def tracedByteAt (msg : CharPtr) (i : ℕ) : Traced UInt8 := fun offsets => do
  let b ← byteAt msg i
  .ok (b, offsets ++ [i])

/-- Without its record the call `x` is the call `y`. -/
def Erases {α : Type} (x : Traced α) (y : Outcome α) : Prop :=
  ∀ offsets, (x.run offsets).map Prod.fst = y

namespace Erases

variable {α β σ : Type}

theorem pure (a : α) : Erases (Pure.pure a) (.ok a) := fun _ => rfl

theorem bind {x : Traced α} {y : Outcome α} {f : α → Traced β} {g : α → Outcome β}
    (hx : Erases x y) (hf : ∀ a, Erases (f a) (g a)) : Erases (x >>= f) (y >>= g) := by
  intro offsets
  have hxo := hx offsets
  rw [StateT.run_bind]
  cases hrun : x.run offsets with
  | error e =>
      rw [hrun] at hxo
      rw [← hxo]
      rfl
  | ok r =>
      rw [hrun] at hxo
      rw [← hxo, Outcome.ok_bind]
      exact hf r.1 r.2

theorem foldlM {ι : Type} {f : σ → ι → Traced σ} {g : σ → ι → Outcome σ}
    (h : ∀ s i, Erases (f s i) (g s i)) (l : List ι) (s : σ) :
    Erases (l.foldlM f s) (l.foldlM g s) := by
  induction l generalizing s with
  | nil => exact pure s
  | cons i l ih =>
      rw [List.foldlM_cons, List.foldlM_cons]
      exact (h s i).bind ih

end Erases

section Erase

variable (msg : CharPtr)

theorem erases_byteAt (i : ℕ) : Erases (tracedByteAt msg i) (byteAt msg i) := by
  intro offsets
  change (byteAt msg i >>= fun b => Except.ok (b, offsets ++ [i])).map Prod.fst = byteAt msg i
  cases byteAt msg i with
  | error e => rfl
  | ok b => rfl

theorem erases_wordAt (i : ℕ) :
    Erases (wordAtM (tracedByteAt msg) i) (wordAtM (byteAt msg) i) :=
  (erases_byteAt msg i).bind fun _ => (erases_byteAt msg (i + 1)).bind fun _ =>
    (erases_byteAt msg (i + 2)).bind fun _ => (erases_byteAt msg (i + 3)).bind fun _ =>
      Erases.pure _

theorem erases_takeWord (s : GfsState) (j : ℕ) :
    Erases (takeWordM (tracedByteAt msg) s j) (takeWordM (byteAt msg) s j) :=
  (erases_wordAt msg s.intmsg).bind fun _ => Erases.pure _

theorem erases_drainBytes (len n : ℕ) (word : UInt32) :
    Erases (drainBytesM (tracedByteAt msg) len n word) (drainBytesM (byteAt msg) len n word) := by
  induction n generalizing word with
  | zero => exact Erases.pure word
  | succ n ih => exact (erases_byteAt msg _).bind fun _ => ih _

theorem erases_fullQuad (s : GfsState) (i : ℕ) :
    Erases (fullQuadM (tracedByteAt msg) s i) (fullQuadM (byteAt msg) s i) :=
  (Erases.foldlM (erases_takeWord msg) [0, 1, 2, 3] s).bind fun _ => Erases.pure _

theorem erases_lastWord (len : ℕ) (s : GfsState) (j : ℕ) :
    Erases (lastWordM (tracedByteAt msg) len s j) (lastWordM (byteAt msg) len s j) := by
  rw [lastWordM, lastWordM]
  split
  · exact erases_takeWord msg s j
  · exact (erases_drainBytes msg len s.fullBytes (pad len)).bind fun _ => Erases.pure _

/-- The record changes nothing. -/
theorem erases_gfsFill (len : ℕ) :
    Erases (gfsFillM (tracedByteAt msg) len) (gfsFillM (byteAt msg) len) :=
  (Erases.foldlM (erases_fullQuad msg) _ _).bind fun s =>
    Erases.foldlM (erases_lastWord msg len) [0, 1, 2, 3] s

end Erase

/-- What is returned with a record is returned without. -/
theorem Erases.ok {α : Type} {x : Traced α} {y : Outcome α} (h : Erases x y) {offsets l : List ℕ}
    {a : α} (hx : x.run offsets = .ok (a, l)) : y = .ok a := by
  rw [← h offsets, hx]
  rfl

/-- A run over a list with a record is a run of pairs. -/
theorem run_foldlM {σ ι : Type} (f : σ → ι → Traced σ) (l : List ι) (s : σ) (offsets : List ℕ) :
    (l.foldlM f s).run offsets =
      l.foldlM (fun (p : σ × List ℕ) i => (f p.1 i).run p.2) (s, offsets) := by
  induction l generalizing s offsets with
  | nil => rfl
  | cons i l ih =>
      rw [List.foldlM_cons, List.foldlM_cons, StateT.run_bind]
      congr 1
      funext p
      exact ih p.1 p.2

/-! ### What is computed -/

/-- The words of a block. -/
def blockArray (block : Bytes) (j : ℕ) : UInt32 := (Blocks.leWords block).getD j 0

/-- The last block of a message: the complete words behind its blocks, the word the left-over bytes
are pushed into one by one, and the padding. -/
def lastArray (push : UInt32 → UInt8 → UInt32) (m : Bytes) (j : ℕ) : UInt32 :=
  (Blocks.leWords (Blocks.rest 16 m) ++
    [(Blocks.rest 4 (Blocks.rest 16 m)).foldl push (pad m.length)]).getD j (pad m.length)

/-- The complete blocks, folded into the two words of the hash. -/
def hashBlocks (blocks : List Bytes) : UInt32 × UInt32 :=
  blocks.foldl (fun h block => dmRound dmPartRounds (blockArray block) h) (0x9464a485, 0x542e1a94)

/-- Only four words of a block are used. -/
theorem dmRoundLoop_congr {array array' : ℕ → UInt32} (h : ∀ j < 4, array j = array' j) :
    ∀ (n : ℕ) (sum b0 b1 : UInt32),
      dmRoundLoop array n sum b0 b1 = dmRoundLoop array' n sum b0 b1 := by
  intro n
  induction n with
  | zero => exact fun _ _ _ => rfl
  | succ n ih =>
      intro sum b0 b1
      simp only [dmRoundLoop]
      rw [h 0 (by omega), h 1 (by omega), h 2 (by omega), h 3 (by omega)]
      exact ih _ _ _

theorem dmRound_congr {array array' : ℕ → UInt32} (h : ∀ j < 4, array j = array' j) (rounds : ℕ)
    (hs : UInt32 × UInt32) : dmRound rounds array hs = dmRound rounds array' hs := by
  rw [dmRound, dmRound, dmRoundLoop_congr h]

section Run

variable {m t : Bytes}

theorem tracedByteAt_run {i : ℕ} {b : UInt8} (h : m[i]? = some b) :
    (tracedByteAt (.mem (m ++ t)) i).run (List.range i) = .ok (b, List.range (i + 1)) := by
  have hlt := (List.getElem?_eq_some_iff.1 h).1
  have hbyte : byteAt (.mem (m ++ t)) i = .ok b := by
    simp [byteAt, CharPtr.deref, List.getElem?_append_left hlt, h]
  change (byteAt (.mem (m ++ t)) i >>= fun b => Except.ok (b, List.range i ++ [i])) = _
  rw [hbyte, Outcome.ok_bind, List.range_succ]

/-- The next word of the message. -/
theorem wordAtM_run {i : ℕ} (h : i + 4 ≤ m.length) :
    (wordAtM (tracedByteAt (.mem (m ++ t))) i).run (List.range i) =
      .ok (Blocks.leWord ((m.drop i).take 4), List.range (i + 4)) := by
  have hbyte : ∀ (k : ℕ) (hk : i + k < m.length), m[i + k]? = some m[i + k] :=
    fun _ hk => List.getElem?_eq_getElem hk
  rw [wordAtM, StateT.run_bind, tracedByteAt_run (i := i) (hbyte 0 (by omega)), Outcome.ok_bind,
    StateT.run_bind, tracedByteAt_run (hbyte 1 (by omega)), Outcome.ok_bind, StateT.run_bind,
    tracedByteAt_run (hbyte 2 (by omega)), Outcome.ok_bind, StateT.run_bind,
    tracedByteAt_run (hbyte 3 (by omega)), Outcome.ok_bind, Blocks.take_drop_four h,
    ← Blocks.leWord_or]
  rfl

/-- A state after a word was taken. -/
theorem takeWordM_run {s : GfsState} (h : s.intmsg + 4 ≤ m.length) (j : ℕ) :
    (takeWordM (tracedByteAt (.mem (m ++ t))) s j).run (List.range s.intmsg) =
      .ok ({ s with array := Function.update s.array j (Blocks.leWord ((m.drop s.intmsg).take 4))
                    intmsg := s.intmsg + 4
                    fullWords := s.fullWords - 1
                    fullBytes := s.fullBytes - 4 }, List.range (s.intmsg + 4)) := by
  rw [takeWordM, StateT.run_bind, wordAtM_run h, Outcome.ok_bind]
  rfl

/-- A complete block is taken. -/
theorem fullQuadM_run {s : GfsState} (h : s.intmsg + 16 ≤ m.length) (i : ℕ) :
    ∃ array, (fullQuadM (tracedByteAt (.mem (m ++ t))) s i).run (List.range s.intmsg) =
      .ok ({ intmsg := s.intmsg + 16
             fullWords := s.fullWords - 4
             fullBytes := s.fullBytes - 16
             array := array
             h := dmRound dmPartRounds (blockArray ((m.drop s.intmsg).take 16)) s.h },
        List.range (s.intmsg + 16)) := by
  obtain ⟨array, hfour, harray⟩ : ∃ array : ℕ → UInt32,
      ([0, 1, 2, 3].foldlM (takeWordM (tracedByteAt (.mem (m ++ t)))) s).run (List.range s.intmsg) =
        .ok ({ intmsg := s.intmsg + 16
               fullWords := s.fullWords - 4
               fullBytes := s.fullBytes - 16
               array := array
               h := s.h }, List.range (s.intmsg + 16)) ∧
      ∀ j < 4, array j = Blocks.leWord ((m.drop (s.intmsg + 4 * j)).take 4) := by
    refine ⟨Function.update (Function.update (Function.update (Function.update s.array 0
      (Blocks.leWord ((m.drop s.intmsg).take 4)))
      1 (Blocks.leWord ((m.drop (s.intmsg + 4)).take 4)))
      2 (Blocks.leWord ((m.drop (s.intmsg + 8)).take 4)))
      3 (Blocks.leWord ((m.drop (s.intmsg + 12)).take 4)), ?_, ?_⟩
    · rw [List.foldlM_cons, StateT.run_bind, takeWordM_run (by omega), Outcome.ok_bind,
        List.foldlM_cons, StateT.run_bind, takeWordM_run (by dsimp only; omega), Outcome.ok_bind,
        List.foldlM_cons, StateT.run_bind, takeWordM_run (by dsimp only; omega), Outcome.ok_bind,
        List.foldlM_cons, StateT.run_bind, takeWordM_run (by dsimp only; omega), Outcome.ok_bind]
      rfl
    · intro j hj
      interval_cases j <;> rfl
  have hblock : ((m.drop s.intmsg).take 16).length / 4 = 4 := by
    rw [List.length_take, List.length_drop]
    omega
  have hcongr : dmRound dmPartRounds array s.h =
      dmRound dmPartRounds (blockArray ((m.drop s.intmsg).take 16)) s.h := by
    refine dmRound_congr ?_ _ _
    intro j hj
    rw [harray j hj, blockArray, Blocks.leWords_getD (by omega), List.drop_take, List.take_take,
      List.drop_drop, Nat.min_eq_left (by omega)]
  refine ⟨array, ?_⟩
  rw [fullQuadM, StateT.run_bind, hfour, Outcome.ok_bind, ← hcongr]
  rfl

/-- The loop over the complete blocks. -/
theorem fullQuads_run :
    ∃ s : GfsState, ((List.range (m.length / 16)).foldlM (fullQuadM (tracedByteAt (.mem (m ++ t))))
        { intmsg := 0, fullWords := m.length / 4, fullBytes := m.length, array := fun _ => 0,
          h := (0x9464a485, 0x542e1a94) }).run [] = .ok (s, List.range s.intmsg) ∧
      s.intmsg = 16 * (m.length / 16) ∧ s.fullWords = (m.length % 16) / 4 ∧
      s.fullBytes = m.length % 16 ∧ s.h = hashBlocks (Blocks.complete 16 m) := by
  -- after `k` turns the first `k` blocks are folded, and nothing else was read
  obtain ⟨p, hp, hinv⟩ := Outcome.foldlM_range_isOk (n := m.length / 16)
    (f := fun (p : GfsState × List ℕ) i => (fullQuadM (tracedByteAt (.mem (m ++ t))) p.1 i).run p.2)
    (I := fun k p => p.2 = List.range p.1.intmsg ∧ p.1.intmsg = 16 * k ∧
      p.1.fullWords = m.length / 4 - 4 * k ∧ p.1.fullBytes = m.length - 16 * k ∧
      p.1.h = hashBlocks ((Blocks.complete 16 m).take k))
    (s := ({ intmsg := 0, fullWords := m.length / 4, fullBytes := m.length, array := fun _ => 0,
             h := (0x9464a485, 0x542e1a94) }, []))
    ⟨rfl, rfl, rfl, rfl, rfl⟩ (by
      rintro k ⟨s, offsets⟩ hk ⟨hread, hmsg, hwords, hbytes, hh⟩
      dsimp only at hread hmsg hwords hbytes hh
      subst hread
      have hmul := Nat.mul_div_le m.length 16
      obtain ⟨array, hrun⟩ := fullQuadM_run (m := m) (t := t) (s := s) (by omega) k
      refine ⟨_, hrun, rfl, by dsimp only; omega, by dsimp only; omega, by dsimp only; omega, ?_⟩
      have hblock : (Blocks.complete 16 m)[k]? = some ((m.drop s.intmsg).take 16) := by
        rw [Blocks.complete, List.getElem?_map, List.getElem?_range hk, hmsg]
        rfl
      dsimp only
      rw [hh, List.take_add_one (l := Blocks.complete 16 m), hblock, hashBlocks, hashBlocks,
        List.foldl_append]
      rfl)
  obtain ⟨s, offsets⟩ := p
  obtain ⟨hread, hmsg, hwords, hbytes, hh⟩ := hinv
  dsimp only at hread hmsg hwords hbytes hh
  subst hread
  refine ⟨s, ?_, hmsg, by omega, by omega, ?_⟩
  · rw [run_foldlM]
    exact hp
  · rw [hh, List.take_of_length_le (by rw [Blocks.length_complete])]

/-- The left-over bytes are shifted into the word one by one. -/
theorem drainBytesM_run : ∀ (n : ℕ) (word : UInt32), n ≤ m.length →
    (drainBytesM (tracedByteAt (.mem (m ++ t))) m.length n word).run (List.range (m.length - n)) =
      .ok ((m.drop (m.length - n)).foldl pushByte word, List.range m.length) := by
  intro n
  induction n with
  | zero =>
      intro word _
      rw [Nat.sub_zero, List.drop_length]
      rfl
  | succ n ih =>
      intro word hn
      have hlt : m.length - (n + 1) < m.length := by omega
      have hnext : m.length - (n + 1) + 1 = m.length - n := by omega
      rw [drainBytesM, StateT.run_bind, tracedByteAt_run (List.getElem?_eq_getElem hlt),
        Outcome.ok_bind, List.drop_eq_getElem_cons hlt, hnext, List.foldl_cons]
      exact ih _ (by omega)

/-- What holds before the word `k` of the last block is filled: the words that are left are taken
first, then the left-over bytes, and every byte before those still counted was read. -/
structure LastInv (m : Bytes) (k : ℕ) (s : GfsState) (offsets : List ℕ) : Prop where
  words : s.fullWords = m.length % 16 / 4 - k
  bytes : s.fullBytes = if k ≤ m.length % 16 / 4 then m.length % 16 - 4 * k else 0
  msg : k ≤ m.length % 16 / 4 → s.intmsg = m.length - s.fullBytes
  read : offsets = List.range (m.length - s.fullBytes)
  array : ∀ j < k, s.array j = lastArray pushByte m j
  h : s.h = hashBlocks (Blocks.complete 16 m)

/-- The words of the last block that lie in the message. -/
theorem lastArray_of_lt (push : UInt32 → UInt8 → UInt32) {j : ℕ} (h : j < m.length % 16 / 4) :
    lastArray push m j = Blocks.leWord ((m.drop (16 * (m.length / 16) + 4 * j)).take 4) := by
  have hlen : j < (Blocks.leWords (Blocks.rest 16 m)).length := by
    rw [Blocks.leWords, List.length_map, Blocks.length_complete, Blocks.length_rest]
    exact h
  have hword : j < (Blocks.rest 16 m).length / 4 := by
    rw [Blocks.length_rest]
    exact h
  rw [lastArray, List.getD_append _ _ _ _ hlen, Blocks.leWords_getD hword, Blocks.rest,
    List.drop_drop]

/-- The word behind them takes the left-over bytes. -/
theorem lastArray_leftOver (push : UInt32 → UInt8 → UInt32) :
    lastArray push m (m.length % 16 / 4) =
      (Blocks.rest 4 (Blocks.rest 16 m)).foldl push (pad m.length) := by
  have hlen : (Blocks.leWords (Blocks.rest 16 m)).length = m.length % 16 / 4 := by
    rw [Blocks.leWords, List.length_map, Blocks.length_complete, Blocks.length_rest]
  rw [lastArray, List.getD_append_right _ _ _ _ (by rw [hlen]), hlen, Nat.sub_self]
  rfl

/-- The others are padding. -/
theorem lastArray_of_gt (push : UInt32 → UInt8 → UInt32) {j : ℕ} (h : m.length % 16 / 4 < j) :
    lastArray push m j = pad m.length := by
  have hlen : (Blocks.leWords (Blocks.rest 16 m)).length = m.length % 16 / 4 := by
    rw [Blocks.leWords, List.length_map, Blocks.length_complete, Blocks.length_rest]
  rw [lastArray, List.getD_eq_default]
  rw [List.length_append, hlen, List.length_singleton]
  omega

theorem lastWordM_run {k : ℕ} {s : GfsState} {offsets : List ℕ} (hs : LastInv m k s offsets) :
    ∃ p, (lastWordM (tracedByteAt (.mem (m ++ t))) m.length s k).run offsets = .ok p ∧
      LastInv m (k + 1) p.1 p.2 := by
  obtain ⟨hwords, hbytes, hmsg, rfl, harray, hh⟩ := hs
  have hdiv := Nat.div_add_mod m.length 16
  rw [lastWordM]
  by_cases hw : s.fullWords ≠ 0
  · -- a complete word is left
    have hk : k < m.length % 16 / 4 := by omega
    rw [if_pos (by omega)] at hbytes
    have hoff := hmsg (by omega)
    have hstart : s.intmsg = 16 * (m.length / 16) + 4 * k := by omega
    rw [if_pos hw, ← hoff, takeWordM_run (by omega)]
    refine ⟨_, rfl, ⟨by dsimp only; omega, ?_, ?_, ?_, ?_, hh⟩⟩
    · dsimp only
      rw [if_pos (by omega)]
      omega
    · intro _
      dsimp only
      omega
    · dsimp only
      congr 1
      omega
    · intro j hj
      dsimp only
      rcases Nat.lt_succ_iff_lt_or_eq.1 hj with hj | rfl
      · rw [Function.update_of_ne (by omega), harray j hj]
      · rw [Function.update_self, lastArray_of_lt _ hk, hstart]
  · -- none is left: the bytes that are, are drained
    have hk : m.length % 16 / 4 ≤ k := by omega
    have hle : s.fullBytes ≤ m.length := by
      rw [hbytes]
      split <;> omega
    rw [if_neg hw, StateT.run_bind, drainBytesM_run s.fullBytes (pad m.length) hle,
      Outcome.ok_bind]
    refine ⟨_, rfl, ⟨by dsimp only; omega, ?_, ?_, ?_, ?_, hh⟩⟩
    · rw [if_neg (by omega)]
    · intro hle
      omega
    · rw [Nat.sub_zero]
    · intro j hj
      dsimp only
      rcases Nat.lt_succ_iff_lt_or_eq.1 hj with hj | rfl
      · rw [Function.update_of_ne (by omega), harray j hj]
      · rw [Function.update_self]
        rcases Nat.lt_or_eq_of_le hk with hgt | rfl
        · rw [if_neg (by omega)] at hbytes
          rw [hbytes, Nat.sub_zero, List.drop_length, lastArray_of_gt _ hgt]
          rfl
        · have hrest : Blocks.rest 4 (Blocks.rest 16 m) = m.drop (m.length - s.fullBytes) := by
            rw [if_pos (le_refl _)] at hbytes
            rw [Blocks.rest, Blocks.length_rest, Blocks.rest, List.drop_drop]
            congr 1
            omega
          rw [lastArray_leftOver, hrest]

/-- **What the two loops compute, and that they read each byte once**, in order. -/
theorem gfsFillM_run :
    ∃ s : GfsState, (gfsFillM (tracedByteAt (.mem (m ++ t))) m.length).run [] =
        .ok (s, List.range m.length) ∧
      s.h = hashBlocks (Blocks.complete 16 m) ∧ ∀ j < 4, s.array j = lastArray pushByte m j := by
  obtain ⟨s, hs, hmsg, hwords, hbytes, hh⟩ := fullQuads_run (m := m) (t := t)
  have hdiv := Nat.div_add_mod m.length 16
  obtain ⟨p, hp, hinv⟩ := Outcome.foldlM_range_isOk (n := 4)
    (f := fun (p : GfsState × List ℕ) j =>
      (lastWordM (tracedByteAt (.mem (m ++ t))) m.length p.1 j).run p.2)
    (I := fun k p => LastInv m k p.1 p.2) (s := (s, List.range s.intmsg))
    ⟨by omega, by rw [if_pos (Nat.zero_le _)]; omega, by intro _; dsimp only; omega,
      by dsimp only; congr 1; omega, by intro j hj; omega, hh⟩
    (fun k p _ hp => lastWordM_run hp)
  obtain ⟨t, offsets⟩ := p
  obtain ⟨-, hbytes', -, hread, harray, hh'⟩ := hinv
  rw [if_neg (by omega)] at hbytes'
  dsimp only at hread harray hh'
  rw [hbytes', Nat.sub_zero] at hread
  refine ⟨t, ?_, hh', harray⟩
  rw [gfsFillM, StateT.run_bind, hs, Outcome.ok_bind]
  have hrange : [0, 1, 2, 3] = List.range 4 := rfl
  rw [hrange, run_foldlM, hp, hread]

end Run

end Hash
