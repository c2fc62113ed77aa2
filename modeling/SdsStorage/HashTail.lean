/-
**The tail of a hashed message.**

The bytes behind the complete words of a message are pushed into one word, on top of the padding.
The source pushes each as a `char`, which is signed: a byte from `0x80` on sets every bit above its
own, and what was pushed before it is gone.  Below `0x80` the hash is its reference, and beyond it
two tails are told apart as long as what differs is not buried.

Main definitions:

* `Hash.referencePush`, `Hash.referenceHash` — the hash, block by block;
* `Hash.gfsFill` — the state that is given to the last `dm_round`;
* `Hash.TailsDiffer`, `Hash.WordsDiffer` — two messages that differ in their tails, and in the words
  made of them;
* `Hash.Survives` — two lists of bytes differ at a place with nothing from `0x80` on behind it.

Main results:

* `Hash.gfsHashfn_eq_reference` — **for a message of bytes below `0x80` the hash is the reference**;
* `Hash.foldl_pushByte_ne_iff` — what is left of the bytes that were pushed;
* `Hash.wordsDiffer_iff` — **when two tails give two arrays**.
-/

import SdsStorage.HashBlocks

set_option relaxedAutoImplicit false
set_option autoImplicit false

namespace Hash

/-! ### Pushing a byte -/

/-- The conversion of a `char` below `0x80`. -/
theorem signExtend_of_lt {b : UInt8} (h : b < 0x80) : b.toInt8.toInt32.toUInt32 = b.toUInt32 := by
  have hall : ∀ i : Fin 128,
      (UInt8.ofNat i).toInt8.toInt32.toUInt32 = (UInt8.ofNat i).toUInt32 := by decide
  have hb : b.toNat < 128 := h
  simpa using hall ⟨b.toNat, hb⟩

/-- The conversion of a `char` from `0x80` on sets the bits above it. -/
theorem signExtend_of_le {b : UInt8} (h : 0x80 ≤ b) :
    b.toInt8.toInt32.toUInt32 = 0xFFFFFF00 ||| b.toUInt32 := by
  have hall : ∀ i : Fin 128, (UInt8.ofNat (i + 128)).toInt8.toInt32.toUInt32 =
      0xFFFFFF00 ||| (UInt8.ofNat (i + 128)).toUInt32 := by decide
  have hb : 128 ≤ b.toNat := h
  have hlt := b.toNat_lt
  simpa [Nat.sub_add_cancel hb] using hall ⟨b.toNat - 128, by omega⟩

/-- The bits above a byte hide what is shifted there. -/
theorem shiftLeft_or_high (word : UInt32) : word <<< 8 ||| 0xFFFFFF00 = 0xFFFFFF00 := by
  refine UInt32.toBitVec_inj.1 ?_
  ext i hi
  interval_cases i <;> simp [UInt32.toBitVec_shiftLeft]

/-- Pushing a byte as it stands. -/
def referencePush (word : UInt32) (b : UInt8) : UInt32 := (word <<< 8) ||| b.toUInt32

theorem pushByte_of_lt (word : UInt32) {b : UInt8} (h : b < 0x80) :
    pushByte word b = referencePush word b := by
  rw [pushByte, referencePush, signExtend_of_lt h]

theorem toNat_pushByte_of_lt (word : UInt32) {b : UInt8} (h : b < 0x80) :
    (pushByte word b).toNat = word.toNat % 2 ^ 24 * 2 ^ 8 + b.toNat := by
  have hb := b.toNat_lt
  have hshift : (word <<< 8).toNat = 2 ^ 8 * (word.toNat % 2 ^ 24) := by
    rw [UInt32.toNat_shiftLeft, Nat.shiftLeft_eq]
    simp only [UInt32.reduceToNat, Nat.reduceMod, Nat.reducePow]
    omega
  rw [pushByte_of_lt word h, referencePush, UInt32.toNat_or, hshift, UInt8.toNat_toUInt32,
    ← Nat.two_pow_add_eq_or_of_lt hb, Nat.mul_comm]

/-- A byte from `0x80` on leaves nothing of the word. -/
theorem toNat_pushByte_of_le (word : UInt32) {b : UInt8} (h : 0x80 ≤ b) :
    (pushByte word b).toNat = 2 ^ 32 - 2 ^ 8 + b.toNat := by
  have hb := b.toNat_lt
  have hhigh : (0xFFFFFF00 : UInt32).toNat = 2 ^ 8 * (2 ^ 24 - 1) := by decide
  rw [pushByte, signExtend_of_le h, ← UInt32.or_assoc, shiftLeft_or_high, UInt32.toNat_or, hhigh,
    UInt8.toNat_toUInt32, ← Nat.two_pow_add_eq_or_of_lt hb]
  omega

/-! ### The reference -/

/-- The hash of a message, block by block. -/
def referenceHash (m : Bytes) : UInt64 :=
  let h := dmRound dmFullRounds (lastArray referencePush m) (hashBlocks (Blocks.complete 16 m))
  (h.1 ^^^ h.2).toUInt64

theorem lastArray_eq_reference {m : Bytes} (hascii : ∀ b ∈ m, b < 0x80) :
    lastArray pushByte m = lastArray referencePush m := by
  have hfold : (Blocks.rest 4 (Blocks.rest 16 m)).foldl pushByte (pad m.length) =
      (Blocks.rest 4 (Blocks.rest 16 m)).foldl referencePush (pad m.length) := by
    refine List.foldl_ext _ _ _ ?_
    intro word b hb
    exact pushByte_of_lt word (hascii b (List.mem_of_mem_drop (List.mem_of_mem_drop hb)))
  funext j
  rw [lastArray, lastArray, hfold]

/-- The hash is a word, whatever it is made of. -/
theorem toNat_referenceHash_lt (m : Bytes) : (referenceHash m).toNat < 2 ^ 32 := by
  rw [referenceHash, UInt32.toNat_toUInt64]
  exact UInt32.toNat_lt _

/-- The two loops of `gfs_hashfn`. -/
def gfsFill (msg : CharPtr) (len : ℕ) : Outcome GfsState := gfsFillM (byteAt msg) len

/-- What they leave is given to the last `dm_round`. -/
theorem gfsHashfn_eq_finish (msg : CharPtr) (len : ℕ) :
    gfsHashfn msg len = (gfsFill msg len).map gfsFinish := by
  rw [← gfsHashfnM_byteAt, gfsHashfnM, gfsFill]
  cases gfsFillM (byteAt msg) len <;> rfl

/-- **For a message of bytes below `0x80` the hash is the reference**: the message is read byte by
byte, nothing behind it is read, and what is returned is a word. -/
theorem gfsHashfn_eq_reference {m : Bytes} (hascii : ∀ b ∈ m, b < 0x80) (t : Bytes) :
    gfsHashfn (.mem (m ++ t)) m.length = .ok (referenceHash m) ∧
      (gfsHashfnM (tracedByteAt (.mem (m ++ t))) m.length).run [] =
        .ok (referenceHash m, List.range m.length) ∧
      (referenceHash m).toNat < 2 ^ 32 := by
  obtain ⟨s, hs, hh, harray⟩ := gfsFillM_run (m := m) (t := t)
  have hfinish : gfsFinish s = referenceHash m := by
    rw [gfsFinish, referenceHash, hh, ← lastArray_eq_reference hascii, dmRound_congr harray]
  refine ⟨?_, ?_, toNat_referenceHash_lt m⟩
  · have hfill : gfsFill (.mem (m ++ t)) m.length = .ok s :=
      (erases_gfsFill (.mem (m ++ t)) m.length).ok hs
    rw [gfsHashfn_eq_finish, hfill, ← hfinish]
    rfl
  · rw [gfsHashfnM, StateT.run_bind, hs, Outcome.ok_bind, hfinish]
    rfl

/-- Nineteen bytes: a block, no word, and three bytes in the padding. -/
theorem gfsHashfn_eq_reference_nineteen :
    (∀ b ∈ List.replicate 19 (0x61 : UInt8), b < 0x80) ∧
      gfsHashfn (.mem (List.replicate 19 0x61 ++ [0])) 19 =
        .ok (referenceHash (List.replicate 19 0x61)) := by
  have hascii : ∀ b ∈ List.replicate 19 (0x61 : UInt8), b < 0x80 := by
    intro b hb
    rw [List.eq_of_mem_replicate hb]
    decide
  exact ⟨hascii, (gfsHashfn_eq_reference hascii [0]).1⟩

/-! ### What is left of the bytes that were pushed -/

/-- Two lists differ at a place behind which all bytes are below `0x80`. -/
def Survives (l l' : Bytes) : Prop :=
  ∃ i, l[i]? ≠ l'[i]? ∧ ∀ b ∈ l.drop (i + 1) ++ l'.drop (i + 1), b < 0x80

theorem not_survives_nil : ¬ Survives [] [] := by
  rintro ⟨i, hne, -⟩
  exact hne rfl

theorem survives_concat_iff {l l' : Bytes} (hlen : l.length = l'.length) (c c' : UInt8) :
    Survives (l ++ [c]) (l' ++ [c']) ↔ c ≠ c' ∨ (c < 0x80 ∧ Survives l l') := by
  constructor
  · rintro ⟨i, hne, hbehind⟩
    by_cases hc : c = c'
    · subst hc
      refine Or.inr ?_
      have hi : i < l.length := by
        by_contra hge
        rw [List.getElem?_append_right (by omega), List.getElem?_append_right (by omega),
          hlen] at hne
        exact hne rfl
      rw [List.getElem?_append_left hi, List.getElem?_append_left (by omega)] at hne
      rw [List.drop_append_of_le_length (by omega), List.drop_append_of_le_length (by omega)]
        at hbehind
      refine ⟨hbehind c (by simp), i, hne, ?_⟩
      intro b hb
      refine hbehind b ?_
      rcases List.mem_append.1 hb with hb | hb
      · exact List.mem_append_left _ (List.mem_append_left _ hb)
      · exact List.mem_append_right _ (List.mem_append_left _ hb)
    · exact Or.inl hc
  · by_cases hc : c = c'
    · subst hc
      rintro (hne | ⟨hlt, i, hne, hbehind⟩)
      · exact absurd rfl hne
      · have hi : i < l.length := by
          by_contra hge
          rw [List.getElem?_eq_none (by omega), List.getElem?_eq_none (by omega)] at hne
          exact hne rfl
        refine ⟨i, ?_, ?_⟩
        · rwa [List.getElem?_append_left hi, List.getElem?_append_left (by omega)]
        · intro b hb
          rw [List.drop_append_of_le_length (by omega), List.drop_append_of_le_length (by omega)]
            at hb
          simp only [List.mem_append, List.mem_singleton] at hb
          rcases hb with (hb | rfl) | (hb | rfl)
          · exact hbehind b (List.mem_append_left _ hb)
          · exact hlt
          · exact hbehind b (List.mem_append_right _ hb)
          · exact hlt
    · intro _
      refine ⟨l.length, ?_, ?_⟩
      · rw [List.getElem?_concat_length, hlen, List.getElem?_concat_length]
        exact fun h => hc (Option.some.inj h)
      · intro b hb
        rw [List.drop_eq_nil_of_le (by simp), List.drop_eq_nil_of_le (by simp [hlen])] at hb
        cases hb

/-- What the last byte leaves of the bytes below it. -/
theorem pushByte_mod_eq_iff (word word' : UInt32) (c c' : UInt8) {k : ℕ} (hk : k < 4) :
    (pushByte word c).toNat % 256 ^ (k + 1) = (pushByte word' c').toNat % 256 ^ (k + 1) ↔
      c = c' ∧ (c < 0x80 → word.toNat % 256 ^ k = word'.toNat % 256 ^ k) := by
  have hc := c.toNat_lt
  have hc' := c'.toNat_lt
  have hinj : c = c' ↔ c.toNat = c'.toNat := UInt8.toNat_inj.symm
  have hlt : c < 0x80 ↔ c.toNat < 128 := Iff.rfl
  rw [hinj, hlt]
  rcases Nat.lt_or_ge c.toNat 128 with h | h <;> rcases Nat.lt_or_ge c'.toNat 128 with h' | h'
  · rw [toNat_pushByte_of_lt word h, toNat_pushByte_of_lt word' h']
    interval_cases k <;> omega
  · rw [toNat_pushByte_of_lt word h, toNat_pushByte_of_le word' h']
    interval_cases k <;> omega
  · rw [toNat_pushByte_of_le word h, toNat_pushByte_of_lt word' h']
    interval_cases k <;> omega
  · rw [toNat_pushByte_of_le word h, toNat_pushByte_of_le word' h']
    interval_cases k <;> omega

theorem foldl_pushByte_mod_ne_iff {l l' : Bytes} (hlen : l.length = l'.length) (word : UInt32)
    {k : ℕ} (hk : k ≤ 4) (hl : l.length ≤ k) :
    (l.foldl pushByte word).toNat % 256 ^ k ≠ (l'.foldl pushByte word).toNat % 256 ^ k ↔
      Survives l l' := by
  induction l using List.reverseRecOn generalizing l' k with
  | nil =>
      rw [List.eq_nil_of_length_eq_zero hlen.symm]
      exact ⟨fun h => absurd rfl h, fun h => absurd h not_survives_nil⟩
  | append_singleton l c ih =>
      rw [List.length_append, List.length_singleton] at hlen hl
      obtain ⟨l'', c', rfl⟩ : ∃ l'' c', l' = l'' ++ [c'] := by
        rcases List.eq_nil_or_concat l' with rfl | h
        · simp at hlen
        · obtain ⟨l'', c', hl'⟩ := h
          exact ⟨l'', c', by rw [hl', List.concat_eq_append]⟩
      rw [List.length_append, List.length_singleton] at hlen
      obtain ⟨k, rfl⟩ : ∃ j, k = j + 1 := ⟨k - 1, by omega⟩
      have hlen' : l.length = l''.length := by omega
      have hih := ih hlen' (k := k) (by omega) (by omega)
      rw [survives_concat_iff hlen', List.foldl_append, List.foldl_append, List.foldl_cons,
        List.foldl_nil, List.foldl_cons, List.foldl_nil, Ne, pushByte_mod_eq_iff _ _ _ _ (by omega),
        ← hih]
      tauto

/-- **What is left of the bytes that were pushed.** -/
theorem foldl_pushByte_ne_iff {l l' : Bytes} (hlen : l.length = l'.length) (hl : l.length ≤ 4)
    (word : UInt32) : l.foldl pushByte word ≠ l'.foldl pushByte word ↔ Survives l l' := by
  have hmod : ∀ w : UInt32, w.toNat % 256 ^ 4 = w.toNat := by
    intro w
    exact Nat.mod_eq_of_lt w.toNat_lt
  rw [← foldl_pushByte_mod_ne_iff hlen word (le_refl 4) hl, hmod, hmod, Ne, Ne, UInt32.toNat_inj]

/-! ### Two messages -/

theorem gfsFill_isOk (m : Bytes) :
    ∃ s, gfsFill (.mem m) m.length = .ok s ∧ ∀ j < 4, s.array j = lastArray pushByte m j := by
  obtain ⟨s, hs, -, harray⟩ := gfsFillM_run (m := m) (t := [])
  rw [List.append_nil] at hs
  exact ⟨s, (erases_gfsFill (.mem m) m.length).ok hs, harray⟩

/-- Two messages of one length that differ behind their complete blocks. -/
structure TailsDiffer (m m' : Bytes) : Prop where
  length_eq : m.length = m'.length
  complete_eq : Blocks.complete 16 m = Blocks.complete 16 m'
  rest_ne : Blocks.rest 16 m ≠ Blocks.rest 16 m'

/-- The four words given to the last `dm_round` are not the same. -/
def WordsDiffer (m m' : Bytes) : Prop :=
  ∃ s s', gfsFill (.mem m) m.length = .ok s ∧ gfsFill (.mem m') m'.length = .ok s' ∧
    ∃ j < 4, s.array j ≠ s'.array j

theorem wordsDiffer_iff_lastArray (m m' : Bytes) :
    WordsDiffer m m' ↔ ∃ j < 4, lastArray pushByte m j ≠ lastArray pushByte m' j := by
  obtain ⟨s, hs, harray⟩ := gfsFill_isOk m
  obtain ⟨s', hs', harray'⟩ := gfsFill_isOk m'
  constructor
  · rintro ⟨u, u', hu, hu', j, hj, hne⟩
    rw [hs] at hu
    rw [hs'] at hu'
    cases hu
    cases hu'
    exact ⟨j, hj, by rwa [← harray j hj, ← harray' j hj]⟩
  · rintro ⟨j, hj, hne⟩
    exact ⟨s, s', hs, hs', j, hj, by rwa [harray j hj, harray' j hj]⟩

/-- Two arrays that agree come from the same complete words. -/
theorem complete_eq_of_lastArray {m m' : Bytes} (hlen : m.length = m'.length)
    (hword : ∀ j < 4, lastArray pushByte m j = lastArray pushByte m' j) :
    Blocks.complete 4 (Blocks.rest 16 m) = Blocks.complete 4 (Blocks.rest 16 m') := by
  have hrest : (Blocks.rest 16 m).length = (Blocks.rest 16 m').length := by
    simp only [Blocks.length_rest, hlen]
  rw [Blocks.complete, Blocks.complete, ← hrest]
  refine List.map_congr_left ?_
  intro j hj
  have hjlt : j < m.length % 16 / 4 := by
    rw [List.mem_range, Blocks.length_rest] at hj
    exact hj
  have hj' := hword j (by omega)
  rw [lastArray_of_lt _ hjlt, lastArray_of_lt _ (by rwa [← hlen])] at hj'
  rw [Blocks.rest, Blocks.rest, List.drop_drop, List.drop_drop]
  refine Blocks.leWord_inj ?_ ?_ hj'
  · rw [List.length_take, List.length_drop]
    omega
  · rw [List.length_take, List.length_drop]
    omega

/-- **When two tails give two arrays**: they differ in a complete word, or in a left-over byte with
no byte from `0x80` on behind it. -/
theorem wordsDiffer_iff {m m' : Bytes} (h : TailsDiffer m m') :
    WordsDiffer m m' ↔
      Blocks.complete 4 (Blocks.rest 16 m) ≠ Blocks.complete 4 (Blocks.rest 16 m') ∨
      Survives (Blocks.rest 4 (Blocks.rest 16 m)) (Blocks.rest 4 (Blocks.rest 16 m')) := by
  have hlen := h.length_eq
  have hrest : (Blocks.rest 4 (Blocks.rest 16 m)).length =
      (Blocks.rest 4 (Blocks.rest 16 m')).length := by
    simp only [Blocks.length_rest, hlen]
  have hle : (Blocks.rest 4 (Blocks.rest 16 m)).length ≤ 4 := by
    rw [Blocks.length_rest]
    omega
  rw [wordsDiffer_iff_lastArray, ← foldl_pushByte_ne_iff hrest hle (pad m.length)]
  constructor
  · rintro ⟨j, -, hne⟩
    by_contra hall
    rw [not_or, not_ne_iff, not_ne_iff] at hall
    rw [lastArray, lastArray, Blocks.leWords, Blocks.leWords, hall.1, hall.2, hlen] at hne
    exact hne rfl
  · rintro (hne | hne)
    · by_contra hall
      refine hne (complete_eq_of_lastArray hlen ?_)
      intro j hj
      by_contra hj'
      exact hall ⟨j, hj, hj'⟩
    · refine ⟨m.length % 16 / 4, by omega, ?_⟩
      rw [lastArray_leftOver, hlen, lastArray_leftOver, ← hlen]
      exact hne

/-- The two messages `a` and `b`, of one byte each. -/
theorem wordsDiffer_iff_letters : TailsDiffer [0x61] [0x62] ∧ WordsDiffer [0x61] [0x62] := by
  have h : TailsDiffer [0x61] [0x62] := ⟨rfl, by decide, by decide⟩
  have hbehind : (Blocks.rest 4 (Blocks.rest 16 [(0x61 : UInt8)])).drop 1 ++
      (Blocks.rest 4 (Blocks.rest 16 [(0x62 : UInt8)])).drop 1 = [] := by decide
  refine ⟨h, (wordsDiffer_iff h).2 (Or.inr ⟨0, by decide, ?_⟩)⟩
  rw [hbehind]
  exact fun b hb => absurd hb List.not_mem_nil

/-- The names `aé` and `bé` of two objects, in UTF-8. -/
theorem accented_words_eq :
    TailsDiffer [0x61, 0xC3, 0xA9] [0x62, 0xC3, 0xA9] ∧
      ¬ WordsDiffer [0x61, 0xC3, 0xA9] [0x62, 0xC3, 0xA9] := by
  refine ⟨⟨rfl, by decide, by decide⟩, ?_⟩
  rw [wordsDiffer_iff_lastArray]
  decide

end Hash
