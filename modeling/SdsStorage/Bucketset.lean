/-
**Bucket sets.**

A set divides the hashes into ranges of equal width and gives each range a bucket.
`bucketset_create` computes the ranges while it makes the buckets; `bucketset_search_bucket` scans
the buckets for the one whose range contains a hash.  Creation makes the last rank of a range its
upper bound, while the search compares with the bound strictly, and counts with an `int`.

Main definitions:

* `bucketsetHashRangeRound` — the width of a range;
* `Memory`, `Bucketset`, `bucketsetCreate` — sets, and the buckets they lead to;
* `bucketsetSearchBucket` — the scan;
* `Covers`, `SearchExact` — a bucket's range contains a hash, and the search finds that bucket.

Main results:

* `hashRangeRound_isSome` — the rounding loop stops;
* `bucketsetCreate_ranges` — **the ranks of every bucket of a new set**;
* `bucketsetSearchBucket_eq` — **what the search returns for every hash**;
* `bucketsetSearchBucket_exact_iff` — the search finds the bucket of a hash exactly when the hash
  is not the last of its range and the bucket is within reach of the index.
-/

import SdsStorage.Bucket

set_option relaxedAutoImplicit false
set_option autoImplicit false

/-! ### The width of a range -/

/-- `BUCKET_MIN_HASH`. -/
def bucketMinHash : ℤ := 512

/-- One turn of the loop of `bucketset_hash_range_round`: the product is an `int`, which is
converted to `uint64_t`. -/
def hashRangeRoundTurn (base : UInt64) (i : ℤ) : Loop.Turn ℤ UInt64 :=
  if 0 < i then
    let hash := UInt64.ofNat (CInt.toUInt64 (CInt.toInt32 (i * bucketMinHash)))
    if base < hash then .done hash else .again (CInt.toInt32 (i + 1))
  else .done 0

/-- `bucketset_hash_range_round`. -/
def bucketsetHashRangeRound (base : UInt64) : UInt64 :=
  (Loop.run (hashRangeRoundTurn base) (2 ^ 31) 1).getD 0

/-- The loop stops, at the latest when its index turns negative. -/
theorem hashRangeRound_isSome (base : UInt64) :
    (Loop.run (hashRangeRoundTurn base) (2 ^ 31) 1).isSome := by
  refine Loop.run_isSome_of_variant (I := fun i => i = -2 ^ 31 ∨ (1 ≤ i ∧ i < 2 ^ 31))
    (fun i => if 0 < i then (2 ^ 31 - i).toNat else 0) ?_ (Or.inr (by omega)) (by simp)
  intro i i' hi h
  rw [hashRangeRoundTurn] at h
  split at h
  · rename_i hpos
    dsimp only at h
    split at h
    · cases h
    · cases h
      rw [CInt.toInt32_eq, if_pos hpos]
      refine ⟨by omega, ?_⟩
      split <;> omega
  · cases h

/-! ### Sets -/

/-- `bucketset`. -/
structure Bucketset where
  dataDir : Slice
  setName : Slice
  bucketRangeCount : UInt64
  bucketSize : UInt64
  buckets : CVector Addr
  dataFileSizeUnit : UInt64

/-- The heap of the server: the buckets and the sets made so far. -/
structure Memory where
  buckets : List Bucket
  bucketsets : List Bucketset

namespace Memory

/-- Nothing is made yet. -/
def empty : Memory := { buckets := [], bucketsets := [] }

/-- The bucket a pointer leads to. -/
def bucket (m : Memory) : Option Addr → Outcome Bucket
  | none => .error .nullDeref
  | some a =>
      match m.buckets[a]? with
      | some bt => .ok bt
      | none => .error .wild

/-- The set a pointer leads to. -/
def bucketset (m : Memory) : Option Addr → Outcome Bucketset
  | none => .error .nullDeref
  | some a =>
      match m.bucketsets[a]? with
      | some bst => .ok bst
      | none => .error .wild

end Memory

/-- The name of a bucket's data file, from `"%s/%s-%ld-%ld-bucket"`. -/
def bucketName (dataDir name : CharPtr) (start stop : UInt64) : Outcome Bytes := do
  let dir ← CString.percentS dataDir
  let set ← CString.percentS name
  .ok (CString.snprintf 4096 (dir ++ [47] ++ set ++ [45] ++
    CString.decimal (CInt.toInt64 start.toNat) ++ [45] ++
    CString.decimal (CInt.toInt64 stop.toNat) ++ [45, 98, 117, 99, 107, 101, 116]))

/-- What the loop of `bucketset_create` builds. -/
structure Building where
  buckets : List Bucket
  fs : Fs
  vec : CVector Addr

/-- One turn of the loop of `bucketset_create`. -/
def bucketsetFill (chance : ℕ → FsChance) (dataDir name : CharPtr) (rangeCount unit : UInt64)
    (s : Building) (i : ℕ) : Outcome Building := do
  let start := UInt64.ofNat i * rangeCount
  let stop := (UInt64.ofNat i + 1) * rangeCount - 1
  let buffer ← bucketName dataDir name start stop
  let made ← bucketCreate s.fs (chance i) (.mem (CString.cstr buffer)) (unit * 1024 * 1024) start
    stop
  match made.1 with
  | none => .error .abort
  | some bt => do
      let pushed ← vectorPushBack s.vec (some s.buckets.length)
      .ok { buckets := s.buckets ++ [{ bt with id := CInt.toInt32 i }]
            fs := made.2
            vec := pushed.1 }

/-- `bucketset_create`: the heap, the file system and the new set. -/
def bucketsetCreate (m : Memory) (fs : Fs) (chance : ℕ → FsChance) (name dataDir : CharPtr)
    (bucketSize bucketRangeCount dataFileSizeUnit : UInt64) : Outcome (Memory × Fs × Addr) := do
  let rangeCount := bucketsetHashRangeRound bucketRangeCount
  let vec ← vectorInit bucketSize.toNat
  let dirSlice ← sliceInit dataDir
  let nameSlice ← sliceInit name
  let built ← (List.range bucketSize.toNat).foldlM
    (bucketsetFill chance dataDir name rangeCount dataFileSizeUnit)
    { buckets := m.buckets, fs := fs, vec := vec }
  .ok ({ buckets := built.buckets
         bucketsets := m.bucketsets ++
          [{ dataDir := dirSlice.2, setName := nameSlice.2, bucketRangeCount := rangeCount,
             bucketSize := bucketSize, buckets := built.vec,
             dataFileSizeUnit := dataFileSizeUnit }] },
    built.fs, m.bucketsets.length)

/-- One turn of the scan of `bucketset_search_bucket`. -/
def searchTurn (m : Memory) (bst : Bucketset) (hash : UInt64) (i : ℕ) :
    Option (Outcome (Option Addr)) :=
  match m.bucket (vectorAt bst.buckets i) with
  | .error f => some (.error f)
  | .ok bt =>
      if bt.minRank ≤ hash ∧ hash < bt.maxRank then some (.ok (vectorAt bst.buckets i)) else none

/-- `bucketset_search_bucket`.  The jump hash it computes first is not used. -/
def bucketsetSearchBucket (m : Memory) (bst : Bucketset) (hash : UInt64) : Outcome (Option Addr) :=
  (Loop.forInt (searchTurn m bst hash) bst.buckets.size).getD (.ok none)

/-! ### The ranks of a new set -/

/-- The bucket `i` of a set whose ranges have width `r`. -/
structure IsRange (bt : Bucket) (r : UInt64) (i : ℕ) : Prop where
  id_eq : bt.id = CInt.toInt32 i
  minRank_eq : bt.minRank = UInt64.ofNat i * r
  maxRank_eq : bt.maxRank = (UInt64.ofNat i + 1) * r - 1

/-- The vector shows `n` pointers, each to the bucket of its position. -/
structure Ranges (buckets : List Bucket) (vec : CVector Addr) (r : UInt64) (n : ℕ) : Prop where
  size_eq : vec.size = n
  bucket : ∀ i < n, ∃ a bt, vectorAt vec i = some a ∧ buckets[a]? = some bt ∧ IsRange bt r i

/-- What a turn of the creation loop that returns has done. -/
theorem bucketsetFill_ok {chance : ℕ → FsChance} {dataDir name : CharPtr} {r unit : UInt64}
    {s t : Building} {i : ℕ} (h : bucketsetFill chance dataDir name r unit s i = .ok t) :
    ∃ bt pushed status, IsRange bt r i ∧ t.buckets = s.buckets ++ [bt] ∧
      vectorPushBack s.vec (some s.buckets.length) = .ok (pushed, status) ∧ t.vec = pushed := by
  rw [bucketsetFill] at h
  simp only [Outcome.bind_eq_ok] at h
  obtain ⟨buffer, -, ⟨made, fs⟩, hmade, h⟩ := h
  cases made with
  | none => cases h
  | some bt =>
      rw [Outcome.bind_eq_ok] at h
      obtain ⟨⟨pushed, status⟩, hpush, h⟩ := h
      cases h
      obtain ⟨-, -, hmin, hmax, -⟩ := bucketCreate_ok hmade
      exact ⟨{ bt with id := CInt.toInt32 i }, pushed, status, ⟨rfl, hmin, hmax⟩, rfl, hpush, rfl⟩

theorem Ranges.push {buckets : List Bucket} {vec vec' : CVector Addr} {r : UInt64} {n : ℕ}
    (h : Ranges buckets vec r n) {bt : Bucket} (hbt : IsRange bt r n)
    (hsize : vec'.size = vec.size + 1) (hnew : vectorAt vec' vec.size = some buckets.length)
    (hold : ∀ i < vec.size, vectorAt vec' i = vectorAt vec i) :
    Ranges (buckets ++ [bt]) vec' r (n + 1) where
  size_eq := by rw [hsize, h.size_eq]
  bucket := by
    intro i hi
    rcases Nat.lt_succ_iff_lt_or_eq.1 hi with hlt | rfl
    · obtain ⟨a, b, hat, hb, hr⟩ := h.bucket i hlt
      refine ⟨a, b, ?_, ?_, hr⟩
      · rw [hold i (by rw [h.size_eq]; exact hlt), hat]
      · have ha : a < buckets.length := (List.getElem?_eq_some_iff.1 hb).1
        rw [List.getElem?_append_left ha, hb]
    · refine ⟨buckets.length, bt, ?_, by simp, hbt⟩
      rw [← h.size_eq]
      exact hnew

/-- What the creation loop builds. -/
theorem bucketsetFill_ranges {chance : ℕ → FsChance} {dataDir name : CharPtr} {r unit : UInt64}
    {n : ℕ} {s t : Building} (hsize : s.vec.size = 0) (hcap : s.vec.cap = n)
    (h : (List.range n).foldlM (bucketsetFill chance dataDir name r unit) s = .ok t) :
    Ranges t.buckets t.vec r n := by
  have hstart : Ranges s.buckets s.vec r 0 ∧ s.vec.cap = n :=
    ⟨⟨hsize, fun i hi => absurd hi (Nat.not_lt_zero i)⟩, hcap⟩
  refine (Outcome.foldlM_range_ok
    (I := fun k st => Ranges st.buckets st.vec r k ∧ st.vec.cap = n) h hstart ?_).1
  rintro k s t hk hturn ⟨hranges, hcap⟩
  obtain ⟨bt, pushed, status, hbt, hbuckets, hpush, hvec'⟩ := bucketsetFill_ok hturn
  have hroom : s.vec.size < s.vec.cap := by rw [hranges.size_eq, hcap]; exact hk
  obtain ⟨vec', hpush', hsize', hcap'⟩ := vectorPushBack_of_lt hroom s.buckets.length
  rw [hpush'] at hpush
  cases hpush
  rcases vectorPushBack_ok hpush' with ⟨-, hbad⟩ | ⟨-, -, -, hnew, hold⟩
  · cases hbad
  · rw [hbuckets, hvec']
    exact ⟨hranges.push hbt hsize' hnew hold, hcap'.trans hcap⟩

/-- What a creation that returns has done: there is one more set, under the name it was given, with
one bucket for each range. -/
theorem bucketsetCreate_ok {m m' : Memory} {fs fs' : Fs} {chance : ℕ → FsChance}
    {name dataDir : CharPtr} {n base unit : UInt64} {a : Addr}
    (h : bucketsetCreate m fs chance name dataDir n base unit = .ok (m', fs', a)) :
    ∃ bst, m'.bucketsets = m.bucketsets ++ [bst] ∧ a = m.bucketsets.length ∧
      (∃ status, sliceInit name = .ok (status, bst.setName)) ∧ bst.bucketSize = n ∧
      Ranges m'.buckets bst.buckets (bucketsetHashRangeRound base) n.toNat := by
  rw [bucketsetCreate] at h
  generalize bucketsetHashRangeRound base = r at h ⊢
  simp only [Outcome.bind_eq_ok] at h
  obtain ⟨vec, hvec, dir, -, ⟨status, set⟩, hset, built, hfill, h⟩ := h
  cases h
  obtain ⟨hsize, hcap, -⟩ := vectorInit_ok hvec
  exact ⟨_, rfl, rfl, ⟨status, hset⟩, rfl, bucketsetFill_ranges hsize hcap hfill⟩

/-- **The ranks of every bucket of a new set.** -/
theorem bucketsetCreate_ranges {m m' : Memory} {fs fs' : Fs} {chance : ℕ → FsChance}
    {name dataDir : CharPtr} {n base unit : UInt64} {a : Addr}
    (h : bucketsetCreate m fs chance name dataDir n base unit = .ok (m', fs', a)) :
    ∃ bst, m'.bucketset (some a) = .ok bst ∧
      Ranges m'.buckets bst.buckets (bucketsetHashRangeRound base) n.toNat := by
  obtain ⟨bst, hsets, rfl, -, -, hranges⟩ := bucketsetCreate_ok h
  exact ⟨bst, by simp [Memory.bucketset, hsets], hranges⟩

/-- A new set has the name it was made with. -/
theorem bucketsetCreate_name {m m' : Memory} {fs fs' : Fs} {chance : ℕ → FsChance}
    {s t : Bytes} (hs : CString.NoNul s) {dataDir : CharPtr} {n base unit : UInt64} {a : Addr}
    (h : bucketsetCreate m fs chance (.mem (s ++ 0 :: t)) dataDir n base unit = .ok (m', fs', a)) :
    ∃ bst, m'.bucketset (some a) = .ok bst ∧ bst.setName.Represents s := by
  obtain ⟨bst, hsets, rfl, ⟨status, hname⟩, -, -⟩ := bucketsetCreate_ok h
  obtain ⟨se, hse, hrep⟩ := sliceInit_cstr hs t
  rw [hse] at hname
  cases hname
  exact ⟨bst, by simp [Memory.bucketset, hsets], hrep⟩

/-- A turn of the creation loop returns whenever the calls to the system succeed. -/
theorem bucketsetFill_isOk {dataDir name : CharPtr} {r unit : UInt64}
    (hdir : ∃ d, CString.percentS dataDir = .ok d) (hname : ∃ s, CString.percentS name = .ok s)
    (hunit : Accepted (unit * 1024 * 1024)) {s : Building} (hroom : s.vec.size < s.vec.cap) (i : ℕ)
    (hserves : callocServes
      ((UInt64.ofNat i + 1) * r - 1 - UInt64.ofNat i * r).toNat) :
    ∃ t, bucketsetFill (fun _ => { openFails := false, fallocateFails := false }) dataDir name r
      unit s i = .ok t ∧ t.vec.size = s.vec.size + 1 ∧ t.vec.cap = s.vec.cap := by
  obtain ⟨dir, hdir⟩ := hdir
  obtain ⟨set, hset⟩ := hname
  have hbuffer : ∃ buffer, bucketName dataDir name (UInt64.ofNat i * r)
      ((UInt64.ofNat i + 1) * r - 1) = .ok buffer := by
    rw [bucketName, hdir, hset]
    exact ⟨_, rfl⟩
  obtain ⟨buffer, hbuffer⟩ := hbuffer
  have hterm : (0 : UInt8) ∈ CString.cstr buffer := by simp [CString.cstr]
  obtain ⟨hnul, rest, hb⟩ := CString.eq_append_of_mem hterm
  generalize (CString.cstr buffer).takeWhile (· ≠ 0) = b at hnul hb
  obtain ⟨bt, fs', hmade⟩ := bucketCreate_isOk s.fs hnul rest hunit hserves
  obtain ⟨vec', hpush, hsize, hcap⟩ := vectorPushBack_of_lt hroom s.buckets.length
  rw [bucketsetFill]
  simp only [hbuffer, hb, hmade, hpush, Outcome.ok_bind]
  exact ⟨_, rfl, hsize, hcap⟩

/-- A set is made whenever the calls to the system succeed. -/
theorem bucketsetCreate_isOk (m : Memory) (fs : Fs) {s : Bytes} (hs : CString.NoNul s) (t : Bytes)
    {n base unit : UInt64} (hn : callocServes n.toNat) (hunit : Accepted (unit * 1024 * 1024))
    (hserves : ∀ i < n.toNat, callocServes
      ((UInt64.ofNat i + 1) * bucketsetHashRangeRound base - 1 -
        UInt64.ofNat i * bucketsetHashRangeRound base).toNat) :
    ∃ m' fs' a, bucketsetCreate m fs (fun _ => { openFails := false, fallocateFails := false })
      (.mem (s ++ 0 :: t)) .null n base unit = .ok (m', fs', a) := by
  obtain ⟨vec, hvec⟩ : ∃ vec : CVector Addr, _ := vectorInit_isOk hn
  obtain ⟨hsize, hcap, -⟩ := vectorInit_ok hvec
  obtain ⟨name, hname, -⟩ := sliceInit_cstr hs t
  have hdir : sliceInit .null = .ok (-1, Slice.zero) := rfl
  rw [bucketsetCreate]
  generalize bucketsetHashRangeRound base = r at hserves ⊢
  obtain ⟨built, hbuilt, -⟩ := Outcome.foldlM_range_isOk
    (I := fun k st => st.vec.size = k ∧ st.vec.cap = n.toNat)
    (f := bucketsetFill (fun _ => { openFails := false, fallocateFails := false }) .null
      (.mem (s ++ 0 :: t)) r unit)
    (s := { buckets := m.buckets, fs := fs, vec := vec }) ⟨hsize, hcap⟩
    (n := n.toNat) (by
      rintro k st hk ⟨hksize, hkcap⟩
      have hnull : ∃ d, CString.percentS .null = .ok d := ⟨_, rfl⟩
      obtain ⟨t', hturn, ht, htcap⟩ := bucketsetFill_isOk hnull (CString.percentS_isOk hs t) hunit
        (by rw [hksize, hkcap]; exact hk) k (hserves k hk)
      exact ⟨t', hturn, by rw [ht, hksize], htcap.trans hkcap⟩)
  simp only [hvec, hdir, hname, hbuilt, Outcome.ok_bind]
  exact ⟨_, _, _, rfl⟩

/-! ### The search -/

/-- The bucket at the position `i` of a set has a range that contains the hash. -/
def Covers (m : Memory) (bst : Bucketset) (hash : UInt64) (i : ℕ) : Prop :=
  ∃ a bt, vectorAt bst.buckets i = some a ∧ m.buckets[a]? = some bt ∧ bt.minRank ≤ hash ∧
    hash < bt.maxRank

/-- The search finds exactly the bucket of a hash that is one of the `n * r` hashes of the set, and
returns null for other hashes only. -/
def SearchExact (m : Memory) (bst : Bucketset) (n r : ℕ) (hash : UInt64) : Prop :=
  (hash.toNat < n * r →
    ∃ a bt, bucketsetSearchBucket m bst hash = .ok (some a) ∧ m.buckets[a]? = some bt ∧
      bt.id = (hash.toNat / r : ℕ) ∧ ∀ i, Covers m bst hash i ↔ i = hash.toNat / r) ∧
  (bucketsetSearchBucket m bst hash = .ok none → n * r ≤ hash.toNat)

/-- The bounds of a range, when the set's hashes fit in 64 bits. -/
theorem IsRange.toNat_eq {bt : Bucket} {r : UInt64} {i n : ℕ} (h : IsRange bt r i) (hi : i < n)
    (hr : 0 < r.toNat) (hfit : n * r.toNat < 2 ^ 64) :
    bt.minRank.toNat = i * r.toNat ∧ bt.maxRank.toNat = (i + 1) * r.toNat - 1 := by
  have hnext : (i + 1) * r.toNat < 2 ^ 64 :=
    Nat.lt_of_le_of_lt (Nat.mul_le_mul_right _ hi) hfit
  have hle : i + 1 ≤ (i + 1) * r.toNat := Nat.le_mul_of_pos_right _ hr
  have hmul : (i + 1) * r.toNat = i * r.toNat + r.toNat := Nat.succ_mul i r.toNat
  have hmin : (UInt64.ofNat i * r).toNat = i * r.toNat := by
    rw [UInt64.toNat_mul, UInt64.toNat_ofNat', Nat.mod_eq_of_lt (a := i) (by omega),
      Nat.mod_eq_of_lt (by omega)]
  have hmax : ((UInt64.ofNat i + 1) * r).toNat = (i + 1) * r.toNat := by
    rw [UInt64.toNat_mul, UInt64.toNat_add, UInt64.toNat_ofNat', UInt64.toNat_one,
      Nat.mod_eq_of_lt (a := i) (by omega), Nat.mod_eq_of_lt (a := i + 1) (by omega),
      Nat.mod_eq_of_lt hnext]
  refine ⟨h.minRank_eq ▸ hmin, ?_⟩
  have hone : (1 : UInt64) ≤ (UInt64.ofNat i + 1) * r := by
    rw [UInt64.le_iff_toNat_le, hmax, UInt64.toNat_one]
    omega
  rw [h.maxRank_eq, UInt64.toNat_sub_of_le _ _ hone, hmax, UInt64.toNat_one]

/-- A hash lies in the half-open range `i` when it is in the `i`-th stretch of `r` hashes and is not
the last of that stretch. -/
theorem mem_range_iff {h i r : ℕ} (hr : 0 < r) :
    (i * r ≤ h ∧ h < (i + 1) * r - 1) ↔ i = h / r ∧ h % r ≠ r - 1 := by
  have hdecomp := Nat.div_add_mod h r
  have hmod := Nat.mod_lt h hr
  constructor
  · rintro ⟨hle, hlt⟩
    have hi : h / r = i := by
      refine Nat.div_eq_of_lt_le hle ?_
      rw [Nat.succ_mul] at hlt ⊢
      omega
    subst hi
    refine ⟨rfl, ?_⟩
    rw [Nat.succ_mul, Nat.mul_comm] at hlt
    omega
  · rintro ⟨rfl, hne⟩
    rw [Nat.succ_mul, Nat.mul_comm]
    omega

section Search

variable {m : Memory} {bst : Bucketset} {r : UInt64} {n : ℕ}

theorem covers_iff (h : Ranges m.buckets bst.buckets r n) (hr : 0 < r.toNat)
    (hfit : n * r.toNat < 2 ^ 64) (hash : UInt64) (i : ℕ) :
    Covers m bst hash i ↔
      i < n ∧ i = hash.toNat / r.toNat ∧ hash.toNat % r.toNat ≠ r.toNat - 1 := by
  constructor
  · rintro ⟨a, bt, hat, hbt, hmin, hmax⟩
    have hi : i < n := h.size_eq ▸ lt_size_of_vectorAt hat
    refine ⟨hi, ?_⟩
    obtain ⟨a', bt', hat', hbt', hrange⟩ := h.bucket i hi
    rw [hat'] at hat
    cases hat
    rw [hbt'] at hbt
    cases hbt
    obtain ⟨hlo, hhi⟩ := hrange.toNat_eq hi hr hfit
    rw [← mem_range_iff hr, ← hlo, ← hhi]
    exact ⟨UInt64.le_iff_toNat_le.1 hmin, UInt64.lt_iff_toNat_lt.1 hmax⟩
  · rintro ⟨hi, hin⟩
    obtain ⟨a, bt, hat, hbt, hrange⟩ := h.bucket i hi
    obtain ⟨hlo, hhi⟩ := hrange.toNat_eq hi hr hfit
    rw [← mem_range_iff hr, ← hlo, ← hhi] at hin
    exact ⟨a, bt, hat, hbt, UInt64.le_iff_toNat_le.2 hin.1, UInt64.lt_iff_toNat_lt.2 hin.2⟩

open Classical in
/-- One turn of the scan stops at a bucket whose range contains the hash. -/
theorem searchTurn_eq (h : Ranges m.buckets bst.buckets r n) (hash : UInt64) {i : ℕ} (hi : i < n) :
    searchTurn m bst hash i =
      if Covers m bst hash i then some (.ok (vectorAt bst.buckets i)) else none := by
  obtain ⟨a, bt, hat, hbt, -⟩ := h.bucket i hi
  have hcovers : Covers m bst hash i ↔ bt.minRank ≤ hash ∧ hash < bt.maxRank := by
    constructor
    · rintro ⟨a', bt', hat', hbt', hin⟩
      rw [hat] at hat'
      cases hat'
      rw [hbt] at hbt'
      cases hbt'
      exact hin
    · intro hin
      exact ⟨a, bt, hat, hbt, hin⟩
  simp only [searchTurn, hat, Memory.bucket, hbt, hcovers]

/-- **What the search returns for every hash**: the bucket of its stretch, unless the hash is the
last of the stretch, or the stretch is beyond the set or beyond the index. -/
theorem bucketsetSearchBucket_eq (h : Ranges m.buckets bst.buckets r n) (hr : 0 < r.toNat)
    (hfit : n * r.toNat < 2 ^ 64) (hash : UInt64) :
    bucketsetSearchBucket m bst hash =
      .ok (if hash.toNat / r.toNat < min n (2 ^ 31) ∧ hash.toNat % r.toNat ≠ r.toNat - 1 then
        vectorAt bst.buckets (hash.toNat / r.toNat) else none) := by
  have hn : n ≤ 2 ^ 64 - 2 ^ 31 := by
    have hserves := bst.buckets.serves
    have hle := bst.buckets.size_le
    rw [h.size_eq] at hle
    rw [callocServes] at hserves
    omega
  rw [bucketsetSearchBucket, h.size_eq]
  by_cases hin : hash.toNat / r.toNat < min n (2 ^ 31) ∧ hash.toNat % r.toNat ≠ r.toNat - 1
  · have hk : hash.toNat / r.toNat < n := by omega
    have hcovers := (covers_iff h hr hfit hash _).2 ⟨hk, rfl, hin.2⟩
    have hfirst := Loop.forInt_of_first (searchTurn m bst hash) hn hin.1
      ((searchTurn_eq h hash hk).trans (if_pos hcovers)) (fun i hi => by
        rw [searchTurn_eq h hash (by omega), if_neg]
        intro hother
        have := ((covers_iff h hr hfit hash i).1 hother).2.1
        omega)
    rw [hfirst, if_pos hin, Option.getD_some]
  · have hnone := Loop.forInt_of_none (searchTurn m bst hash) hn fun i hi => by
      rw [searchTurn_eq h hash (by omega), if_neg]
      intro hother
      obtain ⟨-, rfl, hlast⟩ := (covers_iff h hr hfit hash i).1 hother
      exact hin ⟨hi, hlast⟩
    rw [hnone, if_neg hin, Option.getD_none]

/-- The search is exact for a hash of the set exactly when it returns the bucket of its stretch. -/
theorem searchExact_iff (h : Ranges m.buckets bst.buckets r n) (hfit : n * r.toNat < 2 ^ 64)
    (hash : UInt64) :
    SearchExact m bst n r.toNat hash ↔ n * r.toNat ≤ hash.toNat ∨
      (hash.toNat % r.toNat ≠ r.toNat - 1 ∧ hash.toNat / r.toNat < 2 ^ 31) := by
  rcases Nat.lt_or_ge hash.toNat (n * r.toNat) with hlt | hge
  · have hr : 0 < r.toNat := by
      by_contra hzero
      rw [Nat.eq_zero_of_not_pos hzero, Nat.mul_zero] at hlt
      omega
    have hk : hash.toNat / r.toNat < n := Nat.div_lt_of_lt_mul (by rwa [Nat.mul_comm])
    have hsearch := bucketsetSearchBucket_eq h hr hfit hash
    rw [or_iff_right (by omega)]
    constructor
    · rintro ⟨hfound, -⟩
      obtain ⟨a, bt, hres, -⟩ := hfound hlt
      rw [hsearch] at hres
      split at hres
      · rename_i hin
        exact ⟨hin.2, by omega⟩
      · cases hres
    · rintro ⟨hlast, hreach⟩
      obtain ⟨a, bt, hat, hbt, hrange⟩ := h.bucket _ hk
      rw [if_pos ⟨by omega, hlast⟩, hat] at hsearch
      constructor
      · intro _
        refine ⟨a, bt, hsearch, hbt, ?_, ?_⟩
        · rw [hrange.id_eq, CInt.toInt32_natCast_of_lt hreach]
        · intro i
          rw [covers_iff h hr hfit hash i]
          exact ⟨fun hc => hc.2.1, fun hi => ⟨hi ▸ hk, hi, hlast⟩⟩
      · intro hnull
        rw [hsearch] at hnull
        cases hnull
  · refine iff_of_true ⟨?_, fun _ => hge⟩ (Or.inl hge)
    intro hlt
    omega

end Search

/-- **The search finds the bucket of a hash exactly when the hash is not the last of its range and
the bucket is within reach of the index.** -/
theorem bucketsetSearchBucket_exact_iff {m m' : Memory} {fs fs' : Fs} {chance : ℕ → FsChance}
    {name dataDir : CharPtr} {n base unit : UInt64} {a : Addr}
    (h : bucketsetCreate m fs chance name dataDir n base unit = .ok (m', fs', a))
    (hfit : n.toNat * (bucketsetHashRangeRound base).toNat < 2 ^ 64) :
    ∃ bst, m'.bucketset (some a) = .ok bst ∧ ∀ hash : UInt64,
      SearchExact m' bst n.toNat (bucketsetHashRangeRound base).toNat hash ↔
        n.toNat * (bucketsetHashRangeRound base).toNat ≤ hash.toNat ∨
          (hash.toNat % (bucketsetHashRangeRound base).toNat ≠
              (bucketsetHashRangeRound base).toNat - 1 ∧
            hash.toNat / (bucketsetHashRangeRound base).toNat < 2 ^ 31) := by
  obtain ⟨bst, hbst, hranges⟩ := bucketsetCreate_ranges h
  exact ⟨bst, hbst, searchExact_iff hranges hfit⟩

/-- A set named `s` of two buckets of 512 hashes each. -/
theorem bucketsetCreate_two_isOk :
    ∃ m fs a, bucketsetCreate Memory.empty Fs.empty
      (fun _ => { openFails := false, fallocateFails := false }) (.mem [115, 0]) .null 2 0 64 =
      .ok (m, fs, a) := by
  have hname : CString.NoNul [115] := by decide
  have hn : callocServes (2 : UInt64).toNat := by decide
  have hunit : Accepted (64 * 1024 * 1024) := by decide
  exact bucketsetCreate_isOk Memory.empty Fs.empty hname [] hn hunit (by decide +kernel)

/-- The result applied to that set. -/
theorem bucketsetSearchBucket_exact_iff_two :
    ∃ m fs a, bucketsetCreate Memory.empty Fs.empty
        (fun _ => { openFails := false, fallocateFails := false }) (.mem [115, 0]) .null 2 0 64 =
        .ok (m, fs, a) ∧
      ∃ bst, m.bucketset (some a) = .ok bst ∧ ∀ hash : UInt64,
        SearchExact m bst (2 : UInt64).toNat (bucketsetHashRangeRound 0).toNat hash ↔
          (2 : UInt64).toNat * (bucketsetHashRangeRound 0).toNat ≤ hash.toNat ∨
            (hash.toNat % (bucketsetHashRangeRound 0).toNat ≠
                (bucketsetHashRangeRound 0).toNat - 1 ∧
              hash.toNat / (bucketsetHashRangeRound 0).toNat < 2 ^ 31) := by
  obtain ⟨m, fs, a, h⟩ := bucketsetCreate_two_isOk
  exact ⟨m, fs, a, h, bucketsetSearchBucket_exact_iff h (by decide +kernel)⟩

/-- The last hash of the first range of that set is one of its hashes, and the search returns null
for it. -/
theorem searchBucket_lastOfRange_null :
    ∃ m fs a bst, bucketsetCreate Memory.empty Fs.empty
        (fun _ => { openFails := false, fallocateFails := false }) (.mem [115, 0]) .null 2 0 64 =
        .ok (m, fs, a) ∧ m.bucketset (some a) = .ok bst ∧
      bucketsetHashRangeRound 0 = 512 ∧ bucketsetSearchBucket m bst 511 = .ok none ∧
      ¬ SearchExact m bst 2 512 511 := by
  obtain ⟨m, fs, a, h⟩ := bucketsetCreate_two_isOk
  have hround : bucketsetHashRangeRound 0 = 512 := by decide +kernel
  obtain ⟨bst, hbst, hranges⟩ := bucketsetCreate_ranges h
  rw [hround] at hranges
  refine ⟨m, fs, a, bst, h, hbst, hround, ?_, ?_⟩
  · rw [bucketsetSearchBucket_eq hranges (by simp) (by simp), if_neg (by simp)]
  · intro hexact
    rcases (searchExact_iff hranges (by simp) 511).1 hexact with hge | ⟨hlast, -⟩
    · exact absurd hge (by simp)
    · exact absurd hlast (by simp)
