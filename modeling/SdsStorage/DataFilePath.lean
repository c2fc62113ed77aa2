/-
**The paths of data files.**

The name of a bucket is printed into a buffer by `bucketset_create`, from the directory, the name of
the set and the bounds of the bucket's range; `bucket_create_data_fd` prints the index of the file
behind it.  The name of the set may contain anything, but it comes first, and what is printed behind
it are fields that do not contain their separators: the path is read from the right.

Main definitions:

* `dataFilePath` — the path, as the two functions print it one after the other;
* `dataFileText` — the text of the path, before it is cut off at the end of a buffer.

Main results:

* `dataFilePath_eq` — the path is this text, when it fits;
* `bucketsetCreate_paths` — the buckets of a new set have these paths;
* `dataFileName_inj` — **the path tells the set, the range and the index**.
-/

import SdsStorage.Bucketset
import SdsStorage.Fields

set_option relaxedAutoImplicit false
set_option autoImplicit false

/-! ### The text of a path -/

/-- The path of a data file: `bucketset_create` prints the name, `bucket_create` stores it, and
`bucket_create_data_fd` prints the path. -/
def dataFilePath (dataDir name : CharPtr) (start stop index : UInt64) : Outcome Bytes := do
  let buffer ← bucketName dataDir name start stop
  let btName ← sliceInit (.mem (CString.cstr buffer))
  dataFileName btName.2 index

/-- The bytes of `bucket`. -/
def bucketWord : Bytes := [98, 117, 99, 107, 101, 116]

/-- The fields that `"-%ld-%ld-bucket"` prints behind the name of a set. -/
def nameFields (start stop : ℕ) : List (UInt8 × Bytes) :=
  [(45, CString.decimalNat start), (45, CString.decimalNat stop), (45, bucketWord)]

/-- The field that `".%d"` prints behind the name of a bucket. -/
def indexField (index : ℕ) : UInt8 × Bytes := (46, CString.decimalNat index)

/-- The path of a data file, before it is cut off. -/
def dataFileText (dir set : Bytes) (start stop index : ℕ) : Bytes :=
  Fields.render (dir ++ 47 :: set) (nameFields start stop ++ [indexField index])

/-- A byte that is not a digit is not printed by `%d`. -/
theorem not_mem_decimalNat {b : UInt8} (hb : b.toNat < 48) (n : ℕ) :
    b ∉ CString.decimalNat n := by
  intro h
  have := (CString.decimalNat_digit h).1
  omega

theorem nameFields_free (start stop : ℕ) : Fields.Free (nameFields start stop) := by
  intro field hfield
  simp only [nameFields, List.mem_cons, List.not_mem_nil, or_false] at hfield
  rcases hfield with rfl | rfl | rfl
  · exact not_mem_decimalNat (b := 45) (by simp) start
  · exact not_mem_decimalNat (b := 45) (by simp) stop
  · simp [bucketWord]

theorem fields_free (start stop index : ℕ) :
    Fields.Free (nameFields start stop ++ [indexField index]) := by
  intro field hfield
  rcases List.mem_append.1 hfield with hname | hindex
  · exact nameFields_free start stop field hname
  · rw [List.mem_singleton] at hindex
    rw [hindex]
    exact not_mem_decimalNat (b := 46) (by simp) index

/-! ### What is printed -/

theorem decimal_toInt64 {x : UInt64} (h : x.toNat < 2 ^ 63) :
    CString.decimal (CInt.toInt64 x.toNat) = CString.decimalNat x.toNat := by
  rw [CInt.toInt64_of_range (by omega) (by omega)]
  rfl

theorem decimal_toInt32 {x : UInt64} (h : x.toNat < 2 ^ 31) :
    CString.decimal (CInt.toInt32 x.toNat) = CString.decimalNat x.toNat := by
  rw [CInt.toInt32_natCast_of_lt h]
  rfl

/-- What `snprintf` leaves of a text that fits. -/
theorem snprintf_of_lt {size : ℕ} {s : Bytes} (h : s.length < size) :
    CString.snprintf size s = s := by
  rw [CString.snprintf, List.take_of_length_le (by omega)]

/-- The name of a bucket, when it fits. -/
theorem bucketName_eq {dataDir : CharPtr} {dir : Bytes} (hdir : CString.percentS dataDir = .ok dir)
    {s : Bytes} (hs : CString.NoNul s) (t : Bytes) {start stop : UInt64}
    (hstart : start.toNat < 2 ^ 63) (hstop : stop.toNat < 2 ^ 63)
    (hfit : (Fields.render (dir ++ 47 :: s) (nameFields start.toNat stop.toNat)).length < 4096) :
    bucketName dataDir (.mem (s ++ 0 :: t)) start stop =
      .ok (Fields.render (dir ++ 47 :: s) (nameFields start.toNat stop.toNat)) := by
  rw [← snprintf_of_lt hfit]
  simp only [bucketName, hdir, CString.percentS_append hs, Outcome.ok_bind, decimal_toInt64 hstart,
    decimal_toInt64 hstop, nameFields, Fields.render_cons, Fields.render_nil, bucketWord,
    List.append_assoc, List.cons_append, List.nil_append]

/-- The name of a bucket contains no terminator. -/
theorem noNul_bucketText {dir s : Bytes} (hdir : CString.NoNul dir) (hs : CString.NoNul s)
    (start stop : ℕ) :
    CString.NoNul (Fields.render (dir ++ 47 :: s) (nameFields start stop)) := by
  have hdigits : ∀ n, (0 : UInt8) ∉ CString.decimalNat n := CString.decimalNat_noNul
  rw [CString.NoNul] at hdir hs ⊢
  simp [nameFields, bucketWord, hdir, hs, hdigits]

/-- **The path is its text**, when it fits. -/
theorem dataFilePath_eq {dataDir : CharPtr} {dir : Bytes}
    (hdir : CString.percentS dataDir = .ok dir) {s : Bytes} (hs : CString.NoNul s) (t : Bytes)
    {start stop index : UInt64} (hstart : start.toNat < 2 ^ 63) (hstop : stop.toNat < 2 ^ 63)
    (hindex : index.toNat < 2 ^ 31)
    (hfit : (dataFileText dir s start.toNat stop.toNat index.toNat).length < 4096) :
    dataFilePath dataDir (.mem (s ++ 0 :: t)) start stop index =
      .ok (dataFileText dir s start.toNat stop.toNat index.toNat) := by
  have hsplit : dataFileText dir s start.toNat stop.toNat index.toNat =
      Fields.render (dir ++ 47 :: s) (nameFields start.toNat stop.toNat) ++
        46 :: CString.decimalNat index.toNat :=
    Fields.render_concat _ _ _
  have hname : (Fields.render (dir ++ 47 :: s) (nameFields start.toNat stop.toNat)).length <
      4096 := by
    rw [hsplit, List.length_append] at hfit
    omega
  have hnul := noNul_bucketText (CString.noNul_of_percentS hdir) hs start.toNat stop.toNat
  obtain ⟨btName, hslice, hrep⟩ := sliceInit_cstr hnul []
  have hne : Fields.render (dir ++ 47 :: s) (nameFields start.toNat stop.toNat) ≠ [] := by
    simp [nameFields]
  have hprint : CString.percentS (sliceValue btName) =
      .ok (Fields.render (dir ++ 47 :: s) (nameFields start.toNat stop.toNat)) := by
    rw [hrep.value_eq, if_neg hne]
    exact CString.percentS_append hnul []
  rw [dataFilePath, bucketName_eq hdir hs t hstart hstop hname, Outcome.ok_bind, CString.cstr,
    hslice, Outcome.ok_bind, dataFileName, hprint, Outcome.ok_bind, decimal_toInt32 hindex,
    List.append_assoc, List.singleton_append, ← hsplit, snprintf_of_lt hfit]

/-! ### The buckets of a set -/

/-- What a turn of the creation loop adds to the heap: a bucket whose data files have the paths of
its range. -/
theorem bucketsetFill_path {chance : ℕ → FsChance} {dataDir name : CharPtr} {r unit : UInt64}
    {s t : Building} {i : ℕ} (h : bucketsetFill chance dataDir name r unit s i = .ok t) :
    ∃ bt, t.buckets = s.buckets ++ [bt] ∧
      ∀ index,
        dataFileName bt.name index = dataFilePath dataDir name bt.minRank bt.maxRank index := by
  rw [bucketsetFill] at h
  simp only [Outcome.bind_eq_ok] at h
  obtain ⟨buffer, hbuffer, ⟨made, fs⟩, hmade, h⟩ := h
  cases made with
  | none => cases h
  | some bt =>
      rw [Outcome.bind_eq_ok] at h
      obtain ⟨pushed, -, h⟩ := h
      cases h
      obtain ⟨⟨status, hslice⟩, -, hmin, hmax, -⟩ := bucketCreate_ok hmade
      refine ⟨_, rfl, ?_⟩
      intro index
      rw [dataFilePath, hmin, hmax, hbuffer, Outcome.ok_bind, hslice, Outcome.ok_bind]

/-- **The data files of the buckets of a new set have the paths of their ranges.** -/
theorem bucketsetCreate_paths {m m' : Memory} {fs fs' : Fs} {chance : ℕ → FsChance}
    {name dataDir : CharPtr} {n base unit : UInt64} {a : Addr}
    (h : bucketsetCreate m fs chance name dataDir n base unit = .ok (m', fs', a)) :
    ∀ bt ∈ m'.buckets.drop m.buckets.length, ∀ index,
      dataFileName bt.name index = dataFilePath dataDir name bt.minRank bt.maxRank index := by
  rw [bucketsetCreate] at h
  simp only [Outcome.bind_eq_ok] at h
  obtain ⟨vec, -, dir, -, set, -, built, hfill, h⟩ := h
  cases h
  -- the loop only appends to the heap of buckets
  have hadded : ∃ added, built.buckets = m.buckets ++ added ∧ ∀ bt ∈ added, ∀ index,
      dataFileName bt.name index = dataFilePath dataDir name bt.minRank bt.maxRank index := by
    refine Outcome.foldlM_ok_inv (I := fun st : Building => ∃ added,
      st.buckets = m.buckets ++ added ∧ ∀ bt ∈ added, ∀ index,
        dataFileName bt.name index = dataFilePath dataDir name bt.minRank bt.maxRank index)
      hfill ⟨[], by simp, by simp⟩ ?_
    rintro s t i - hturn ⟨added, hs, hpaths⟩
    obtain ⟨bt, ht, hpath⟩ := bucketsetFill_path hturn
    refine ⟨added ++ [bt], by rw [ht, hs, List.append_assoc], ?_⟩
    intro bt' hbt'
    rcases List.mem_append.1 hbt' with hold | hnew
    · exact hpaths bt' hold
    · rw [List.mem_singleton] at hnew
      exact hnew ▸ hpath
  obtain ⟨added, hbuilt, hpaths⟩ := hadded
  intro bt hbt
  dsimp only at hbt
  rw [hbuilt, List.drop_left] at hbt
  exact hpaths bt hbt

/-! ### Reading a path -/

/-- **The text of a path tells the set, the range and the index.** -/
theorem dataFileText_inj {dir s s' : Bytes} {start stop index start' stop' index' : ℕ}
    (h : dataFileText dir s start stop index = dataFileText dir s' start' stop' index') :
    s = s' ∧ start = start' ∧ stop = stop' ∧ index = index' := by
  have hsep : (nameFields start stop ++ [indexField index]).map Prod.fst =
      (nameFields start' stop' ++ [indexField index']).map Prod.fst := rfl
  obtain ⟨htext, hfields⟩ := Fields.render_inj (fields_free start stop index)
    (fields_free start' stop' index') hsep h
  -- the set's name is what is left when the four fields are read from the end
  have hset : 47 :: s = 47 :: s' := List.append_cancel_left htext
  simp only [nameFields, indexField, List.cons_append, List.nil_append, List.cons.injEq,
    Prod.mk.injEq, true_and, and_true] at hfields
  obtain ⟨hstart, hstop, hindex⟩ := hfields
  exact ⟨(List.cons.inj hset).2, CString.decimalNat_inj hstart, CString.decimalNat_inj hstop,
    CString.decimalNat_inj hindex⟩

/-- A bucket that `bucketset_create` makes for the set `s` under the directory `dataDir`. -/
def IsBucketOf (dataDir : CharPtr) (s : Bytes) (bt : Bucket) : Prop :=
  ∃ t m fs chance n base unit m' fs' a,
    bucketsetCreate m fs chance (.mem (s ++ 0 :: t)) dataDir n base unit = .ok (m', fs', a) ∧
      bt ∈ m'.buckets.drop m.buckets.length

/-- The data files of a bucket of a set have the texts of their paths as names, when these fit. -/
theorem IsBucketOf.dataFileName_eq {dataDir : CharPtr} {s : Bytes} {bt : Bucket}
    (h : IsBucketOf dataDir s bt) {dir : Bytes} (hdir : CString.percentS dataDir = .ok dir)
    (hs : CString.NoNul s) {index : UInt64} (hstart : bt.minRank.toNat < 2 ^ 63)
    (hstop : bt.maxRank.toNat < 2 ^ 63) (hindex : index.toNat < 2 ^ 31)
    (hfit : (dataFileText dir s bt.minRank.toNat bt.maxRank.toNat index.toNat).length < 4096) :
    dataFileName bt.name index =
      .ok (dataFileText dir s bt.minRank.toNat bt.maxRank.toNat index.toNat) := by
  obtain ⟨t, m, fs, chance, n, base, unit, m', fs', a, hcreate, hmem⟩ := h
  rw [bucketsetCreate_paths hcreate bt hmem index]
  exact dataFilePath_eq hdir hs t hstart hstop hindex hfit

/-- **Distinct buckets never share a data file.**  If two buckets of sets under one directory have
data files of one name, then the names of the sets, the ranges of the buckets and the indexes of the
files are the same, provided that nothing is cut off and the numbers are printed as they are. -/
theorem dataFileName_inj {dataDir : CharPtr} {dir : Bytes}
    (hdir : CString.percentS dataDir = .ok dir) {s s' : Bytes} (hs : CString.NoNul s)
    (hs' : CString.NoNul s') {bt bt' : Bucket} (hbt : IsBucketOf dataDir s bt)
    (hbt' : IsBucketOf dataDir s' bt') {index index' : UInt64}
    (hranks : bt.minRank.toNat < 2 ^ 63 ∧ bt.maxRank.toNat < 2 ^ 63)
    (hranks' : bt'.minRank.toNat < 2 ^ 63 ∧ bt'.maxRank.toNat < 2 ^ 63)
    (hindex : index.toNat < 2 ^ 31) (hindex' : index'.toNat < 2 ^ 31)
    (hfit : (dataFileText dir s bt.minRank.toNat bt.maxRank.toNat index.toNat).length < 4096)
    (hfit' : (dataFileText dir s' bt'.minRank.toNat bt'.maxRank.toNat index'.toNat).length < 4096)
    (h : dataFileName bt.name index = dataFileName bt'.name index') :
    s = s' ∧ bt.minRank = bt'.minRank ∧ bt.maxRank = bt'.maxRank ∧ index = index' := by
  rw [hbt.dataFileName_eq hdir hs hranks.1 hranks.2 hindex hfit,
    hbt'.dataFileName_eq hdir hs' hranks'.1 hranks'.2 hindex' hfit'] at h
  obtain ⟨hset, hstart, hstop, hidx⟩ := dataFileText_inj (Except.ok.inj h)
  exact ⟨hset, UInt64.toNat_inj.1 hstart, UInt64.toNat_inj.1 hstop, UInt64.toNat_inj.1 hidx⟩

/-- The result applied to a bucket of a set named `s`. -/
theorem dataFileName_inj_two :
    ∃ bt, IsBucketOf .null [115] bt ∧ bt.minRank = 0 ∧ bt.maxRank = 511 ∧
      ([115] = ([115] : Bytes) ∧ bt.minRank = bt.minRank ∧ bt.maxRank = bt.maxRank ∧
        (0 : UInt64) = 0) := by
  obtain ⟨m, fs, a, h⟩ := bucketsetCreate_two_isOk
  obtain ⟨bst, -, hranges⟩ := bucketsetCreate_ranges h
  obtain ⟨b, bt, -, hget, hrange⟩ := hranges.bucket 0 (by decide)
  have hround : bucketsetHashRangeRound 0 = 512 := by decide +kernel
  rw [hround] at hrange
  have hbt : IsBucketOf .null [115] bt :=
    ⟨[], Memory.empty, Fs.empty, _, 2, 0, 64, m, fs, a, h, List.mem_of_getElem? hget⟩
  have hmin : bt.minRank = 0 := hrange.minRank_eq
  have hmax : bt.maxRank = 511 := hrange.maxRank_eq
  have hranks : bt.minRank.toNat < 2 ^ 63 ∧ bt.maxRank.toNat < 2 ^ 63 := by
    rw [hmin, hmax]
    decide
  have hfit : (dataFileText [40, 110, 117, 108, 108, 41] [115] bt.minRank.toNat bt.maxRank.toNat
      (0 : UInt64).toNat).length < 4096 := by
    rw [hmin, hmax]
    decide
  have hnull : CString.percentS .null = .ok [40, 110, 117, 108, 108, 41] := rfl
  exact ⟨bt, hbt, hmin, hmax, dataFileName_inj hnull (by decide) (by decide) hbt hbt hranks hranks
    (by decide) (by decide) hfit hfit rfl⟩
