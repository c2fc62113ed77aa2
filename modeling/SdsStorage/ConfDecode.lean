/-
**What the configuration decodes to.**

Seven members of the configuration file are named like the fields of `conf`, and each field is to
be the value of its member.  Four of the seven are not, whatever the file says: `backlog` is looked
up under two keys run together, `data_dir` under `data_length`, which leads to a number, and
`bucket_size` and `set_hash_range` are not looked up.  A fifth, `data_length`, is looked up under
whatever lies in memory behind the table of keys.

Main definitions:

* `ConfValues`, `ConfValues.Members` — the values of the seven members, and an object that has them;
* `Conf.HasValues`, `KeysInside`, `ConfDecodes` — a configuration with these values, and one that
  was made without reading outside of the table.

Main results:

* `confCreate_never_decodes` — **it never decodes to its own values**, and when the values are right
  by chance.
-/

import SdsStorage.Conf

set_option relaxedAutoImplicit false
set_option autoImplicit false

/-! ### The members of the file -/

/-- The names of the members. -/
def keyAddr : Bytes := [97, 100, 100, 114]
def keyPort : Bytes := [112, 111, 114, 116]
def keyBacklog : Bytes := [98, 97, 99, 107, 108, 111, 103]
def keyDataDir : Bytes := [100, 97, 116, 97, 95, 100, 105, 114]
def keyDataLength : Bytes := [100, 97, 116, 97, 95, 108, 101, 110, 103, 116, 104]
def keyBucketSize : Bytes := [98, 117, 99, 107, 101, 116, 95, 115, 105, 122, 101]
def keySetHashRange : Bytes :=
  [115, 101, 116, 95, 104, 97, 115, 104, 95, 114, 97, 110, 103, 101]

/-- The two keys the compiler joins. -/
def keyBacklogDataDir : Bytes := keyBacklog ++ keyDataDir

/-- The range of an `int`. -/
def IntRange (n : ℤ) : Prop := -2 ^ 31 ≤ n ∧ n < 2 ^ 31

instance (n : ℤ) : Decidable (IntRange n) := inferInstanceAs (Decidable (_ ∧ _))

/-- The values of the members, in the range of their types. -/
structure ConfValues where
  addr : Bytes
  dataDir : Bytes
  port : ℤ
  backlog : ℤ
  dataLength : ℤ
  bucketSize : ℤ
  setHashRange : ℤ
  addr_noNul : CString.NoNul addr
  dataDir_noNul : CString.NoNul dataDir
  port_range : IntRange port
  backlog_range : IntRange backlog
  dataLength_range : IntRange dataLength
  bucketSize_range : IntRange bucketSize
  setHashRange_range : IntRange setHashRange

/-- The object has the members, in any order and among any others. -/
structure ConfValues.Members (v : ConfValues) (members : List (Bytes × Json)) : Prop where
  addr : members.lookup keyAddr = some (.string v.addr)
  dataDir : members.lookup keyDataDir = some (.string v.dataDir)
  port : members.lookup keyPort = some (.integer v.port)
  backlog : members.lookup keyBacklog = some (.integer v.backlog)
  dataLength : members.lookup keyDataLength = some (.integer v.dataLength)
  bucketSize : members.lookup keyBucketSize = some (.integer v.bucketSize)
  setHashRange : members.lookup keySetHashRange = some (.integer v.setHashRange)

/-- Each field of the configuration is the value of its member. -/
structure Conf.HasValues (cf : Conf) (v : ConfValues) : Prop where
  addr : cf.addr.Represents v.addr
  dataDir : cf.dataDir.Represents v.dataDir
  port : cf.port = v.port
  backlog : cf.backlog = v.backlog
  dataLength : cf.dataLength = v.dataLength
  bucketSize : cf.bucketSize = v.bucketSize
  setHashRange : cf.setHashRange = v.setHashRange

/-- Nothing outside the table of keys is read: what lies behind it makes no difference. -/
def KeysInside (jsonLoads : Bytes → Option Json) (io : ConfIo) : Prop :=
  ∀ stray, confCreate jsonLoads { io with stray := stray } = confCreate jsonLoads io

/-- A configuration with the values of the members is returned, and the keys are read inside of
their table. -/
def ConfDecodes (jsonLoads : Bytes → Option Json) (io : ConfIo) (v : ConfValues) : Prop :=
  KeysInside jsonLoads io ∧ ∃ cf, confCreate jsonLoads io = .ok (some cf) ∧ cf.HasValues v

/-! ### The lookups -/

theorem jsonObjectGet_key {members : List (Bytes × Json)} {key : Bytes} (h : CString.NoNul key) :
    jsonObjectGet (.object members) (.mem (CString.cstr key)) = .ok (members.lookup key) := by
  simp only [jsonObjectGet, CharPtr.deref, Outcome.ok_bind, CString.strlen_cstr h]
  rw [CString.cstr, List.take_left]

/-- What the lookups find in an object with the members, up to the last one. -/
theorem confFields_members {v : ConfValues} {members : List (Bytes × Json)}
    (h : v.Members members) (stray : CharPtr) :
    ∃ addr : Slice, addr.Represents v.addr ∧
      confFields stray (.object members) =
        (jsonObjectGet (.object members) stray >>= fun found =>
          .ok { port := v.port
                addr := addr
                dataDir := Slice.zero
                dataLength := CInt.toInt32 (jsonIntegerValue found)
                backlog := CInt.toInt32 (jsonIntegerValue (members.lookup keyBacklogDataDir))
                bucketSize := 0
                setHashRange := 0 }) := by
  obtain ⟨addr, haddr, hrep⟩ := sliceInit_cstr v.addr_noNul []
  refine ⟨addr, hrep, ?_⟩
  have hport : jsonObjectGet (.object members) (confKey stray .port) =
      .ok (members.lookup keyPort) := jsonObjectGet_key (by decide)
  have haddrKey : jsonObjectGet (.object members) (confKey stray .addr) =
      .ok (members.lookup keyAddr) := jsonObjectGet_key (by decide)
  have hbacklog : jsonObjectGet (.object members) (confKey stray .backlog) =
      .ok (members.lookup keyBacklogDataDir) := jsonObjectGet_key (by decide)
  have hdataDir : jsonObjectGet (.object members) (confKey stray .dataDir) =
      .ok (members.lookup keyDataLength) := jsonObjectGet_key (by decide)
  -- the fifth index is outside of the table
  have hdataLength : confKey stray .dataLength = stray := rfl
  have hnull : sliceInit .null = .ok (-1, Slice.zero) := rfl
  have hstring : sliceInit (.mem (CString.cstr v.addr)) = .ok (0, addr) := haddr
  simp only [confFields, hport, haddrKey, hbacklog, hdataDir, hdataLength, h.port, h.addr,
    h.dataLength, jsonStringValue, jsonIntegerValue, hstring, hnull, Outcome.ok_bind,
    CInt.toInt32_of_range v.port_range.1 v.port_range.2]

/-! ### What is decoded -/

/-- A word behind the table that is no pointer shows that it is read. -/
theorem not_keysInside {jsonLoads : Bytes → Option Json} {content : Bytes}
    {members : List (Bytes × Json)} {v : ConfValues} (hnul : CString.NoNul content)
    (hlen : content.length < confBufferMax) (hjson : jsonLoads content = some (.object members))
    (hmembers : v.Members members) (stray cfJunk : CharPtr) :
    ¬ KeysInside jsonLoads { file := .bytes content, stray := stray, cf := cfJunk } := by
  intro h
  have hwild := h .wild
  have hnull := h .null
  obtain ⟨addr, -, hfields⟩ := confFields_members hmembers .wild
  obtain ⟨addr', -, hfields'⟩ := confFields_members hmembers .null
  rw [← hnull, confCreate_eq hnul hlen hjson, confCreate_eq hnul hlen hjson, hfields,
    hfields'] at hwild
  cases hwild

/-- The values the fields have by chance: the members that are not read are those of a
configuration filled with zeros, and the others are found under the keys that are read. -/
structure RightByChance (v : ConfValues) (members : List (Bytes × Json)) (stray : CharPtr) :
    Prop where
  dataDir : v.dataDir = []
  bucketSize : v.bucketSize = 0
  setHashRange : v.setHashRange = 0
  backlog : v.backlog = CInt.toInt32 (jsonIntegerValue (members.lookup keyBacklogDataDir))
  dataLength : ∃ found, jsonObjectGet (.object members) stray = .ok found ∧
    v.dataLength = CInt.toInt32 (jsonIntegerValue found)

/-- An empty string is the only one a slice of zeros represents. -/
theorem slice_zero_represents_iff (s : Bytes) : Slice.zero.Represents s ↔ s = [] := by
  constructor
  · intro h
    have hlen : Slice.zero.sz = s.length := h.size_eq
    exact List.length_eq_zero_iff.1 hlen.symm
  · rintro rfl
    exact ⟨CString.noNul_nil, rfl, rfl⟩

/-- The configuration has the values of the members exactly when they are right by chance. -/
theorem confCreate_hasValues_iff {jsonLoads : Bytes → Option Json} {content : Bytes}
    {members : List (Bytes × Json)} {v : ConfValues} (hnul : CString.NoNul content)
    (hlen : content.length < confBufferMax) (hjson : jsonLoads content = some (.object members))
    (hmembers : v.Members members) (stray cfJunk : CharPtr) :
    (∃ cf, confCreate jsonLoads { file := .bytes content, stray := stray, cf := cfJunk } =
        .ok (some cf) ∧ cf.HasValues v) ↔ RightByChance v members stray := by
  obtain ⟨addr, haddr, hfields⟩ := confFields_members hmembers stray
  rw [confCreate_eq hnul hlen hjson, hfields]
  cases hfound : jsonObjectGet (.object members) stray with
  | error f =>
      constructor
      · rintro ⟨cf, hcf, -⟩
        cases hcf
      · intro h
        obtain ⟨found, hok, -⟩ := h.dataLength
        rw [hfound] at hok
        cases hok
  | ok found =>
      rw [Outcome.ok_bind]
      constructor
      · rintro ⟨cf, hcf, hv⟩
        cases hcf
        exact ⟨(slice_zero_represents_iff _).1 hv.dataDir, hv.bucketSize.symm,
          hv.setHashRange.symm, hv.backlog.symm, found, hfound, hv.dataLength.symm⟩
      · rintro ⟨hdir, hbuckets, hrange, hbacklog, found', hok, hlength⟩
        rw [hfound] at hok
        cases hok
        exact ⟨_, rfl, haddr, (slice_zero_represents_iff _).2 hdir, rfl, hbacklog.symm,
          hlength.symm, hbuckets.symm, hrange.symm⟩

/-- **A configuration never decodes to its own values**: the key of `data_length` is read outside
of the table for every file, and the values are right by chance at most. -/
theorem confCreate_never_decodes {jsonLoads : Bytes → Option Json} {content : Bytes}
    {members : List (Bytes × Json)} {v : ConfValues} (hnul : CString.NoNul content)
    (hlen : content.length < confBufferMax) (hjson : jsonLoads content = some (.object members))
    (hmembers : v.Members members) (stray cfJunk : CharPtr) :
    ¬ ConfDecodes jsonLoads { file := .bytes content, stray := stray, cf := cfJunk } v ∧
      ((∃ cf, confCreate jsonLoads { file := .bytes content, stray := stray, cf := cfJunk } =
          .ok (some cf) ∧ cf.HasValues v) ↔ RightByChance v members stray) := by
  constructor
  · intro h
    exact not_keysInside hnul hlen hjson hmembers stray cfJunk h.1
  · exact confCreate_hasValues_iff hnul hlen hjson hmembers stray cfJunk

/-! ### A file -/

/-- The text of an object with the seven members: the strings `lo` and `/d`, and the numbers from 1
to 5 in the order of the file. -/
def sevenMembers : Bytes :=
  [123, 34, 97, 100, 100, 114, 34, 58, 34, 108, 111, 34, 44, 34, 100, 97, 116, 97, 95, 100, 105,
   114, 34, 58, 34, 47, 100, 34, 44, 34, 112, 111, 114, 116, 34, 58, 49, 44, 34, 98, 97, 99, 107,
   108, 111, 103, 34, 58, 50, 44, 34, 100, 97, 116, 97, 95, 108, 101, 110, 103, 116, 104, 34, 58,
   51, 44, 34, 98, 117, 99, 107, 101, 116, 95, 115, 105, 122, 101, 34, 58, 52, 44, 34, 115, 101,
   116, 95, 104, 97, 115, 104, 95, 114, 97, 110, 103, 101, 34, 58, 53, 125]

/-- Its members. -/
def sevenMembersObject : List (Bytes × Json) :=
  [(keyAddr, .string [108, 111]), (keyDataDir, .string [47, 100]), (keyPort, .integer 1),
    (keyBacklog, .integer 2), (keyDataLength, .integer 3), (keyBucketSize, .integer 4),
    (keySetHashRange, .integer 5)]

/-- Their values. -/
def sevenMembersValues : ConfValues where
  addr := [108, 111]
  dataDir := [47, 100]
  port := 1
  backlog := 2
  dataLength := 3
  bucketSize := 4
  setHashRange := 5
  addr_noNul := by decide
  dataDir_noNul := by decide
  port_range := by decide
  backlog_range := by decide
  dataLength_range := by decide
  bucketSize_range := by decide
  setHashRange_range := by decide

/-- A parser, as far as that text goes. -/
def parseSevenMembers (text : Bytes) : Option Json :=
  if text = sevenMembers then some (.object sevenMembersObject) else none

theorem sevenMembersValues_members : sevenMembersValues.Members sevenMembersObject where
  addr := rfl
  dataDir := rfl
  port := rfl
  backlog := rfl
  dataLength := rfl
  bucketSize := rfl
  setHashRange := rfl

/-- Its file does not decode, and the values are not right by chance. -/
theorem confCreate_never_decodes_seven :
    ¬ ConfDecodes parseSevenMembers
        { file := .bytes sevenMembers, stray := .null, cf := .null } sevenMembersValues ∧
      ((∃ cf, confCreate parseSevenMembers
          { file := .bytes sevenMembers, stray := .null, cf := .null } = .ok (some cf) ∧
            cf.HasValues sevenMembersValues) ↔
        RightByChance sevenMembersValues sevenMembersObject .null) :=
  confCreate_never_decodes (by decide) (by decide) (if_pos rfl) sevenMembersValues_members .null
    .null

/-- With a null word behind the table a configuration is returned, and its fields are not the
members: the file asks for 4 buckets, and the configuration for none. -/
theorem sevenMembers_not_decodes :
    ¬ ConfDecodes parseSevenMembers { file := .bytes sevenMembers, stray := .null, cf := .null }
      sevenMembersValues := by
  rintro ⟨-, cf, hcf, hv⟩
  obtain ⟨hbuckets, -⟩ := confCreate_ok hcf
  rw [hv.bucketSize] at hbuckets
  cases hbuckets
