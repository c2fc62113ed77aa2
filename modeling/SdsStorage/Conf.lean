/-
**The configuration.**

`conf_create` reads the configuration file into a buffer, has it parsed, and looks its fields up
by the table of keys.  The table lacks the comma between two of its five strings: it has four
entries, the third is two keys run together, the fourth is `data_length` where `data_dir` is
expected, and the fifth index lies past its end.  Two of the fields, the number of buckets of a set
and the width of their ranges, are never looked up at all.

Main definitions:

* `Json` and the accessors of the JSON library;
* `confKeys`, `confKey` — the table of keys, and what an index finds there;
* `Conf`, `ConfIo`, `confCreate` — the configuration, and how it is made.

Main results:

* `confCreate_ok` — **a configuration always asks for no buckets and for ranges of the least
  width**;
* `confCreate_eq`, `confCreate_isOk` — a file that is parsed gives what is made of its object.
-/

import SdsStorage.CInt
import SdsStorage.Slice

set_option relaxedAutoImplicit false
set_option autoImplicit false

/-! ### JSON values -/

/-- The values of the JSON library. -/
inductive Json where
  | null
  | bool (b : Bool)
  | integer (n : ℤ)
  | real
  | string (s : Bytes)
  | array
  | object (members : List (Bytes × Json))

/-- `json_object_get`: the member under a key, null when there is none. -/
def jsonObjectGet (root : Json) (key : CharPtr) : Outcome (Option Json) :=
  match key, root with
  | .null, _ => .ok none
  | key, .object members => do
      let mem ← key.deref
      let n ← CString.strlen mem
      .ok (members.lookup (mem.take n))
  | _, _ => .ok none

/-- `json_integer_value`: 0 for anything else. -/
def jsonIntegerValue : Option Json → ℤ
  | some (.integer n) => n
  | _ => 0

/-- `json_string_value`: null for anything else. -/
def jsonStringValue : Option Json → CharPtr
  | some (.string s) => .mem (CString.cstr s)
  | _ => .null

/-! ### The table of keys -/

/-- `conf_keys`, as the compiler joins its strings: `addr`, `port`, `backlogdata_dir` and
`data_length`. -/
def confKeys : List Bytes :=
  [[97, 100, 100, 114], [112, 111, 114, 116],
    [98, 97, 99, 107, 108, 111, 103, 100, 97, 116, 97, 95, 100, 105, 114],
    [100, 97, 116, 97, 95, 108, 101, 110, 103, 116, 104]]

/-- `conf_keys_index`. -/
inductive ConfKeysIndex where
  | addr
  | port
  | backlog
  | dataDir
  | dataLength
  deriving DecidableEq, Repr

/-- The number of an index. -/
def ConfKeysIndex.toNat : ConfKeysIndex → ℕ
  | addr => 0
  | port => 1
  | backlog => 2
  | dataDir => 3
  | dataLength => 4

/-- The pointer an index finds in the table; `stray` is what lies in memory after it. -/
def confKey (stray : CharPtr) (i : ConfKeysIndex) : CharPtr :=
  match confKeys[i.toNat]? with
  | some key => .mem (CString.cstr key)
  | none => stray

/-! ### `conf_create` -/

/-- `conf`, less the pointer to its JSON value. -/
structure Conf where
  port : ℤ
  addr : Slice
  dataDir : Slice
  dataLength : ℤ
  backlog : ℤ
  bucketSize : ℤ
  setHashRange : ℤ
  deriving DecidableEq, Repr

/-- What comes of opening the configuration file and reading it once. -/
inductive ConfFile where
  | missing
  | unreadable
  | bytes (content : Bytes)
  deriving DecidableEq, Repr

/-- What a call to `conf_create` finds in its surroundings: the file, the word after the table of
keys, and what the pointer `cf` holds before it is set. -/
structure ConfIo where
  file : ConfFile
  stray : CharPtr
  cf : CharPtr

/-- `CONF_BUFFER_MAX`. -/
def confBufferMax : ℕ := 1024 * 1024

/-- The buffer after `read`: it was filled with zeros before. -/
def confBuffer (content : Bytes) : Bytes :=
  content.take confBufferMax ++ List.replicate (confBufferMax - content.length) 0

/-- The field lookups of `conf_create`, on a configuration filled with zeros. -/
def confFields (stray : CharPtr) (root : Json) : Outcome Conf := do
  let port ← jsonObjectGet root (confKey stray .port)
  let addr ← jsonObjectGet root (confKey stray .addr)
  let addr ← sliceInit (jsonStringValue addr)
  let backlog ← jsonObjectGet root (confKey stray .backlog)
  let dataDir ← jsonObjectGet root (confKey stray .dataDir)
  let dataDir ← sliceInit (jsonStringValue dataDir)
  let dataLength ← jsonObjectGet root (confKey stray .dataLength)
  .ok
    { port := CInt.toInt32 (jsonIntegerValue port)
      addr := addr.2
      dataDir := dataDir.2
      dataLength := CInt.toInt32 (jsonIntegerValue dataLength)
      backlog := CInt.toInt32 (jsonIntegerValue backlog)
      bucketSize := 0
      setHashRange := 0 }

/-- `conf_create`; `jsonLoads` is the parser of the JSON library. -/
def confCreate (jsonLoads : Bytes → Option Json) (io : ConfIo) : Outcome (Option Conf) :=
  match io.file with
  | .bytes content => do
      let n ← CString.strlen (confBuffer content)
      match jsonLoads ((confBuffer content).take n) with
      | none => .ok none
      | some root => do
          let cf ← confFields io.stray root
          .ok (some cf)
  -- the jump to the error path skips the initialisation of `cf`, which is freed there
  | _ => if io.cf = .null then .ok none else .error .wild

theorem confFields_ok {stray : CharPtr} {root : Json} {cf : Conf}
    (h : confFields stray root = .ok cf) : cf.bucketSize = 0 ∧ cf.setHashRange = 0 := by
  simp only [confFields, Outcome.bind_eq_ok] at h
  obtain ⟨port, -, addr, -, addr', -, backlog, -, dir, -, dir', -, len, -, h⟩ := h
  cases h
  exact ⟨rfl, rfl⟩

/-- **A configuration always asks for no buckets and for ranges of the least width.** -/
theorem confCreate_ok {jsonLoads : Bytes → Option Json} {io : ConfIo} {cf : Conf}
    (h : confCreate jsonLoads io = .ok (some cf)) : cf.bucketSize = 0 ∧ cf.setHashRange = 0 := by
  rw [confCreate] at h
  split at h
  · rw [Outcome.bind_eq_ok] at h
    obtain ⟨n, -, h⟩ := h
    split at h
    · cases h
    · rw [Outcome.bind_eq_ok] at h
      obtain ⟨cf', hcf, h⟩ := h
      cases h
      exact confFields_ok hcf
  · split at h <;> cases h

/-- A shorter file is followed by a terminator in the buffer it is read into. -/
theorem confBuffer_eq {content : Bytes} (hlen : content.length < confBufferMax) :
    ∃ t, confBuffer content = content ++ 0 :: t := by
  obtain ⟨k, hk⟩ := Nat.exists_eq_add_of_lt hlen
  refine ⟨List.replicate k 0, ?_⟩
  have hpad : confBufferMax - content.length = k + 1 := by omega
  rw [confBuffer, List.take_of_length_le (Nat.le_of_lt hlen), hpad, List.replicate_succ]

/-- A file that is given to the parser as it stands: what `conf_create` makes of its object. -/
theorem confCreate_eq {jsonLoads : Bytes → Option Json} {content : Bytes} {root : Json}
    (hnul : CString.NoNul content) (hlen : content.length < confBufferMax)
    (hjson : jsonLoads content = some root) (stray cfJunk : CharPtr) :
    confCreate jsonLoads { file := .bytes content, stray := stray, cf := cfJunk } =
      (confFields stray root).map some := by
  obtain ⟨t, ht⟩ := confBuffer_eq hlen
  simp only [confCreate, ht, CString.strlen_append hnul, Outcome.ok_bind, List.take_left, hjson]
  cases confFields stray root <;> rfl

/-- A file whose text is parsed gives the configuration its fields make. -/
theorem confCreate_isOk {jsonLoads : Bytes → Option Json} {content : Bytes} {root : Json}
    {stray cfJunk : CharPtr} {cf : Conf} (hnul : CString.NoNul content)
    (hlen : content.length < confBufferMax) (hjson : jsonLoads content = some root)
    (hfields : confFields stray root = .ok cf) :
    confCreate jsonLoads { file := .bytes content, stray := stray, cf := cfJunk } =
      .ok (some cf) := by
  rw [confCreate_eq hnul hlen hjson, hfields]
  rfl
