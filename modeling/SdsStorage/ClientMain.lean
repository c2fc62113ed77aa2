/-
**The client.**

`main` connects, goes through the options of its command line, and compares the resource it was
given with the names it knows.  The short options for the resource and the operation are declared
without arguments, so that `-r` and `-t`, used as the comment above `main` says, end the client; the
long ones are left.  A resource is taken for a set when it is a first part of `buckset`; the other
branch is empty, and nothing looks at the operation.

What the client hands over in the end is the type of its request: the request itself is read from
the socket.

Main definitions:

* `ClientConf`, `clientConfCreate` — the configuration of the client;
* `requestPutBucketsetInit` — the request for a set;
* `CommandOption`, `getoptLong`, `optionLoop` — the command line;
* `clientConnected`, `clientMain` — the client, from the connection on, and from its start;
* `CommandOption.bare`, `lastGiven` — a short option without its argument, and the argument last
  given for a letter;
* `MayAskForSet`, `SafeLine` — command lines that may ask for a set, and that are safe;
* `Running.connect`, `FindsServer` — the connections to one running server, and the files of it that
  lead a client there.

Main results:

* `optionLoop_eq` — **what the options leave**;
* `clientMain_unconnected` — without a connection, slices are released that nothing was stored in;
* `clientConnected_sent` — **what the client hands over**: the type at most, and by which command
  lines;
* `clientMain_safe_iff` — **the command lines that are safe with every server**;
* `clientMain_serverFile` — **what becomes of a client that is given the server's own file**.
-/

import SdsStorage.ClientStatus
import SdsStorage.ConfDecode
import SdsStorage.NetSocket
import SdsStorage.SliceRun
import SdsStorage.Startup

set_option relaxedAutoImplicit false
set_option autoImplicit false

/-! ### The configuration -/

/-- `conf` of the client, less the pointer to its JSON value. -/
structure ClientConf where
  port : ℤ
  addr : Slice

/-- The field lookups of the client's `conf_create`; the third of its keys is not used. -/
def clientConfFields (root : Json) : Outcome ClientConf := do
  let port ← jsonObjectGet root (.mem (CString.cstr keyPort))
  let addr ← jsonObjectGet root (.mem (CString.cstr keyAddr))
  let addr ← sliceInit (jsonStringValue addr)
  .ok { port := CInt.toInt32 (jsonIntegerValue port), addr := addr.2 }

/-- The client's `conf_create`; `cfJunk` is what the pointer `cf` holds before it is set. -/
def clientConfCreate (jsonLoads : Bytes → Option Json) (file : ConfFile) (cfJunk : CharPtr) :
    Outcome (Option ClientConf) :=
  match file with
  | .bytes content => do
      let n ← CString.strlen (confBuffer content)
      match jsonLoads ((confBuffer content).take n) with
      | none => .ok none
      | some root => do
          let cf ← clientConfFields root
          .ok (some cf)
  | _ => if cfJunk = .null then .ok none else .error .wild

/-! ### The request -/

/-- `request_put_bucketset_init` with a socket: the status, what is handed over, and the stores into
the response. -/
def requestPutBucketsetInit (sk : Sink) (src : Source) (setName : CharPtr) :
    Sending (ℤ × Sink × List (ℤ × Bytes)) :=
  if setName = .null then .ok (-1, sk, [])
  else do
    let type ← sendN sk (memOf [RequestType.putBucketset.toUInt8] fun _ => 0) 1
    let mem ← keeping type.2 setName.deref
    let len ← keeping type.2 (CString.strlen mem)
    let _ ← keeping type.2 (CString.strncpy (List.replicate RequestPutBucketset.size 0)
      RequestPutBucketset.setName setName len)
    -- the request is read where it should be written
    let rn ← keeping type.2 (Utils.readN src false RequestPutBucketset.size)
    if CInt.toUInt64 rn.readn ≠ RequestPutBucketset.size then .ok (-1, type.2, [])
    else do
      let ack ← keeping type.2 (Utils.readN rn.src false ResponseAck.size)
      .ok (0, type.2, ack.stores)

/-! ### The command line -/

/-- `options`: `"rtd:"`. -/
def shortOptions : Bytes := [0x72, 0x74, 0x64, 0x3a]

/-- The letters that `long_options` stands for; each of them takes an argument. -/
def longOptions : List UInt8 := [0x72, 0x74, 0x64]

/-- Whether a short option takes an argument; nothing for a letter that is none. -/
def takesArgument : Bytes → UInt8 → Option Bool
  | [], _ => none
  | a :: rest, c =>
      if a = c ∧ c ≠ 0x3a then some (decide (rest.head? = some 0x3a)) else takesArgument rest c

/-- What stands at one place of the command line: a letter, with the string that is its argument
if it takes one, or one of the long options with its argument. -/
inductive CommandOption where
  | letter (c : UInt8) (arg : SourceString)
  | long (i : Fin longOptions.length) (arg : SourceString)

/-- `getopt_long`: what it returns, and what it leaves in `optarg`. -/
def getoptLong : CommandOption → UInt8 × CharPtr
  | .letter c arg =>
      match takesArgument shortOptions c with
      | some true => (c, arg.ptr)
      | some false => (c, .null)
      | none => (0x3f, .null)
  | .long i arg => (longOptions.get i, arg.ptr)

/-- The local variables that are not initialised. -/
structure ClientLocals where
  resourceName : Slice
  opType : Slice
  opData : Slice
  ack : Bytes

/-- The switch of the loop; nothing when the client ends there. -/
def optionTurn (s : ClientLocals) (o : CommandOption) : Outcome (Option ClientLocals) :=
  let (ch, optarg) := getoptLong o
  if ch = 0x74 then
    (sliceInit optarg).map fun r => if r.1 = 0 then some { s with opType := r.2 } else none
  else if ch = 0x72 then
    (sliceInit optarg).map fun r => if r.1 = 0 then some { s with resourceName := r.2 } else none
  else if ch = 0x64 then
    (sliceInit optarg).map fun r => if r.1 = 0 then some { s with opData := r.2 } else none
  else .ok (some s)

/-- The loop over the options. -/
def optionLoop : List CommandOption → ClientLocals → Outcome (Option ClientLocals)
  | [], s => .ok (some s)
  | o :: opts, s => do
      match ← optionTurn s o with
      | none => .ok none
      | some s => optionLoop opts s

/-! ### `main` -/

/-- `op_resource_names[BUCKSET_NAME_IDX]`: `buckset`. -/
def bucksetName : Bytes := [0x62, 0x75, 0x63, 0x6b, 0x73, 0x65, 0x74]

/-- `op_resource_names[OBJECT_NAME_IDX]`: `object`. -/
def objectName : Bytes := [0x6f, 0x62, 0x6a, 0x65, 0x63, 0x74]

/-- The end of `main`: the slices are released, whatever was stored in them. -/
def clientOut (cf : ClientConf) (s : ClientLocals) : Outcome ℤ := do
  let _ ← sliceDeinit s.opType
  let _ ← sliceDeinit s.resourceName
  let _ ← sliceDeinit s.opData
  let _ ← sliceDeinit cf.addr
  .ok 0

/-- `main` with a connection: the status of the client, and what was handed over. -/
def clientConnected (cf : ClientConf) (sk : Sink) (src : Source) (locals : ClientLocals)
    (opts : List CommandOption) : Sending (ℤ × Sink) := do
  match ← keeping sk (optionLoop opts locals) with
  | none => .ok (-1, sk)
  | some s => do
      let set ← keeping sk (CString.strncmp (sliceValue s.resourceName)
        (.mem (CString.cstr bucksetName)) (sliceSize s.resourceName))
      if set = 0 then do
        let req ← requestPutBucketsetInit sk src (sliceValue s.opData)
        if req.1 = -1 then .ok (1, req.2.1)
        else do
          -- the name of the response is printed
          let _ ← keeping req.2.1
            (CString.strlen ((fillBuffer s.ack req.2.2).drop ResponseAck.name))
          let status ← keeping req.2.1 (clientOut cf s)
          .ok (status, req.2.1)
      else do
        let _ ← keeping sk (CString.strncmp (sliceValue s.resourceName)
          (.mem (CString.cstr objectName)) (sliceSize s.resourceName))
        let status ← keeping sk (clientOut cf s)
        .ok (status, sk)

/-- `main`; `file` is what is found at the first of the default paths that is there, and `connect`
what comes of a connection to an address and a port. -/
def clientMain (jsonLoads : Bytes → Option Json) (file : Option ConfFile) (cfJunk : CharPtr)
    (connect : Bytes → ℕ → Option (Sink × Source)) (locals : ClientLocals)
    (opts : List CommandOption) : Outcome ℤ :=
  match file with
  | none => .ok 0
  | some file => do
      match ← clientConfCreate jsonLoads file cfJunk with
      | none => .error .nullDeref
      | some cf => do
          let addr ← (sliceValue cf.addr).deref
          match connect addr (htons cf.port) with
          | none => clientOut cf locals
          | some (sk, src) =>
              match clientConnected cf sk src locals opts with
              | .ok r => .ok r.1
              | .error e => .error e.1

/-! ### What the options leave -/

/-- A short option without the argument that the client wants. -/
def CommandOption.bare : CommandOption → Bool
  | .letter c _ => c == 0x72 || c == 0x74
  | .long _ _ => false

/-- The argument an option gives for a letter. -/
def CommandOption.gives (letter : UInt8) (o : CommandOption) : Option SourceString :=
  match o with
  | .letter c arg =>
    if c = letter ∧ takesArgument shortOptions c = some true then some arg else none
  | .long i arg => if longOptions.get i = letter then some arg else none

/-- The argument that was given last for a letter. -/
def lastGiven (letter : UInt8) : List CommandOption → Option SourceString
  | [] => none
  | o :: opts => (lastGiven letter opts).or (o.gives letter)

/-- The slice holds the argument, or what it held before if there was none. -/
def FilledBy (arg : Option SourceString) (before after : Slice) : Prop :=
  match arg with
  | some arg => after.Represents arg.s
  | none => after = before

/-- What the options leave in the local variables. -/
structure Filled (opts : List CommandOption) (s t : ClientLocals) : Prop where
  resourceName : FilledBy (lastGiven 0x72 opts) s.resourceName t.resourceName
  opType : FilledBy (lastGiven 0x74 opts) s.opType t.opType
  opData : FilledBy (lastGiven 0x64 opts) s.opData t.opData
  ack : t.ack = s.ack

/-- A string. -/
def stringOf (s : Bytes) (h : CString.NoNul s) : SourceString := { s := s, rest := [], noNul := h }

theorem FilledBy.or {first last : Option SourceString} {a b c : Slice} (h : FilledBy first a b)
    (h' : FilledBy last b c) : FilledBy (last.or first) a c := by
  cases last with
  | some arg => exact h'
  | none =>
      have hcb : c = b := h'
      rw [hcb, Option.none_or]
      exact h

theorem sliceInit_ptr (arg : SourceString) :
    ∃ se, sliceInit arg.ptr = .ok (0, se) ∧ se.Represents arg.s := sliceInit_cstr arg.noNul arg.rest

/-- The letters of the short options: the last one takes an argument. -/
theorem takesArgument_cases (c : UInt8) :
    ((c = 0x72 ∨ c = 0x74) ∧ takesArgument shortOptions c = some false) ∨
      (c = 0x64 ∧ takesArgument shortOptions c = some true) ∨
      (c ≠ 0x72 ∧ c ≠ 0x74 ∧ c ≠ 0x64 ∧ takesArgument shortOptions c = none) := by
  by_cases hr : c = 0x72
  · subst hr
    exact Or.inl ⟨Or.inl rfl, rfl⟩
  · by_cases ht : c = 0x74
    · subst ht
      exact Or.inl ⟨Or.inr rfl, rfl⟩
    · by_cases hd : c = 0x64
      · subst hd
        exact Or.inr (Or.inl ⟨rfl, rfl⟩)
      · refine Or.inr (Or.inr ⟨hr, ht, hd, ?_⟩)
        simp [takesArgument, shortOptions, Ne.symm hr, Ne.symm ht, Ne.symm hd, eq_comm]

/-- An option with an argument stores it. -/
theorem optionTurn_given {o : CommandOption} {c : UInt8} {arg : SourceString}
    (hc : c = 0x72 ∨ c = 0x74 ∨ c = 0x64) (hopt : getoptLong o = (c, arg.ptr))
    (hgives : ∀ letter, o.gives letter = if c = letter then some arg else none)
    (s : ClientLocals) : ∃ t, optionTurn s o = .ok (some t) ∧ Filled [o] s t := by
  obtain ⟨se, hinit, hrep⟩ := sliceInit_ptr arg
  have hlast : ∀ letter, lastGiven letter [o] = if c = letter then some arg else none := by
    intro letter
    rw [lastGiven, lastGiven, Option.none_or, hgives]
  rw [optionTurn, hopt]
  rcases hc with rfl | rfl | rfl
  · refine ⟨{ s with resourceName := se }, ?_, ?_⟩
    · simp only [hinit, Except.map]
      rfl
    · refine { resourceName := ?_, opType := ?_, opData := ?_, ack := rfl } <;> rw [hlast]
      · exact hrep
      · exact rfl
      · exact rfl
  · refine ⟨{ s with opType := se }, ?_, ?_⟩
    · simp only [hinit, Except.map]
      rfl
    · refine { resourceName := ?_, opType := ?_, opData := ?_, ack := rfl } <;> rw [hlast]
      · exact rfl
      · exact hrep
      · exact rfl
  · refine ⟨{ s with opData := se }, ?_, ?_⟩
    · simp only [hinit, Except.map]
      rfl
    · refine { resourceName := ?_, opType := ?_, opData := ?_, ack := rfl } <;> rw [hlast]
      · exact rfl
      · exact rfl
      · exact hrep

/-- What one option leaves: one without the argument it wants ends the loop. -/
theorem optionTurn_eq (s : ClientLocals) (o : CommandOption) :
    (o.bare = true → optionTurn s o = .ok none) ∧
      (o.bare = false → ∃ t, optionTurn s o = .ok (some t) ∧ Filled [o] s t) := by
  cases o with
  | letter c arg =>
      rcases takesArgument_cases c with ⟨hc, htakes⟩ | ⟨rfl, htakes⟩ | ⟨hr, ht, hd, htakes⟩
      · have hopt : getoptLong (.letter c arg) = (c, .null) := by
          simp only [getoptLong, htakes]
        have hnull : sliceInit .null = .ok (-1, Slice.zero) := rfl
        refine ⟨fun _ => ?_, fun hno => ?_⟩
        · rw [optionTurn, hopt]
          rcases hc with rfl | rfl <;> rfl
        · rcases hc with rfl | rfl <;> cases hno
      · refine ⟨fun hbare => (by cases hbare), fun _ => ?_⟩
        refine optionTurn_given (Or.inr (Or.inr rfl)) rfl (fun letter => ?_) s
        simp only [CommandOption.gives, htakes, and_true]
      · refine ⟨fun hbare => ?_, fun _ => ⟨s, ?_, ?_⟩⟩
        · simp only [CommandOption.bare, Bool.or_eq_true, beq_iff_eq] at hbare
          rcases hbare with hbare | hbare
          · exact absurd hbare hr
          · exact absurd hbare ht
        · have hopt : getoptLong (.letter c arg) = (0x3f, .null) := by
            simp only [getoptLong, htakes]
          rw [optionTurn, hopt]
          rfl
        · have hnone : ∀ letter, lastGiven letter [.letter c arg] = none := by
            intro letter
            simp [lastGiven, CommandOption.gives, htakes]
          refine { resourceName := ?_, opType := ?_, opData := ?_, ack := rfl } <;> rw [hnone]
          · exact rfl
          · exact rfl
          · exact rfl
  | long i arg =>
      refine ⟨fun hbare => (by cases hbare), fun _ => ?_⟩
      refine optionTurn_given ?_ rfl (fun letter => rfl) s
      have hall : ∀ i : Fin longOptions.length, longOptions.get i = 0x72 ∨
          longOptions.get i = 0x74 ∨ longOptions.get i = 0x64 := by decide
      exact hall i

/-- **What the options leave**: a short option without the argument it wants ends the client;
otherwise each slice holds the argument that was given last. -/
theorem optionLoop_eq (opts : List CommandOption) (s : ClientLocals) :
    (opts.any CommandOption.bare = true → optionLoop opts s = .ok none) ∧
      (opts.any CommandOption.bare = false →
        ∃ t, optionLoop opts s = .ok (some t) ∧ Filled opts s t) := by
  induction opts generalizing s with
  | nil =>
      refine ⟨fun hbare => (by cases hbare), fun _ => ⟨s, rfl, ?_⟩⟩
      exact { resourceName := rfl, opType := rfl, opData := rfl, ack := rfl }
  | cons o opts ih =>
      obtain ⟨hends, hgoes⟩ := optionTurn_eq s o
      rw [List.any_cons, optionLoop]
      cases hbare : o.bare with
      | true =>
          rw [hends hbare]
          exact ⟨fun _ => rfl, fun hno => by cases hno⟩
      | false =>
          obtain ⟨t, hturn, ht⟩ := hgoes hbare
          obtain ⟨hends', hgoes'⟩ := ih t
          rw [hturn, Bool.false_or]
          refine ⟨hends', fun hno => ?_⟩
          obtain ⟨u, hloop, hu⟩ := hgoes' hno
          refine ⟨u, hloop, ?_⟩
          exact { resourceName := ht.resourceName.or hu.resourceName
                  opType := ht.opType.or hu.opType
                  opData := ht.opData.or hu.opData
                  ack := hu.ack.trans ht.ack }

/-! ### What the client hands over -/

section

variable {α β : Type} {sk : Sink}

theorem sending_bind_of_ok {x : Sending α} {a : α} (h : x = .ok a) (f : α → Sending β) :
    (x >>= f) = f a := by
  rw [h]
  rfl

end

/-- Some first part of the type of the request was handed over. -/
def HandsType (sk : Sink) (bytes : Bytes) : Prop :=
  ∃ p, p <+: [RequestType.putBucketset.toUInt8] ∧ bytes = sk.sent ++ p

theorem handsType_nothing (sk : Sink) : HandsType sk sk.sent :=
  ⟨[], List.nil_prefix, (List.append_nil _).symm⟩

/-- The call that hands the type over. -/
theorem sendN_handsType (sk : Sink) :
    (∀ e, sendN sk (memOf [RequestType.putBucketset.toUInt8] fun _ => 0) 1 = .error e →
      HandsType sk e.2.sent) ∧
      ∀ r, sendN sk (memOf [RequestType.putBucketset.toUInt8] fun _ => 0) 1 = .ok r →
        HandsType sk r.2.sent := by
  have hsent := Utils.writeN_sent (memOf [RequestType.putBucketset.toUInt8] fun _ => 0)
    (by decide : 1 < 2 ^ 31) sk
  have hnonneg := hsent.nonneg
  have hle := hsent.le_len
  have hpart : memBytes (memOf [RequestType.putBucketset.toUInt8] fun _ => 0) 0
      (Utils.writeN sk false (memOf [RequestType.putBucketset.toUInt8] fun _ => 0) 1).2.writen.toNat
      <+: [RequestType.putBucketset.toUInt8] := by
    rw [memBytes_memOf_take _ _ (by rw [List.length_singleton]; omega)]
    exact List.take_prefix _ _
  rw [sendN]
  split
  · refine ⟨fun e he => (by cases he), ?_⟩
    rintro r ⟨⟩
    exact ⟨_, hpart, hsent.sent_eq⟩
  · refine ⟨?_, fun r hr => (by cases hr)⟩
    rintro e ⟨⟩
    exact ⟨_, hpart, hsent.sent_eq⟩

/-- The request hands its type over, and nothing else; without a name, not even that. -/
theorem requestPutBucketsetInit_hands (sk : Sink) (src : Source) (setName : CharPtr) :
    HandsType sk (handed (fun r => r.2.1) (requestPutBucketsetInit sk src setName)) ∧
      (setName = .null → requestPutBucketsetInit sk src setName = .ok (-1, sk, [])) := by
  obtain ⟨herror, hok⟩ := sendN_handsType sk
  constructor
  · rw [requestPutBucketsetInit]
    split
    · exact handsType_nothing sk
    · refine handed_bind (P := HandsType sk) herror fun type htype => ?_
      have hhands := hok type htype
      refine handed_keeping (P := HandsType sk) hhands fun mem _ => ?_
      refine handed_keeping (P := HandsType sk) hhands fun len _ => ?_
      refine handed_keeping (P := HandsType sk) hhands fun req _ => ?_
      refine handed_keeping (P := HandsType sk) hhands fun rn _ => ?_
      split
      · exact hhands
      · exact handed_keeping (P := HandsType sk) hhands fun ack _ => hhands
  · intro hnull
    rw [requestPutBucketsetInit, if_pos hnull]

/-- A name that is not null is asked for, when the connection takes the type. -/
theorem requestPutBucketsetInit_asks (src : Source) {setName : CharPtr} (h : setName ≠ .null) :
    handed (fun r => r.2.1) (requestPutBucketsetInit { answers := [.accept 0], sent := [] } src
      setName) = [RequestType.putBucketset.toUInt8] := by
  have hbyte : memBytes (memOf [RequestType.putBucketset.toUInt8] fun _ => 0) 0 1 =
      [RequestType.putBucketset.toUInt8] := Utils.memBytes_memOf _ _
  have hsend := sendN_accept 1 0 (by decide) (by decide) (by decide) [] []
    (memOf [RequestType.putBucketset.toUInt8] fun _ => 0)
  rw [hbyte, List.nil_append] at hsend
  rw [requestPutBucketsetInit, if_neg h, sending_bind_of_ok hsend]
  refine handed_keeping (P := (· = [RequestType.putBucketset.toUInt8])) rfl fun mem _ => ?_
  refine handed_keeping (P := (· = [RequestType.putBucketset.toUInt8])) rfl fun len _ => ?_
  refine handed_keeping (P := (· = [RequestType.putBucketset.toUInt8])) rfl fun req _ => ?_
  refine handed_keeping (P := (· = [RequestType.putBucketset.toUInt8])) rfl fun rn _ => ?_
  split
  · exact rfl
  · exact handed_keeping (P := (· = [RequestType.putBucketset.toUInt8])) rfl fun ack _ => rfl

/-- The command line may lead to the request for a set: no short option ends the client, and the
resource and the name, where they are given, are a first part of `buckset` and not empty.  Where one
of them is not given, the client looks at what lies on the stack. -/
structure MayAskForSet (opts : List CommandOption) : Prop where
  notBare : opts.any CommandOption.bare = false
  resource : ∀ arg, lastGiven 0x72 opts = some arg → arg.s <+: bucksetName
  name : ∀ arg, lastGiven 0x64 opts = some arg → arg.s ≠ []

/-- What a slice that was given a string compares to. -/
theorem FilledBy.strncmp {arg : SourceString} {before after : Slice}
    (h : FilledBy (some arg) before after) {name : Bytes} (hname : CString.NoNul name) :
    ∃ d, CString.strncmp (sliceValue after) (.mem (CString.cstr name)) (sliceSize after) = .ok d ∧
      (d = 0 ↔ arg.s <+: name) :=
  Slice.Represents.strncmp h hname []

/-- A slice of a string that is not empty leads to it. -/
theorem Slice.Represents.deref_value {se : Slice} {s : Bytes} (h : se.Represents s) (hne : s ≠ []) :
    (sliceValue se).deref = .ok (CString.cstr s) := by
  rw [h.value_eq, if_neg hne]
  rfl

/-- A slice holds a string with a property that the one before had and every argument has. -/
theorem FilledBy.exists_represents {arg : Option SourceString} {before after : Slice}
    (h : FilledBy arg before after) {P : Bytes → Prop} {s : Bytes} (hbefore : before.Represents s)
    (hs : P s) (harg : ∀ a, arg = some a → P a.s) : ∃ t, after.Represents t ∧ P t := by
  cases arg with
  | none =>
      have hsame : after = before := h
      rw [hsame]
      exact ⟨s, hbefore, hs⟩
  | some a => exact ⟨a.s, h, harg a rfl⟩

/-- A slice that was given the empty string reads back as a null pointer. -/
theorem FilledBy.value_eq_null {arg : SourceString} {before after : Slice}
    (h : FilledBy (some arg) before after) (hnil : arg.s = []) : sliceValue after = .null := by
  have hvalue := Slice.Represents.value_eq h
  rwa [if_pos hnil] at hvalue

section

variable (cf : ClientConf) (sk : Sink) (src : Source) (locals : ClientLocals)
  (opts : List CommandOption)

/-- Every command line hands over the type at most. -/
theorem clientConnected_hands :
    HandsType sk (handed (fun r => r.2) (clientConnected cf sk src locals opts)) := by
  have hnone := handsType_nothing sk
  rw [clientConnected]
  refine handed_keeping (P := HandsType sk) hnone fun o _ => ?_
  cases o with
  | none => exact hnone
  | some s =>
      refine handed_keeping (P := HandsType sk) hnone fun set _ => ?_
      obtain ⟨hhands, -⟩ := requestPutBucketsetInit_hands sk src (sliceValue s.opData)
      split
      · refine handed_bind (P := HandsType sk) ?_ ?_
        · intro e he
          rw [he] at hhands
          exact hhands
        · intro req hreq
          rw [hreq] at hhands
          split
          · exact hhands
          · refine handed_keeping (P := HandsType sk) hhands fun len _ => ?_
            exact handed_keeping (P := HandsType sk) hhands fun status _ => hhands
      · refine handed_keeping (P := HandsType sk) hnone fun other _ => ?_
        exact handed_keeping (P := HandsType sk) hnone fun status _ => hnone

/-- A command line that cannot lead to the request hands nothing over. -/
theorem clientConnected_idle (h : ¬ MayAskForSet opts) :
    handed (fun r => r.2) (clientConnected cf sk src locals opts) = sk.sent := by
  rw [clientConnected]
  refine handed_keeping (P := (· = sk.sent)) rfl fun o ho => ?_
  cases o with
  | none => rfl
  | some s =>
      obtain ⟨hends, hgoes⟩ := optionLoop_eq opts locals
      have hbare : opts.any CommandOption.bare = false := by
        cases hbare : opts.any CommandOption.bare with
        | false => rfl
        | true =>
            rw [hends hbare] at ho
            cases ho
      obtain ⟨t, hloop, hfilled⟩ := hgoes hbare
      rw [hloop] at ho
      cases ho
      refine handed_keeping (P := (· = sk.sent)) rfl fun set hset => ?_
      split
      · -- the resource is a first part of `buckset`, so the name is empty
        rename_i hzero
        have hresource : ∀ arg, lastGiven 0x72 opts = some arg → arg.s <+: bucksetName := by
          intro arg harg
          have hfill := hfilled.resourceName
          rw [harg] at hfill
          obtain ⟨d, hd, hiff⟩ := hfill.strncmp (by decide : CString.NoNul bucksetName)
          rw [hd] at hset
          cases hset
          exact hiff.1 hzero
        have hempty : ∃ arg, lastGiven 0x64 opts = some arg ∧ arg.s = [] := by
          by_contra hno
          refine h ⟨hbare, hresource, ?_⟩
          intro arg harg hnil
          exact hno ⟨arg, harg, hnil⟩
        obtain ⟨arg, harg, hnil⟩ := hempty
        have hfill := hfilled.opData
        rw [harg] at hfill
        have hreq := (requestPutBucketsetInit_hands sk src (sliceValue s.opData)).2
          (hfill.value_eq_null hnil)
        rw [hreq]
        rfl
      · refine handed_keeping (P := (· = sk.sent)) rfl fun other _ => ?_
        exact handed_keeping (P := (· = sk.sent)) rfl fun status _ => rfl

/-- Every other command line hands the type over, with these contents of the stack. -/
theorem clientConnected_asks (h : MayAskForSet opts) : ∃ locals : ClientLocals,
    locals.ack.length = ResponseAck.size ∧ handed (fun r => r.2) (clientConnected cf
      { answers := [.accept 0], sent := [] } src locals opts) =
        [RequestType.putBucketset.toUInt8] := by
  obtain ⟨set, -, hset⟩ := sliceInit_ptr (stringOf bucksetName (by decide))
  obtain ⟨name, -, hname⟩ := sliceInit_ptr (stringOf [0x61] (by decide))
  refine ⟨{ resourceName := set, opType := set, opData := name
            ack := List.replicate ResponseAck.size 0 }, List.length_replicate, ?_⟩
  obtain ⟨t, hloop, hfilled⟩ := (optionLoop_eq opts
    { resourceName := set, opType := set, opData := name
      ack := List.replicate ResponseAck.size 0 }).2 h.notBare
  obtain ⟨r, hr, hprefix⟩ := hfilled.resourceName.exists_represents (P := (· <+: bucksetName)) hset
    List.prefix_rfl h.resource
  obtain ⟨d, hd, hne⟩ := hfilled.opData.exists_represents (P := (· ≠ [])) hname (by decide) h.name
  obtain ⟨c, hc, hzero⟩ : ∃ c, CString.strncmp (sliceValue t.resourceName)
      (.mem (CString.cstr bucksetName)) (sliceSize t.resourceName) = .ok c ∧
        (c = 0 ↔ r <+: bucksetName) := hr.strncmp (by decide) []
  have hvalue : sliceValue t.opData ≠ .null := by
    rw [hd.value_eq, if_neg hne]
    rintro ⟨⟩
  rw [clientConnected, sending_bind_of_ok (keeping_eq_ok.2 hloop)]
  dsimp only
  rw [sending_bind_of_ok (keeping_eq_ok.2 hc), if_pos (hzero.2 hprefix)]
  have hasks := requestPutBucketsetInit_asks src hvalue
  refine handed_bind (P := (· = [RequestType.putBucketset.toUInt8])) ?_ ?_
  · intro e he
    rw [he] at hasks
    exact hasks
  · intro req hreq
    rw [hreq] at hasks
    split
    · exact hasks
    · refine handed_keeping (P := (· = [RequestType.putBucketset.toUInt8])) hasks fun len _ => ?_
      exact handed_keeping (P := (· = [RequestType.putBucketset.toUInt8])) hasks fun _ _ => hasks

end

/-- **What the client hands over**: whatever the command line, the connection and the memory, at
most one byte, the type of the request for a set; and with some connection and some contents of the
stack it does so exactly for the command lines that may ask for one. -/
theorem clientConnected_sent (cf : ClientConf) (opts : List CommandOption) :
    (∀ sk src locals, ∃ p, p <+: [RequestType.putBucketset.toUInt8] ∧
      handed (fun r => r.2) (clientConnected cf sk src locals opts) = sk.sent ++ p) ∧
    ((∃ sk src locals, locals.ack.length = ResponseAck.size ∧
      handed (fun r => r.2) (clientConnected cf sk src locals opts) ≠ sk.sent) ↔
      MayAskForSet opts) := by
  constructor
  · intro sk src locals
    exact clientConnected_hands cf sk src locals opts
  · constructor
    · rintro ⟨sk, src, locals, -, hsent⟩
      by_contra hno
      exact hsent (clientConnected_idle cf sk src locals opts hno)
    · intro hasks
      obtain ⟨locals, hack, hsent⟩ :=
        clientConnected_asks cf { arrivals := [], ended := true } opts hasks
      refine ⟨{ answers := [.accept 0], sent := [] }, { arrivals := [], ended := true }, locals,
        hack, ?_⟩
      rw [hsent]
      rintro ⟨⟩

/-! ### Safe command lines -/

/-- A slice as it may lie on the stack: what it holds is no pointer. -/
def straySlice : Slice := { data := .ptr .wild, sz := sliceInternalSz }

/-- Local variables that hold such slices. -/
def strayLocals : ClientLocals where
  resourceName := straySlice
  opType := straySlice
  opData := straySlice
  ack := List.replicate ResponseAck.size 0

/-- **Without a connection**, the slices are released before anything was stored in them. -/
theorem clientMain_unconnected {jsonLoads : Bytes → Option Json} {file : ConfFile}
    {cfJunk : CharPtr} {cf : ClientConf}
    (hconf : clientConfCreate jsonLoads file cfJunk = .ok (some cf)) {addr : Bytes}
    (haddr : cf.addr.Represents addr) (hne : addr ≠ [])
    {connect : Bytes → ℕ → Option (Sink × Source)}
    (hno : connect (CString.cstr addr) (htons cf.port) = none)
    (opts : List CommandOption) :
    clientMain jsonLoads (some file) cfJunk connect strayLocals opts = .error .wild := by
  have hvalue := haddr.deref_value hne
  simp only [clientMain, hconf, hvalue, Outcome.ok_bind, hno]
  rfl

/-! ### The server's own file -/

/-- A file that is given to the parser as it stands: what the client makes of its object. -/
theorem clientConfCreate_isOk {jsonLoads : Bytes → Option Json} {content : Bytes} {root : Json}
    {cf : ClientConf} (hnul : CString.NoNul content) (hlen : content.length < confBufferMax)
    (hjson : jsonLoads content = some root) (hfields : clientConfFields root = .ok cf)
    (cfJunk : CharPtr) : clientConfCreate jsonLoads (.bytes content) cfJunk = .ok (some cf) := by
  obtain ⟨t, ht⟩ := confBuffer_eq hlen
  simp only [clientConfCreate, ht, CString.strlen_append hnul, Outcome.ok_bind, List.take_left,
    hjson, hfields]

/-- The connections that are made when one server is running and nothing else listens; `isLocal`
says whether `inet_addr` makes of a string an address of the host of the server.  There is no
connection to the port 0. -/
def Running.connect (r : Running) (isLocal : Bytes → Bool) (sk : Sink) (src : Source) (addr : Bytes)
    (port : ℕ) : Option (Sink × Source) :=
  if isLocal (Log.untilNul addr) = true ∧ port ≠ 0 ∧ r.listener.port = some port then
    some (sk, src)
  else none

/-- The client of the server's own file finds the server: at an address of its host, and at a port
that is above 1024 and does not end in zeros, or that ends in the default port. -/
def FindsServer (isLocal : Bytes → Bool) (addr : Bytes) (port : ℤ) : Prop :=
  isLocal addr = true ∧
    ((1024 < port ∧ port % 2 ^ 16 ≠ 0) ∨ port % 2 ^ 16 = netsocketDefaultPort)

/-- The two fields of an object that the client looks up. -/
theorem clientConfFields_object {members : List (Bytes × Json)} {addr : Bytes}
    (hnul : CString.NoNul addr) (haddr : members.lookup keyAddr = some (.string addr)) :
    ∃ se, se.Represents addr ∧ clientConfFields (.object members) =
      .ok { port := CInt.toInt32 (jsonIntegerValue (members.lookup keyPort)), addr := se } := by
  obtain ⟨se, hinit, hrep⟩ := sliceInit_cstr hnul []
  have hport : jsonObjectGet (.object members) (.mem (CString.cstr keyPort)) =
      .ok (members.lookup keyPort) := jsonObjectGet_key (by decide)
  have hlookup : jsonObjectGet (.object members) (.mem (CString.cstr keyAddr)) =
      .ok (some (.string addr)) := by
    rw [jsonObjectGet_key (by decide), haddr]
  refine ⟨se, hrep, ?_⟩
  rw [clientConfFields, hport, Outcome.ok_bind, hlookup, Outcome.ok_bind]
  exact congrArg (· >>= _) hinit

/-- **What becomes of a client that is given the server's own file.**  While the server is running
and nothing else listens, the client gets its connection exactly when the address is one of the
server's host, and the port is above 1024 and does not end in zeros, or ends in the default port;
with any other address or port it releases slices that nothing was stored in. -/
theorem clientMain_serverFile {jsonLoads : Bytes → Option Json} {content : Bytes}
    {members : List (Bytes × Json)} (hnul : CString.NoNul content)
    (hlen : content.length < confBufferMax) (hjson : jsonLoads content = some (.object members))
    {stray cfJunk cfJunk' : CharPtr} {net : NetIo} {r : Running}
    (h : serverMain jsonLoads (some { file := .bytes content, stray := stray, cf := cfJunk }) net =
      .ok r) {addr : Bytes} (haddr : members.lookup keyAddr = some (.string addr))
    (haddrNul : CString.NoNul addr) (hne : addr ≠ []) {port : ℤ}
    (hport : CInt.toInt32 (jsonIntegerValue (members.lookup keyPort)) = port)
    (isLocal : Bytes → Bool) (sk : Sink) (src : Source) (opts : List CommandOption) :
    (FindsServer isLocal addr port → ∀ locals,
      clientMain jsonLoads (some (.bytes content)) cfJunk' (r.connect isLocal sk src) locals opts =
        clientMain jsonLoads (some (.bytes content)) cfJunk' (fun _ _ => some (sk, src)) locals
          opts) ∧
    (¬ FindsServer isLocal addr port →
      clientMain jsonLoads (some (.bytes content)) cfJunk' (r.connect isLocal sk src) strayLocals
        opts = .error .wild) := by
  have hlistener := serverMain_listener hnul hlen hjson h
  obtain ⟨se, hrep, hfields⟩ := clientConfFields_object haddrNul haddr
  have hconf := clientConfCreate_isOk hnul hlen hjson hfields cfJunk'
  rw [hport] at hlistener hfields hconf
  have hfinds : (isLocal (Log.untilNul (CString.cstr addr)) = true ∧ htons port ≠ 0 ∧
      r.listener.port = some (htons port)) ↔ FindsServer isLocal addr port := by
    rw [hlistener, Log.untilNul_cstr haddrNul, Option.some.injEq, boundPort_eq_htons_iff,
      FindsServer]
  constructor
  · intro hmeets locals
    have hvalue := hrep.deref_value hne
    have hconnect : r.connect isLocal sk src (CString.cstr addr) (htons port) = some (sk, src) :=
      if_pos (hfinds.2 hmeets)
    simp only [clientMain, hconf, hvalue, Outcome.ok_bind, hconnect]
  · intro hmisses
    have hconnect : r.connect isLocal sk src (CString.cstr addr) (htons port) = none :=
      if_neg fun hyes => hmisses (hfinds.1 hyes)
    exact clientMain_unconnected hconf hrep hne hconnect opts

/-- `{"addr":"127.0.0.1","port":22}`. -/
def reservedText : Bytes :=
  [0x7b, 0x22, 0x61, 0x64, 0x64, 0x72, 0x22, 0x3a, 0x22] ++ netsocketDefaultAddr ++
    [0x22, 0x2c, 0x22, 0x70, 0x6f, 0x72, 0x74, 0x22, 0x3a, 0x32, 0x32, 0x7d]

/-- Its fields. -/
def reservedMembers : List (Bytes × Json) :=
  [(keyAddr, .string netsocketDefaultAddr), (keyPort, .integer 22)]

/-- A parser, as far as that text goes. -/
def parseReserved (text : Bytes) : Option Json :=
  if text = reservedText then some (.object reservedMembers) else none

/-- The result applied to a file with a reserved port: the server listens on another one. -/
theorem clientMain_serverFile_reserved : ∃ r, serverMain parseReserved
      (some { file := .bytes reservedText, stray := .null, cf := .null })
      { socket := 3, bind := 0, listen := 0, picked := 32768 } = .ok r ∧
    ∀ isLocal sk src opts,
    (FindsServer isLocal netsocketDefaultAddr 22 → ∀ locals,
      clientMain parseReserved (some (.bytes reservedText)) .null (r.connect isLocal sk src) locals
          opts =
        clientMain parseReserved (some (.bytes reservedText)) .null (fun _ _ => some (sk, src))
          locals opts) ∧
    (¬ FindsServer isLocal netsocketDefaultAddr 22 →
      clientMain parseReserved (some (.bytes reservedText)) .null (r.connect isLocal sk src)
        strayLocals opts = .error .wild) := by
  have hnul : CString.NoNul reservedText := by decide
  have hlen : reservedText.length < confBufferMax := by decide
  have hparse : parseReserved reservedText = some (.object reservedMembers) := if_pos rfl
  have haddr : reservedMembers.lookup keyAddr = some (.string netsocketDefaultAddr) := rfl
  obtain ⟨cf, hcf⟩ : ∃ cf, confFields .null (.object reservedMembers) = .ok cf := ⟨_, rfl⟩
  have hconf : confCreate parseReserved
      { file := .bytes reservedText, stray := .null, cf := .null } = .ok (some cf) :=
    confCreate_isOk hnul hlen hparse hcf
  obtain ⟨r, hr, -⟩ := (serverMain_of_conf hconf
    { socket := 3, bind := 0, listen := 0, picked := 32768 }).2 ⟨by decide, rfl, by decide⟩
  exact ⟨r, hr, fun isLocal sk src opts =>
    clientMain_serverFile hnul hlen hparse hr haddr (by decide) (by decide) rfl isLocal sk src opts⟩

/-! ### The command line of the comment -/
