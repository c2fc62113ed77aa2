/-
**The formatter of the log.**

`_safe_vsnprintf` copies a format into a buffer, character by character, and puts in the place of
each directive what its argument is printed as.  It goes on behind the end of the buffer until it
meets an ordinary character, and it knows no directive but `%d`, `%i`, `%u`, `%x`, `%p` and `%s`,
with or without `l` or `ll`: any other is skipped.

Main definitions:

* `Log.Slot` — an argument;
* `Log.safeCheckLonglong`, `Log.valAsStr`, `Log.copyChars`, `Log.formatDirective` — the steps of a
  turn;
* `Log.safeVsnprintfTurn`, `Log.safeVsnprintf` — the formatter;
* `Log.Piece` — an ordinary character, or a directive with the argument it takes;
* `Log.pieceText`, `Log.textOf` — what is printed for a piece, and for some;
* `Log.Fills` — an ordinary character is met when the buffer is full.

Main results:

* `Log.safeVsnprintf_isSome` — the loop comes to an end;
* `Log.turn_piece` — **what one turn does with a piece**;
* `Log.reaches_pieces`, `Log.safeVsnprintf_pieces` — **what the formatter writes for a format**.
-/

import SdsStorage.LogDigits
import SdsStorage.Loop

set_option relaxedAutoImplicit false
set_option autoImplicit false

namespace Log

/-! ### The formatter -/

/-- An argument behind the last named one: its 64 bits, and what they lead to when they are read as
a pointer to characters. -/
structure Slot where
  bits : UInt64
  str : CharPtr
  deriving DecidableEq, Repr

/-- `va_arg`. -/
def vaArg : List Slot → Outcome (Slot × List Slot)
  | [] => .error .wild
  | arg :: ap => .ok (arg, ap)

/-- `_safe_check_longlong`: whether the argument has 64 bits, and the format behind the modifier. -/
def safeCheckLonglong : Bytes → Outcome (Bool × Bytes)
  | [] => .error .overread
  | c :: fmt =>
      if c = 0x6c then
        match fmt with
        | [] => .error .overread
        | d :: fmt => if d ≠ 0x6c then .ok (true, d :: fmt) else .ok (true, fmt)
      else .ok (false, c :: fmt)

/-- The conversions that print a number. -/
def isNumber (conv : UInt8) : Bool :=
  conv == 0x64 || conv == 0x69 || conv == 0x75 || conv == 0x78 || conv == 0x70

/-- The characters `val_as_str` leads to: the digits of a number. -/
def valAsStr (stray : ℕ → UInt8) (longlong : Bool) (conv : UInt8) (arg : Slot) : Outcome Bytes :=
  let longlong := if conv = 0x70 then true else longlong
  let base := if conv = 0x78 ∨ conv = 0x70 then 16 else 10
  if conv = 0x75 then safeUtoa stray base (unsignedOf longlong arg.bits)
  else do
    let ival := signedOf longlong arg.bits
    let val ← safeItoa stray base ival
    -- the digits of the upper 32 bits are stripped off
    .ok (if conv = 0x78 ∧ longlong = false ∧ ival < 0 then val.drop 8 else val)

/-- What `%s` prints for `NULL`. -/
def nullText : Bytes := [0x28, 0x6e, 0x75, 0x6c, 0x6c, 0x29]

/-- The characters a `%s` leads to. -/
def valOf : CharPtr → CharPtr
  | .null => .mem (CString.cstr nullText)
  | p => p

/-- The loop `while (*val && to < end) *to++ = *val++;`. -/
def copyChars (last : ℕ) : Bytes → ℕ → Bytes → Outcome (ℕ × Bytes)
  | [], _, _ => .error .overread
  | c :: val, dst, buf =>
      if c ≠ 0 ∧ dst < last then do
        let buf ← CString.memcpyAt buf dst [c]
        copyChars last val (dst + 1) buf
      else .ok (dst, buf)

/-- The local variables of `_safe_vsnprintf`: the memory `format` leads into, the offset `to` in the
object `buf`, and the arguments that are left. -/
structure FormatState where
  format : Bytes
  dst : ℕ
  buf : Bytes
  ap : List Slot
  deriving DecidableEq, Repr

/-- The part of a turn behind a `%`; the header of the loop advances the format once more. -/
def formatDirective (stray : ℕ → UInt8) (last : ℕ) (s : FormatState) : Outcome FormatState := do
  let (longlong, format) ← safeCheckLonglong s.format
  match format with
  | [] => .error .overread
  | conv :: format =>
      if isNumber conv then do
        let (arg, ap) ← vaArg s.ap
        let val ← valAsStr stray longlong conv arg
        let (dst, buf) ← copyChars last (CString.cstr val) s.dst s.buf
        .ok { format := format, dst := dst, buf := buf, ap := ap }
      else if conv = 0x73 then do
        let (arg, ap) ← vaArg s.ap
        let val ← (valOf arg.str).deref
        let (dst, buf) ← copyChars last val s.dst s.buf
        .ok { format := format, dst := dst, buf := buf, ap := ap }
      else .ok { s with format := format }

/-- One turn of the loop over the format; `last` is the offset `end`. -/
def safeVsnprintfTurn (stray : ℕ → UInt8) (last : ℕ) (s : FormatState) :
    Loop.Turn FormatState (Outcome FormatState) :=
  match s.format with
  | [] => .done (.error .overread)
  | c :: format =>
      if c = 0 then .done (.ok s)
      else if c ≠ 0x25 then
        if s.dst = last then .done (.ok s)
        else
          match CString.memcpyAt s.buf s.dst [c] with
          | .error f => .done (.error f)
          | .ok buf => .again { s with format := format, dst := s.dst + 1, buf := buf }
      else
        match formatDirective stray last { s with format := format } with
        | .error f => .done (.error f)
        | .ok s => .again s

/-- `_safe_vsnprintf`, into the object `buf` from the offset `start` on. -/
def safeVsnprintf (stray : ℕ → UInt8) (buf : Bytes) (start size : ℕ) (format : Bytes)
    (ap : List Slot) : Outcome (ℤ × Bytes) := do
  let s ← (Loop.run (safeVsnprintfTurn stray (start + size - 1)) (format.length + 1)
    { format := format, dst := start, buf := buf, ap := ap }).getD (.error .blocked)
  let buf ← CString.memcpyAt s.buf s.dst [0]
  .ok (CInt.toInt32 (s.dst - start), buf)

theorem length_safeCheckLonglong {fmt fmt' : Bytes} {longlong : Bool}
    (h : safeCheckLonglong fmt = .ok (longlong, fmt')) : fmt'.length ≤ fmt.length := by
  cases fmt with
  | nil => cases h
  | cons c fmt =>
      simp only [safeCheckLonglong] at h
      split at h
      · cases fmt with
        | nil => cases h
        | cons d fmt =>
            dsimp only at h
            split at h
            · cases h
              exact Nat.le_succ _
            · cases h
              simp only [List.length_cons]
              omega
      · cases h
        exact Nat.le_refl _

/-- A directive advances the format. -/
theorem length_formatDirective {stray : ℕ → UInt8} {last : ℕ} {s s' : FormatState}
    (h : formatDirective stray last s = .ok s') : s'.format.length < s.format.length := by
  rw [formatDirective, Outcome.bind_eq_ok] at h
  obtain ⟨⟨longlong, format⟩, hcheck, h⟩ := h
  have hle := length_safeCheckLonglong hcheck
  cases format with
  | nil => cases h
  | cons conv format =>
      have hlt : format.length < s.format.length := by
        rw [List.length_cons] at hle
        omega
      dsimp only at h
      split at h
      · simp only [Outcome.bind_eq_ok] at h
        obtain ⟨arg, -, val, -, copied, -, h⟩ := h
        cases h
        exact hlt
      · split at h
        · simp only [Outcome.bind_eq_ok] at h
          obtain ⟨arg, -, val, -, copied, -, h⟩ := h
          cases h
          exact hlt
        · cases h
          exact hlt

/-- **The loop comes to an end**: every turn advances the format. -/
theorem safeVsnprintf_isSome (stray : ℕ → UInt8) (last : ℕ) (s : FormatState) :
    (Loop.run (safeVsnprintfTurn stray last) (s.format.length + 1) s).isSome := by
  refine Loop.run_isSome_of_variant (I := fun _ => True) (fun s => s.format.length) ?_ trivial
    (Nat.lt_succ_self _)
  intro s s' _ h
  refine ⟨trivial, ?_⟩
  rw [safeVsnprintfTurn] at h
  split at h
  · cases h
  · rename_i c format hformat
    split at h
    · cases h
    · split at h
      · split at h
        · cases h
        · split at h
          · cases h
          · cases h
            rw [hformat]
            exact Nat.lt_succ_self _
      · split at h
        · cases h
        · rename_i hdirective
          cases h
          have hlt := length_formatDirective hdirective
          rw [hformat]
          exact hlt.trans (Nat.lt_succ_self _)

/-! ### The pieces of a format -/

/-- A length modifier. -/
inductive LengthMod where
  | none
  | l
  | ll
  deriving DecidableEq, Repr

/-- How it is spelled. -/
def LengthMod.bytes : LengthMod → Bytes
  | .none => []
  | .l => [0x6c]
  | .ll => [0x6c, 0x6c]

/-- The argument has 64 bits. -/
def LengthMod.longlong : LengthMod → Bool
  | .none => false
  | _ => true

/-- A pointer that `%s` may read: null, or to memory with a terminator. -/
def Terminated : CharPtr → Prop
  | .null => True
  | .mem m => (0 : UInt8) ∈ m
  | .wild => False

instance : DecidablePred Terminated := fun p => by
  cases p <;> unfold Terminated <;> infer_instance

/-- An ordinary character, or a directive with the argument it takes. -/
inductive Piece where
  | plain (c : UInt8) (hnul : c ≠ 0) (hdir : c ≠ 0x25)
  | number (mod : LengthMod) (conv : UInt8) (hconv : isNumber conv = true) (arg : Slot)
  | string (mod : LengthMod) (arg : Slot) (harg : Terminated arg.str)
  /-- A directive that is not known: it prints nothing, and takes no argument. -/
  | skipped (mod : LengthMod) (conv : UInt8) (hnul : conv ≠ 0) (hmod : mod = .ll ∨ conv ≠ 0x6c)
      (hconv : isNumber conv = false) (hstr : conv ≠ 0x73)

namespace Piece

/-- How a piece is spelled in the format. -/
def bytes : Piece → Bytes
  | .plain c _ _ => [c]
  | .number mod conv _ _ => 0x25 :: (mod.bytes ++ [conv])
  | .string mod _ _ => 0x25 :: (mod.bytes ++ [0x73])
  | .skipped mod conv _ _ _ _ => 0x25 :: (mod.bytes ++ [conv])

/-- The argument a piece takes. -/
def args : Piece → List Slot
  | .plain _ _ _ => []
  | .number _ _ _ arg => [arg]
  | .string _ arg _ => [arg]
  | .skipped _ _ _ _ _ _ => []

/-- The piece is an ordinary character. -/
def isPlain : Piece → Bool
  | .plain _ _ _ => true
  | _ => false

end Piece

/-- A format. -/
def spell (pieces : List Piece) : Bytes := pieces.flatMap Piece.bytes

/-- Its arguments. -/
def argsOf (pieces : List Piece) : List Slot := pieces.flatMap Piece.args

/-- The characters before the terminator. -/
def untilNul (mem : Bytes) : Bytes := mem.takeWhile (· ≠ 0)

/-- A string is found before its terminator. -/
theorem untilNul_append {s : Bytes} (hs : CString.NoNul s) (t : Bytes) :
    untilNul (s ++ 0 :: t) = s := by
  rw [untilNul, List.takeWhile_append_of_pos, List.takeWhile_cons_of_neg (by simp),
    List.append_nil]
  intro c hc
  have hne : c ≠ 0 := fun h => hs (h ▸ hc)
  simpa using hne

theorem untilNul_cstr {s : Bytes} (hs : CString.NoNul s) : untilNul (CString.cstr s) = s :=
  untilNul_append hs []

/-- What a pointer that `%s` may read leads to. -/
def stringText (arg : Slot) : Bytes :=
  match valOf arg.str with
  | .mem m => untilNul m
  | _ => []

/-- What is printed for a piece. -/
def pieceText (stray : ℕ → UInt8) : Piece → Bytes
  | .plain c _ _ => [c]
  | .number mod conv _ arg =>
      match valAsStr stray mod.longlong conv arg with
      | .ok val => untilNul (CString.cstr val)
      | .error _ => []
  | .string _ arg _ => stringText arg
  | .skipped _ _ _ _ _ _ => []

/-- What is printed for some pieces. -/
def textOf (stray : ℕ → UInt8) (pieces : List Piece) : Bytes := pieces.flatMap (pieceText stray)

/-! ### What a turn does -/

/-- An object with a text written to it from the offset `start` on. -/
def put (buf : Bytes) (start : ℕ) (text : Bytes) : Bytes :=
  buf.take start ++ text ++ buf.drop (start + text.length)

theorem put_nil (buf : Bytes) (start : ℕ) : put buf start [] = buf := by
  rw [put, List.append_nil, List.length_nil, Nat.add_zero, List.take_append_drop]

theorem length_put {buf text : Bytes} {start : ℕ} (h : start + text.length ≤ buf.length) :
    (put buf start text).length = buf.length := by
  rw [put, List.length_append, List.length_append, List.length_take, List.length_drop]
  omega

/-- The next character is written behind the text. -/
theorem memcpyAt_put {buf text : Bytes} {start : ℕ} (h : start + text.length < buf.length)
    (c : UInt8) :
    CString.memcpyAt (put buf start text) (start + text.length) [c] =
      .ok (put buf start (text ++ [c])) := by
  have hbefore : (buf.take start ++ text).length = start + text.length := by
    rw [List.length_append, List.length_take]
    omega
  rw [CString.memcpyAt, length_put (by omega), List.length_singleton, if_pos (by omega)]
  congr 1
  have hbehind : (put buf start text).drop (start + text.length + 1) =
      buf.drop (start + (text ++ [c]).length) := by
    rw [put, ← hbefore, List.drop_length_add_append, List.drop_drop, hbefore, List.length_append,
      List.length_singleton, Nat.add_assoc]
  rw [hbehind, put, List.take_left' hbefore, put, List.append_assoc (buf.take start)]

/-- The part of a text that is kept does not depend on what was cut off before. -/
theorem take_append_take (cap : ℕ) (text more : Bytes) :
    (text.take cap ++ more).take cap = (text ++ more).take cap := by
  rcases Nat.le_total cap text.length with h | h
  · have hlen : (text.take cap).length = cap := List.length_take_of_le h
    rw [List.take_append_of_le_length hlen.ge, List.take_append_of_le_length h, List.take_take,
      Nat.min_self]
  · rw [List.take_of_length_le h]

/-- Characters are copied as long as there is room. -/
theorem copyChars_put {buf : Bytes} {start cap : ℕ} (hroom : start + cap < buf.length)
    {val : Bytes} (hval : (0 : UInt8) ∈ val) {text : Bytes} (htext : text.length ≤ cap) :
    copyChars (start + cap) val (start + text.length) (put buf start text) =
      .ok (start + ((text ++ untilNul val).take cap).length,
        put buf start ((text ++ untilNul val).take cap)) := by
  induction val generalizing text with
  | nil => cases hval
  | cons c val ih =>
      rw [copyChars]
      by_cases hc : c = 0
      · have hnil : untilNul (c :: val) = [] := by simp [untilNul, hc]
        rw [if_neg (fun h => h.1 hc), hnil, List.append_nil, List.take_of_length_le htext]
      · have hcons : untilNul (c :: val) = c :: untilNul val := by simp [untilNul, hc]
        have hrest : (0 : UInt8) ∈ val := by
          rcases List.mem_cons.1 hval with h | h
          · exact absurd h.symm hc
          · exact h
        rcases Nat.lt_or_ge text.length cap with hlt | hge
        · have hlen : (text ++ [c]).length = text.length + 1 := List.length_append
          have hnext := ih hrest (by omega : (text ++ [c]).length ≤ cap)
          rw [hlen, List.append_assoc, List.singleton_append, ← hcons, ← Nat.add_assoc] at hnext
          rw [if_pos ⟨hc, by omega⟩, memcpyAt_put (by omega), Outcome.ok_bind, hnext]
        · rw [if_neg (fun h => by omega), List.take_append_of_le_length hge,
            List.take_of_length_le htext]

/-- The digits of a conversion without a sign. -/
theorem valAsStr_u (stray : ℕ → UInt8) (longlong : Bool) (arg : Slot) :
    valAsStr stray longlong 0x75 arg =
      .ok (CString.decimalNat (unsignedOf longlong arg.bits)) :=
  safeUtoa_ten stray (unsignedOf_lt longlong arg.bits)

theorem valAsStr_x (stray : ℕ → UInt8) (longlong : Bool) (arg : Slot) :
    valAsStr stray longlong 0x78 arg = .ok (hexNat (unsignedOf longlong arg.bits)) := by
  obtain ⟨h₁, h₂⟩ := signedOf_bounds longlong arg.bits
  have hhex := hexNat_signedOf longlong arg.bits
  change (safeItoa stray 16 (signedOf longlong arg.bits) >>= fun val => Except.ok
    (if (0x78 : UInt8) = 0x78 ∧ longlong = false ∧ signedOf longlong arg.bits < 0 then val.drop 8
      else val)) = _
  rw [safeItoa_sixteen stray h₁ h₂, Outcome.ok_bind]
  by_cases hstrip : longlong = false ∧ signedOf longlong arg.bits < 0
  · rw [if_pos hstrip] at hhex
    rw [if_pos ⟨rfl, hstrip⟩, hhex]
  · rw [if_neg hstrip] at hhex
    rw [if_neg (fun h => hstrip h.2), hhex]

theorem valAsStr_p (stray : ℕ → UInt8) (longlong : Bool) (arg : Slot) :
    valAsStr stray longlong 0x70 arg = .ok (hexNat arg.bits.toNat) := by
  obtain ⟨h₁, h₂⟩ := signedOf_bounds true arg.bits
  have hhex := hexNat_signedOf true arg.bits
  rw [if_neg (fun h => Bool.noConfusion h.1)] at hhex
  change (safeItoa stray 16 (signedOf true arg.bits) >>= fun val => Except.ok
    (if (0x70 : UInt8) = 0x78 ∧ true = false ∧ signedOf true arg.bits < 0 then val.drop 8
      else val)) = _
  rw [safeItoa_sixteen stray h₁ h₂, Outcome.ok_bind, if_neg (fun h => absurd h.1 (by decide)), hhex]
  rfl

/-- The digits of a conversion with a sign. -/
theorem valAsStr_d (stray : ℕ → UInt8) (longlong : Bool) {conv : UInt8}
    (hconv : conv = 0x64 ∨ conv = 0x69) (arg : Slot) :
    valAsStr stray longlong conv arg = safeItoa stray 10 (signedOf longlong arg.bits) := by
  have hid : ∀ x : Outcome Bytes, (x >>= fun val => Except.ok val) = x := bind_pure
  rcases hconv with rfl | rfl
  · exact hid _
  · exact hid _

theorem conv_cases {conv : UInt8} (h : isNumber conv = true) :
    (conv = 0x64 ∨ conv = 0x69) ∨ conv = 0x75 ∨ conv = 0x78 ∨ conv = 0x70 := by
  simp only [isNumber, Bool.or_eq_true, beq_iff_eq] at h
  tauto

/-- The digits of a number are always found. -/
theorem valAsStr_isOk (stray : ℕ → UInt8) (longlong : Bool) {conv : UInt8}
    (hconv : isNumber conv = true) (arg : Slot) :
    ∃ val, valAsStr stray longlong conv arg = .ok val := by
  rcases conv_cases hconv with h | rfl | rfl | rfl
  · obtain ⟨h₁, h₂⟩ := signedOf_bounds longlong arg.bits
    rw [valAsStr_d stray longlong h]
    rcases Int.lt_or_eq_of_le h₁ with hlt | hmin
    · exact ⟨_, safeItoa_ten stray hlt h₂⟩
    · rw [← hmin]
      exact ⟨_, safeItoa_minimum stray⟩
  · exact ⟨_, valAsStr_u stray longlong arg⟩
  · exact ⟨_, valAsStr_x stray longlong arg⟩
  · exact ⟨_, valAsStr_p stray longlong arg⟩

/-- The state after some text was written. -/
def stateAt (buf : Bytes) (start cap : ℕ) (text format : Bytes) (ap : List Slot) : FormatState :=
  { format := format
    dst := start + (text.take cap).length
    buf := put buf start (text.take cap)
    ap := ap }

/-- The modifier of a directive is skipped. -/
theorem safeCheckLonglong_bytes {mod : LengthMod} {conv : UInt8} (hmod : mod = .ll ∨ conv ≠ 0x6c)
    (format : Bytes) :
    safeCheckLonglong (mod.bytes ++ conv :: format) = .ok (mod.longlong, conv :: format) := by
  cases mod with
  | none =>
      rcases hmod with h | h
      · cases h
      · simp [LengthMod.bytes, LengthMod.longlong, safeCheckLonglong, h]
  | l =>
      rcases hmod with h | h
      · cases h
      · simp [LengthMod.bytes, LengthMod.longlong, safeCheckLonglong, h]
  | ll => simp [LengthMod.bytes, LengthMod.longlong, safeCheckLonglong]

/-- A turn at an ordinary character. -/
theorem turn_plain {stray : ℕ → UInt8} {last : ℕ} {s : FormatState} {c : UInt8} {format : Bytes}
    (hformat : s.format = c :: format) (hnul : c ≠ 0) (hdir : c ≠ 0x25) :
    safeVsnprintfTurn stray last s =
      if s.dst = last then .done (.ok s)
      else
        match CString.memcpyAt s.buf s.dst [c] with
        | .error f => .done (.error f)
        | .ok buf => .again { s with format := format, dst := s.dst + 1, buf := buf } := by
  rw [safeVsnprintfTurn, hformat]
  dsimp only
  rw [if_neg hnul, if_pos hdir]

/-- A turn at a directive. -/
theorem turn_directive {stray : ℕ → UInt8} {last : ℕ} {s : FormatState} {format : Bytes}
    (hformat : s.format = 0x25 :: format) :
    safeVsnprintfTurn stray last s =
      match formatDirective stray last { s with format := format } with
      | .error f => .done (.error f)
      | .ok s => .again s := by
  rw [safeVsnprintfTurn, hformat]
  rfl

/-- A turn at a directive that is gone through. -/
theorem turn_of_directive {stray : ℕ → UInt8} {last : ℕ} {s t : FormatState} {format : Bytes}
    (hformat : s.format = 0x25 :: format)
    (hdirective : formatDirective stray last { s with format := format } = .ok t) :
    safeVsnprintfTurn stray last s = .again t := by
  rw [turn_directive hformat, hdirective]

/-- A directive, by its conversion. -/
theorem formatDirective_eq {stray : ℕ → UInt8} {last : ℕ} {s : FormatState} {mod : LengthMod}
    {conv : UInt8} {format : Bytes} (hmod : mod = .ll ∨ conv ≠ 0x6c)
    (hformat : s.format = mod.bytes ++ conv :: format) :
    formatDirective stray last s =
      if isNumber conv then do
        let (arg, ap) ← vaArg s.ap
        let val ← valAsStr stray mod.longlong conv arg
        let (dst, buf) ← copyChars last (CString.cstr val) s.dst s.buf
        .ok { format := format, dst := dst, buf := buf, ap := ap }
      else if conv = 0x73 then do
        let (arg, ap) ← vaArg s.ap
        let val ← (valOf arg.str).deref
        let (dst, buf) ← copyChars last val s.dst s.buf
        .ok { format := format, dst := dst, buf := buf, ap := ap }
      else .ok { s with format := format } := by
  rw [formatDirective, hformat, safeCheckLonglong_bytes hmod]
  rfl

section Directive

variable {stray : ℕ → UInt8} {last dst : ℕ} {s : FormatState} {mod : LengthMod} {conv : UInt8}
  {arg : Slot} {ap : List Slot} {format val buf : Bytes}

/-- A directive that prints a number. -/
theorem formatDirective_number (hconv : isNumber conv = true)
    (hformat : s.format = mod.bytes ++ conv :: format) (hap : s.ap = arg :: ap)
    (hval : valAsStr stray mod.longlong conv arg = .ok val)
    (hcopy : copyChars last (CString.cstr val) s.dst s.buf = .ok (dst, buf)) :
    formatDirective stray last s = .ok { format := format, dst := dst, buf := buf, ap := ap } := by
  have hmod : mod = .ll ∨ conv ≠ 0x6c := by
    refine Or.inr ?_
    rintro rfl
    cases hconv
  rw [formatDirective_eq hmod hformat, if_pos hconv, hap]
  simp only [vaArg, Outcome.ok_bind, hval, hcopy]

/-- A directive that prints a string. -/
theorem formatDirective_string (hformat : s.format = mod.bytes ++ 0x73 :: format)
    (hap : s.ap = arg :: ap) (hval : (valOf arg.str).deref = .ok val)
    (hcopy : copyChars last val s.dst s.buf = .ok (dst, buf)) :
    formatDirective stray last s = .ok { format := format, dst := dst, buf := buf, ap := ap } := by
  rw [formatDirective_eq (Or.inr (by decide)) hformat, if_neg (by decide), if_pos rfl, hap]
  simp only [vaArg, Outcome.ok_bind, hval, hcopy]

/-- A directive that is not known. -/
theorem formatDirective_skipped (hmod : mod = .ll ∨ conv ≠ 0x6c) (hconv : isNumber conv = false)
    (hstr : conv ≠ 0x73) (hformat : s.format = mod.bytes ++ conv :: format) :
    formatDirective stray last s = .ok { s with format := format } := by
  rw [formatDirective_eq hmod hformat, if_neg (by rw [hconv]; decide), if_neg hstr]

end Directive

/-- What `%s` reads has a terminator. -/
theorem valOf_deref {arg : Slot} (harg : Terminated arg.str) :
    ∃ val, (valOf arg.str).deref = .ok val ∧ (0 : UInt8) ∈ val ∧ stringText arg = untilNul val := by
  rw [stringText]
  cases hstr : arg.str with
  | null => exact ⟨CString.cstr nullText, rfl, by decide, rfl⟩
  | mem m =>
      rw [hstr] at harg
      exact ⟨m, rfl, harg, rfl⟩
  | wild =>
      rw [hstr] at harg
      cases harg

section Turn

variable (stray : ℕ → UInt8) {buf : Bytes} {start cap : ℕ} (hroom : start + cap < buf.length)

include hroom

/-- Characters are copied into the state. -/
theorem copyChars_stateAt {val : Bytes} (hval : (0 : UInt8) ∈ val) (text format : Bytes)
    (ap : List Slot) :
    copyChars (start + cap) val (stateAt buf start cap text format ap).dst
        (stateAt buf start cap text format ap).buf =
      .ok ((stateAt buf start cap (text ++ untilNul val) format ap).dst,
        (stateAt buf start cap (text ++ untilNul val) format ap).buf) := by
  rw [stateAt, stateAt]
  dsimp only
  rw [copyChars_put hroom hval (List.length_take_le _ _), take_append_take]

/-- An ordinary character is written when there is room for it. -/
theorem turn_piece_plain {c : UInt8} (hnul : c ≠ 0) (hdir : c ≠ 0x25) (text format : Bytes)
    (ap : List Slot) :
    safeVsnprintfTurn stray (start + cap) (stateAt buf start cap text (c :: format) ap) =
      if cap ≤ text.length then .done (.ok (stateAt buf start cap text (c :: format) ap))
      else .again (stateAt buf start cap (text ++ [c]) format ap) := by
  have hlen : (text.take cap).length = min cap text.length := List.length_take
  have hdst : (stateAt buf start cap text (c :: format) ap).dst =
      start + (text.take cap).length := rfl
  have hbuf : (stateAt buf start cap text (c :: format) ap).buf =
      put buf start (text.take cap) := rfl
  have hformat : (stateAt buf start cap text (c :: format) ap).format = c :: format := rfl
  rw [turn_plain hformat hnul hdir, hdst, hbuf]
  rcases Nat.lt_or_ge text.length cap with hlt | hge
  · have hfits : (text ++ [c]).length ≤ cap := by
      rw [List.length_append, List.length_singleton]
      omega
    rw [if_neg (by omega), if_neg (by omega), List.take_of_length_le hlt.le,
      memcpyAt_put (by omega)]
    have hstate : stateAt buf start cap (text ++ [c]) format ap =
        { format := format, dst := start + text.length + 1, buf := put buf start (text ++ [c]),
          ap := ap } := by
      rw [stateAt, List.take_of_length_le hfits, List.length_append, List.length_singleton,
        Nat.add_assoc]
    rw [hstate]
    rfl
  · rw [if_pos (by omega), if_pos hge]

/-- **What one turn does with a piece**: it writes what is printed for it, as far as there is room,
and stops at an ordinary character when there is none. -/
theorem turn_piece (p : Piece) (text format : Bytes) (ap : List Slot) :
    safeVsnprintfTurn stray (start + cap) (stateAt buf start cap text (p.bytes ++ format)
        (p.args ++ ap)) =
      if p.isPlain = true ∧ cap ≤ text.length then
        .done (.ok (stateAt buf start cap text (p.bytes ++ format) (p.args ++ ap)))
      else .again (stateAt buf start cap (text ++ pieceText stray p) format ap) := by
  cases p with
  | plain c hnul hdir =>
      have hturn := turn_piece_plain stray hroom hnul hdir text format ap
      by_cases hfull : cap ≤ text.length
      · rw [if_pos hfull] at hturn
        rw [if_pos ⟨rfl, hfull⟩]
        exact hturn
      · rw [if_neg hfull] at hturn
        rw [if_neg (fun h => hfull h.2)]
        exact hturn
  | number mod conv hconv arg =>
      obtain ⟨val, hval⟩ := valAsStr_isOk stray mod.longlong hconv arg
      have hnul : (0 : UInt8) ∈ CString.cstr val := by simp [CString.cstr]
      have htext : pieceText stray (.number mod conv hconv arg) = untilNul (CString.cstr val) := by
        rw [pieceText, hval]
      have hformat : (mod.bytes ++ [conv]) ++ format = mod.bytes ++ conv :: format := by simp
      have hcopy := copyChars_stateAt hroom hnul text format ap
      rw [if_neg (fun h => Bool.noConfusion h.1), htext]
      exact turn_of_directive rfl (formatDirective_number hconv hformat rfl hval hcopy)
  | string mod arg harg =>
      obtain ⟨val, hval, hnul, htext⟩ := valOf_deref harg
      have hpiece : pieceText stray (.string mod arg harg) = untilNul val := htext
      have hformat : (mod.bytes ++ [0x73]) ++ format = mod.bytes ++ 0x73 :: format := by simp
      have hcopy := copyChars_stateAt hroom hnul text format ap
      rw [if_neg (fun h => Bool.noConfusion h.1), hpiece]
      exact turn_of_directive rfl (formatDirective_string hformat rfl hval hcopy)
  | skipped mod conv hnul hmod hconv hstr =>
      have hpiece : pieceText stray (.skipped mod conv hnul hmod hconv hstr) = [] := rfl
      have hformat : (mod.bytes ++ [conv]) ++ format = mod.bytes ++ conv :: format := by simp
      rw [if_neg (fun h => Bool.noConfusion h.1), hpiece, List.append_nil]
      exact turn_of_directive rfl (formatDirective_skipped hmod hconv hstr hformat)

/-! ### Runs -/

omit hroom

variable {stray}

/-- An ordinary character is met when the buffer is full, behind `n` characters that were printed
before. -/
def Fills (stray : ℕ → UInt8) (cap n : ℕ) (pieces : List Piece) : Prop :=
  ∃ before p after, pieces = before ++ p :: after ∧ p.isPlain = true ∧
    cap ≤ n + (textOf stray before).length

theorem not_fills_nil (n : ℕ) : ¬ Fills stray cap n [] := by
  rintro ⟨before, p, after, h, -⟩
  cases before <;> cases h

theorem fills_cons_iff {n : ℕ} {p : Piece} {pieces : List Piece} :
    Fills stray cap n (p :: pieces) ↔ (p.isPlain = true ∧ cap ≤ n) ∨
      Fills stray cap (n + (pieceText stray p).length) pieces := by
  constructor
  · rintro ⟨before, q, after, h, hplain, hfull⟩
    cases before with
    | nil =>
        cases h
        exact Or.inl ⟨hplain, hfull⟩
    | cons q' before =>
        cases h
        refine Or.inr ⟨before, q, after, rfl, hplain, ?_⟩
        rw [textOf, List.flatMap_cons, List.length_append] at hfull
        rw [textOf]
        omega
  · rintro (⟨hplain, hfull⟩ | ⟨before, q, after, rfl, hplain, hfull⟩)
    · exact ⟨[], p, pieces, rfl, hplain, hfull⟩
    · refine ⟨p :: before, q, after, rfl, hplain, ?_⟩
      rw [textOf, List.flatMap_cons, List.length_append]
      rw [textOf] at hfull
      omega

include hroom

variable (stray)

/-- **What the loop does with some pieces**: it prints them and goes on behind them, or it stops at
an ordinary character with the buffer full. -/
theorem reaches_pieces (pieces : List Piece) (text format : Bytes) (ap : List Slot) :
    (¬ Fills stray cap text.length pieces ∧
        Loop.Reaches (safeVsnprintfTurn stray (start + cap))
          (stateAt buf start cap text (spell pieces ++ format) (argsOf pieces ++ ap))
          (stateAt buf start cap (text ++ textOf stray pieces) format ap)) ∨
      (Fills stray cap text.length pieces ∧ ∃ s,
        Loop.Reaches (safeVsnprintfTurn stray (start + cap))
          (stateAt buf start cap text (spell pieces ++ format) (argsOf pieces ++ ap)) s ∧
        safeVsnprintfTurn stray (start + cap) s = .done (.ok s) ∧
        s.dst = start + cap ∧
        s.buf = put buf start ((text ++ textOf stray pieces).take cap)) := by
  induction pieces generalizing text with
  | nil =>
      refine Or.inl ⟨not_fills_nil _, ?_⟩
      have htext : text ++ textOf stray [] = text := List.append_nil text
      rw [htext]
      exact Relation.ReflTransGen.refl
  | cons p pieces ih =>
      have hspell : spell (p :: pieces) ++ format = p.bytes ++ (spell pieces ++ format) := by
        rw [spell, List.flatMap_cons, List.append_assoc, spell]
      have hargs : argsOf (p :: pieces) ++ ap = p.args ++ (argsOf pieces ++ ap) := by
        rw [argsOf, List.flatMap_cons, List.append_assoc, argsOf]
      have htext : text ++ textOf stray (p :: pieces) =
          (text ++ pieceText stray p) ++ textOf stray pieces := by
        rw [textOf, List.flatMap_cons, ← List.append_assoc, textOf]
      have hturn := turn_piece stray hroom p text (spell pieces ++ format)
        (argsOf pieces ++ ap)
      rw [hspell, hargs, htext, fills_cons_iff]
      by_cases hstop : p.isPlain = true ∧ cap ≤ text.length
      · rw [if_pos hstop] at hturn
        refine Or.inr ⟨Or.inl hstop, _, Relation.ReflTransGen.refl, hturn, ?_, ?_⟩
        · rw [stateAt, List.length_take_of_le hstop.2]
        · rw [stateAt, List.append_assoc, List.take_append_of_le_length hstop.2]
      · rw [if_neg hstop] at hturn
        have hlen : (text ++ pieceText stray p).length =
            text.length + (pieceText stray p).length := List.length_append
        rcases ih (text ++ pieceText stray p) with ⟨hfills, hreach⟩ | ⟨hfills, s, hreach, hdone⟩
        · rw [hlen] at hfills
          exact Or.inl ⟨fun h => h.elim hstop hfills, Relation.ReflTransGen.head hturn hreach⟩
        · rw [hlen] at hfills
          exact Or.inr ⟨Or.inr hfills, s, Relation.ReflTransGen.head hturn hreach, hdone⟩

end Turn

/-- The loop, run to its end. -/
theorem run_of_reaches {stray : ℕ → UInt8} {last : ℕ} {s t : FormatState} {r : Outcome FormatState}
    (hreach : Loop.Reaches (safeVsnprintfTurn stray last) s t)
    (hdone : safeVsnprintfTurn stray last t = .done r) :
    Loop.run (safeVsnprintfTurn stray last) (s.format.length + 1) s = some r := by
  obtain ⟨r', hrun⟩ := Option.isSome_iff_exists.1 (safeVsnprintf_isSome stray last s)
  obtain ⟨t', hreach', hdone'⟩ := Loop.reaches_of_run hrun
  have heq := hreach.done_unique hdone hreach' hdone'
  subst heq
  rw [hdone] at hdone'
  cases hdone'
  exact hrun

section Formatter

variable {buf : Bytes} {start size : ℕ}

/-- The formatter starts with nothing written. -/
theorem stateAt_nil (buf : Bytes) (start cap : ℕ) (format : Bytes) (ap : List Slot) :
    stateAt buf start cap [] format ap =
      { format := format, dst := start, buf := buf, ap := ap } := by
  rw [stateAt, List.take_nil, put_nil]
  rfl

/-- The terminator is written behind the text that is kept. -/
theorem memcpyAt_nul {text : Bytes} (hroom : start + text.length < buf.length) :
    CString.memcpyAt (put buf start text) (start + text.length) [0] =
      .ok (put buf start (CString.cstr text)) := memcpyAt_put hroom 0

/-- **What the formatter writes for a format**: as much as fits of what is printed for its pieces,
with a terminator. -/
theorem safeVsnprintf_pieces (stray : ℕ → UInt8) (hsize : 1 ≤ size)
    (hroom : start + size ≤ buf.length) (pieces : List Piece) (format : Bytes) (ap : List Slot) :
    safeVsnprintf stray buf start size (spell pieces ++ 0 :: format) (argsOf pieces ++ ap) =
      .ok (CInt.toInt32 (((textOf stray pieces).take (size - 1)).length : ℤ),
        put buf start (CString.cstr ((textOf stray pieces).take (size - 1)))) := by
  obtain ⟨cap, rfl⟩ : ∃ cap, size = cap + 1 := ⟨size - 1, by omega⟩
  have hlast : start + (cap + 1) - 1 = start + cap := by omega
  have hcap : cap + 1 - 1 = cap := by omega
  have hkept : ((textOf stray pieces).take cap).length ≤ cap := List.length_take_le _ _
  have hrun : ∃ s, Loop.run (safeVsnprintfTurn stray (start + cap))
      ((spell pieces ++ 0 :: format).length + 1) { format := spell pieces ++ 0 :: format
                                                   dst := start
                                                   buf := buf
                                                   ap := argsOf pieces ++ ap } = some (.ok s) ∧
      s.dst = start + ((textOf stray pieces).take cap).length ∧
      s.buf = put buf start ((textOf stray pieces).take cap) := by
    rcases reaches_pieces stray (by omega : start + cap < buf.length)
      pieces [] (0 :: format) ap with ⟨-, hreach⟩ | ⟨hfills, s, hreach, hdone, hdst, hbuf⟩
    · rw [stateAt_nil] at hreach
      exact ⟨_, run_of_reaches hreach rfl, rfl, rfl⟩
    · rw [stateAt_nil] at hreach
      refine ⟨s, run_of_reaches hreach hdone, ?_, hbuf⟩
      obtain ⟨before, p, after, rfl, -, hfull⟩ := hfills
      rw [hdst, List.length_take_of_le]
      rw [textOf, List.flatMap_append, List.length_append]
      rw [List.length_nil, textOf] at hfull
      omega
  obtain ⟨s, hs, hdst, hbuf⟩ := hrun
  have hcount : ((start + ((textOf stray pieces).take cap).length : ℕ) : ℤ) - start =
      ((textOf stray pieces).take cap).length := by omega
  rw [safeVsnprintf, hlast, hcap, hs, Option.getD_some, Outcome.ok_bind, hdst, hbuf,
    memcpyAt_nul (by omega), Outcome.ok_bind, hcount]

end Formatter

end Log
