/-
**Formats that end in a directive.**

A format is read from left to right.  Behind a `%` stand at most two `l`, and then the conversion;
`_safe_vsnprintf` never asks whether this is the terminator.  When a format ends in a `%`, a `%l` or
a `%ll`, the loop steps over the terminator and reads on behind it, unless it stopped before, at an
ordinary character for which there was no room.

Main definitions:

* `Log.ending` — the directive a format ends in;
* `Log.takers`, `Log.EnoughArgs` — the conversions that take an argument, and enough arguments;
* `Log.StopsEarly` — an ordinary character for which there is no room;
* `Log.StaysInside` — nothing is read behind the terminator, and nothing stored outside the buffer.

Main results:

* `Log.exists_pieces` — **every format is made of pieces**, and of the directive it ends in;
* `Log.staysInside_iff` — **when the formatter stays inside**.
-/

import SdsStorage.LogFormat

set_option relaxedAutoImplicit false
set_option autoImplicit false

namespace Log

/-! ### Reading a format -/

/-- Behind one more `l`. -/
def LengthMod.next : LengthMod → LengthMod
  | .none => .l
  | _ => .ll

theorem LengthMod.bytes_next {mod : LengthMod} (h : mod ≠ .ll) :
    mod.next.bytes = mod.bytes ++ [0x6c] := by
  cases mod with
  | none => rfl
  | l => rfl
  | ll => exact absurd rfl h

/-- A directive without its conversion. -/
def openBytes : Option LengthMod → Bytes
  | none => []
  | some mod => 0x25 :: mod.bytes

/-- The directive a format ends in, when it starts inside the one that is given. -/
def ending : Option LengthMod → Bytes → Option LengthMod
  | directive, [] => directive
  | none, c :: f => ending (if c = 0x25 then some .none else none) f
  | some mod, c :: f => ending (if c = 0x6c ∧ mod ≠ .ll then some mod.next else none) f

/-- The conversion takes an argument. -/
def takesArg (conv : UInt8) : Bool := isNumber conv || conv == 0x73

/-- The conversions of a format that take an argument. -/
def takers : Option LengthMod → Bytes → List UInt8
  | _, [] => []
  | none, c :: f => takers (if c = 0x25 then some .none else none) f
  | some mod, c :: f =>
      if c = 0x6c ∧ mod ≠ .ll then takers (some mod.next) f
      else if takesArg c then c :: takers none f
      else takers none f

/-- There is an argument for each of the conversions, and one for `%s` may be read. -/
def Suits : List UInt8 → List Slot → Prop
  | [], _ => True
  | _ :: _, [] => False
  | conv :: convs, arg :: ap => (conv = 0x73 → Terminated arg.str) ∧ Suits convs ap

/-- There are enough arguments for a format. -/
def EnoughArgs (f : Bytes) (ap : List Slot) : Prop := Suits (takers none f) ap

/-- The piece a conversion completes. -/
theorem exists_piece {mod : LengthMod} {c : UInt8} (hnul : c ≠ 0) (hmod : ¬ (c = 0x6c ∧ mod ≠ .ll))
    {convs : List UInt8} {ap : List Slot}
    (hsuits : Suits (if takesArg c then c :: convs else convs) ap) :
    ∃ (p : Piece) (ap' : List Slot), p.bytes = 0x25 :: (mod.bytes ++ [c]) ∧ ap = p.args ++ ap' ∧
      Suits convs ap' := by
  rcases hnumber : isNumber c with _ | _
  · by_cases hstring : c = 0x73
    · subst hstring
      rw [if_pos (by decide)] at hsuits
      cases ap with
      | nil => cases hsuits
      | cons arg ap => exact ⟨.string mod arg (hsuits.1 rfl), ap, rfl, rfl, hsuits.2⟩
    · have hnone : takesArg c = false := by
        rw [takesArg, hnumber, Bool.false_or]
        exact beq_false_of_ne hstring
      have hll : mod = .ll ∨ c ≠ 0x6c := by
        by_cases h : mod = .ll
        · exact Or.inl h
        · exact Or.inr fun hc => hmod ⟨hc, h⟩
      rw [if_neg (by rw [hnone]; decide)] at hsuits
      exact ⟨.skipped mod c hnul hll hnumber hstring, ap, rfl, rfl, hsuits⟩
  · have htakes : takesArg c = true := by rw [takesArg, hnumber, Bool.true_or]
    rw [if_pos htakes] at hsuits
    cases ap with
    | nil => cases hsuits
    | cons arg ap => exact ⟨.number mod c hnumber arg, ap, rfl, rfl, hsuits.2⟩

/-- **Every format is made of pieces**, and of the directive it ends in. -/
theorem exists_pieces {f : Bytes} (hf : CString.NoNul f) (directive : Option LengthMod)
    {ap : List Slot} (hsuits : Suits (takers directive f) ap) :
    ∃ pieces more, openBytes directive ++ f = spell pieces ++ openBytes (ending directive f) ∧
      ap = argsOf pieces ++ more := by
  induction f generalizing directive ap with
  | nil => exact ⟨[], ap, List.append_nil _, rfl⟩
  | cons c f ih =>
      obtain ⟨hnul, hrest⟩ := CString.noNul_cons.1 hf
      cases directive with
      | none =>
          rw [takers] at hsuits
          rw [ending]
          obtain ⟨pieces, more, hspell, hargs⟩ := ih hrest _ hsuits
          by_cases hdir : c = 0x25
          · subst hdir
            exact ⟨pieces, more, hspell, hargs⟩
          · rw [if_neg hdir] at hspell ⊢
            refine ⟨.plain c hnul hdir :: pieces, more, ?_, hargs⟩
            exact congrArg (c :: ·) hspell
      | some mod =>
          rw [takers] at hsuits
          rw [ending]
          by_cases hmod : c = 0x6c ∧ mod ≠ .ll
          · rw [if_pos hmod] at hsuits ⊢
            obtain ⟨pieces, more, hspell, hargs⟩ := ih hrest _ hsuits
            refine ⟨pieces, more, ?_, hargs⟩
            rw [← hspell, openBytes, openBytes, LengthMod.bytes_next hmod.2, hmod.1,
              List.cons_append, List.cons_append, List.append_assoc, List.singleton_append]
          · rw [if_neg hmod] at hsuits ⊢
            obtain ⟨p, ap', hbytes, rfl, hbehind⟩ := exists_piece hnul hmod hsuits
            obtain ⟨pieces, more, hspell, rfl⟩ := ih hrest none hbehind
            refine ⟨p :: pieces, more, ?_, ?_⟩
            · have hcons : spell (p :: pieces) = p.bytes ++ spell pieces := List.flatMap_cons
              rw [openBytes, List.nil_append] at hspell
              rw [hcons, hbytes, List.append_assoc, ← hspell, openBytes, List.cons_append,
                List.cons_append, List.append_assoc, List.singleton_append]
            · have hcons : argsOf (p :: pieces) = p.args ++ argsOf pieces := List.flatMap_cons
              rw [hcons, List.append_assoc]

/-! ### The end of the format -/

/-- An ordinary character of the format is met when there is no room for it. -/
def StopsEarly (stray : ℕ → UInt8) (size : ℕ) (f : Bytes) (ap : List Slot) : Prop :=
  ∃ before c after more, f = spell before ++ c :: after ∧ ap = argsOf before ++ more ∧
    c ≠ 0 ∧ c ≠ 0x25 ∧ size - 1 ≤ (textOf stray before).length

/-- The formatter returns, and neither reads the format behind its terminator nor stores outside the
buffer: each of them would end the run with a fault. -/
def StaysInside (stray : ℕ → UInt8) (f : Bytes) (ap : List Slot) (size : ℕ) : Prop :=
  ∀ buf : Bytes, buf.length = size →
    ∃ out, safeVsnprintf stray buf 0 size (CString.cstr f) ap = .ok out

/-- A format that ends in a directive is read behind its terminator. -/
theorem turn_open {stray : ℕ → UInt8} {last : ℕ} {s : FormatState} {mod : LengthMod}
    (hformat : s.format = 0x25 :: (mod.bytes ++ [0])) :
    safeVsnprintfTurn stray last s = .again { s with format := [] } := by
  have hmod : mod = .ll ∨ (0 : UInt8) ≠ 0x6c := Or.inr (by decide)
  exact turn_of_directive hformat (formatDirective_skipped hmod (by decide) (by decide) rfl)

/-- The formatter returns what its loop comes to. -/
theorem safeVsnprintf_of_reaches {stray : ℕ → UInt8} {buf : Bytes} {cap : ℕ} {format : Bytes}
    {ap : List Slot} {t : FormatState} {r : Outcome FormatState}
    (hreach : Loop.Reaches (safeVsnprintfTurn stray (0 + cap))
      { format := format, dst := 0, buf := buf, ap := ap } t)
    (hdone : safeVsnprintfTurn stray (0 + cap) t = .done r) :
    safeVsnprintf stray buf 0 (cap + 1) format ap =
      r >>= fun s => CString.memcpyAt s.buf s.dst [0] >>= fun buf =>
        .ok (CInt.toInt32 (s.dst - (0 : ℕ)), buf) := by
  have hrun := run_of_reaches hreach hdone
  have hlast : 0 + (cap + 1) - 1 = 0 + cap := by omega
  rw [safeVsnprintf, hlast, hrun, Option.getD_some]

/-- **A format that is stopped early is not read to its end.** -/
theorem staysInside_of_stopsEarly {stray : ℕ → UInt8} {f : Bytes} {ap : List Slot} {size : ℕ}
    (hsize : 1 ≤ size) (h : StopsEarly stray size f ap) : StaysInside stray f ap size := by
  obtain ⟨before, c, after, more, rfl, rfl, hnul, hdir, hfull⟩ := h
  intro buf hlen
  obtain ⟨cap, rfl⟩ : ∃ cap, size = cap + 1 := ⟨size - 1, by omega⟩
  have hcap : cap ≤ (textOf stray before).length := by omega
  have hspell : CString.cstr (spell before ++ c :: after) =
      spell (before ++ [Piece.plain c hnul hdir]) ++ (after ++ [0]) := by
    simp [CString.cstr, spell, Piece.bytes]
  have hargs : argsOf before ++ more =
      argsOf (before ++ [Piece.plain c hnul hdir]) ++ more := by
    simp [argsOf, Piece.args]
  have hfills : Fills stray cap ([] : Bytes).length (before ++ [Piece.plain c hnul hdir]) :=
    ⟨before, .plain c hnul hdir, [], rfl, rfl, by simpa using hcap⟩
  rcases reaches_pieces stray (by omega : 0 + cap < buf.length)
    (before ++ [.plain c hnul hdir]) [] (after ++ [0]) more with
    ⟨hnot, -⟩ | ⟨-, s, hreach, hdone, hdst, hbuf⟩
  · exact absurd hfills hnot
  · rw [stateAt_nil] at hreach
    have hkept : ([] ++ textOf stray (before ++ [Piece.plain c hnul hdir])).take cap =
        (textOf stray before).take cap := by
      rw [List.nil_append, textOf, List.flatMap_append]
      exact List.take_append_of_le_length hcap
    have hlength : ((textOf stray before).take cap).length = cap := List.length_take_of_le hcap
    have hdst' : s.dst = 0 + ((textOf stray before).take cap).length := by rw [hdst, hlength]
    rw [hspell, hargs, safeVsnprintf_of_reaches hreach hdone, Outcome.ok_bind, hbuf, hkept, hdst',
      memcpyAt_nul (by omega), Outcome.ok_bind]
    exact ⟨_, rfl⟩

/-- An ordinary character among the pieces that finds the buffer full stops the loop early. -/
theorem stopsEarly_of_fills {stray : ℕ → UInt8} {size : ℕ} {pieces : List Piece}
    (h : Fills stray (size - 1) 0 pieces) (rest : Bytes) (more : List Slot) :
    StopsEarly stray size (spell pieces ++ rest) (argsOf pieces ++ more) := by
  obtain ⟨before, p, after, rfl, hplain, hfull⟩ := h
  rw [Nat.zero_add] at hfull
  cases p with
  | plain c hnul hdir =>
      refine ⟨before, c, spell after ++ rest, argsOf after ++ more, ?_, ?_, hnul, hdir, hfull⟩
      · simp [spell, Piece.bytes]
      · simp [argsOf, Piece.args]
  | number mod conv hconv arg => cases hplain
  | string mod arg harg => cases hplain
  | skipped mod conv hnul hmod hconv hstr => cases hplain

/-- Otherwise the loop comes to the directive the format ends in, and steps over the terminator. -/
theorem safeVsnprintf_open {stray : ℕ → UInt8} {buf : Bytes} {cap : ℕ}
    (hroom : 0 + cap < buf.length) {pieces : List Piece} (hfills : ¬ Fills stray cap 0 pieces)
    (mod : LengthMod) (more : List Slot) :
    safeVsnprintf stray buf 0 (cap + 1) (CString.cstr (spell pieces ++ openBytes (some mod)))
      (argsOf pieces ++ more) = .error .overread := by
  have hformat : CString.cstr (spell pieces ++ openBytes (some mod)) =
      spell pieces ++ 0x25 :: (mod.bytes ++ [0]) := by
    simp [CString.cstr, openBytes]
  rcases reaches_pieces stray hroom pieces [] (0x25 :: (mod.bytes ++ [0])) more with
    ⟨-, hreach⟩ | ⟨hfills', -⟩
  · rw [stateAt_nil] at hreach
    have hreach' := hreach.tail (turn_open rfl)
    rw [hformat, safeVsnprintf_of_reaches hreach' rfl]
    rfl
  · exact absurd hfills' hfills

/-- **When the formatter stays inside**: the format does not end in a directive, or the loop stops
before it. -/
theorem staysInside_iff (stray : ℕ → UInt8) {f : Bytes} {ap : List Slot} {size : ℕ}
    (hf : CString.NoNul f) (hargs : EnoughArgs f ap) (hsize : 1 ≤ size) :
    StaysInside stray f ap size ↔ ending none f = none ∨ StopsEarly stray size f ap := by
  obtain ⟨pieces, more, hspell, rfl⟩ := exists_pieces hf none hargs
  rw [openBytes, List.nil_append] at hspell
  constructor
  · intro hinside
    cases hend : ending none f with
    | none => exact Or.inl rfl
    | some mod =>
        refine Or.inr ?_
        rw [hend] at hspell
        rw [hspell]
        by_contra hlate
        have hfills : ¬ Fills stray (size - 1) 0 pieces := fun h =>
          hlate (stopsEarly_of_fills h _ more)
        obtain ⟨out, hrun⟩ := hinside (List.replicate size 0) List.length_replicate
        obtain ⟨cap, rfl⟩ : ∃ cap, size = cap + 1 := ⟨size - 1, by omega⟩
        have hroom : 0 + cap < (List.replicate (cap + 1) (0 : UInt8)).length := by
          rw [List.length_replicate]
          omega
        rw [hspell, safeVsnprintf_open hroom hfills mod more] at hrun
        cases hrun
  · rintro (hend | hearly)
    · intro buf hlen
      rw [hend, openBytes, List.append_nil] at hspell
      rw [hspell]
      exact ⟨_, safeVsnprintf_pieces stray hsize (by omega) pieces [] more⟩
    · exact staysInside_of_stopsEarly hsize hearly

/-- `%sab%` ends in a directive; behind a string of two characters the loop stops at the `a` when
there is no room for more. -/
theorem staysInside_iff_stopped :
    StaysInside (fun _ => 0) [0x25, 0x73, 0x61, 0x62, 0x25]
      [{ bits := 1, str := .mem [0x63, 0x64, 0] }] 3 := by
  have hargs : EnoughArgs [0x25, 0x73, 0x61, 0x62, 0x25]
      [{ bits := 1, str := .mem [0x63, 0x64, 0] }] := ⟨fun _ => by decide, trivial⟩
  refine (staysInside_iff _ (by decide) hargs (by decide)).2 (Or.inr ?_)
  exact ⟨[.string .none { bits := 1, str := .mem [0x63, 0x64, 0] } (by decide)], 0x61,
    [0x62, 0x25], [], rfl, rfl, by decide, by decide, by decide⟩

/-- A lone `%` is read behind its terminator. -/
theorem not_staysInside_percent : ¬ StaysInside (fun _ => 0) [0x25] [] 16 := by
  intro hinside
  obtain ⟨out, hrun⟩ := hinside (List.replicate 16 0) List.length_replicate
  have hfault : safeVsnprintf (fun _ => 0) (List.replicate 16 0) 0 16 (CString.cstr [0x25]) [] =
      .error .overread := by decide +kernel
  rw [hfault] at hrun
  cases hrun

end Log
