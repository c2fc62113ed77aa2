/-
**What `md5_file` writes.**

`md5_file` prints a digest two digits at a time, each with a terminator, so that it writes one byte
more than there are digits: into an array of 32 bytes it writes past the end.  It prints the digest
of every file that it can open and read to a short read; only of a file that does not open, or
whose reads fail first, is nothing written.

Main definitions:

* `NoShortRead` — the reads fill the buffer of the function until one of them fails;
* `Unhashed` — no digest is printed.

Main results:

* `md5Final_isOk` — the digest is computed without leaving any buffer;
* `md5Hex_short` — **a digest does not fit into 32 bytes**;
* `md5File_of_unhashed`, `md5File_of_hashed` — **what `md5_file` does to an array of 32 bytes**.
-/

import SdsStorage.Md5Update

set_option relaxedAutoImplicit false
set_option autoImplicit false

/-! ### The digest is computed -/

/-- `md5_final` stays within its buffers, as `md5_update` does. -/
theorem md5Final_isOk {context : Md5Ctx} (hbuf : context.buffer.length = 64) :
    ∃ md5Value, md5Final context = .ok md5Value := by
  have hbits : (md5Encode [context.count0, context.count1]).length = 8 := rfl
  have hpadding : md5Padding.length = 64 := rfl
  have hpadlen : (md5Padlen context.count0).toNat ≤ 64 := by
    rw [toNat_md5Padlen]
    split <;> omega
  have height : (8 : UInt32).toNat = 8 := rfl
  obtain ⟨c, hfirst, hc⟩ : ∃ c, md5Update context md5Padding (md5Padlen context.count0) = .ok c ∧
      c.buffer.length = 64 := md5Update_isOk (by omega) (by omega) hbuf
  obtain ⟨c', hsecond, -⟩ : ∃ c', md5Update c (md5Encode [context.count0, context.count1]) 8 =
      .ok c' ∧ c'.buffer.length = 64 := md5Update_isOk (by omega) (by omega) hc
  rw [md5Padlen, md5Index] at hfirst
  simp only [md5Final, hfirst, hsecond, Outcome.ok_bind]
  exact ⟨_, rfl⟩

/-! ### The digits -/

/-- The printing of a digest goes wrong in one way only. -/
theorem md5Hex_outOfBounds (md5Value : Bytes) (l : List ℕ) (md5Str : Bytes) :
    (∃ out, l.foldlM (fun str i =>
        CString.memcpyAt str (i * 2) (hexByte (md5Value.getD i 0) ++ [0])) md5Str = .ok out) ∨
      l.foldlM (fun str i =>
        CString.memcpyAt str (i * 2) (hexByte (md5Value.getD i 0) ++ [0])) md5Str =
        .error .outOfBounds := by
  induction l generalizing md5Str with
  | nil => exact Or.inl ⟨md5Str, rfl⟩
  | cons i l ih =>
      rw [List.foldlM_cons, CString.memcpyAt]
      split
      · exact ih _
      · exact Or.inr rfl

/-- **A digest does not fit into 32 bytes.** -/
theorem md5Hex_short {md5Str : Bytes} (hshort : md5Str.length ≤ 2 * md5Size) (md5Value : Bytes) :
    md5Hex md5Str md5Value = .error .outOfBounds := by
  rcases md5Hex_outOfBounds md5Value (List.range md5Size) md5Str with ⟨out, hout⟩ | herror
  · have hfits := Outcome.foldlM_range_ok (n := md5Size) (s := md5Str)
      (I := fun k str => str.length = md5Str.length ∧ (0 < k → 2 * k < md5Str.length)) hout
      ⟨rfl, fun h => absurd h (Nat.lt_irrefl 0)⟩ (by
        rintro k s t - hstep ⟨hlen, -⟩
        have htwo : (hexByte (md5Value.getD k 0) ++ [0]).length = 3 := rfl
        rw [CString.memcpyAt, htwo] at hstep
        split at hstep
        · rename_i hfit
          cases hstep
          refine ⟨?_, fun _ => by omega⟩
          simp only [List.length_append, List.length_take, List.length_drop, htwo]
          omega
        · cases hstep)
    have hlast := hfits.2 (by decide)
    omega
  · exact herror

/-! ### The file -/

/-- The reads of `md5_file` fill its buffer until one of them fails, or none comes to an end. -/
def NoShortRead (ended : Bool) : List ReadEvent → Prop
  | .data b bs :: rest => md5ReadDataSize ∣ (b :: bs).length ∧ NoShortRead ended rest
  | .eof :: _ => False
  | .intr :: _ => True
  | .fail :: _ => True
  | [] => ended = false

/-- No digest is printed: the file does not open, or no read of it is short. -/
def Unhashed : Option Source → Prop
  | none => True
  | some src => NoShortRead src.ended src.arrivals

/-- A full read leaves what is behind the full pieces where it is. -/
theorem noShortRead_leftover {b : UInt8} {bs : Bytes} (hfull : md5ReadDataSize ≤ (b :: bs).length)
    (rest : List ReadEvent) (ended : Bool) :
    NoShortRead ended (Source.leftover (b :: bs) md5ReadDataSize rest) ↔
      NoShortRead ended (.data b bs :: rest) := by
  rw [Source.leftover, NoShortRead]
  cases hdrop : (b :: bs).drop md5ReadDataSize with
  | nil =>
      have hle := List.drop_eq_nil_iff.1 hdrop
      have heq : (b :: bs).length = md5ReadDataSize := Nat.le_antisymm hle hfull
      rw [heq]
      exact (and_iff_right (Nat.dvd_refl _)).symm
  | cons b' bs' =>
      have hlen := congrArg List.length hdrop
      rw [List.length_drop] at hlen
      have hdvd : md5ReadDataSize ∣ (b' :: bs').length ↔ md5ReadDataSize ∣ (b :: bs).length := by
        rw [← hlen, ← Nat.dvd_add_self_right, Nat.sub_add_cancel hfull]
      rw [NoShortRead, hdvd]

/-- A turn of the loop of `md5_file` that reads bytes: only a full read makes it go round again. -/
theorem md5FileTurn_data {md5 c : Md5Ctx} {b : UInt8} {bs : Bytes} (rest : List ReadEvent)
    (ended : Bool)
    (hc : md5Update md5 ((b :: bs).take md5ReadDataSize) (UInt32.ofNat
      (CInt.toUInt32 (((b :: bs).take md5ReadDataSize).length : ℤ))) = .ok c) :
    md5FileTurn (md5, { arrivals := .data b bs :: rest, ended := ended }) =
      if md5ReadDataSize ≤ (b :: bs).length then
        .again (c, { arrivals := Source.leftover (b :: bs) md5ReadDataSize rest, ended := ended })
      else .done (.ok (some c)) := by
  have hlen : ((b :: bs).take md5ReadDataSize).length = min md5ReadDataSize (b :: bs).length :=
    List.length_take
  have hpos : 0 < (b :: bs).length := Nat.succ_pos _
  have hsize : 0 < md5ReadDataSize := by decide
  have hfound : ¬ (((b :: bs).take md5ReadDataSize).length : ℤ) = -1 := by omega
  simp only [md5FileTurn, Source.read, Bool.false_eq_true, if_false, if_neg hfound, hc]
  by_cases hfull : md5ReadDataSize ≤ (b :: bs).length
  · rw [if_pos hfull, if_neg (by omega)]
  · rw [if_neg hfull, if_pos (by omega)]

/-- What one turn of the loop of `md5_file` does, by what the read finds. -/
theorem md5FileTurn_eq {md5 : Md5Ctx} (hbuf : md5.buffer.length = 64) (src : Source) :
    (NoShortRead src.ended src.arrivals ∧ (md5FileTurn (md5, src) = .done (.ok none) ∨
        md5FileTurn (md5, src) = .done (.error .blocked))) ∨
      (¬ NoShortRead src.ended src.arrivals ∧
        ∃ c, md5FileTurn (md5, src) = .done (.ok (some c)) ∧ c.buffer.length = 64) ∨
      ∃ c src', md5FileTurn (md5, src) = .again (c, src') ∧ c.buffer.length = 64 ∧
        (NoShortRead src'.ended src'.arrivals ↔ NoShortRead src.ended src.arrivals) := by
  have hupdate : ∀ data : Bytes, data.length ≤ md5ReadDataSize →
      ∃ c, md5Update md5 data (UInt32.ofNat (CInt.toUInt32 (data.length : ℤ))) = .ok c ∧
        c.buffer.length = 64 := by
    intro data hdata
    unfold md5ReadDataSize at hdata
    have hcount : (UInt32.ofNat (CInt.toUInt32 (data.length : ℤ))).toNat = data.length := by
      rw [UInt32.toNat_ofNat', CInt.toUInt32]
      omega
    exact md5Update_isOk hcount.le (by omega) hbuf
  obtain ⟨arrivals, ended⟩ := src
  have hend : ∃ c, md5Update md5 [] (UInt32.ofNat (CInt.toUInt32 0)) = .ok c ∧
      c.buffer.length = 64 := hupdate [] (Nat.zero_le _)
  obtain ⟨cend, hend, hcend⟩ := hend
  cases arrivals with
  | nil =>
      cases ended with
      | false => exact Or.inl ⟨rfl, Or.inr rfl⟩
      | true =>
          refine Or.inr (Or.inl ⟨Bool.noConfusion, cend, ?_, hcend⟩)
          simp [md5FileTurn, Source.read, hend]
  | cons ev rest =>
      cases ev with
      | eof =>
          refine Or.inr (Or.inl ⟨id, cend, ?_, hcend⟩)
          simp [md5FileTurn, Source.read, hend]
      | intr => exact Or.inl ⟨trivial, Or.inl rfl⟩
      | fail => exact Or.inl ⟨trivial, Or.inl rfl⟩
      | data b bs =>
          have hdata : ((b :: bs).take md5ReadDataSize).length ≤ md5ReadDataSize :=
            List.length_take_le _ _
          obtain ⟨c, hc, hcbuf⟩ := hupdate _ hdata
          have hturn := md5FileTurn_data rest ended hc
          by_cases hfull : md5ReadDataSize ≤ (b :: bs).length
          · rw [if_pos hfull] at hturn
            exact Or.inr (Or.inr ⟨c, _, hturn, hcbuf, noShortRead_leftover hfull rest ended⟩)
          · rw [if_neg hfull] at hturn
            refine Or.inr (Or.inl ⟨?_, c, hturn, hcbuf⟩)
            rintro ⟨hdvd, -⟩
            exact hfull (Nat.le_of_dvd (Nat.succ_pos _) hdvd)

/-- What the loop of `md5_file` comes to. -/
theorem md5FileTurn_run {src : Source} {fuel : ℕ} {md5 : Md5Ctx} (hbuf : md5.buffer.length = 64)
    {res : Outcome (Option Md5Ctx)} (hrun : Loop.run md5FileTurn fuel (md5, src) = some res) :
    (NoShortRead src.ended src.arrivals ∧ (res = .ok none ∨ res = .error .blocked)) ∨
      (¬ NoShortRead src.ended src.arrivals ∧ ∃ c, res = .ok (some c) ∧ c.buffer.length = 64) := by
  refine Loop.run_inv (I := fun s : Md5Ctx × Source => s.1.buffer.length = 64 ∧
      (NoShortRead s.2.ended s.2.arrivals ↔ NoShortRead src.ended src.arrivals))
    (Q := fun res => (NoShortRead src.ended src.arrivals ∧
        (res = .ok none ∨ res = .error .blocked)) ∨
      (¬ NoShortRead src.ended src.arrivals ∧ ∃ c : Md5Ctx, res = .ok (some c) ∧
        c.buffer.length = 64)) ?_ ?_ ⟨hbuf, Iff.rfl⟩ hrun
  · rintro ⟨c, src'⟩ s ⟨hc, hiff⟩ hturn
    rcases md5FileTurn_eq hc src' with ⟨-, hdone | hdone⟩ | ⟨-, c', hdone, -⟩ |
      ⟨c', src'', hagain, hc', hsame⟩
    · rw [hdone] at hturn
      cases hturn
    · rw [hdone] at hturn
      cases hturn
    · rw [hdone] at hturn
      cases hturn
    · rw [hagain] at hturn
      cases hturn
      exact ⟨hc', hsame.trans hiff⟩
  · rintro ⟨c, src'⟩ res ⟨hc, hiff⟩ hturn
    rcases md5FileTurn_eq hc src' with ⟨hno, hdone | hdone⟩ | ⟨hshort, c', hdone, hc'⟩ |
      ⟨c', src'', hagain, -⟩
    · rw [hdone] at hturn
      cases hturn
      exact Or.inl ⟨hiff.1 hno, Or.inl rfl⟩
    · rw [hdone] at hturn
      cases hturn
      exact Or.inl ⟨hiff.1 hno, Or.inr rfl⟩
    · rw [hdone] at hturn
      cases hturn
      exact Or.inr ⟨mt hiff.2 hshort, c', rfl, hc'⟩
    · rw [hagain] at hturn
      cases hturn

section File

variable {md5 : Md5Ctx} (hbuf : md5.buffer.length = 64) {fd : Option Source}

include hbuf

/-- **Nothing is written** when no digest is printed. -/
theorem md5File_of_unhashed (h : Unhashed fd) (md5Str : Bytes) :
    md5File md5 fd md5Str = .ok (-1, md5Str) ∨ md5File md5 fd md5Str = .error .blocked := by
  cases fd with
  | none => exact Or.inl rfl
  | some src =>
      obtain ⟨res, hrun⟩ := Option.isSome_iff_exists.1 (md5File_isSome (md5Init md5) src)
      simp only [md5File, hrun, Option.getD_some]
      have hinit : (md5Init md5).buffer.length = 64 := hbuf
      rcases md5FileTurn_run hinit hrun with ⟨-, rfl | rfl⟩ | ⟨hshort, -⟩
      · exact Or.inl rfl
      · exact Or.inr rfl
      · exact absurd h hshort

/-- **A digest that is printed does not fit into 32 bytes.** -/
theorem md5File_of_hashed (h : ¬ Unhashed fd) {md5Str : Bytes}
    (hshort : md5Str.length ≤ 2 * md5Size) :
    md5File md5 fd md5Str = .error .outOfBounds := by
  cases fd with
  | none => exact absurd trivial h
  | some src =>
      obtain ⟨res, hrun⟩ := Option.isSome_iff_exists.1 (md5File_isSome (md5Init md5) src)
      have hinit : (md5Init md5).buffer.length = 64 := hbuf
      rcases md5FileTurn_run hinit hrun with ⟨hno, -⟩ | ⟨-, c, rfl, hc⟩
      · exact absurd hno h
      · obtain ⟨md5Value, hfinal⟩ := md5Final_isOk hc
        simp only [md5File, hrun, Option.getD_some, Outcome.ok_bind, hfinal,
          md5Hex_short hshort md5Value, Outcome.error_bind]

end File
