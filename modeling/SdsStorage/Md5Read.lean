/-
**`md5_file` under a schedule of reads.**

`md5_file` takes a read of fewer bytes than it asked for as the last one.  A read may return fewer
bytes before the end of a file is reached, and then what is behind them is not digested.

Main definitions:

* `LegalReads` — what the calls to `read` may return for a file;
* `FailsFirst`, `consumed` — a read fails before one is short, and the bytes up to a short one;
* `DigestsContent` — what is expected of `md5_file`.

Main results:

* `md5File_legal` — **what `md5_file` does under a schedule**;
* `digestsContent_iff` — **when it digests the whole file**.
-/

import SdsStorage.Md5Digest
import SdsStorage.Md5File

set_option relaxedAutoImplicit false
set_option autoImplicit false

/-! ### Schedules -/

/-- What the calls to `read` may return for a file with some bytes left: some of them, at most as
many as were asked for, nothing when none is left, or a failure.  A call behind the schedule returns
nothing. -/
def LegalReads : Bytes → List ReadEvent → Prop
  | content, .data b bs :: rest => (b :: bs).length ≤ md5ReadDataSize ∧
      ∃ content', content = b :: bs ++ content' ∧ LegalReads content' rest
  | content, .eof :: rest => content = [] ∧ LegalReads [] rest
  | _, .intr :: _ => True
  | _, .fail :: _ => True
  | content, [] => content = []

/-- A read fails before one is short. -/
def FailsFirst : List ReadEvent → Prop
  | .data b bs :: rest => md5ReadDataSize ≤ (b :: bs).length ∧ FailsFirst rest
  | .intr :: _ => True
  | .fail :: _ => True
  | _ => False

/-- The bytes that are read up to the first short read. -/
def consumed : List ReadEvent → Bytes
  | .data b bs :: rest =>
      if md5ReadDataSize ≤ (b :: bs).length then b :: bs ++ consumed rest else b :: bs
  | _ => []

/-! ### The loop -/

/-- A read is consumed. -/
theorem md5Update_read {start : Md5State} {m : Bytes} {c : Md5Ctx}
    (hc : Md5Streamed md5Transform start m c.stream) {data : Bytes}
    (hdata : data.length ≤ md5ReadDataSize) :
    ∃ c', md5Update c data (UInt32.ofNat (CInt.toUInt32 (data.length : ℤ))) = .ok c' ∧
      Md5Streamed md5Transform start (m ++ data) c'.stream := by
  have hsize : md5ReadDataSize = 4096 := rfl
  have hcount : (UInt32.ofNat (CInt.toUInt32 (data.length : ℤ))).toNat = data.length := by
    rw [UInt32.toNat_ofNat', CInt.toUInt32]
    omega
  obtain ⟨s, hupdate, hs⟩ : ∃ s, md5UpdateBy md5Transform c.stream data
      (UInt32.ofNat (CInt.toUInt32 (data.length : ℤ))) = .ok s ∧ Md5Streamed md5Transform start
        (m ++ data.take (UInt32.ofNat (CInt.toUInt32 (data.length : ℤ))).toNat) s :=
    hc.update hcount.le (Md5Fits.of_le _ (Nat.mod_lt _ (by decide)) (by omega))
  rw [hcount, List.take_length] at hs
  obtain ⟨c', hc', rfl⟩ := md5Update_of_stream hupdate
  exact ⟨c', hc', hs⟩

/-- A read of nothing changes nothing. -/
theorem md5Update_nothing {start : Md5State} {m : Bytes} {c : Md5Ctx}
    (hc : Md5Streamed md5Transform start m c.stream) :
    ∃ c', md5Update c [] (UInt32.ofNat (CInt.toUInt32 0)) = .ok c' ∧
      Md5Streamed md5Transform start m c'.stream := by
  have hempty : ([] : Bytes).length ≤ md5ReadDataSize := Nat.zero_le _
  obtain ⟨c', hc', hstream⟩ := md5Update_read hc hempty
  rw [List.append_nil] at hstream
  exact ⟨c', hc', hstream⟩

/-- What the loop comes to: it stops at the first failure, or at the first short read with
everything up to it consumed. -/
theorem md5FileTurn_run_legal {content : Bytes} {arrivals : List ReadEvent}
    (h : LegalReads content arrivals) {start : Md5State} {m : Bytes} {c : Md5Ctx}
    (hc : Md5Streamed md5Transform start m c.stream) {fuel : ℕ}
    (hfuel : Source.weight { arrivals := arrivals, ended := true } < fuel) :
    (FailsFirst arrivals ∧
        Loop.run md5FileTurn fuel (c, { arrivals := arrivals, ended := true }) =
          some (.ok none)) ∨
      (¬ FailsFirst arrivals ∧ ∃ c',
        Loop.run md5FileTurn fuel (c, { arrivals := arrivals, ended := true }) =
          some (.ok (some c')) ∧
        Md5Streamed md5Transform start (m ++ consumed arrivals) c'.stream) := by
  induction arrivals generalizing content m c fuel with
  | nil =>
      obtain ⟨fuel, rfl⟩ : ∃ k, fuel = k + 1 := ⟨fuel - 1, by omega⟩
      obtain ⟨c', hend, hstream⟩ := md5Update_nothing hc
      refine Or.inr ⟨id, c', Loop.run_done ?_, by simpa [consumed] using hstream⟩
      simp [md5FileTurn, Source.read, hend]
  | cons ev rest ih =>
      obtain ⟨fuel, rfl⟩ : ∃ k, fuel = k + 1 := ⟨fuel - 1, by omega⟩
      rw [Source.weight_cons] at hfuel
      cases ev with
      | eof =>
          obtain ⟨c', hend, hstream⟩ := md5Update_nothing hc
          refine Or.inr ⟨id, c', Loop.run_done ?_, by simpa [consumed] using hstream⟩
          simp [md5FileTurn, Source.read, hend]
      | intr => exact Or.inl ⟨trivial, Loop.run_done rfl⟩
      | fail => exact Or.inl ⟨trivial, Loop.run_done rfl⟩
      | data b bs =>
          obtain ⟨hsize, content', rfl, hrest⟩ := h
          obtain ⟨c', hc', hstream⟩ := md5Update_read hc hsize
          have htake : (b :: bs).take md5ReadDataSize = b :: bs := List.take_of_length_le hsize
          have hread : md5Update c ((b :: bs).take md5ReadDataSize) (UInt32.ofNat
              (CInt.toUInt32 (((b :: bs).take md5ReadDataSize).length : ℤ))) = .ok c' := by
            rw [htake]
            exact hc'
          have hturn := md5FileTurn_data rest true hread
          by_cases hfull : md5ReadDataSize ≤ (b :: bs).length
          · have hleft : Source.leftover (b :: bs) md5ReadDataSize rest = rest := by
              rw [Source.leftover, List.drop_of_length_le hsize]
            rw [if_pos hfull, hleft] at hturn
            rw [Loop.run_again hturn, FailsFirst, consumed, if_pos hfull, ← List.append_assoc]
            have hless : Source.weight { arrivals := rest, ended := true } < fuel := by omega
            rcases ih hrest hstream hless with ⟨hfails, hrun⟩ | ⟨hfails, hrun⟩
            · exact Or.inl ⟨⟨hfull, hfails⟩, hrun⟩
            · exact Or.inr ⟨fun h => hfails h.2, hrun⟩
          · rw [if_neg hfull] at hturn
            refine Or.inr ⟨fun h => hfull h.1, c', Loop.run_done hturn, ?_⟩
            rw [consumed, if_neg hfull]
            exact hstream

section File

variable {md5 : Md5Ctx} {content md5Str : Bytes} {arrivals : List ReadEvent}

/-- **What `md5_file` does under a schedule.** -/
theorem md5File_legal (hbuf : md5.buffer.length = 64) (h : LegalReads content arrivals)
    (hroom : 2 * md5Size < md5Str.length) :
    (FailsFirst arrivals ∧
        md5File md5 (some { arrivals := arrivals, ended := true }) md5Str = .ok (-1, md5Str)) ∨
      (¬ FailsFirst arrivals ∧
        md5File md5 (some { arrivals := arrivals, ended := true }) md5Str =
          .ok (0, Md5Standard.hex (Md5Standard.digest (consumed arrivals)) ++
            0 :: md5Str.drop (2 * md5Size + 1))) := by
  have hinit : Md5Streamed md5Transform ⟨0x67452301, 0xEFCDAB89, 0x98BADCFE, 0x10325476⟩ []
      (md5Init md5).stream := md5InitBy_streamed _ _ hbuf
  rcases md5FileTurn_run_legal h hinit (Nat.lt_succ_self _) with
    ⟨hfails, hrun⟩ | ⟨hfails, c, hrun, hc⟩
  · refine Or.inl ⟨hfails, ?_⟩
    rw [md5File, hrun]
    rfl
  · refine Or.inr ⟨hfails, ?_⟩
    rw [List.nil_append] at hc
    have hfinal : md5Final c = .ok (Md5Standard.digest (consumed arrivals)) := by
      rw [md5FinalBy_md5Transform, hc.final, Outcome.ok_bind, md5Encode_state,
        foldl_md5Transform _ fun block hblock => length_of_mem_blocks hblock]
      rfl
    have hlen : (Md5Standard.digest (consumed arrivals)).length = md5Size :=
      Md5Standard.length_output _
    simp only [md5File, hrun, Option.getD_some, Outcome.ok_bind, hfinal, md5Hex_eq hroom,
      md5Digits_eq_hex hlen]

/-- What is expected of `md5_file`: a read has failed, or the digest of the content is printed, as
`md5_string` prints it. -/
def DigestsContent (md5 : Md5Ctx) (content : Bytes) (arrivals : List ReadEvent)
    (md5Str : Bytes) : Prop :=
  (FailsFirst arrivals ∧
      md5File md5 (some { arrivals := arrivals, ended := true }) md5Str = .ok (-1, md5Str)) ∨
    ∃ out, md5File md5 (some { arrivals := arrivals, ended := true }) md5Str = .ok (0, out) ∧
      out = Md5Standard.hex (Md5Standard.digest content) ++ 0 :: md5Str.drop (2 * md5Size + 1) ∧
      (content.length ≤ 2 ^ 32 - 128 →
        md5String md5 content (UInt32.ofNat content.length) md5Str = .ok out)

/-- Two messages with one digest. -/
def Collision (m m' : Bytes) : Prop := m ≠ m' ∧ Md5Standard.digest m = Md5Standard.digest m'

theorem digestsContent_iff_digest (hbuf : md5.buffer.length = 64)
    (h : LegalReads content arrivals) (hroom : 2 * md5Size < md5Str.length) :
    DigestsContent md5 content arrivals md5Str ↔ FailsFirst arrivals ∨
      Md5Standard.digest (consumed arrivals) = Md5Standard.digest content := by
  rcases md5File_legal hbuf h hroom with ⟨hfails, hfile⟩ | ⟨hfails, hfile⟩
  · exact ⟨fun _ => Or.inl hfails, fun _ => Or.inl ⟨hfails, hfile⟩⟩
  · constructor
    · rintro (⟨hfails', -⟩ | ⟨out, hout, rfl, -⟩)
      · exact Or.inl hfails'
      · rw [hfile] at hout
        refine Or.inr ?_
        have hhex := (Prod.mk.inj (Except.ok.inj hout)).2
        exact Md5Standard.hex_inj (List.append_cancel_right hhex)
    · rintro (hfails' | hdigest)
      · exact absurd hfails' hfails
      · rw [hdigest] at hfile
        exact Or.inr ⟨_, hfile, rfl, fun hlen => md5String_ok hbuf hlen hroom⟩

/-- **When `md5_file` digests the whole file**: a read fails before one is short, or nothing is left
behind the first short read, or what is left makes no difference to the digest. -/
theorem digestsContent_iff (hbuf : md5.buffer.length = 64)
    (h : LegalReads content arrivals) (hroom : 2 * md5Size < md5Str.length) :
    DigestsContent md5 content arrivals md5Str ↔
      FailsFirst arrivals ∨ consumed arrivals = content ∨
        Collision (consumed arrivals) content := by
  rw [digestsContent_iff_digest hbuf h hroom, Collision]
  constructor
  · rintro (hfails | hdigest)
    · exact Or.inl hfails
    · by_cases hall : consumed arrivals = content
      · exact Or.inr (Or.inl hall)
      · exact Or.inr (Or.inr ⟨hall, hdigest⟩)
  · rintro (hfails | hall | ⟨-, hdigest⟩)
    · exact Or.inl hfails
    · exact Or.inr (congrArg Md5Standard.digest hall)
    · exact Or.inr hdigest

end File

/-- A file of two bytes, read at once. -/
theorem digestsContent_iff_at_once :
    LegalReads [0x61, 0x62] [.data 0x61 [0x62]] ∧
      DigestsContent md5Fresh [0x61, 0x62] [.data 0x61 [0x62]] (List.replicate 33 0) := by
  have h : LegalReads [0x61, 0x62] [.data 0x61 [0x62]] := ⟨by decide, [], rfl, rfl⟩
  exact ⟨h, (digestsContent_iff rfl h (by decide)).2 (Or.inr (Or.inl rfl))⟩

/-- The same file, read byte by byte. -/
theorem not_digestsContent_byte_by_byte :
    LegalReads [0x61, 0x62] [.data 0x61 [], .data 0x62 []] ∧
      ¬ DigestsContent md5Fresh [0x61, 0x62] [.data 0x61 [], .data 0x62 []]
        (List.replicate 33 0) := by
  have h : LegalReads [0x61, 0x62] [.data 0x61 [], .data 0x62 []] :=
    ⟨by decide, [0x62], rfl, by decide, [], rfl, rfl⟩
  refine ⟨h, ?_⟩
  rw [digestsContent_iff_digest rfl h (by decide)]
  rintro (⟨hfull, -⟩ | hdigest)
  · exact absurd hfull (by decide)
  · exact absurd hdigest (by decide +kernel)
