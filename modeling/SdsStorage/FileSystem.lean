/-
**Files and descriptors.**

The part of a file system that an append-only data file uses: looking a name up, creating the file
and opening it for appending, reserving space, appending, and closing.  Opening and reserving may
fail for reasons of their own, which the caller passes in.

Main definitions:

* `Fs` — the contents of the files, and the table of open descriptors;
* `FsChance` — which of the calls that may fail do;
* `Fs.openAppend`, `Fs.fallocate`, `Fs.append`, `Fs.close` — the system calls.

Main results:

* `Fs.openAppend_fd` — a descriptor just opened leads to its file;
* `Fs.fileOf_freeFd`, `Fs.fileOf_openAppend_ne` — it was not open before, and no other is moved;
* `Fs.fallocate_of_fileOf` — reserving space in an empty file fills it with zeros.
-/

import SdsStorage.CString
import SdsStorage.CInt
import Mathlib.Logic.Function.Basic
import Mathlib.Data.List.Basic

set_option relaxedAutoImplicit false
set_option autoImplicit false

/-- The state of the file system: what each file holds, and the file each descriptor is open on. -/
structure Fs where
  files : Bytes → Option Bytes
  fds : List (Option Bytes)

/-- Which of the calls that may fail do. -/
structure FsChance where
  openFails : Bool
  fallocateFails : Bool
  deriving DecidableEq, Repr

namespace Fs

/-- A file system without a file or an open descriptor. -/
def empty : Fs := { files := fun _ => none, fds := [] }

/-- The file system with the contents of one file replaced. -/
def setFile (fs : Fs) (name content : Bytes) : Fs :=
  { fs with files := Function.update fs.files name (some content) }

@[simp] theorem setFile_files_self (fs : Fs) (name content : Bytes) :
    (fs.setFile name content).files name = some content := by
  simp [setFile]

theorem setFile_files_ne (fs : Fs) {name name' : Bytes} (content : Bytes) (h : name' ≠ name) :
    (fs.setFile name content).files name' = fs.files name' :=
  Function.update_of_ne h _ _

/-- The least descriptor that is not open. -/
def freeFd (fs : Fs) : ℕ := fs.fds.idxOf none

/-- `open` with `O_CREAT | O_RDWR | O_APPEND`: the file system and the descriptor. -/
def openAppend (fs : Fs) (name : Bytes) (fails : Bool) : Fs × ℤ :=
  if fails then (fs, -1)
  else
    ({ fs.setFile name ((fs.files name).getD []) with
       fds := (fs.fds ++ [none]).set fs.freeFd (some name) }, fs.freeFd)

/-- The file a descriptor is open on. -/
def fileOf (fs : Fs) (fd : ℤ) : Option Bytes :=
  if 0 ≤ fd then (fs.fds[fd.toNat]?).join else none

/-- The contents of the file a descriptor is open on. -/
def contents (fs : Fs) (fd : ℤ) : Option Bytes := fs.fileOf fd >>= fs.files

/-- `fallocate` with mode 0 from the start of the file: the file grows to at least `len` bytes. -/
def fallocate (fs : Fs) (fd : ℤ) (len : ℤ) (fails : Bool) : Fs × ℤ :=
  if len ≤ 0 ∨ fails = true then (fs, -1)
  else
    match fs.fileOf fd with
    | none => (fs, -1)
    | some name =>
        let old := (fs.files name).getD []
        (fs.setFile name (old ++ List.replicate (len.toNat - old.length) 0), 0)

/-- The effect of writes to a descriptor opened with `O_APPEND`. -/
def append (fs : Fs) (fd : ℤ) (bytes : Bytes) : Fs :=
  match fs.fileOf fd with
  | none => fs
  | some name => fs.setFile name ((fs.files name).getD [] ++ bytes)

/-- `close`. -/
def close (fs : Fs) (fd : ℤ) : Fs :=
  if 0 ≤ fd then { fs with fds := fs.fds.set fd.toNat none } else fs

/-! ### What the calls do -/

theorem freeFd_le (fs : Fs) : fs.freeFd ≤ fs.fds.length := List.idxOf_le_length

/-- A descriptor just opened leads to its file. -/
theorem openAppend_fd (fs : Fs) (name : Bytes) :
    (fs.openAppend name false).1.fileOf (fs.openAppend name false).2 = some name := by
  have hlt : fs.freeFd < (fs.fds ++ [none]).length := by
    have := fs.freeFd_le
    simp only [List.length_append, List.length_singleton]
    omega
  simp [openAppend, fileOf, List.getElem?_set_self hlt]

/-- The least descriptor that is not open is not open. -/
theorem fileOf_freeFd (fs : Fs) : fs.fileOf fs.freeFd = none := by
  rw [fileOf, if_pos (Int.natCast_nonneg _), Int.toNat_natCast]
  rcases Nat.lt_or_ge fs.freeFd fs.fds.length with hlt | hge
  · rw [List.getElem?_eq_getElem hlt, Option.join_some]
    exact List.getElem_idxOf hlt
  · rw [List.getElem?_eq_none hge]
    rfl

/-- Opening a file moves no other descriptor. -/
theorem fileOf_openAppend_ne (fs : Fs) (name : Bytes) {fd : ℤ}
    (h : fd ≠ (fs.openAppend name false).2) :
    (fs.openAppend name false).1.fileOf fd = fs.fileOf fd := by
  have hnum : fd ≠ fs.freeFd := h
  have hfds : (fs.openAppend name false).1.fds = (fs.fds ++ [none]).set fs.freeFd (some name) := rfl
  rw [fileOf, fileOf, hfds]
  by_cases hfd : 0 ≤ fd
  · rw [if_pos hfd, if_pos hfd, List.getElem?_set_ne (by omega)]
    rcases Nat.lt_trichotomy fd.toNat fs.fds.length with hlt | heq | hgt
    · rw [List.getElem?_append_left hlt]
    · rw [heq, List.getElem?_concat_length, List.getElem?_eq_none (Nat.le_refl _)]
      rfl
    · rw [List.getElem?_eq_none (by rw [List.length_append, List.length_singleton]; omega),
        List.getElem?_eq_none (by omega)]
  · rw [if_neg hfd, if_neg hfd]

theorem openAppend_files (fs : Fs) (name : Bytes) :
    (fs.openAppend name false).1.files name = some ((fs.files name).getD []) :=
  setFile_files_self fs name _

@[simp] theorem fileOf_setFile (fs : Fs) (name content : Bytes) (fd : ℤ) :
    (fs.setFile name content).fileOf fd = fs.fileOf fd := rfl

@[simp] theorem fileOf_neg_one (fs : Fs) : fs.fileOf (-1) = none := by
  simp [fileOf]

theorem fallocate_of_nonpos (fs : Fs) (fd : ℤ) {len : ℤ} (hlen : len ≤ 0) (fails : Bool) :
    fs.fallocate fd len fails = (fs, -1) := by
  rw [fallocate, if_pos (Or.inl hlen)]

/-- Reserving space moves no descriptor. -/
theorem fileOf_fallocate (fs : Fs) (fd len : ℤ) (fails : Bool) (other : ℤ) :
    (fs.fallocate fd len fails).1.fileOf other = fs.fileOf other := by
  rw [fallocate]
  split
  · rfl
  · split
    · rfl
    · rfl

/-- Reserving `len` bytes through a descriptor fills its file up with zeros. -/
theorem fallocate_of_fileOf {fs : Fs} {fd : ℤ} {name : Bytes} (h : fs.fileOf fd = some name)
    {len : ℤ} (hlen : 0 < len) :
    fs.fallocate fd len false =
      (fs.setFile name ((fs.files name).getD [] ++
        List.replicate (len.toNat - ((fs.files name).getD []).length) 0), 0) := by
  have hpos : ¬ (len ≤ 0 ∨ false = true) := by simp; omega
  simp only [fallocate, if_neg hpos, h]

/-- A file just made and reserved holds zeros. -/
theorem contents_fallocate_openAppend {fs : Fs} {name : Bytes} (hfresh : fs.files name = none)
    {len : ℤ} (hlen : 0 < len) :
    ∃ fs', (fs.openAppend name false).1.fallocate (fs.openAppend name false).2 len false =
        (fs', 0) ∧
      fs'.contents (fs.openAppend name false).2 = some (List.replicate len.toNat 0) := by
  refine ⟨_, fallocate_of_fileOf (fs.openAppend_fd name) hlen, ?_⟩
  simp only [contents, fileOf_setFile, fs.openAppend_fd, Option.bind_eq_bind, Option.bind_some,
    setFile_files_self, fs.openAppend_files, hfresh]
  simp

/-- Appending nothing to a file that exists changes nothing that can be read. -/
theorem contents_append_nil (fs : Fs) (fd fd' : ℤ) (h : (fs.contents fd').isSome) :
    (fs.append fd []).contents fd' = fs.contents fd' := by
  rw [append]
  cases hname : fs.fileOf fd with
  | none => rfl
  | some name =>
      cases hname' : fs.fileOf fd' with
      | none => simp [contents, hname'] at h
      | some name' =>
          simp only [contents, hname', fileOf_setFile, Option.bind_eq_bind, Option.bind_some,
            List.append_nil] at h ⊢
          by_cases heq : name' = name
          · subst heq
            obtain ⟨c, hc⟩ := Option.isSome_iff_exists.1 h
            simp [hc]
          · exact setFile_files_ne fs _ heq

/-- Appending nothing to files that exist changes nothing. -/
theorem append_nil {fs : Fs} {fd : ℤ}
    (h : ∀ name, fs.fileOf fd = some name → fs.files name ≠ none) : fs.append fd [] = fs := by
  rw [append]
  cases hname : fs.fileOf fd with
  | none => rfl
  | some name =>
      obtain ⟨content, hcontent⟩ := Option.ne_none_iff_exists'.1 (h name hname)
      have hsame : Function.update fs.files name (some content) = fs.files := by
        rw [← hcontent, Function.update_eq_self]
      simp only [hcontent, Option.getD_some, List.append_nil, setFile, hsame]

/-- Appending moves no descriptor. -/
@[simp] theorem fileOf_append (fs : Fs) (fd fd' : ℤ) (bytes : Bytes) :
    (fs.append fd bytes).fileOf fd' = fs.fileOf fd' := by
  rw [append]
  cases fs.fileOf fd with
  | none => rfl
  | some name => rfl

/-- Appending nothing leaves what can be read of a file as it is, also where there is none. -/
theorem getD_contents_append_nil (fs : Fs) (fd fd' : ℤ) :
    ((fs.append fd []).contents fd').getD [] = (fs.contents fd').getD [] := by
  rw [append]
  cases hname : fs.fileOf fd with
  | none => rfl
  | some name =>
      cases hname' : fs.fileOf fd' with
      | none =>
          simp only [contents, hname', fileOf_setFile]
          rfl
      | some name' =>
          simp only [contents, hname', fileOf_setFile, Option.bind_eq_bind, Option.bind_some,
            List.append_nil]
          by_cases heq : name' = name
          · subst heq
            rw [setFile_files_self, Option.getD_some]
          · rw [setFile_files_ne fs _ heq]

/-- Appending changes the file the descriptor is open on only. -/
theorem append_files_ne {fs : Fs} {fd : ℤ} {name : Bytes} (h : fs.fileOf fd = some name)
    (bytes : Bytes) {other : Bytes} (hne : other ≠ name) :
    (fs.append fd bytes).files other = fs.files other := by
  rw [append, h]
  exact setFile_files_ne fs _ hne

/-- Closing a descriptor changes no file. -/
@[simp] theorem close_files (fs : Fs) (fd : ℤ) : (fs.close fd).files = fs.files := by
  rw [close]
  split
  · rfl
  · rfl

/-- What a reservation that succeeds comes to: it is for an open file, and changes that only. -/
theorem fallocate_ok {fs fs' : Fs} {fd len : ℤ} {fails : Bool}
    (h : fs.fallocate fd len fails = (fs', 0)) :
    ∃ name, fs.fileOf fd = some name ∧ fs'.fileOf fd = some name ∧
      ∀ other, other ≠ name → fs'.files other = fs.files other := by
  rw [fallocate] at h
  split at h
  · cases h
  · cases hname : fs.fileOf fd with
    | none =>
        rw [hname] at h
        cases h
    | some name =>
        rw [hname] at h
        cases h
        exact ⟨name, rfl, hname, fun other hne => setFile_files_ne fs _ hne⟩

end Fs
