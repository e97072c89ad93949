import Mathlib.Data.List.DropRight
import Iwaya.Foundation.Bytes
import Iwaya.Image

/-!
# The interpreter an executable asks for

The path of the dynamic linker is read out of the executable: from the header the place,
the size and the number of the program headers, from each of these its kind, and from the
first of kind `PT_INTERP` where in the file the path stands. Every offset and size is the
file's own and may be anything. A slice that is out of bounds, and an unwrapped conversion
that fails, end the program; this is kept apart from an error (`Iwaya.Halt`), so that there
is something to prove: no content of the file leads there, and what is returned is exactly
what the file says (`Iwaya.programInterpreter_exact`).
-/

namespace Iwaya

open Text Bytes

/-- How a computation ends without a result: in an error, or in an abort. -/
inductive Halt where
  | refused (error : ProxyImageError)
  | panicked

/-! ### Bytes of a buffer -/

/-- `bytes[start..stop]`. -/
def slice (bytes : List UInt8) (start stop : ℕ) : Except Halt (List UInt8) :=
  if start ≤ stop ∧ stop ≤ bytes.length then .ok ((bytes.drop start).take (stop - start))
  else .error .panicked

/-- `bytes[i]`. -/
def index (bytes : List UInt8) (i : ℕ) : Except Halt UInt8 :=
  match bytes[i]? with
  | some b => .ok b
  | none => .error .panicked

/-- `from_le_bytes(bytes.try_into().unwrap())`, of a number of `w` bytes. -/
def fromLeBytes (w : ℕ) (bytes : List UInt8) : Except Halt ℕ :=
  if bytes.length = w then .ok (ofLe bytes) else .error .panicked

/-! ### Bytes of the file -/

/-- A seek to an offset and an exact read. An offset that is negative as a signed number
is refused by the system, and so is a read past the end. -/
def readAt (content : List UInt8) (offset n : ℕ) : Except Halt (List UInt8) :=
  if 2 ^ 63 ≤ offset then .error (.refused (.exe "Invalid argument (os error 22)".toList))
  else if content.length < offset + n then
    .error (.refused (.exe "failed to fill whole buffer".toList))
  else .ok ((content.drop offset).take n)

/-- Only the format that the program itself can have. -/
def isElf64Le (header : List UInt8) : Except Halt Bool := do
  let magic ← slice header 0 4
  if magic ≠ [0x7f, 0x45, 0x4c, 0x46] then return false
  let fileClass ← index header 4
  if fileClass ≠ 2 then return false
  let encoding ← index header 5
  return encoding = 1

/-- The kind of the program header that has the path. -/
def ptInterp : ℕ := 3

/-- The longest path that is taken for one. -/
def interpreterPathLimit : ℕ := 4096

/-- `u64::checked_mul`. -/
def checkedMul (a b : ℕ) : Option ℕ := if a * b < 2 ^ 64 then some (a * b) else none

/-- `u64::checked_add`. -/
def checkedAdd (a b : ℕ) : Option ℕ := if a + b < 2 ^ 64 then some (a + b) else none

/-- The loop that takes the zero bytes off the end. -/
def popNuls (path : List UInt8) : List UInt8 :=
  if path.getLast? = some 0 then popNuls path.dropLast else path
termination_by path.length
decreasing_by
  rename_i h
  have := List.ne_nil_of_mem (List.mem_of_getLast? h)
  have := List.length_pos_iff.mpr this
  rw [List.length_dropLast]
  omega

/-- The path that a program header points to. -/
def interpreterAt (content entry : List UInt8) : Except Halt (Option Str) := do
  let offset ← fromLeBytes 8 (← slice entry 0x8 0x10)
  let size ← fromLeBytes 8 (← slice entry 0x20 0x28)
  if size = 0 ∨ interpreterPathLimit < size then throw (.refused .unsupportedExecutable)
  let path ← readAt content offset size
  match fromUtf8 (popNuls path) with
  | some path => return some path
  | none => throw (.refused .unsupportedExecutable)

/-- The loop over the program headers, at `i` with so many left. -/
def scanEntries (content : List UInt8) (phOffset phEntrySize : ℕ) :
    ℕ → ℕ → Except Halt (Option Str)
  | _, 0 => return none
  | i, left + 1 => do
    match (checkedMul i phEntrySize).bind (checkedAdd phOffset) with
    | none => throw (.refused .unsupportedExecutable)
    | some entryOffset =>
      let entry ← readAt content entryOffset 56
      let kind ← fromLeBytes 4 (← slice entry 0 4)
      if kind ≠ ptInterp then scanEntries content phOffset phEntrySize (i + 1) left
      else interpreterAt content entry

/-- **The path of the interpreter**, or nothing for a binary that has none. -/
def programInterpreter (content : List UInt8) : Except Halt (Option Str) := do
  let header ← readAt content 0 64
  if ← isElf64Le header then
    let phOffset ← fromLeBytes 8 (← slice header 0x20 0x28)
    let phEntrySize ← fromLeBytes 2 (← slice header 0x36 0x38)
    let phCount ← fromLeBytes 2 (← slice header 0x38 0x3a)
    scanEntries content phOffset phEntrySize 0 phCount
  else throw (.refused .unsupportedExecutable)

/-! ### What the file says -/

/-- The bytes at an offset. -/
def bytesAt (content : List UInt8) (offset n : ℕ) : List UInt8 := (content.drop offset).take n

/-- The number of `w` bytes at an offset. -/
def numberAt (content : List UInt8) (offset w : ℕ) : ℕ := ofLe (bytesAt content offset w)

/-- The file begins with the header of a 64-bit little-endian executable. -/
def IsElf (content : List UInt8) : Prop :=
  64 ≤ content.length ∧ bytesAt content 0 6 = [0x7f, 0x45, 0x4c, 0x46, 2, 1]

/-- The number of program headers. -/
def entryCount (content : List UInt8) : ℕ := numberAt content 0x38 2

/-- Where a program header begins. -/
def entryAt (content : List UInt8) (i : ℕ) : ℕ :=
  numberAt content 0x20 8 + i * numberAt content 0x36 2

/-- A program header lies within the file. -/
def EntryReadable (content : List UInt8) (i : ℕ) : Prop :=
  entryAt content i + 56 ≤ content.length

/-- The kind of a program header. -/
def entryKind (content : List UInt8) (i : ℕ) : ℕ := numberAt content (entryAt content i) 4

/-- Where the segment of a program header is in the file. -/
def entryOffset (content : List UInt8) (i : ℕ) : ℕ := numberAt content (entryAt content i + 0x8) 8

/-- Its size in the file. -/
def entryFilesz (content : List UInt8) (i : ℕ) : ℕ := numberAt content (entryAt content i + 0x20) 8

/-- A program header points to a path: of a size within the bounds, within the file, and
text once the zero bytes at its end are gone. -/
def HasPath (content : List UInt8) (i : ℕ) (p : Str) : Prop :=
  1 ≤ entryFilesz content i ∧ entryFilesz content i ≤ interpreterPathLimit ∧
    entryOffset content i + entryFilesz content i ≤ content.length ∧
    fromUtf8 ((bytesAt content (entryOffset content i) (entryFilesz content i)).rdropWhile
      (· = 0)) = some p

/-- **The file asks for an interpreter.** -/
def AsksFor (content : List UInt8) (p : Str) : Prop :=
  IsElf content ∧ ∃ i < entryCount content, (∀ j ≤ i, EntryReadable content j) ∧
    (∀ j < i, entryKind content j ≠ ptInterp) ∧ entryKind content i = ptInterp ∧
    HasPath content i p

/-- **The file asks for none.** -/
def AsksForNone (content : List UInt8) : Prop :=
  IsElf content ∧ ∀ i < entryCount content, EntryReadable content i ∧
    entryKind content i ≠ ptInterp

/-! ### Reading within the bounds -/

section

variable {content : List UInt8}

theorem length_bytesAt {offset n : ℕ} (h : offset + n ≤ content.length) :
    (bytesAt content offset n).length = n := by
  rw [bytesAt, List.length_take, List.length_drop]
  omega

theorem readAt_eq_ok (hsize : content.length < 2 ^ 63) {offset n : ℕ}
    (h : offset + n ≤ content.length) :
    readAt content offset n = .ok (bytesAt content offset n) := by
  rw [readAt, if_neg (by omega), if_neg (by omega), bytesAt]

theorem readAt_refused {offset n : ℕ} (h : ¬offset + n ≤ content.length) :
    ∃ e, readAt content offset n = .error (.refused e) := by
  rw [readAt]
  split_ifs
  · exact ⟨_, rfl⟩
  · exact ⟨_, rfl⟩
  · omega

/-- A slice of a buffer that was read is a slice of the file. -/
theorem slice_bytesAt {offset n start stop : ℕ} (h : offset + n ≤ content.length)
    (hle : start ≤ stop) (hstop : stop ≤ n) :
    slice (bytesAt content offset n) start stop =
      .ok (bytesAt content (offset + start) (stop - start)) := by
  rw [slice, if_pos ⟨hle, by rw [length_bytesAt h]; exact hstop⟩, bytesAt, bytesAt,
    List.drop_take, List.drop_drop, List.take_take, Nat.min_eq_left (by omega)]

/-- A number taken out of a buffer that was read is a number of the file. -/
theorem number_bind {β : Type} {offset n : ℕ} (h : offset + n ≤ content.length)
    (start stop w : ℕ) (hstop : stop = start + w) (hle : stop ≤ n) (f : ℕ → Except Halt β) :
    (slice (bytesAt content offset n) start stop >>= fun bytes =>
      fromLeBytes w bytes >>= f) = f (numberAt content (offset + start) w) := by
  have hw : stop - start = w := by omega
  have hin : offset + start + w ≤ content.length := by omega
  rw [slice_bytesAt h (by omega) hle, hw, Checks.ok_bind, fromLeBytes, if_pos (length_bytesAt hin),
    Checks.ok_bind, numberAt]

/-- The magic, the class and the encoding. -/
theorem isElf64Le_bytesAt (h : 64 ≤ content.length) :
    isElf64Le (bytesAt content 0 64) =
      .ok (decide (bytesAt content 0 6 = [0x7f, 0x45, 0x4c, 0x46, 2, 1])) := by
  obtain ⟨a, b, c, d, e, f, rest, rfl⟩ : ∃ a b c d e f rest,
      content = a :: b :: c :: d :: e :: f :: rest := by
    match content, h with
    | a :: b :: c :: d :: e :: f :: rest, _ => exact ⟨a, b, c, d, e, f, rest, rfl⟩
  have hmagic : slice (bytesAt (a :: b :: c :: d :: e :: f :: rest) 0 64) 0 4 =
      .ok [a, b, c, d] := by
    rw [slice_bytesAt (by simpa using h) (by decide) (by decide)]
    rfl
  have hclass : index (bytesAt (a :: b :: c :: d :: e :: f :: rest) 0 64) 4 = .ok e := rfl
  have hencoding : index (bytesAt (a :: b :: c :: d :: e :: f :: rest) 0 64) 5 = .ok f := rfl
  have hsix : bytesAt (a :: b :: c :: d :: e :: f :: rest) 0 6 = [a, b, c, d] ++ [e, f] := rfl
  have hnum : [0x7f, 0x45, 0x4c, 0x46, 2, 1] = [0x7f, 0x45, 0x4c, 0x46] ++ [(2 : UInt8), 1] := rfl
  rw [hsix, hnum, isElf64Le, hmagic, Checks.ok_bind]
  by_cases hm : [a, b, c, d] = [0x7f, 0x45, 0x4c, 0x46]
  · rw [if_neg (not_not.mpr hm), hclass, Checks.ok_bind, hm]
    by_cases he : e = 2
    · rw [if_neg (not_not.mpr he), hencoding, Checks.ok_bind]
      simp [he, pure, Except.pure]
    · rw [if_pos he]
      simp [he, pure, Except.pure]
  · have hne : ¬[a, b, c, d] ++ [e, f] = [0x7f, 0x45, 0x4c, 0x46] ++ [2, 1] :=
      fun heq => hm (List.append_inj heq rfl).1
    rw [if_pos hm, decide_eq_false hne]
    rfl

/-- The loop takes off all of the zero bytes at the end. -/
theorem popNuls_eq (path : List UInt8) : popNuls path = path.rdropWhile (· = 0) := by
  induction path using List.reverseRecOn with
  | nil => rw [popNuls]; rfl
  | append_singleton path b ih =>
    rw [popNuls, List.getLast?_concat, List.dropLast_concat]
    by_cases hb : b = 0
    · rw [if_pos (congrArg some hb), ih, List.rdropWhile_concat_pos _ _ _ (by simpa using hb)]
    · rw [if_neg (by simpa using hb), List.rdropWhile_concat_neg _ _ _ (by simpa using hb)]

/-! ### One program header -/

/-- **What a program header of kind `PT_INTERP` leads to**: the path it points to, or an
error. -/
theorem interpreterAt_cases (hsize : content.length < 2 ^ 63) {i : ℕ}
    (h : EntryReadable content i) :
    (∃ p, HasPath content i p ∧
      interpreterAt content (bytesAt content (entryAt content i) 56) = .ok (some p)) ∨
    ((∀ p, ¬HasPath content i p) ∧
      ∃ e, interpreterAt content (bytesAt content (entryAt content i) 56) =
        .error (.refused e)) := by
  have hread : entryAt content i + 56 ≤ content.length := h
  rw [interpreterAt, number_bind hread 0x8 0x10 8 rfl (by decide),
    number_bind hread 0x20 0x28 8 rfl (by decide), ← entryOffset, ← entryFilesz]
  by_cases hbound : entryFilesz content i = 0 ∨ interpreterPathLimit < entryFilesz content i
  · right
    rw [if_pos hbound]
    exact ⟨fun p hp => by have := hp.1; have := hp.2.1; omega, _, rfl⟩
  · rw [if_neg hbound]
    by_cases hin : entryOffset content i + entryFilesz content i ≤ content.length
    · rw [readAt_eq_ok hsize hin]
      rcases htext : fromUtf8 (popNuls (bytesAt content (entryOffset content i)
        (entryFilesz content i))) with _ | p
      · right
        refine ⟨fun p hp => ?_, .unsupportedExecutable, ?_⟩
        · rw [popNuls_eq, hp.2.2.2] at htext
          cases htext
        · simp only [Checks.ok_bind, htext]
          rfl
      · left
        refine ⟨p, ⟨by omega, by omega, hin, by rw [← popNuls_eq]; exact htext⟩, ?_⟩
        simp only [Checks.ok_bind, htext]
        rfl
    · right
      obtain ⟨e, he⟩ := readAt_refused hin
      exact ⟨fun p hp => hin hp.2.2.1, e, by rw [he]; rfl⟩

/-! ### The loop -/

/-- A program header within the file is looked at. -/
theorem scanEntries_of_readable (hsize : content.length < 2 ^ 63) {i : ℕ} (left : ℕ)
    (h : EntryReadable content i) :
    scanEntries content (numberAt content 0x20 8) (numberAt content 0x36 2) i (left + 1) =
      if entryKind content i ≠ ptInterp then
        scanEntries content (numberAt content 0x20 8) (numberAt content 0x36 2) (i + 1) left
      else interpreterAt content (bytesAt content (entryAt content i) 56) := by
  have hread : entryAt content i + 56 ≤ content.length := h
  have hplace : (checkedMul i (numberAt content 0x36 2)).bind
      (checkedAdd (numberAt content 0x20 8)) = some (entryAt content i) := by
    unfold entryAt at hread ⊢
    rw [checkedMul, if_pos (by omega), Option.bind_some, checkedAdd, if_pos (by omega)]
  rw [scanEntries, hplace]
  simp only [readAt_eq_ok hsize hread, Checks.ok_bind]
  rw [number_bind hread 0 4 4 rfl (by decide)]
  rfl

/-- A program header that is not ends the loop with an error. -/
theorem scanEntries_of_not_readable {i : ℕ} (left : ℕ) (h : ¬EntryReadable content i) :
    ∃ e, scanEntries content (numberAt content 0x20 8) (numberAt content 0x36 2) i (left + 1) =
      .error (.refused e) := by
  rw [scanEntries]
  rcases hplace : (checkedMul i (numberAt content 0x36 2)).bind
      (checkedAdd (numberAt content 0x20 8)) with _ | place
  · exact ⟨_, rfl⟩
  · have heq : place = entryAt content i := by
      simp only [checkedMul, checkedAdd, Option.bind_eq_some_iff, Option.ite_none_right_eq_some,
        Option.some.injEq] at hplace
      obtain ⟨_, ⟨-, rfl⟩, -, rfl⟩ := hplace
      rfl
    subst heq
    obtain ⟨e, he⟩ := readAt_refused h
    exact ⟨e, by simp only [he]; rfl⟩

/-- **No program header makes the loop abort.** -/
theorem scanEntries_ne_panicked (hsize : content.length < 2 ^ 63) (i left : ℕ) :
    scanEntries content (numberAt content 0x20 8) (numberAt content 0x36 2) i left ≠
      .error .panicked := by
  induction left generalizing i with
  | zero => rw [scanEntries]; simp [pure, Except.pure]
  | succ left ih =>
    by_cases hread : EntryReadable content i
    · rw [scanEntries_of_readable hsize left hread]
      split
      · exact ih (i + 1)
      · rcases interpreterAt_cases hsize hread with ⟨p, -, hp⟩ | ⟨-, e, he⟩
        · rw [hp]; simp
        · rw [he]; simp
    · obtain ⟨e, he⟩ := scanEntries_of_not_readable left hread
      rw [he]
      simp

section First

/-! The indices from `i` on, and the first of a kind among them. -/

variable {R K P : ℕ → Prop} {i left : ℕ}

theorem forall_from_succ :
    (∀ j < left + 1, P (i + j)) ↔ P i ∧ ∀ j < left, P (i + 1 + j) := by
  have hshift : ∀ j : ℕ, i + (j + 1) = i + 1 + j := fun j => by omega
  rw [Nat.forall_lt_succ_left]
  exact and_congr Iff.rfl (forall₂_congr fun j _ => by rw [hshift])

/-- The first is `i`. -/
theorem exists_first_here (hr : R i) (hk : K i) :
    (∃ k < left + 1, (∀ j ≤ k, R (i + j)) ∧ (∀ j < k, ¬K (i + j)) ∧ K (i + k) ∧ P (i + k)) ↔
      P i := by
  constructor
  · rintro ⟨k, -, -, hbefore, -, hp⟩
    cases k with
    | zero => exact hp
    | succ k => exact absurd hk (hbefore 0 (Nat.zero_lt_succ k))
  · intro hp
    refine ⟨0, Nat.zero_lt_succ left, fun j hj => ?_, fun j hj => absurd hj (Nat.not_lt_zero j),
      hk, hp⟩
    rw [Nat.le_zero.mp hj]
    exact hr

/-- The first comes after `i`. -/
theorem exists_first_succ (hr : R i) (hk : ¬K i) :
    (∃ k < left + 1, (∀ j ≤ k, R (i + j)) ∧ (∀ j < k, ¬K (i + j)) ∧ K (i + k) ∧ P (i + k)) ↔
      ∃ k < left, (∀ j ≤ k, R (i + 1 + j)) ∧ (∀ j < k, ¬K (i + 1 + j)) ∧ K (i + 1 + k) ∧
        P (i + 1 + k) := by
  have hshift : ∀ j : ℕ, i + (j + 1) = i + 1 + j := fun j => by omega
  rw [Nat.exists_lt_succ_left]
  constructor
  · rintro (⟨-, -, hk', -⟩ | ⟨k, hkl, hrs, hks, hfound⟩)
    · exact absurd hk' hk
    · rw [hshift] at hfound
      refine ⟨k, hkl, fun j hj => ?_, fun j hj => ?_, hfound⟩
      · rw [← hshift]
        exact hrs (j + 1) (Nat.succ_le_succ hj)
      · rw [← hshift]
        exact hks (j + 1) (Nat.succ_lt_succ hj)
  · rintro ⟨k, hkl, hrs, hks, hfound⟩
    refine Or.inr ⟨k, hkl, fun j hj => ?_, fun j hj => ?_, by rwa [hshift]⟩
    · cases j with
      | zero => exact hr
      | succ j =>
        rw [hshift]
        exact hrs j (Nat.le_of_succ_le_succ hj)
    · cases j with
      | zero => exact hk
      | succ j =>
        rw [hshift]
        exact hks j (Nat.lt_of_succ_lt_succ hj)

end First

/-- The loop comes to a path exactly if the first header of the kind has it, and all up to
it are within the file. -/
theorem scanEntries_eq_some (hsize : content.length < 2 ^ 63) (i left : ℕ) (p : Str) :
    scanEntries content (numberAt content 0x20 8) (numberAt content 0x36 2) i left =
        .ok (some p) ↔
      ∃ k < left, (∀ j ≤ k, EntryReadable content (i + j)) ∧
        (∀ j < k, entryKind content (i + j) ≠ ptInterp) ∧
        entryKind content (i + k) = ptInterp ∧ HasPath content (i + k) p := by
  induction left generalizing i with
  | zero => simp [scanEntries, pure, Except.pure]
  | succ left ih =>
    by_cases hread : EntryReadable content i
    · rw [scanEntries_of_readable hsize left hread]
      by_cases hkind : entryKind content i = ptInterp
      · rw [if_neg (not_not.mpr hkind)]
        refine Iff.trans ?_ (exists_first_here
          (K := (entryKind content · = ptInterp)) (P := (HasPath content · p)) hread hkind).symm
        rcases interpreterAt_cases hsize hread with ⟨q, hq, heq⟩ | ⟨hno, e, he⟩
        · rw [heq, Except.ok.injEq, Option.some.injEq]
          constructor
          · rintro rfl
            exact hq
          · intro hp
            exact Option.some.inj (hq.2.2.2.symm.trans hp.2.2.2)
        · rw [he]
          exact iff_of_false (by simp) (hno p)
      · rw [if_pos hkind]
        exact (ih (i + 1)).trans (exists_first_succ
          (K := (entryKind content · = ptInterp)) (P := (HasPath content · p)) hread hkind).symm
    · obtain ⟨e, he⟩ := scanEntries_of_not_readable left hread
      rw [he]
      constructor
      · intro hp
        cases hp
      · rintro ⟨k, -, hreads, -⟩
        exact absurd (hreads 0 (Nat.zero_le k)) hread

/-- The loop comes to its end exactly if all headers are within the file and none is of the
kind. -/
theorem scanEntries_eq_none (hsize : content.length < 2 ^ 63) (i left : ℕ) :
    scanEntries content (numberAt content 0x20 8) (numberAt content 0x36 2) i left = .ok none ↔
      ∀ j < left, EntryReadable content (i + j) ∧ entryKind content (i + j) ≠ ptInterp := by
  induction left generalizing i with
  | zero => simp [scanEntries, pure, Except.pure]
  | succ left ih =>
    rw [forall_from_succ (P := fun j => EntryReadable content j ∧ entryKind content j ≠ ptInterp)]
    by_cases hread : EntryReadable content i
    · rw [scanEntries_of_readable hsize left hread]
      by_cases hkind : entryKind content i = ptInterp
      · rw [if_neg (not_not.mpr hkind)]
        refine iff_of_false ?_ fun hall => hall.1.2 hkind
        rcases interpreterAt_cases hsize hread with ⟨q, -, heq⟩ | ⟨-, e, he⟩
        · simp [heq]
        · simp [he]
      · rw [if_pos hkind, and_iff_right ⟨hread, hkind⟩]
        exact ih (i + 1)
    · obtain ⟨e, he⟩ := scanEntries_of_not_readable left hread
      rw [he]
      exact iff_of_false (by simp) fun hall => hread hall.1.1

/-! ### The whole -/

/-- With a header, everything depends on the loop. -/
theorem programInterpreter_of_isElf (hsize : content.length < 2 ^ 63) (h : IsElf content) :
    programInterpreter content =
      scanEntries content (numberAt content 0x20 8) (numberAt content 0x36 2) 0
        (entryCount content) := by
  have hread : 0 + 64 ≤ content.length := by
    rw [Nat.zero_add]
    exact h.1
  rw [programInterpreter, readAt_eq_ok hsize hread, Checks.ok_bind, isElf64Le_bytesAt h.1,
    Checks.ok_bind, if_pos (decide_eq_true h.2), number_bind hread 0x20 0x28 8 rfl (by decide),
    number_bind hread 0x36 0x38 2 rfl (by decide), number_bind hread 0x38 0x3a 2 rfl (by decide)]
  simp only [Nat.zero_add, entryCount]

/-- Without one, the file is refused. -/
theorem programInterpreter_of_not_isElf (hsize : content.length < 2 ^ 63) (h : ¬IsElf content) :
    ∃ e, programInterpreter content = .error (.refused e) := by
  by_cases hread : 0 + 64 ≤ content.length
  · have hsix : ¬bytesAt content 0 6 = [0x7f, 0x45, 0x4c, 0x46, 2, 1] :=
      fun heq => h ⟨by omega, heq⟩
    rw [programInterpreter, readAt_eq_ok hsize hread, Checks.ok_bind,
      isElf64Le_bytesAt (by omega), Checks.ok_bind, decide_eq_false hsix]
    exact ⟨_, rfl⟩
  · obtain ⟨e, he⟩ := readAt_refused hread
    exact ⟨e, by rw [programInterpreter, he]; rfl⟩

end

/-- **The extraction is total and exact**: whatever the file holds, it ends without an
abort, with the path the file asks for, with nothing if it asks for none, and with an error
if it does neither. -/
theorem programInterpreter_exact (content : List UInt8) (hsize : content.length < 2 ^ 63) :
    programInterpreter content ≠ .error .panicked ∧
    (∀ p, programInterpreter content = .ok (some p) ↔ AsksFor content p) ∧
    (programInterpreter content = .ok none ↔ AsksForNone content) ∧
    ((∃ e, programInterpreter content = .error (.refused e)) ↔
      (∀ p, ¬AsksFor content p) ∧ ¬AsksForNone content) := by
  have hsome : ∀ p, programInterpreter content = .ok (some p) ↔ AsksFor content p := by
    intro p
    by_cases h : IsElf content
    · rw [programInterpreter_of_isElf hsize h, scanEntries_eq_some hsize]
      simp only [Nat.zero_add, AsksFor, and_iff_right h]
    · obtain ⟨e, he⟩ := programInterpreter_of_not_isElf hsize h
      rw [he]
      exact iff_of_false (by simp) fun ha => h ha.1
  have hnone : programInterpreter content = .ok none ↔ AsksForNone content := by
    by_cases h : IsElf content
    · rw [programInterpreter_of_isElf hsize h, scanEntries_eq_none hsize]
      simp only [Nat.zero_add, AsksForNone, and_iff_right h]
    · obtain ⟨e, he⟩ := programInterpreter_of_not_isElf hsize h
      rw [he]
      exact iff_of_false (by simp) fun ha => h ha.1
  have hpanic : programInterpreter content ≠ .error .panicked := by
    by_cases h : IsElf content
    · rw [programInterpreter_of_isElf hsize h]
      exact scanEntries_ne_panicked hsize 0 _
    · obtain ⟨e, he⟩ := programInterpreter_of_not_isElf hsize h
      rw [he]
      simp
  refine ⟨hpanic, hsome, hnone, ?_⟩
  simp only [← hsome, ← hnone]
  rcases hrun : programInterpreter content with (e | _) | (_ | p)
  · simp
  · exact absurd hrun hpanic
  · simp
  · simp

/-- An executable with one program header, which asks for `/ld.so`. -/
def tinyExecutable : List UInt8 :=
  [0x7f, 0x45, 0x4c, 0x46, 2, 1] ++ List.replicate 26 0 ++ toLe 8 64 ++ List.replicate 14 0 ++
    toLe 2 56 ++ toLe 2 1 ++ List.replicate 6 0 ++
    (toLe 4 3 ++ toLe 4 4 ++ toLe 8 120 ++ List.replicate 16 0 ++ toLe 8 8 ++
      List.replicate 16 0) ++ utf8 "/ld.so".toList ++ [0, 0]

theorem tinyExecutable_asks : programInterpreter tinyExecutable = .ok (some "/ld.so".toList) := by
  refine ((programInterpreter_exact tinyExecutable (by decide +kernel)).2.1 _).mpr ?_
  have hpath : (bytesAt tinyExecutable (entryOffset tinyExecutable 0)
      (entryFilesz tinyExecutable 0)).rdropWhile (· = 0) = utf8 "/ld.so".toList := by
    decide +kernel
  refine ⟨⟨by decide +kernel, by decide +kernel⟩, 0, by decide +kernel, fun j hj => ?_,
    fun j hj => absurd hj (Nat.not_lt_zero j), by decide +kernel, by decide +kernel,
    by decide +kernel, by decide +kernel, by rw [hpath, fromUtf8_utf8]⟩
  rw [Nat.le_zero.mp hj]
  unfold EntryReadable
  decide +kernel

end Iwaya
