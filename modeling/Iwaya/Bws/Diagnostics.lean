import Iwaya.Bws

/-!
# What an unreadable listing shows

A listing that cannot be read is reported with the JSON library's own message. That
message names a position and what was expected there, and, when a value of the wrong
type was found, the value itself, as far as it is a scalar. The output of `bws` carries
secret values, so two outputs that fail alike are told apart by their diagnostics exactly
when the scalars in the library's messages differ (`Iwaya.bwsJson_diagnostics`): a secret
stored as a number is enough.
-/

namespace Iwaya

open Text Effects

/-! ### Messages -/

/-- The class of an error: its message without the scalar of the document it shows, if it
shows one. -/
def ErrorCode.kind (code : ErrorCode) : Str × Bool × Str :=
  (code.pieces.1, code.pieces.2.1.isSome, code.pieces.2.2)

/-- The scalar of the document the message shows. -/
def ErrorCode.scalar (code : ErrorCode) : Option Str := code.pieces.2.1

/-- Two numbers found in one place are errors of one class. -/
theorem ErrorCode.kind_integer (m n : ℤ) (expected : Str) :
    (invalidType (.integer m) expected).kind = (invalidType (.integer n) expected).kind := rfl

/-- **Messages of one class differ in the scalar only.** -/
theorem ErrorCode.display_eq_iff {code code' : ErrorCode} (h : code.kind = code'.kind) :
    code.display = code'.display ↔ code.scalar = code'.scalar := by
  simp only [kind, Prod.mk.injEq] at h
  obtain ⟨hbefore, hsome, hafter⟩ := h
  -- the texts before and after the scalar are the same, so they cancel
  rw [display, display, hbefore, hafter, List.append_left_inj, List.append_right_inj, scalar,
    scalar]
  generalize code.pieces.2.1 = s, code'.pieces.2.1 = s' at hsome ⊢
  rcases s with _ | s <;> rcases s' with _ | s'
  · simp
  · cases hsome
  · cases hsome
  · simp

/-- At one position the texts of two errors are the same if the messages are. -/
theorem SerdeError.display_eq_iff {e e' : SerdeError} (hl : e.line = e'.line)
    (hc : e.column = e'.column) : e.display = e'.display ↔ e.code.display = e'.code.display := by
  rw [display, display, hl, hc, List.append_left_inj, List.append_left_inj, List.append_left_inj,
    List.append_left_inj]

/-! ### A secret stored as a number -/

/-- A listing with one secret, whose value is written without quotes. -/
def numericSecret (n : ℕ) : List UInt8 :=
  utf8 ("[\x7b\"key\":\"A\",\"value\":".toList ++ decimal n ++ "\x7d]".toList)

/-- What the library says about it: the position is the end of a number of five digits. -/
def numericError (n : ℕ) : SerdeError where
  code := .invalidType (.integer n) "a string".toList
  line := 1
  column := 25

/-- The library on the two listings below. -/
def numericFromSlice (stdout : List UInt8) : Except SerdeError (List BwsSecret) :=
  if stdout = numericSecret 12345 then .error (numericError 12345)
  else if stdout = numericSecret 54321 then .error (numericError 54321)
  else .ok []

/-- `bws` left this listing behind. -/
def numericOutput (n : ℕ) : Output where
  status := { code := some 0, signal := none, display := "exit status: 0".toList }
  stdout := numericSecret n
  stderr := []

def numericProvider : BwsProvider where
  id := "bws".toList
  project := "iwaya".toList
  accessToken := { program := "pass".toList, args := [] }

theorem numericFromSlice_12345 :
    numericFromSlice (numericSecret 12345) = .error (numericError 12345) := by
  rw [numericFromSlice, if_pos rfl]

theorem numericFromSlice_54321 :
    numericFromSlice (numericSecret 54321) = .error (numericError 54321) := by
  rw [numericFromSlice, if_neg (by decide), if_pos rfl]

/-! ### The diagnostic -/

theorem cliOutputUnreadable_display (provider action message message' : Str) :
    (ResolveError.cliOutputUnreadable provider action message).display =
      (ResolveError.cliOutputUnreadable provider action message').display ↔ message = message' :=
  List.append_right_inj _

section

variable {α : Type} {fromSlice : List UInt8 → Except SerdeError (List α)} {output output' : Output}
  {e e' : SerdeError}

/-- A listing that cannot be read. -/
theorem bwsJson_eq_fail {token : Str} {args : List Str}
    (hnul : (bwsCommand token args).sawNul = false) (hs : output.status.success = true)
    (he : fromSlice output.stdout = .error e)
    (provider : BwsProvider) (action : Str) :
    bwsJson (fun _ => .done (.ok output)) fromSlice provider token args action =
      .fail (.cliOutputUnreadable provider.id action e.display) := by
  have hout : bwsOutput fromSlice provider action output =
      .error (.cliOutputUnreadable provider.id action e.display) := by
    rw [bwsOutput, Checks.refuse, if_neg (by simp [hs]), he]
    rfl
  rw [bwsJson, spawning, hnul]
  change Prog.ofExcept (bwsOutput fromSlice provider action output) = _
  rw [hout]
  rfl

/-- **The diagnostics of two unreadable listings.** For every provider and action, and any
two outputs of a `bws` that succeeded which the library fails to read at the same line and
column: the diagnostics are the same exactly when the messages of the library are; and for
errors of one class that is exactly when the messages show the same scalar of the
document. -/
theorem bwsJson_diagnostics {token : Str} {args : List Str}
    (hnul : (bwsCommand token args).sawNul = false) (hs : output.status.success = true)
    (hs' : output'.status.success = true) (he : fromSlice output.stdout = .error e)
    (he' : fromSlice output'.stdout = .error e') (hline : e.line = e'.line)
    (hcolumn : e.column = e'.column) (provider : BwsProvider) (action : Str) :
    ∃ d d', bwsJson (fun _ => .done (.ok output)) fromSlice provider token args action = .fail d ∧
      bwsJson (fun _ => .done (.ok output')) fromSlice provider token args action = .fail d' ∧
      (d.display = d'.display ↔ e.code.display = e'.code.display) ∧
      (e.code.kind = e'.code.kind →
        (d.display = d'.display ↔ e.code.scalar = e'.code.scalar)) := by
  have hmessage := (cliOutputUnreadable_display provider.id action e.display e'.display).trans
    (SerdeError.display_eq_iff hline hcolumn)
  exact ⟨_, _, bwsJson_eq_fail hnul hs he provider action,
    bwsJson_eq_fail hnul hs' he' provider action, hmessage,
    fun hclass => hmessage.trans (ErrorCode.display_eq_iff hclass)⟩

end

theorem bwsJson_diagnostics_numbers : ∃ d d' : ResolveError,
    bwsJson (fun _ => .done (.ok (numericOutput 12345))) numericFromSlice numericProvider
      "token".toList [] "list secrets".toList = .fail d ∧
    bwsJson (fun _ => .done (.ok (numericOutput 54321))) numericFromSlice numericProvider
      "token".toList [] "list secrets".toList = .fail d' ∧
    (d.display = d'.display ↔
      (numericError 12345).code.scalar = (numericError 54321).code.scalar) := by
  have hnul : (bwsCommand "token".toList []).sawNul = false := rfl
  have hs : (numericOutput 12345).status.success = true := rfl
  have hs' : (numericOutput 54321).status.success = true := rfl
  have he : numericFromSlice (numericOutput 12345).stdout = .error (numericError 12345) :=
    numericFromSlice_12345
  have he' : numericFromSlice (numericOutput 54321).stdout = .error (numericError 54321) :=
    numericFromSlice_54321
  obtain ⟨d, d', h, h', -, hd⟩ := bwsJson_diagnostics hnul hs hs' he he' rfl rfl numericProvider
    "list secrets".toList
  exact ⟨d, d', h, h', hd (ErrorCode.kind_integer _ _ _)⟩

theorem bwsJson_diagnostics_numeric : ¬∀ (output output' : Output) (e e' : SerdeError)
    (d d' : ResolveError),
    output.status.success = true → output'.status.success = true →
    numericFromSlice output.stdout = .error e → numericFromSlice output'.stdout = .error e' →
    e.line = e'.line → e.column = e'.column → e.code.kind = e'.code.kind →
    bwsJson (fun _ => .done (.ok output)) numericFromSlice numericProvider "token".toList []
      "list secrets".toList = .fail d →
    bwsJson (fun _ => .done (.ok output')) numericFromSlice numericProvider "token".toList []
      "list secrets".toList = .fail d' →
    d.display = d'.display := by
  intro hall
  have h := hall (numericOutput 12345) (numericOutput 54321) (numericError 12345)
    (numericError 54321) _ _ rfl rfl numericFromSlice_12345 numericFromSlice_54321 rfl rfl
    (ErrorCode.kind_integer _ _ _)
    (bwsJson_eq_fail rfl rfl numericFromSlice_12345 _ _)
    (bwsJson_eq_fail rfl rfl numericFromSlice_54321 _ _)
  have htext : (numericError 12345).display = (numericError 54321).display :=
    (cliOutputUnreadable_display _ _ _ _).mp h
  have hline : (numericError 12345).line = (numericError 54321).line := rfl
  have hcolumn : (numericError 12345).column = (numericError 54321).column := rfl
  have hkind : (numericError 12345).code.kind = (numericError 54321).code.kind :=
    ErrorCode.kind_integer _ _ _
  have hscalar := (ErrorCode.display_eq_iff hkind).mp
    ((SerdeError.display_eq_iff hline hcolumn).mp htext)
  exact absurd hscalar (by decide)

end Iwaya
