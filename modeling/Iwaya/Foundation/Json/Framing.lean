import Iwaya.Foundation.Json.Syntax

/-!
# A document cut short is no document

A scanner reads a text left to right, knowing only whether it is inside a string
literal and how many brackets are open outside of them. Every text the grammar
derives is *balanced* for it (`Json.Derives.keeps`): read at any depth, the scanner
never drops below that depth and ends where it began. An object in its compact
rendering is at a positive depth strictly between its two braces, so a proper
prefix of it is derived by nothing (`Json.not_isText_of_prefix_obj`).
-/

namespace Json

open Text

/-! ### The scanner -/

/-- Where the scanner stands with respect to string literals. -/
inductive Mode where
  /-- Outside. -/
  | out
  /-- Inside. -/
  | str
  /-- Inside, just after a backslash. -/
  | esc
  deriving DecidableEq

/-- The scanner's state: the open brackets and the mode. -/
abbrev Scan := ℕ × Mode

/-- One character. -/
def scanStep : Scan → Char → Scan
  | (d, .out), c =>
    if c = '"' then (d, .str)
    else if c = '{' ∨ c = '[' then (d + 1, .out)
    else if c = '}' ∨ c = ']' then (d - 1, .out)
    else (d, .out)
  | (d, .str), c => if c = '"' then (d, .out) else if c = '\\' then (d, .esc) else (d, .str)
  | (d, .esc), _ => (d, .str)

/-- The state after a text. -/
def scan (st : Scan) (s : Str) : Scan := s.foldl scanStep st

@[simp] theorem scan_nil (st : Scan) : scan st [] = st := rfl

@[simp] theorem scan_cons (st : Scan) (c : Char) (s : Str) :
    scan st (c :: s) = scan (scanStep st c) s := rfl

@[simp] theorem scan_append (st : Scan) (s t : Str) : scan st (s ++ t) = scan (scan st s) t := by
  simp [scan]

/-! ### Balanced texts -/

/-- A prefix of a concatenation ends in its first half or runs into its second. -/
theorem prefix_append_cases {p s t : Str} (h : p <+: s ++ t) :
    p <+: s ∨ ∃ q, p = s ++ q ∧ q <+: t := by
  obtain ⟨r, hr⟩ := h
  rcases List.append_eq_append_iff.mp hr with ⟨q, rfl, -⟩ | ⟨q, rfl, rfl⟩
  · exact Or.inl (List.prefix_append p q)
  · exact Or.inr ⟨q, rfl, List.prefix_append q r⟩

/-- **Balanced**: from any depth, outside strings, the scanner comes back to that
depth outside strings, and never drops below it on the way. -/
def Keeps (s : Str) : Prop :=
  ∀ d, scan (d, .out) s = (d, .out) ∧ ∀ p, p <+: s → d ≤ (scan (d, .out) p).1

theorem keeps_nil : Keeps [] := fun d =>
  ⟨rfl, fun p hp => by rw [List.prefix_nil.mp hp]; exact Nat.le_refl d⟩

theorem Keeps.append {s t : Str} (hs : Keeps s) (ht : Keeps t) : Keeps (s ++ t) := by
  intro d
  refine ⟨by rw [scan_append, (hs d).1, (ht d).1], fun p hp => ?_⟩
  rcases prefix_append_cases hp with hin | ⟨q, rfl, hq⟩
  · exact (hs d).2 p hin
  · rw [scan_append, (hs d).1]
    exact (ht d).2 q hq

/-- A character that is neither a quote nor a bracket leaves the scanner alone. -/
theorem keeps_singleton {c : Char} (h : c ∉ ['"', '{', '[', '}', ']']) : Keeps [c] := by
  simp only [List.mem_cons, List.not_mem_nil, or_false, not_or] at h
  obtain ⟨h1, h2, h3, h4, h5⟩ := h
  intro d
  have hstep : scan (d, .out) [c] = (d, .out) := by simp [scanStep, h1, h2, h3, h4, h5]
  refine ⟨hstep, fun p hp => ?_⟩
  rcases List.prefix_cons_iff.mp hp with rfl | ⟨q, rfl, hq⟩
  · exact Nat.le_refl d
  · obtain rfl := List.prefix_nil.mp hq
    exact Nat.le_of_eq (congrArg Prod.fst hstep).symm

theorem keeps_of_forall {s : Str} (h : ∀ c ∈ s, c ∉ ['"', '{', '[', '}', ']']) : Keeps s := by
  induction s with
  | nil => exact keeps_nil
  | cons c s ih =>
    exact (keeps_singleton (h c List.mem_cons_self)).append
      (ih fun x hx => h x (List.mem_cons_of_mem _ hx))

theorem IsWs.keeps {w : Str} (h : IsWs w) : Keeps w := by
  refine keeps_of_forall fun c hc hm => ?_
  have hws := h c hc
  simp only [List.mem_cons, List.not_mem_nil, or_false] at hm
  rcases hm with rfl | rfl | rfl | rfl | rfl <;> exact absurd hws (by decide)

/-- From inside a string literal, at depth `d`, the scanner reads the whole of `s`
inside it and at that depth. -/
def Inside (d : ℕ) (s : Str) : Prop :=
  scan (d, .str) s = (d, .str) ∧ ∀ p, p <+: s → (scan (d, .str) p).1 = d

theorem Inside.nil (d : ℕ) : Inside d [] :=
  ⟨rfl, fun p hp => by rw [List.prefix_nil.mp hp]; rfl⟩

/-- One character that neither closes the literal nor escapes. -/
theorem Inside.cons {d : ℕ} {s : Str} (h : Inside d s) {c : Char} (hq : c ≠ '"') (hb : c ≠ '\\') :
    Inside d (c :: s) := by
  have hstep : scanStep (d, .str) c = (d, .str) := by simp [scanStep, hq, hb]
  refine ⟨by rw [scan_cons, hstep, h.1], fun p hp => ?_⟩
  rcases List.prefix_cons_iff.mp hp with rfl | ⟨q, rfl, hq'⟩
  · rfl
  · rw [scan_cons, hstep]
    exact h.2 q hq'

/-- One that is escaped, whatever it is. -/
theorem Inside.escape {d : ℕ} {s : Str} (h : Inside d s) (c : Char) :
    Inside d ('\\' :: c :: s) := by
  have hstep : ∀ t, scan (d, .str) ('\\' :: c :: t) = scan (d, .str) t := fun t => rfl
  refine ⟨by rw [hstep, h.1], fun p hp => ?_⟩
  rcases List.prefix_cons_iff.mp hp with rfl | ⟨q, rfl, hq⟩
  · rfl
  rcases List.prefix_cons_iff.mp hq with rfl | ⟨q', rfl, hq'⟩
  · rfl
  · rw [hstep]
    exact h.2 q' hq'

/-- The digits of a `\u` escape are hexadecimal. -/
theorem isSome_of_hex4 {a b c e : Char} {n : ℕ} (h : hex4 a b c e = some n) :
    ∀ x ∈ [a, b, c, e], (hexValue x).isSome = true := by
  rcases ha : hexValue a with _ | na
  · simp [hex4, ha] at h
  rcases hb : hexValue b with _ | nb
  · simp [hex4, ha, hb] at h
  rcases hc : hexValue c with _ | nc
  · simp [hex4, ha, hb, hc] at h
  rcases he : hexValue e with _ | ne
  · simp [hex4, ha, hb, hc, he] at h
  intro x hx
  simp only [List.mem_cons, List.not_mem_nil, or_false] at hx
  rcases hx with rfl | rfl | rfl | rfl <;> simp [*]

/-- A hexadecimal digit is neither a quote nor a backslash. -/
theorem Inside.hexDigit {d : ℕ} {s : Str} (h : Inside d s) {x : Char}
    (hx : (hexValue x).isSome = true) : Inside d (x :: s) := by
  refine h.cons ?_ ?_
  · rintro rfl
    exact absurd hx (by decide)
  · rintro rfl
    exact absurd hx (by decide)

/-- Inside a string literal the scanner stays inside, at its depth, until the
closing quote. -/
theorem IsChars.scan {s : Str} (h : IsChars s) (d : ℕ) : Inside d s := by
  induction h with
  | nil => exact .nil d
  | plain _ hq hb _ ih => exact ih.cons hq hb
  | escape _ _ ih => exact ih.escape _
  | @unicode a b c e n s hn _ ih =>
    have hhex := isSome_of_hex4 hn
    have he := ih.hexDigit (hhex e (by simp))
    have hc := he.hexDigit (hhex c (by simp))
    have hb := hc.hexDigit (hhex b (by simp))
    have ha := hb.hexDigit (hhex a (by simp))
    exact ha.escape 'u'

/-- A string literal is balanced. -/
theorem keeps_string {s : Str} (h : IsChars s) : Keeps ('"' :: (s ++ ['"'])) := by
  intro d
  have hs := h.scan d
  have hopen : ∀ t, scan (d, .out) ('"' :: t) = scan (d, .str) t := fun t => rfl
  refine ⟨by rw [hopen, scan_append, hs.1]; rfl, fun p hp => ?_⟩
  rcases List.prefix_cons_iff.mp hp with rfl | ⟨q, rfl, hq⟩
  · exact Nat.le_refl d
  rw [hopen]
  rcases prefix_append_cases hq with hin | ⟨q', rfl, hq'⟩
  · exact Nat.le_of_eq (hs.2 q hin).symm
  · rw [scan_append, hs.1]
    rcases List.prefix_cons_iff.mp hq' with rfl | ⟨q'', rfl, hnil⟩
    · exact Nat.le_refl d
    · rw [List.prefix_nil.mp hnil]
      exact Nat.le_refl d

/-- What the scanner does between two brackets: one deeper, on every prefix that
has passed the first and not the last. -/
theorem Keeps.inside {s : Str} (h : Keeps s) {o : Char} (ho : o = '{' ∨ o = '[') (d : ℕ) {p : Str}
    (hp : p <+: s) : d + 1 ≤ (scan (d, .out) (o :: p)).1 := by
  have hopen : scanStep (d, .out) o = (d + 1, .out) := by
    rcases ho with rfl | rfl <;> rfl
  rw [scan_cons, hopen]
  exact (h (d + 1)).2 p hp

/-- A bracketed balanced text is balanced. -/
theorem Keeps.bracket {s : Str} (h : Keeps s) {o c : Char} (ho : o = '{' ∨ o = '[')
    (hc : c = '}' ∨ c = ']') : Keeps (o :: (s ++ [c])) := by
  intro d
  have hopen : scanStep (d, .out) o = (d + 1, .out) := by
    rcases ho with rfl | rfl <;> rfl
  have hclose : scanStep (d + 1, .out) c = (d, .out) := by
    rcases hc with rfl | rfl <;> rfl
  have hall : scan (d, .out) (o :: (s ++ [c])) = (d, .out) := by
    rw [scan_cons, hopen, scan_append, (h (d + 1)).1, scan_cons, hclose, scan_nil]
  refine ⟨hall, fun p hp => ?_⟩
  rcases List.prefix_cons_iff.mp hp with rfl | ⟨q, rfl, hq⟩
  · exact Nat.le_refl d
  rcases List.prefix_concat_iff.mp (by simpa using hq) with rfl | hq
  · exact Nat.le_of_eq (congrArg Prod.fst hall).symm
  · exact Nat.le_trans (Nat.le_succ d) (h.inside ho d hq)

theorem isNumChar_of_isNumeral {s : Str} (h : isNumeral s = true) :
    ∀ c ∈ s, isNumChar c = true := by
  simp only [isNumeral, Bool.and_eq_true, List.all_eq_true] at h
  exact h.1.1

theorem ne_nil_of_isNumeral {s : Str} (h : isNumeral s = true) : s ≠ [] := by
  rintro rfl
  exact absurd h (by decide)

theorem keeps_numeral {s : Str} (h : isNumeral s = true) : Keeps s := by
  refine keeps_of_forall fun c hc hm => ?_
  have hn := isNumChar_of_isNumeral h c hc
  simp only [List.mem_cons, List.not_mem_nil, or_false] at hm
  rcases hm with rfl | rfl | rfl | rfl | rfl <;> exact absurd hn (by decide)

/-- **Everything the grammar derives is balanced**, one production at a time. -/
theorem Derives.keeps {nt : Nonterminal} {s : Str} (h : Derives nt s) : Keeps s := by
  have hcomma : Keeps [','] := keeps_singleton (by decide)
  have hcolon : Keeps [':'] := keeps_singleton (by decide)
  induction h with
  | literal h =>
    rcases h with rfl | rfl | rfl <;> exact keeps_of_forall (by simp)
  | number h => exact keeps_numeral h
  | string h => exact keeps_string h
  | emptyArray h => exact h.keeps.bracket (Or.inr rfl) (Or.inr rfl)
  | array _ ih => exact ih.bracket (Or.inr rfl) (Or.inr rfl)
  | emptyObject h => exact h.keeps.bracket (Or.inl rfl) (Or.inl rfl)
  | object _ ih => exact ih.bracket (Or.inl rfl) (Or.inl rfl)
  | element hw _ hw' ih => exact (hw.keeps.append ih).append hw'.keeps
  | elements hw _ hw' _ ihv ihs =>
    exact ((hw.keeps.append ihv).append hw'.keeps).append (hcomma.append ihs)
  | member hw hk hw₁ hw₂ _ hw' ih =>
    -- the parts of the production, in the order they are written
    have := hw.keeps.append ((keeps_string hk).append (hw₁.keeps.append (hcolon.append
      ((hw₂.keeps.append ih).append hw'.keeps))))
    simpa using this
  | members hw hk hw₁ hw₂ _ hw' _ ihv ihs =>
    have := hw.keeps.append ((keeps_string hk).append (hw₁.keeps.append (hcolon.append
      (((hw₂.keeps.append ihv).append hw'.keeps).append (hcomma.append ihs)))))
    simpa using this

theorem Derives.value_ne_nil {s : Str} (h : Derives .value s) : s ≠ [] := by
  cases h with
  | literal h => rcases h with rfl | rfl | rfl <;> decide
  | number h => exact ne_nil_of_isNumeral h
  | _ => simp

/-- **A JSON text is balanced.** -/
theorem IsText.keeps {s : Str} (h : IsText s) : Keeps s := by
  obtain ⟨w, v, w', rfl, hw, hv, hw'⟩ := h
  exact (hw.keeps.append hv.keeps).append hw'.keeps

theorem IsText.ne_nil {s : Str} (h : IsText s) : s ≠ [] := by
  obtain ⟨w, v, w', rfl, hw, hv, hw'⟩ := h
  have := hv.value_ne_nil
  simp [this]

/-- A value that begins with a brace is a braced balanced text. -/
theorem Derives.braced {t s : Str} (h : Derives .value t) (ht : t = '{' :: s) :
    ∃ b, t = '{' :: (b ++ ['}']) ∧ Keeps b := by
  generalize hnt : Nonterminal.value = nt at h
  cases h <;> cases hnt
  case literal hl =>
    subst ht
    exact absurd hl (by simp)
  case number hn =>
    have hc := isNumChar_of_isNumeral hn '{' (by simp [ht])
    exact absurd hc (by decide)
  case emptyObject w hw => exact ⟨w, rfl, hw.keeps⟩
  case object b hb => exact ⟨b, rfl, hb.keeps⟩
  all_goals exact absurd (List.cons.inj ht).1 (by decide)

/-- **No proper prefix of a braced balanced text is a JSON text**: past the first
brace and before the last one a bracket is open, and a text leaves none open. -/
theorem not_isText_of_prefix {s p : Str} (hs : Keeps s) (hp : p <+: '{' :: (s ++ ['}']))
    (hne : p ≠ '{' :: (s ++ ['}'])) : ¬IsText p := by
  intro ht
  rcases List.prefix_cons_iff.mp hp with rfl | ⟨q, rfl, hq⟩
  · exact ht.ne_nil rfl
  rcases List.prefix_concat_iff.mp (by simpa using hq) with rfl | hq
  · exact hne (by simp)
  · -- the outer brace is still open, but a text ends at depth 0
    have hin := hs.inside (Or.inl rfl) 0 hq
    rw [(ht.keeps 0).1] at hin
    exact absurd hin (by decide)

end Json
