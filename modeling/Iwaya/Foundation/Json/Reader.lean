import Mathlib.Data.List.TakeWhile
import Iwaya.Foundation.Json.Framing

/-!
# The reader against the grammar and the writer

Two directions. What the reader accepts is a text of the grammar
(`Json.isText_of_parse`); and it reads back whatever the compact writer wrote,
with any insignificant white space after it (`Json.parse_render_append`). The
second needs nothing of the strings inside the value: every character is either
written as it is or as an escape that denotes it (`Json.unescape_escapes`).
-/

namespace Json

open Text

/-! ### White space -/

/-- What was skipped is white space, and nothing else was lost. -/
theorem eq_ws_append {s t : Str} (h : skipWs s = t) : ∃ w, IsWs w ∧ s = w ++ t :=
  ⟨s.takeWhile isWs, fun _ hc => List.mem_takeWhile_imp hc, by
    rw [← h]
    exact List.takeWhile_append_dropWhile.symm⟩

theorem skipWs_of_isWs {w : Str} (h : IsWs w) : skipWs w = [] := by
  induction w with
  | nil => rfl
  | cons c w ih =>
    rw [skipWs, List.dropWhile_cons_of_pos (h c List.mem_cons_self)]
    exact ih fun x hx => h x (List.mem_cons_of_mem _ hx)

theorem isWs_of_skipWs {s : Str} (h : skipWs s = []) : IsWs s := by
  obtain ⟨w, hw, rfl⟩ := eq_ws_append h
  simpa using hw

theorem skipWs_cons {c : Char} (h : isWs c = false) (s : Str) : skipWs (c :: s) = c :: s :=
  List.dropWhile_cons_of_neg (by simp [h])

theorem IsWs.append {v w : Str} (hv : IsWs v) (hw : IsWs w) : IsWs (v ++ w) := by
  intro c hc
  rcases List.mem_append.mp hc with h | h
  · exact hv c h
  · exact hw c h

/-! ### What the reader accepts -/

theorem consChar_eq_some {c : Char} {o : Option (Str × Str)} {t r : Str} :
    consChar c o = some (t, r) ↔ ∃ t', o = some (t', r) ∧ t = c :: t' := by
  rcases o with _ | ⟨t', r'⟩
  · simp [consChar]
  · simp only [consChar, Option.map_some, Option.some.injEq, Prod.mk.injEq]
    constructor
    · rintro ⟨rfl, rfl⟩
      exact ⟨t', ⟨rfl, rfl⟩, rfl⟩
    · rintro ⟨_, ⟨rfl, rfl⟩, rfl⟩
      exact ⟨rfl, rfl⟩

/-- What is read as the inside of a literal is one, up to the closing quote. -/
theorem isChars_of_unescape {s t r : Str} (h : unescape s = some (t, r)) :
    ∃ b, s = b ++ '"' :: r ∧ IsChars b := by
  fun_induction unescape s generalizing t with
  | case1 => simp at h
  | case2 r' =>
    obtain ⟨-, rfl⟩ : [] = t ∧ r' = r := by simpa using h
    exact ⟨[], rfl, .nil⟩
  | case3 => simp at h
  | case4 => simp at h
  | case5 n a b c d hn _ a' b' c' d' r' m hm _ ih =>
    -- a surrogate pair is two escapes of the grammar
    obtain ⟨t', ht, -⟩ := consChar_eq_some.mp h
    obtain ⟨u, rfl, hu⟩ := ih ht
    exact ⟨_, rfl, .unicode hn (.unicode hm hu)⟩
  | case6 => simp at h
  | case7 => simp at h
  | case8 => simp at h
  | case9 a b c d r' n hn _ _ ih =>
    obtain ⟨t', ht, -⟩ := consChar_eq_some.mp h
    obtain ⟨u, rfl, hu⟩ := ih ht
    exact ⟨_, rfl, .unicode hn hu⟩
  | case10 => simp at h
  | case11 c r' _ d hd ih =>
    obtain ⟨t', ht, -⟩ := consChar_eq_some.mp h
    obtain ⟨u, rfl, hu⟩ := ih ht
    exact ⟨_, rfl, .escape hd hu⟩
  | case12 => simp at h
  | case13 c r' hq _ _ hc ih =>
    obtain ⟨t', ht, -⟩ := consChar_eq_some.mp h
    obtain ⟨u, rfl, hu⟩ := ih ht
    rw [not_or] at hc
    exact ⟨c :: u, rfl, .plain (by omega) (fun he => hq he) hc.2 hu⟩

theorem isNumeral_of_number {s r : Str} {v : Value} (h : number s = some (v, r)) :
    ∃ t, s = t ++ r ∧ isNumeral t = true := by
  simp only [number, Option.ite_none_right_eq_some, Option.some.injEq, Prod.mk.injEq] at h
  obtain ⟨hn, -, rfl⟩ := h
  exact ⟨_, List.takeWhile_append_dropWhile.symm, hn⟩

/-- White space before the elements belongs to the first of them. -/
theorem Derives.elements_skipWs {w t : Str} (hw : IsWs w) (h : Derives .elements t) :
    Derives .elements (w ++ t) := by
  generalize hnt : Nonterminal.elements = nt at h
  cases h <;> cases hnt
  case element w' v w'' hw' hv hw'' =>
    have := Derives.element (hw.append hw') hv hw''
    simpa using this
  case elements w' v w'' s hw' hv hw'' hs =>
    have := Derives.elements (hw.append hw') hv hw'' hs
    simpa using this

/-- White space before the members belongs to the first of them. -/
theorem Derives.members_skipWs {w t : Str} (hw : IsWs w) (h : Derives .members t) :
    Derives .members (w ++ t) := by
  generalize hnt : Nonterminal.members = nt at h
  cases h <;> cases hnt
  case member w' k w₁ w₂ v w'' hw' hk hw₁ hw₂ hv hw'' =>
    have := Derives.member (hw.append hw') hk hw₁ hw₂ hv hw''
    simpa using this
  case members w' k w₁ w₂ v w'' s hw' hk hw₁ hw₂ hv hw'' hs =>
    have := Derives.members (hw.append hw') hk hw₁ hw₂ hv hw'' hs
    simpa using this

/-- One of the three words, read after its first letter. -/
theorem derives_word {c : Char} {word r : Str} {v v' : Value} {r' : Str}
    (hword : c :: word ∈ ["null".toList, "true".toList, "false".toList])
    (h : ((stripPrefix word r).map fun r => (v', r)) = some (v, r')) :
    ∃ t, c :: r = t ++ r' ∧ Derives .value t := by
  obtain ⟨r'', hr, he⟩ := Option.map_eq_some_iff.mp h
  obtain ⟨-, rfl⟩ := Prod.mk.inj he
  exact ⟨c :: word, by rw [stripPrefix_eq_some.mp hr]; rfl, .literal (by simpa using hword)⟩

section Step

/-! One nested step more, for each of the three readers. -/

variable {n : ℕ}

theorem derives_value_succ
    (ihe : ∀ s vs r, elements n s = some (vs, r) → ∃ t, s = t ++ ']' :: r ∧ Derives .elements t)
    (ihm : ∀ s ms r, members n s = some (ms, r) → ∃ t, s = t ++ '}' :: r ∧ Derives .members t)
    {s : Str} {v : Value} {r : Str} (h : value (n + 1) s = some (v, r)) :
    ∃ t, s = t ++ r ∧ Derives .value t := by
  -- the cases follow the first character
  unfold value at h
  split at h
  · -- a string literal
    obtain ⟨⟨t, r'⟩, hu, he⟩ := Option.map_eq_some_iff.mp h
    obtain ⟨-, rfl⟩ := Prod.mk.inj he
    obtain ⟨b, rfl, hb⟩ := isChars_of_unescape hu
    exact ⟨'"' :: (b ++ ['"']), by simp, .string hb⟩
  · -- an array
    split at h
    · rename_i r' hr'
      obtain ⟨-, rfl⟩ := Prod.mk.inj (Option.some.inj h)
      obtain ⟨w, hw, rfl⟩ := eq_ws_append hr'
      exact ⟨'[' :: (w ++ [']']), by simp, .emptyArray hw⟩
    · obtain ⟨⟨vs, r'⟩, he, hr⟩ := Option.map_eq_some_iff.mp h
      obtain ⟨-, rfl⟩ := Prod.mk.inj hr
      obtain ⟨t, ht, hd⟩ := ihe _ _ _ he
      obtain ⟨w, hw, rfl⟩ := eq_ws_append ht
      exact ⟨'[' :: (w ++ t ++ [']']), by simp, .array (hd.elements_skipWs hw)⟩
  · -- an object
    split at h
    · rename_i r' hr'
      obtain ⟨-, rfl⟩ := Prod.mk.inj (Option.some.inj h)
      obtain ⟨w, hw, rfl⟩ := eq_ws_append hr'
      exact ⟨'{' :: (w ++ ['}']), by simp, .emptyObject hw⟩
    · obtain ⟨⟨ms, r'⟩, he, hr⟩ := Option.map_eq_some_iff.mp h
      obtain ⟨-, rfl⟩ := Prod.mk.inj hr
      obtain ⟨t, ht, hd⟩ := ihm _ _ _ he
      obtain ⟨w, hw, rfl⟩ := eq_ws_append ht
      exact ⟨'{' :: (w ++ t ++ ['}']), by simp, .object (hd.members_skipWs hw)⟩
  · exact derives_word (by decide) h
  · exact derives_word (by decide) h
  · exact derives_word (by decide) h
  · obtain ⟨t, rfl, ht⟩ := isNumeral_of_number h
    exact ⟨t, rfl, .number ht⟩

variable (ihv : ∀ s v r, value n s = some (v, r) → ∃ t, s = t ++ r ∧ Derives .value t)
include ihv

theorem derives_elements_succ
    (ihe : ∀ s vs r, elements n s = some (vs, r) → ∃ t, s = t ++ ']' :: r ∧ Derives .elements t)
    {s : Str} {vs : List Value} {r : Str} (h : elements (n + 1) s = some (vs, r)) :
    ∃ t, s = t ++ ']' :: r ∧ Derives .elements t := by
  unfold elements at h
  split at h
  · simp at h
  rename_i v r₁ hv
  obtain ⟨t, rfl, ht⟩ := ihv _ _ _ hv
  split at h
  · -- the last element
    rename_i r' hr'
    obtain ⟨-, rfl⟩ := Prod.mk.inj (Option.some.inj h)
    obtain ⟨w, hw, rfl⟩ := eq_ws_append hr'
    exact ⟨[] ++ t ++ w, by simp, .element (by simp [IsWs]) ht hw⟩
  · rename_i r' hr'
    obtain ⟨⟨vs', r''⟩, he, hr⟩ := Option.map_eq_some_iff.mp h
    obtain ⟨-, rfl⟩ := Prod.mk.inj hr
    obtain ⟨u, hu, hd⟩ := ihe _ _ _ he
    obtain ⟨w', hw', rfl⟩ := eq_ws_append hu
    obtain ⟨w, hw, rfl⟩ := eq_ws_append hr'
    exact ⟨[] ++ t ++ w ++ ',' :: (w' ++ u), by simp,
      .elements (by simp [IsWs]) ht hw (hd.elements_skipWs hw')⟩
  · simp at h

theorem derives_members_succ
    (ihm : ∀ s ms r, members n s = some (ms, r) → ∃ t, s = t ++ '}' :: r ∧ Derives .members t)
    {s : Str} {ms : List (Str × Value)} {r : Str} (h : members (n + 1) s = some (ms, r)) :
    ∃ t, s = t ++ '}' :: r ∧ Derives .members t := by
  unfold members at h
  split at h
  · rename_i s
    split at h
    · simp at h
    rename_i k r₀ hk
    obtain ⟨b, rfl, hb⟩ := isChars_of_unescape hk
    split at h
    · rename_i r₁ hr₁
      split at h
      · simp at h
      rename_i v r₃ hv
      obtain ⟨t, ht, hd⟩ := ihv _ _ _ hv
      obtain ⟨w₁, hw₁, rfl⟩ := eq_ws_append hr₁
      split at h
      · -- the last member
        rename_i r₄ hr₄
        obtain ⟨-, rfl⟩ := Prod.mk.inj (Option.some.inj h)
        obtain ⟨w₃, hw₃, rfl⟩ := eq_ws_append hr₄
        obtain ⟨w₂, hw₂, rfl⟩ := eq_ws_append ht
        exact ⟨_, by simp, .member (w := []) (by simp [IsWs]) hb hw₁ hw₂ hd hw₃⟩
      · rename_i r₄ hr₄
        obtain ⟨⟨ms', r₅⟩, he, hr⟩ := Option.map_eq_some_iff.mp h
        obtain ⟨-, rfl⟩ := Prod.mk.inj hr
        obtain ⟨u, hu, hds⟩ := ihm _ _ _ he
        obtain ⟨w₄, hw₄, rfl⟩ := eq_ws_append hu
        obtain ⟨w₃, hw₃, rfl⟩ := eq_ws_append hr₄
        obtain ⟨w₂, hw₂, rfl⟩ := eq_ws_append ht
        exact ⟨_, by simp, .members (w := []) (by simp [IsWs]) hb hw₁ hw₂ hd hw₃
          (hds.members_skipWs hw₄)⟩
      · simp at h
    · simp at h
  · simp at h

end Step

/-- **What the reader consumes, the grammar derives.** The induction is on the
number of nested steps, for the three readers at once. -/
theorem derives_of_read (n : ℕ) :
    (∀ s v r, value n s = some (v, r) → ∃ t, s = t ++ r ∧ Derives .value t) ∧
      (∀ s vs r, elements n s = some (vs, r) → ∃ t, s = t ++ ']' :: r ∧ Derives .elements t) ∧
      ∀ s ms r, members n s = some (ms, r) → ∃ t, s = t ++ '}' :: r ∧ Derives .members t := by
  induction n with
  | zero => exact ⟨fun s v r h => by simp [value] at h, fun s vs r h => by simp [elements] at h,
      fun s ms r h => by simp [members] at h⟩
  | succ n ih =>
    obtain ⟨ihv, ihe, ihm⟩ := ih
    exact ⟨fun _ _ _ h => derives_value_succ ihe ihm h,
      fun _ _ _ h => derives_elements_succ ihv ihe h,
      fun _ _ _ h => derives_members_succ ihv ihm h⟩

/-- **The reader accepts JSON texts only.** -/
theorem isText_of_parse {s : Str} {v : Value} (h : parse s = some v) : IsText s := by
  rw [parse] at h
  split at h
  · rename_i v' r hv
    split at h
    · rename_i hr
      obtain ⟨t, ht, hd⟩ := (derives_of_read _).1 _ _ _ hv
      obtain ⟨w, hw, rfl⟩ := eq_ws_append ht
      exact ⟨w, t, r, by simp, hw, hd, isWs_of_skipWs hr⟩
    · simp at h
  · simp at h

/-! ### Reading back what was written -/

theorem hexValue_digitChar : ∀ n < 16, hexValue n.digitChar = some n := by
  decide

/-- **One character**, escaped or not, is read back. -/
theorem unescape_escape (c : Char) (r : Str) :
    unescape (escape c ++ r) = consChar c (unescape r) := by
  unfold escape
  split_ifs with h1 h2 h3 h4 h5 h6 h7 h8
  · subst h1
    rfl
  · subst h2
    rfl
  · subst h3
    rfl
  · subst h4
    rfl
  · subst h5
    rfl
  · subst h6
    rfl
  · subst h7
    rfl
  · -- the remaining control characters, as four hexadecimal digits
    have hx : hex4 '0' '0' (c.toNat / 16).digitChar (c.toNat % 16).digitChar = some c.toNat := by
      have h0 : hexValue '0' = some 0 := by decide
      simp only [hex4, h0, hexValue_digitChar (c.toNat / 16) (by omega),
        hexValue_digitChar (c.toNat % 16) (by omega), Option.bind_eq_bind, Option.bind_some,
        Option.pure_def, Option.some.injEq]
      omega
    have hlo : ¬(0xd800 ≤ c.toNat ∧ c.toNat < 0xdc00) := by omega
    have hhi : ¬(0xdc00 ≤ c.toNat ∧ c.toNat < 0xe000) := by omega
    simp only [List.cons_append, List.nil_append, unescape, hx, if_neg hlo, if_neg hhi,
      Char.ofNat_toNat]
  · -- everything else stands for itself
    rw [List.singleton_append]
    conv_lhs => unfold unescape
    split
    · simp_all
    · simp_all
    · simp_all
    · simp_all
    · rename_i c' r' _ _ _ he
      obtain ⟨rfl, rfl⟩ := List.cons.inj he
      rw [if_neg (by simp [h2, h8])]

/-- **A string literal** is read back. -/
theorem unescape_escapes (s r : Str) : unescape (escapes s ++ '"' :: r) = some (s, r) := by
  induction s with
  | nil => rfl
  | cons c s ih =>
    rw [escapes, List.flatMap_cons, List.append_assoc, unescape_escape]
    rw [escapes] at ih
    rw [ih]
    rfl

mutual

/-- The nested steps reading a value takes. -/
def size : Value → ℕ
  | .arr vs => 1 + sizeElements vs
  | .obj ms => 1 + sizeMembers ms
  | _ => 1

/-- The nested steps reading the elements of an array takes. -/
def sizeElements : List Value → ℕ
  | [] => 0
  | v :: vs => 1 + size v + sizeElements vs

/-- The nested steps reading the members of an object takes. -/
def sizeMembers : List (Str × Value) → ℕ
  | [] => 0
  | (_, v) :: ms => 1 + size v + sizeMembers ms

end

mutual

/-- Every number of a value is spelt as a number. -/
def Spelt : Value → Prop
  | .num lexeme => isNumeral lexeme = true
  | .arr vs => SpeltElements vs
  | .obj ms => SpeltMembers ms
  | _ => True

/-- The same of the elements of an array. -/
def SpeltElements : List Value → Prop
  | [] => True
  | v :: vs => Spelt v ∧ SpeltElements vs

/-- The same of the members of an object. -/
def SpeltMembers : List (Str × Value) → Prop
  | [] => True
  | (_, v) :: ms => Spelt v ∧ SpeltMembers ms

end

/-- What follows a number does not prolong it. -/
def NoNum (r : Str) : Prop := ∀ c t, r = c :: t → isNumChar c = false

theorem noNum_cons {c : Char} {r : Str} (h : isNumChar c = false) : NoNum (c :: r) := by
  intro c' t he
  obtain ⟨rfl, -⟩ := List.cons.inj he
  exact h

/-- A number is read back up to where it ends. -/
theorem number_append {s r : Str} (h : isNumeral s = true) (hr : NoNum r) :
    number (s ++ r) = some (.num s, r) := by
  have hs := isNumChar_of_isNumeral h
  have h1 : (s ++ r).takeWhile isNumChar = s ∧ (s ++ r).dropWhile isNumChar = r := by
    rw [List.takeWhile_append_of_pos hs, List.dropWhile_append_of_pos hs]
    cases r with
    | nil => simp
    | cons c r =>
      have hc : ¬isNumChar c = true := by simp [hr c r rfl]
      rw [List.takeWhile_cons_of_neg hc, List.dropWhile_cons_of_neg hc]
      simp
  simp [number, h1, h]

/-- The digits of a number, the first of which is no zero unless it is the only one. -/
theorem exists_decimal_eq (n : ℕ) : ∃ c s, decimal n = c :: s ∧ (c = '0' → n = 0) := by
  induction n using Nat.strongRecOn with
  | ind n ih =>
    by_cases hn : n < 10
    · refine ⟨n.digitChar, [], Nat.toDigits_of_lt_base hn, ?_⟩
      have hall : ∀ m < 10, Nat.digitChar m = '0' → m = 0 := by decide
      exact hall n hn
    · obtain ⟨c, s, hc, h0⟩ := ih (n / 10) (by omega)
      have heq : decimal n = decimal (n / 10) ++ [Nat.digitChar (n % 10)] :=
        Nat.toDigits_of_base_le (by omega) (by omega)
      refine ⟨c, s ++ [Nat.digitChar (n % 10)], by rw [heq, hc, List.cons_append], fun hz => ?_⟩
      have hdiv := h0 hz
      omega

/-- A decimal rendering spells a number. -/
theorem isNumeral_decimal (n : ℕ) : isNumeral (decimal n) = true := by
  have hdigits : ∀ c ∈ decimal n, c.isDigit = true :=
    fun c hc => Nat.isDigit_of_mem_toDigits (by omega) (by omega) hc
  have hrest : intPart (decimal n) = some [] := by
    by_cases hn : n = 0
    · rw [hn]
      rfl
    obtain ⟨c, s, hc, h0⟩ := exists_decimal_eq n
    rw [hc] at hdigits ⊢
    have hzero : c ≠ '0' := fun h => hn (h0 h)
    have hdrop : s.dropWhile Char.isDigit = [] :=
      List.dropWhile_eq_nil_iff.mpr fun x hx => hdigits x (List.mem_cons_of_mem c hx)
    rw [intPart, digits1, if_pos (hdigits c List.mem_cons_self), hdrop]
    exact fun r hr => hzero (List.cons.inj hr).1
  have hminus : stripPrefix ['-'] (decimal n) = none := by
    refine Option.eq_none_iff_forall_ne_some.mpr fun t ht => ?_
    have hmem := hdigits '-' (stripPrefix_eq_some.mp ht ▸ List.mem_cons_self)
    cases hmem
  obtain ⟨c, s, hc, -⟩ := exists_decimal_eq n
  simp only [isNumeral, hminus, Option.getD_none, hrest, Bool.and_eq_true, List.all_eq_true,
    Bool.not_eq_true']
  refine ⟨⟨fun x hx => ?_, by rw [hc]; rfl⟩, rfl⟩
  rw [isNumChar, hdigits x hx]
  rfl

/-- A written value begins with a character that is no white space and closes
nothing. -/
theorem render_head {v : Value} (h : Spelt v) :
    ∃ c t, render v = c :: t ∧ isWs c = false ∧ c ≠ ']' := by
  cases v with
  | null => exact ⟨'n', "ull".toList, by simp [render], by decide, by decide⟩
  | bool b =>
    cases b
    · exact ⟨'f', "alse".toList, by simp [render], by decide, by decide⟩
    · exact ⟨'t', "rue".toList, by simp [render], by decide, by decide⟩
  | num s =>
    have hs : isNumeral s = true := by simpa [Spelt] using h
    rcases s with _ | ⟨c, t⟩
    · exact absurd rfl (ne_nil_of_isNumeral hs)
    · have hc := isNumChar_of_isNumeral hs c List.mem_cons_self
      refine ⟨c, t, by simp [render], ?_, ?_⟩
      · by_contra hw
        simp only [isWs, Bool.not_eq_false, Bool.or_eq_true, beq_iff_eq] at hw
        rcases hw with ((rfl | rfl) | rfl) | rfl <;> exact absurd hc (by decide)
      · rintro rfl
        exact absurd hc (by decide)
  | str s => exact ⟨'"', _, by simp only [render, quote]; rfl, by decide, by decide⟩
  | arr vs =>
    cases vs
    · exact ⟨'[', [']'], by simp [render], by decide, by decide⟩
    · exact ⟨'[', _, by simp only [render]; rfl, by decide, by decide⟩
  | obj ms =>
    rcases ms with _ | ⟨⟨k, v⟩, ms⟩
    · exact ⟨'{', ['}'], by simp [render], by decide, by decide⟩
    · exact ⟨'{', _, by simp only [render]; rfl, by decide, by decide⟩

theorem skipWs_render {v : Value} (h : Spelt v) (r : Str) :
    skipWs (render v ++ r) = render v ++ r := by
  obtain ⟨c, t, hct, hc, -⟩ := render_head h
  rw [hct, List.cons_append, skipWs_cons hc]

mutual

/-- **A written value is read back**, given enough nested steps. -/
theorem value_render : ∀ (v : Value) (n : ℕ) (r : Str), Spelt v → size v ≤ n → NoNum r →
    value n (render v ++ r) = some (v, r)
  | v, 0, _, _, hn, _ => by cases v <;> simp [size] at hn
  | .null, n + 1, r, _, _, _ => by simp [render, value, stripPrefix_eq_some.mpr]
  | .bool true, n + 1, r, _, _, _ => by simp [render, value, stripPrefix_eq_some.mpr]
  | .bool false, n + 1, r, _, _, _ => by simp [render, value, stripPrefix_eq_some.mpr]
  | .num s, n + 1, r, hv, _, hr => by
    have hs : isNumeral s = true := by simpa [Spelt] using hv
    have hnum := number_append hs hr
    rcases s with _ | ⟨c, t⟩
    · exact absurd rfl (ne_nil_of_isNumeral hs)
    have hc := isNumChar_of_isNumeral hs c List.mem_cons_self
    rw [render]
    unfold value
    split
    all_goals first
      | exact hnum
      | (rename_i he
         obtain ⟨rfl, -⟩ := List.cons.inj he
         exact absurd hc (by decide))
  | .str s, n + 1, r, _, _, _ => by
    simp [render, quote, value, unescape_escapes]
  | .arr [], n + 1, r, _, _, _ => by
    have : skipWs (']' :: r) = ']' :: r := skipWs_cons (by decide) r
    simp [render, value, this]
  | .arr (v :: vs), n + 1, r, hv, hn, hr => by
    simp only [Spelt, SpeltElements] at hv
    simp only [size] at hn
    have he := elements_render v vs n r hv.1 hv.2 (by omega)
    have hw := skipWs_render hv.1 (renderElements vs ++ r)
    obtain ⟨c, t, hct, -, hc⟩ := render_head hv.1
    simp only [render, List.cons_append, List.append_assoc, value, hw]
    rw [hct, List.cons_append] at he ⊢
    split
    · rename_i hcon
      exact absurd (List.cons.inj hcon).1 hc
    · rw [he]
      rfl
  | .obj [], n + 1, r, _, _, _ => by
    have : skipWs ('}' :: r) = '}' :: r := skipWs_cons (by decide) r
    simp [render, value, this]
  | .obj ((k, v) :: ms), n + 1, r, hv, hn, hr => by
    simp only [Spelt, SpeltMembers] at hv
    simp only [size] at hn
    have hm := members_render k v ms n r hv.1 hv.2 (by omega)
    have hq : ∀ t, skipWs ('"' :: t) = '"' :: t := fun t => skipWs_cons (by decide) t
    simp only [render, quote, List.cons_append, List.append_assoc, List.nil_append, value, hq]
    simp only [quote, List.cons_append, List.append_assoc, List.nil_append] at hm
    split
    · rename_i hcon
      exact absurd (List.cons.inj hcon).1 (by decide)
    · rw [hm]
      rfl

/-- The written elements of an array are read back. -/
theorem elements_render : ∀ (v : Value) (vs : List Value) (n : ℕ) (r : Str), Spelt v →
    SpeltElements vs → sizeElements (v :: vs) ≤ n →
    elements n (render v ++ (renderElements vs ++ r)) = some (v :: vs, r)
  | v, vs, 0, _, _, _, hn => by simp [sizeElements] at hn
  | v, [], n + 1, r, hv, _, hn => by
    simp only [sizeElements] at hn
    have h := value_render v n (']' :: r) hv (by omega) (noNum_cons (by decide))
    have hw : skipWs (']' :: r) = ']' :: r := skipWs_cons (by decide) r
    simp only [renderElements, List.cons_append, List.nil_append, elements, h, hw]
  | v, u :: vs, n + 1, r, hv, hvs, hn => by
    simp only [sizeElements] at hn
    simp only [SpeltElements] at hvs
    have h := value_render v n (',' :: (render u ++ (renderElements vs ++ r))) hv (by omega)
      (noNum_cons (by decide))
    have hw : ∀ t, skipWs (',' :: t) = ',' :: t := fun t => skipWs_cons (by decide) t
    have hu := skipWs_render hvs.1 (renderElements vs ++ r)
    have ih := elements_render u vs n r hvs.1 hvs.2 (by simp only [sizeElements]; omega)
    simp only [renderElements, List.cons_append, List.append_assoc, elements, h, hw, hu, ih]
    rfl

/-- The written members of an object are read back. -/
theorem members_render : ∀ (k : Str) (v : Value) (ms : List (Str × Value)) (n : ℕ) (r : Str),
    Spelt v → SpeltMembers ms → sizeMembers ((k, v) :: ms) ≤ n →
    members n (quote k ++ ':' :: (render v ++ (renderMembers ms ++ r))) = some ((k, v) :: ms, r)
  | k, v, ms, 0, _, _, _, hn => by simp [sizeMembers] at hn
  | k, v, [], n + 1, r, hv, _, hn => by
    simp only [sizeMembers] at hn
    have h := value_render v n ('}' :: r) hv (by omega) (noNum_cons (by decide))
    have hw : skipWs ('}' :: r) = '}' :: r := skipWs_cons (by decide) r
    have hc : ∀ t, skipWs (':' :: t) = ':' :: t := fun t => skipWs_cons (by decide) t
    simp only [quote, renderMembers, List.cons_append, List.append_assoc, List.nil_append, members,
      unescape_escapes, hc, skipWs_render hv, h, hw]
  | k, v, (k', u) :: ms, n + 1, r, hv, hms, hn => by
    simp only [sizeMembers] at hn
    simp only [SpeltMembers] at hms
    have ih := members_render k' u ms n r hms.1 hms.2 (by simp only [sizeMembers]; omega)
    have h := value_render v n (',' :: (quote k' ++ ':' :: (render u ++ (renderMembers ms ++ r))))
      hv (by omega) (noNum_cons (by decide))
    have hw : ∀ t, skipWs (',' :: t) = ',' :: t := fun t => skipWs_cons (by decide) t
    have hc : ∀ t, skipWs (':' :: t) = ':' :: t := fun t => skipWs_cons (by decide) t
    have hq : ∀ t, skipWs ('"' :: t) = '"' :: t := fun t => skipWs_cons (by decide) t
    simp only [quote, List.cons_append, List.append_assoc, List.nil_append] at h ih
    simp only [quote, renderMembers, List.cons_append, List.append_assoc, List.nil_append, members,
      unescape_escapes, hc, skipWs_render hv, h, hw, hq, ih]
    rfl

end

mutual

/-- A rendering is long enough to bound the steps reading it takes. -/
theorem size_le_length : ∀ v : Value, Spelt v → size v ≤ (render v).length
  | .null, _ => by simp [size, render]
  | .bool true, _ => by simp [size, render]
  | .bool false, _ => by simp [size, render]
  | .num s, h => by
    have hs := ne_nil_of_isNumeral (by simpa [Spelt] using h)
    simp only [size, render]
    exact List.length_pos_iff.mpr hs
  | .str s, _ => by simp [size, render, quote]
  | .arr [], _ => by simp [size, sizeElements, render]
  | .arr (v :: vs), h => by
    simp only [Spelt, SpeltElements] at h
    have h1 := size_le_length v h.1
    have h2 := sizeElements_le_length vs h.2
    simp only [size, sizeElements, render, List.length_cons, List.length_append]
    omega
  | .obj [], _ => by simp [size, sizeMembers, render]
  | .obj ((k, v) :: ms), h => by
    simp only [Spelt, SpeltMembers] at h
    have h1 := size_le_length v h.1
    have h2 := sizeMembers_le_length ms h.2
    simp only [size, sizeMembers, render, quote, List.length_cons, List.length_append]
    omega

theorem sizeElements_le_length : ∀ vs : List Value, SpeltElements vs →
    sizeElements vs + 1 ≤ (renderElements vs).length
  | [], _ => by simp [sizeElements, renderElements]
  | v :: vs, h => by
    simp only [SpeltElements] at h
    have h1 := size_le_length v h.1
    have h2 := sizeElements_le_length vs h.2
    simp only [sizeElements, renderElements, List.length_cons, List.length_append]
    omega

theorem sizeMembers_le_length : ∀ ms : List (Str × Value), SpeltMembers ms →
    sizeMembers ms + 1 ≤ (renderMembers ms).length
  | [], _ => by simp [sizeMembers, renderMembers]
  | (k, v) :: ms, h => by
    simp only [SpeltMembers] at h
    have h1 := size_le_length v h.1
    have h2 := sizeMembers_le_length ms h.2
    simp only [sizeMembers, renderMembers, quote, List.length_cons, List.length_append]
    omega

end

/-- **The round trip**: a rendering is read back, whatever white space follows. -/
theorem parse_render_append {v : Value} (h : Spelt v) {w : Str} (hw : IsWs w) :
    parse (render v ++ w) = some v := by
  have hsize := size_le_length v h
  have hnum : NoNum w := by
    rintro c t rfl
    have hc := hw c List.mem_cons_self
    by_contra hn
    simp only [isWs, Bool.or_eq_true, beq_iff_eq] at hc
    rcases hc with ((rfl | rfl) | rfl) | rfl <;> exact hn (by decide)
  rw [parse, skipWs_render h, value_render v _ w h (by simp; omega) hnum]
  simp [skipWs_of_isWs hw]

/-! ### One line -/

theorem newline_notMem_escape (c : Char) : '\n' ∉ escape c := by
  unfold escape
  split_ifs with h1 h2 h3 h4 h5 h6 h7 h8
  · decide
  · decide
  · decide
  · decide
  · decide
  · decide
  · decide
  · have hd : ∀ n < 16, '\n' ≠ n.digitChar := by decide
    simp only [List.mem_cons, List.not_mem_nil, or_false, not_or]
    exact ⟨by decide, by decide, by decide, by decide, hd _ (by omega), hd _ (by omega)⟩
  · simpa using Ne.symm h5

theorem newline_notMem_quote (s : Str) : '\n' ∉ quote s := by
  simp only [quote, List.mem_cons, List.mem_append, List.not_mem_nil, or_false, not_or, escapes,
    List.mem_flatMap, not_exists, not_and]
  exact ⟨by decide, fun c _ => newline_notMem_escape c, by decide⟩

mutual

/-- **A rendering is one line.** -/
theorem newline_notMem_render : ∀ v : Value, Spelt v → '\n' ∉ render v
  | .null, _ => by simp [render]
  | .bool true, _ => by simp [render]
  | .bool false, _ => by simp [render]
  | .num s, h => by
    have hs : isNumeral s = true := by simpa [Spelt] using h
    simp only [render]
    exact fun hm => absurd (isNumChar_of_isNumeral hs _ hm) (by decide)
  | .str s, _ => by
    rw [render]
    exact newline_notMem_quote s
  | .arr [], _ => by simp [render]
  | .arr (v :: vs), h => by
    simp only [Spelt, SpeltElements] at h
    have h1 := newline_notMem_render v h.1
    have h2 := newline_notMem_renderElements vs h.2
    simp [render, h1, h2]
  | .obj [], _ => by simp [render]
  | .obj ((k, v) :: ms), h => by
    simp only [Spelt, SpeltMembers] at h
    have h1 := newline_notMem_render v h.1
    have h2 := newline_notMem_renderMembers ms h.2
    have h3 := newline_notMem_quote k
    simp [render, h1, h2, h3]

theorem newline_notMem_renderElements : ∀ vs : List Value, SpeltElements vs →
    '\n' ∉ renderElements vs
  | [], _ => by simp [renderElements]
  | v :: vs, h => by
    simp only [SpeltElements] at h
    have h1 := newline_notMem_render v h.1
    have h2 := newline_notMem_renderElements vs h.2
    simp [renderElements, h1, h2]

theorem newline_notMem_renderMembers : ∀ ms : List (Str × Value), SpeltMembers ms →
    '\n' ∉ renderMembers ms
  | [], _ => by simp [renderMembers]
  | (k, v) :: ms, h => by
    simp only [SpeltMembers] at h
    have h1 := newline_notMem_render v h.1
    have h2 := newline_notMem_renderMembers ms h.2
    have h3 := newline_notMem_quote k
    simp [renderMembers, h1, h2, h3]

end

/-! ### A rendered object cut short -/

/-- A rendered value is derived by the grammar. -/
theorem derives_render {v : Value} (h : Spelt v) : Derives .value (render v) := by
  have hv := value_render v (size v) [] h (Nat.le_refl _) (by simp [NoNum])
  obtain ⟨t, ht, hd⟩ := (derives_of_read _).1 _ _ _ hv
  rw [List.append_nil, List.append_nil] at ht
  rwa [ht]

/-- **No proper prefix of a rendered object is a JSON text.** -/
theorem not_isText_of_prefix_obj {ms : List (Str × Value)} (h : Spelt (.obj ms)) {p : Str}
    (hp : p <+: render (.obj ms)) (hne : p ≠ render (.obj ms)) : ¬IsText p := by
  obtain ⟨s, hs⟩ : ∃ s, render (.obj ms) = '{' :: s := by
    cases ms <;> simp [render]
  obtain ⟨b, hb, hk⟩ := (derives_render h).braced hs
  rw [hb] at hp hne
  exact not_isText_of_prefix hk hp hne

end Json
