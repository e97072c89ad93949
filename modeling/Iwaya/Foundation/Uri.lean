import Mathlib.Data.List.TakeWhile
import Iwaya.Foundation.Text

/-!
# Splitting and resolving URI references

The generic syntax of RFC 3986 cuts a reference into scheme, authority, path,
query and fragment with one regular expression (Appendix B). Readers disagree on
one point that matters to whoever concatenates URI text: WHATWG-style parsers
read `\` as `/` for the web's schemes. Both are the same splitter with a
different notion of slash, so everything here takes that notion as a parameter
`sl`; `Uri.rfcSlash` and `Uri.whatwgSlash` are the two instances.

The two results the concatenation of an origin and a target rests on are that a
text `scheme://authority` followed by something beginning with a slash splits
exactly there (`Uri.split_origin_append`), and that a reference which begins with
one slash and not two is resolved inside its base's authority
(`Uri.resolve_absolutePath`).
-/

namespace Uri

open Text

/-- The separators of RFC 3986. -/
def rfcSlash (c : Char) : Bool := c == '/'

/-- The separators of a reader that treats `\` as `/`. -/
def whatwgSlash (c : Char) : Bool := c == '/' || c == '\\'

/-- The five components of a reference. -/
structure Parts where
  scheme : Option Str
  authority : Option Str
  path : Str
  query : Option Str
  fragment : Option Str
  deriving DecidableEq

variable (sl : Char → Bool)

/-- The characters an authority stops at. -/
def isDelim (c : Char) : Bool := sl c || c == '?' || c == '#'

/-- The characters a scheme stops at. -/
def isSchemeDelim (c : Char) : Bool := c == ':' || isDelim sl c

/-- The scheme, if the text before the first delimiter is nonempty and that
delimiter is a colon, and what follows it. -/
def splitScheme (s : Str) : Option Str × Str :=
  match s.takeWhile (fun c => !isSchemeDelim sl c), s.dropWhile (fun c => !isSchemeDelim sl c) with
  | a :: name, ':' :: rest => (some (a :: name), rest)
  | _, _ => (none, s)

/-- The authority, if the text begins with two slashes, and what follows it. -/
def splitAuthority : Str → Option Str × Str
  | a :: b :: s =>
    if sl a && sl b then
      (some (s.takeWhile fun c => !isDelim sl c), s.dropWhile fun c => !isDelim sl c)
    else (none, a :: b :: s)
  | s => (none, s)

/-- The path: up to the query or the fragment. -/
def pathOf (s : Str) : Str := s.takeWhile fun c => !(c == '?' || c == '#')

/-- What follows the path. -/
def afterPath (s : Str) : Str := s.dropWhile fun c => !(c == '?' || c == '#')

/-- The query and the fragment of what follows the path. -/
def splitQuery : Str → Option Str × Option Str
  | '?' :: s =>
    match splitOnce '#' s with
    | some (q, f) => (some q, some f)
    | none => (some s, none)
  | '#' :: f => (none, some f)
  | _ => (none, none)

/-- **The splitter.** -/
def split (s : Str) : Parts :=
  let (scheme, s) := splitScheme sl s
  let (authority, s) := splitAuthority sl s
  let (query, fragment) := splitQuery (afterPath s)
  { scheme, authority, path := pathOf s, query, fragment }

/-- The userinfo of an authority: what stands before its last `@`. -/
def userinfo (authority : Str) : Option Str := (rsplitOnce '@' authority).map Prod.fst

/-- The path, query and fragment of a reference put together again. -/
def Parts.target (p : Parts) : Str :=
  p.path ++ (p.query.elim [] fun q => '?' :: q) ++ (p.fragment.elim [] fun f => '#' :: f)

/-- **Resolution of a reference against a base** (RFC 3986, section 5.2.2).
What a reader does to the resolved path, such as removing its dot segments, is
left to it. -/
def resolve (normalize : Str → Str) (base r : Parts) : Parts :=
  if r.scheme.isSome then { r with path := normalize r.path }
  else if r.authority.isSome then { r with scheme := base.scheme, path := normalize r.path }
  else if r.path = [] then
    -- an empty reference is the base, with a query of its own if it has one
    { base with query := r.query.orElse fun _ => base.query, fragment := r.fragment }
  else if r.path.head?.any sl then
    { r with scheme := base.scheme, authority := base.authority, path := normalize r.path }
  else
    -- merged with the base's path, whose last segment is dropped
    { r with
      scheme := base.scheme
      authority := base.authority
      path := normalize (base.path.reverse.dropWhile (fun c => !sl c)).reverse ++ r.path }

/-! ### Splitting at a known place -/

variable {sl}

theorem takeWhile_append_stop {p : Char → Bool} {l : Str} {c : Char} {r : Str}
    (hl : ∀ x ∈ l, p x = true) (hc : p c = false) :
    (l ++ c :: r).takeWhile p = l ∧ (l ++ c :: r).dropWhile p = c :: r := by
  constructor
  · rw [List.takeWhile_append_of_pos hl, List.takeWhile_cons_of_neg (by simp [hc]),
      List.append_nil]
  · rw [List.dropWhile_append_of_pos hl, List.dropWhile_cons_of_neg (by simp [hc])]

/-- A scheme is read off up to its colon. -/
theorem splitScheme_append {scheme rest : Str} (hne : scheme ≠ [])
    (hs : ∀ c ∈ scheme, isSchemeDelim sl c = false) :
    splitScheme sl (scheme ++ ':' :: rest) = (some scheme, rest) := by
  obtain ⟨h1, h2⟩ := takeWhile_append_stop (p := fun c => !isSchemeDelim sl c) (c := ':')
    (r := rest) (l := scheme) (fun c hc => by simp [hs c hc]) (by simp [isSchemeDelim])
  rw [splitScheme, h1, h2]
  cases scheme with
  | nil => exact absurd rfl hne
  | cons a name => rfl

/-- A text beginning with a slash has no scheme. -/
theorem splitScheme_slash {a : Char} (ha : sl a = true) (s : Str) :
    splitScheme sl (a :: s) = (none, a :: s) := by
  rw [splitScheme, List.takeWhile_cons_of_neg (by simp [isSchemeDelim, isDelim, ha])]

/-- An authority is read off up to the slash that begins the path. -/
theorem splitAuthority_append {a b : Char} (ha : sl a = true) (hb : sl b = true)
    {authority : Str} (hau : ∀ c ∈ authority, isDelim sl c = false) {c : Char} (hc : sl c = true)
    (s : Str) : splitAuthority sl (a :: b :: (authority ++ c :: s)) = (some authority, c :: s) := by
  obtain ⟨h1, h2⟩ := takeWhile_append_stop (p := fun x => !isDelim sl x) (c := c)
    (r := s) (l := authority) (fun x hx => by simp [hau x hx]) (by simp [isDelim, hc])
  simp only [splitAuthority, ha, hb, Bool.and_self, if_true, h1, h2]

/-- A text whose second character is no slash has no authority. -/
theorem splitAuthority_single {s : Str} (h : ∀ a b r, s = a :: b :: r → sl b = false) :
    splitAuthority sl s = (none, s) := by
  rcases s with _ | ⟨a, _ | ⟨b, r⟩⟩
  · rfl
  · rfl
  · simp [splitAuthority, h a b r rfl]

theorem target_splitQuery (s : Str) :
    let (query, fragment) := splitQuery (afterPath s)
    (pathOf s ++ (query.elim [] fun q => '?' :: q) ++
      (fragment.elim [] fun f => '#' :: f)) = s := by
  have hs : pathOf s ++ afterPath s = s := List.takeWhile_append_dropWhile
  rcases h : afterPath s with _ | ⟨c, r⟩
  · simpa [h, splitQuery] using hs
  · have hc : c = '?' ∨ c = '#' := by
      have := List.head?_dropWhile_not (p := fun c => !(c == '?' || c == '#')) (l := s)
      rw [show s.dropWhile (fun c => !(c == '?' || c == '#')) = c :: r from h] at this
      simpa [or_iff_not_imp_left] using this
    rcases hc with rfl | rfl
    · rcases hq : splitOnce '#' r with _ | ⟨q, f⟩
      · simpa [splitQuery, hq, h] using hs
      · have hr := (splitOnce_eq_some.mp hq).1
        rw [h, hr] at hs
        simpa [splitQuery, hq] using hs
    · simpa [splitQuery, h] using hs

/-- **The splitter loses nothing after the authority.** -/
theorem split_target (s : Str) :
    (split sl s).target = (splitAuthority sl (splitScheme sl s).2).2 :=
  target_splitQuery _

/-! ### An origin followed by a target -/

/-- **An origin followed by a text beginning with a slash splits where the two
were joined**: the scheme and the authority are the origin's, and the rest is
the whole appended text. -/
theorem split_origin_append (hslash : sl '/' = true) {scheme authority : Str} (hne : scheme ≠ [])
    (hs : ∀ c ∈ scheme, isSchemeDelim sl c = false)
    (hau : ∀ c ∈ authority, isDelim sl c = false) (s : Str) :
    (split sl (scheme ++ "://".toList ++ authority ++ '/' :: s)).scheme = some scheme ∧
      (split sl (scheme ++ "://".toList ++ authority ++ '/' :: s)).authority = some authority ∧
      (split sl (scheme ++ "://".toList ++ authority ++ '/' :: s)).target = '/' :: s ∧
      (split sl (scheme ++ "://".toList ++ authority ++ '/' :: s)).path = pathOf ('/' :: s) := by
  have hcut : scheme ++ "://".toList ++ authority ++ '/' :: s =
      scheme ++ ':' :: ('/' :: '/' :: (authority ++ '/' :: s)) := by simp
  have h1 : splitScheme sl (scheme ++ ':' :: ('/' :: '/' :: (authority ++ '/' :: s))) =
      (some scheme, '/' :: '/' :: (authority ++ '/' :: s)) := splitScheme_append hne hs
  have h2 : splitAuthority sl ('/' :: '/' :: (authority ++ '/' :: s)) =
      (some authority, '/' :: s) :=
    splitAuthority_append hslash hslash hau hslash s
  rw [hcut]
  refine ⟨?_, ?_, ?_, ?_⟩
  · simp only [split, h1]
  · simp only [split, h1, h2]
  · rw [split_target, h1, h2]
  · simp only [split, h1, h2]

/-- An origin on its own splits the same way, with an empty path. -/
theorem split_origin {scheme authority : Str} (hslash : sl '/' = true) (hne : scheme ≠ [])
    (hs : ∀ c ∈ scheme, isSchemeDelim sl c = false)
    (hau : ∀ c ∈ authority, isDelim sl c = false) :
    split sl (scheme ++ "://".toList ++ authority) =
      { scheme := some scheme, authority := some authority, path := [], query := none,
        fragment := none } := by
  have hcut : scheme ++ "://".toList ++ authority = scheme ++ ':' :: ('/' :: '/' :: authority) := by
    simp
  have h1 : splitScheme sl (scheme ++ ':' :: ('/' :: '/' :: authority)) =
      (some scheme, '/' :: '/' :: authority) := splitScheme_append hne hs
  have h2 : splitAuthority sl ('/' :: '/' :: authority) = (some authority, []) := by
    simp only [splitAuthority, hslash, Bool.and_self, if_true]
    rw [List.takeWhile_eq_self_iff.mpr fun c hc => by simp [hau c hc],
      List.dropWhile_eq_nil_iff.mpr fun c hc => by simp [hau c hc]]
  rw [hcut, split, h1]
  simp only [h2]
  rfl

/-- **A reference beginning with one slash and not two stays in its base's
authority.** -/
theorem resolve_absolutePath (normalize : Str → Str) (base : Parts) {s : Str}
    (hslash : sl '/' = true) (h : ∀ b r, s = b :: r → sl b = false) :
    (resolve sl normalize base (split sl ('/' :: s))).scheme = base.scheme ∧
      (resolve sl normalize base (split sl ('/' :: s))).authority = base.authority := by
  have h1 := splitScheme_slash hslash s
  have h2 : splitAuthority sl ('/' :: s) = (none, '/' :: s) :=
    splitAuthority_single fun a b r he => h b r (List.cons.inj he).2
  have hp : pathOf ('/' :: s) = '/' :: pathOf s := List.takeWhile_cons_of_pos (by decide)
  have hsplit : (split sl ('/' :: s)).scheme = none ∧ (split sl ('/' :: s)).authority = none ∧
      (split sl ('/' :: s)).path = '/' :: pathOf s := by
    simp only [split, h1, h2, hp, and_self]
  obtain ⟨hs, ha, hpath⟩ := hsplit
  simp [resolve, hs, ha, hpath, hslash]

end Uri
