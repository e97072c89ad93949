import Iwaya.Foundation.Uri

/-!
# The origins a proxy may be pointed at

`http(s)://host[:port]` and nothing else. The upstream of a proxy-backed secret
gives the scheme and the authority of every outbound request, so a text with a
path, a query, a userinfo or a fragment of its own is refused.

`Iwaya.isHttpOrigin` follows the recogniser branch by branch. What the rest of the
development uses is `Iwaya.Origin`: the scheme, and an authority none of whose
characters is one at which any reader of URIs would stop.
-/

namespace Iwaya

open Text

/-- The value of a decimal numeral, unless it leaves the 32-bit range on the way:
every step of the reading is checked, so no digit string wraps. -/
def parseU32 (s : Str) : Option ℕ :=
  if s = [] then none
  else
    s.foldlM (fun n c =>
      if c.isDigit then
        let m := 10 * n + (c.toNat - '0'.toNat)
        if m < UInt32.size then some m else none
      else none) 0

/-- A port: digits only, with a value from 1 to 65535. -/
def isPort (port : Str) : Bool :=
  port.all Char.isDigit && (parseU32 port).any fun n => 1 ≤ n && n ≤ 65535

/-- The characters no host name may contain. -/
def isHostDelim (c : Char) : Bool := "/?#@\\:[]".toList.contains c

/-- A host in name form. -/
def isHostName (host : Str) : Bool :=
  !host.isEmpty && !host.any fun c => isWhitespace c || isControl c || isHostDelim c

/-- What stands between the brackets of an IPv6 literal. -/
def isHostLiteral (host : Str) : Bool :=
  !host.isEmpty && host.all fun c => isAsciiHexdigit c || c == ':' || c == '.'

/-- What may follow the scheme: a host, bracketed or a name, and an optional port. -/
def isHostPort (authority : Str) : Bool :=
  match stripPrefix ['['] authority with
  | some rest =>
    -- a bracketed IPv6 literal is the one host form that has colons
    match splitOnce ']' rest with
    | none => false
    | some (host, after) =>
      match stripPrefix [':'] after with
      | some port => isHostLiteral host && isPort port
      | none => if after.isEmpty then isHostLiteral host else false
  | none =>
    -- the last colon begins the port; any other one is left to the host, which has none
    match rsplitOnce ':' authority with
    | some (host, port) => isHostName host && isPort port
    | none => isHostName authority

/-- **The recogniser of origins.** -/
def isHttpOrigin (upstream : Str) : Bool :=
  match stripPrefix "https://".toList upstream with
  | some authority => isHostPort authority
  | none =>
    match stripPrefix "http://".toList upstream with
    | some authority => isHostPort authority
    | none => false

/-! ### What an origin is -/

/-- **An origin**: a scheme and an authority, the authority nonempty and free of
every character that ends an authority or marks a userinfo. -/
structure Origin (upstream scheme authority : Str) : Prop where
  scheme_eq : scheme = "https".toList ∨ scheme = "http".toList
  eq : upstream = scheme ++ "://".toList ++ authority
  ne_nil : authority ≠ []
  clean : ∀ c ∈ authority, c ∉ ['/', '\\', '?', '#', '@']

theorem isDigit_clean {c : Char} (h : c.isDigit = true) : c ∉ ['/', '\\', '?', '#', '@'] := by
  intro hm
  simp only [List.mem_cons, List.not_mem_nil, or_false] at hm
  rcases hm with rfl | rfl | rfl | rfl | rfl <;> exact absurd h (by decide)

theorem isPort_clean {port : Str} (h : isPort port = true) :
    ∀ c ∈ port, c ∉ ['/', '\\', '?', '#', '@'] := by
  simp only [isPort, Bool.and_eq_true, List.all_eq_true] at h
  exact fun c hc => isDigit_clean (h.1 c hc)

theorem isHostName_clean {host : Str} (h : isHostName host = true) :
    host ≠ [] ∧ ∀ c ∈ host, c ∉ ['/', '\\', '?', '#', '@'] := by
  simp only [isHostName, Bool.and_eq_true, Bool.not_eq_true', List.isEmpty_eq_false_iff,
    List.any_eq_false, Bool.or_eq_true, not_or, Bool.not_eq_true] at h
  refine ⟨h.1, fun c hc hm => ?_⟩
  have hd := (h.2 c hc).2
  simp only [List.mem_cons, List.not_mem_nil, or_false] at hm
  rcases hm with rfl | rfl | rfl | rfl | rfl <;> exact absurd hd (by decide)

theorem isHostLiteral_clean {host : Str} (h : isHostLiteral host = true) :
    ∀ c ∈ host, c ∉ ['/', '\\', '?', '#', '@'] := by
  simp only [isHostLiteral, Bool.and_eq_true, List.all_eq_true] at h
  intro c hc hm
  have hl := h.2 c hc
  simp only [List.mem_cons, List.not_mem_nil, or_false] at hm
  rcases hm with rfl | rfl | rfl | rfl | rfl <;> exact absurd hl (by decide)

theorem isHostPort_clean {authority : Str} (h : isHostPort authority = true) :
    authority ≠ [] ∧ ∀ c ∈ authority, c ∉ ['/', '\\', '?', '#', '@'] := by
  have hbr : ∀ c ∈ ['[', ']', ':'], c ∉ ['/', '\\', '?', '#', '@'] := by simp
  unfold isHostPort at h
  split at h
  · rename_i rest hrest
    obtain rfl := stripPrefix_eq_some.mp hrest
    refine ⟨by simp, ?_⟩
    split at h
    · cases h
    · rename_i host after hsplit
      obtain ⟨rfl, -⟩ := splitOnce_eq_some.mp hsplit
      split at h
      · -- a literal with a port
        rename_i port hport
        obtain rfl := stripPrefix_eq_some.mp hport
        obtain ⟨hh, hp⟩ := Bool.and_eq_true_iff.mp h
        intro c hc
        simp only [List.mem_append, List.mem_cons, List.not_mem_nil, or_false] at hc
        rcases hc with rfl | hc | rfl | rfl | hc
        · exact hbr _ (by decide)
        · exact isHostLiteral_clean hh c hc
        · exact hbr _ (by decide)
        · exact hbr _ (by decide)
        · exact isPort_clean hp c hc
      · -- a literal on its own
        split at h
        · rename_i hnil
          obtain rfl := List.isEmpty_iff.mp hnil
          intro c hc
          simp only [List.mem_append, List.mem_cons, List.not_mem_nil, or_false] at hc
          rcases hc with rfl | hc | rfl
          · exact hbr _ (by decide)
          · exact isHostLiteral_clean h c hc
          · exact hbr _ (by decide)
        · cases h
  · split at h
    · -- a name with a port
      rename_i host port hsplit
      obtain ⟨rfl, -⟩ := rsplitOnce_eq_some.mp hsplit
      obtain ⟨hh, hp⟩ := Bool.and_eq_true_iff.mp h
      refine ⟨by simp, fun c hc => ?_⟩
      simp only [List.mem_append, List.mem_cons] at hc
      rcases hc with hc | rfl | hc
      · exact (isHostName_clean hh).2 c hc
      · exact hbr _ (by decide)
      · exact isPort_clean hp c hc
    · exact isHostName_clean h

/-- **What is accepted is an origin.** -/
theorem origin_of_isHttpOrigin {upstream : Str} (h : isHttpOrigin upstream = true) :
    ∃ scheme authority, Origin upstream scheme authority := by
  unfold isHttpOrigin at h
  split at h
  · rename_i authority hs
    obtain ⟨hne, hclean⟩ := isHostPort_clean h
    exact ⟨"https".toList, authority, Or.inl rfl, stripPrefix_eq_some.mp hs, hne, hclean⟩
  · split at h
    · rename_i authority hs
      obtain ⟨hne, hclean⟩ := isHostPort_clean h
      exact ⟨"http".toList, authority, Or.inr rfl, stripPrefix_eq_some.mp hs, hne, hclean⟩
    · cases h

end Iwaya
