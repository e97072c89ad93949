import Iwaya.Proxy.Forward

/-!
# Where the credential is sent

The outbound URI is the configured upstream and the caller's target, one after the
other. Two recognisers that know nothing of each other keep the seam in place: an
accepted upstream has no character at which an authority ends, and an accepted
target begins with exactly one slash. Both kinds of reader are covered – the generic
syntax, and the readers for which `\` is a slash too.
-/

namespace Iwaya

open Text Uri

/-- The two notions of slash. -/
def IsReader (sl : Char → Bool) : Prop := sl = rfcSlash ∨ sl = whatwgSlash

theorem IsReader.slash {sl : Char → Bool} (h : IsReader sl) : sl '/' = true := by
  rcases h with rfl | rfl <;> rfl

/-- No reader takes anything but the two slashes for one. -/
theorem IsReader.eq_false {sl : Char → Bool} (h : IsReader sl) {c : Char} (h1 : c ≠ '/')
    (h2 : c ≠ '\\') : sl c = false := by
  rcases h with rfl | rfl <;> simp [rfcSlash, whatwgSlash, h1, h2]

/-- A target in origin form is one slash and then none. -/
theorem isOriginForm_iff {target : Str} : isOriginForm target = true ↔
    ∃ s, target = '/' :: s ∧ s.head? ≠ some '/' ∧ s.head? ≠ some '\\' := by
  have h1 : "/".toList = ['/'] := rfl
  have h2 : "//".toList = ['/', '/'] := rfl
  have h3 : "/\\".toList = ['/', '\\'] := rfl
  rw [isOriginForm, h1, h2, h3]
  rcases target with _ | ⟨c, _ | ⟨d, s⟩⟩
  · simp
  · simp [List.isPrefixOf, eq_comm (a := '/') (b := c)]
  · by_cases hc : c = '/'
    · simp [List.isPrefixOf, hc, eq_comm (a := '/') (b := d), eq_comm (a := '\\') (b := d)]
    · simp [hc, eq_comm (a := '/') (b := c)]

section Origin

variable {upstream scheme authority : Str} (ho : Origin upstream scheme authority)
  {sl : Char → Bool} (hsl : IsReader sl)

include ho hsl

/-- The scheme of an origin stops at its colon for every reader. -/
theorem Origin.scheme_clean : scheme ≠ [] ∧ ∀ c ∈ scheme, isSchemeDelim sl c = false := by
  rcases hsl with rfl | rfl <;> rcases ho.scheme_eq with rfl | rfl <;>
    simp [isSchemeDelim, isDelim, rfcSlash, whatwgSlash]

/-- The authority of an origin runs to its end for every reader. -/
theorem Origin.authority_clean : ∀ c ∈ authority, isDelim sl c = false := by
  intro c hc
  have hm := ho.clean c hc
  simp only [List.mem_cons, List.not_mem_nil, or_false, not_or] at hm
  obtain ⟨h1, h2, h3, h4, -⟩ := hm
  simp [isDelim, hsl.eq_false h1 h2, h3, h4]

end Origin

/-- An origin has no userinfo. -/
theorem Origin.userinfo_eq_none {upstream scheme authority : Str}
    (ho : Origin upstream scheme authority) : userinfo authority = none := by
  have hn : '@' ∉ authority := fun hm => ho.clean '@' hm (by decide)
  simp [userinfo, rsplitOnce_eq_none.mpr hn]

/-- **The caller never chooses the origin.** Whatever is accepted as an upstream and
as a target, both kinds of reader split their concatenation into the upstream's
scheme, the upstream's whole authority without a userinfo, and then the target from
its first character on; and the path, or the whole target, taken by either reader as
a reference relative to the upstream stays in that authority. -/
theorem split_upstream_target {upstream target : Str} (hu : isHttpOrigin upstream = true)
    (ht : isOriginForm target = true) :
    ∃ scheme authority, upstream = scheme ++ "://".toList ++ authority ∧ authority ≠ [] ∧
      userinfo authority = none ∧
      ∀ sl, IsReader sl →
        (split sl (upstream ++ target)).scheme = some scheme ∧
        (split sl (upstream ++ target)).authority = some authority ∧
        (split sl (upstream ++ target)).target = target ∧
        (split sl (upstream ++ target)).path <+: target ∧
        (split sl (upstream ++ target)).path.head? = target.head? ∧
        ∀ sl', IsReader sl' → ∀ normalize,
          ∀ reference ∈ [(split sl (upstream ++ target)).path, target],
            (resolve sl' normalize (split sl' upstream) (split sl' reference)).scheme =
              some scheme ∧
            (resolve sl' normalize (split sl' upstream) (split sl' reference)).authority =
              some authority := by
  obtain ⟨scheme, authority, ho⟩ := origin_of_isHttpOrigin hu
  obtain ⟨s, rfl, hs1, hs2⟩ := isOriginForm_iff.mp ht
  refine ⟨scheme, authority, ho.eq, ho.ne_nil, ho.userinfo_eq_none, fun sl hsl => ?_⟩
  obtain ⟨hne, hsc⟩ := ho.scheme_clean hsl
  obtain ⟨h1, h2, h3, h4⟩ := split_origin_append hsl.slash hne hsc (ho.authority_clean hsl) s
  rw [← ho.eq] at h1 h2 h3 h4
  have hpath : pathOf ('/' :: s) = '/' :: pathOf s := List.takeWhile_cons_of_pos (by decide)
  have hprefix : pathOf s <+: s := List.takeWhile_prefix _
  refine ⟨h1, h2, h3, h4 ▸ List.takeWhile_prefix _, by rw [h4, hpath]; rfl, ?_⟩
  intro sl' hsl' normalize reference href
  -- both references are one slash followed by no slash
  obtain ⟨q, rfl, hq⟩ : ∃ q, reference = '/' :: q ∧ q <+: s := by
    simp only [List.mem_cons, List.not_mem_nil, or_false] at href
    rcases href with rfl | rfl
    · exact ⟨pathOf s, by rw [h4, hpath], hprefix⟩
    · exact ⟨s, rfl, List.prefix_refl s⟩
  have hhead : ∀ b t, q = b :: t → sl' b = false := by
    rintro b t rfl
    obtain ⟨u, rfl⟩ := hq
    exact hsl'.eq_false (fun he => hs1 (by simp [he])) (fun he => hs2 (by simp [he]))
  obtain ⟨hne', hsc'⟩ := ho.scheme_clean hsl'
  have hbase := split_origin hsl'.slash hne' hsc' (ho.authority_clean hsl')
  rw [← ho.eq] at hbase
  obtain ⟨h5, h6⟩ := resolve_absolutePath normalize (split sl' upstream) hsl'.slash hhead
  rw [h5, h6, hbase]
  exact ⟨rfl, rfl⟩

theorem split_upstream_target_ipv6 :
    ∃ scheme authority, "https://[::1]:8443".toList = scheme ++ "://".toList ++ authority ∧
      (split whatwgSlash "https://[::1]:8443/v1/\\evil@x".toList).authority = some authority := by
  obtain ⟨scheme, authority, heq, -, -, h⟩ := @split_upstream_target
    "https://[::1]:8443".toList "/v1/\\evil@x".toList (by decide) (by decide)
  exact ⟨scheme, authority, heq, (h whatwgSlash (Or.inr rfl)).2.1⟩

end Iwaya
