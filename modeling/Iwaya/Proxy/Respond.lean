import Mathlib.Data.List.Basic
import Iwaya.Proxy.Forward

/-!
# Answering with the upstream's response

What the client's server is given to send is the status of the upstream's response, its
body as it arrives, and those of its headers that do not belong to the connection to
the upstream. The value of a header is bytes, which need not be text; whether the server
library takes it is the parameter `tiny`.
-/

namespace Iwaya

open Text

/-- The response of an upstream. -/
structure UpstreamResponse where
  status : ℕ
  headers : List (Str × List UInt8)
  body : List UInt8

/-- A response for the client; the length of the body is known or it is sent in chunks. -/
structure ClientResponse where
  status : ℕ
  headers : List (Str × Str)
  contentLength : Option ℕ
  body : List UInt8

/-- The server library's `Header::from_bytes`. -/
structure TinyHttp where
  fromBytes : List UInt8 → List UInt8 → Option (Str × Str)

/-- **What the library is documented to do**: a header is made of ASCII bytes, and
keeps them. -/
structure TinyHttp.Conforms (tiny : TinyHttp) : Prop where
  makes : ∀ name value, (∀ b ∈ name ++ value, b < 128) →
    tiny.fromBytes name value = some (asciiText name, asciiText value)
  refuses : ∀ name value, (∃ b ∈ name ++ value, 128 ≤ b) → tiny.fromBytes name value = none

/-- The library itself. -/
def TinyHttp.reference : TinyHttp where
  fromBytes name value :=
    if (name ++ value).all (· < 128) then some (asciiText name, asciiText value) else none

theorem TinyHttp.reference_conforms : TinyHttp.reference.Conforms where
  makes name value h := by
    refine if_pos (List.all_eq_true.mpr fun b hb => decide_eq_true ?_)
    exact h b hb
  refuses name value h := by
    obtain ⟨b, hb, hge⟩ := h
    refine if_neg fun hall => ?_
    have hlt : b < 128 := of_decide_eq_true (List.all_eq_true.mp hall b hb)
    exact absurd hlt (UInt8.not_lt.mpr hge)

/-- `HeaderValue::to_str`: visible ASCII and tabs. -/
def toStr (value : List UInt8) : Option Str :=
  if value.all fun b => b == 9 || (32 ≤ b && b < 127) then some (asciiText value) else none

/-- `usize::from_str`: a plus sign is allowed, and a value that does not fit is refused. -/
def parseUsize (s : Str) : Option ℕ :=
  let digits := (stripPrefix ['+'] s).getD s
  if digits = [] ∨ digits.all Char.isDigit = false then none
  else
    let n := digits.foldl (fun n c => 10 * n + (c.toNat - 48)) 0
    if n < UInt64.size then some n else none

/-- One header of the upstream's response. -/
def respondHeader (tiny : TinyHttp) (response : ClientResponse) (header : Str × List UInt8) :
    ClientResponse :=
  if lowercase header.1 = "content-length".toList then
    -- the library derives the framing from the length it is given
    { response with contentLength := (toStr header.2).bind parseUsize }
  else if isHopByHop (lowercase header.1) then response
  else
    match tiny.fromBytes (utf8 header.1) header.2 with
    | some made => { response with headers := response.headers ++ [made] }
    | none => response

/-- **The response for the client.** -/
def respondWithUpstream (tiny : TinyHttp) (upstream : UpstreamResponse) : ClientResponse :=
  upstream.headers.foldl (respondHeader tiny)
    { status := upstream.status, headers := [], contentLength := none, body := upstream.body }

/-- Whether a header of the upstream's response is passed on to the client. -/
def PassedBack (tiny : TinyHttp) (header : Str × List UInt8) : Prop :=
  lowercase header.1 ≠ "content-length".toList ∧ isHopByHop (lowercase header.1) = false ∧
    (tiny.fromBytes (utf8 header.1) header.2).isSome

instance (tiny : TinyHttp) (header : Str × List UInt8) : Decidable (PassedBack tiny header) :=
  inferInstanceAs (Decidable (_ ∧ _ ∧ _))

/-- What one header adds to the response. -/
theorem respondHeader_headers (tiny : TinyHttp) (response : ClientResponse)
    (header : Str × List UInt8) :
    (respondHeader tiny response header).headers = response.headers ++
      (if PassedBack tiny header then (tiny.fromBytes (utf8 header.1) header.2).toList
        else []) := by
  unfold respondHeader
  by_cases h1 : lowercase header.1 = "content-length".toList
  · rw [if_pos h1, if_neg fun h => h.1 h1]
    simp
  · rw [if_neg h1]
    by_cases h2 : isHopByHop (lowercase header.1) = true
    · rw [if_pos h2, if_neg fun h => absurd h2 (by simp [h.2.1])]
      simp
    · rw [if_neg h2]
      rcases h3 : tiny.fromBytes (utf8 header.1) header.2 with _ | made
      · simp
      · rw [if_pos ⟨h1, by simpa using h2, by simp [h3]⟩]
        rfl

/-- **The headers of the response for the client**, in the order of the upstream's. -/
theorem respondWithUpstream_headers (tiny : TinyHttp) (upstream : UpstreamResponse) :
    (respondWithUpstream tiny upstream).headers =
      upstream.headers.flatMap fun header =>
        if PassedBack tiny header then (tiny.fromBytes (utf8 header.1) header.2).toList
        else [] := by
  have hfold : ∀ (headers : List (Str × List UInt8)) (response : ClientResponse),
      (headers.foldl (respondHeader tiny) response).headers = response.headers ++
        headers.flatMap fun header =>
          if PassedBack tiny header then (tiny.fromBytes (utf8 header.1) header.2).toList
          else [] := by
    intro headers
    induction headers with
    | nil => simp
    | cons header headers ih =>
      intro response
      rw [List.foldl_cons, ih, respondHeader_headers, List.flatMap_cons, List.append_assoc]
  exact hfold _ _

/-- A header the library makes has the name it was made from. -/
theorem TinyHttp.Conforms.name_eq {tiny : TinyHttp} (h : tiny.Conforms) {name : Str}
    {value : List UInt8} {made : Str × Str} (hm : tiny.fromBytes (utf8 name) value = some made) :
    made.1 = name := by
  have hascii : ∀ b ∈ utf8 name ++ value, b < 128 := by
    by_contra hno
    push Not at hno
    obtain ⟨b, hb, hge⟩ := hno
    rw [h.refuses _ _ ⟨b, hb, UInt8.not_lt.mp hge⟩] at hm
    cases hm
  rw [h.makes _ _ hascii] at hm
  obtain rfl := Option.some.inj hm
  exact asciiText_utf8 (List.forall_mem_append.mp hascii).1

/-! ### Passing a response through -/

/-- A header of the upstream's response that is meant for the client: neither the length,
which the server derives anew, nor one of the connection to the upstream. -/
def EndToEnd (header : Str × List UInt8) : Prop :=
  lowercase header.1 ≠ "content-length".toList ∧ isHopByHop (lowercase header.1) = false

instance (header : Str × List UInt8) : Decidable (EndToEnd header) :=
  inferInstanceAs (Decidable (_ ∧ _))

/-- A header all of whose bytes are ASCII. -/
def AsciiHeader (header : Str × List UInt8) : Prop := ∀ b ∈ utf8 header.1 ++ header.2, b < 128

instance (header : Str × List UInt8) : Decidable (AsciiHeader header) :=
  inferInstanceAs (Decidable (∀ b ∈ _, _))

/-- The name and the bytes of a header of the response for the client. -/
def wire (header : Str × Str) : Str × List UInt8 := (header.1, utf8 header.2)

/-- **The response is passed through**: its status, and every header meant for the client,
as often and in the order in which the upstream sent it. -/
def PassedThrough (tiny : TinyHttp) (upstream : UpstreamResponse) : Prop :=
  (respondWithUpstream tiny upstream).status = upstream.status ∧
    (respondWithUpstream tiny upstream).headers.map wire =
      upstream.headers.filter (fun header => EndToEnd header)

theorem respondHeader_status (tiny : TinyHttp) (response : ClientResponse)
    (header : Str × List UInt8) :
    (respondHeader tiny response header).status = response.status := by
  unfold respondHeader
  split
  · rfl
  · split
    · rfl
    · split <;> rfl

theorem respondWithUpstream_status (tiny : TinyHttp) (upstream : UpstreamResponse) :
    (respondWithUpstream tiny upstream).status = upstream.status := by
  have hfold : ∀ (headers : List (Str × List UInt8)) (response : ClientResponse),
      (headers.foldl (respondHeader tiny) response).status = response.status := by
    intro headers
    induction headers with
    | nil => exact fun _ => rfl
    | cons header headers ih =>
      intro response
      rw [List.foldl_cons, ih, respondHeader_status]
  exact hfold _ _

/-- The headers of the response are those the library could make of the ones meant for the
client. -/
theorem respondWithUpstream_headers_eq (tiny : TinyHttp) (upstream : UpstreamResponse) :
    (respondWithUpstream tiny upstream).headers =
      (upstream.headers.filter (fun header => EndToEnd header)).filterMap fun header =>
        tiny.fromBytes (utf8 header.1) header.2 := by
  rw [respondWithUpstream_headers, List.filterMap_filter, List.filterMap_eq_flatMap_toList]
  refine List.flatMap_congr fun header _ => ?_
  by_cases hpass : EndToEnd header
  · rw [if_pos (decide_eq_true hpass)]
    cases hmade : tiny.fromBytes (utf8 header.1) header.2 with
    | some made => rw [if_pos ⟨hpass.1, hpass.2, by rw [hmade]; rfl⟩]
    | none => exact ite_self _
  · rw [if_neg fun h => hpass ⟨h.1, h.2.1⟩, if_neg (by simpa using hpass)]
    rfl

/-- What the library makes of a header is that header exactly if it is ASCII. -/
theorem TinyHttp.Conforms.wire_fromBytes_iff {tiny : TinyHttp} (h : tiny.Conforms)
    (header : Str × List UInt8) :
    (tiny.fromBytes (utf8 header.1) header.2).map wire = some header ↔ AsciiHeader header := by
  by_cases hascii : AsciiHeader header
  · obtain ⟨hname, hvalue⟩ := List.forall_mem_append.mp hascii
    rw [h.makes _ _ hascii, Option.map_some, wire, asciiText_utf8 hname, utf8_asciiText hvalue]
    exact iff_of_true rfl hascii
  · have hopaque : ∃ b ∈ utf8 header.1 ++ header.2, 128 ≤ b := by
      simpa [AsciiHeader] using hascii
    rw [h.refuses _ _ hopaque, Option.map_none]
    exact iff_of_false (by simp) hascii

/-- **A response is passed through unaltered exactly if its headers for the client are
ASCII.** A header that is not is left out without a word. -/
theorem passedThrough_iff (tiny : TinyHttp) (h : tiny.Conforms) (upstream : UpstreamResponse) :
    PassedThrough tiny upstream ↔
      ∀ header ∈ upstream.headers, EndToEnd header → AsciiHeader header := by
  rw [PassedThrough, and_iff_right (respondWithUpstream_status tiny upstream),
    respondWithUpstream_headers_eq, List.map_filterMap]
  calc _ ↔ ∀ header ∈ upstream.headers.filter (fun header => EndToEnd header),
        (tiny.fromBytes (utf8 header.1) header.2).map wire = some header := by
        have := List.filterMap_eq_map_iff_forall_eq_some
          (f := fun header => (tiny.fromBytes (utf8 header.1) header.2).map wire) (g := id)
          (l := upstream.headers.filter (fun header => EndToEnd header))
        rwa [List.map_id] at this
    _ ↔ _ := by
        simp only [h.wire_fromBytes_iff, List.mem_filter, decide_eq_true_eq, and_imp]

theorem passedThrough_plain : PassedThrough .reference
    ⟨200, [("vary".toList, [97]), ("Content-Length".toList, [48]), ("vary".toList, [98])], []⟩ :=
  (passedThrough_iff .reference TinyHttp.reference_conforms _).mpr (by decide +kernel)

/-- A response one of whose values has a byte past the ASCII range. -/
def opaqueResponse : UpstreamResponse where
  status := 200
  headers := [("x-name".toList, [0xe9])]
  body := []

/-- The header is not in the response for the client. -/
theorem opaqueResponse_not_passedThrough :
    TinyHttp.reference.Conforms ∧ ¬PassedThrough .reference opaqueResponse := by
  refine ⟨TinyHttp.reference_conforms, fun h => ?_⟩
  have hlength := congrArg List.length h.2
  revert hlength
  decide +kernel

end Iwaya
