import Iwaya.Foundation.Uri

/-!
# The authority of a URI

The syntax of an authority and of what may follow it (RFC 3986, sections 2 and 3):
`Uri.isAuthority` recognises an optional userinfo, a host that is a bracketed literal or a
registered name, and an optional port; `Uri.isTargetText` the characters of a path and a
query. An IPv4 address is a registered name as far as the syntax goes, and has a grammar
of its own only as the last part of an IPv6 address.
-/

namespace Uri

open Text

/-! ### Characters -/

def isUnreserved (c : Char) : Bool := c.isAlphanum || "-._~".toList.contains c

def isSubDelim (c : Char) : Bool := "!$&'()*+,;=".toList.contains c

/-- Characters of a class, and percent-encoded bytes. -/
def isEncoded (p : Char → Bool) : Str → Bool
  | [] => true
  | '%' :: a :: b :: s => isAsciiHexdigit a && isAsciiHexdigit b && isEncoded p s
  | c :: s => c != '%' && p c && isEncoded p s

/-- A registered name. -/
def isRegName (s : Str) : Bool := isEncoded (fun c => isUnreserved c || isSubDelim c) s

/-- The information before the `@`. -/
def isUserinfo (s : Str) : Bool :=
  isEncoded (fun c => isUnreserved c || isSubDelim c || c == ':') s

/-- The characters of a path and a query. -/
def isTargetText (s : Str) : Bool :=
  isEncoded (fun c => isUnreserved c || isSubDelim c || ":@/?".toList.contains c) s

/-! ### IP literals -/

/-- A number from 0 to 255, without leading zeros. -/
def isDecOctet (s : Str) : Bool :=
  !s.isEmpty && s.length ≤ 3 && s.all Char.isDigit && (s.length == 1 || s.head? != some '0') &&
    s.foldl (fun n c => 10 * n + (c.toNat - '0'.toNat)) 0 ≤ 255

/-- Four of them. -/
def isIpv4 (s : Str) : Bool :=
  (s.splitOn '.').length == 4 && (s.splitOn '.').all isDecOctet

/-- Sixteen bits: one to four hexadecimal digits. -/
def isH16 (s : Str) : Bool := !s.isEmpty && s.length ≤ 4 && s.all isAsciiHexdigit

/-- The number of groups of sixteen bits, joined by colons. -/
def h16s (s : Str) : Option ℕ :=
  if s.isEmpty then some 0
  else if (s.splitOn ':').all isH16 then some (s.splitOn ':').length else none

/-- The same, where the last two may be an IPv4 address. -/
def h16sOrIpv4 (s : Str) : Option ℕ :=
  match (s.splitOn ':').reverse with
  | last :: before =>
    if isIpv4 last && before.all isH16 then some (before.length + 2) else h16s s
  | [] => h16s s

/-- **An IPv6 address**: eight groups, or at most seven with one `::` among or around
them. -/
def isIpv6 (s : Str) : Bool :=
  h16sOrIpv4 s == some 8 ||
    (List.range s.length).any fun i =>
      "::".toList.isPrefixOf (s.drop i) &&
        match h16s (s.take i), h16sOrIpv4 (s.drop (i + 2)) with
        | some before, some after => before + after ≤ 7
        | _, _ => false

/-- An address of a future version. -/
def isIpvFuture : Str → Bool
  | c :: s =>
    (c == 'v' || c == 'V') &&
      match splitOnce '.' s with
      | some (version, address) =>
        !version.isEmpty && version.all isAsciiHexdigit && !address.isEmpty &&
          address.all fun c => isUnreserved c || isSubDelim c || c == ':'
      | none => false
  | [] => false

/-! ### The authority -/

/-- A bracketed literal, or a registered name. -/
def isHost (s : Str) : Bool :=
  match stripPrefix ['['] s with
  | some rest =>
    match splitOnce ']' rest with
    | some (literal, []) => isIpv6 literal || isIpvFuture literal
    | _ => false
  | none => isRegName s

/-- A host and an optional port; the colons of a literal are inside its brackets. -/
def isHostAndPort (s : Str) : Bool :=
  isHost s ||
    match rsplitOnce ':' s with
    | some (host, port) => isHost host && port.all Char.isDigit
    | none => false

/-- **An authority.** -/
def isAuthority (s : Str) : Bool :=
  match rsplitOnce '@' s with
  | some (userinfo, rest) => isUserinfo userinfo && isHostAndPort rest
  | none => isHostAndPort s

example : ["[::1]:8443", "[2001:db8::192.0.2.1]", "api.example.com", "h:"].all
    (fun s => isAuthority s.toList) = true := by decide

example : ["[:::]", "[1:2:3]", "exämple", "a%2", "[::1"].any
    (fun s => isAuthority s.toList) = false := by decide

end Uri
