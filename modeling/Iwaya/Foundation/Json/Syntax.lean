import Iwaya.Foundation.Text

/-!
# JSON texts

RFC 8259, in three pieces: the grammar (`Json.IsText`), a reader (`Json.parse`)
and the compact writer (`Json.render`) that escapes a quote, a backslash and every
control character.

A line-based protocol that accepts the end of the stream as a line end depends on
more than the round trip `Json.parse_render_append`. A document cut short must not be a
document. That is `Json.not_isText_of_prefix_obj`: no proper prefix of a rendered
object is a JSON text. The proof never looks inside the document: a scanner
(`Json.scan`) counts the brackets standing outside strings, every text of the
grammar brings it back to where it started (`Json.Derives.keeps`), and between the
first and the last character of an object the count is positive.
-/

namespace Json

open Text

/-! ### Values -/

/-- A JSON value. A number keeps its spelling. -/
inductive Value where
  | null
  | bool (b : Bool)
  | num (lexeme : Str)
  | str (s : Str)
  | arr (items : List Value)
  | obj (members : List (Str × Value))

/-! ### Lexical elements -/

/-- Insignificant white space. -/
def isWs (c : Char) : Bool := c == ' ' || c == '\t' || c == '\n' || c == '\r'

/-- A text of insignificant white space. -/
def IsWs (w : Str) : Prop := ∀ c ∈ w, isWs c = true

/-- The characters a number is spelt with. -/
def isNumChar (c : Char) : Bool :=
  c.isDigit || c == '-' || c == '+' || c == '.' || c == 'e' || c == 'E'

/-- What follows one or more digits. -/
def digits1 : Str → Option Str
  | c :: s => if c.isDigit then some (s.dropWhile Char.isDigit) else none
  | [] => none

/-- What follows the integer part: a lone zero, or digits not beginning with one. -/
def intPart : Str → Option Str
  | '0' :: s => some s
  | s => digits1 s

/-- What follows an optional fraction. -/
def fracPart : Str → Option Str
  | '.' :: s => digits1 s
  | s => some s

/-- What follows an optional exponent. -/
def expPart : Str → Option Str
  | c :: s =>
    if c == 'e' || c == 'E' then
      match s with
      | '+' :: s => digits1 s
      | '-' :: s => digits1 s
      | s => digits1 s
    else some (c :: s)
  | [] => some []

/-- The spelling of a number: an optional minus sign, an integer part, an
optional fraction and an optional exponent. -/
def isNumeral (s : Str) : Bool :=
  s.all isNumChar && !s.isEmpty &&
    (intPart ((stripPrefix ['-'] s).getD s) >>= fracPart >>= expPart) == some []

/-- The value of a hexadecimal digit. -/
def hexValue (c : Char) : Option ℕ :=
  if c.isDigit then some (c.toNat - '0'.toNat)
  else if 'a' ≤ c ∧ c ≤ 'f' then some (c.toNat - 'a'.toNat + 10)
  else if 'A' ≤ c ∧ c ≤ 'F' then some (c.toNat - 'A'.toNat + 10)
  else none

/-- The value of four hexadecimal digits. -/
def hex4 (a b c d : Char) : Option ℕ := do
  return 4096 * (← hexValue a) + 256 * (← hexValue b) + 16 * (← hexValue c) + (← hexValue d)

/-- The character a two-character escape denotes. -/
def simpleEscape : Char → Option Char
  | '"' => some '"'
  | '\\' => some '\\'
  | '/' => some '/'
  | 'b' => some (Char.ofNat 8)
  | 'f' => some (Char.ofNat 12)
  | 'n' => some '\n'
  | 'r' => some '\r'
  | 't' => some '\t'
  | _ => none

/-- The inside of a string literal: unescaped characters and escapes. -/
inductive IsChars : Str → Prop
  /-- Nothing. -/
  | nil : IsChars []
  /-- `%x20-21 / %x23-5B / %x5D-10FFFF` -/
  | plain {c : Char} {s : Str} (h : 0x20 ≤ c.toNat) (hq : c ≠ '"') (hb : c ≠ '\\') :
    IsChars s → IsChars (c :: s)
  /-- A two-character escape. -/
  | escape {c d : Char} {s : Str} (h : simpleEscape c = some d) :
    IsChars s → IsChars ('\\' :: c :: s)
  /-- `%x75 4HEXDIG` -/
  | unicode {a b c d : Char} {n : ℕ} {s : Str} (h : hex4 a b c d = some n) :
    IsChars s → IsChars ('\\' :: 'u' :: a :: b :: c :: d :: s)

/-! ### The grammar -/

/-- The nonterminals that nest. -/
inductive Nonterminal where
  | value
  | elements
  | members

/-- **The grammar**, one constructor a production. -/
inductive Derives : Nonterminal → Str → Prop
  /-- A literal name. -/
  | literal {s : Str} (h : s = "null".toList ∨ s = "true".toList ∨ s = "false".toList) :
    Derives .value s
  /-- A number. -/
  | number {s : Str} (h : isNumeral s = true) : Derives .value s
  /-- A string. -/
  | string {s : Str} (h : IsChars s) : Derives .value ('"' :: (s ++ ['"']))
  /-- An array without elements. -/
  | emptyArray {w : Str} (h : IsWs w) : Derives .value ('[' :: (w ++ [']']))
  /-- An array. -/
  | array {s : Str} (h : Derives .elements s) : Derives .value ('[' :: (s ++ [']']))
  /-- An object without members. -/
  | emptyObject {w : Str} (h : IsWs w) : Derives .value ('{' :: (w ++ ['}']))
  /-- An object. -/
  | object {s : Str} (h : Derives .members s) : Derives .value ('{' :: (s ++ ['}']))
  /-- The last element. -/
  | element {w v w' : Str} (hw : IsWs w) (hv : Derives .value v) (hw' : IsWs w') :
    Derives .elements (w ++ v ++ w')
  /-- An element and more. -/
  | elements {w v w' s : Str} (hw : IsWs w) (hv : Derives .value v) (hw' : IsWs w')
    (hs : Derives .elements s) : Derives .elements (w ++ v ++ w' ++ ',' :: s)
  /-- The last member. -/
  | member {w k w₁ w₂ v w' : Str} (hw : IsWs w) (hk : IsChars k) (hw₁ : IsWs w₁) (hw₂ : IsWs w₂)
    (hv : Derives .value v) (hw' : IsWs w') :
    Derives .members (w ++ '"' :: (k ++ '"' :: (w₁ ++ ':' :: (w₂ ++ v ++ w'))))
  /-- A member and more. -/
  | members {w k w₁ w₂ v w' s : Str} (hw : IsWs w) (hk : IsChars k) (hw₁ : IsWs w₁) (hw₂ : IsWs w₂)
    (hv : Derives .value v) (hw' : IsWs w') (hs : Derives .members s) :
    Derives .members (w ++ '"' :: (k ++ '"' :: (w₁ ++ ':' :: (w₂ ++ v ++ w' ++ ',' :: s))))

/-- **A JSON text**: one value with insignificant white space around it. -/
def IsText (s : Str) : Prop :=
  ∃ w v w', s = w ++ v ++ w' ∧ IsWs w ∧ Derives .value v ∧ IsWs w'

/-! ### The reader -/

/-- The text without its leading white space. -/
def skipWs (s : Str) : Str := s.dropWhile isWs

/-- Prepend a character to what a reader has read. -/
def consChar (c : Char) (o : Option (Str × Str)) : Option (Str × Str) :=
  o.map fun (t, r) => (c :: t, r)

/-- The text a string literal denotes and what follows its closing quote. An
escape that denotes half a surrogate pair denotes no character. -/
def unescape : Str → Option (Str × Str)
  | [] => none
  | '"' :: r => some ([], r)
  | '\\' :: 'u' :: a :: b :: c :: d :: r =>
    match hex4 a b c d with
    | none => none
    | some n =>
      if 0xd800 ≤ n ∧ n < 0xdc00 then
        match r with
        | '\\' :: 'u' :: a' :: b' :: c' :: d' :: r' =>
          match hex4 a' b' c' d' with
          | none => none
          | some m =>
            if 0xdc00 ≤ m ∧ m < 0xe000 then
              consChar (Char.ofNat (0x10000 + (n - 0xd800) * 0x400 + (m - 0xdc00))) (unescape r')
            else none
        | _ => none
      else if 0xdc00 ≤ n ∧ n < 0xe000 then none
      else consChar (Char.ofNat n) (unescape r)
  | '\\' :: c :: r =>
    match simpleEscape c with
    | none => none
    | some d => consChar d (unescape r)
  | c :: r => if c.toNat < 0x20 ∨ c = '\\' then none else consChar c (unescape r)

/-- A number: the longest run of number characters, if it spells one. -/
def number (s : Str) : Option (Value × Str) :=
  let lexeme := s.takeWhile isNumChar
  if isNumeral lexeme then some (.num lexeme, s.dropWhile isNumChar) else none

mutual

/-- A value and what follows it; at most `n` nested steps are taken. -/
def value : ℕ → Str → Option (Value × Str)
  | 0, _ => none
  | n + 1, s =>
    match s with
    | '"' :: r => (unescape r).map fun (t, r) => (.str t, r)
    | '[' :: r =>
      match skipWs r with
      | ']' :: r => some (.arr [], r)
      | r => (elements n r).map fun (vs, r) => (.arr vs, r)
    | '{' :: r =>
      match skipWs r with
      | '}' :: r => some (.obj [], r)
      | r => (members n r).map fun (ms, r) => (.obj ms, r)
    | 'n' :: r => (stripPrefix "ull".toList r).map fun r => (.null, r)
    | 't' :: r => (stripPrefix "rue".toList r).map fun r => (.bool true, r)
    | 'f' :: r => (stripPrefix "alse".toList r).map fun r => (.bool false, r)
    | s => number s

/-- The elements of an array up to its bracket, and what follows it. -/
def elements : ℕ → Str → Option (List Value × Str)
  | 0, _ => none
  | n + 1, s =>
    match value n s with
    | none => none
    | some (v, r) =>
      match skipWs r with
      | ']' :: r => some ([v], r)
      | ',' :: r => (elements n (skipWs r)).map fun (vs, r) => (v :: vs, r)
      | _ => none

/-- The members of an object up to its brace, and what follows it. -/
def members : ℕ → Str → Option (List (Str × Value) × Str)
  | 0, _ => none
  | n + 1, s =>
    match s with
    | '"' :: s =>
      match unescape s with
      | none => none
      | some (k, r) =>
        match skipWs r with
        | ':' :: r =>
          match value n (skipWs r) with
          | none => none
          | some (v, r) =>
            match skipWs r with
            | '}' :: r => some ([(k, v)], r)
            | ',' :: r => (members n (skipWs r)).map fun (ms, r) => ((k, v) :: ms, r)
            | _ => none
        | _ => none
    | _ => none

end

/-- **The reader**: the value of a JSON text. -/
def parse (s : Str) : Option Value :=
  match value (s.length + 1) (skipWs s) with
  | some (v, r) => if skipWs r = [] then some v else none
  | none => none

/-! ### The compact writer -/

/-- A character of a string literal: a quote, a backslash and a control
character are escaped, everything else stands for itself. -/
def escape (c : Char) : Str :=
  if c = '"' then ['\\', '"']
  else if c = '\\' then ['\\', '\\']
  else if c = Char.ofNat 8 then ['\\', 'b']
  else if c = Char.ofNat 12 then ['\\', 'f']
  else if c = '\n' then ['\\', 'n']
  else if c = '\r' then ['\\', 'r']
  else if c = '\t' then ['\\', 't']
  else if c.toNat < 0x20 then
    ['\\', 'u', '0', '0', (c.toNat / 16).digitChar, (c.toNat % 16).digitChar]
  else [c]

/-- The characters of a string literal. -/
def escapes (s : Str) : Str := s.flatMap escape

/-- A string literal. -/
def quote (s : Str) : Str := '"' :: (escapes s ++ ['"'])

mutual

/-- **The compact rendering** of a value: no white space at all. -/
def render : Value → Str
  | .null => "null".toList
  | .bool true => "true".toList
  | .bool false => "false".toList
  | .num lexeme => lexeme
  | .str s => quote s
  | .arr [] => ['[', ']']
  | .arr (v :: vs) => '[' :: (render v ++ renderElements vs)
  | .obj [] => ['{', '}']
  | .obj ((k, v) :: ms) => '{' :: (quote k ++ ':' :: (render v ++ renderMembers ms))

/-- The elements after the first, and the closing bracket. -/
def renderElements : List Value → Str
  | [] => [']']
  | v :: vs => ',' :: (render v ++ renderElements vs)

/-- The members after the first, and the closing brace. -/
def renderMembers : List (Str × Value) → Str
  | [] => ['}']
  | (k, v) :: ms => ',' :: (quote k ++ ':' :: (render v ++ renderMembers ms))

end

end Json
