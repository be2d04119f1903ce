import AgentArchivist.Lib.Decimal
import AgentArchivist.Lib.Fallible
import AgentArchivist.Lib.SortedMap
import AgentArchivist.Lib.Utf16

/-! # Canonical JSON over the no-float value domain

The bounded parser and the RFC 8785 writer. The parser walks a cursor over the
input; `room` is how many levels the depth bound still admits at a value, the
source's `max_depth + 1 - depth`. The loops over the members of an object, the
items of an array and the pieces of a string are fuelled by what is left of the
input, of which every turn reads some. -/
namespace AgentArchivist.Protocol.Json
open Lib
open Decimal Fallible SortedMap Utf8 Utf16

def DEFAULT_MAX_BYTES : Nat := 8 * 1024 * 1024
def DEFAULT_MAX_DEPTH : Nat := 64

/-- A value in the protocol's no-float domain. -/
inductive Value where
  | null
  | bool (b : Bool)
  | int (n : Int64)
  | text (s : String)
  | array (items : List Value)
  | object (members : List (String × Value))

inductive ParseError where
  | malformed (offset : Nat) (reason : String)
  | numberOutsideDomain (offset : Nat)
  | lengthExceeded
  | depthExceeded (offset : Nat)
  | duplicateMember
deriving DecidableEq, Repr

/-! ## Objects

Members are kept sorted by UTF-16 code units, so the source's binary search is
the scan of `SortedMap`. -/

/-- `Object::insert`. -/
def Object.insert (name : String) (value : Value) (members : List (String × Value)) :
    Except ParseError (List (String × Value)) :=
  match insertNew cmpUtf16 name value members with
  | some members => .ok members
  | none => .error .duplicateMember

/-- `Object::get`. -/
def Object.get (name : String) (members : List (String × Value)) : Option Value :=
  lookup cmpUtf16 name members

/-- `Object::set`. -/
def Object.set (name : String) (value : Value) (members : List (String × Value)) :
    List (String × Value) :=
  upsert cmpUtf16 name value members

/-- `Object::remove`, without what is removed. -/
def Object.remove (name : String) (members : List (String × Value)) : List (String × Value) :=
  members.eraseP fun m => cmpUtf16 m.1 name == .eq

/-- `Object::contains`. -/
def Object.contains (name : String) (members : List (String × Value)) : Bool :=
  (Object.get name members).isSome

/-- A value all of whose objects are sorted, with unique names. -/
inductive WellFormed : Value → Prop where
  | null : WellFormed .null
  | bool (b : Bool) : WellFormed (.bool b)
  | int (n : Int64) : WellFormed (.int n)
  | text (s : String) : WellFormed (.text s)
  | array {items : List Value} : (∀ v ∈ items, WellFormed v) → WellFormed (.array items)
  | object {members : List (String × Value)} : Sorted cmpUtf16 members →
      (∀ m ∈ members, WellFormed m.2) → WellFormed (.object members)

/-! ## Parsing -/

/-- A parse step returns what it read and where the next one starts. -/
abbrev Result := Except ParseError

def malformed (c : Cursor UInt8) (reason : String) : ParseError := .malformed c.pos reason

def isWs (b : UInt8) : Bool := b == 0x20 || b == 0x09 || b == 0x0a || b == 0x0d

def skipWs (c : Cursor UInt8) : Cursor UInt8 := c.skipWhile isWs

def expect (byte : UInt8) (c : Cursor UInt8) : Result (Cursor UInt8) :=
  if c.peek = some byte then .ok (c.advance 1) else .error (malformed c "unexpected byte")

def literal (word : String) (c : Cursor UInt8) : Result (Cursor UInt8) :=
  if utf8 word <+: c.rest then .ok (c.advance (utf8 word).length)
  else .error (malformed c "unrecognized literal")

def hexDigit (b : UInt8) : Option Nat :=
  if 0x30 ≤ b ∧ b ≤ 0x39 then some (b.toNat - 0x30)
  else if 0x61 ≤ b ∧ b ≤ 0x66 then some (b.toNat - 0x61 + 10)
  else if 0x41 ≤ b ∧ b ≤ 0x46 then some (b.toNat - 0x41 + 10)
  else none

/-- `n` more hex digits after those that gave `value`. -/
def hexDigits : (n value : Nat) → Cursor UInt8 → Result (Nat × Cursor UInt8)
  | 0, value, c => .ok (value, c)
  | n + 1, value, c =>
    match c.peek.bind hexDigit with
    | some digit => hexDigits n (value * 16 + digit) (c.advance 1)
    | none => .error (malformed c "invalid hex digit in \\u escape")

def hex4 (c : Cursor UInt8) : Result (Nat × Cursor UInt8) :=
  if c.rest.length < 4 then .error (malformed c "truncated \\u escape") else hexDigits 4 0 c

/-- The character of a one-letter escape. -/
def simpleEscape : UInt8 → Option Char
  | 0x22 => some '\x22'
  | 0x5c => some '\x5c'
  | 0x2f => some '/'
  | 0x62 => some '\x08'
  | 0x66 => some '\x0c'
  | 0x6e => some '\n'
  | 0x72 => some '\r'
  | 0x74 => some '\t'
  | _ => none

/-- The character of a scalar value, at `c`. -/
def codePoint (n : Nat) (c : Cursor UInt8) : Result (Char × Cursor UInt8) :=
  match fromU32 n with
  | some ch => .ok (ch, c)
  | none => .error (malformed c "invalid code point")

/-- One escape sequence; the backslash is already consumed. -/
def escape (c : Cursor UInt8) : Result (Char × Cursor UInt8) :=
  match c.peek with
  | some 0x75 => do
    let (first, c) ← hex4 (c.advance 1)
    if 0xd800 ≤ first ∧ first < 0xdc00 then
      -- a high surrogate: a low surrogate must follow
      if c.peek ≠ some 0x5c then .error (malformed c "lone surrogate")
      else if (c.advance 1).peek ≠ some 0x75 then
        .error (malformed (c.advance 1) "lone surrogate")
      else
        let (second, c) ← hex4 ((c.advance 1).advance 1)
        if 0xdc00 ≤ second ∧ second < 0xe000 then codePoint (joinSurrogates first second) c
        else .error (malformed c "invalid low surrogate")
    else if 0xdc00 ≤ first ∧ first < 0xe000 then .error (malformed c "lone surrogate")
    else codePoint first c
  | some b =>
    match simpleEscape b with
    | some ch => .ok (ch, c.advance 1)
    | none => .error (malformed c "unknown escape")
  | none => .error (malformed c "unknown escape")

/-- A byte that neither ends a string, starts an escape nor is a control character. -/
def isPlain (b : UInt8) : Bool := b != 0x22 && b != 0x5c && 0x20 ≤ b

/-- A run of plain bytes as text; `c` stands after it. -/
def chunk (run : List UInt8) (c : Cursor UInt8) : Result String :=
  if run = [] then .ok ""
  else match fromUtf8 run with
    | some text => .ok text
    | none => .error (malformed c "string is not valid UTF-8")

/-- At the end of a run: the closing quote, or an escape after which `next` goes on. -/
def afterRun (next : String → Cursor UInt8 → Result (String × Cursor UInt8)) (out : String)
    (c : Cursor UInt8) : Result (String × Cursor UInt8) :=
  match c.peek with
  | some 0x22 => .ok (out, c.advance 1)
  | some 0x5c => do
    let (ch, c) ← escape (c.advance 1)
    next (out.push ch) c
  | some b =>
    if b < 0x20 then .error (malformed c "raw control character in string")
    else .error (malformed c "unterminated string")
  | none => .error (malformed c "unterminated string")

/-- The rest of a string, after the text `out`. -/
def stringFrom : (fuel : Nat) → (out : String) → Cursor UInt8 → Result (String × Cursor UInt8)
  | 0, _, c => .error (malformed c "unterminated string")
  | fuel + 1, out, c => do
    let text ← chunk (c.rest.takeWhile isPlain) (c.skipWhile isPlain)
    afterRun (stringFrom fuel) (out ++ text) (c.skipWhile isPlain)

def string (c : Cursor UInt8) : Result (String × Cursor UInt8) := do
  let c ← expect 0x22 c
  stringFrom (c.rest.length + 1) "" c

/-- The integer part of a number, after its sign. -/
def integerPart (c : Cursor UInt8) : Result (Cursor UInt8) :=
  match c.peek with
  | some 0x30 =>
    if (c.advance 1).peek.any isDigit then .error (malformed (c.advance 1) "leading zero in number")
    else .ok (c.advance 1)
  | some b => if isDigit b then .ok (c.skipWhile isDigit) else .error (malformed c "invalid number")
  | none => .error (malformed c "invalid number")

/-- A byte that starts a fraction or an exponent. -/
def startsFraction (b : UInt8) : Bool := b == 0x2e || b == 0x65 || b == 0x45

/-- Fraction or exponent is a domain violation; integers must fit `i64`. -/
def number (start : Cursor UInt8) : Result (Value × Cursor UInt8) := do
  let c ← integerPart (if start.peek = some 0x2d then start.advance 1 else start)
  if c.peek.any startsFraction then .error (.numberOutsideDomain start.pos)
  else match fromUtf8 (start.rest.take (c.pos - start.pos)) with
    | none => .error (malformed c "invalid number")
    | some text =>
      match parseI64 (utf8 text) with
      | some n => .ok (.int n, c)
      | none => .error (.numberOutsideDomain start.pos)

/-- The items of a nonempty array, after those in `out`, up to its closing bracket. -/
def items (item : Cursor UInt8 → Result (Value × Cursor UInt8)) :
    (fuel : Nat) → (out : List Value) → Cursor UInt8 → Result (List Value × Cursor UInt8)
  | 0, _, c => .error (malformed c "expected ',' or ']' in array")
  | fuel + 1, out, c => do
    let (value, c) ← item (skipWs c)
    let c := skipWs c
    match c.peek with
    | some 0x2c => items item fuel (out ++ [value]) (c.advance 1)
    | some 0x5d => .ok (out ++ [value], c.advance 1)
    | _ => .error (malformed c "expected ',' or ']' in array")

def array (item : Cursor UInt8 → Result (Value × Cursor UInt8)) (c : Cursor UInt8) :
    Result (Value × Cursor UInt8) := do
  let c ← expect 0x5b c
  let c := skipWs c
  if c.peek = some 0x5d then .ok (.array [], c.advance 1)
  else
    let (out, c) ← items item (c.rest.length + 1) [] c
    .ok (.array out, c)

/-- A name, a colon and a value. -/
def member (item : Cursor UInt8 → Result (Value × Cursor UInt8)) (c : Cursor UInt8) :
    Result ((String × Value) × Cursor UInt8) := do
  let (name, c) ← string (skipWs c)
  let c ← expect 0x3a (skipWs c)
  let (value, c) ← item (skipWs c)
  .ok ((name, value), c)

/-- The members of a nonempty object, after those in `out`, up to its closing brace. -/
def members (item : Cursor UInt8 → Result (Value × Cursor UInt8)) :
    (fuel : Nat) → (out : List (String × Value)) → Cursor UInt8 →
      Result (List (String × Value) × Cursor UInt8)
  | 0, _, c => .error (malformed c "expected ',' or '\x7d' in object")
  | fuel + 1, out, c => do
    let ((name, value), c) ← member item c
    let out ← Object.insert name value out
    let c := skipWs c
    match c.peek with
    | some 0x2c => members item fuel out (c.advance 1)
    | some 0x7d => .ok (out, c.advance 1)
    | _ => .error (malformed c "expected ',' or '\x7d' in object")

def object (item : Cursor UInt8 → Result (Value × Cursor UInt8)) (c : Cursor UInt8) :
    Result (Value × Cursor UInt8) := do
  let c ← expect 0x7b c
  let c := skipWs c
  if c.peek = some 0x7d then .ok (.object [], c.advance 1)
  else
    let (out, c) ← members item (c.rest.length + 1) [] c
    .ok (.object out, c)

def value : (room : Nat) → Cursor UInt8 → Result (Value × Cursor UInt8)
  | 0, c => .error (.depthExceeded c.pos)
  | room + 1, c =>
    match c.peek with
    | some 0x7b => object (value room) c
    | some 0x5b => array (value room) c
    | some 0x22 => do
      let (s, c) ← string c
      .ok (.text s, c)
    | some 0x74 => do
      let c ← literal "true" c
      .ok (.bool true, c)
    | some 0x66 => do
      let c ← literal "false" c
      .ok (.bool false, c)
    | some 0x6e => do
      let c ← literal "null" c
      .ok (.null, c)
    | some b =>
      if b == 0x2d || isDigit b then number c else .error (malformed c "expected a value")
    | none => .error (malformed c "expected a value")

def parseWithLimits (input : List UInt8) (maxBytes maxDepth : Nat) : Result Value :=
  if input.length > maxBytes then .error .lengthExceeded
  else do
    let (v, c) ← value (maxDepth + 1) (skipWs ⟨0, input⟩)
    let c := skipWs c
    if c.rest ≠ [] then .error (malformed c "trailing content after the value") else .ok v

def parse (input : List UInt8) : Result Value :=
  parseWithLimits input DEFAULT_MAX_BYTES DEFAULT_MAX_DEPTH

/-! ## Canonical writing -/

/-- One character with RFC 8785 escaping. -/
def writeChar (c : Char) : List UInt8 :=
  if c = '\x22' then [0x5c, 0x22]
  else if c = '\x5c' then [0x5c, 0x5c]
  else if c = '\x08' then [0x5c, 0x62]
  else if c = '\x0c' then [0x5c, 0x66]
  else if c = '\n' then [0x5c, 0x6e]
  else if c = '\r' then [0x5c, 0x72]
  else if c = '\t' then [0x5c, 0x74]
  else if c.toNat < 0x20 then
    utf8 "\\u00" ++ utf8 (String.singleton (Nat.digitChar (c.toNat / 16 % 16))) ++
      utf8 (String.singleton (Nat.digitChar (c.toNat % 16)))
  else String.utf8EncodeChar c

def writeString (text : String) : List UInt8 := 0x22 :: (text.toList.flatMap writeChar ++ [0x22])

mutual
/-- The RFC 8785 canonical bytes of a value. -/
def canonicalBytes : Value → List UInt8
  | .null => utf8 "null"
  | .bool true => utf8 "true"
  | .bool false => utf8 "false"
  | .int n => renderI64 n
  | .text s => writeString s
  | .array items => 0x5b :: (writeItems true items ++ [0x5d])
  | .object members => 0x7b :: (writeMembers true members ++ [0x7d])
/-- The items of an array, a comma before each but the first. -/
def writeItems (first : Bool) : List Value → List UInt8
  | [] => []
  | v :: rest => (if first then [] else [0x2c]) ++ canonicalBytes v ++ writeItems false rest
/-- The members of an object, a comma before each but the first. -/
def writeMembers (first : Bool) : List (String × Value) → List UInt8
  | [] => []
  | (name, v) :: rest =>
    (if first then [] else [0x2c]) ++ writeString name ++ 0x3a :: canonicalBytes v
      ++ writeMembers false rest
end

end AgentArchivist.Protocol.Json
