import ForexSuite.JsonWriter

/-!
# `read_json`

The library's reader for what `write_json` writes. The parser goes through the bytes of
the text without going back, counts lines, and calls callbacks; the standard callbacks
build the tree. They point into it with a stack of layers: the tree of a layer is always
the last child of the tree of the layer below, so that a layer is known by its depth.

The loops of the parser that read values and strings have fuel. Values are read by
recursion, and the stack that this takes is not modelled.
-/
namespace ForexSuite.JsonReader

open JsonWriter

/-! ### The callbacks -/

inductive Call where
  | onNull
  | onBoolean (b : Bool)
  | onBeginNumber
  | onDigit (d : UInt8)
  | onEndNumber
  | onBeginString
  | onCodeUnit (c : UInt8)
  | onEndString
  | onBeginArray
  | onEndArray
  | onBeginObject
  | onEndObject
deriving Repr, DecidableEq

inductive Kind where
  | array
  | object
  | key
  | leaf
deriving Repr, DecidableEq

/-- The stack begins with its last layer. -/
structure Callbacks where
  root : Ptree
  keyBuffer : Str
  stack : List Kind

def Callbacks.new : Callbacks := ⟨.empty, [], []⟩

/-- Changes the tree that is reached from a tree through its last child so many times. -/
def atBack : ℕ → (Ptree → Ptree) → Ptree → Ptree
  | 0, f, pt => f pt
  | depth + 1, f, .node data children =>
      .node data (children.modifyLast fun child => (child.1, atBack depth f child.2))

def pushBack (key : Str) (child : Ptree) : Ptree → Ptree
  | .node data children => .node data (children ++ [(key, child)])

def modifyData (f : Str → Str) : Ptree → Ptree
  | .node data children => .node (f data) children

namespace Callbacks

/-- A tree in an object is only begun when its key was read. -/
def newTree (root : Ptree) (keyBuffer : Str) : List Kind → Callbacks
  | [] => ⟨root, keyBuffer, [.leaf]⟩
  | .array :: stack =>
      ⟨atBack stack.length (pushBack [] .empty) root, keyBuffer, .leaf :: .array :: stack⟩
  | .object :: stack | .key :: stack =>
      ⟨atBack stack.length (pushBack keyBuffer .empty) root, keyBuffer, .leaf :: .object :: stack⟩
  | .leaf :: stack => newTree root keyBuffer stack

/-- The string that is begun is then the `current_value`. -/
def newValue (root : Ptree) (keyBuffer : Str) : List Kind → Callbacks
  | .leaf :: stack => newValue root keyBuffer stack
  | .object :: stack => ⟨root, [], .key :: stack⟩
  | stack => newTree root keyBuffer stack

/-- Changes the `current_value`. -/
def modifyCurrent (f : Str → Str) (c : Callbacks) : Callbacks :=
  match c.stack with
  | .key :: _ => { c with keyBuffer := f c.keyBuffer }
  | stack => { c with root := atBack (stack.length - 1) (modifyData f) c.root }

/-- `if (stack.back().k == leaf) stack.pop_back();` -/
def settle (c : Callbacks) : Callbacks :=
  match c.stack with
  | .leaf :: stack => { c with stack }
  | _ => c

/-- Begins an array or an object. -/
def begin (kind : Kind) (c : Callbacks) : Callbacks :=
  let c := newTree c.root c.keyBuffer c.stack
  { c with stack := kind :: c.stack.tail }

/-- Ends an array or an object. -/
def finish (c : Callbacks) : Callbacks := { c.settle with stack := c.settle.stack.tail }

def assign (s : String) (c : Callbacks) : Callbacks :=
  (newValue c.root c.keyBuffer c.stack).modifyCurrent fun _ => s.toList.map Char.toUInt8

def step (c : Callbacks) : Call → Callbacks
  | .onNull => c.assign "null"
  | .onBoolean b => c.assign (if b then "true" else "false")
  | .onBeginNumber | .onBeginString => newValue c.root c.keyBuffer c.stack
  | .onDigit d | .onCodeUnit d => c.modifyCurrent (· ++ [d])
  | .onEndNumber | .onEndString => c
  | .onBeginArray => c.begin .array
  | .onBeginObject => c.begin .object
  | .onEndArray | .onEndObject => c.finish

def run (c : Callbacks) (calls : List Call) : Callbacks := calls.foldl step c

end Callbacks

/-! ### The source -/

def isNl (c : UInt8) : Bool := c = '\n'.toUInt8
def isWs (c : UInt8) : Bool :=
  c = ' '.toUInt8 ∨ c = '\t'.toUInt8 ∨ c = '\n'.toUInt8 ∨ c = '\r'.toUInt8
def isPlusminus (c : UInt8) : Bool := c = '+'.toUInt8 ∨ c = '-'.toUInt8
def isEE (c : UInt8) : Bool := c = 'e'.toUInt8 ∨ c = 'E'.toUInt8
def isDigit (c : UInt8) : Bool := '0'.toUInt8 ≤ c ∧ c ≤ '9'.toUInt8
def isDigit0 (c : UInt8) : Bool := '1'.toUInt8 ≤ c ∧ c ≤ '9'.toUInt8

/-- The predicates that name one character. -/
def isChar (ch : Char) (c : UInt8) : Bool := c = ch.toUInt8

def isQuote (c : UInt8) : Bool := c = quote
def isBackslash (c : UInt8) : Bool := c = backslash

/-- The source, and the calls made so far. -/
structure Parser where
  cur : Str
  line : ℕ
  calls : List Call

def doNothing : UInt8 → List Call := fun _ => []

namespace Parser

def call (c : Call) (p : Parser) : Parser := { p with calls := p.calls ++ [c] }

def parseError {α : Type} (msg : String) (p : Parser) : Except Failure α :=
  .error (.jsonParserError msg p.line)

def next (p : Parser) : Parser :=
  match p.cur with
  | [] => p
  | c :: cur => { p with cur, line := if isNl c then p.line + 1 else p.line }

def have_ (is : UInt8 → Bool) (action : UInt8 → List Call) (p : Parser) : Bool × Parser :=
  match p.cur with
  | [] => (false, p)
  | c :: _ => if is c then (true, { p with calls := p.calls ++ action c }.next) else (false, p)

def expect (is : UInt8 → Bool) (msg : String) (action : UInt8 → List Call) (p : Parser) :
    Except Failure Parser :=
  match p.have_ is action with
  | (true, p) => .ok p
  | (false, p) => p.parseError msg

/-- The loop `while (have(is, action)) {}`, which takes a character each time. -/
def whileHave (is : UInt8 → Bool) (action : UInt8 → List Call) : ℕ → Parser → Parser
  | 0, p => p
  | n + 1, p =>
      match p.have_ is action with
      | (true, p) => whileHave is action n p
      | (false, p) => p

def skipWs (p : Parser) : Parser := whileHave isWs doNothing p.cur.length p

/-! ### Numbers, booleans and null -/

/-- The number adapter, with `first`. -/
def digit (first : Bool) (c : UInt8) : List Call :=
  if first then [.onBeginNumber, .onDigit c] else [.onDigit c]

def parseDigits (p : Parser) : Parser := whileHave isDigit (digit false) p.cur.length p

def parseIntPart (first : Bool) (p : Parser) : Bool × Parser :=
  match p.have_ isDigit0 (digit first) with
  | (true, p) => (true, p.parseDigits)
  | (false, p) => (false, p)

def parseFracPart (p : Parser) : Except Failure Parser :=
  match p.have_ (isChar '.') (digit false) with
  | (false, p) => .ok p
  | (true, p) => do
      let p ← p.expect isDigit "need at least one digit after '.'" (digit false)
      return p.parseDigits

def parseExpPart (p : Parser) : Except Failure Parser :=
  match p.have_ isEE (digit false) with
  | (false, p) => .ok p
  | (true, p) => do
      let (_, p) := p.have_ isPlusminus (digit false)
      let p ← p.expect isDigit "need at least one digit in exponent" (digit false)
      return p.parseDigits

/-- `have(is_0, adapter) || parse_int_part(adapter)` -/
def parseZeroOrInt (first : Bool) (p : Parser) : Bool × Parser :=
  match p.have_ (isChar '0') (digit first) with
  | (true, p) => (true, p)
  | (false, p) => p.parseIntPart first

def parseNumber (p : Parser) : Except Failure (Bool × Parser) :=
  let (started, p) := p.skipWs.have_ (isChar '-') (digit true)
  let (found, p) := p.parseZeroOrInt (!started)
  if found then do
    let p ← p.parseFracPart
    let p ← p.parseExpPart
    return (true, p.call .onEndNumber)
  else if started then p.parseError "expected digits after -"
  else .ok (false, p)

/-- The rest of a literal. -/
def expectAll (msg : String) : List Char → Parser → Except Failure Parser
  | [], p => .ok p
  | ch :: chs, p => do
      let p ← p.expect (isChar ch) msg doNothing
      expectAll msg chs p

def parseNull (p : Parser) : Except Failure (Bool × Parser) :=
  match p.skipWs.have_ (isChar 'n') doNothing with
  | (false, p) => .ok (false, p)
  | (true, p) => do
      let p ← p.expectAll "expected 'null'" ['u', 'l', 'l']
      return (true, p.call .onNull)

def parseBoolean (p : Parser) : Except Failure (Bool × Parser) :=
  match p.skipWs.have_ (isChar 't') doNothing with
  | (true, p) => do
      let p ← p.expectAll "expected 'true'" ['r', 'u', 'e']
      return (true, p.call (.onBoolean true))
  | (false, p) =>
      match p.have_ (isChar 'f') doNothing with
      | (true, p) => do
          let p ← p.expectAll "expected 'false'" ['a', 'l', 's', 'e']
          return (true, p.call (.onBoolean false))
      | (false, p) => .ok (false, p)

/-! ### Strings -/

def isTrail (c : UInt8) : Bool := c &&& 0xc0 = 0x80

/-- How many bytes trail a leading byte above 0x7f; -1 in the source where it is none. -/
def trailTable (c : UInt8) : Option ℕ :=
  [none, none, none, none, none, none, none, none,
    some 1, some 1, some 1, some 1,
    some 2, some 2,
    some 3,
    none].getD ((c &&& 0x7f) >>> 3).toNat none

/-- The loop over the trailing bytes. -/
def transcodeTrail : ℕ → Parser → Except Failure Parser
  | 0, p => .ok p
  | trailing + 1, p =>
      match p.cur with
      | [] => p.parseError "invalid code sequence"
      | c :: cur =>
          if isTrail c then transcodeTrail trailing ({ p with cur }.call (.onCodeUnit c))
          else p.parseError "invalid code sequence"

/-- `transcode_codepoint`, from the byte `c` on and with what is behind it. -/
def transcodeCodepoint (c : UInt8) (cur : Str) (p : Parser) : Except Failure Parser :=
  if c ≤ 0x7f then
    if c < 0x20 then p.parseError "invalid code sequence"
    else .ok ({ p with cur }.call (.onCodeUnit c))
  else
    match trailTable c with
    | none => p.parseError "invalid code sequence"
    | some trailing => transcodeTrail trailing ({ p with cur }.call (.onCodeUnit c))

def decodeHexdigit (c : UInt8) : Option ℕ :=
  if '0'.toUInt8 ≤ c ∧ c ≤ '9'.toUInt8 then some (c.toNat - '0'.toNat)
  else if 'A'.toUInt8 ≤ c ∧ c ≤ 'F'.toUInt8 then some (c.toNat - 'A'.toNat + 10)
  else if 'a'.toUInt8 ≤ c ∧ c ≤ 'f'.toUInt8 then some (c.toNat - 'a'.toNat + 10)
  else none

/-- The loop of `parse_hex_quad`, with the code point so far. -/
def parseHexQuad : ℕ → ℕ → Parser → Except Failure (ℕ × Parser)
  | 0, codepoint, p => .ok (codepoint, p)
  | n + 1, codepoint, p =>
      match p.cur with
      | [] => p.parseError "invalid escape sequence"
      | c :: _ =>
          match decodeHexdigit c with
          | none => p.parseError "invalid escape sequence"
          | some value => parseHexQuad n (codepoint * 16 + value) p.next

def isSurrogateHigh (codepoint : ℕ) : Bool := codepoint &&& 0xfc00 = 0xd800

def isSurrogateLow (codepoint : ℕ) : Bool := codepoint &&& 0xfc00 = 0xdc00

def combineSurrogates (high low : ℕ) : ℕ :=
  0x010000 + (((high &&& 0x3ff) <<< 10) ||| (low &&& 0x3ff))

def trail (unmasked : ℕ) : UInt8 := (0x80 ||| (unmasked &&& 0x3f)).toUInt8

def feedCodepoint (codepoint : ℕ) : Str :=
  if codepoint ≤ 0x7f then [codepoint.toUInt8]
  else if codepoint ≤ 0x7ff then [(0xc0 ||| (codepoint >>> 6)).toUInt8, trail codepoint]
  else if codepoint ≤ 0xffff then
    [(0xe0 ||| (codepoint >>> 12)).toUInt8, trail (codepoint >>> 6), trail codepoint]
  else if codepoint ≤ 0x10ffff then
    [(0xf0 ||| (codepoint >>> 18)).toUInt8, trail (codepoint >>> 12), trail (codepoint >>> 6),
      trail codepoint]
  else []

def feed (codepoint : ℕ) (p : Parser) : Parser :=
  { p with calls := p.calls ++ (feedCodepoint codepoint).map .onCodeUnit }

def parseCodepointRef (p : Parser) : Except Failure Parser := do
  let (codepoint, p) ← parseHexQuad 4 0 p
  if isSurrogateLow codepoint then p.parseError "invalid codepoint, stray low surrogate"
  else if isSurrogateHigh codepoint then
    let p ← p.expect isBackslash "invalid codepoint, stray high surrogate" doNothing
    let p ← p.expect (isChar 'u') "expected codepoint reference after high surrogate" doNothing
    let (low, p) ← parseHexQuad 4 0 p
    if isSurrogateLow low then return p.feed (combineSurrogates codepoint low)
    else p.parseError "expected low surrogate after high surrogate"
  else return p.feed codepoint

/-- What the characters other than `u` stand for behind a backslash. -/
def escapes : List (UInt8 × ℕ) :=
  [(quote, 0x22), (backslash, 0x5c), ('/'.toUInt8, 0x2f), ('b'.toUInt8, 0x08),
    ('f'.toUInt8, 0x0c), ('n'.toUInt8, 0x0a), ('r'.toUInt8, 0x0d), ('t'.toUInt8, 0x09)]

def parseEscape (p : Parser) : Except Failure Parser :=
  match p.cur with
  | [] => p.parseError "invalid escape sequence"
  | c :: _ =>
      match escapes.lookup c with
      | some codepoint => .ok (p.next.feed codepoint)
      | none =>
          if isChar 'u' c then p.next.parseCodepointRef
          else p.parseError "invalid escape sequence"

/-- The loop of `parse_string`. -/
def parseChars : ℕ → Parser → Except Failure Parser
  | 0, _ => .error .outOfFuel
  | n + 1, p =>
      match p.cur with
      | [] => p.parseError "unterminated string"
      | c :: cur =>
          if isQuote c then .ok p
          else if isBackslash c then p.next.parseEscape >>= parseChars n
          else p.transcodeCodepoint c cur >>= parseChars n

def parseString (p : Parser) : Except Failure (Bool × Parser) :=
  match p.skipWs.have_ isQuote doNothing with
  | (false, p) => .ok (false, p)
  | (true, p) => do
      let p ← parseChars (p.cur.length + 1) (p.call .onBeginString)
      return (true, (p.call .onEndString).next)

/-! ### Values -/

/-- The loop of `parse_array`. -/
def parseItems (parseValue : Parser → Except Failure Parser) : ℕ → Parser → Except Failure Parser
  | 0, _ => .error .outOfFuel
  | n + 1, p => do
      let p ← parseValue p
      match p.skipWs.have_ (isChar ',') doNothing with
      | (true, p) => parseItems parseValue n p
      | (false, p) => return p

/-- The loop of `parse_object`. -/
def parseMembers (parseValue : Parser → Except Failure Parser) : ℕ → Parser → Except Failure Parser
  | 0, _ => .error .outOfFuel
  | n + 1, p => do
      let (found, p) ← p.parseString
      if found then
        let p ← p.skipWs.expect (isChar ':') "expected ':'" doNothing
        let p ← parseValue p
        match p.skipWs.have_ (isChar ',') doNothing with
        | (true, p) => parseMembers parseValue n p
        | (false, p) => return p
      else p.parseError "expected key string"

def parseArray (parseValue : Parser → Except Failure Parser) (p : Parser) :
    Except Failure (Bool × Parser) :=
  match p.skipWs.have_ (isChar '[') doNothing with
  | (false, p) => .ok (false, p)
  | (true, p) =>
      match (p.call .onBeginArray).skipWs.have_ (isChar ']') doNothing with
      | (true, p) => .ok (true, p.call .onEndArray)
      | (false, p) => do
          let p ← parseItems parseValue (p.cur.length + 1) p
          let p ← p.expect (isChar ']') "expected ']' or ','" doNothing
          return (true, p.call .onEndArray)

def parseObject (parseValue : Parser → Except Failure Parser) (p : Parser) :
    Except Failure (Bool × Parser) :=
  match p.skipWs.have_ (isChar '\x7b') doNothing with
  | (false, p) => .ok (false, p)
  | (true, p) =>
      match (p.call .onBeginObject).skipWs.have_ (isChar '\x7d') doNothing with
      | (true, p) => .ok (true, p.call .onEndObject)
      | (false, p) => do
          let p ← parseMembers parseValue (p.cur.length + 1) p
          let p ← p.expect (isChar '\x7d') "expected '\x7d' or ','" doNothing
          return (true, p.call .onEndObject)

/-- Goes through the alternatives of `parse_value` until one finds its kind of value. -/
def parseFirst : List (Parser → Except Failure (Bool × Parser)) → Parser → Except Failure Parser
  | [], p => p.parseError "expected value"
  | parse :: parses, p => do
      let (found, p) ← parse p
      if found then return p
      else parseFirst parses p

def parseValue : ℕ → Parser → Except Failure Parser
  | 0, _ => .error .outOfFuel
  | n + 1, p =>
      parseFirst [parseObject (parseValue n), parseArray (parseValue n), parseString, parseBoolean,
        parseNull, parseNumber] p

/-- What is behind the value. -/
def finish (p : Parser) : Except Failure Unit :=
  if p.skipWs.cur.isEmpty then .ok () else p.skipWs.parseError "garbage after data"

end Parser

/-- A text that begins with the first byte of a byte order mark loses three bytes. -/
def skipIntroduction (text : Str) : Str :=
  match text with
  | [] => []
  | c :: _ => if c = 0xef then text.drop 3 else text

def readJson (text : Str) : Except Failure Ptree := do
  let cur := skipIntroduction text
  let p ← Parser.parseValue (cur.length + 1) ⟨cur, 1, []⟩
  p.finish
  return (Callbacks.new.run p.calls).root

end ForexSuite.JsonReader
