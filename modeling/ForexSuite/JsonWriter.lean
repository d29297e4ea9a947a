import Mathlib.Data.List.Basic
import Mathlib.Data.Nat.Notation

/-!
# Property trees and `write_json`

The servers put what they send into a property tree and write it with the library's
`write_json`, on one line. A tree has a datum and children with keys; strings are byte
strings. A node with children and a datum of its own has no JSON, and nor has a root
with a datum: `verify_json` looks for these first, and after that the writer cannot fail.
-/
namespace ForexSuite.JsonWriter

abbrev Str := List UInt8

inductive Ptree where
  | node (data : Str) (children : List (Str × Ptree))
deriving Repr

/-- A tree that is constructed and not filled. -/
def Ptree.empty : Ptree := .node [] []

/-- The induction over a tree, with the hypothesis for every child. -/
@[elab_as_elim] theorem Ptree.induction {motive : Ptree → Prop}
    (node : ∀ data children, (∀ child ∈ children, motive child.2) → motive (.node data children))
    (pt : Ptree) : motive pt :=
  @Ptree.rec motive (fun children => ∀ child ∈ children, motive child.2)
    (fun child => motive child.2) node (by simp)
    (fun _ _ hchild hchildren => List.forall_mem_cons.mpr ⟨hchild, hchildren⟩) (fun _ _ h => h) pt

/-- A `json_parser_error`, which the writer throws too, without its file name. A loop of the
reader may also run out of its fuel. -/
inductive Failure where
  | jsonParserError (message : String) (line : ℕ)
  | outOfFuel
deriving Repr, DecidableEq

def quote : UInt8 := 0x22

def backslash : UInt8 := 0x5c

def hexdigits : Str := "0123456789ABCDEF".toList.map Char.toUInt8

/-- `create_escapes` for one character. -/
def createEscape (c : UInt8) : Str :=
  if c = 0x20 ∨ c = 0x21 ∨ (0x23 ≤ c ∧ c ≤ 0x2e) ∨ (0x30 ≤ c ∧ c ≤ 0x5b) ∨ 0x5d ≤ c then [c]
  else if c = 0x08 then [backslash, 'b'.toUInt8]
  else if c = 0x0c then [backslash, 'f'.toUInt8]
  else if c = 0x0a then [backslash, 'n'.toUInt8]
  else if c = 0x0d then [backslash, 'r'.toUInt8]
  else if c = 0x09 then [backslash, 't'.toUInt8]
  else if c = '/'.toUInt8 then [backslash, '/'.toUInt8]
  else if c = quote then [backslash, quote]
  else if c = backslash then [backslash, backslash]
  else
    let u := min c.toNat 0xffff
    let d1 := u / 4096
    let u := u - d1 * 4096
    let d2 := u / 256
    let u := u - d2 * 256
    let d3 := u / 16
    let d4 := u - d3 * 16
    [backslash, 'u'.toUInt8, hexdigits.getD d1 0, hexdigits.getD d2 0, hexdigits.getD d3 0,
      hexdigits.getD d4 0]

def createEscapes (s : Str) : Str := s.flatMap createEscape

/-- A string between quotes. -/
def writeString (s : Str) : Str := quote :: createEscapes s ++ [quote]

/- The writer without `pretty`: then all `indent` says is whether this is the root. -/
mutual

def writeJsonHelper : Ptree → ℕ → Str
  | .node data children, indent =>
      if 0 < indent ∧ children.isEmpty then writeString data
      else if 0 < indent ∧ children.countP (fun child => child.1 = []) = children.length then
        '['.toUInt8 :: writeItems children (indent + 1) ++ [']'.toUInt8]
      else '{'.toUInt8 :: writeMembers children (indent + 1) ++ ['}'.toUInt8]

def writeItems : List (Str × Ptree) → ℕ → Str
  | [], _ => []
  | (_, child) :: children, indent =>
      writeJsonHelper child indent ++ (if children.isEmpty then [] else [','.toUInt8]) ++
        writeItems children indent

def writeMembers : List (Str × Ptree) → ℕ → Str
  | [], _ => []
  | (key, child) :: children, indent =>
      writeString key ++ ':'.toUInt8 :: writeJsonHelper child indent ++
        (if children.isEmpty then [] else [','.toUInt8]) ++ writeMembers children indent

end

mutual

def verifyJson : Ptree → ℕ → Bool
  | .node data children, depth =>
      if depth = 0 ∧ data ≠ [] then false
      else if data ≠ [] ∧ ¬ children.isEmpty then false
      else verifyChildren children (depth + 1)

def verifyChildren : List (Str × Ptree) → ℕ → Bool
  | [], _ => true
  | (_, child) :: children, depth => verifyJson child depth && verifyChildren children depth

end

/-- The text ends with the line feed of `std::endl`. -/
def writeJson (pt : Ptree) : Except Failure Str :=
  if verifyJson pt 0 then .ok (writeJsonHelper pt 0 ++ ['\n'.toUInt8])
  else .error (.jsonParserError "ptree contains data that cannot be represented in JSON format" 0)

end ForexSuite.JsonWriter
