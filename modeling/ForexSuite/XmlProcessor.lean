import ForexSuite.Exceptions
import ForexSuite.TextNumbers

/-!
# The XML expression evaluator

`read_xml` turns a document into a property tree: every element has its text and
its children in order, attributes and comments being children with names of
their own. The four `process` functions are one loop over the children with an
accumulator; they differ in its start value and in what they do with an operand
of a given element name. An operand is a number, or, when `std::stoi` throws, the
value `callType` finds below it.

An `int` operation that overflows and a division by zero are undefined in the
source. Here they end the evaluation in a `Trap`.
-/
namespace ForexSuite.XmlProcessor

open TextNumbers Exceptions

/-- `boost::property_tree::ptree`, without the name an element has in its parent. -/
inductive PTree where
  | node (data : Text) (children : List (Text × PTree))

def PTree.data : PTree → Text
  | .node data _ => data

def PTree.children : PTree → List (Text × PTree)
  | .node _ children => children

/-- `get_child` finds the first child of the name, and throws where there is none. -/
def PTree.getChild (t : PTree) (name : Text) : Option PTree :=
  (t.children.find? (·.1 = name)).map Prod.snd

inductive Trap where
  | overflow
  | divideByZero
deriving Repr, DecidableEq

def toInt (n : ℤ) : Except Trap ℤ := if InInt n then .ok n else .error .overflow

def plus (a b : ℤ) : Except Trap ℤ := toInt (a + b)
def minus (a b : ℤ) : Except Trap ℤ := toInt (a - b)
def times (a b : ℤ) : Except Trap ℤ := toInt (a * b)
def divide (a b : ℤ) : Except Trap ℤ := if b = 0 then .error .divideByZero else toInt (a.tdiv b)

/-- What sets one of the `process` functions apart: the start value of its accumulator, and how
it takes in an operand of the given element name. Other children are skipped. -/
structure Accumulator where
  start : ℤ
  operand : Text → Option (ℤ → ℤ → Except Trap ℤ)

def addAccumulator : Accumulator where
  start := 0
  operand name := if name = "item".toList then some plus else none

def subAccumulator : Accumulator where
  start := 0
  operand name :=
    if name = "minuend".toList then some plus
    else if name = "subtrahend".toList then some minus
    else none

def mulAccumulator : Accumulator where
  start := 1
  operand name := if name = "factor".toList then some times else none

def divAccumulator : Accumulator where
  start := 0
  operand name :=
    if name = "dividend".toList then some plus
    else if name = "divisor".toList then some divide
    else none

def accumulatorFor (name : Text) : Option Accumulator :=
  if name = "addition".toList then some addAccumulator
  else if name = "subtraction".toList then some subAccumulator
  else if name = "multiplication".toList then some mulAccumulator
  else if name = "division".toList then some divAccumulator
  else none

mutual

/-- `callType`: the value of the last operator element among the children. -/
def callType : PTree → Except Trap ℤ
  | .node _ children => callTypeLoop 0 children

def callTypeLoop (result : ℤ) : List (Text × PTree) → Except Trap ℤ
  | [] => .ok result
  | (name, t) :: rest =>
      match accumulatorFor name with
      | some acc => do
          let result ← process acc t
          callTypeLoop result rest
      | none => callTypeLoop result rest

/-- The common form of the `process` functions. -/
def process (acc : Accumulator) : PTree → Except Trap ℤ
  | .node _ children => processLoop acc acc.start children

def processLoop (acc : Accumulator) (result : ℤ) : List (Text × PTree) → Except Trap ℤ
  | [] => .ok result
  | (name, t) :: rest =>
      match acc.operand name with
      | some takeIn => do
          let v ← operandValue t
          let result ← takeIn result v
          processLoop acc result rest
      | none => processLoop acc result rest

/-- The `try` and `catch` around an operand. -/
def operandValue : PTree → Except Trap ℤ
  | .node data children =>
      match stoi data with
      | .ok n => .ok n
      | .error _ => callTypeLoop 0 children

end

def processAdd (subtree : PTree) : Except Trap ℤ := process addAccumulator subtree
def processSub (subtree : PTree) : Except Trap ℤ := process subAccumulator subtree
def processMul (subtree : PTree) : Except Trap ℤ := process mulAccumulator subtree
def processDiv (subtree : PTree) : Except Trap ℤ := process divAccumulator subtree

theorem toInt_eq_ok {n : ℤ} (h : InInt n) : toInt n = .ok n := if_pos h

theorem divide_eq_ok {a b : ℤ} (hb : b ≠ 0) (h : InInt (a.tdiv b)) :
    divide a b = .ok (a.tdiv b) := by
  rw [divide, if_neg hb, toInt_eq_ok h]

theorem processLoop_filter (acc : Accumulator) (result : ℤ) (children : List (Text × PTree)) :
    processLoop acc result (children.filter fun c => (acc.operand c.1).isSome) =
      processLoop acc result children := by
  induction children generalizing result with
  | nil => rfl
  | cons c children ih =>
      obtain ⟨name, t⟩ := c
      rcases hop : acc.operand name with _ | takeIn
      · rw [List.filter_cons_of_neg (by simp [hop]), ih, processLoop, hop]
      · rw [List.filter_cons_of_pos (by simp [hop]), processLoop, processLoop, hop]
        simp only [ih]

theorem callTypeLoop_filter (result : ℤ) (children : List (Text × PTree)) :
    callTypeLoop result (children.filter fun c => (accumulatorFor c.1).isSome) =
      callTypeLoop result children := by
  induction children generalizing result with
  | nil => rfl
  | cons c children ih =>
      obtain ⟨name, t⟩ := c
      rcases hop : accumulatorFor name with _ | acc
      · rw [List.filter_cons_of_neg (by simp [hop]), ih, callTypeLoop, hop]
      · rw [List.filter_cons_of_pos (by simp [hop]), callTypeLoop, callTypeLoop, hop]
        simp only [ih]

end ForexSuite.XmlProcessor
