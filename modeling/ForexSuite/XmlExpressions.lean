import ForexSuite.XmlProcessor
import Mathlib.Algebra.BigOperators.Group.List.Basic

/-!
# Arithmetic expressions written as XML

A `Term` is a number or an operator applied to operands, each of which has a
role: the items of an addition, the minuends and subtrahends of a subtraction,
and so on. Its value is a closed arithmetic expression in the values of the
operands. `EncodesOperator` says that an element is a term written as XML, with
whatever other children in between. The evaluator returns the value of every
term it can evaluate in `int`, by induction on how the term is written.
-/
namespace ForexSuite.XmlExpressions

open TextNumbers XmlProcessor Exceptions

inductive Role where
  | item
  | minuend
  | subtrahend
  | factor
  | dividend
  | divisor
deriving Repr, DecidableEq

inductive Operator where
  | addition
  | subtraction
  | multiplication
  | division
deriving Repr, DecidableEq

inductive Term where
  | lit (n : ℤ)
  | apply (op : Operator) (operands : List (Role × Term))

def Role.name : Role → Text
  | .item => "item".toList
  | .minuend => "minuend".toList
  | .subtrahend => "subtrahend".toList
  | .factor => "factor".toList
  | .dividend => "dividend".toList
  | .divisor => "divisor".toList

def Operator.name : Operator → Text
  | .addition => "addition".toList
  | .subtraction => "subtraction".toList
  | .multiplication => "multiplication".toList
  | .division => "division".toList

/-- The roles the operands of an operator may have, in document order. -/
def Operator.Accepts : Operator → List Role → Prop
  | .addition, roles => ∀ r ∈ roles, r = .item
  | .subtraction, roles => ∀ r ∈ roles, r = .minuend ∨ r = .subtrahend
  | .multiplication, roles => ∀ r ∈ roles, r = .factor
  | .division, roles => ∃ divisors, roles = .dividend :: divisors ∧ ∀ r ∈ divisors, r = .divisor

def valuesIn (role : Role) (values : List (Role × ℤ)) : List ℤ :=
  values.filterMap fun v => if v.1 = role then some v.2 else none

/-- The sum of the items; the minuends minus the subtrahends; the product of the factors; the
dividend divided by the divisors from left to right, each quotient truncated toward zero. -/
def Operator.eval : Operator → List (Role × ℤ) → ℤ
  | .addition, values => (valuesIn .item values).sum
  | .subtraction, values => (valuesIn .minuend values).sum - (valuesIn .subtrahend values).sum
  | .multiplication, values => (valuesIn .factor values).prod
  | .division, values => (valuesIn .divisor values).foldl Int.tdiv (valuesIn .dividend values).sum

mutual

def Term.value : Term → ℤ
  | .lit n => n
  | .apply op operands => op.eval (operandValues operands)

def operandValues : List (Role × Term) → List (Role × ℤ)
  | [] => []
  | (role, t) :: rest => (role, t.value) :: operandValues rest

end

mutual

/-- At every operator of the term, no result of the operands up to some point leaves the range
of `int`, and no divisor is zero. -/
def Term.Safe : Term → Prop
  | .lit _ => True
  | .apply op operands => OperandsSafe operands ∧
      (∀ k, InInt (op.eval ((operandValues operands).take k))) ∧
      ∀ n, (Role.divisor, n) ∈ operandValues operands → n ≠ 0

def OperandsSafe : List (Role × Term) → Prop
  | [] => True
  | (_, t) :: rest => t.Safe ∧ OperandsSafe rest

end

def isOperator (c : Text × PTree) : Bool := (accumulatorFor c.1).isSome

def Operator.accumulator : Operator → Accumulator
  | .addition => addAccumulator
  | .subtraction => subAccumulator
  | .multiplication => mulAccumulator
  | .division => divAccumulator

def Operator.isOperand (op : Operator) (c : Text × PTree) : Bool :=
  (op.accumulator.operand c.1).isSome

mutual

/-- An operand element written as XML: an integer literal, or white space around exactly one
operator element. Other children may stand in between. -/
inductive EncodesOperand : PTree → Term → Prop
  | literal {data : Text} {children : List (Text × PTree)} {n : ℤ} :
      IsIntegerLiteral data n → InInt n → children.filter isOperator = [] →
      EncodesOperand (.node data children) (.lit n)
  | nested {data : Text} {children : List (Text × PTree)} {op : Operator} {t : PTree}
      {operands : List (Role × Term)} :
      (∀ c ∈ data, isSpace c = true) → children.filter isOperator = [(op.name, t)] →
      EncodesOperator t op operands → EncodesOperand (.node data children) (.apply op operands)

/-- An operator element: its operand children are the operands, in order. -/
inductive EncodesOperator : PTree → Operator → List (Role × Term) → Prop
  | mk {data : Text} {children : List (Text × PTree)} {op : Operator}
      {operands : List (Role × Term)} :
      op.Accepts (operands.map Prod.fst) →
      EncodesOperands (children.filter op.isOperand) operands →
      EncodesOperator (.node data children) op operands

inductive EncodesOperands : List (Text × PTree) → List (Role × Term) → Prop
  | nil : EncodesOperands [] []
  | cons {role : Role} {t : PTree} {term : Term} {children : List (Text × PTree)}
      {operands : List (Role × Term)} :
      EncodesOperand t term → EncodesOperands children operands →
      EncodesOperands ((role.name, t) :: children) ((role, term) :: operands)

end

def Role.takeIn : Role → ℤ → ℤ → ℤ
  | .item, a, b => a + b
  | .minuend, a, b => a + b
  | .subtrahend, a, b => a - b
  | .factor, a, b => a * b
  | .dividend, a, b => a + b
  | .divisor, a, b => a.tdiv b

theorem accumulatorFor_name (op : Operator) : accumulatorFor op.name = some op.accumulator := by
  cases op <;> rfl

theorem start_eq (op : Operator) : op.accumulator.start = op.eval [] := by
  cases op <;> rfl

@[simp] theorem valuesIn_append (role : Role) (values : List (Role × ℤ)) (r : Role) (n : ℤ) :
    valuesIn role (values ++ [(r, n)]) =
      valuesIn role values ++ if r = role then [n] else [] := by
  rw [valuesIn, List.filterMap_append]
  congr 1
  by_cases h : r = role <;> simp [h]

/-- One more operand, in a role the operator accepts there. -/
theorem eval_append {op : Operator} {values : List (Role × ℤ)} {role : Role} {n : ℤ}
    {rest : List Role} (h : op.Accepts (values.map Prod.fst ++ role :: rest)) :
    op.eval (values ++ [(role, n)]) = role.takeIn (op.eval values) n := by
  cases op with
  | addition =>
      obtain rfl : role = .item := h role (by simp)
      simp [Operator.eval, Role.takeIn]
  | subtraction =>
      rcases h role (by simp) with rfl | rfl
      · simp only [Operator.eval, valuesIn_append, Role.takeIn]
        simp
        ring
      · simp only [Operator.eval, valuesIn_append, Role.takeIn]
        simp
        ring
  | multiplication =>
      obtain rfl : role = .factor := h role (by simp)
      simp [Operator.eval, Role.takeIn]
  | division =>
      obtain ⟨divisors, heq, hall⟩ := h
      cases values with
      | nil =>
          obtain ⟨rfl, -⟩ : role = .dividend ∧ _ := by simpa using heq
          simp [Operator.eval, Role.takeIn, valuesIn]
      | cons v values =>
          have htail : values.map Prod.fst ++ role :: rest = divisors := by
            simp only [List.map_cons, List.cons_append, List.cons.injEq] at heq
            exact heq.2
          obtain rfl : role = .divisor := hall role (by simp [← htail])
          simp only [Operator.eval, valuesIn_append, Role.takeIn]
          simp

theorem Operator.Accepts.operand {op : Operator} {roles : List Role} (h : op.Accepts roles)
    (role : Role) (hrole : role ∈ roles) :
    ∃ takeIn, op.accumulator.operand role.name = some takeIn ∧
      ∀ a b, InInt (role.takeIn a b) → (role = .divisor → b ≠ 0) →
        takeIn a b = .ok (role.takeIn a b) := by
  have hplus (a b : ℤ) (hab : InInt (a + b)) : plus a b = .ok (a + b) := toInt_eq_ok hab
  cases op with
  | addition =>
      obtain rfl : role = .item := h role hrole
      exact ⟨plus, rfl, fun a b hab _ => hplus a b hab⟩
  | subtraction =>
      rcases h role hrole with rfl | rfl
      · exact ⟨plus, rfl, fun a b hab _ => hplus a b hab⟩
      · exact ⟨minus, rfl, fun a b hab _ => toInt_eq_ok hab⟩
  | multiplication =>
      obtain rfl : role = .factor := h role hrole
      exact ⟨times, rfl, fun a b hab _ => toInt_eq_ok hab⟩
  | division =>
      obtain ⟨divisors, rfl, hall⟩ := h
      rcases List.mem_cons.mp hrole with rfl | hrole
      · exact ⟨plus, rfl, fun a b hab _ => hplus a b hab⟩
      · obtain rfl : role = .divisor := hall role hrole
        exact ⟨divide, rfl, fun a b hab hb => divide_eq_ok (hb rfl) hab⟩

def HasValue (c : Text × PTree) (v : Role × ℤ) : Prop :=
  c.1 = v.1.name ∧ operandValue c.2 = .ok v.2

/-- The loop over operands of known values, from the result of the operands before them. -/
theorem processLoop_eq {op : Operator} {children : List (Text × PTree)}
    {values : List (Role × ℤ)} (h : List.Forall₂ HasValue children values)
    (before : List (Role × ℤ)) (haccepts : op.Accepts ((before ++ values).map Prod.fst))
    (hint : ∀ k, InInt (op.eval ((before ++ values).take k)))
    (hdivisor : ∀ n, (Role.divisor, n) ∈ values → n ≠ 0) :
    processLoop op.accumulator (op.eval before) children = .ok (op.eval (before ++ values)) := by
  induction h generalizing before with
  | nil => rw [List.append_nil]; rfl
  | @cons c v children values hc _ ih =>
      obtain ⟨name, t⟩ := c
      obtain ⟨role, n⟩ := v
      obtain ⟨rfl, ht⟩ : name = role.name ∧ operandValue t = .ok n := hc
      have hsplit : before ++ (role, n) :: values = (before ++ [(role, n)]) ++ values := by simp
      have heval : op.eval (before ++ [(role, n)]) = role.takeIn (op.eval before) n := by
        rw [List.map_append, List.map_cons] at haccepts
        exact eval_append haccepts
      -- the prefix that ends with this operand is one of the results kept in range
      have hresult : InInt (role.takeIn (op.eval before) n) := by
        have hk := hint (before.length + 1)
        rw [hsplit, List.take_left' (by simp), heval] at hk
        exact hk
      have hne : role = .divisor → n ≠ 0 := by
        intro hrole
        subst hrole
        exact hdivisor n (by simp)
      obtain ⟨takeIn, hop, htakeIn⟩ := haccepts.operand role (by simp)
      have hrest : processLoop op.accumulator (op.eval (before ++ [(role, n)])) children =
          .ok (op.eval (before ++ [(role, n)] ++ values)) := by
        refine ih _ ?_ ?_ fun m hm => hdivisor m (List.mem_cons_of_mem _ hm)
        · rwa [← hsplit]
        · rwa [← hsplit]
      rw [processLoop, hop]
      simp only [ht, ok_bind]
      rw [htakeIn _ _ hresult hne, ok_bind, ← heval, hsplit]
      exact hrest

theorem callTypeLoop_of_one {children : List (Text × PTree)} {op : Operator} {t : PTree}
    (h : children.filter isOperator = [(op.name, t)]) :
    callTypeLoop 0 children = process op.accumulator t := by
  have hfilter : callTypeLoop 0 (children.filter isOperator) = callTypeLoop 0 children :=
    callTypeLoop_filter 0 children
  rw [← hfilter, h, callTypeLoop, accumulatorFor_name]
  rcases hp : process op.accumulator t with e | n
  · simp [hp]
  · simp [hp, callTypeLoop]

theorem map_fst_operandValues (operands : List (Role × Term)) :
    (operandValues operands).map Prod.fst = operands.map Prod.fst := by
  induction operands with
  | nil => rfl
  | cons o operands ih => simp [operandValues, ih]

mutual

theorem operandValue_eq {t : PTree} {term : Term} :
    EncodesOperand t term → term.Safe → operandValue t = .ok term.value
  | .literal hlit hn _, _ => by
      rw [operandValue, stoi_literal hlit hn]
      rfl
  | .nested hdata hone henc, hsafe => by
      have hvalue := process_eq henc hsafe
      rw [← callTypeLoop_of_one hone] at hvalue
      rw [operandValue, stoi_space hdata]
      exact hvalue

theorem process_eq {t : PTree} {op : Operator} {operands : List (Role × Term)} :
    EncodesOperator t op operands → (Term.apply op operands).Safe →
      process op.accumulator t = .ok (Term.apply op operands).value
  | .mk haccepts henc, hsafe => by
      have hvalues := hasValue_of_encodes henc hsafe.1
      have hroles : op.Accepts (([] ++ operandValues operands).map Prod.fst) := by
        rwa [List.nil_append, map_fst_operandValues]
      rw [process, ← processLoop_filter, start_eq]
      exact processLoop_eq hvalues [] hroles hsafe.2.1 hsafe.2.2

theorem hasValue_of_encodes {children : List (Text × PTree)} {operands : List (Role × Term)} :
    EncodesOperands children operands → OperandsSafe operands →
      List.Forall₂ HasValue children (operandValues operands)
  | .nil, _ => .nil
  | .cons ht henc, hsafe =>
      .cons ⟨rfl, operandValue_eq ht hsafe.1⟩ (hasValue_of_encodes henc hsafe.2)

end

def Operator.processFunction : Operator → PTree → Except Trap ℤ
  | .addition => processAdd
  | .subtraction => processSub
  | .multiplication => processMul
  | .division => processDiv

/-- For every expression written as XML, at any depth and with any other children in between,
that can be evaluated in `int`, the `process` function of its operator returns its value, and
so does `callType` on a parent that holds this operator element and no other. -/
theorem evaluates_to_value (t : PTree) (op : Operator) (operands : List (Role × Term))
    (henc : EncodesOperator t op operands) (hsafe : (Term.apply op operands).Safe) :
    op.processFunction t = .ok (Term.apply op operands).value ∧
      ∀ data children, children.filter isOperator = [(op.name, t)] →
        callType (.node data children) = .ok (Term.apply op operands).value := by
  have hprocess := process_eq henc hsafe
  refine ⟨?_, fun data children hone => ?_⟩
  · cases op <;> exact hprocess
  · rw [callType]
    exact (callTypeLoop_of_one hone).trans hprocess

def difference : PTree :=
  .node "".toList
    [("minuend".toList, .node "7".toList []),
     ("<xmlcomment>".toList, .node "note".toList []),
     ("subtrahend".toList, .node " 3 ".toList [])]

/-- The content of an addition with an attribute, the subtraction being its second item. -/
def nestedSum : PTree :=
  .node "".toList
    [("<xmlattr>".toList, .node "".toList [("id".toList, .node "10".toList [])]),
     ("item".toList, .node "2".toList []),
     ("item".toList, .node "\n\t".toList [("subtraction".toList, difference)])]

def nestedOperands : List (Role × Term) :=
  [(.item, .lit 2), (.item, .apply .subtraction [(.minuend, .lit 7), (.subtrahend, .lit 3)])]

theorem encodes_nestedSum : EncodesOperator nestedSum .addition nestedOperands := by
  have two : IsIntegerLiteral "2".toList 2 :=
    ⟨[], [], ['2'], [], false, rfl, Or.inl rfl, by simp, by simp, by simp, by simp [isDigit], rfl⟩
  have seven : IsIntegerLiteral "7".toList 7 :=
    ⟨[], [], ['7'], [], false, rfl, Or.inl rfl, by simp, by simp, by simp, by simp [isDigit], rfl⟩
  have three : IsIntegerLiteral " 3 ".toList 3 :=
    ⟨[' '], [], ['3'], [' '], false, rfl, Or.inl rfl, by simp [isSpace], by simp [isSpace], by simp,
      by simp [isDigit], rfl⟩
  have hsub : EncodesOperands
      [(Role.minuend.name, .node "7".toList []), (Role.subtrahend.name, .node " 3 ".toList [])]
      [(.minuend, .lit 7), (.subtrahend, .lit 3)] :=
    .cons (.literal seven (by decide) rfl) (.cons (.literal three (by decide) rfl) .nil)
  have hsub : EncodesOperator difference .subtraction [(.minuend, .lit 7), (.subtrahend, .lit 3)] :=
    .mk (by simp [Operator.Accepts]) hsub
  have hsum : EncodesOperands
      [(Role.item.name, .node "2".toList []),
       (Role.item.name, .node "\n\t".toList [("subtraction".toList, difference)])]
      nestedOperands :=
    .cons (.literal two (by decide) rfl) (.cons (.nested (by simp [isSpace]) rfl hsub) .nil)
  exact .mk (by simp [Operator.Accepts, nestedOperands]) hsum

theorem safe_nestedOperands : (Term.apply .addition nestedOperands).Safe := by
  have hsub (k : ℕ) : InInt (Operator.subtraction.eval
      ([(Role.minuend, 7), (Role.subtrahend, 3)].take k)) := by
    rcases k with _ | _ | k <;> simp [InInt, Operator.eval, valuesIn, intMin, intMax]
  have hsum (k : ℕ) : InInt (Operator.addition.eval ([(Role.item, 2), (Role.item, 4)].take k)) := by
    rcases k with _ | _ | k <;> simp [InInt, Operator.eval, valuesIn, intMin, intMax]
  exact ⟨⟨trivial, ⟨⟨trivial, trivial, trivial⟩, hsub, by simp [operandValues]⟩, trivial⟩, hsum,
    by simp [nestedOperands, operandValues]⟩

theorem evaluates_to_value_nestedSum : processAdd nestedSum = .ok 6 :=
  (evaluates_to_value nestedSum .addition nestedOperands encodes_nestedSum
    safe_nestedOperands).1

end ForexSuite.XmlExpressions
