import ForexSuite.XmlExpressions

/-!
# Arithmetic without limits

The exact value of an element is computed in the integers: a number is what
`std::stoi` reads, and every other operand is worth its last operator element. An
element is safe if no intermediate result of this computation, at any depth, leaves
the range of `int` and no divisor is zero. The evaluator has no check of its own; it
returns the exact value of the safe elements, and traps on all others.
-/
namespace ForexSuite.XmlSafety

open TextNumbers XmlProcessor XmlExpressions Exceptions

/-- The role of an operand of this element name. -/
def roleOf (op : Operator) (name : Text) : Option Role :=
  match op with
  | .addition => if name = Role.item.name then some .item else none
  | .subtraction =>
      if name = Role.minuend.name then some .minuend
      else if name = Role.subtrahend.name then some .subtrahend
      else none
  | .multiplication => if name = Role.factor.name then some .factor else none
  | .division =>
      if name = Role.dividend.name then some .dividend
      else if name = Role.divisor.name then some .divisor
      else none

def operatorOf (name : Text) : Option Operator :=
  if name = Operator.addition.name then some .addition
  else if name = Operator.subtraction.name then some .subtraction
  else if name = Operator.multiplication.name then some .multiplication
  else if name = Operator.division.name then some .division
  else none

mutual

def exactValue (op : Operator) : PTree → ℤ
  | .node _ children => exactLoop op op.accumulator.start children

def exactLoop (op : Operator) (result : ℤ) : List (Text × PTree) → ℤ
  | [] => result
  | (name, t) :: rest =>
      match roleOf op name with
      | some role => exactLoop op (role.takeIn result (exactOperand t)) rest
      | none => exactLoop op result rest

def exactOperand : PTree → ℤ
  | .node data children =>
      match stoi data with
      | .ok n => n
      | .error _ => exactCallType 0 children

def exactCallType (result : ℤ) : List (Text × PTree) → ℤ
  | [] => result
  | (name, t) :: rest =>
      match operatorOf name with
      | some op => exactCallType (exactValue op t) rest
      | none => exactCallType result rest

end

/-- Taking in `b` in this role: the divisor is not zero, and the result is an `int`. -/
def SafeTakeIn (role : Role) (a b : ℤ) : Prop :=
  (role = .divisor → b ≠ 0) ∧ InInt (role.takeIn a b)

mutual

/-- No operation in the computation of the exact value overflows or divides by zero. -/
def Safe (op : Operator) : PTree → Prop
  | .node _ children => SafeLoop op op.accumulator.start children

def SafeLoop (op : Operator) (result : ℤ) : List (Text × PTree) → Prop
  | [] => True
  | (name, t) :: rest =>
      match roleOf op name with
      | some role => SafeOperand t ∧ SafeTakeIn role result (exactOperand t) ∧
          SafeLoop op (role.takeIn result (exactOperand t)) rest
      | none => SafeLoop op result rest

def SafeOperand : PTree → Prop
  | .node data children =>
      match stoi data with
      | .ok _ => True
      | .error _ => SafeCallType children

def SafeCallType : List (Text × PTree) → Prop
  | [] => True
  | (name, t) :: rest =>
      match operatorOf name with
      | some op => Safe op t ∧ SafeCallType rest
      | none => SafeCallType rest

end

/-- The operation of the evaluator for a role. -/
def checked : Role → ℤ → ℤ → Except Trap ℤ
  | .item => plus
  | .minuend => plus
  | .subtrahend => minus
  | .factor => times
  | .dividend => plus
  | .divisor => divide

theorem toInt_eq_ok_iff {m n : ℤ} : toInt m = .ok n ↔ InInt m ∧ n = m := by
  unfold toInt
  split_ifs with h
  · simp [h, eq_comm]
  · simp [h]

theorem checked_eq_ok_iff {role : Role} {a b n : ℤ} :
    checked role a b = .ok n ↔ SafeTakeIn role a b ∧ n = role.takeIn a b := by
  unfold SafeTakeIn
  cases role with
  | divisor =>
      simp only [checked, divide, Role.takeIn]
      split_ifs with hb
      · simp [hb]
      · simp [hb, toInt_eq_ok_iff]
  | _ => simp [checked, plus, minus, times, Role.takeIn, toInt_eq_ok_iff]

theorem map_branch {α β : Type} {p : Prop} [Decidable p] (f : α → β) (a : α) (o : Option α) :
    (if p then some a else o).map f = if p then some (f a) else o.map f := by
  split_ifs <;> rfl

theorem operand_eq (op : Operator) (name : Text) :
    op.accumulator.operand name = (roleOf op name).map checked := by
  unfold roleOf
  cases op <;> simp only [map_branch, Option.map_none] <;> rfl

theorem accumulatorFor_eq (name : Text) :
    accumulatorFor name = (operatorOf name).map Operator.accumulator := by
  unfold operatorOf
  simp only [map_branch, Option.map_none]
  rfl

mutual

/-- The evaluator returns exactly if the element is safe, and then the exact value. -/
theorem process_eq_ok_iff (op : Operator) (n : ℤ) : (t : PTree) →
    (process op.accumulator t = .ok n ↔ Safe op t ∧ n = exactValue op t)
  | .node _ children => by
      rw [process, Safe, exactValue]
      exact processLoop_eq_ok_iff op n _ children

theorem processLoop_eq_ok_iff (op : Operator) (n result : ℤ) : (children : List (Text × PTree)) →
    (processLoop op.accumulator result children = .ok n ↔
      SafeLoop op result children ∧ n = exactLoop op result children)
  | [] => by
      rw [processLoop, SafeLoop, exactLoop, Except.ok.injEq, true_and, eq_comm]
  | (name, t) :: rest => by
      rw [processLoop, SafeLoop, exactLoop, operand_eq]
      rcases roleOf op name with _ | role
      · exact processLoop_eq_ok_iff op n result rest
      · simp only [Option.map_some, bind_eq_ok_iff, operandValue_eq_ok_iff _ t, checked_eq_ok_iff]
        constructor
        · rintro ⟨v, ⟨hv, rfl⟩, m, ⟨hm, rfl⟩, hrest⟩
          have hloop := (processLoop_eq_ok_iff op n _ rest).mp hrest
          exact ⟨⟨hv, hm, hloop.1⟩, hloop.2⟩
        · rintro ⟨⟨hv, hm, hsafe⟩, hn⟩
          exact ⟨_, ⟨hv, rfl⟩, _, ⟨hm, rfl⟩, (processLoop_eq_ok_iff op n _ rest).mpr ⟨hsafe, hn⟩⟩

theorem operandValue_eq_ok_iff (n : ℤ) : (t : PTree) →
    (operandValue t = .ok n ↔ SafeOperand t ∧ n = exactOperand t)
  | .node data children => by
      rw [operandValue, SafeOperand, exactOperand]
      cases stoi data with
      | ok m => simp [eq_comm]
      | error e => exact callTypeLoop_eq_ok_iff n 0 children

theorem callTypeLoop_eq_ok_iff (n result : ℤ) : (children : List (Text × PTree)) →
    (callTypeLoop result children = .ok n ↔
      SafeCallType children ∧ n = exactCallType result children)
  | [] => by
      rw [callTypeLoop, SafeCallType, exactCallType, Except.ok.injEq, true_and, eq_comm]
  | (name, t) :: rest => by
      rw [callTypeLoop, SafeCallType, exactCallType, accumulatorFor_eq]
      rcases operatorOf name with _ | op
      · exact callTypeLoop_eq_ok_iff n result rest
      · simp only [Option.map_some, bind_eq_ok_iff, process_eq_ok_iff op _ t]
        constructor
        · rintro ⟨v, ⟨hv, rfl⟩, hrest⟩
          have hloop := (callTypeLoop_eq_ok_iff n _ rest).mp hrest
          exact ⟨⟨hv, hloop.1⟩, hloop.2⟩
        · rintro ⟨⟨hv, hsafe⟩, hn⟩
          exact ⟨_, ⟨hv, rfl⟩, (callTypeLoop_eq_ok_iff n _ rest).mpr ⟨hsafe, hn⟩⟩

end

theorem exists_ok_iff_safe {op : Operator} {t : PTree} :
    (∃ n, process op.accumulator t = .ok n) ↔ Safe op t := by
  simp only [process_eq_ok_iff]
  exact ⟨fun ⟨_, hsafe, _⟩ => hsafe, fun hsafe => ⟨_, hsafe, rfl⟩⟩

end ForexSuite.XmlSafety
