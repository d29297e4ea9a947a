import ForexSuite.XmlSafety

/-!
# The order of the operands

An operand is told by the name of its element. The results of an addition, a
subtraction and a multiplication do not depend on the order in which the operands
stand. In a division they do: the dividend is added to the result when it comes, and
the divisors that come before it have divided zero. Only a dividend of zero, and
divisors of one, may stand in any order.
-/
namespace ForexSuite.XmlPermutations

open TextNumbers XmlProcessor XmlExpressions XmlSafety Exceptions

/-- The roles and exact values of the operands of an element, in document order. -/
def operandsOf (op : Operator) (children : List (Text × PTree)) : List (Role × ℤ) :=
  children.filterMap fun c => (roleOf op c.1).map fun role => (role, exactOperand c.2)

/-- Operands of a division that may stand in any order: the dividend is zero, or the divisors are
one. Beside the least `int` a divisor of -1 may stand, which overflows behind it. -/
def OrderFree (operands : List (Role × ℤ)) : Prop :=
  ∀ d, (.dividend, d) ∈ operands →
    d = 0 ∨ ∀ v, (.divisor, v) ∈ operands → v = 1 ∨ (d = intMin ∧ v = -1)

/-- One operator element around another: the outer element, and the operand in it that contains
the inner one. -/
structure Frame where
  op : Operator
  data : Text
  before : List (Text × PTree)
  operand : Text
  text : Text
  innerBefore : List (Text × PTree)
  innerAfter : List (Text × PTree)
  after : List (Text × PTree)

def Frame.plug (f : Frame) (op : Operator) (t : PTree) : PTree :=
  .node f.data (f.before ++
    (f.operand, .node f.text (f.innerBefore ++ (op.name, t) :: f.innerAfter)) :: f.after)

/-- The element that stands around `t` after all frames of the path, the innermost first. -/
def enclosing : List Frame → Operator → PTree → Operator × PTree
  | [], op, t => (op, t)
  | f :: path, op, t => enclosing path f.op (f.plug op t)

def valueOf (element : Operator × PTree) : Except Trap ℤ := element.1.processFunction element.2

theorem processFunction_eq (op : Operator) (t : PTree) :
    op.processFunction t = process op.accumulator t := by
  cases op <;> rfl

/-! ### Above the reordered element -/

theorem callTypeLoop_congr {op : Operator} {t t' : PTree}
    (h : process op.accumulator t = process op.accumulator t')
    (before after : List (Text × PTree)) (result : ℤ) :
    callTypeLoop result (before ++ (op.name, t) :: after) =
      callTypeLoop result (before ++ (op.name, t') :: after) := by
  induction before generalizing result with
  | nil =>
      rw [List.nil_append, List.nil_append, callTypeLoop, callTypeLoop, accumulatorFor_name]
      simp only [h]
  | cons c before ih =>
      obtain ⟨name, u⟩ := c
      rw [List.cons_append, List.cons_append, callTypeLoop, callTypeLoop]
      simp only [ih]

theorem processLoop_congr {acc : Accumulator} {name : Text} {t t' : PTree}
    (h : operandValue t = operandValue t') (before after : List (Text × PTree)) (result : ℤ) :
    processLoop acc result (before ++ (name, t) :: after) =
      processLoop acc result (before ++ (name, t') :: after) := by
  induction before generalizing result with
  | nil =>
      rw [List.nil_append, List.nil_append, processLoop, processLoop]
      simp only [h]
  | cons c before ih =>
      obtain ⟨name', u⟩ := c
      rw [List.cons_append, List.cons_append, processLoop, processLoop]
      simp only [ih]

/-- An element with the same result may take the place of another one. -/
theorem plug_congr (f : Frame) {op : Operator} {t t' : PTree}
    (h : process op.accumulator t = process op.accumulator t') :
    process f.op.accumulator (f.plug op t) = process f.op.accumulator (f.plug op t') := by
  have hoperand : operandValue (.node f.text (f.innerBefore ++ (op.name, t) :: f.innerAfter)) =
      operandValue (.node f.text (f.innerBefore ++ (op.name, t') :: f.innerAfter)) := by
    rw [operandValue, operandValue]
    simp only [callTypeLoop_congr h]
  rw [Frame.plug, Frame.plug, process, process]
  exact processLoop_congr hoperand f.before f.after _

theorem enclosing_congr (path : List Frame) {op : Operator} {t t' : PTree}
    (h : process op.accumulator t = process op.accumulator t') :
    valueOf (enclosing path op t) = valueOf (enclosing path op t') := by
  induction path generalizing op t t' with
  | nil =>
      rw [enclosing, enclosing, valueOf, valueOf, processFunction_eq, processFunction_eq]
      exact h
  | cons f path ih => exact ih (plug_congr f h)

/-! ### The reordered element -/

theorem exactLoop_eq (op : Operator) (result : ℤ) (children : List (Text × PTree)) :
    exactLoop op result children =
      (operandsOf op children).foldl (fun a v => v.1.takeIn a v.2) result := by
  induction children generalizing result with
  | nil => rw [exactLoop]; rfl
  | cons c children ih =>
      obtain ⟨name, t⟩ := c
      rw [exactLoop, operandsOf, List.filterMap_cons]
      cases roleOf op name with
      | none => exact ih result
      | some role => exact ih _

theorem isOperand_eq (op : Operator) (c : Text × PTree) :
    op.isOperand c = (roleOf op c.1).isSome := by
  rw [Operator.isOperand, operand_eq, Option.isSome_map]

theorem operandsOf_filter (op : Operator) (children : List (Text × PTree)) :
    operandsOf op (children.filter op.isOperand) = operandsOf op children := by
  unfold operandsOf
  rw [List.filterMap_filter]
  congr 1
  funext c
  rw [isOperand_eq]
  cases roleOf op c.1 <;> rfl

/-- Two operands of an operator other than the division can be taken in in either order. -/
theorem takeIn_comm {op : Operator} (hop : op ≠ .division) {name name' : Text} {role role' : Role}
    (h : roleOf op name = some role) (h' : roleOf op name' = some role') (a m n : ℤ) :
    role'.takeIn (role.takeIn a m) n = role.takeIn (role'.takeIn a n) m := by
  unfold roleOf at h h'
  cases op with
  | division => exact (hop rfl).elim
  | addition =>
      dsimp only at h h'
      split_ifs at h h'
      cases h
      cases h'
      exact add_right_comm a m n
  | subtraction =>
      dsimp only at h h'
      split_ifs at h h' <;> cases h <;> cases h' <;> simp only [Role.takeIn] <;> ring
  | multiplication =>
      dsimp only at h h'
      split_ifs at h h'
      cases h
      cases h'
      exact mul_right_comm a m n

theorem roleOf_division {name : Text} {role : Role} (h : roleOf .division name = some role) :
    role = .dividend ∨ role = .divisor := by
  unfold roleOf at h
  dsimp only at h
  split_ifs at h
  · cases h
    exact Or.inl rfl
  · cases h
    exact Or.inr rfl

theorem roleOf_eq_dividend_iff (name : Text) :
    roleOf .division name = some .dividend ↔ name = Role.dividend.name := by
  unfold roleOf
  dsimp only
  split_ifs with hdividend hdivisor
  · exact ⟨fun _ => hdividend, fun _ => rfl⟩
  · exact ⟨nofun, fun h => (hdividend h).elim⟩
  · exact ⟨nofun, fun h => (hdividend h).elim⟩

variable {op : Operator} {data data' : Text} {children children' : List (Text × PTree)}

theorem operandsOf_perm (h : (children.filter op.isOperand).Perm (children'.filter op.isOperand)) :
    (operandsOf op children).Perm (operandsOf op children') := by
  rw [← operandsOf_filter op children, ← operandsOf_filter op children']
  exact h.filterMap _

theorem exactValue_perm (hop : op ≠ .division)
    (h : (children.filter op.isOperand).Perm (children'.filter op.isOperand)) :
    exactValue op (.node data children) = exactValue op (.node data' children') := by
  rw [exactValue, exactValue, exactLoop_eq, exactLoop_eq]
  apply (operandsOf_perm h).foldl_eq'
  intro v hv w hw a
  obtain ⟨c, -, hc⟩ := List.mem_filterMap.mp hv
  obtain ⟨role, hrole, rfl⟩ := Option.map_eq_some_iff.mp hc
  obtain ⟨c', -, hc'⟩ := List.mem_filterMap.mp hw
  obtain ⟨role', hrole', rfl⟩ := Option.map_eq_some_iff.mp hc'
  exact takeIn_comm hop hrole hrole' a _ _

/-- The values of the element and of all elements around it are the same in both orders, if those
of the element are. -/
theorem values_eq_iff (path : List Frame) (hsafe : Safe op (.node data children))
    (hsafe' : Safe op (.node data' children')) :
    (∀ k, valueOf (enclosing (path.take k) op (.node data children)) =
        valueOf (enclosing (path.take k) op (.node data' children'))) ↔
      exactValue op (.node data children) = exactValue op (.node data' children') := by
  have hvalue := (process_eq_ok_iff op _ _).mpr ⟨hsafe, rfl⟩
  have hvalue' := (process_eq_ok_iff op _ _).mpr ⟨hsafe', rfl⟩
  constructor
  · intro h
    have hnode := h 0
    rw [List.take_zero, enclosing, enclosing, valueOf, valueOf, processFunction_eq,
      processFunction_eq, hvalue, hvalue'] at hnode
    exact Except.ok.inj hnode
  · intro h k
    exact enclosing_congr _ (by rw [hvalue, hvalue', h])

/-! ### Divisions -/

theorem exactLoop_append (op : Operator) (result : ℤ) (l l' : List (Text × PTree)) :
    exactLoop op result (l ++ l') = exactLoop op (exactLoop op result l) l' := by
  simp only [exactLoop_eq, operandsOf, List.filterMap_append, List.foldl_append]

theorem safeLoop_append (op : Operator) (result : ℤ) (l l' : List (Text × PTree)) :
    SafeLoop op result (l ++ l') ↔
      SafeLoop op result l ∧ SafeLoop op (exactLoop op result l) l' := by
  induction l generalizing result with
  | nil => simp [SafeLoop, exactLoop]
  | cons c l ih =>
      obtain ⟨name, t⟩ := c
      rw [List.cons_append, SafeLoop, SafeLoop, exactLoop]
      cases roleOf op name with
      | none => exact ih result
      | some role => simp only [ih, and_assoc]

/-- What is no operand does not count. -/
theorem safe_filter : Safe op (.node data (children.filter op.isOperand)) ↔
    Safe op (.node data children) := by
  rw [← exists_ok_iff_safe, ← exists_ok_iff_safe, process, process]
  have hfilter := processLoop_filter op.accumulator op.accumulator.start children
  exact Eq.to_iff (congrArg (fun r => ∃ n, r = Except.ok n) hfilter)

theorem exactValue_filter : exactValue op (.node data (children.filter op.isOperand)) =
    exactValue op (.node data children) := by
  rw [exactValue, exactValue, exactLoop_eq, exactLoop_eq, operandsOf_filter]

variable {l : List (Text × PTree)} {d v : ℤ}

theorem exactLoop_divisors (h : ∀ c ∈ l, roleOf .division c.1 = some .divisor) :
    exactLoop .division 0 l = 0 := by
  induction l with
  | nil => rfl
  | cons c l ih =>
      obtain ⟨name, t⟩ := c
      have hzero : Role.divisor.takeIn 0 (exactOperand t) = 0 := Int.zero_tdiv _
      rw [exactLoop, h (name, t) List.mem_cons_self]
      simp only [hzero]
      exact ih fun c hc => h c (List.mem_cons_of_mem _ hc)

theorem safeLoop_divisors (h : ∀ c ∈ l, roleOf .division c.1 = some .divisor)
    (hsafe : ∀ c ∈ l, SafeOperand c.2 ∧ exactOperand c.2 ≠ 0) : SafeLoop .division 0 l := by
  induction l with
  | nil => trivial
  | cons c l ih =>
      obtain ⟨name, t⟩ := c
      have hzero : Role.divisor.takeIn 0 (exactOperand t) = 0 := Int.zero_tdiv _
      obtain ⟨ht, hne⟩ := hsafe (name, t) List.mem_cons_self
      rw [SafeLoop, h (name, t) List.mem_cons_self]
      simp only [SafeTakeIn, hzero]
      exact ⟨ht, ⟨fun _ => hne, by decide⟩, ih (fun c hc => h c (List.mem_cons_of_mem _ hc))
        fun c hc => hsafe c (List.mem_cons_of_mem _ hc)⟩

theorem safeOperand_of_safeLoop {result : ℤ} (h : SafeLoop .division result l) {c : Text × PTree}
    (hc : c ∈ l) (hrole : roleOf .division c.1 = some .divisor) :
    SafeOperand c.2 ∧ exactOperand c.2 ≠ 0 := by
  induction l generalizing result with
  | nil => cases hc
  | cons c' l ih =>
      obtain ⟨name, t⟩ := c'
      rw [SafeLoop] at h
      rcases List.mem_cons.mp hc with rfl | hc
      · rw [hrole] at h
        exact ⟨h.1, h.2.1.1 rfl⟩
      · cases hname : roleOf .division name with
        | none =>
            rw [hname] at h
            exact ih h hc
        | some role =>
            rw [hname] at h
            exact ih h.2.2 hc

/-- Divisors that may stand in any order leave the dividend as it is. -/
theorem exactLoop_orderFree (h : ∀ c ∈ l, roleOf .division c.1 = some .divisor)
    (hfree : d = 0 ∨ ∀ c ∈ l, exactOperand c.2 = 1 ∨ (d = intMin ∧ exactOperand c.2 = -1))
    (hsafe : SafeLoop .division d l) : exactLoop .division d l = d := by
  rcases hfree with rfl | hfree
  · exact exactLoop_divisors h
  induction l with
  | nil => rfl
  | cons c l ih =>
      obtain ⟨name, t⟩ := c
      rw [SafeLoop, h (name, t) List.mem_cons_self] at hsafe
      rw [exactLoop, h (name, t) List.mem_cons_self]
      obtain ⟨-, ⟨-, hint⟩, hrest⟩ := hsafe
      have hstep : Role.divisor.takeIn d (exactOperand t) = d := by
        rcases hfree (name, t) List.mem_cons_self with hone | ⟨hmin, hneg⟩
        · rw [show exactOperand t = 1 from hone]
          exact Int.tdiv_one d
        · -- the least `int` divided by -1 is none
          rw [hmin, show exactOperand t = -1 from hneg] at hint
          exact absurd hint (by decide)
      rw [hstep] at hrest
      simp only [hstep]
      exact ih (fun c hc => h c (List.mem_cons_of_mem _ hc)) hrest
        fun c hc => hfree c (List.mem_cons_of_mem _ hc)

/-- The operands of a division: divisors, the dividend, and divisors again. -/
structure Division (operands : List (Text × PTree)) where
  front : List (Text × PTree)
  dividend : Text × PTree
  behind : List (Text × PTree)
  operands_eq : operands = front ++ dividend :: behind
  isDividend : roleOf .division dividend.1 = some .dividend
  isDivisor : ∀ c ∈ front ++ behind, roleOf .division c.1 = some .divisor

namespace Division

theorem isOperand (D : Division l) {c : Text × PTree} (hc : c ∈ l) :
    Operator.division.isOperand c = true := by
  rw [isOperand_eq]
  rw [D.operands_eq] at hc
  rcases List.mem_append.mp hc with hc | hc
  · rw [D.isDivisor c (List.mem_append_left _ hc)]
    rfl
  rcases List.mem_cons.mp hc with rfl | hc
  · rw [D.isDividend]
    rfl
  · rw [D.isDivisor c (List.mem_append_right _ hc)]
    rfl

theorem front_isDivisor (D : Division l) :
    ∀ c ∈ D.front, roleOf .division c.1 = some .divisor :=
  fun c hc => D.isDivisor c (List.mem_append_left _ hc)

theorem behind_isDivisor (D : Division l) :
    ∀ c ∈ D.behind, roleOf .division c.1 = some .divisor :=
  fun c hc => D.isDivisor c (List.mem_append_right _ hc)

theorem filter_eq (D : Division l) : l.filter Operator.division.isOperand = l :=
  List.filter_eq_self.mpr fun _ => D.isOperand

theorem operandsOf_eq (D : Division l) :
    operandsOf .division l =
      (D.front.map fun c => (.divisor, exactOperand c.2)) ++
        (.dividend, exactOperand D.dividend.2) ::
          D.behind.map fun c => (.divisor, exactOperand c.2) := by
  have hdivisors (l' : List (Text × PTree))
      (h : ∀ c ∈ l', roleOf .division c.1 = some .divisor) :
      operandsOf .division l' = l'.map fun c => (.divisor, exactOperand c.2) := by
    rw [operandsOf, ← List.filterMap_eq_map']
    exact List.filterMap_congr fun c hc => by rw [h c hc]; rfl
  rw [← hdivisors D.front D.front_isDivisor, ← hdivisors D.behind D.behind_isDivisor]
  conv_lhs => rw [D.operands_eq]
  rw [operandsOf, List.filterMap_append, List.filterMap_cons, D.isDividend]
  rfl

theorem mem_dividend (D : Division l) :
    (.dividend, d) ∈ operandsOf .division l ↔ d = exactOperand D.dividend.2 := by
  rw [D.operandsOf_eq]
  simp

theorem mem_divisor (D : Division l) :
    (.divisor, v) ∈ operandsOf .division l ↔
      ∃ c ∈ D.front ++ D.behind, exactOperand c.2 = v := by
  rw [D.operandsOf_eq]
  simp [or_and_right, exists_or]

theorem exactLoop_eq (D : Division l) :
    exactLoop .division 0 l = exactLoop .division (exactOperand D.dividend.2) D.behind := by
  have hfront := exactLoop_divisors D.front_isDivisor
  conv_lhs => rw [D.operands_eq]
  rw [exactLoop_append, hfront, exactLoop, D.isDividend]
  simp only [Role.takeIn, zero_add]

theorem safeLoop_iff (D : Division l) :
    SafeLoop .division 0 l ↔ SafeLoop .division 0 D.front ∧ SafeOperand D.dividend.2 ∧
      InInt (exactOperand D.dividend.2) ∧
      SafeLoop .division (exactOperand D.dividend.2) D.behind := by
  have hfront := exactLoop_divisors D.front_isDivisor
  conv_lhs => rw [D.operands_eq]
  rw [safeLoop_append, hfront, SafeLoop, D.isDividend]
  simp [SafeTakeIn, Role.takeIn]

end Division

theorem countP_filter_isOperand (children : List (Text × PTree)) :
    (children.filter Operator.division.isOperand).countP (fun c => c.1 = Role.dividend.name) =
      children.countP fun c => c.1 = Role.dividend.name := by
  rw [List.countP_filter]
  refine List.countP_congr fun c _ => ?_
  have hiff := roleOf_eq_dividend_iff c.1
  rw [isOperand_eq]
  cases hrole : roleOf .division c.1 <;> simp_all

/-- An element with one dividend is a division. -/
theorem exists_division (hone : children.countP (fun c => c.1 = Role.dividend.name) = 1) :
    Nonempty (Division (children.filter Operator.division.isOperand)) := by
  have hcount : (children.filter Operator.division.isOperand).countP
      (fun c => c.1 = Role.dividend.name) = 1 := by
    rw [countP_filter_isOperand, hone]
  generalize hl : children.filter Operator.division.isOperand = l at hcount
  have hoperand : ∀ c ∈ l, ∃ role, roleOf .division c.1 = some role := by
    intro c hc
    rw [← hl, List.mem_filter, isOperand_eq] at hc
    exact Option.isSome_iff_exists.mp hc.2
  obtain ⟨c, hc, hname⟩ := List.countP_pos_iff.mp (hcount ▸ Nat.one_pos)
  obtain ⟨front, behind, rfl⟩ := List.append_of_mem hc
  rw [List.countP_append, List.countP_cons, if_pos hname] at hcount
  have hnone : (front ++ behind).countP (fun c => c.1 = Role.dividend.name) = 0 := by
    rw [List.countP_append]
    omega
  refine ⟨⟨front, c, behind, rfl, (roleOf_eq_dividend_iff c.1).mpr (by simpa using hname), ?_⟩⟩
  intro c' hc'
  have hmem : c' ∈ front ++ c :: behind := by
    rcases List.mem_append.mp hc' with h | h
    · exact List.mem_append_left _ h
    · exact List.mem_append_right _ (List.mem_cons_of_mem _ h)
  obtain ⟨role, hrole⟩ := hoperand c' hmem
  rcases roleOf_division hrole with rfl | rfl
  · have hdividend := (roleOf_eq_dividend_iff c'.1).mp hrole
    exact absurd (by simpa using hdividend) (List.countP_eq_zero.mp hnone c' hc')
  · exact hrole

theorem exactValue_eq (D : Division (children.filter Operator.division.isOperand)) :
    exactValue .division (.node data children) =
      exactLoop .division (exactOperand D.dividend.2) D.behind := by
  rw [← exactValue_filter]
  exact D.exactLoop_eq

theorem safe_iff (D : Division (children.filter Operator.division.isOperand)) :
    Safe .division (.node data children) ↔ SafeLoop .division 0 D.front ∧
      SafeOperand D.dividend.2 ∧ InInt (exactOperand D.dividend.2) ∧
      SafeLoop .division (exactOperand D.dividend.2) D.behind := by
  rw [← safe_filter]
  exact D.safeLoop_iff

/-- Whatever the order of such operands is, the value is the dividend. -/
theorem exactValue_orderFree (D : Division (children.filter Operator.division.isOperand))
    (hfree : OrderFree (operandsOf .division children))
    (hsafe : Safe .division (.node data children)) :
    exactValue .division (.node data children) = exactOperand D.dividend.2 := by
  rw [← operandsOf_filter] at hfree
  rw [exactValue_eq D]
  refine exactLoop_orderFree D.behind_isDivisor ?_
    ((safe_iff D).mp hsafe).2.2.2
  refine (hfree _ (D.mem_dividend.mpr rfl)).imp_right fun h c hc => ?_
  exact h _ (D.mem_divisor.mpr ⟨c, List.mem_append_right _ hc, rfl⟩)

theorem OrderFree.perm {operands operands' : List (Role × ℤ)} (h : OrderFree operands)
    (hperm : operands.Perm operands') : OrderFree operands' := by
  intro d hd
  refine (h d (hperm.mem_iff.mpr hd)).imp_right fun hdivisors v hv => ?_
  exact hdivisors v (hperm.mem_iff.mpr hv)

/-- The dividend has the same value in every order. -/
theorem dividend_perm {children' : List (Text × PTree)}
    (D : Division (children.filter Operator.division.isOperand))
    (D' : Division (children'.filter Operator.division.isOperand))
    (hperm : (children.filter Operator.division.isOperand).Perm
      (children'.filter Operator.division.isOperand)) :
    exactOperand D'.dividend.2 = exactOperand D.dividend.2 := by
  have hmem := D'.mem_dividend.mpr rfl
  rw [operandsOf_filter] at hmem
  rw [← D.mem_dividend, operandsOf_filter]
  exact (operandsOf_perm hperm).mem_iff.mpr hmem

theorem inInt_tdiv (hd : InInt d) (h : ¬(d = intMin ∧ v = -1)) : InInt (d.tdiv v) := by
  unfold InInt intMin intMax at *
  have hle : (d.tdiv v).natAbs ≤ d.natAbs := Int.natAbs_tdiv_le_natAbs d v
  by_cases hmin : d = -2147483648
  · have hne : v ≠ -1 := fun hv => h ⟨hmin, hv⟩
    subst hmin
    have hhalf : v ≠ 1 → (Int.tdiv (-2147483648) v).natAbs ≤ 1073741824 := by
      intro hv
      rw [Int.natAbs_tdiv]
      have h2 : v.natAbs = 0 ∨ 2 ≤ v.natAbs := by omega
      rcases h2 with h0 | h2
      · rw [h0]
        decide
      · exact Nat.div_le_of_le_mul (by omega)
    by_cases hv : v = 1
    · subst hv
      decide
    · have := hhalf hv
      omega
  · omega

theorem eq_one_of_tdiv (hd : d ≠ 0) (h : d.tdiv v = d) : v = 1 := by
  have habs : d.natAbs / v.natAbs = d.natAbs := by
    have := congrArg Int.natAbs h
    rwa [Int.natAbs_tdiv] at this
  have hone : v.natAbs = 1 := by
    rcases Nat.div_eq_self.mp habs with h0 | h1
    · omega
    · exact h1
  rcases Int.natAbs_eq v with hv | hv
  · rw [hv, hone]
    rfl
  · rw [hv, hone] at h
    simp at h
    omega

/-- A divisor can be taken out of the others. -/
theorem Division.exists_perm (D : Division l) {c : Text × PTree}
    (hc : c ∈ D.front ++ D.behind) :
    ∃ rest, l.Perm ([D.dividend, c] ++ rest) ∧ ∀ c' ∈ c :: rest, c' ∈ D.front ++ D.behind := by
  obtain ⟨l₁, l₂, hsplit⟩ := List.append_of_mem hc
  have hperm : (D.front ++ D.behind).Perm (c :: (l₁ ++ l₂)) := by
    rw [hsplit]
    exact List.perm_middle
  refine ⟨l₁ ++ l₂, ?_, fun c' hc' => hperm.mem_iff.mpr hc'⟩
  exact (List.Perm.of_eq D.operands_eq).trans (List.perm_middle.trans (.cons _ hperm))

section

variable {rest : List (Text × PTree)} {c dividend : Text × PTree}

/-- The order that ends with the dividend and a divisor behind it. -/
def divisorLast (hdividend : roleOf .division dividend.1 = some .dividend)
    (hrest : ∀ c' ∈ c :: rest, roleOf .division c'.1 = some .divisor) :
    Division (rest ++ [dividend, c]) where
  front := rest
  dividend := dividend
  behind := [c]
  operands_eq := rfl
  isDividend := hdividend
  isDivisor c' hc' := hrest c' (List.perm_append_comm.mem_iff.mp hc')

/-- The order that ends with this divisor and the dividend behind it. -/
def dividendLast (hdividend : roleOf .division dividend.1 = some .dividend)
    (hrest : ∀ c' ∈ c :: rest, roleOf .division c'.1 = some .divisor) :
    Division (rest ++ [c, dividend]) where
  front := rest ++ [c]
  dividend := dividend
  behind := []
  operands_eq := by simp
  isDividend := hdividend
  isDivisor c' hc' := hrest c' (by simpa [or_comm] using hc')

theorem safeLoop_singleton (hrole : roleOf .division c.1 = some .divisor)
    (hsafe : SafeOperand c.2 ∧ exactOperand c.2 ≠ 0) (hint : InInt (d.tdiv (exactOperand c.2))) :
    SafeLoop .division d [c] ∧ exactLoop .division d [c] = d.tdiv (exactOperand c.2) := by
  obtain ⟨name, t⟩ := c
  rw [SafeLoop, exactLoop, hrole]
  exact ⟨⟨hsafe.1, ⟨fun _ => hsafe.2, hint⟩, trivial⟩, rfl⟩

end

/-- If all safe orders give one value, then the operands may stand in any order: a divisor behind
the dividend at the end is compared with the same one just in front of it. -/
theorem orderFree_of_exactValue (D : Division (children.filter Operator.division.isOperand))
    (hsafe : Safe .division (.node data children))
    (h : ∀ children', (children.filter Operator.division.isOperand).Perm
        (children'.filter Operator.division.isOperand) →
      Safe .division (.node data children') →
      exactValue .division (.node data children) = exactValue .division (.node data children')) :
    OrderFree (operandsOf .division children) := by
  obtain ⟨hfront, hdividend, hint, hbehind⟩ := (safe_iff D).mp hsafe
  have hdivisor : ∀ c ∈ D.front ++ D.behind, SafeOperand c.2 ∧ exactOperand c.2 ≠ 0 := by
    intro c hc
    have hrole := D.isDivisor c hc
    rcases List.mem_append.mp hc with hc | hc
    · exact safeOperand_of_safeLoop hfront hc hrole
    · exact safeOperand_of_safeLoop hbehind hc hrole
  rw [← operandsOf_filter]
  intro d hd
  obtain rfl := D.mem_dividend.mp hd
  refine or_iff_not_imp_left.mpr fun hne v hv => ?_
  obtain ⟨c, hc, rfl⟩ := D.mem_divisor.mp hv
  obtain ⟨rest, hperm, hrest⟩ := D.exists_perm hc
  by_contra hnot
  rw [not_or] at hnot
  have hrole : ∀ c' ∈ c :: rest, roleOf .division c'.1 = some .divisor :=
    fun c' hc' => D.isDivisor c' (hrest c' hc')
  let last := divisorLast D.isDividend hrole
  let first := dividendLast D.isDividend hrole
  obtain ⟨hquotient, hvalue⟩ := safeLoop_singleton (D.isDivisor c hc) (hdivisor c hc)
    (inInt_tdiv hint hnot.2)
  have hlast : exactValue .division (.node data children) =
      (exactOperand D.dividend.2).tdiv (exactOperand c.2) := by
    have hzero := safeLoop_divisors (fun c' hc' => hrole c' (List.mem_cons_of_mem _ hc'))
      fun c' hc' => hdivisor c' (hrest c' (List.mem_cons_of_mem _ hc'))
    rw [h (rest ++ [D.dividend, c])
      (by rw [last.filter_eq]; exact hperm.trans List.perm_append_comm)
      (last.safeLoop_iff.mpr ⟨hzero, hdividend, hint, hquotient⟩)]
    exact last.exactLoop_eq.trans hvalue
  have hfirst : exactValue .division (.node data children) = exactOperand D.dividend.2 := by
    have hzero := safeLoop_divisors first.front_isDivisor
      fun c' hc' => hdivisor c' (hrest c' (by simpa [first, dividendLast, or_comm] using hc'))
    have hswap : [D.dividend, c].Perm [c, D.dividend] := .swap _ _ _
    rw [h (rest ++ [c, D.dividend])
      (by rw [first.filter_eq]
          exact hperm.trans (List.perm_append_comm.trans (hswap.append_left rest)))
      (first.safeLoop_iff.mpr ⟨hzero, hdividend, hint, trivial⟩)]
    exact first.exactLoop_eq
  exact hnot.1 (eq_one_of_tdiv hne (hlast.symm.trans hfirst))

/-- In every document, at every depth: putting the operands of an element into any other order that
is computed without overflow and division by zero, a division having one dividend, leaves the
values of the element and of all elements around it as they are, exactly if the element is no
division, or one whose dividend is zero or whose divisors are one. -/
theorem operand_order_iff (path : List Frame) (op : Operator) (data : Text)
    (children : List (Text × PTree))
    (hone : op = .division → children.countP (fun c => c.1 = Role.dividend.name) = 1)
    (hsafe : Safe op (.node data children)) :
    (∀ data' children',
        (children.filter op.isOperand).Perm (children'.filter op.isOperand) →
        Safe op (.node data' children') →
        ∀ k, valueOf (enclosing (path.take k) op (.node data children)) =
          valueOf (enclosing (path.take k) op (.node data' children'))) ↔
      (op = .division → OrderFree (operandsOf op children)) := by
  by_cases hop : op = .division
  · subst hop
    obtain ⟨D⟩ := exists_division (hone rfl)
    constructor
    · intro h _
      refine orderFree_of_exactValue D hsafe fun children' hperm hsafe' => ?_
      exact (values_eq_iff path hsafe hsafe').mp (h data children' hperm hsafe')
    · intro hfree data' children' hperm hsafe'
      rw [values_eq_iff path hsafe hsafe']
      have hone' : children'.countP (fun c => c.1 = Role.dividend.name) = 1 := by
        rw [← countP_filter_isOperand, ← hperm.countP_eq, countP_filter_isOperand]
        exact hone rfl
      obtain ⟨D'⟩ := exists_division hone'
      have hfree' := (hfree rfl).perm (operandsOf_perm hperm)
      rw [exactValue_orderFree D (hfree rfl) hsafe, exactValue_orderFree D' hfree' hsafe',
        dividend_perm D D' hperm]
  · refine ⟨fun _ h => (hop h).elim, fun _ data' children' hperm hsafe' => ?_⟩
    exact (values_eq_iff path hsafe hsafe').mpr (exactValue_perm hop hperm)

/-- A dividend of zero and a divisor of two, in either order, in the second item of an addition. -/
theorem operand_order_of_zero :
    let operand (role : Role) (text : String) : Text × PTree := (role.name, .node text.toList [])
    let sum : Frame := ⟨.addition, [], [operand .item "1"], Role.item.name, [], [], [], []⟩
    let children := [operand .dividend "0", operand .divisor "2"]
    let children' := [operand .divisor "2", operand .dividend "0"]
    valueOf (enclosing [sum] .division (.node [] children)) =
      valueOf (enclosing [sum] .division (.node [] children')) := by
  intro operand sum children children'
  have hsafe : Safe .division (.node [] children) := exists_ok_iff_safe.mp ⟨0, by decide⟩
  have hsafe' : Safe .division (.node [] children') := exists_ok_iff_safe.mp ⟨0, by decide⟩
  have hperm : (children.filter Operator.division.isOperand).Perm
      (children'.filter Operator.division.isOperand) := .swap _ _ _
  have hoperands : operandsOf .division children = [(.dividend, 0), (.divisor, 2)] := by decide
  have hfree : OrderFree (operandsOf .division children) := by
    rw [hoperands]
    intro d hd
    left
    simpa using hd
  exact (operand_order_iff [sum] .division [] children (fun _ => by decide) hsafe).mpr
    (fun _ => hfree) [] children' hperm hsafe' 1

/-- A divisor in front of the dividend. -/
theorem divisor_in_front_is_lost :
    let dividend : Text × PTree := (Role.dividend.name, .node "10".toList [])
    let divisor : Text × PTree := (Role.divisor.name, .node "2".toList [])
    [divisor, dividend].Perm [dividend, divisor] ∧
      processDiv (.node [] [divisor, dividend]) = .ok 10 ∧
      processDiv (.node [] [dividend, divisor]) = .ok 5 := by
  intro dividend divisor
  exact ⟨.swap _ _ _, by decide, by decide⟩

end ForexSuite.XmlPermutations
