import ForexSuite.XmlProcessor

/-!
# What an operand is worth

The evaluator reports no operand as an error. It takes the integer the text of
the element starts with, whatever follows it; where there is none in the range of
`int`, it evaluates the operator elements among the children and takes the value
of the last one, or zero. Every operand of the grammar gets its value this way.
-/
namespace ForexSuite.XmlOperands

open TextNumbers XmlProcessor Exceptions

/-- The outcomes of the operator elements among the children, in order. -/
def operatorResults (children : List (Text × PTree)) : List (Except Trap ℤ) :=
  children.filterMap fun c => (accumulatorFor c.1).map fun acc => process acc c.2

/-- The text of the element starts with an integer that is an `int`. -/
def HasNumber (data : Text) : Prop := ∃ n, StartsWithInteger data n ∧ InInt n

/-- The last of the outcomes, or zero; the first that is a trap ends the evaluation. -/
def lastResult (results : List (Except Trap ℤ)) : Except Trap ℤ := results.foldlM (fun _ r => r) 0

variable {data : Text} {children : List (Text × PTree)}

theorem callTypeLoop_eq (result : ℤ) (children : List (Text × PTree)) :
    callTypeLoop result children = (operatorResults children).foldlM (fun _ r => r) result := by
  induction children generalizing result with
  | nil => rfl
  | cons c children ih =>
      obtain ⟨name, t⟩ := c
      unfold operatorResults at ih ⊢
      rw [callTypeLoop, List.filterMap_cons]
      cases accumulatorFor name with
      | none => exact ih result
      | some acc =>
          simp only [Option.map_some, List.foldlM_cons]
          cases process acc t with
          | error trap => rfl
          | ok r => exact ih r

theorem foldlM_last_ok (v : ℤ) (vs : List ℤ) :
    (vs.map Except.ok).foldlM (fun _ (r : Except Trap ℤ) => r) v = .ok (vs.getLastD v) := by
  induction vs generalizing v with
  | nil => rfl
  | cons w vs ih => rw [List.map_cons, List.foldlM_cons, ok_bind, ih, List.getLastD_cons]

/-- A trap is the trap of one of the outcomes. -/
theorem mem_of_foldlM_last_error {v : ℤ} {results : List (Except Trap ℤ)} {trap : Trap}
    (h : results.foldlM (fun _ r => r) v = .error trap) : .error trap ∈ results := by
  induction results generalizing v with
  | nil => cases h
  | cons r results ih =>
      rw [List.foldlM_cons] at h
      cases r with
      | error e => exact List.mem_cons.mpr (Or.inl h.symm)
      | ok w => exact List.mem_cons_of_mem _ (ih h)

theorem operandValue_of_number {n : ℤ} (hstart : StartsWithInteger data n) (hn : InInt n) :
    operandValue (.node data children) = .ok n := by
  rw [operandValue, stoi_eq_ok_iff.mpr ⟨hstart, hn⟩]

theorem operandValue_of_no_number (h : ¬ HasNumber data) :
    operandValue (.node data children) = lastResult (operatorResults children) := by
  rw [operandValue, lastResult, ← callTypeLoop_eq]
  cases hstoi : stoi data with
  | ok n => exact (h ⟨n, stoi_eq_ok_iff.mp hstoi⟩).elim
  | error e => rfl

theorem operandValue_error {trap : Trap} (h : operandValue (.node data children) = .error trap) :
    .error trap ∈ operatorResults children := by
  by_cases hnumber : HasNumber data
  · have ⟨n, hstart, hn⟩ := hnumber
    rw [operandValue_of_number hstart hn] at h
    cases h
  · rw [operandValue_of_no_number hnumber] at h
    exact mem_of_foldlM_last_error h

theorem not_hasNumber_of_space (h : ∀ c ∈ data, isSpace c = true) : ¬ HasNumber data := by
  intro hnumber
  have ⟨n, hn⟩ := hnumber
  have hstoi := stoi_eq_ok_iff.mpr hn
  rw [stoi_space h] at hstoi
  cases hstoi

/-- Every operand element of every document has the value of the integer its text starts with,
whatever follows; where there is none in the range of `int`, it has the value of the last operator
element it contains, or zero. It fails only where one of these elements does. An integer literal
has its value, and white space around one operator element the value of the element. -/
theorem operand_takes_number_or_last_operator (data : Text) (children : List (Text × PTree)) :
    (∀ n, StartsWithInteger data n → InInt n → operandValue (.node data children) = .ok n) ∧
    (¬ HasNumber data →
      operandValue (.node data children) = lastResult (operatorResults children) ∧
        ∀ vs : List ℤ, operatorResults children = vs.map Except.ok →
          operandValue (.node data children) = .ok (vs.getLastD 0)) ∧
    (∀ trap, operandValue (.node data children) = .error trap →
      .error trap ∈ operatorResults children) ∧
    (∀ n, IsIntegerLiteral data n → InInt n → operandValue (.node data children) = .ok n) ∧
    ((∀ c ∈ data, isSpace c = true) → ∀ result, operatorResults children = [result] →
      operandValue (.node data children) = result) := by
  refine ⟨fun n hstart hn => operandValue_of_number hstart hn, ?_,
    fun trap htrap => operandValue_error htrap,
    fun n hliteral hn => operandValue_of_number hliteral.startsWith hn, ?_⟩
  · intro hnone
    refine ⟨operandValue_of_no_number hnone, ?_⟩
    intro vs hvs
    rw [operandValue_of_no_number hnone, hvs]
    exact foldlM_last_ok 0 vs
  · intro hspace result hresult
    rw [operandValue_of_no_number (not_hasNumber_of_space hspace), hresult]
    cases result <;> rfl

/-- An item of the text `12abc` is no literal, and counts as 12. -/
theorem trailing_characters_are_ignored :
    (¬ ∃ n, IsIntegerLiteral "12abc".toList n) ∧
      processAdd (.node [] [("item".toList, .node "12abc".toList [])]) = .ok 12 := by
  constructor
  · intro h
    have ⟨n, hn⟩ := h
    have hnot : 'a' ∉ "12abc".toList :=
      hn.notMem (by decide) (by decide) (by decide) (by decide)
    simp at hnot
  · decide

end ForexSuite.XmlOperands
