import ForexSuite.XmlDocuments

/-!
# Documents that reach a trap

Not every element of a document is evaluated: an element without an attribute
besides `complex` is passed over, and the first child of the root that has no
attributes at all ends the processing. What is left has to be safe, and whatever is
printed is then the exact value of such an element.
-/
namespace ForexSuite.XmlSafety

open TextNumbers XmlProcessor XmlExpressions XmlDocuments

/-- The document reaches a trap. -/
def Trapped (o : Output) : Prop := ∃ trap, o.failure = some (.trap trap)

def hasAttributes (c : Text × PTree) : Bool := (c.2.getChild xmlattr).isSome

/-- The element has an attribute besides `complex`. -/
def isShown (c : Text × PTree) : Bool :=
  (c.2.getChild xmlattr).any fun attributes => attributes.children.any (·.1 ≠ complex)

/-- The children of the root that are evaluated if they are operator elements: those with an
attribute besides `complex`, up to the first child without attributes. -/
def evaluated (pt : PTree) : List (Text × PTree) :=
  match pt.getChild expressions with
  | some root => (root.children.takeWhile hasAttributes).filter isShown
  | none => []

/-- If the element is evaluated, it is safe. -/
def SafeIfShown (c : Text × PTree) : Prop :=
  isShown c = true → ∀ op, operatorOf c.1 = some op → Safe op c.2

theorem printResult_cases (c a : Text × PTree) :
    (a.1 = complex ∨ operatorOf c.1 = none) ∧ printResult c a = {} ∨
      ∃ op, a.1 ≠ complex ∧ operatorOf c.1 = some op ∧
        (Safe op c.2 ∧ printResult c a = { lines := [⟨a.1, a.2.data, exactValue op c.2⟩] } ∨
          ¬ Safe op c.2 ∧ ∃ trap, printResult c a = { failure := some (.trap trap) }) := by
  unfold printResult
  rw [accumulatorFor_eq]
  by_cases hcomplex : a.1 = complex
  · exact Or.inl ⟨Or.inl hcomplex, if_pos hcomplex⟩
  · rw [if_neg hcomplex]
    cases hop : operatorOf c.1 with
    | none => exact Or.inl ⟨Or.inr rfl, rfl⟩
    | some op =>
        refine Or.inr ⟨op, hcomplex, rfl, ?_⟩
        simp only [Option.map_some]
        cases hvalue : process op.accumulator c.2 with
        | ok n =>
            obtain ⟨hsafe, rfl⟩ := (process_eq_ok_iff op n c.2).mp hvalue
            exact Or.inl ⟨hsafe, rfl⟩
        | error trap =>
            refine Or.inr ⟨?_, trap, rfl⟩
            intro hsafe
            obtain ⟨n, hn⟩ := exists_ok_iff_safe.mpr hsafe
            rw [hvalue] at hn
            cases hn

theorem isShown_eq {c : Text × PTree} {attributes : PTree}
    (h : c.2.getChild xmlattr = some attributes) :
    isShown c = true ↔ ∃ a ∈ attributes.children, a.1 ≠ complex := by
  simp [isShown, h]

theorem printElement_eq {c : Text × PTree} {attributes : PTree}
    (h : c.2.getChild xmlattr = some attributes) :
    printElement c = printAll (printResult c) attributes.children := by
  rw [printElement, h]

theorem printElement_failure_iff {c : Text × PTree} {attributes : PTree}
    (h : c.2.getChild xmlattr = some attributes) :
    (printElement c).failure = none ↔ SafeIfShown c := by
  rw [printElement_eq h, printAll_failure_eq_none_iff]
  constructor
  · intro hall hshown op hop
    obtain ⟨a, ha, hne⟩ := (isShown_eq h).mp hshown
    have hnone := hall a ha
    obtain ⟨hno, -⟩ | ⟨op', -, hop', ⟨hsafe, -⟩ | ⟨-, trap, hprint⟩⟩ := printResult_cases c a
    · rcases hno with hcomplex | hno
      · exact (hne hcomplex).elim
      · rw [hno] at hop
        cases hop
    · rw [hop] at hop'
      cases hop'
      exact hsafe
    · rw [hprint] at hnone
      cases hnone
  · intro hsafe a ha
    obtain ⟨-, hprint⟩ | ⟨op, hne, hop, ⟨-, hprint⟩ | ⟨hnot, -⟩⟩ := printResult_cases c a
    · rw [hprint]
    · rw [hprint]
    · exact (hnot (hsafe ((isShown_eq h).mpr ⟨a, ha, hne⟩) op hop)).elim

/-- An element with attributes can only fail with a trap. -/
theorem printElement_trapped {c : Text × PTree} {attributes : PTree} {e : Failure}
    (h : c.2.getChild xmlattr = some attributes) (hfail : (printElement c).failure = some e) :
    ∃ trap, e = .trap trap := by
  rw [printElement_eq h] at hfail
  obtain ⟨a, -, ha⟩ := printAll_failure_mem hfail
  obtain ⟨-, hprint⟩ | ⟨op, -, -, ⟨-, hprint⟩ | ⟨-, trap, hprint⟩⟩ := printResult_cases c a
  · rw [hprint] at ha
    cases ha
  · rw [hprint] at ha
    cases ha
  · rw [hprint] at ha
    cases ha
    exact ⟨trap, rfl⟩

theorem printElement_lines {c : Text × PTree} {line : ResultLine}
    (h : line ∈ (printElement c).lines) :
    ∃ op, operatorOf c.1 = some op ∧ Safe op c.2 ∧ line.result = exactValue op c.2 := by
  cases hattr : c.2.getChild xmlattr with
  | none =>
      rw [printElement, hattr] at h
      cases h
  | some attributes =>
      rw [printElement_eq hattr] at h
      obtain ⟨a, -, ha⟩ := printAll_lines_mem h
      obtain ⟨-, hprint⟩ | ⟨op, -, hop, ⟨hsafe, hprint⟩ | ⟨-, trap, hprint⟩⟩ :=
        printResult_cases c a
      · rw [hprint] at ha
        cases ha
      · rw [hprint, List.mem_singleton] at ha
        exact ⟨op, hop, hsafe, by rw [ha]⟩
      · rw [hprint] at ha
        cases ha

/-- The induction over the children of the root. -/
theorem children_trapped_iff (children : List (Text × PTree)) :
    ¬ Trapped (printAll printElement children) ↔
      ∀ c ∈ (children.takeWhile hasAttributes).filter isShown, SafeIfShown c := by
  induction children with
  | nil => simp [Trapped, printAll]
  | cons c children ih =>
      rw [printAll, Output.andThen]
      cases hattr : c.2.getChild xmlattr with
      | none =>
          have hno : hasAttributes c = false := by rw [hasAttributes, hattr]; rfl
          rw [List.takeWhile_cons_of_neg (by simp [hno]), printElement, hattr]
          simp [Trapped]
      | some attributes =>
          have hyes : hasAttributes c = true := by rw [hasAttributes, hattr]; rfl
          have hcons : (∀ d ∈ ((c :: children).takeWhile hasAttributes).filter isShown,
              SafeIfShown d) ↔ SafeIfShown c ∧
                ∀ d ∈ (children.takeWhile hasAttributes).filter isShown, SafeIfShown d := by
            rw [List.takeWhile_cons_of_pos hyes, List.filter_cons]
            split_ifs with hshown
            · exact List.forall_mem_cons
            · exact ⟨fun h => ⟨fun hc => (hshown hc).elim, h⟩, fun h => h.2⟩
          rw [hcons, ← ih]
          cases hfail : (printElement c).failure with
          | none =>
              have hsafe := (printElement_failure_iff hattr).mp hfail
              simp [Trapped, hsafe]
          | some e =>
              obtain ⟨trap, rfl⟩ := printElement_trapped hattr hfail
              have hnot : ¬ SafeIfShown c := by
                intro hsafe
                rw [(printElement_failure_iff hattr).mpr hsafe] at hfail
                cases hfail
              simp [Trapped, hfail, hnot]

/-- For every document: no operation of its processing overflows or divides by zero exactly if every
expression that is evaluated is safe at every depth, and whatever it prints are exact values of safe
expressions. Nothing checks this, and no error is reported. -/
theorem arithmetic_is_safe_iff (pt : PTree) :
    (¬ Trapped (processXML pt) ↔
      ∀ c ∈ evaluated pt, ∀ op, operatorOf c.1 = some op → Safe op c.2) ∧
    ∀ line ∈ (processXML pt).lines, ∃ root c op, pt.getChild expressions = some root ∧
      c ∈ root.children ∧ operatorOf c.1 = some op ∧ Safe op c.2 ∧
      line.result = exactValue op c.2 := by
  unfold processXML evaluated
  cases hroot : pt.getChild expressions with
  | none => simp [Trapped]
  | some root =>
      constructor
      · rw [children_trapped_iff]
        constructor
        · intro h c hc
          exact h c hc (List.mem_filter.mp hc).2
        · intro h c hc _
          exact h c hc
      · intro line hline
        obtain ⟨c, hc, hmem⟩ := printAll_lines_mem hline
        obtain ⟨op, hop, hsafe, hresult⟩ := printElement_lines hmem
        exact ⟨root, c, op, rfl, hc, hop, hsafe, hresult⟩

/-- An item that says 2147483647 and one that says 1; a divisor whose value is no number. -/
theorem unsafe_expressions_are_computed :
    let attributes : Text × PTree := (xmlattr, .node [] [("id".toList, .node "1".toList [])])
    let sum : PTree := .node [] [attributes, ("item".toList, .node "2147483647".toList []),
      ("item".toList, .node "1".toList [])]
    let quotient : PTree := .node [] [attributes, ("dividend".toList, .node "1".toList []),
      ("divisor".toList, .node "two".toList [])]
    let documentOf (name : Text) (t : PTree) : PTree :=
      .node [] [(expressions, .node [] [(name, t)])]
    processXML (documentOf "addition".toList sum) = ⟨[], some (.trap .overflow)⟩ ∧
      processXML (documentOf "division".toList quotient) = ⟨[], some (.trap .divideByZero)⟩ := by
  intro attributes sum quotient documentOf
  decide

end ForexSuite.XmlSafety
