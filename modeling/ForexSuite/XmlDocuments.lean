import ForexSuite.XmlSafety

/-!
# What is printed for a document

`processXML` goes over all children of the root `expressions`. For each it asks for
the attributes, an exception if there are none, and prints one line for every
attribute but `complex`. A comment between two elements is a child of the root like
them, and has no attributes. The attributes of the root itself are its first child, and
have none either.
-/
namespace ForexSuite.XmlDocuments

open TextNumbers XmlProcessor XmlExpressions XmlSafety

/-- A line of the output: an attribute, its value, and the value of the element. -/
structure ResultLine where
  attr : Text
  value : Text
  result : ℤ
deriving Repr, DecidableEq

/-- What ends the processing of a document early. -/
inductive Failure where
  | trap (trap : Trap)
  | badPath (path : Text)
  | xmlParserError
deriving Repr, DecidableEq

structure Output where
  lines : List ResultLine := []
  failure : Option Failure := none
deriving Repr, DecidableEq

/-- After a failure nothing more is done. -/
def Output.andThen (first second : Output) : Output :=
  match first.failure with
  | some _ => first
  | none => ⟨first.lines ++ second.lines, second.failure⟩

def printAll {α : Type} (print : α → Output) : List α → Output
  | [] => {}
  | a :: as => (print a).andThen (printAll print as)

def xmlattr : Text := "<xmlattr>".toList
def xmlcomment : Text := "<xmlcomment>".toList
def complex : Text := "complex".toList
def expressions : Text := "expressions".toList

/-- The body of the inner loop, for an attribute of the element `c`. -/
def printResult (c : Text × PTree) (attr : Text × PTree) : Output :=
  if attr.1 = complex then {}
  else
    match accumulatorFor c.1 with
    | none => {}
    | some acc =>
        match process acc c.2 with
        | .ok n => { lines := [⟨attr.1, attr.2.data, n⟩] }
        | .error trap => { failure := some (.trap trap) }

def printElement (c : Text × PTree) : Output :=
  match c.2.getChild xmlattr with
  | some attributes => printAll (printResult c) attributes.children
  | none => { failure := some (.badPath xmlattr) }

def processXML (pt : PTree) : Output :=
  match pt.getChild expressions with
  | some root => printAll printElement root.children
  | none => { failure := some (.badPath expressions) }

/-- The loop comes to an end exactly if no pass fails. -/
theorem printAll_failure_eq_none_iff {α : Type} {print : α → Output} {as : List α} :
    (printAll print as).failure = none ↔ ∀ a ∈ as, (print a).failure = none := by
  induction as with
  | nil => simp [printAll]
  | cons a as ih =>
      rw [printAll, Output.andThen]
      cases ha : (print a).failure with
      | none => simp [ih, ha]
      | some e => simp [ha]

theorem printAll_failure_mem {α : Type} {print : α → Output} {as : List α} {e : Failure}
    (h : (printAll print as).failure = some e) : ∃ a ∈ as, (print a).failure = some e := by
  induction as with
  | nil => cases h
  | cons a as ih =>
      rw [printAll, Output.andThen] at h
      cases ha : (print a).failure with
      | some e' =>
          simp only [ha] at h
          exact ⟨a, List.mem_cons_self, ha.trans h⟩
      | none =>
          simp only [ha] at h
          obtain ⟨b, hb, hfail⟩ := ih h
          exact ⟨b, List.mem_cons_of_mem _ hb, hfail⟩

theorem printAll_lines_mem {α : Type} {print : α → Output} {as : List α} {line : ResultLine}
    (h : line ∈ (printAll print as).lines) : ∃ a ∈ as, line ∈ (print a).lines := by
  induction as with
  | nil => cases h
  | cons a as ih =>
      rw [printAll, Output.andThen] at h
      cases ha : (print a).failure with
      | some e =>
          simp only [ha] at h
          exact ⟨a, List.mem_cons_self, h⟩
      | none =>
          simp only [ha, List.mem_append] at h
          rcases h with h | h
          · exact ⟨a, List.mem_cons_self, h⟩
          · obtain ⟨b, hb, hline⟩ := ih h
            exact ⟨b, List.mem_cons_of_mem _ hb, hline⟩

/-! ### Documents of operator elements and comments -/

/-- An operator element with its attributes, one of which is the id. -/
structure Element where
  op : Operator
  id : Text
  attributes : List (Text × Text)
  data : Text
  content : List (Text × PTree)
  distinct : (attributes.map Prod.fst).Nodup
  identified : ("id".toList, id) ∈ attributes

inductive Child where
  | comment (text : Text)
  | element (e : Element)

/-- An element as `read_xml` stores it, the attributes in front of the content. -/
def Element.tree (e : Element) : PTree :=
  .node e.data ((xmlattr, .node [] (e.attributes.map fun a => (a.1, .node a.2 []))) :: e.content)

def Child.tree : Child → Text × PTree
  | .comment text => (xmlcomment, .node text [])
  | .element e => (e.op.name, e.tree)

/-- A document: comments, the root `expressions`, and comments again. A name of an attribute has
no `<`, so that none is `<xmlattr>`. -/
structure Document where
  before : List Text
  attributes : List (Text × Text)
  data : Text
  children : List Child
  after : List Text
  named : ∀ a ∈ attributes, a.1 ≠ xmlattr

/-- The attributes of the root, if it has any, are its first child. -/
def Document.attributeChildren (d : Document) : List (Text × PTree) :=
  match d.attributes with
  | [] => []
  | attributes => [(xmlattr, .node [] (attributes.map fun a => (a.1, .node a.2 [])))]

def Document.root (d : Document) : PTree :=
  .node d.data (d.attributeChildren ++ d.children.map Child.tree)

/-- The document as `read_xml` stores it. -/
def Document.tree (d : Document) : PTree :=
  .node [] ((d.before.map fun text => (Child.comment text).tree) ++
    (expressions, d.root) :: d.after.map fun text => (Child.comment text).tree)

def elements (children : List Child) : List Element :=
  children.filterMap fun c =>
    match c with
    | .comment _ => none
    | .element e => some e

def ResultLine.label (line : ResultLine) : Text × Text := (line.attr, line.value)

def Element.label (e : Element) : Text × Text := ("id".toList, e.id)

/-- The attributes for which a line is printed. -/
def Element.shown (e : Element) : List (Text × Text) := e.attributes.filter (·.1 ≠ complex)

def Element.OnlyIdAndComplex (e : Element) : Prop :=
  ∀ a ∈ e.attributes, a.1 = "id".toList ∨ a.1 = complex

/-- No operation of the exact computation of its value overflows or divides by zero. -/
def Element.Computable (e : Element) : Prop := Safe e.op e.tree

/-- No element comes after a comment. -/
def CommentsLast (children : List Child) : Prop :=
  ∀ before text after, children = before ++ .comment text :: after → elements after = []

theorem id_ne_complex : "id".toList ≠ complex := by decide

theorem Element.label_mem_shown (e : Element) : e.label ∈ e.shown :=
  List.mem_filter.mpr ⟨e.identified, decide_eq_true id_ne_complex⟩

theorem Element.onlyIdAndComplex_iff {e : Element} :
    e.OnlyIdAndComplex ↔ ∀ a ∈ e.shown, a.1 = "id".toList := by
  unfold OnlyIdAndComplex shown
  constructor
  · intro h a ha
    obtain ⟨hmem, hne⟩ := List.mem_filter.mp ha
    exact (h a hmem).resolve_right (by simpa using hne)
  · intro h a ha
    by_cases hcomplex : a.1 = complex
    · exact Or.inr hcomplex
    · exact Or.inl (h a (List.mem_filter.mpr ⟨ha, by simpa using hcomplex⟩))

/-- Names are not repeated, so only one attribute is the id. -/
theorem Element.shown_eq {e : Element} (h : e.OnlyIdAndComplex) : e.shown = [e.label] := by
  have hids := onlyIdAndComplex_iff.mp h
  have hlabel := e.label_mem_shown
  have hnodup : (e.shown.map Prod.fst).Nodup := e.distinct.sublist (List.filter_sublist.map _)
  rcases hshown : e.shown with _ | ⟨a, _ | ⟨b, rest⟩⟩
  · rw [hshown] at hlabel
    cases hlabel
  · rw [hshown, List.mem_singleton] at hlabel
    rw [hlabel]
  · rw [hshown] at hids hnodup
    have heq : a.1 = b.1 := (hids a (by simp)).trans (hids b (by simp)).symm
    simp [heq] at hnodup

/-- An attribute that is neither the id nor `complex` would have to be the label of an element. -/
theorem Element.shown_append_eq_iff (e : Element) {labels : List (Text × Text)}
    {rest : List Element} :
    e.shown ++ labels = e.label :: rest.map Element.label ↔
      e.OnlyIdAndComplex ∧ labels = rest.map Element.label := by
  constructor
  · intro heq
    have honly : e.OnlyIdAndComplex := by
      refine onlyIdAndComplex_iff.mpr fun a ha => ?_
      have hmem : a ∈ e.label :: rest.map Element.label := heq ▸ List.mem_append_left _ ha
      rcases List.mem_cons.mp hmem with rfl | hmem
      · rfl
      · obtain ⟨e', -, rfl⟩ := List.mem_map.mp hmem
        rfl
    rw [shown_eq honly, List.singleton_append, List.cons.injEq] at heq
    exact ⟨honly, heq.2⟩
  · rintro ⟨honly, rfl⟩
    rw [shown_eq honly, List.singleton_append]

/-- The attributes of an element that is evaluated: a line for each of those shown. -/
theorem printElement_of_evaluates {e : Element} {n : ℤ}
    (h : process e.op.accumulator e.tree = .ok n) :
    printElement (Child.element e).tree =
      ⟨e.shown.map fun a => ⟨a.1, a.2, n⟩, none⟩ := by
  have hline (a : Text × Text) :
      printResult (e.op.name, e.tree) (a.1, .node a.2 []) =
        if a.1 = complex then {} else { lines := [⟨a.1, a.2, n⟩] } := by
    rw [printResult, accumulatorFor_name]
    simp only [h, PTree.data]
  have hattributes (attributes : List (Text × Text)) :
      printAll (printResult (e.op.name, e.tree))
          (attributes.map fun a => (a.1, .node a.2 [])) =
        ⟨(attributes.filter (·.1 ≠ complex)).map fun a => ⟨a.1, a.2, n⟩, none⟩ := by
    induction attributes with
    | nil => rfl
    | cons a attributes ih =>
        rw [List.map_cons, printAll, hline, ih]
        by_cases ha : a.1 = complex <;> simp [Output.andThen, ha]
  exact hattributes e.attributes

/-- Where an element is not evaluated, no line is printed for it and nothing comes after it. -/
theorem printElement_of_trap {e : Element} {trap : Trap}
    (h : process e.op.accumulator e.tree = .error trap) :
    printElement (Child.element e).tree = ⟨[], some (.trap trap)⟩ := by
  have hline (a : Text × Text) :
      printResult (e.op.name, e.tree) (a.1, .node a.2 []) =
        if a.1 = complex then {} else { failure := some (.trap trap) } := by
    rw [printResult, accumulatorFor_name]
    simp only [h]
  have hattributes (attributes : List (Text × Text)) (hid : ("id".toList, e.id) ∈ attributes) :
      printAll (printResult (e.op.name, e.tree))
          (attributes.map fun a => (a.1, .node a.2 [])) = ⟨[], some (.trap trap)⟩ := by
    induction attributes with
    | nil => cases hid
    | cons a attributes ih =>
        rw [List.map_cons, printAll, hline]
        by_cases ha : a.1 = complex
        · have hne : ("id".toList, e.id) ≠ a := by
            rintro rfl
            exact id_ne_complex ha
          have hrest := ih ((List.mem_cons.mp hid).resolve_left hne)
          rw [if_pos ha, hrest]
          rfl
        · rw [if_neg ha]
          rfl
  exact hattributes e.attributes e.identified

theorem commentsLast_comment_cons {text : Text} {children : List Child} :
    CommentsLast (.comment text :: children) ↔ elements children = [] := by
  constructor
  · intro h
    exact h [] text children rfl
  · intro hnone before text' after hsplit
    cases before with
    | nil =>
        cases hsplit
        exact hnone
    | cons c before =>
        simp only [List.cons_append, List.cons.injEq] at hsplit
        rw [elements, hsplit.2, List.filterMap_append] at hnone
        exact (List.append_eq_nil_iff.mp hnone).2

theorem commentsLast_element_cons {e : Element} {children : List Child} :
    CommentsLast (.element e :: children) ↔ CommentsLast children := by
  constructor
  · intro h before text after hsplit
    exact h (.element e :: before) text after (by rw [hsplit]; rfl)
  · intro h before text after hsplit
    cases before with
    | nil => cases hsplit
    | cons c before =>
        simp only [List.cons_append, List.cons.injEq] at hsplit
        exact h before text after hsplit.2

/-- The induction over the children. A comment and an element that traps end the printing, so that
nothing may be expected behind them. -/
theorem printed_labels_iff (children : List Child) :
    (printAll printElement (children.map Child.tree)).lines.map ResultLine.label =
        (elements children).map Element.label ↔
      CommentsLast children ∧
        ∀ e ∈ elements children, e.OnlyIdAndComplex ∧ e.Computable := by
  induction children with
  | nil => simp [printAll, elements, CommentsLast]
  | cons c children ih =>
      cases c with
      | comment text =>
          have hprint : printElement (Child.comment text).tree =
              ⟨[], some (.badPath xmlattr)⟩ := rfl
          have helements : elements (.comment text :: children) = elements children := rfl
          rw [List.map_cons, printAll, hprint, commentsLast_comment_cons, helements]
          cases elements children <;> simp [Output.andThen]
      | element e =>
          have helements : elements (.element e :: children) = e :: elements children := rfl
          rw [List.map_cons, printAll, commentsLast_element_cons, helements, List.map_cons,
            List.forall_mem_cons]
          rcases heval : process e.op.accumulator e.tree with trap | n
          · have hnot : ¬ e.Computable := by
              intro hsafe
              obtain ⟨n, hn⟩ := exists_ok_iff_safe.mpr hsafe
              rw [heval] at hn
              cases hn
            rw [printElement_of_trap heval]
            simp [Output.andThen, hnot]
          · rw [printElement_of_evaluates heval]
            have hlabels : (e.shown.map fun a => (⟨a.1, a.2, n⟩ : ResultLine)).map
                ResultLine.label = e.shown := by
              rw [List.map_map]
              exact List.map_id _
            have hsafe : e.Computable := exists_ok_iff_safe.mp ⟨n, heval⟩
            simp only [Output.andThen, List.map_append, hlabels, e.shown_append_eq_iff, ih, hsafe,
              and_true]
            exact and_left_comm

/-- The comments around the root are not looked at. -/
theorem processXML_tree (d : Document) :
    processXML d.tree = printAll printElement d.root.children := by
  have hname : xmlcomment ≠ expressions := by decide
  have hroot : d.tree.getChild expressions = some d.root := by
    rw [PTree.getChild, Document.tree, PTree.children, List.find?_append, List.find?_eq_none.mpr]
    · simp
    · simp [Child.tree, hname]
  rw [processXML, hroot]

/-- If the root has attributes, nothing is printed at all. -/
theorem processXML_attributes {d : Document} (h : d.attributes ≠ []) :
    processXML d.tree = ⟨[], some (.badPath xmlattr)⟩ := by
  have hchild : d.attributeChildren =
      [(xmlattr, .node [] (d.attributes.map fun a => (a.1, .node a.2 [])))] := by
    unfold Document.attributeChildren
    cases hattributes : d.attributes with
    | nil => exact absurd hattributes h
    | cons a attributes => rfl
  have hnone : printElement (xmlattr, .node [] (d.attributes.map fun a => (a.1, .node a.2 []))) =
      ⟨[], some (.badPath xmlattr)⟩ := by
    rw [printElement, PTree.getChild, PTree.children, List.find?_eq_none.mpr]
    · rfl
    · intro c hc
      obtain ⟨a, ha, rfl⟩ := List.mem_map.mp hc
      simpa using d.named a ha
  rw [processXML_tree, Document.root, PTree.children, hchild, List.singleton_append, printAll,
    hnone]
  rfl

theorem commentsLast_of_elements {children : List Child} (h : elements children = []) :
    CommentsLast children := by
  intro before text after hsplit
  rw [hsplit, elements, List.filterMap_append] at h
  exact (List.append_eq_nil_iff.mp h).2

/-- For every document of operator elements, with any attributes besides their id, and of comments
anywhere between them and around the root: one line is printed for each element, in order and with
its id, exactly if the root has no attributes, unless there is no element, no element comes after
a comment, no element has an attribute besides `id` and `complex`, and no operation in any of them
overflows or divides by zero. -/
theorem one_line_per_element_iff (d : Document) :
    (processXML d.tree).lines.map ResultLine.label = (elements d.children).map Element.label ↔
      (d.attributes = [] ∨ elements d.children = []) ∧ CommentsLast d.children ∧
        ∀ e ∈ elements d.children, e.OnlyIdAndComplex ∧ e.Computable := by
  by_cases hattributes : d.attributes = []
  · have hroot : d.root.children = d.children.map Child.tree := by
      rw [Document.root, PTree.children, Document.attributeChildren, hattributes]
      rfl
    rw [processXML_tree, hroot, printed_labels_iff]
    simp [hattributes]
  · rw [processXML_attributes hattributes]
    constructor
    · intro hlabels
      have hnone : elements d.children = [] := List.map_eq_nil_iff.mp hlabels.symm
      refine ⟨Or.inr hnone, commentsLast_of_elements hnone, ?_⟩
      rw [hnone]
      exact fun _ he => absurd he List.not_mem_nil
    · rintro ⟨hnone, -⟩
      rw [hnone.resolve_left hattributes]
      rfl

/-- An addition of the given item, with an id and one other attribute if there is one. -/
def sumWith (id item : Text) (others : List (Text × Text))
    (distinct : ("id".toList :: others.map Prod.fst).Nodup) : Element where
  op := .addition
  id := id
  attributes := ("id".toList, id) :: others
  data := []
  content := [("item".toList, .node item [])]
  distinct := distinct
  identified := List.mem_cons_self

/-- A document of these children, without comments around the root and attributes of it. -/
def Document.of (children : List Child) : Document := ⟨[], [], [], children, [], nofun⟩

/-- The comment ends the document, and the second attribute makes a second line. -/
theorem comment_ends_document :
    let first := sumWith "1".toList "2".toList [] (by decide)
    let second := sumWith "2".toList "3".toList [("note".toList, "x".toList)] (by decide)
    let commented : List Child := [.element first, .comment "sum".toList, .element second]
    (elements commented).map Element.label =
        [("id".toList, "1".toList), ("id".toList, "2".toList)] ∧
      processXML (Document.of commented).tree =
        ⟨[⟨"id".toList, "1".toList, 2⟩], some (.badPath xmlattr)⟩ ∧
      processXML (Document.of [.element second]).tree =
        ⟨[⟨"id".toList, "2".toList, 3⟩, ⟨"note".toList, "x".toList, 3⟩], none⟩ := by
  intro first second commented
  decide

end ForexSuite.XmlDocuments
