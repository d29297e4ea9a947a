import ForexSuite.XmlDocuments

/-!
# A batch of documents

`findfiles` collects the files of a directory, and `processFile` takes them one by
one from the back of the list. A file leaves the list after it has been evaluated.
No exception is caught on the way: not that of `read_xml` for a file that cannot be
read as XML, and not that of `get_child` for a node that is missing.
-/
namespace ForexSuite.XmlBatch

open TextNumbers XmlProcessor XmlDocuments

structure Result where
  file : Text
  resultfile : Text
deriving DecidableEq

/-- What `findfiles` uses of a directory entry. -/
structure DirectoryEntry where
  path : Text
  filename : Text

/-- `_fileList` is written with its last element first. -/
structure XMLProcessor where
  xmlfile : Text
  xmlfileResult : Text
  pt : PTree
  ptResult : PTree
  fileList : List Result

/-- The lines printed for the files that have been evaluated, in order, those printed for a file
that was not evaluated to its end, and the exception that has left `processFile`. -/
structure Batch where
  state : XMLProcessor
  evaluated : List (Result × List ResultLine) := []
  unfinished : List ResultLine := []
  failure : Option Failure := none

namespace XMLProcessor

def new : XMLProcessor := ⟨[], [], .node [] [], .node [] [], []⟩

def findfiles (entries : List DirectoryEntry) (s : XMLProcessor) : XMLProcessor :=
  entries.foldl (fun s p =>
    let resultfile := p.filename.takeWhile (· ≠ '.') ++ "_result.xml".toList
    { s with fileList := ⟨p.path, resultfile⟩ :: s.fileList }) s

/-- `read_xml` replaces `_pt`, or throws and leaves it as it was. -/
def init (readXml : Text → Option PTree) (xmlfile xmlfileresult : Text) (s : XMLProcessor) :
    XMLProcessor × Option Failure :=
  let s := { s with xmlfile := xmlfile, xmlfileResult := xmlfileresult }
  match readXml xmlfile with
  | some pt => ({ s with pt := pt }, none)
  | none => (s, some .xmlParserError)

def deinit (s : XMLProcessor) : XMLProcessor :=
  { s with pt := .node [] [], ptResult := .node [] [], xmlfile := [], xmlfileResult := [] }

/-- The loop of `processFile`, over what is left of the list. -/
def processFileLoop (readXml : Text → Option PTree) : List Result → XMLProcessor → Batch
  | [], s => { state := s }
  | back :: fileList, s =>
      match s.init readXml back.file back.resultfile with
      | (s, some e) => { state := s, failure := some e }
      | (s, none) =>
          let output := processXML s.pt
          match output.failure with
          | some e => { state := s, unfinished := output.lines, failure := some e }
          | none =>
              let rest := processFileLoop readXml fileList { s.deinit with fileList := fileList }
              { rest with evaluated := (back, output.lines) :: rest.evaluated }

def processFile (readXml : Text → Option PTree) (s : XMLProcessor) : Batch :=
  processFileLoop readXml s.fileList s

end XMLProcessor

/-- What a file gives on its own. -/
def alone (readXml : Text → Option PTree) (r : Result) : Output :=
  match readXml r.file with
  | some pt => processXML pt
  | none => { failure := some .xmlParserError }

/-- The file can be read and evaluated to its end. -/
def Good (readXml : Text → Option PTree) (r : Result) : Prop := (alone readXml r).failure = none

instance (readXml : Text → Option PTree) (r : Result) : Decidable (Good readXml r) :=
  inferInstanceAs (Decidable (_ = _))

def evaluation (readXml : Text → Option PTree) (r : Result) : Result × List ResultLine :=
  (r, (alone readXml r).lines)

/-- The batch has returned with an empty list, after evaluating every good file once. -/
def Isolates (readXml : Text → Option PTree) (files : List Result) (b : Batch) : Prop :=
  b.failure = none ∧ b.state.fileList = [] ∧
    b.evaluated = (files.filter (Good readXml)).map (evaluation readXml)

variable {readXml : Text → Option PTree} {s : XMLProcessor}

/-- A pass over a good file: it is evaluated and leaves the list. -/
theorem processFileLoop_good {back : Result} (rest : List Result) (hgood : Good readXml back) :
    ∃ s' : XMLProcessor, s'.fileList = rest ∧
      s.processFileLoop readXml (back :: rest) =
        { s'.processFileLoop readXml rest with
          evaluated :=
            evaluation readXml back :: (s'.processFileLoop readXml rest).evaluated } := by
  unfold Good alone at hgood
  cases hread : readXml back.file with
  | none => simp [hread] at hgood
  | some pt =>
      simp only [hread] at hgood
      let read := { s with xmlfile := back.file, xmlfileResult := back.resultfile, pt := pt }
      refine ⟨{ read.deinit with fileList := rest }, rfl, ?_⟩
      rw [XMLProcessor.processFileLoop, XMLProcessor.init, hread]
      simp only [hgood, evaluation, alone, hread, read]

/-- A pass over any other file: its exception ends the loop, and the list still has the file. -/
theorem processFileLoop_bad {back : Result} (rest : List Result) (hbad : ¬ Good readXml back)
    (hs : s.fileList = back :: rest) :
    let b := s.processFileLoop readXml (back :: rest)
    b.failure = (alone readXml back).failure ∧ b.state.fileList = back :: rest ∧
      b.evaluated = [] := by
  unfold Good alone at hbad
  rw [XMLProcessor.processFileLoop, XMLProcessor.init]
  cases hread : readXml back.file with
  | none => simp [alone, hread, hs]
  | some pt =>
      simp only [hread] at hbad
      obtain ⟨e, he⟩ := Option.ne_none_iff_exists'.mp hbad
      simp [alone, hread, he, hs]

theorem processFileLoop_append {done : List Result} (rest : List Result)
    (hgood : ∀ r ∈ done, Good readXml r) (hs : s.fileList = done ++ rest) :
    ∃ s' : XMLProcessor, s'.fileList = rest ∧
      s.processFileLoop readXml (done ++ rest) =
        { s'.processFileLoop readXml rest with
          evaluated := done.map (evaluation readXml) ++
            (s'.processFileLoop readXml rest).evaluated } := by
  induction done generalizing s with
  | nil => exact ⟨s, hs, rfl⟩
  | cons r done ih =>
      obtain ⟨s₁, hs₁, hfirst⟩ := processFileLoop_good (done ++ rest) (hgood r (by simp))
      obtain ⟨s', hs', hrest⟩ := ih (fun r hr => hgood r (List.mem_cons_of_mem _ hr)) hs₁
      refine ⟨s', hs', ?_⟩
      rw [List.cons_append, hfirst, hrest]
      rfl

/-- For every directory: the batch returns with an empty list and every good file evaluated once, as
it would be on its own, exactly if all files are good. Otherwise the exception of the first bad
file from the back leaves `processFile`: the files behind it have been evaluated, and the list
still holds the file and all that are in front of it. -/
theorem batch_is_isolated_iff (readXml : Text → Option PTree) (entries : List DirectoryEntry) :
    let s := XMLProcessor.new.findfiles entries
    let b := s.processFile readXml
    (Isolates readXml s.fileList b ↔ ∀ r ∈ s.fileList, Good readXml r) ∧
    ∀ done bad rest, s.fileList = done ++ bad :: rest → (∀ r ∈ done, Good readXml r) →
      ¬ Good readXml bad →
        b.failure = (alone readXml bad).failure ∧ b.state.fileList = bad :: rest ∧
          b.evaluated = done.map (evaluation readXml) := by
  intro s b
  have hfails : ∀ done bad rest, s.fileList = done ++ bad :: rest → (∀ r ∈ done, Good readXml r) →
      ¬ Good readXml bad →
        b.failure = (alone readXml bad).failure ∧ b.state.fileList = bad :: rest ∧
          b.evaluated = done.map (evaluation readXml) := by
    intro done bad rest hs hgood hbad
    obtain ⟨s', hs', hloop⟩ := processFileLoop_append (bad :: rest) hgood hs
    obtain ⟨hfailure, hlist, hnone⟩ := processFileLoop_bad rest hbad hs'
    have hb : b = s.processFileLoop readXml (done ++ bad :: rest) := by rw [← hs]; rfl
    rw [hb, hloop]
    exact ⟨hfailure, hlist, by rw [hnone, List.append_nil]⟩
  refine ⟨⟨?_, ?_⟩, hfails⟩
  · intro hisolated
    cases hfind : s.fileList.find? (fun r => ¬ Good readXml r) with
    | none => simpa using hfind
    | some bad =>
        obtain ⟨hbad, done, rest, hs, hgood⟩ := List.find?_eq_some_iff_append.mp hfind
        have hleft := (hfails done bad rest hs (by simpa using hgood) (by simpa using hbad)).2.1
        rw [hisolated.2.1] at hleft
        cases hleft
  · intro hgood
    have hs : s.fileList = s.fileList ++ [] := (List.append_nil _).symm
    obtain ⟨s', hs', hloop⟩ := processFileLoop_append [] hgood hs
    have hb : b = s.processFileLoop readXml (s.fileList ++ []) := by rw [List.append_nil]; rfl
    have hall : s.fileList.filter (Good readXml) = s.fileList := by
      simpa using hgood
    rw [hb, hloop, Isolates, hall]
    exact ⟨rfl, hs', List.append_nil _⟩

/-- The middle one of three files is no XML: the last one is evaluated, the first one is not. -/
theorem bad_file_ends_batch :
    let readXml (file : Text) : Option PTree :=
      if file = "b.xml".toList then none else some (Document.of []).tree
    let files : List DirectoryEntry :=
      ["a.xml", "b.xml", "c.xml"].map fun name => ⟨name.toList, name.toList⟩
    let b := (XMLProcessor.new.findfiles files).processFile readXml
    b.failure = some .xmlParserError ∧
      b.state.fileList.map Result.file = ["b.xml".toList, "a.xml".toList] ∧
      b.evaluated.map (fun e => e.1.file) = ["c.xml".toList] := by
  intro readXml files b
  decide

end ForexSuite.XmlBatch
