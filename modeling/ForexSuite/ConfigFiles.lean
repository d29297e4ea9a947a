import ForexSuite.EventMachine
import ForexSuite.Getline
import ForexSuite.TextNumbers
import Mathlib.Logic.Function.Basic

/-!
# The configuration reader

Four programs read their settings with the same loop. A key is read up to the next
`=`, and a value up to the end of the line, but only if the key is known. After an
unknown key the reader stands before a value and takes what it finds there for the
next key, so that the key of the following line is no longer seen.

A `Reader` is what this comes to line by line: the settings, and whether the next
key is read from the beginning of a line.
-/
namespace ForexSuite.ConfigFiles

open EventMachine Getline TextNumbers

abbrev Settings := Text → Text

/-- What sets the four copies of `readConfigFile` apart: the keys they know, and the values the
settings have before. -/
structure AppStart where
  keys : List Text
  initial : Settings
  keysInLine : ∀ key ∈ keys, '\n' ∉ key

/-- The loop, on a stream that is good. It ends when the end of the file has been met. A known key
without a `=` behind it changes nothing, because the stream is no longer good. -/
def readLoop (keys : List Text) (settings : Settings) (stream : Text) : Settings :=
  match _hkey : getline '=' stream with
  | (_, none) => settings
  | (keyID, some rest) =>
      if keys.contains keyID then
        match _hvalue : getline '\n' rest with
        | (value, none) => Function.update settings keyID value
        | (value, some rest') => readLoop keys (Function.update settings keyID value) rest'
      else readLoop keys settings rest
termination_by stream.length
decreasing_by
  · exact (getline_length_lt _hvalue).trans (getline_length_lt _hkey)
  · exact getline_length_lt _hkey

/-- A file that cannot be opened leaves the settings alone. -/
def AppStart.readConfigFile (app : AppStart) : Option Text → Settings
  | some file => readLoop app.keys app.initial file
  | none => app.initial

def priceKeys : List Text :=
  ["FixSetting".toList, "ManagerLogin".toList, "ManagerPassword".toList, "ManagerIP".toList,
    "FileLogRequired".toList]

def managerKeys : List Text :=
  ["ManagerLogin".toList, "ManagerPassword".toList, "ManagerIP".toList, "Port".toList]

/-- Logging is off unless the file says otherwise. -/
def priceInitial : Settings := Function.update (fun _ => []) "FileLogRequired".toList "N".toList

def primeXMPrice : AppStart := ⟨priceKeys, priceInitial, by decide⟩
def fixSpreadEngine : AppStart := ⟨priceKeys, priceInitial, by decide⟩
def historyManagerMT5 : AppStart := ⟨managerKeys, fun _ => [], by decide⟩
def jsonDatafeedMT5 : AppStart := ⟨managerKeys, fun _ => [], by decide⟩

variable {keys : List Text} {settings : Settings}

theorem readLoop_end {stream : Text} (h : '=' ∉ stream) :
    readLoop keys settings stream = settings := by
  rw [readLoop]
  split
  · rfl
  · next hkey =>
      rw [getline_of_notMem h] at hkey
      cases hkey

theorem readLoop_append {key : Text} (rest : Text) (hkey : '=' ∉ key) :
    readLoop keys settings (key ++ '=' :: rest) =
      if keys.contains key then
        match getline '\n' rest with
        | (value, none) => Function.update settings key value
        | (value, some rest') => readLoop keys (Function.update settings key value) rest'
      else readLoop keys settings rest := by
  rw [readLoop]
  split
  · next h =>
      rw [getline_append rest hkey] at h
      cases h
  · next h =>
      rw [getline_append rest hkey] at h
      cases h
      congr 1
      split <;> next h => rw [h]

theorem readLoop_unknown {key : Text} (rest : Text) (hkey : '=' ∉ key) (hunknown : key ∉ keys) :
    readLoop keys settings (key ++ '=' :: rest) = readLoop keys settings rest := by
  rw [readLoop_append rest hkey, if_neg (mt List.contains_iff_mem.mp hunknown)]

theorem readLoop_known {key value : Text} (rest : Text) (hkey : '=' ∉ key) (hknown : key ∈ keys)
    (hvalue : '\n' ∉ value) :
    readLoop keys settings (key ++ '=' :: (value ++ '\n' :: rest)) =
      readLoop keys (Function.update settings key value) rest := by
  rw [readLoop_append _ hkey, if_pos (List.contains_iff_mem.mpr hknown), getline_append rest hvalue]

theorem readLoop_known_end {key value : Text} (hkey : '=' ∉ key) (hknown : key ∈ keys)
    (hvalue : '\n' ∉ value) :
    readLoop keys settings (key ++ '=' :: value) = Function.update settings key value := by
  rw [readLoop_append _ hkey, if_pos (List.contains_iff_mem.mpr hknown), getline_of_notMem hvalue]

/-- Whether the last line ends with a newline makes no difference. -/
theorem readLoop_newline (stream : Text) :
    readLoop keys settings (stream ++ ['\n']) = readLoop keys settings stream := by
  induction stream using split_induction '=' generalizing settings with
  | last stream h => rw [readLoop_end h, readLoop_end (by simpa using h)]
  | split key rest hkey ih =>
      rw [List.append_assoc, List.cons_append]
      by_cases hknown : key ∈ keys
      · by_cases hline : '\n' ∈ rest
        · obtain ⟨value, rest', rfl, hvalue⟩ := List.eq_append_cons_of_mem hline
          rw [List.append_assoc, List.cons_append, readLoop_known _ hkey hknown hvalue,
            readLoop_known _ hkey hknown hvalue]
          refine ih rest' ?_
          rw [List.length_append, List.length_cons]
          omega
        · rw [readLoop_known [] hkey hknown hline, readLoop_known_end hkey hknown hline,
            readLoop_end (by simp)]
      · rw [readLoop_unknown _ hkey hknown, readLoop_unknown _ hkey hknown]
        exact ih rest le_rfl

/-! ### Line by line -/

/-- `key=value`, where only the value may contain another `=`. -/
structure KeyValue where
  key : Text
  value : Text
  keyFree : '=' ∉ key ∧ '\n' ∉ key
  valueFree : '\n' ∉ value

inductive Line where
  | blank
  | keyValue (kv : KeyValue)

def Line.text : Line → Text
  | .blank => []
  | .keyValue kv => kv.key ++ '=' :: kv.value

/-- The lines of a file, the last of them with or without a newline. -/
def fileText (lines : List Line) (ended : Bool) : Text :=
  let text := lines.flatMap fun l => l.text ++ ['\n']
  if ended then text else text.dropLast

/-- The value of the last line with this key, or what the setting was before. -/
def lastValue (initial : Settings) (key : Text) (lines : List Line) : Text :=
  ((lines.filterMap fun l =>
    match l with
    | .blank => none
    | .keyValue kv => if kv.key = key then some kv.value else none).getLast?).getD (initial key)

/-- A known key within a value, and what is behind it: the assignment that is read from the value
of a line whose own key is not known. -/
def assignmentIn (keys : List Text) (value : Text) : Option (Text × Text) :=
  match _hpiece : getline '=' value with
  | (_, none) => none
  | (piece, some rest) => if keys.contains piece then some (piece, rest) else assignmentIn keys rest
termination_by value.length
decreasing_by exact getline_length_lt _hpiece

/-- Where the reader is after some lines: whether it reads the next key from the beginning of a
line, and the settings. -/
structure Reader where
  inStep : Bool
  settings : Settings

namespace Reader

def after (keys : List Text) (r : Reader) : Line → Reader
  | .blank => ⟨false, r.settings⟩
  | .keyValue kv =>
      if r.inStep && keys.contains kv.key then
        ⟨true, Function.update r.settings kv.key kv.value⟩
      else
        match assignmentIn keys kv.value with
        | some (key, value) => ⟨true, Function.update r.settings key value⟩
        | none => ⟨false, r.settings⟩

def step (keys : List Text) (r : Reader) (l : Line) : Reader × Unit := (r.after keys l, ())

/-- The line is blank, or has a known key that is read from its beginning. Otherwise neither the
assignment that is read from its value nor the one it means changes a setting. -/
def Harmless (keys : List Text) (r : Reader) : Line → Prop
  | .blank => True
  | .keyValue kv =>
      r.inStep = true ∧ kv.key ∈ keys ∨
        (∀ a ∈ assignmentIn keys kv.value, r.settings a.1 = a.2) ∧
          (kv.key ∈ keys → r.settings kv.key = kv.value)

end Reader

theorem assignmentIn_none_of_notMem {value : Text} (h : '=' ∉ value) :
    assignmentIn keys value = none := by
  rw [assignmentIn]
  split
  · rfl
  · next hpiece =>
      rw [getline_of_notMem h] at hpiece
      cases hpiece

theorem assignmentIn_cons {piece : Text} (rest : Text) (hpiece : '=' ∉ piece) :
    assignmentIn keys (piece ++ '=' :: rest) =
      if keys.contains piece then some (piece, rest) else assignmentIn keys rest := by
  rw [assignmentIn]
  split
  · next h =>
      rw [getline_append rest hpiece] at h
      cases h
  · next h =>
      rw [getline_append rest hpiece] at h
      cases h
      rfl

theorem assignmentIn_some {value : Text} {a : Text × Text} (h : assignmentIn keys value = some a) :
    a.1 ∈ keys ∧ a.2.length < value.length := by
  induction value using split_induction '=' with
  | last value hnone =>
      rw [assignmentIn_none_of_notMem hnone] at h
      cases h
  | split piece rest hpiece ih =>
      rw [assignmentIn_cons rest hpiece] at h
      rw [List.length_append, List.length_cons]
      split_ifs at h with hknown
      · cases h
        have hshort : rest.length < piece.length + (rest.length + 1) := by omega
        exact ⟨List.contains_iff_mem.mp hknown, hshort⟩
      · obtain ⟨hkey, hshort⟩ := ih rest le_rfl h
        exact ⟨hkey, by omega⟩

/-- What has been read of the next key when a line begins: nothing, or something that no key
contains. -/
def Pending (inStep : Bool) (acc : Text) : Prop :=
  if inStep = true then acc = [] else '\n' ∈ acc ∧ '=' ∉ acc

/-- Reading on in front of a value, up to the end of the line. -/
theorem readLoop_value (keys : List Text) (settings : Settings) (value rest : Text)
    (hvalue : '\n' ∉ value) :
    match assignmentIn keys value with
    | some a => readLoop keys settings (value ++ '\n' :: rest) =
        readLoop keys (Function.update settings a.1 a.2) rest
    | none => ∃ acc, Pending false acc ∧
        readLoop keys settings (value ++ '\n' :: rest) = readLoop keys settings (acc ++ rest) := by
  induction value using split_induction '=' with
  | last value hnone =>
      rw [assignmentIn_none_of_notMem hnone]
      refine ⟨value ++ ['\n'], ⟨by simp, by simpa using hnone⟩, ?_⟩
      rw [List.append_assoc]
      rfl
  | split piece rest' hpiece ih =>
      have hrest : '\n' ∉ rest' := fun h => hvalue (by simp [h])
      rw [assignmentIn_cons rest' hpiece, List.append_assoc, List.cons_append]
      split_ifs with hknown
      · exact readLoop_known rest hpiece (List.contains_iff_mem.mp hknown) hrest
      · rw [readLoop_unknown _ hpiece (mt List.contains_iff_mem.mpr hknown)]
        exact ih rest' le_rfl hrest

theorem Reader.after_inStep {r : Reader} {kv : KeyValue} (h : r.inStep = true ∧ kv.key ∈ keys) :
    r.after keys (.keyValue kv) = ⟨true, Function.update r.settings kv.key kv.value⟩ := by
  have hcond : (r.inStep && keys.contains kv.key) = true := by simpa using h
  rw [Reader.after, if_pos hcond]

theorem Reader.after_other {r : Reader} {kv : KeyValue} (h : ¬ (r.inStep = true ∧ kv.key ∈ keys)) :
    r.after keys (.keyValue kv) =
      match assignmentIn keys kv.value with
      | some (key, value) => ⟨true, Function.update r.settings key value⟩
      | none => ⟨false, r.settings⟩ := by
  have hcond : ¬ (r.inStep && keys.contains kv.key) = true := by simpa using h
  rw [Reader.after, if_neg hcond]

/-- One line, whatever has been read of a key when it begins. -/
theorem readLoop_line (hkeys : ∀ key ∈ keys, '\n' ∉ key) {r : Reader} {acc : Text}
    (hacc : Pending r.inStep acc) (l : Line) (rest : Text) :
    ∃ acc', Pending (r.after keys l).inStep acc' ∧
      readLoop keys r.settings (acc ++ (l.text ++ '\n' :: rest)) =
        readLoop keys (r.after keys l).settings (acc' ++ rest) := by
  have hfree : '=' ∉ acc := by
    unfold Pending at hacc
    split_ifs at hacc with h
    · simp [hacc]
    · exact hacc.2
  cases l with
  | blank =>
      refine ⟨acc ++ ['\n'], ⟨by simp, by simpa using hfree⟩, ?_⟩
      simp [Line.text, Reader.after]
  | keyValue kv =>
      rw [Line.text, List.append_assoc, List.cons_append]
      by_cases hstep : r.inStep = true ∧ kv.key ∈ keys
      · rw [Reader.after_inStep hstep]
        rw [Pending, if_pos hstep.1] at hacc
        subst hacc
        exact ⟨[], rfl, readLoop_known rest kv.keyFree.1 hstep.2 kv.valueFree⟩
      · rw [Reader.after_other hstep]
        -- the key with what came before it is unknown: it is so itself, or it spans two lines
        have hunknown : acc ++ kv.key ∉ keys := by
          unfold Pending at hacc
          split_ifs at hacc with hin
          · subst hacc
            exact fun hknown => hstep ⟨hin, hknown⟩
          · exact fun hknown => hkeys _ hknown (List.mem_append_left _ hacc.1)
        have hkey : '=' ∉ acc ++ kv.key := by simp [hfree, kv.keyFree.1]
        rw [← List.append_assoc, readLoop_unknown _ hkey hunknown]
        have hvalue := readLoop_value keys r.settings kv.value rest kv.valueFree
        cases hassign : assignmentIn keys kv.value with
        | some a =>
            rw [hassign] at hvalue
            exact ⟨[], rfl, hvalue⟩
        | none =>
            rw [hassign] at hvalue
            exact hvalue

theorem readLoop_lines (hkeys : ∀ key ∈ keys, '\n' ∉ key) (lines : List Line) {r : Reader}
    {acc : Text} (hacc : Pending r.inStep acc) :
    readLoop keys r.settings (acc ++ lines.flatMap fun l => l.text ++ ['\n']) =
      (run (Reader.step keys) r lines).settings := by
  induction lines generalizing r acc with
  | nil =>
      refine readLoop_end ?_
      unfold Pending at hacc
      split_ifs at hacc with h
      · simp [hacc]
      · simpa using hacc.2
  | cons l lines ih =>
      obtain ⟨acc', hacc', hline⟩ := readLoop_line hkeys hacc l
        (lines.flatMap fun l => l.text ++ ['\n'])
      rw [List.flatMap_cons, List.append_assoc, List.singleton_append, hline]
      exact ih hacc'

/-- The reader is its line by line form, on every file. -/
theorem readConfigFile_eq (app : AppStart) (lines : List Line) (ended : Bool) :
    app.readConfigFile (some (fileText lines ended)) =
      (run (Reader.step app.keys) ⟨true, app.initial⟩ lines).settings := by
  have hlines : readLoop app.keys app.initial (lines.flatMap fun l => l.text ++ ['\n']) =
      (run (Reader.step app.keys) ⟨true, app.initial⟩ lines).settings :=
    readLoop_lines app.keysInLine lines (r := ⟨true, app.initial⟩) rfl
  rw [AppStart.readConfigFile, ← hlines, fileText]
  cases ended with
  | true => rfl
  | false =>
      rcases List.eq_nil_or_concat lines with rfl | ⟨lines, l, rfl⟩
      · rfl
      · have hlast : (lines.concat l).flatMap (fun l => l.text ++ ['\n']) =
            lines.flatMap (fun l => l.text ++ ['\n']) ++ l.text ++ ['\n'] := by
          simp
        simp only [Bool.false_eq_true, if_false]
        rw [hlast, List.dropLast_concat, readLoop_newline]

theorem lastValue_cons {settings settings' : Settings} {key : Text} {l : Line}
    (h : settings' key = lastValue settings key [l]) (lines : List Line) :
    lastValue settings key (l :: lines) = lastValue settings' key lines := by
  unfold lastValue at h ⊢
  cases l with
  | blank => simpa using by rw [h]; rfl
  | keyValue kv =>
      by_cases hkey : kv.key = key
      · simp only [List.filterMap_cons, if_pos hkey, List.getLast?_cons, Option.getD_some]
        rw [h]
        simp [hkey]
      · simp only [List.filterMap_cons, if_neg hkey]
        rw [h]
        simp [hkey]

theorem lastValue_keyValue (settings : Settings) (kv : KeyValue) (key : Text) :
    lastValue settings key [.keyValue kv] = if kv.key = key then kv.value else settings key := by
  by_cases hkey : kv.key = key <;> simp [lastValue, hkey]

/-- Nothing is read from the line, but its own key may be known. -/
theorem settings_eq_lastValue_iff {kv : KeyValue} :
    (∀ key ∈ keys, settings key = lastValue settings key [.keyValue kv]) ↔
      (kv.key ∈ keys → settings kv.key = kv.value) := by
  simp only [lastValue_keyValue]
  constructor
  · intro h hknown
    simpa using h kv.key hknown
  · intro h key hknown
    split_ifs with hkey
    · subst hkey
      exact h hknown
    · rfl

/-- An assignment is read from the value of the line, which is longer than what it assigns. -/
theorem update_eq_lastValue_iff {kv : KeyValue} {a : Text × Text}
    (h : assignmentIn keys kv.value = some a) :
    (∀ key ∈ keys, Function.update settings a.1 a.2 key = lastValue settings key [.keyValue kv]) ↔
      settings a.1 = a.2 ∧ (kv.key ∈ keys → settings kv.key = kv.value) := by
  obtain ⟨hknown, hshort⟩ := assignmentIn_some h
  have hne : a.2 ≠ kv.value := by
    intro heq
    rw [heq] at hshort
    exact lt_irrefl _ hshort
  constructor
  · intro hall
    have hfirst := hall a.1 hknown
    rw [Function.update_self, lastValue_keyValue] at hfirst
    have hother : kv.key ≠ a.1 := by
      intro heq
      rw [if_pos heq] at hfirst
      exact hne hfirst
    rw [if_neg hother] at hfirst
    refine ⟨hfirst.symm, fun hkv => ?_⟩
    have hsecond := hall kv.key hkv
    rwa [Function.update_of_ne hother, lastValue_keyValue, if_pos rfl] at hsecond
  · rintro ⟨hsame, hown⟩
    rw [← hsame, Function.update_eq_self]
    exact settings_eq_lastValue_iff.mpr hown

theorem after_eq_lastValue_iff (keys : List Text) (r : Reader) (l : Line) :
    (∀ key ∈ keys, (r.after keys l).settings key = lastValue r.settings key [l]) ↔
      r.Harmless keys l := by
  cases l with
  | blank => simp [Reader.after, Reader.Harmless, lastValue]
  | keyValue kv =>
      rw [Reader.Harmless]
      by_cases hstep : r.inStep = true ∧ kv.key ∈ keys
      · simp [Reader.after_inStep hstep, lastValue_keyValue, hstep, Function.update_apply, eq_comm]
      · rw [Reader.after_other hstep]
        cases hassign : assignmentIn keys kv.value with
        | none => simpa [hstep] using settings_eq_lastValue_iff
        | some a => simpa [hstep] using update_eq_lastValue_iff hassign

theorem run_eq_lastValue_iff (lines : List Line) (r : Reader) :
    (∀ k, ∀ key ∈ keys, (run (Reader.step keys) r (lines.take k)).settings key =
        lastValue r.settings key (lines.take k)) ↔
      Along (Reader.step keys) (Reader.Harmless keys) r lines := by
  refine forall_take_iff_along_of (fun (_ : Unit) _ _ => True)
    (fun _ r read => ∀ key ∈ keys, (run (Reader.step keys) r read).settings key =
      lastValue r.settings key read) (fun _ _ _ => ()) ?_ ?_ ?_ (a := ()) trivial
  · intro _ r _ _ key _
    rfl
  · intro _ r l _ _
    exact after_eq_lastValue_iff keys r l
  · intro _ r l _ _ hl
    -- after a harmless line its settings are the ones to start from
    have hlast : ∀ key ∈ keys,
        (Reader.step keys r l).1.settings key = lastValue r.settings key [l] :=
      (after_eq_lastValue_iff keys r l).mpr hl
    refine ⟨trivial, fun read => ?_⟩
    constructor
    · intro h key hkey
      rw [← lastValue_cons (hlast key hkey)]
      exact h key hkey
    · intro h key hkey
      rw [lastValue_cons (hlast key hkey)]
      exact h key hkey

/-- For each of the programs and every file of `key=value` lines and blank lines, with or without a
newline at its end: after the file of the first `k` lines, for every `k`, each known setting has
the value of the last line with its key, or its initial value, exactly if each line is harmless
where the reader meets it. -/
theorem settings_are_last_values_iff (app : AppStart) (lines : List Line) (ended : Bool) :
    (∀ k, ∀ key ∈ app.keys, app.readConfigFile (some (fileText (lines.take k) ended)) key =
        lastValue app.initial key (lines.take k)) ↔
      Along (Reader.step app.keys) (Reader.Harmless app.keys) ⟨true, app.initial⟩ lines := by
  simp only [readConfigFile_eq]
  exact run_eq_lastValue_iff lines ⟨true, app.initial⟩

/-- The line behind one with an unknown key is not seen, nor is the one behind a blank line. -/
theorem line_behind_unknown_key_is_lost :
    let monitorPort : KeyValue :=
      ⟨"MonitorPort".toList, "7502".toList, by decide, by decide⟩
    let managerIP : KeyValue := ⟨"ManagerIP".toList, "1.2.3.4".toList, by decide, by decide⟩
    let port : KeyValue := ⟨"Port".toList, "443".toList, by decide, by decide⟩
    let priceLines : List Line := [.keyValue monitorPort, .keyValue managerIP]
    let managerLines : List Line := [.blank, .keyValue port]
    primeXMPrice.readConfigFile (some (fileText priceLines true)) "ManagerIP".toList = [] ∧
      lastValue primeXMPrice.initial "ManagerIP".toList priceLines = "1.2.3.4".toList ∧
      historyManagerMT5.readConfigFile (some (fileText managerLines true)) "Port".toList = [] ∧
      lastValue historyManagerMT5.initial "Port".toList managerLines = "443".toList := by
  intro monitorPort managerIP port priceLines managerLines
  have hprice : fileText priceLines true = "MonitorPort=7502\nManagerIP=1.2.3.4\n".toList := by
    decide
  have hmanager : fileText managerLines true = "\nPort=443\n".toList := by decide
  refine ⟨?_, by decide, ?_, by decide⟩
  · rw [hprice]
    simp [AppStart.readConfigFile, primeXMPrice, readLoop, getline, priceKeys, priceInitial]
  · rw [hmanager]
    simp [AppStart.readConfigFile, historyManagerMT5, readLoop, getline, managerKeys]

end ForexSuite.ConfigFiles
