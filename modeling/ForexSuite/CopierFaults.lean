import ForexSuite.CopierRouting
import ForexSuite.EventMachine

/-!
# Parameters that loading cannot read

Loading reads the second item of a parameter's name and of its value, and the number
in the latter, without asking whether they are there. For a group mask that is new
under its symbol mask `findGroupConfig` reads through the iterator past the end,
so every rule that starts a group does. A rule that is read is stored when it passes
the test of `insertSymbolConfig`, whatever else its name and value hold.
-/
namespace ForexSuite.CopierFaults

open TextNumbers EventMachine IndexedList CopierConfig CopierPlugin CopierLoading CopierRouting
open Exceptions

variable {check : Text → Text → Bool} {userGet : UserGet} {p p' : CPluginInstance} {param : Param}
  {sr : SymbolRule} {srs : List SymbolRule}

/-- The entry a rule under the mask is inserted into. -/
def entryFor (p : CPluginInstance) (symbolmask : Text) : SymbolConfig :=
  match p.symbolIndexBySymbolmask.lookup symbolmask with
  | some i => p.symbolconfig[i]?.getD (.new symbolmask)
  | none => .new symbolmask

/-- Loading the parameter calls `findGroupConfig`, which it does for a rule that has passed the
test, and the call reads past the end. -/
def ReadsPastTheEnd (check : Text → Text → Bool) (userGet : UserGet) (p : CPluginInstance)
    (param : Param) : Prop :=
  ∃ sr, readParameter param = .ok (some sr) ∧ sr.rule.Accepted check userGet ∧
    (entryFor p sr.symbolmask).findGroupConfig sr.rule.groupmask = .pastTheEnd

/-- One parameter of the loop, as a step that may end in a fault. -/
def loadStep (check : Text → Text → Bool) (userGet : UserGet) (p : CPluginInstance)
    (param : Param) : CPluginInstance × Option LoadFault :=
  match loadParameter check userGet p param with
  | .ok p' => (p', none)
  | .error e => (p, some e)

/-- A parameter named `symbolmask|groupmask` whose value is `loginmask|number`. -/
def IsRuleParam (param : Param) : Prop :=
  ∃ (symbolmask groupmask loginmask : MaskText) (number : Text) (n : ℤ),
    IsIntegerLiteral number n ∧ param.name = symbolmask.1 ++ '|' :: groupmask.1 ∧
      param.value = loginmask.1 ++ '|' :: number

/-- The name and the value have two items at least, and the second one of the value starts with
a number that `std::stoul` accepts. -/
structure Readable (param : Param) (sr : SymbolRule) : Prop where
  symbolmask : (split param.name '|')[0]? = some sr.symbolmask
  groupmask : (split param.name '|')[1]? = some sr.rule.groupmask
  loginmask : (split param.value '|')[0]? = some sr.rule.loginmask
  target : ∃ number n, (split param.value '|')[1]? = some number ∧ stoul number = .ok n ∧
    sr.rule.targetlogin = n.toInt32

/-- The configuration has the group mask under the symbol mask. -/
def Lists (p : CPluginInstance) (symbolmask groupmask : Text) : Prop :=
  ∃ sc ∈ p.symbolconfig, sc.symbolmask = symbolmask ∧
    groupmask ∈ sc.groupconfig.map GroupConfig.groupmask

/-! ### Reading -/

theorem subscript_eq_ok_iff {items : List Text} {i : ℕ} {item : Text} :
    subscript items i = .ok item ↔ items[i]? = some item := by
  unfold subscript
  cases items[i]? <;> simp

theorem readTarget_eq_ok_iff {t : Text} {target : Int32} :
    readTarget t = .ok target ↔ ∃ n, stoul t = .ok n ∧ target = n.toInt32 := by
  unfold readTarget
  cases stoul t with
  | error e => simp
  | ok n => simp [eq_comm]

theorem readParameter_eq_some_iff :
    readParameter param = .ok (some sr) ↔ param.name ≠ managerLoginName ∧ Readable param sr := by
  unfold readParameter
  by_cases hname : param.name = managerLoginName
  · simp [hname]
  · simp only [hname, if_false, ne_eq, not_false_eq_true, true_and, readRule, bind_eq_ok_iff,
      pure_eq_ok, subscript_eq_ok_iff, readTarget_eq_ok_iff, Except.ok.injEq, Option.some.injEq]
    constructor
    · intro h
      obtain ⟨symbolmask, hs, r, hrule, rfl⟩ := h
      obtain ⟨groupmask, hg, loginmask, hl, number, hn, target, ht, rfl⟩ := hrule
      obtain ⟨n, hstoul, htarget⟩ := ht
      exact ⟨hs, hg, hl, number, n, hn, hstoul, htarget⟩
    · intro h
      obtain ⟨number, n, hn, hstoul, htarget⟩ := h.target
      exact ⟨sr.symbolmask, h.symbolmask, sr.rule, ⟨_, h.groupmask, _, h.loginmask, number, hn, _,
        ⟨n, hstoul, htarget⟩, rfl⟩, rfl⟩

theorem readParameter_eq_none_iff :
    readParameter param = .ok none ↔ param.name = managerLoginName := by
  unfold readParameter
  by_cases hname : param.name = managerLoginName
  · simp [hname]
  · simp [hname, bind_eq_ok_iff]

/-! ### Storing -/

theorem findGroupConfig_eq_pastTheEnd_iff {sc : SymbolConfig} (h : WellIndexed sc)
    {groupmask : Text} :
    sc.findGroupConfig groupmask = .pastTheEnd ↔
      groupmask ∉ sc.groupconfig.map GroupConfig.groupmask := by
  rw [← h.lookup_eq_none, SymbolConfig.findGroupConfig]
  cases sc.groupIndexByGroupmask.lookup groupmask <;> simp

theorem reads_past_the_end_iff (h : HoldsSymbolRules p srs) (symbolmask groupmask : Text) :
    (entryFor p symbolmask).findGroupConfig groupmask = .pastTheEnd ↔
      ¬ Lists p symbolmask groupmask := by
  unfold entryFor Lists
  cases hi : p.symbolIndexBySymbolmask.lookup symbolmask with
  | none =>
      have hnot := h.indexed.lookup_eq_none.mp hi
      have hnone : ¬ ∃ sc ∈ p.symbolconfig, sc.symbolmask = symbolmask ∧
          groupmask ∈ sc.groupconfig.map GroupConfig.groupmask := by
        intro hex
        have ⟨sc, hsc, hmask, _⟩ := hex
        exact hnot (hmask ▸ List.mem_map_of_mem hsc)
      exact iff_of_true rfl hnone
  | some i =>
      have ⟨sc, hsc, hmask⟩ := h.indexed.entry hi
      have hmem := List.mem_of_getElem? hsc
      have hgroups := (h.symbols.holds sc hmem).indexed
      simp only [hsc, Option.getD_some, findGroupConfig_eq_pastTheEnd_iff hgroups]
      refine not_congr ⟨fun hg => ⟨sc, hmem, hmask, hg⟩, ?_⟩
      intro hex
      have ⟨sc', hsc', hmask', hg⟩ := hex
      -- the index leaves room for one entry with the mask
      have ⟨j, hj⟩ := List.mem_iff_getElem?.mp hsc'
      have hlookup := (h.indexed symbolmask j).mpr (by simp [hj, hmask'])
      rw [hi, Option.some_inj] at hlookup
      rw [← hlookup, hsc, Option.some_inj] at hj
      rwa [hj]

theorem loadRule_of_rejected (h : ¬ sr.rule.Accepted check userGet) :
    loadRule check userGet sr p = p := by
  unfold loadRule
  cases p.symbolIndexBySymbolmask.lookup sr.symbolmask with
  | none => exact if_neg h
  | some i =>
      simp only [insertAt, insertSymbolConfig_eq, if_neg h]
      rw [show p.symbolconfig.modify i (fun sc => sc) = p.symbolconfig from List.modify_id i _]

theorem HoldsRules.not_concat {sc : SymbolConfig} {rs : List Rule} (h : HoldsRules sc rs)
    (r : Rule) : ¬ HoldsRules sc (rs ++ [r]) := by
  intro h'
  refine h.groups.not_concat ?_ h'.groups
  intro g l hl hmore
  have hlength := congrArg List.length (hl.symm.trans hmore)
  simp at hlength

/-- A rule changes the configuration exactly if it passes the test. -/
theorem loadRule_eq_self_iff (h : HoldsSymbolRules p srs) :
    loadRule check userGet sr p = p ↔ ¬ sr.rule.Accepted check userGet := by
  constructor
  · intro hsame haccepted
    have hmore : HoldsSymbolRules (loadRule check userGet sr p) _ := h.loadRule sr
    rw [hsame, if_pos haccepted] at hmore
    refine h.symbols.not_concat ?_ hmore.symbols
    intro sc l hl hl'
    rw [List.map_append] at hl'
    exact HoldsRules.not_concat hl sr.rule hl'
  · exact loadRule_of_rejected

/-! ### Loading a list of parameters -/

/-- The parameter is skipped: loading it returns, and changes nothing. -/
def Skipped (check : Text → Text → Bool) (userGet : UserGet) (p : CPluginInstance)
    (param : Param) : Prop :=
  loadParameter check userGet p param = .ok p

/-- Loading the parameter does nothing undefined, throws nothing, and changes nothing if the
parameter is neither the manager login nor a rule. -/
def LoadsAsMeant (check : Text → Text → Bool) (userGet : UserGet) (p : CPluginInstance)
    (param : Param) : Prop :=
  (∃ p', loadParameter check userGet p param = .ok p') ∧
    ¬ ReadsPastTheEnd check userGet p param ∧
      (param.name ≠ managerLoginName → ¬ IsRuleParam param → Skipped check userGet p param)

/-- The parameter is the manager login, or it can be read and its rule is discarded, or stored into
a group that is there, being written as a rule is. -/
def Harmless (check : Text → Text → Bool) (userGet : UserGet) (p : CPluginInstance)
    (param : Param) : Prop :=
  param.name = managerLoginName ∨ ∃ sr, Readable param sr ∧
    (sr.rule.Accepted check userGet →
      IsRuleParam param ∧ Lists p sr.symbolmask sr.rule.groupmask)

theorem loadsAsMeant_iff (h : HoldsSymbolRules p srs) :
    LoadsAsMeant check userGet p param ↔ Harmless check userGet p param := by
  unfold LoadsAsMeant Harmless ReadsPastTheEnd Skipped
  rw [loadParameter_eq]
  by_cases hname : param.name = managerLoginName
  · simp [readParameter_eq_none_iff.mpr hname, hname]
  · have hsome (sr : SymbolRule) : Readable param sr ↔ readParameter param = .ok (some sr) := by
      rw [readParameter_eq_some_iff, and_iff_right hname]
    simp only [hname, false_or, hsome, ne_eq, not_false_eq_true, true_implies]
    cases hread : readParameter param with
    | error e => simp
    | ok found =>
        cases found with
        | none => exact (hname (readParameter_eq_none_iff.mp hread)).elim
        | some sr =>
            simp only [Except.ok.injEq, Option.some.injEq, exists_eq', exists_eq_left', true_and,
              reads_past_the_end_iff h, loadRule_eq_self_iff h]
            constructor
            · intro hmeant haccepted
              constructor
              · exact not_not.mp fun hform => hmeant.2 hform haccepted
              · exact not_not.mp fun hlists => hmeant.1 ⟨haccepted, hlists⟩
            · intro hharmless
              constructor
              · exact fun hreads => hreads.2 (hharmless hreads.1).2
              · exact fun hform haccepted => hform (hharmless haccepted).1

theorem loadStep_holds (h : ∃ srs, HoldsSymbolRules p srs) (param : Param) :
    ∃ srs, HoldsSymbolRules (loadStep check userGet p param).1 srs := by
  have ⟨srs, hsrs⟩ := h
  unfold loadStep
  cases hload : loadParameter check userGet p param with
  | error e => exact ⟨srs, hsrs⟩
  | ok p' =>
      have hone : parametersShow check userGet p [param] = .ok p' := by
        rw [CopierPlugin.parametersShow, List.foldlM_cons, hload]
        rfl
      exact ⟨_, hsrs.parametersShow hone⟩

/-- `ParametersShow` returns exactly if every pass of its loop does. -/
theorem parametersShow_returns_iff (params : List Param) (p : CPluginInstance) :
    (∃ p', parametersShow check userGet p params = .ok p') ↔
      Along (loadStep check userGet)
        (fun p param => ∃ p', loadParameter check userGet p param = .ok p') p params := by
  induction params generalizing p with
  | nil => exact iff_of_true ⟨p, rfl⟩ trivial
  | cons param params ih =>
      simp only [CopierPlugin.parametersShow, List.foldlM_cons, bind_eq_ok_iff, Along] at ih ⊢
      rw [← ih]
      unfold loadStep
      cases loadParameter check userGet p param with
      | error e => simp
      | ok p' => simp

/-- From every configuration that loading can leave and for every list of parameters, whatever
their names and values are: `ParametersShow` returns, never reads past the end, and skips every
parameter that is neither the manager login nor a rule, if and only if every parameter is
harmless when its turn comes. -/
theorem loads_as_meant_iff (check : Text → Text → Bool) (p : CPluginInstance)
    (hp : Configured check p) (userGet : UserGet) (params : List Param) :
    ((∃ p', parametersShow check userGet p params = .ok p') ∧
        Along (loadStep check userGet)
          (fun p param => ¬ ReadsPastTheEnd check userGet p param) p params ∧
        Along (loadStep check userGet)
          (fun p param => param.name ≠ managerLoginName → ¬ IsRuleParam param →
            Skipped check userGet p param) p params) ↔
      Along (loadStep check userGet) (Harmless check userGet) p params := by
  rw [parametersShow_returns_iff, ← along_and, ← along_and]
  exact along_congr (fun p => ∃ srs, HoldsSymbolRules p srs)
    (fun p param h => loadStep_holds h param) (fun p param h => loadsAsMeant_iff h.choose_spec)
    hp.holds

/-- The manager login, and a rule that is read and discarded. -/
theorem loads_as_meant_iff_discarded :
    ∃ p', parametersShow GroupMask.checkGroupMask everyoneInDemo.userGet (.new 0)
      [⟨managerLoginName, "1000".toList, 1000⟩, .rule "*|*" "*|200"] = .ok p' := by
  refine ((loads_as_meant_iff GroupMask.checkGroupMask (.new 0) (.new 0) everyoneInDemo.userGet
    [⟨managerLoginName, "1000".toList, 1000⟩, .rule "*|*" "*|200"]).mpr ⟨Or.inl rfl, ?_, trivial⟩).1
  refine Or.inr ⟨⟨"*".toList, "*".toList, "*".toList, 200⟩, ⟨by decide, by decide, by decide,
    "200".toList, 200, by decide, by decide, by decide⟩, ?_⟩
  intro haccepted
  exact absurd haccepted (by decide)

/-- The parameters in the table `ExtPluginDefaults`, to which nothing in the plugin refers. -/
def extPluginDefaults : List Param :=
  [⟨"Symbols".toList, "*".toList, 0⟩,
    ⟨"Groups".toList, "*,!demo*,!contest*,!manager*".toList, 0⟩,
    ⟨"Monthly cost".toList, "5".toList, 5⟩,
    ⟨"Currency".toList, "USD".toList, 0⟩,
    ⟨"Skip disabled users".toList, "Yes".toList, 0⟩,
    ⟨"Max deposit to charge".toList, "10000".toList, 10000⟩,
    ⟨"Max overturn to charge".toList, "100000".toList, 100000⟩]

/-- The first of them has no second item. A rule that is well formed reads past the end when it is
the first of its group. -/
theorem defaults_are_not_loaded :
    parametersShow GroupMask.checkGroupMask everyoneInDemo.userGet (.new 0) extPluginDefaults =
        .error .subscript ∧
      ReadsPastTheEnd GroupMask.checkGroupMask everyoneInDemo.userGet (.new 0)
        (.rule "*|*" "100|200") := by
  refine ⟨rfl, ⟨"*".toList, ⟨"*".toList, "100".toList, 200⟩⟩, rfl, by decide, rfl⟩

end ForexSuite.CopierFaults
