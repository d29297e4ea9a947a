import ForexSuite.CopierPlugin
import ForexSuite.Getline
import ForexSuite.GroupBy

/-!
# What a list of parameters is loaded to

Every parameter except the manager login stands for a rule under a symbol mask.
Loading groups the accepted rules by symbol mask and, below it, by group mask; a
rejected rule leaves no trace. Both indexes stay exact on the way.
-/
namespace ForexSuite.CopierLoading

open TextNumbers IndexedList GroupBy Getline CopierConfig CopierPlugin Exceptions

/-- A rule with the symbol mask it is loaded under. -/
structure SymbolRule where
  symbolmask : Text
  rule : Rule
deriving DecidableEq

/-- The rule of a parameter; the manager login has none. -/
def readParameter (param : Param) : Except LoadFault (Option SymbolRule) := do
  if param.name = managerLoginName then
    return none
  let symbolmask ← subscript (split param.name '|') 0
  let rule ← readRule (split param.name '|') (split param.value '|')
  return some ⟨symbolmask, rule⟩

def ruleOf (param : Param) : Option SymbolRule :=
  match readParameter param with
  | .ok sr => sr
  | .error _ => none

/-- The rules of a list of parameters, in order. -/
def rulesRead (params : List Param) : List SymbolRule := params.filterMap ruleOf

/-- The rules that pass the test of `insertSymbolConfig`. -/
def acceptedRules (check : Text → Text → Bool) (userGet : UserGet) (params : List Param) :
    List SymbolRule :=
  (rulesRead params).filter fun sr => sr.rule.Accepted check userGet

/-- Loading a rule that has been read. -/
def loadRule (check : Text → Text → Bool) (userGet : UserGet) (sr : SymbolRule)
    (p : CPluginInstance) : CPluginInstance :=
  match p.symbolIndexBySymbolmask.lookup sr.symbolmask with
  | some i => insertAt check userGet sr.rule i p
  | none => if sr.rule.Accepted check userGet then appendEntry sr.symbolmask sr.rule p else p

variable {check : Text → Text → Bool} {userGet : UserGet} {p p' : CPluginInstance} {param : Param}
  {sc : SymbolConfig} {rs : List Rule} {srs : List SymbolRule}

/-- Loading a parameter reads its rule and then loads the rule. -/
theorem loadParameter_eq :
    loadParameter check userGet p param =
      match readParameter param with
      | .error e => .error e
      | .ok none => .ok { p with managerLogin := param.valueInt.toUInt64 }
      | .ok (some sr) => .ok (loadRule check userGet sr p) := by
  unfold loadParameter readParameter
  by_cases hname : param.name = managerLoginName
  · simp [hname]
  · simp only [hname, if_false, pure_eq_ok]
    cases subscript (split param.name '|') 0 with
    | error e => rfl
    | ok symbolmask =>
        simp only [ok_bind]
        cases readRule (split param.name '|') (split param.value '|') with
        | error e => cases p.symbolIndexBySymbolmask.lookup symbolmask <;> rfl
        | ok r =>
            simp only [ok_bind, loadRule]
            cases p.symbolIndexBySymbolmask.lookup symbolmask with
            | some i => rfl
            | none =>
                simp only [insertSymbolConfig_eq]
                by_cases hr : r.Accepted check userGet
                · simp only [hr, if_true]
                  rfl
                · simp [hr]

/-! ### Groups of logins -/

/-- The group lists the login masks and targets of these rules. -/
def ListsLogins (g : GroupConfig) (rs : List Rule) : Prop :=
  g.loginconfig = rs.map fun r => ⟨r.loginmask, r.targetlogin⟩

/-- The entry holds these rules, grouped by group mask. -/
structure HoldsRules (sc : SymbolConfig) (rs : List Rule) : Prop where
  indexed : WellIndexed sc
  groups : Grouped Rule.groupmask GroupConfig.groupmask ListsLogins sc.groupconfig rs

theorem holdsRules_new (symbolmask : Text) : HoldsRules (.new symbolmask) [] :=
  ⟨wellIndexed_new symbolmask, grouped_nil⟩

theorem HoldsRules.storeRule (h : HoldsRules sc rs) (r : Rule) :
    HoldsRules (sc.storeRule r.groupmask r.loginmask r.targetlogin) (rs ++ [r]) := by
  refine ⟨h.indexed.storeRule _ _ _, ?_⟩
  unfold SymbolConfig.storeRule SymbolConfig.findGroupConfig
  cases hi : sc.groupIndexByGroupmask.lookup r.groupmask with
  | none => exact h.groups.append h.indexed hi rfl rfl
  | some i =>
      refine h.groups.modify h.indexed hi (fun _ => rfl) ?_
      intro g l hg
      rw [ListsLogins, GroupConfig.insertGroupConfig, hg, List.map_append]
      rfl

/-! ### Groups of rules -/

/-- The configuration holds these rules, grouped by symbol mask. -/
structure HoldsSymbolRules (p : CPluginInstance) (srs : List SymbolRule) : Prop where
  indexed : Indexes SymbolConfig.symbolmask p.symbolconfig p.symbolIndexBySymbolmask
  symbols : Grouped SymbolRule.symbolmask SymbolConfig.symbolmask
    (fun sc l => HoldsRules sc (l.map SymbolRule.rule)) p.symbolconfig srs

theorem holdsSymbolRules_new (managerLogin : UInt64) : HoldsSymbolRules (.new managerLogin) [] :=
  ⟨indexes_nil, grouped_nil⟩

/-- An accepted rule goes to the end of its group, a rejected one nowhere. -/
theorem HoldsSymbolRules.loadRule (h : HoldsSymbolRules p srs) (sr : SymbolRule) :
    HoldsSymbolRules (loadRule check userGet sr p)
      (srs ++ if sr.rule.Accepted check userGet then [sr] else []) := by
  have hsymbolmask := storeRule_symbolmask sr.rule.groupmask sr.rule.loginmask sr.rule.targetlogin
  unfold CopierLoading.loadRule
  cases hi : p.symbolIndexBySymbolmask.lookup sr.symbolmask with
  | none =>
      by_cases hr : sr.rule.Accepted check userGet
      · simp only [if_pos hr]
        constructor
        · have happ := h.indexed.append (x := (SymbolConfig.new sr.symbolmask).storeRule
            sr.rule.groupmask sr.rule.loginmask sr.rule.targetlogin) (by rwa [hsymbolmask])
          rwa [hsymbolmask] at happ
        · exact h.symbols.append h.indexed hi (hsymbolmask _)
            ((holdsRules_new sr.symbolmask).storeRule sr.rule)
      · simp only [if_neg hr, List.append_nil]
        exact h
  | some i =>
      refine ⟨h.indexed.modify (fun sc => insertSymbolConfig_symbolmask sr.rule sc) i, ?_⟩
      simp only [insertAt, insertSymbolConfig_eq]
      by_cases hr : sr.rule.Accepted check userGet
      · simp only [if_pos hr]
        refine h.symbols.modify h.indexed hi hsymbolmask ?_
        intro sc l hsc
        rw [List.map_append]
        exact hsc.storeRule sr.rule
      · simp only [if_neg hr, List.append_nil]
        have hsame : p.symbolconfig.modify i (fun sc => sc) = p.symbolconfig := List.modify_id i _
        rw [hsame]
        exact h.symbols

theorem HoldsSymbolRules.parametersShow {params : List Param} (h : HoldsSymbolRules p srs)
    (hload : parametersShow check userGet p params = .ok p') :
    HoldsSymbolRules p' (srs ++ acceptedRules check userGet params) := by
  induction params generalizing p srs with
  | nil =>
      obtain rfl : p = p' := Except.ok.inj hload
      simpa [acceptedRules, rulesRead] using h
  | cons param params ih =>
      rw [CopierPlugin.parametersShow, List.foldlM_cons, loadParameter_eq] at hload
      unfold acceptedRules rulesRead at ih ⊢
      rw [List.filterMap_cons, ruleOf]
      cases hread : readParameter param with
      | error e => simp [hread] at hload
      | ok sr =>
          rw [hread] at hload
          cases sr with
          | none =>
              rw [ok_bind] at hload
              have hnext :
                  HoldsSymbolRules { p with managerLogin := param.valueInt.toUInt64 } srs :=
                ⟨h.indexed, h.symbols⟩
              exact ih hnext hload
          | some sr =>
              rw [ok_bind] at hload
              have hnext := ih (h.loadRule sr) hload
              by_cases hr : sr.rule.Accepted check userGet
              · simpa [hr] using hnext
              · simpa [hr] using hnext

/-- What is loaded from an empty configuration are the accepted rules of the parameters. -/
theorem holdsSymbolRules_parametersShow {params : List Param} {managerLogin : UInt64}
    (hload : parametersShow check userGet (.new managerLogin) params = .ok p) :
    HoldsSymbolRules p (acceptedRules check userGet params) := by
  have hholds := (holdsSymbolRules_new managerLogin).parametersShow hload
  rwa [List.nil_append] at hholds

theorem mem_of_mem_rules {r : Rule} (h : HoldsRules sc rs) (hr : r ∈ sc.rules) : r ∈ rs := by
  have ⟨g, hg, hmask, hlogin⟩ := mem_rules.mp hr
  rw [h.groups.holds g hg, List.mem_map] at hlogin
  have ⟨x, hx, heq⟩ := hlogin
  have ⟨hxmem, hxmask⟩ := List.mem_filter.mp hx
  have hsame : x = r := by
    cases x
    cases r
    simp_all
  rwa [← hsame]

/-- A rule of a loaded entry has been loaded under the entry's mask. -/
theorem mem_of_mem_entry {r : Rule} (h : HoldsSymbolRules p srs) (hsc : sc ∈ p.symbolconfig)
    (hr : r ∈ sc.rules) : ⟨sc.symbolmask, r⟩ ∈ srs := by
  have hmem := mem_of_mem_rules (h.symbols.holds sc hsc) hr
  have ⟨sr, hsr, heq⟩ := List.mem_map.mp hmem
  have ⟨hsrmem, hmask⟩ := List.mem_filter.mp hsr
  have hsame : sr = ⟨sc.symbolmask, r⟩ := by
    cases sr
    simp_all
  rwa [← hsame]

theorem loaded_parametersShow {params : List Param} {managerLogin : UInt64}
    (hload : parametersShow check userGet (.new managerLogin) params = .ok p) :
    Loaded check userGet p := by
  have hholds := holdsSymbolRules_parametersShow hload
  refine ⟨hholds.indexed, fun sc hsc => (hholds.symbols.holds sc hsc).indexed, ?_⟩
  intro sc hsc r hr
  have hmem := mem_of_mem_entry hholds hsc hr
  exact of_decide_eq_true (List.mem_filter.mp hmem).2

/-- Loading returns when every parameter can be read. -/
theorem parametersShow_returns (check : Text → Text → Bool) (userGet : UserGet)
    {params : List Param} (h : ∀ param ∈ params, ∃ sr, readParameter param = .ok sr)
    (p : CPluginInstance) :
    ∃ p', parametersShow check userGet p params = .ok p' := by
  induction params generalizing p with
  | nil => exact ⟨p, rfl⟩
  | cons param params ih =>
      have ⟨sr, hsr⟩ := h param (by simp)
      have ih := ih fun q hq => h q (by simp [hq])
      rw [CopierPlugin.parametersShow, List.foldlM_cons, loadParameter_eq, hsr]
      cases sr with
      | none => exact ih _
      | some sr => exact ih _

/-- Loading that returns has read every parameter. -/
theorem readParameter_of_parametersShow {params : List Param}
    (hload : parametersShow check userGet p params = .ok p') :
    ∀ param ∈ params, ∃ sr, readParameter param = .ok sr := by
  induction params generalizing p with
  | nil => simp
  | cons param params ih =>
      rw [CopierPlugin.parametersShow, List.foldlM_cons, loadParameter_eq] at hload
      intro q hq
      cases hread : readParameter param with
      | error e => simp [hread] at hload
      | ok sr =>
          cases List.mem_cons.mp hq with
          | inl heq => exact ⟨sr, heq ▸ hread⟩
          | inr hmem =>
              rw [hread] at hload
              cases sr with
              | none => exact ih hload q hmem
              | some sr => exact ih hload q hmem

/-- A configuration as any number of loads can leave it. -/
inductive Configured (check : Text → Text → Bool) : CPluginInstance → Prop where
  | new (managerLogin : UInt64) : Configured check (.new managerLogin)
  | load {p p' : CPluginInstance} {userGet : UserGet} {params : List Param} (h : Configured check p)
      (hload : CopierPlugin.parametersShow check userGet p params = .ok p') : Configured check p'

theorem Configured.holds (h : Configured check p) : ∃ srs, HoldsSymbolRules p srs := by
  induction h with
  | new managerLogin => exact ⟨[], holdsSymbolRules_new managerLogin⟩
  | load _ hload ih =>
      have ⟨srs, hsrs⟩ := ih
      exact ⟨_, hsrs.parametersShow hload⟩

/-! ### Parameters that stand for a rule -/

/-- A text that can be a mask. -/
def MaskText : Type := { t : Text // t ≠ [] ∧ '|' ∉ t }

/-- A parameter named `symbolmask|groupmask` with the value `loginmask|target`. -/
structure RuleParam where
  symbolmask : MaskText
  groupmask : MaskText
  loginmask : MaskText
  targetText : Text
  target : ℕ
  literal : IsIntegerLiteral targetText target
  small : target < 2 ^ 31
  valueInt : Int64

namespace RuleParam

def toParam (r : RuleParam) : Param where
  name := r.symbolmask.1 ++ '|' :: r.groupmask.1
  value := r.loginmask.1 ++ '|' :: r.targetText
  valueInt := r.valueInt

def toRule (r : RuleParam) : SymbolRule :=
  ⟨r.symbolmask.1, ⟨r.groupmask.1, r.loginmask.1, Int32.ofNat r.target⟩⟩

end RuleParam

theorem splitLoop_eq (delimeter : Char) (item s : Text) :
    splitLoop delimeter item s = getlineLoop delimeter item s := by
  induction s generalizing item with
  | nil => rfl
  | cons c s ih => rw [splitLoop, getlineLoop, ih, ih]

theorem split_pair {a b : Text} {delimeter : Char} (ha : delimeter ∉ a) (hb : delimeter ∉ b)
    (hne : b ≠ []) : split (a ++ delimeter :: b) delimeter = [a, b] := by
  have hjoin : a ++ delimeter :: b = [delimeter].intercalate [a, b] := by simp [List.intercalate]
  rw [split, splitLoop_eq, ← getlines, hjoin, getlines_intercalate (by simp) _ (by simpa using hne)]
  intro item hitem
  rcases List.mem_pair.mp hitem with h | h
  · rwa [h]
  · rwa [h]

theorem bar_notMem_managerLoginName : '|' ∉ managerLoginName := by
  unfold managerLoginName
  simp

theorem readTarget_literal {t : Text} {n : ℕ} (h : IsIntegerLiteral t n) (hlt : n < 2 ^ 32) :
    readTarget t = .ok (Int32.ofNat n) := by
  rw [readTarget, stoul_literal h hlt]
  exact congrArg Except.ok UInt32.toInt32_ofNat'

theorem readParameter_toParam (r : RuleParam) : readParameter r.toParam = .ok (some r.toRule) := by
  have hbar : '|' ∉ r.targetText :=
    r.literal.notMem (by decide) (by decide) (by decide) (by decide)
  have hname : split r.toParam.name '|' = [r.symbolmask.1, r.groupmask.1] :=
    split_pair r.symbolmask.2.2 r.groupmask.2.2 r.groupmask.2.1
  have hvalue : split r.toParam.value '|' = [r.loginmask.1, r.targetText] :=
    split_pair r.loginmask.2.2 hbar r.literal.ne_nil
  have htarget : readTarget r.targetText = .ok (Int32.ofNat r.target) :=
    readTarget_literal r.literal (r.small.trans (by decide))
  have hmanager : r.toParam.name ≠ managerLoginName := by
    intro heq
    apply bar_notMem_managerLoginName
    rw [← heq, RuleParam.toParam]
    simp
  unfold readParameter
  rw [if_neg hmanager, hname, hvalue]
  simp [subscript, readRule, htarget, RuleParam.toRule]

theorem rulesRead_toParam (rules : List RuleParam) :
    rulesRead (rules.map RuleParam.toParam) = rules.map RuleParam.toRule := by
  rw [rulesRead, List.filterMap_map, ← List.filterMap_eq_map]
  apply List.filterMap_congr
  intro r _
  simp [ruleOf, readParameter_toParam]

/-- For every list of rules and all answers of `UserGet`: loading them from an empty configuration
returns, and lists the symbol masks, the group masks under each, and the login masks and targets
under both as grouping the accepted rules does. Both kinds of indexes are exact. -/
theorem loading_groups_rules (check : Text → Text → Bool) (userGet : UserGet)
    (managerLogin : UInt64) (rules : List RuleParam) :
    let accepted := (rules.map RuleParam.toRule).filter fun sr => sr.rule.Accepted check userGet
    ∃ p, parametersShow check userGet (.new managerLogin) (rules.map RuleParam.toParam) = .ok p ∧
      p.symbolconfig.map SymbolConfig.symbolmask =
        distinct (accepted.map SymbolRule.symbolmask) ∧
      (∀ sc ∈ p.symbolconfig,
        let under := accepted.filter fun sr => sr.symbolmask = sc.symbolmask
        sc.groupconfig.map GroupConfig.groupmask =
          distinct (under.map fun sr => sr.rule.groupmask) ∧
        ∀ g ∈ sc.groupconfig, g.loginconfig =
          (under.filter fun sr => sr.rule.groupmask = g.groupmask).map
            fun sr => ⟨sr.rule.loginmask, sr.rule.targetlogin⟩) ∧
      Indexes SymbolConfig.symbolmask p.symbolconfig p.symbolIndexBySymbolmask ∧
      ∀ sc ∈ p.symbolconfig,
        Indexes GroupConfig.groupmask sc.groupconfig sc.groupIndexByGroupmask := by
  intro accepted
  have hread : ∀ param ∈ rules.map RuleParam.toParam, ∃ sr, readParameter param = .ok sr := by
    intro param hparam
    have ⟨r, _, hr⟩ := List.mem_map.mp hparam
    exact ⟨_, hr ▸ readParameter_toParam r⟩
  have ⟨p, hload⟩ := parametersShow_returns check userGet hread (.new managerLogin)
  have hholds := holdsSymbolRules_parametersShow hload
  rw [acceptedRules, rulesRead_toParam] at hholds
  refine ⟨p, hload, hholds.symbols.keys, ?_, hholds.indexed, ?_⟩
  · intro sc hsc under
    have hrules := (hholds.symbols.holds sc hsc).groups
    constructor
    · rw [hrules.keys, List.map_map]
      rfl
    · intro g hg
      rw [hrules.holds g hg, List.filter_map, List.map_map]
      rfl
  · intro sc hsc
    exact (hholds.symbols.holds sc hsc).indexed

end ForexSuite.CopierLoading
