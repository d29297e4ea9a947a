import ForexSuite.CopierRouting
import ForexSuite.FirstMatch

/-!
# Routing by a list of rules

Where a deal is copied to depends only on the list of rules that the configuration
holds: under each symbol mask that matches, in the order in which the masks occur
first, the first rule that covers the account in the first group that matches it.
Rules behind the list do not change a target that has been found, and rules the
list already has change nothing. So the plugin may be started again on the same
parameters, and a parameter may be added without redirecting a copy.
-/
namespace ForexSuite.RuleRouting

open TextNumbers GroupBy FirstMatch CopierConfig CopierPlugin CopierLoading CopierRouting

variable {check : Text → Text → Bool} {userGet : UserGet} {symbol group : Text} {login : Int32}
  {sc : SymbolConfig} {rs rs' : List Rule} {srs srs' : List SymbolRule} {p p' : CPluginInstance}

/-- The target to which rules under one symbol mask route an account. -/
def ruleTarget (check : Text → Text → Bool) (group : Text) (login : Int32) (rs : List Rule) :
    Option Int32 :=
  (firstInGroup Rule.groupmask (check · group)
    (fun r => check r.loginmask (toText login.toInt)) rs).map Rule.targetlogin

def rulesUnder (mask : Text) (srs : List SymbolRule) : List Rule :=
  (srs.filter fun sr => sr.symbolmask = mask).map SymbolRule.rule

/-- The targets to which a list of rules routes the deals of an account in a symbol. -/
def routedTargets (check : Text → Text → Bool) (symbol group : Text) (login : Int32)
    (srs : List SymbolRule) : List Int32 :=
  (distinct (srs.map SymbolRule.symbolmask)).filterMap fun mask =>
    if check mask symbol then ruleTarget check group login (rulesUnder mask srs) else none

/-! ### The configuration routes as its rules do -/

theorem searchGroupConfig_eq (h : HoldsRules sc rs) (group : Text) (login : Int32) :
    sc.searchGroupConfig check group login =
      match ruleTarget check group login rs with
      | some t => (t, true)
      | none => (0, false) := by
  rw [SymbolConfig.searchGroupConfig, searchGroups_eq, ruleTarget, firstInGroup,
    h.groups.find?_keys]
  cases hg : sc.groupconfig.find? fun g => check g.groupmask group with
  | none => rfl
  | some g =>
      have hlogins := h.groups.holds g (List.mem_of_find?_eq_some hg)
      simp only [Option.map_some]
      rw [GroupConfig.searchLogin, searchLogins_eq, hlogins, List.find?_map, Function.comp_def]
      cases hr : (rs.filter fun r => r.groupmask = g.groupmask).find?
        fun r => check r.loginmask (toText login.toInt) with
      | none => rfl
      | some r => rfl

theorem pushedTargets_eq_routed (h : HoldsSymbolRules p srs) (api : ServerApi) (deal : Deal) :
    pushedTargets check api p deal =
      if isCopied deal.reason then
        (routedTargets check deal.symbol (userGroup api.userGet deal.login) (toLong deal.login)
          srs).map toUINT64
      else [] := by
  by_cases hreason : isCopied deal.reason = true
  · rw [if_pos hreason, pushedTargets_eq hreason, routedTargets, List.map_filterMap,
      ← h.symbols.keys, List.filterMap_map]
    apply List.filterMap_congr
    intro sc hsc
    have hsearch : sc.searchGroupConfig check _ _ = _ := searchGroupConfig_eq
      (h.symbols.holds sc hsc) (userGroup api.userGet deal.login) (toLong deal.login)
    simp only [Function.comp_apply, copyFor, hsearch, rulesUnder]
    by_cases hsymbol : check sc.symbolmask deal.symbol = true
    · simp only [hsymbol, if_true]
      cases ruleTarget check (userGroup api.userGet deal.login) (toLong deal.login)
        ((srs.filter fun sr => sr.symbolmask = sc.symbolmask).map SymbolRule.rule) with
      | none => rfl
      | some t => rfl
    · simp [hsymbol]
  · simp [pushedTargets, onDealPerform, hreason]

/-! ### More rules behind the list -/

theorem ruleTarget_append {t : Int32} (h : ruleTarget check group login rs = some t) :
    ruleTarget check group login (rs ++ rs') = some t := by
  unfold ruleTarget at h ⊢
  have ⟨r, hr, ht⟩ := Option.map_eq_some_iff.mp h
  rw [firstInGroup_append hr, Option.map_some, ht]

theorem ruleTarget_append_of_mem (h : ∀ r ∈ rs', r ∈ rs) :
    ruleTarget check group login (rs ++ rs') = ruleTarget check group login rs := by
  rw [ruleTarget, firstInGroup_append_of_mem h, ruleTarget]

theorem rulesUnder_append (mask : Text) (srs srs' : List SymbolRule) :
    rulesUnder mask (srs ++ srs') = rulesUnder mask srs ++ rulesUnder mask srs' := by
  simp [rulesUnder]

theorem rulesUnder_subset (mask : Text) (h : ∀ sr ∈ srs', sr ∈ srs) :
    ∀ r ∈ rulesUnder mask srs', r ∈ rulesUnder mask srs := by
  intro r hr
  have ⟨sr, hsr, heq⟩ := List.mem_map.mp hr
  have ⟨hmem, hmask⟩ := List.mem_filter.mp hsr
  exact List.mem_map.mpr ⟨sr, List.mem_filter.mpr ⟨h sr hmem, hmask⟩, heq⟩

/-- Rules the list already has do not change its routing. -/
theorem routedTargets_append_of_mem (h : ∀ sr ∈ srs', sr ∈ srs) :
    routedTargets check symbol group login (srs ++ srs') =
      routedTargets check symbol group login srs := by
  have hmasks : ∀ mask ∈ srs'.map SymbolRule.symbolmask, mask ∈ srs.map SymbolRule.symbolmask := by
    intro mask hmask
    have ⟨sr, hsr, heq⟩ := List.mem_map.mp hmask
    rw [← heq]
    exact List.mem_map_of_mem (h sr hsr)
  unfold routedTargets
  rw [List.map_append, distinct_append_of_mem hmasks]
  apply List.filterMap_congr
  intro mask _
  rw [rulesUnder_append, ruleTarget_append_of_mem (rulesUnder_subset mask h)]

/-- Further rules add targets and keep those there are. -/
theorem routedTargets_sublist (srs srs' : List SymbolRule) :
    (routedTargets check symbol group login srs).Sublist
      (routedTargets check symbol group login (srs ++ srs')) := by
  unfold routedTargets
  rw [List.map_append, distinct_append, List.filterMap_append]
  refine List.Sublist.trans ?_ (List.sublist_append_left _ _)
  apply filterMap_sublist_filterMap
  intro mask t h
  by_cases hsymbol : check mask symbol = true
  · rw [if_pos hsymbol] at h ⊢
    rw [rulesUnder_append]
    exact ruleTarget_append h
  · simp [hsymbol] at h

/-- However a configuration has been loaded, loading further parameters keeps the targets of every
deal in their order: new ones may only come between them. -/
theorem further_rules_keep_targets (check : Text → Text → Bool) (p : CPluginInstance)
    (hp : Configured check p) (userGet : UserGet) (params : List Param) (p' : CPluginInstance)
    (hload : parametersShow check userGet p params = .ok p') (api : ServerApi) (deal : Deal) :
    (pushedTargets check api p deal).Sublist (pushedTargets check api p' deal) := by
  have ⟨srs, hsrs⟩ := hp.holds
  rw [pushedTargets_eq_routed hsrs, pushedTargets_eq_routed (hsrs.parametersShow hload)]
  by_cases hreason : isCopied deal.reason = true
  · rw [if_pos hreason, if_pos hreason]
    exact (routedTargets_sublist srs _).map toUINT64
  · rw [if_neg hreason, if_neg hreason]

/-- A rule for one symbol is loaded behind one for every symbol. -/
theorem further_rules_keep_targets_eurusd :
    let everySymbol : List Param := [.rule "*|*" "100|200"]
    let eurusd : List Param := [.rule "EURUSD|*" "100|300"]
    let api : ServerApi := everyoneInDemo
    let deal := Deal.client 100 "EURUSD".toList
    ∃ p p', parametersShow GroupMask.checkGroupMask api.userGet (.new 1) everySymbol = .ok p ∧
      parametersShow GroupMask.checkGroupMask api.userGet p eurusd = .ok p' ∧
      (pushedTargets GroupMask.checkGroupMask api p deal).Sublist
        (pushedTargets GroupMask.checkGroupMask api p' deal) := by
  intro everySymbol eurusd api deal
  refine ⟨_, _, rfl, rfl, ?_⟩
  have hload : parametersShow GroupMask.checkGroupMask api.userGet (.new 1) everySymbol = .ok _ :=
    rfl
  exact further_rules_keep_targets GroupMask.checkGroupMask _ (.load (.new 1) hload) api.userGet
    eurusd _ rfl api deal

/-! ### Starting the plugin again -/

/-- The plugin object. Outside of `Start` and `Stop` it is told of no deals. -/
structure Plugin where
  running : Bool
  rules : CPluginInstance

namespace Plugin

def new (managerLogin : UInt64) : Plugin := ⟨false, .new managerLogin⟩

/-- `Start` loads the parameters into the containers as they are. -/
def start (check : Text → Text → Bool) (userGet : UserGet) (params : List Param) (s : Plugin) :
    Except LoadFault Plugin := do
  let rules ← parametersShow check userGet s.rules params
  return ⟨true, rules⟩

/-- `Stop` unsubscribes from the events and leaves the rules alone. -/
def stop (s : Plugin) : Plugin := { s with running := false }

def dealTargets (check : Text → Text → Bool) (api : ServerApi) (s : Plugin) (deal : Deal) :
    List UInt64 :=
  if s.running then pushedTargets check api s.rules deal else []

end Plugin

/-- Whatever a plugin held before it was started on a list of parameters: when it is stopped and
started on them again, it starts and pushes the targets it pushed before, for every deal. -/
theorem restart_keeps_targets (check : Text → Text → Bool) (userGet : UserGet)
    (params : List Param) (s₀ s : Plugin) (hs₀ : Configured check s₀.rules)
    (hstart : s₀.start check userGet params = .ok s) :
    ∃ s', s.stop.start check userGet params = .ok s' ∧
      ∀ api deal, s'.dealTargets check api deal = s.dealTargets check api deal := by
  have ⟨srs, hsrs⟩ := hs₀.holds
  unfold Plugin.start at hstart ⊢
  cases hload : parametersShow check userGet s₀.rules params with
  | error e => simp [hload] at hstart
  | ok p =>
      rw [hload] at hstart
      obtain rfl : ⟨true, p⟩ = s := Except.ok.inj hstart
      have ⟨p', hload'⟩ := parametersShow_returns check userGet
        (readParameter_of_parametersShow hload) p
      refine ⟨⟨true, p'⟩, by rw [Plugin.stop, hload']; rfl, ?_⟩
      intro api deal
      have hp := hsrs.parametersShow hload
      have hp' := hp.parametersShow hload'
      have hmem : ∀ sr ∈ acceptedRules check userGet params,
          sr ∈ srs ++ acceptedRules check userGet params :=
        fun sr hsr => List.mem_append_right srs hsr
      simp only [Plugin.dealTargets, if_true]
      rw [pushedTargets_eq_routed hp, pushedTargets_eq_routed hp', routedTargets_append_of_mem hmem]

theorem restart_keeps_targets_overlapping :
    let check := GroupMask.checkGroupMask
    let api : ServerApi := everyoneInDemo
    ∃ s s', (Plugin.new 1).start check api.userGet overlappingMasks = .ok s ∧
      s.stop.start check api.userGet overlappingMasks = .ok s' ∧
      ∀ deal, s'.dealTargets check api deal = s.dealTargets check api deal := by
  intro check api
  obtain ⟨s, hs⟩ : ∃ s, (Plugin.new 1).start check api.userGet overlappingMasks = .ok s := ⟨_, rfl⟩
  have hempty : Configured check (Plugin.new 1).rules := .new 1
  have ⟨s', hstart, hsame⟩ := restart_keeps_targets check api.userGet overlappingMasks (.new 1) s
    hempty hs
  exact ⟨s, s', hs, hstart, hsame api⟩

end ForexSuite.RuleRouting
