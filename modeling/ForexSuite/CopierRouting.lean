import ForexSuite.CopierLoading
import ForexSuite.GroupMask

/-!
# Which targets a deal is copied to

Each symbol mask that matches a deal routes it to at most one target. Routing
looks at the first group whose mask matches the account and gives up when no
login mask of that group does, so later groups are reached only by accounts that
no earlier group mask covers. The masks of different entries may overlap, and a
target is sent one copy for each entry that routes the deal to it.
-/
namespace ForexSuite.CopierRouting

open TextNumbers IndexedList CopierConfig CopierPlugin CopierLoading

def RoutesTo (check : Text → Text → Bool) (api : ServerApi) (deal : Deal) (sc : SymbolConfig)
    (t : Int32) : Prop :=
  check sc.symbolmask deal.symbol = true ∧
    sc.searchGroupConfig check (userGroup api.userGet deal.login) (toLong deal.login) = (t, true)

/-- The first stored group whose mask matches the account's group, if there is one, has a
login mask that matches the account. -/
def FirstGroupCovers (check : Text → Text → Bool) (sc : SymbolConfig) (group : Text)
    (login : Int32) : Prop :=
  ∀ g, (sc.groupconfig.find? fun g => check g.groupmask group) = some g →
    ∃ l ∈ g.loginconfig, check l.loginmask (toText login.toInt) = true

variable {check : Text → Text → Bool} {api : ServerApi} {p : CPluginInstance} {deal : Deal}
  {sc : SymbolConfig} {t : Int32}

instance : Decidable (RoutesTo check api deal sc t) := inferInstanceAs (Decidable (_ ∧ _))

theorem toUINT64_injective : Function.Injective toUINT64 :=
  Function.LeftInverse.injective toLong_toUINT64

theorem copyFor_eq_some {managerLogin : UInt64} {r : CopyRequest} :
    copyFor check api managerLogin deal sc = some r ↔
      ∃ t, RoutesTo check api deal sc t ∧ r = ⟨assignDeal api deal, managerLogin, toUINT64 t⟩ := by
  unfold copyFor RoutesTo
  rcases hs : sc.searchGroupConfig check (userGroup api.userGet deal.login) (toLong deal.login)
    with ⟨t, found⟩
  cases hm : check sc.symbolmask deal.symbol <;> cases found <;> simp [eq_comm]

theorem mem_onDealPerform {r : CopyRequest} :
    r ∈ onDealPerform check api p deal ↔
      isCopied deal.reason = true ∧ ∃ sc ∈ p.symbolconfig, ∃ t, RoutesTo check api deal sc t ∧
        r = ⟨assignDeal api deal, p.managerLogin, toUINT64 t⟩ := by
  unfold onDealPerform
  split_ifs with hreason
  · simp only [hreason, true_and, List.mem_filterMap, copyFor_eq_some]
  · simp [hreason]

/-- A target is found if and only if there is a group that matches and the first one has a login
mask that matches. -/
theorem exists_searchGroupConfig_iff {group : Text} {login : Int32} :
    (∃ t, sc.searchGroupConfig check group login = (t, true)) ↔
      ∃ g, (sc.groupconfig.find? fun g => check g.groupmask group) = some g ∧
        ∃ l ∈ g.loginconfig, check l.loginmask (toText login.toInt) = true := by
  rw [SymbolConfig.searchGroupConfig, searchGroups_eq]
  cases sc.groupconfig.find? fun g => check g.groupmask group with
  | none => simp
  | some g =>
      simp only [Option.some.injEq, exists_eq_left']
      rw [← searchLogins_isSome_iff]
      constructor
      · intro hfound
        obtain ⟨t, ht⟩ := hfound
        exact congrArg Prod.snd ht
      · intro hsome
        exact ⟨_, Prod.ext rfl hsome⟩

/-- When some rule covers the account, routing finds a target if and only if the first group
that matches covers it. -/
theorem searchGroupConfig_iff {group : Text} {login : Int32}
    (h : ∃ r ∈ sc.rules, r.Matches check group login) :
    (∃ t, sc.searchGroupConfig check group login = (t, true)) ↔
      FirstGroupCovers check sc group login := by
  obtain ⟨r, hr, hgroup, -⟩ := h
  obtain ⟨g, hg, hgm, -⟩ := mem_rules.mp hr
  -- some group matches, so the search does not run through
  have hfind : (sc.groupconfig.find? fun g => check g.groupmask group).isSome := by
    rw [List.find?_isSome]
    exact ⟨g, hg, by rw [hgm, hgroup]⟩
  obtain ⟨first, hfirst⟩ := Option.isSome_iff_exists.mp hfind
  rw [exists_searchGroupConfig_iff, FirstGroupCovers, hfirst]
  simp only [Option.some.injEq, forall_eq', exists_eq_left']

/-- Let the account of a deal be covered by some rule of an entry whose symbol mask matches.
The entry finds a target and a copy is pushed for it exactly when the first group mask that
matches the account's group has a login mask that matches the account. -/
theorem copied_iff_firstGroupCovers (check : Text → Text → Bool) (api : ServerApi)
    (p : CPluginInstance) (deal : Deal) (group : Text) (hreason : isCopied deal.reason = true)
    (hget : api.userGet deal.login = some group) (hassign : api.assign deal = true)
    (sc : SymbolConfig) (hsc : sc ∈ p.symbolconfig)
    (hsymbol : check sc.symbolmask deal.symbol = true)
    (hrule : ∃ r ∈ sc.rules, r.Matches check group (toLong deal.login)) :
    (∃ t, sc.searchGroupConfig check group (toLong deal.login) = (t, true) ∧
        ⟨deal, p.managerLogin, toUINT64 t⟩ ∈ onDealPerform check api p deal) ↔
      FirstGroupCovers check sc group (toLong deal.login) := by
  rw [← searchGroupConfig_iff hrule]
  have hgroup : userGroup api.userGet deal.login = group := userGroup_of_userGet hget
  have hcopy : assignDeal api deal = deal := by rw [assignDeal, if_pos hassign]
  constructor
  · intro h
    obtain ⟨t, ht, -⟩ := h
    exact ⟨t, ht⟩
  · intro h
    obtain ⟨t, ht⟩ := h
    have hroutes : RoutesTo check api deal sc t := ⟨hsymbol, by rw [hgroup, ht]⟩
    have hpushed := mem_onDealPerform.mpr ⟨hreason, sc, hsc, t, hroutes, rfl⟩
    rw [hcopy] at hpushed
    exact ⟨t, ht, hpushed⟩

theorem copied_iff_firstGroupCovers_deal :
    let sc : SymbolConfig := ⟨"*".toList, [⟨"*".toList, [⟨"100".toList, 200⟩]⟩],
      Finmap.singleton "*".toList 0⟩
    let p : CPluginInstance := ⟨1, [sc], Finmap.singleton "*".toList 0⟩
    let api : ServerApi := ⟨fun _ => some "demo".toList, fun _ => true⟩
    let deal := Deal.client 100 "EURUSD".toList
    ∃ t, sc.searchGroupConfig GroupMask.checkGroupMask "demo".toList (toLong 100) = (t, true) ∧
      ⟨deal, 1, toUINT64 t⟩ ∈ onDealPerform GroupMask.checkGroupMask api p deal := by
  intro sc p api deal
  refine (copied_iff_firstGroupCovers GroupMask.checkGroupMask api p deal "demo".toList rfl rfl
    rfl sc (by simp [p]) (by decide)
    ⟨⟨"*".toList, "100".toList, 200⟩, by decide, by decide, by decide⟩).mpr ?_
  intro g hg
  obtain ⟨-, rfl⟩ : _ ∧ _ = g := by simpa [sc] using hg
  exact ⟨⟨"100".toList, 200⟩, by simp, by decide⟩

/-- A rule for every group, loaded first, hides the rule for the group of the account: no
copy is pushed for a deal that the second rule covers. -/
theorem rule_behind_broad_group_is_not_reached :
    let api : ServerApi := ⟨fun _ => some "demo".toList, fun _ => true⟩
    let rule : Rule := ⟨"*demo".toList, "300".toList, 200⟩
    let loaded := parametersShow GroupMask.checkGroupMask api.userGet (.new 1)
      [.rule "*|*" "100|200", .rule "*|*demo" "300|200"]
    loaded.toOption.map (fun p => (p.symbolconfig.map (·.rules),
        onDealPerform GroupMask.checkGroupMask api p (.client 300 "EURUSD".toList))) =
      some ([[⟨"*".toList, "100".toList, 200⟩, rule]], []) ∧
    rule.Matches GroupMask.checkGroupMask "demo".toList (toLong 300) := by
  refine ⟨by decide, by decide, by decide⟩

def pushedTargets (check : Text → Text → Bool) (api : ServerApi) (p : CPluginInstance)
    (deal : Deal) : List UInt64 :=
  (onDealPerform check api p deal).map CopyRequest.targetlogin

theorem pushedTargets_eq (hreason : isCopied deal.reason = true) :
    pushedTargets check api p deal = p.symbolconfig.filterMap fun sc =>
      (copyFor check api p.managerLogin deal sc).map CopyRequest.targetlogin := by
  rw [pushedTargets, onDealPerform, if_pos hreason, List.map_filterMap]

theorem copyFor_target_eq_some {managerLogin x : UInt64} :
    (copyFor check api managerLogin deal sc).map CopyRequest.targetlogin = some x ↔
      ∃ t, RoutesTo check api deal sc t ∧ x = toUINT64 t := by
  simp only [Option.map_eq_some_iff, copyFor_eq_some]
  constructor
  · intro h
    obtain ⟨r, ⟨t, ht, rfl⟩, rfl⟩ := h
    exact ⟨t, ht, rfl⟩
  · intro h
    obtain ⟨t, ht, rfl⟩ := h
    exact ⟨_, ⟨t, ht, rfl⟩, rfl⟩

theorem copyFor_target_eq_toUINT64 {managerLogin : UInt64} :
    (copyFor check api managerLogin deal sc).map CopyRequest.targetlogin = some (toUINT64 t) ↔
      RoutesTo check api deal sc t := by
  rw [copyFor_target_eq_some]
  constructor
  · intro h
    obtain ⟨u, hu, heq⟩ := h
    rwa [toUINT64_injective heq]
  · intro ht
    exact ⟨t, ht, rfl⟩

theorem count_pushedTargets (hreason : isCopied deal.reason = true) (t : Int32) :
    (pushedTargets check api p deal).count (toUINT64 t) =
      p.symbolconfig.countP fun sc => decide (RoutesTo check api deal sc t) := by
  rw [pushedTargets_eq hreason, List.count_filterMap]
  apply List.countP_congr
  intro sc _
  rw [beq_iff_eq, copyFor_target_eq_toUINT64, decide_eq_true_iff]

def Apart (check : Text → Text → Bool) (api : ServerApi) (deal : Deal) (sc sc' : SymbolConfig) :
    Prop :=
  ∀ t, RoutesTo check api deal sc t → ¬ RoutesTo check api deal sc' t

instance : Std.Symm (Apart check api deal) := ⟨fun _ _ h t ht' ht => h t ht ht'⟩

theorem nodup_pushedTargets_iff (hreason : isCopied deal.reason = true) :
    (pushedTargets check api p deal).Nodup ↔ p.symbolconfig.Pairwise (Apart check api deal) := by
  rw [pushedTargets_eq hreason, List.Nodup, List.pairwise_filterMap]
  refine List.Pairwise.iff fun {sc sc'} => ?_
  simp only [copyFor_target_eq_some]
  constructor
  · intro h t ht ht'
    exact h _ ⟨t, ht, rfl⟩ _ ⟨t, ht', rfl⟩ rfl
  · intro h x hx y hy heq
    obtain ⟨t, ht, rfl⟩ := hx
    obtain ⟨t', ht', rfl⟩ := hy
    rw [toUINT64_injective heq] at ht
    exact h t' ht ht'

/-- In every accepted configuration, whatever the accounts are at the time of the deal, a
target is sent one copy of the deal for each symbol mask whose entry routes the deal to it,
and the list of targets has no duplicates if and only if different masks route it to
different targets. -/
theorem one_copy_for_each_mask (check : Text → Text → Bool) (userGetAtLoad : UserGet)
    (managerLogin : UInt64) (params : List Param) (p : CPluginInstance)
    (hload : parametersShow check userGetAtLoad (.new managerLogin) params = .ok p)
    (api : ServerApi) (deal : Deal) (hreason : isCopied deal.reason = true) :
    (p.symbolconfig.map SymbolConfig.symbolmask).Nodup ∧
      (∀ t, (pushedTargets check api p deal).count (toUINT64 t) =
        p.symbolconfig.countP fun sc => decide (RoutesTo check api deal sc t)) ∧
      ((pushedTargets check api p deal).Nodup ↔
        ∀ sc ∈ p.symbolconfig, ∀ sc' ∈ p.symbolconfig, sc.symbolmask ≠ sc'.symbolmask →
          Apart check api deal sc sc') := by
  have hnodup := (loaded_parametersShow hload).indexed.nodup
  refine ⟨hnodup, count_pushedTargets hreason, ?_⟩
  rw [nodup_pushedTargets_iff hreason]
  constructor
  · intro h sc hsc sc' hsc' hne
    exact h.forall hsc hsc' fun heq => hne (by rw [heq])
  · intro h
    have hmasks : p.symbolconfig.Pairwise fun sc sc' => sc.symbolmask ≠ sc'.symbolmask :=
      List.pairwise_map.mp hnodup
    exact hmasks.imp_of_mem fun hsc hsc' hne => h _ hsc _ hsc' hne

def overlappingMasks : List Param := [.rule "*|*" "100|200", .rule "EURUSD|*" "100|200"]

def everyoneInDemo : ServerApi := ⟨fun _ => some "demo".toList, fun _ => true⟩

theorem one_copy_for_each_mask_gbpusd :
    ∃ p, parametersShow GroupMask.checkGroupMask everyoneInDemo.userGet (.new 1)
        overlappingMasks = .ok p ∧
      (pushedTargets GroupMask.checkGroupMask everyoneInDemo p
        (.client 100 "GBPUSD".toList)).count (toUINT64 200) = 1 := by
  refine ⟨_, rfl, ?_⟩
  rw [(one_copy_for_each_mask GroupMask.checkGroupMask everyoneInDemo.userGet 1 overlappingMasks _
    rfl everyoneInDemo (.client 100 "GBPUSD".toList) rfl).2.1]
  decide

theorem target_receives_two_copies :
    (parametersShow GroupMask.checkGroupMask everyoneInDemo.userGet (.new 1)
        overlappingMasks).toOption.map (fun p =>
          pushedTargets GroupMask.checkGroupMask everyoneInDemo p (.client 100 "EURUSD".toList)) =
      some [200, 200] := by
  decide

end ForexSuite.CopierRouting
