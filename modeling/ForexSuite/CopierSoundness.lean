import ForexSuite.CopierRouting

/-!
# Copies follow the rules

A copy is requested only for the target of an accepted rule that covers the deal.
The test at load time keeps out every rule that would cover its own target, so no
account is sent copies of its own deals.
-/
namespace ForexSuite.CopierSoundness

open TextNumbers GroupBy CopierConfig CopierPlugin CopierLoading CopierRouting

theorem toInt64_toInt {login : UInt64} (h : login.toNat < 2 ^ 63) :
    login.toInt64.toInt = login.toNat := by
  have hsigned : login.toInt64.toInt = (login.toNat : ℤ).bmod (2 ^ 64) :=
    BitVec.toInt_eq_toNat_bmod login.toBitVec
  rw [hsigned, Int.bmod_eq_of_le (by omega) (by omega)]

theorem toLong_toInt {login : UInt64} (h : login.toNat < 2 ^ 31) :
    (toLong login).toInt = login.toNat := by
  rw [toLong, Int64.toInt_toInt32, toInt64_toInt (by omega),
    Int.bmod_eq_of_le (by omega) (by omega)]

/-- The rule `sr` sends the deals of such an account in such a symbol to its target. -/
structure Covers (check : Text → Text → Bool) (symbol group : Text) (login : UInt64)
    (sr : SymbolRule) : Prop where
  symbol : check sr.symbolmask symbol = true
  group : check sr.rule.groupmask group = true
  login : check sr.rule.loginmask (toText login.toNat) = true

/-- For every mask predicate, every list of parameters that can be loaded and every deal of an
account that can be read: the target of each request is the target of an accepted rule of the
list that covers the deal, and it is another account, unless its group has changed since. -/
theorem routing_sound (check : Text → Text → Bool) (userGetAtLoad : UserGet)
    (managerLogin : UInt64) (params : List Param) (p : CPluginInstance)
    (hload : parametersShow check userGetAtLoad (.new managerLogin) params = .ok p)
    (api : ServerApi) (deal : Deal) (hlogin : deal.login.toNat < 2 ^ 31) (group : Text)
    (hget : api.userGet deal.login = some group) :
    ∀ request ∈ onDealPerform check api p deal,
      (∃ sr ∈ rulesRead params, sr.rule.Accepted check userGetAtLoad ∧
        Covers check deal.symbol group deal.login sr ∧
        request.targetlogin = toUINT64 sr.rule.targetlogin) ∧
      (api.userGet request.targetlogin = userGetAtLoad request.targetlogin →
        request.targetlogin ≠ deal.login) := by
  intro request hrequest
  obtain ⟨_, sc, hsc, t, hroutes, heq⟩ := mem_onDealPerform.mp hrequest
  have htarget : request.targetlogin = toUINT64 t := by rw [heq]
  have hgroup : userGroup api.userGet deal.login = group := userGroup_of_userGet hget
  obtain ⟨r, hr, hmatch, hrt⟩ := searchGroupConfig_sound hroutes.2
  rw [hgroup] at hmatch
  have hmem := mem_of_mem_entry (holdsSymbolRules_parametersShow hload) hsc hr
  have hread := (List.mem_filter.mp hmem).1
  have haccepted : r.Accepted check userGetAtLoad :=
    of_decide_eq_true (List.mem_filter.mp hmem).2
  refine ⟨⟨⟨sc.symbolmask, r⟩, hread, haccepted, ⟨hroutes.1, hmatch.1, ?_⟩, ?_⟩, ?_⟩
  · rw [← toLong_toInt hlogin]
    exact hmatch.2
  · rw [htarget, hrt]
  · intro hunchanged hself
    -- the rule would cover its own target, which the test at load time rejects
    have hown : toLong deal.login = r.targetlogin := by
      rw [← hself, htarget, toLong_toUINT64, hrt]
    rw [hself, hget] at hunchanged
    have hgroupAtLoad : userGroup userGetAtLoad (toUINT64 r.targetlogin) = group := by
      rw [hrt, ← htarget, hself, userGroup, ← hunchanged]
      rfl
    apply haccepted
    rw [hgroupAtLoad, hmatch.1, ← hown, hmatch.2]

theorem routing_sound_demo :
    let params : List Param := [.rule "*|*demo" "100|200", .rule "EUR*|*demo" "300|100"]
    let api : ServerApi := everyoneInDemo
    ∃ p, parametersShow GroupMask.checkGroupMask api.userGet (.new 1) params = .ok p ∧
      ∀ request ∈ onDealPerform GroupMask.checkGroupMask api p (.client 100 "EURUSD".toList),
        request.targetlogin ≠ 100 := by
  intro params api
  refine ⟨_, rfl, ?_⟩
  intro request hrequest
  exact (routing_sound GroupMask.checkGroupMask api.userGet 1 params _ rfl api
    (.client 100 "EURUSD".toList) (by decide) "demo".toList rfl request hrequest).2 rfl

/-! ### Which rules are discarded -/

/-- For every entry and every rule whose target can be read: the rule is discarded exactly when the
target matches both of its masks, and stored in every other case, if and only if the
target matches at least one of them. -/
theorem discards_self_copies_iff (check : Text → Text → Bool) (userGet : UserGet)
    (sc : SymbolConfig) (rs : List Rule) (hsc : HoldsRules sc rs) (r : Rule) (group : Text)
    (hget : userGet (toUINT64 r.targetlogin) = some group) :
    (let inserted := sc.insertSymbolConfig check userGet r.groupmask r.loginmask r.targetlogin;
      (inserted = (sc, false) ↔ r.Matches check group r.targetlogin) ∧
        (¬ r.Matches check group r.targetlogin →
          inserted.2 = true ∧ HoldsRules inserted.1 (rs ++ [r]))) ↔
      check r.groupmask group = true ∨ check r.loginmask (toText r.targetlogin.toInt) = true := by
  have hgroup : userGroup userGet (toUINT64 r.targetlogin) = group := userGroup_of_userGet hget
  have haccepted : r.Accepted check userGet ↔
      check r.groupmask group ≠ check r.loginmask (toText r.targetlogin.toInt) := by
    rw [Rule.Accepted, hgroup]
  have hstored := hsc.storeRule r
  simp only [insertSymbolConfig_eq, Rule.Matches, haccepted]
  cases hgm : check r.groupmask group with
  | true =>
      cases hlm : check r.loginmask (toText r.targetlogin.toInt) with
      | true => simp
      | false => simpa using hstored
  | false =>
      cases hlm : check r.loginmask (toText r.targetlogin.toInt) with
      | true => simpa using hstored
      | false => simp

theorem discards_self_copies_iff_own :
    let r : Rule := ⟨"demo*".toList, "*,!1005".toList, 1004⟩
    let sc := SymbolConfig.new "*EURUSD*".toList
    sc.insertSymbolConfig GroupMask.checkGroupMask everyoneInDemo.userGet r.groupmask r.loginmask
      r.targetlogin = (sc, false) := by
  intro r sc
  refine (((discards_self_copies_iff GroupMask.checkGroupMask everyoneInDemo.userGet sc []
    (holdsRules_new _) r "demo".toList rfl).mpr ?_).1).mpr ?_
  · exact Or.inl (by decide)
  · exact ⟨by decide, by decide⟩

/-- The deals of account 1005 are to be copied to an account of another group. The account is no
source of the rule, and the rule is discarded. -/
theorem rule_for_other_account_is_discarded :
    let r : Rule := ⟨"demo*".toList, "1005".toList, 1006⟩
    let sc := SymbolConfig.new "*EURUSD*".toList
    sc.insertSymbolConfig GroupMask.checkGroupMask (fun _ => some "real".toList) r.groupmask
        r.loginmask r.targetlogin = (sc, false) ∧
      ¬ r.Matches GroupMask.checkGroupMask "real".toList r.targetlogin := by
  intro r sc
  refine ⟨by decide, ?_⟩
  intro h
  have hgroup : GroupMask.checkGroupMask "demo*".toList "real".toList = false := by decide
  exact Bool.false_ne_true (hgroup ▸ h.1)

end ForexSuite.CopierSoundness
