import ForexSuite.CopierRouting

/-!
# Which deals become orders

`OnDealPerform` filters deals by their reason and by the masks of the rules. It
looks at no action, and when the account or the copy of the deal cannot be read it
goes on with a blank one: the group is then the empty text, which wildcard masks
match, and the copied deal is a purchase.
-/
namespace ForexSuite.CopierDeals

open TextNumbers CopierConfig CopierPlugin CopierRouting

/-- The symbol mask of the entry matches, and so does a login mask of its first group whose mask
matches. -/
def Reaches (check : Text → Text → Bool) (symbol group login : Text) (sc : SymbolConfig) : Prop :=
  check sc.symbolmask symbol = true ∧
    ∃ g, (sc.groupconfig.find? fun g => check g.groupmask group) = some g ∧
      ∃ l ∈ g.loginconfig, check l.loginmask login = true

/-- The text of an account number that `searchGroupConfig` matches with the login masks. -/
def loginText (login : UInt64) : Text := toText (toLong login).toInt

/-- The deal has a reason that is copied, and some entry reaches its account. -/
def Reached (check : Text → Text → Bool) (userGet : UserGet) (p : CPluginInstance) (deal : Deal) :
    Prop :=
  isCopied deal.reason = true ∧ ∃ sc ∈ p.symbolconfig,
    Reaches check deal.symbol (userGroup userGet deal.login) (loginText deal.login) sc

def orderOf (r : CopyRequest) : TradeRequest :=
  processDealRequest r.deal r.managerLogin r.targetlogin

variable {check : Text → Text → Bool} {api : ServerApi} {p : CPluginInstance} {deal : Deal}
  {sc : SymbolConfig}

theorem reaches_iff :
    Reaches check deal.symbol (userGroup api.userGet deal.login) (loginText deal.login) sc ↔
      ∃ t, RoutesTo check api deal sc t := by
  unfold Reaches RoutesTo loginText
  rw [exists_and_left, exists_searchGroupConfig_iff]

theorem exists_request_iff :
    (∃ r, r ∈ onDealPerform check api p deal) ↔ Reached check api.userGet p deal := by
  simp only [mem_onDealPerform, Reached, reaches_iff]
  constructor
  · intro h
    have ⟨_, hreason, sc, hsc, t, ht, _⟩ := h
    exact ⟨hreason, sc, hsc, t, ht⟩
  · intro h
    have ⟨hreason, sc, hsc, t, ht⟩ := h
    exact ⟨_, hreason, sc, hsc, t, ht, rfl⟩

theorem onDealPerform_eq_nil_iff :
    onDealPerform check api p deal = [] ↔ ¬ Reached check api.userGet p deal := by
  rw [← exists_request_iff, List.eq_nil_iff_forall_not_mem, not_exists]

theorem deal_of_mem {r : CopyRequest} (h : r ∈ onDealPerform check api p deal) :
    r.deal = assignDeal api deal := by
  obtain ⟨_, _, _, _, _, rfl⟩ := mem_onDealPerform.mp h
  rfl

/-! ### The side of the order -/

/-- The parity of the action's number decides the side. -/
def side (action : EnDealAction) : CopierPlugin.OrderType :=
  if action.toUINT % 2 = 0 then .OP_BUY else .OP_SELL

theorem type_orderOf {r : CopyRequest} (h : r ∈ onDealPerform check api p deal) :
    (orderOf r).type = side (assignDeal api deal).action := by
  rw [← deal_of_mem h]
  rfl

/-- The order has the side of the deal. -/
def HasSide (action : EnDealAction) (type : CopierPlugin.OrderType) : Prop :=
  action = .DEAL_BUY ∧ type = .OP_BUY ∨ action = .DEAL_SELL ∧ type = .OP_SELL

theorem hasSide_assignDeal_iff :
    HasSide deal.action (side (assignDeal api deal).action) ↔
      deal.action = .DEAL_BUY ∨ deal.action = .DEAL_SELL ∧ api.assign deal = true := by
  unfold HasSide assignDeal
  cases hassign : api.assign deal with
  | true =>
      simp only [if_true, and_true]
      constructor
      · intro h
        exact h.imp And.left And.left
      · intro h
        cases h with
        | inl hbuy => exact Or.inl ⟨hbuy, by rw [hbuy]; rfl⟩
        | inr hsell => exact Or.inr ⟨hsell, by rw [hsell]; rfl⟩
  | false =>
      -- the blank copy is a purchase
      have hblank : side Deal.blank.action = .OP_BUY := rfl
      simp [hblank]

/-- For every configuration and every deal: all that is queued for it are orders of its own side if
and only if it reaches no rule, or is a purchase, or is a sale whose copy could be made. -/
theorem orders_have_side_iff (check : Text → Text → Bool) (api : ServerApi) (p : CPluginInstance)
    (deal : Deal) :
    (∀ r ∈ onDealPerform check api p deal, HasSide deal.action (orderOf r).type) ↔
      ¬ Reached check api.userGet p deal ∨ deal.action = .DEAL_BUY ∨
        deal.action = .DEAL_SELL ∧ api.assign deal = true := by
  rw [← hasSide_assignDeal_iff, ← exists_request_iff]
  constructor
  · intro h
    by_cases hrequest : ∃ r, r ∈ onDealPerform check api p deal
    · have ⟨r, hr⟩ := hrequest
      rw [← type_orderOf hr]
      exact Or.inr (h r hr)
    · exact Or.inl hrequest
  · intro h r hr
    rw [type_orderOf hr]
    exact h.resolve_left (not_not.mpr ⟨r, hr⟩)

/-- A deposit has no symbol, which the mask for every symbol matches, and it is copied as a
purchase. -/
theorem deposit_is_copied :
    let deposit : Deal := ⟨100, .DEAL_REASON_DEALER, .DEAL_BALANCE, 0, [], 5000⟩
    (parametersShow GroupMask.checkGroupMask everyoneInDemo.userGet (.new 1)
        [.rule "*|*" "100|200"]).toOption.map (fun p =>
          (onDealPerform GroupMask.checkGroupMask everyoneInDemo p deposit).map fun r =>
            (r.targetlogin, (orderOf r).type)) =
      some [(200, .OP_BUY)] := by
  decide

/-! ### Lookups that fail -/

/-- The account or the copy of the deal cannot be read. -/
def LookupFails (api : ServerApi) (deal : Deal) : Prop :=
  api.userGet deal.login = none ∨ api.assign deal = false

/-- For every configuration, deal and rule. A deal whose account or copy cannot be read is not
copied if and only if it reaches no rule, which for an account that cannot be read is asked with
the empty group. A rule whose target cannot be read is not stored if and only if its group
mask matches the empty group and its login mask the target, or neither does. -/
theorem failed_lookups_iff (check : Text → Text → Bool) (api : ServerApi) (p : CPluginInstance)
    (deal : Deal) (userGet : UserGet) (sc : SymbolConfig) (r : Rule) :
    ((LookupFails api deal → onDealPerform check api p deal = []) ↔
        (LookupFails api deal → ¬ Reached check api.userGet p deal)) ∧
      ((userGet (toUINT64 r.targetlogin) = none →
          sc.insertSymbolConfig check userGet r.groupmask r.loginmask r.targetlogin = (sc, false)) ↔
        (userGet (toUINT64 r.targetlogin) = none →
          check r.groupmask [] = check r.loginmask (toText r.targetlogin.toInt))) := by
  constructor
  · rw [onDealPerform_eq_nil_iff]
  · refine forall_congr' fun hget => ?_
    have hgroup : userGroup userGet (toUINT64 r.targetlogin) = [] := by rw [userGroup, hget]; rfl
    have haccepted : r.Accepted check userGet ↔
        check r.groupmask [] ≠ check r.loginmask (toText r.targetlogin.toInt) := by
      rw [Rule.Accepted, hgroup]
    rw [insertSymbolConfig_eq]
    by_cases hr : r.Accepted check userGet
    · simp [hr, haccepted.mp hr]
    · simp [hr, not_not.mp (haccepted.not.mp hr)]

/-- No account can be read. The rule is stored, since its masks disagree about the blank target,
and the deal is copied by it. -/
theorem blank_account_is_copied :
    let api : ServerApi := ⟨fun _ => none, fun _ => true⟩
    (parametersShow GroupMask.checkGroupMask api.userGet (.new 1)
        [.rule "*|*" "100|200"]).toOption.map (fun p =>
          pushedTargets GroupMask.checkGroupMask api p (.client 100 "EURUSD".toList)) =
      some [200] := by
  decide

end ForexSuite.CopierDeals
