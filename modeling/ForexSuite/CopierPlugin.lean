import ForexSuite.CopierConfig
import ForexSuite.Exceptions
import Mathlib.Data.Rat.Init

/-!
# The trade copier plugin

The plugin loads its rules from the parameters of the server configuration and
is told of every deal. For each symbol mask that matches the deal it looks for a
target and queues a copy request; a worker turns the request into a dealer order
for the target account.

Loading throws on parameters that are not of the expected form: a subscript past
the end of a split name or value, which is undefined behaviour in the source, and
the exceptions of `std::stoul`.
-/
namespace ForexSuite.CopierPlugin

open TextNumbers IndexedList CopierConfig Exceptions

/-! ### Deals and orders of the platform -/

inductive EnDealAction where
  | DEAL_BUY
  | DEAL_SELL
  | DEAL_BALANCE
  | DEAL_CREDIT
  | DEAL_CHARGE
  | DEAL_CORRECTION
  | DEAL_BONUS
  | DEAL_COMMISSION
  | DEAL_COMMISSION_DAILY
  | DEAL_COMMISSION_MONTHLY
  | DEAL_AGENT_DAILY
  | DEAL_AGENT_MONTHLY
  | DEAL_INTERESTRATE
  | DEAL_BUY_CANCELED
  | DEAL_SELL_CANCELED
  | DEAL_DIVIDEND
  | DEAL_DIVIDEND_FRANKED
  | DEAL_TAX
  | DEAL_AGENT
deriving Repr, DecidableEq, Inhabited

/-- The number of an action, counted from zero in the order above. -/
def EnDealAction.toUINT (a : EnDealAction) : ℕ := a.ctorIdx

inductive EnDealReason where
  | DEAL_REASON_CLIENT
  | DEAL_REASON_EXPERT
  | DEAL_REASON_DEALER
  | DEAL_REASON_SL
  | DEAL_REASON_TP
  | DEAL_REASON_SO
  | DEAL_REASON_ROLLOVER
  | DEAL_REASON_EXTERNAL_CLIENT
  | DEAL_REASON_VMARGIN
  | DEAL_REASON_GATEWAY
  | DEAL_REASON_SIGNAL
  | DEAL_REASON_SETTLEMENT
  | DEAL_REASON_TRANSFER
  | DEAL_REASON_SYNC
  | DEAL_REASON_EXTERNAL_SERVICE
  | DEAL_REASON_MIGRATION
  | DEAL_REASON_MOBILE
  | DEAL_REASON_WEB
  | DEAL_REASON_SPLIT
deriving Repr, DecidableEq, Inhabited

/-- A price is copied and never computed with. -/
abbrev Price := ℚ

structure Deal where
  login : UInt64
  reason : EnDealReason
  action : EnDealAction
  volume : UInt64
  symbol : Text
  price : Price
deriving DecidableEq

/-- What `DealCreate` returns. -/
def Deal.blank : Deal := ⟨0, default, default, 0, [], 0⟩

def Deal.client (login : UInt64) (symbol : Text) : Deal :=
  ⟨login, .DEAL_REASON_CLIENT, .DEAL_BUY, 100, symbol, 1⟩

inductive OrderType where
  | OP_BUY
  | OP_SELL
deriving Repr, DecidableEq

def TA_DEALER_POS_EXECUTE : ℕ := 200
def TA_FLAG_MARKET : ℕ := 2

structure TradeRequest where
  login : UInt64
  action : ℕ
  type : OrderType
  volume : UInt64
  symbol : Text
  flags : ℕ
  priceOrder : Price
  sourceLogin : UInt64
deriving DecidableEq

/-- The answers of the server: `UserGet`, and whether `Assign` to a new deal succeeds. -/
structure ServerApi where
  userGet : UserGet
  assign : Deal → Bool

/-! ### Copying a deal -/

structure CPluginInstance where
  managerLogin : UInt64
  symbolconfig : List SymbolConfig
  symbolIndexBySymbolmask : Finmap (fun _ : Text => ℕ)

def CPluginInstance.new (managerLogin : UInt64) : CPluginInstance := ⟨managerLogin, [], ∅⟩

structure CopyRequest where
  deal : Deal
  managerLogin : UInt64
  targetlogin : UInt64
deriving DecidableEq

def isCopied : EnDealReason → Bool
  | .DEAL_REASON_CLIENT => true
  | .DEAL_REASON_EXPERT => true
  | .DEAL_REASON_DEALER => true
  | .DEAL_REASON_SL => true
  | .DEAL_REASON_TP => true
  | .DEAL_REASON_GATEWAY => true
  | .DEAL_REASON_MOBILE => true
  | _ => false

/-- `DealCreate` followed by `Assign`. A failed `Assign` is logged and leaves the copy blank. -/
def assignDeal (api : ServerApi) (deal : Deal) : Deal :=
  if api.assign deal then deal else .blank

/-- The body of the loop of `OnDealPerform` for one symbol mask. -/
def copyFor (check : Text → Text → Bool) (api : ServerApi) (managerLogin : UInt64) (deal : Deal)
    (i : SymbolConfig) : Option CopyRequest :=
  if check i.symbolmask deal.symbol then
    let it1 := i.searchGroupConfig check (userGroup api.userGet deal.login) (toLong deal.login)
    if it1.2 = true then
      some ⟨assignDeal api deal, managerLogin, toUINT64 it1.1⟩
    else none
  else none

def onDealPerform (check : Text → Text → Bool) (api : ServerApi) (p : CPluginInstance)
    (deal : Deal) : List CopyRequest :=
  if isCopied deal.reason then p.symbolconfig.filterMap (copyFor check api p.managerLogin deal)
  else []

/-- The request the worker sends for a deal object. -/
def processDealRequest (deal : Deal) (managerLogin targetlogin : UInt64) : TradeRequest where
  login := targetlogin
  action := TA_DEALER_POS_EXECUTE
  type := if deal.action.toUINT % 2 = 0 then .OP_BUY else .OP_SELL
  volume := deal.volume
  symbol := deal.symbol
  flags := TA_FLAG_MARKET
  priceOrder := deal.price
  sourceLogin := managerLogin

/-! ### Loading the parameters -/

/-- A plugin parameter. `valueInt` is the value read as a number by the server. -/
structure Param where
  name : Text
  value : Text
  valueInt : Int64

/-- A parameter that stands for a rule: its value is no number. -/
def Param.rule (name value : String) : Param := ⟨name.toList, value.toList, 0⟩

inductive LoadFault where
  | subscript
  | stoul (e : NumberError)
deriving Repr, DecidableEq

/-- The `std::getline` loop: the item read so far and the rest of the stream. -/
def splitLoop (delimeter : Char) : Text → Text → List Text
  | item, [] => if item = [] then [] else [item]
  | item, c :: s =>
      if c = delimeter then item :: splitLoop delimeter [] s
      else splitLoop delimeter (item ++ [c]) s

/-- `Split`. A last item that is empty is not returned. -/
def split (strToSplit : Text) (delimeter : Char) : List Text := splitLoop delimeter [] strToSplit

def subscript (items : List Text) (i : ℕ) : Except LoadFault Text :=
  match items[i]? with
  | some item => .ok item
  | none => .error .subscript

def readTarget (t : Text) : Except LoadFault Int32 :=
  match stoul t with
  | .ok n => .ok n.toInt32
  | .error e => .error (.stoul e)

/-- The rule a parameter stands for. -/
def readRule (paramName paramValue : List Text) : Except LoadFault Rule := do
  let groupmask ← subscript paramName 1
  let loginmask ← subscript paramValue 0
  let target ← subscript paramValue 1
  let targetlogin ← readTarget target
  pure ⟨groupmask, loginmask, targetlogin⟩

def managerLoginName : Text := "ManagerLogin".toList

/-- One pass of the parameter loop of `ParametersShow`. -/
def loadParameter (check : Text → Text → Bool) (userGet : UserGet) (p : CPluginInstance)
    (param : Param) : Except LoadFault CPluginInstance := do
  if param.name = managerLoginName then
    return { p with managerLogin := param.valueInt.toUInt64 }
  let paramName := split param.name '|'
  let paramValue := split param.value '|'
  let symbolmask ← subscript paramName 0
  match p.symbolIndexBySymbolmask.lookup symbolmask with
  | some i =>
      let r ← readRule paramName paramValue
      return { p with
        symbolconfig := p.symbolconfig.modify i fun sc =>
          (sc.insertSymbolConfig check userGet r.groupmask r.loginmask r.targetlogin).1 }
  | none =>
      let r ← readRule paramName paramValue
      let inserted := (SymbolConfig.new symbolmask).insertSymbolConfig check userGet
        r.groupmask r.loginmask r.targetlogin
      if inserted.2 = true then
        return { p with
          symbolconfig := p.symbolconfig ++ [inserted.1]
          symbolIndexBySymbolmask :=
            p.symbolIndexBySymbolmask.insert symbolmask p.symbolconfig.length }
      else return p

def parametersShow (check : Text → Text → Bool) (userGet : UserGet) (p : CPluginInstance)
    (params : List Param) : Except LoadFault CPluginInstance :=
  params.foldlM (loadParameter check userGet) p

/-! ### What loading establishes -/

/-- The configuration as loading leaves it: the indexes are exact and every rule has passed
the test of `insertSymbolConfig`. -/
structure Loaded (check : Text → Text → Bool) (userGet : UserGet) (p : CPluginInstance) :
    Prop where
  indexed : Indexes SymbolConfig.symbolmask p.symbolconfig p.symbolIndexBySymbolmask
  groups : ∀ sc ∈ p.symbolconfig, WellIndexed sc
  accepted : ∀ sc ∈ p.symbolconfig, ∀ r ∈ sc.rules, r.Accepted check userGet

variable {check : Text → Text → Bool} {userGet : UserGet}

def insertAt (check : Text → Text → Bool) (userGet : UserGet) (r : Rule) (i : ℕ)
    (p : CPluginInstance) : CPluginInstance :=
  { p with
    symbolconfig := p.symbolconfig.modify i fun sc =>
      (sc.insertSymbolConfig check userGet r.groupmask r.loginmask r.targetlogin).1 }

def appendEntry (symbolmask : Text) (r : Rule) (p : CPluginInstance) : CPluginInstance :=
  { p with
    symbolconfig := p.symbolconfig ++
      [(SymbolConfig.new symbolmask).storeRule r.groupmask r.loginmask r.targetlogin]
    symbolIndexBySymbolmask := p.symbolIndexBySymbolmask.insert symbolmask p.symbolconfig.length }

theorem insertSymbolConfig_symbolmask (r : Rule) (sc : SymbolConfig) :
    (sc.insertSymbolConfig check userGet r.groupmask r.loginmask r.targetlogin).1.symbolmask =
      sc.symbolmask := by
  rw [insertSymbolConfig_eq]
  split_ifs
  · exact storeRule_symbolmask ..
  · rfl

end ForexSuite.CopierPlugin
