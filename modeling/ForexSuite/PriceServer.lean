import ForexSuite.EventMachine
import ForexSuite.TextNumbers
import Mathlib.Data.Finmap
import Mathlib.Data.Rat.Init

/-!
# The FIX price server

`Application` accepts market data requests over FIX and forwards the ticks of the
trading platform to the subscriber. Two maps hold the subscriptions:
`symMDReqID` is written before a request is checked and is what `onTick` reads,
`symSub` is written after the checks and is what they read. One `appSessionID`,
overwritten by every `onCreate`, is the destination of everything that is sent.

A `std::string` is its list of bytes and a `std::wstring` a text. The two
conversions between them and the answers of `IMTManagerAPI::SymbolGet` belong to
the platform and are parameters.
-/
namespace ForexSuite.PriceServer

open TextNumbers EventMachine

/-- A `std::string`, as its bytes. -/
abbrev Str := List UInt8

def ascii (s : String) : Str := s.toList.map fun c => c.toNat.toUInt8

/-- A price is carried from the tick to the message and never computed with. -/
abbrev Price := ℚ

/-- The two string conversions: `MultiByteToWideChar(CP_ACP)` as `s2ws` calls it on the
request path, and `boost::nowide::narrow` on the tick path. -/
structure Conversions where
  s2ws : Str → Text
  narrow : Text → Str

def asciiConversions : Conversions where
  s2ws b := b.map fun c => Char.ofNat c.toNat
  narrow t := t.map fun c => c.toNat.toUInt8

structure SessionID where
  beginString : Str
  senderCompID : Str
  targetCompID : Str
  sessionQualifier : Str := []
deriving Repr, DecidableEq, Inhabited

inductive FixException where
  | fieldNotFound (tag : ℕ)
deriving Repr, DecidableEq

structure NoRelatedSymGroup where
  symbol : Option Str
deriving Repr, DecidableEq

/-- The fields of a MarketDataRequest that `onMessage` reads; each may be absent. -/
structure MarketDataRequest where
  subscriptionRequestType : Option Char
  mdReqID : Option Str
  marketDepth : Option ℤ
  noRelatedSym : Option ℤ
  groups : List NoRelatedSymGroup
deriving Repr, DecidableEq

/-- A request with every field present, for a list of symbols at top of book. -/
def MarketDataRequest.ofSymbols (subscriptionRequestType : Char) (mdReqID : Str)
    (symbols : List Str) : MarketDataRequest where
  subscriptionRequestType := some subscriptionRequestType
  mdReqID := some mdReqID
  marketDepth := some 1
  noRelatedSym := some symbols.length
  groups := symbols.map fun s => ⟨some s⟩

structure MDEntry where
  mdEntryType : Char
  mdEntryPx : Price
deriving Repr, DecidableEq

inductive FixMessage where
  | marketDataRequestReject (mdReqID text : Str)
  | marketDataSnapshotFullRefresh (mdReqID symbol : Str) (entries : List MDEntry)
deriving Repr, DecidableEq

structure Sent where
  target : SessionID
  message : FixMessage
deriving Repr, DecidableEq

/-- What a callback does besides changing the state. -/
structure Outcome where
  sent : List Sent := []
  thrown : Option FixException := none
deriving Repr, DecidableEq

def rejectedIDs (o : Outcome) : List Str :=
  o.sent.filterMap fun s =>
    match s.message with
    | .marketDataRequestReject mdReqID _ => some mdReqID
    | .marketDataSnapshotFullRefresh _ _ _ => none

def quotedSymbols (o : Outcome) : List Str :=
  o.sent.filterMap fun s =>
    match s.message with
    | .marketDataRequestReject _ _ => none
    | .marketDataSnapshotFullRefresh _ symbol _ => some symbol

structure MTTickShort where
  bid : Price
  ask : Price
deriving Repr, DecidableEq

structure Application where
  symMDReqID : Finmap (fun _ : Str => Str)
  symSub : Finmap (fun _ : Str => Bool)
  appSessionID : SessionID
deriving DecidableEq

def Application.new : Application := ⟨∅, ∅, default⟩

namespace Application

def onCreate (sessionID : SessionID) (app : Application) : Application :=
  { app with appSessionID := sessionID }

/-- Only one of the two maps is cleared. -/
def onLogon (app : Application) : Application := { app with symSub := ∅ }

def onLogout (app : Application) : Application := { app with symSub := ∅, symMDReqID := ∅ }

def sendMarketDataRequestReject (app : Application) (mdReqID text : Str) : Sent :=
  ⟨app.appSessionID, .marketDataRequestReject mdReqID text⟩

def snapshotPlusUpdates : Char := '1'
def disablePrevious : Char := '2'

def alreadySubscribed : Str := ascii "Symbol already subscribed."
def notSubscribed : Str := ascii "Symbol not subscribed yet."
def notEligible : Str := ascii "Not eligible for Price Feed."

/-- The subscribe branch for one symbol. The second component is the text of the reject
after which the request loop is left by `break`. -/
def subscribe (app : Application) (mdreqid sym : Str) (isSymbolExist : Bool) :
    Application × Option Str :=
  let app := { app with symMDReqID := app.symMDReqID.insert sym mdreqid }
  if isSymbolExist then
    match app.symSub.lookup sym with
    | some true => (app, some alreadySubscribed)
    | some false => (app, none)
    | none => ({ app with symSub := app.symSub.insert sym true }, none)
  else (app, some notEligible)

def unsubscribe (app : Application) (sym : Str) (isSymbolExist : Bool) :
    Application × Option Str :=
  let app := { app with symMDReqID := app.symMDReqID.erase sym }
  if isSymbolExist then
    match app.symSub.lookup sym with
    | some _ => ({ app with symSub := app.symSub.erase sym }, none)
    | none => (app, some notSubscribed)
  else (app, some notEligible)

/-- One pass of the request loop, after the symbol has been read from its group. -/
def handleSymbol (app : Application) (subReqType : Char) (mdreqid sym : Str)
    (isSymbolExist : Bool) : Application × Option Str :=
  if subReqType = snapshotPlusUpdates then app.subscribe mdreqid sym isSymbolExist
  else if subReqType = disablePrevious then app.unsubscribe sym isSymbolExist
  else (app, none)

/-- The loop `while (_symCount <= noReqSym)`. The counter is the number of passes left and
the groups are those not read yet, so `getGroup` throws when there is none. -/
def symbolLoop (conv : Conversions) (symbolGet : Text → Bool) (subReqType : Char) (mdreqid : Str) :
    ℕ → List NoRelatedSymGroup → Application → Application × Outcome
  | 0, _, app => (app, {})
  | _ + 1, [], app => (app, { thrown := some (.fieldNotFound 146) })
  | n + 1, g :: groups, app =>
      match g.symbol with
      | none => (app, { thrown := some (.fieldNotFound 55) })
      | some sym =>
          match app.handleSymbol subReqType mdreqid sym (symbolGet (conv.s2ws sym)) with
          | (app', some text) => (app', { sent := [app'.sendMarketDataRequestReject mdreqid text] })
          | (app', none) => symbolLoop conv symbolGet subReqType mdreqid n groups app'

/-- `onMessage(MarketDataRequest)`. The session the request arrived on is not used. -/
def onMessage (conv : Conversions) (symbolGet : Text → Bool) (message : MarketDataRequest)
    (app : Application) : Application × Outcome :=
  match message.subscriptionRequestType with
  | none => (app, { thrown := some (.fieldNotFound 263) })
  | some subReqType =>
  match message.mdReqID with
  | none => (app, { thrown := some (.fieldNotFound 262) })
  | some mdreqid =>
  match message.marketDepth with
  | none => (app, { thrown := some (.fieldNotFound 264) })
  | some _ =>
  match message.noRelatedSym with
  | none => (app, { thrown := some (.fieldNotFound 146) })
  | some noReqSym => symbolLoop conv symbolGet subReqType mdreqid noReqSym.toNat message.groups app

def snapshot (mdreqid symbol : Str) (tick : MTTickShort) : FixMessage :=
  .marketDataSnapshotFullRefresh mdreqid symbol [⟨'0', tick.bid⟩, ⟨'1', tick.ask⟩]

def onTick (conv : Conversions) (symbol : Text) (tick : MTTickShort) (app : Application) :
    Outcome :=
  if 0 < app.symMDReqID.keys.card then
    match app.symMDReqID.lookup (conv.narrow symbol) with
    | some mktReqID => { sent := [⟨app.appSessionID, snapshot mktReqID (conv.narrow symbol) tick⟩] }
    | none => {}
  else {}

end Application

/-- The callbacks QuickFIX and the trading platform make. A request comes with the answers
`SymbolGet` gives while it is handled. -/
inductive Event where
  | create (sessionID : SessionID)
  | logon (sessionID : SessionID)
  | logout (sessionID : SessionID)
  | request (sessionID : SessionID) (message : MarketDataRequest) (symbolGet : Text → Bool)
  | tick (symbol : Text) (tick : MTTickShort)

def step (conv : Conversions) (app : Application) : Event → Application × Outcome
  | .create sessionID => (app.onCreate sessionID, {})
  | .logon _ => (app.onLogon, {})
  | .logout _ => (app.onLogout, {})
  | .request _ message symbolGet => app.onMessage conv symbolGet message
  | .tick symbol tick => (app, app.onTick conv symbol tick)

/-- The server with its sessions created in the order of the list. -/
def withSessions (sessions : List SessionID) : Application :=
  sessions.foldl (fun app s => app.onCreate s) Application.new

namespace Application

theorem onLogon_symMDReqID (app : Application) : app.onLogon.symMDReqID = app.symMDReqID := rfl

/-- The test for an empty map changes nothing: an empty map holds no symbol. -/
theorem onTick_eq (conv : Conversions) (symbol : Text) (tick : MTTickShort) (app : Application) :
    app.onTick conv symbol tick =
      match app.symMDReqID.lookup (conv.narrow symbol) with
      | some mktReqID =>
          { sent := [⟨app.appSessionID, snapshot mktReqID (conv.narrow symbol) tick⟩] }
      | none => {} := by
  unfold onTick
  split_ifs with h
  · rfl
  · have hnone : app.symMDReqID.lookup (conv.narrow symbol) = none := by
      rw [Finmap.lookup_eq_none, ← Finmap.mem_keys]
      simp [show app.symMDReqID.keys = ∅ by simpa using h]
    rw [hnone]

theorem rejectedIDs_onTick (conv : Conversions) (s : Text) (tick : MTTickShort)
    (app : Application) :
    rejectedIDs (app.onTick conv s tick) = [] := by
  rw [onTick_eq]
  split <;> rfl

theorem subscribe_appSessionID (app : Application) (id sym : Str) (b : Bool) :
    (app.subscribe id sym b).1.appSessionID = app.appSessionID := by
  unfold subscribe
  split
  · dsimp only
    split <;> rfl
  · rfl

theorem unsubscribe_appSessionID (app : Application) (sym : Str) (b : Bool) :
    (app.unsubscribe sym b).1.appSessionID = app.appSessionID := by
  unfold unsubscribe
  split
  · dsimp only
    split <;> rfl
  · rfl

theorem handleSymbol_appSessionID (app : Application) (type : Char) (id sym : Str) (b : Bool) :
    (app.handleSymbol type id sym b).1.appSessionID = app.appSessionID := by
  unfold handleSymbol
  split_ifs
  · exact app.subscribe_appSessionID id sym b
  · exact app.unsubscribe_appSessionID sym b
  · rfl

variable {conv : Conversions} {symbolGet : Text → Bool}

theorem symbolLoop_appSessionID (type : Char) (id : Str) (n : ℕ) (groups : List NoRelatedSymGroup)
    (app : Application) :
    (symbolLoop conv symbolGet type id n groups app).1.appSessionID = app.appSessionID := by
  fun_induction symbolLoop conv symbolGet type id n groups app with
  | case1 => rfl
  | case2 => rfl
  | case3 => rfl
  | case4 n g groups app sym hg app' text hh =>
      rw [← app.handleSymbol_appSessionID type id sym (symbolGet (conv.s2ws sym)), hh]
  | case5 n g groups app sym hg app' hh ih =>
      rw [ih, ← app.handleSymbol_appSessionID type id sym (symbolGet (conv.s2ws sym)), hh]

def MissesField (message : MarketDataRequest) : Prop :=
  message.subscriptionRequestType = none ∨ message.mdReqID = none ∨
    message.marketDepth = none ∨ message.noRelatedSym = none

/-- A request throws before the loop and changes nothing, or is its loop. -/
theorem onMessage_cases (conv : Conversions) (symbolGet : Text → Bool)
    (message : MarketDataRequest) (app : Application) :
    (MissesField message ∧
      ∃ tag,
        app.onMessage conv symbolGet message = (app, { thrown := some (.fieldNotFound tag) })) ∨
    ¬ MissesField message ∧ ∃ type id depth count,
      message.subscriptionRequestType = some type ∧
      message.mdReqID = some id ∧ message.marketDepth = some depth ∧
      message.noRelatedSym = some count ∧ app.onMessage conv symbolGet message =
        symbolLoop conv symbolGet type id count.toNat message.groups app := by
  unfold onMessage MissesField
  rcases message.subscriptionRequestType with _ | type
  · exact Or.inl ⟨by simp, 263, rfl⟩
  rcases message.mdReqID with _ | id
  · exact Or.inl ⟨by simp, 262, rfl⟩
  rcases message.marketDepth with _ | depth
  · exact Or.inl ⟨by simp, 264, rfl⟩
  rcases message.noRelatedSym with _ | count
  · exact Or.inl ⟨by simp, 146, rfl⟩
  · exact Or.inr ⟨by simp, type, id, depth, count, rfl, rfl, rfl, rfl, rfl⟩

theorem onMessage_appSessionID (conv : Conversions) (symbolGet : Text → Bool)
    (message : MarketDataRequest) (app : Application) :
    (app.onMessage conv symbolGet message).1.appSessionID = app.appSessionID := by
  obtain ⟨-, tag, h⟩ | ⟨-, type, id, depth, count, -, -, -, -, h⟩ :=
    onMessage_cases conv symbolGet message app
  · rw [h]
  · rw [h]
    exact symbolLoop_appSessionID type id count.toNat message.groups app

end Application

theorem withSessions_appSessionID (sessions : List SessionID) (last : SessionID) :
    (withSessions (sessions ++ [last])).appSessionID = last := by
  simp [withSessions, Application.onCreate]

end ForexSuite.PriceServer
