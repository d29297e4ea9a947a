import Mathlib.Data.Finmap
import ForexSuite.PriceServer

/-!
# FIX sessions

`FIX::Session` of the engine under the price server and its clients: logon and logout,
sequence numbers, and the recovery of messages that one side has sent and the other has
not received. A function that throws is a program over the session with exceptions, and
what it changed before the exception stays changed, as in C++.

A message has the fields the session reads. The data dictionary requires them, and a
message without one of them is dropped before it changes anything. Texts of rejects are
left out, and so are the branches for other versions than FIX.4.4 and the files of the
store. A comparison with the clock is an answer of the environment, and so is what the
dictionary and the application say of a message. A peer can bring the number that is
expected next to the greatest `int`. The number that is given out next would need as many
messages, and is taken not to come so far.
-/
namespace ForexSuite.FixSession
open PriceServer

variable {β : Type}

/-! ### Messages -/

/-- The type of a message with the fields of its body that the session reads or writes. -/
inductive Kind (β : Type) where
  | logon (heartBtInt : ℤ) (resetSeqNumFlag : Bool) (username password : Option Str)
  | heartbeat (testReqID : Option Str)
  | testRequest (testReqID : Option Str)
  | resendRequest (beginSeqNo endSeqNo : ℤ)
  | sequenceReset (gapFillFlag : Bool) (newSeqNo : ℤ)
  | reject (refSeqNum : ℤ) (sessionRejectReason refTagID : ℕ)
  | logout (text : Str)
  | businessMessageReject (refSeqNum : ℤ) (businessRejectReason refTagID : ℕ)
  | app (body : β)
deriving DecidableEq

def Kind.isAdminMsgType : Kind β → Bool
  | .businessMessageReject .. | .app _ => false
  | _ => true

/-- The types that are sent although the session is not logged on: `A`, `5`, `2` and `4`. -/
def Kind.isSentAlways : Kind β → Bool
  | .logon .. | .logout _ | .resendRequest .. | .sequenceReset .. => true
  | _ => false

structure Header where
  beginString : Str
  senderCompID : Str
  targetCompID : Str
  msgSeqNum : ℤ
  sendingTime : ℤ
  possDupFlag : Bool
  origSendingTime : Option ℤ
deriving DecidableEq

structure Message (β : Type) where
  header : Header
  kind : Kind β
deriving DecidableEq

structure MessageStore (β : Type) where
  messages : Finmap (fun _ : ℤ => Message β)
  nextSenderMsgSeqNum : ℤ
  nextTargetMsgSeqNum : ℤ
deriving DecidableEq

namespace MessageStore

def empty : MessageStore β := ⟨∅, 1, 1⟩

/-- `get` of the file store: one number after the other is looked up. -/
def get (store : MessageStore β) (beginSeqNo endSeqNo : ℤ) : List (Message β) :=
  (List.range (endSeqNo + 1 - beginSeqNo).toNat).filterMap fun i : ℕ =>
    store.messages.lookup (beginSeqNo + i)

end MessageStore

/-! ### The session -/

/-- What does not change while a session exists. `toAdmin` of the two clients puts the
credentials and ResetSeqNumFlag into every Logon; that of the server does nothing. -/
structure Settings where
  sessionID : SessionID
  heartBtInt : ℤ
  sendRedundantResendRequests : Bool := false
  checkCompId : Bool := true
  checkLatency : Bool := true
  maxLatency : ℤ := 120
  resetOnLogon : Bool := false
  resetOnLogout : Bool := false
  resetOnDisconnect : Bool := false
  persistMessages : Bool := true
  username : Option Str := none
  password : Option Str := none
  toAdminResets : Bool := false

def Settings.initiate (cfg : Settings) : Bool := cfg.heartBtInt ≠ 0

/-- What a session has done: the calls it made of the application, and when it emptied its
store, came to the end of its numbers or gave its connection up. A call of `fromAdmin` is
accepted if it does not throw. -/
inductive Entry (β : Type) where
  | fromAdmin (message : Message β) (accepted : Bool)
  | fromApp (message : Message β)
  | onLogon
  | onLogout
  | reset
  | overflow
  | disconnect
deriving DecidableEq

/-- `SessionState`, whether there is a responder, what was written to the connections so far,
and the journal of what the session has done. -/
structure Session (β : Type) where
  enabled : Bool
  receivedLogon : Bool
  sentLogout : Bool
  sentLogon : Bool
  sentReset : Bool
  receivedReset : Bool
  testRequest : ℕ
  heartBtInt : ℤ
  resendRange : ℤ × ℤ
  logoutReason : Str
  queue : Finmap (fun _ : ℤ => Message β)
  store : MessageStore β
  connected : Bool
  wire : List (Message β)
  journal : List (Entry β)

namespace Session

/-- A session over a store, as the process begins. -/
def new (cfg : Settings) (store : MessageStore β) : Session β :=
  ⟨true, false, false, false, false, false, 0, cfg.heartBtInt, (0, 0), [], ∅, store, false, [], []⟩

def isLoggedOn (s : Session β) : Bool := s.receivedLogon && s.sentLogon

def resendRequested (s : Session β) : Bool := !(s.resendRange.1 = 0 && s.resendRange.2 = 0)

def getExpectedSenderNum (s : Session β) : ℤ := s.store.nextSenderMsgSeqNum

def getExpectedTargetNum (s : Session β) : ℤ := s.store.nextTargetMsgSeqNum

def isTargetTooHigh (s : Session β) (msgSeqNum : ℤ) : Bool := s.getExpectedTargetNum < msgSeqNum

def isTargetTooLow (s : Session β) (msgSeqNum : ℤ) : Bool := msgSeqNum < s.getExpectedTargetNum

def shouldSendLogon (cfg : Settings) (s : Session β) : Bool := cfg.initiate && !s.sentLogon

def shouldSendReset (cfg : Settings) (s : Session β) : Bool :=
  (cfg.resetOnLogon || cfg.resetOnLogout || cfg.resetOnDisconnect) &&
    s.getExpectedSenderNum = 1 && s.getExpectedTargetNum = 1

/-- Which types of messages may come now. -/
def validLogonState (s : Session β) : Kind β → Bool
  | .logon .. => s.sentReset || s.receivedReset || !s.receivedLogon || s.sentLogout
  | .logout _ => s.receivedReset || s.receivedLogon || s.sentLogon
  | .sequenceReset .. | .reject .. => true
  | _ => s.receivedReset || s.receivedLogon || s.sentLogout

end Session

/-- The exceptions, those that are answered by a session reject under one name with its reason
and its field. The last two are `std::logic_error` and `std::runtime_error`. -/
inductive Failure where
  | rejected (reason field : ℕ)
  | fieldNotFound (field : ℕ)
  | unsupportedMessageType
  | unsupportedVersion
  | rejectLogon (text : Str)
  | logicError
  | runtimeError
deriving Repr, DecidableEq

/-- What `DataDictionary::validate` throws. -/
inductive Fault where
  | rejected (reason field : ℕ)
  | fieldNotFound (field : ℕ)
deriving Repr, DecidableEq

/-- What `fromAdmin` may throw. -/
inductive AdminFailure where
  | fieldNotFound (field : ℕ)
  | incorrectDataFormat (field : ℕ)
  | incorrectTagValue (field : ℕ)
  | rejectLogon (text : Str)
deriving Repr, DecidableEq

/-- What `fromApp` may throw. -/
inductive AppFailure where
  | fieldNotFound (field : ℕ)
  | incorrectDataFormat (field : ℕ)
  | incorrectTagValue (field : ℕ)
  | unsupportedMessageType
deriving Repr, DecidableEq

def requiredTagMissing : ℕ := 1
def valueIsIncorrect : ℕ := 5
def incorrectDataFormat : ℕ := 6
def compIDProblem : ℕ := 9
def sendingTimeAccuracyProblem : ℕ := 10

def unknownMessageType : ℕ := 3
def conditionallyRequiredFieldMissing : ℕ := 5

def origSendingTimeTag : ℕ := 122

def Fault.toFailure : Fault → Failure
  | .rejected reason field => .rejected reason field
  | .fieldNotFound field => .fieldNotFound field

def AdminFailure.toFailure : AdminFailure → Failure
  | .fieldNotFound field => .fieldNotFound field
  | .incorrectDataFormat field => .rejected FixSession.incorrectDataFormat field
  | .incorrectTagValue field => .rejected valueIsIncorrect field
  | .rejectLogon text => .rejectLogon text

def AppFailure.toFailure : AppFailure → Failure
  | .fieldNotFound field => .fieldNotFound field
  | .incorrectDataFormat field => .rejected FixSession.incorrectDataFormat field
  | .incorrectTagValue field => .rejected valueIsIncorrect field
  | .unsupportedMessageType => .unsupportedMessageType

/-- What `next` finds when it looks at the clock. -/
structure Clock where
  logonTime : Bool := true
  logonTimedOut : Bool := false
  logoutTimedOut : Bool := false
  withinHeartBeat : Bool := true
  timedOut : Bool := false
  needTestRequest : Bool := false
  needHeartbeat : Bool := false

/-- What the environment answers during one step of a session: the time and whether it is in
the session's range, the clock after a message was handled, and what the dictionary and the
application do with a message. `replies` are the messages that `fromApp` sends, and `fuel` bounds
the loop over the queue: a run may be given as much as the loop needs. -/
structure Answers (β : Type) where
  now : ℤ
  sessionTime : Bool := true
  logonTime : Bool := true
  clock : Message β → Clock := fun _ => {}
  validate : Message β → Option Fault := fun _ => none
  fromAdmin : Message β → Option AdminFailure := fun _ => none
  fromApp : Message β → Option AppFailure := fun _ => none
  replies : Message β → List β := fun _ => []
  toApp : Message β → Bool := fun _ => true
  fuel : ℕ := 64

/-! ### Sending -/

abbrev SessionM (β : Type) := ExceptT Failure (StateM (Session β))

def record (e : Entry β) : SessionM β Unit :=
  modify fun s => { s with journal := s.journal ++ [e] }

def setReceivedLogon (b : Bool) : SessionM β Unit := modify fun s => { s with receivedLogon := b }
def setSentLogout (b : Bool) : SessionM β Unit := modify fun s => { s with sentLogout := b }
def setSentLogon (b : Bool) : SessionM β Unit := modify fun s => { s with sentLogon := b }
def setSentReset (b : Bool) : SessionM β Unit := modify fun s => { s with sentReset := b }
def setReceivedReset (b : Bool) : SessionM β Unit := modify fun s => { s with receivedReset := b }
def setTestRequest (n : ℕ) : SessionM β Unit := modify fun s => { s with testRequest := n }
def setHeartBtInt (n : ℤ) : SessionM β Unit := modify fun s => { s with heartBtInt := n }

def setResendRange (first second : ℤ) : SessionM β Unit :=
  modify fun s => { s with resendRange := (first, second) }

def queue (msgSeqNum : ℤ) (message : Message β) : SessionM β Unit :=
  modify fun s => { s with queue := s.queue.insert msgSeqNum message }

def retrieve (msgSeqNum : ℤ) : SessionM β (Option (Message β)) :=
  modifyGet fun s =>
    (s.queue.lookup msgSeqNum, { s with queue := s.queue.erase msgSeqNum })

def clearQueue : SessionM β Unit := modify fun s => { s with queue := ∅ }

/-- `m_state.reset()` empties the store. -/
def resetStore : SessionM β Unit :=
  modify fun s => { s with store := .empty, journal := s.journal ++ [.reset] }

def setNextTargetMsgSeqNum (n : ℤ) : SessionM β Unit :=
  modify fun s => { s with store.nextTargetMsgSeqNum := n }

/-- `++m_nextTargetMsgSeqNum` of an `int`. C++ leaves it undefined what comes after the greatest
one: here it is the least one, and the journal has the overflow. -/
def incrNextTargetMsgSeqNum : SessionM β Unit := do
  let next := (← get).store.nextTargetMsgSeqNum + 1
  if next < 2 ^ 31 then
    setNextTargetMsgSeqNum next
  else
    record .overflow
    setNextTargetMsgSeqNum (next - 2 ^ 32)

/-- `m_pResponder = 0`. -/
def hangUp : SessionM β Unit := modify fun s => { s with connected := false }

/-- `send(string)`: nothing is sent without a responder. -/
def sendString (message : Message β) : SessionM β Unit :=
  modify fun s => if s.connected then { s with wire := s.wire ++ [message] } else s

section

variable (cfg : Settings) (env : Answers β)

def disconnect : SessionM β Unit := do
  if (← get).connected then
    record .disconnect
    hangUp
  let s ← get
  if s.receivedLogon || s.sentLogon then
    setReceivedLogon false
    setSentLogon false
    record .onLogout
  setSentLogout false
  setReceivedReset false
  setSentReset false
  clearQueue
  if cfg.resetOnDisconnect then
    resetStore
  setResendRange 0 0

/-- The message of this kind with the header that `fill` gives it. -/
def fill (s : Session β) (kind : Kind β) : Message β where
  header := ⟨cfg.sessionID.beginString, cfg.sessionID.senderCompID, cfg.sessionID.targetCompID,
    s.getExpectedSenderNum, env.now, false, none⟩
  kind := kind

def toAdmin : Kind β → Kind β
  | .logon heartBtInt resetSeqNumFlag username password =>
      .logon heartBtInt (resetSeqNumFlag || cfg.toAdminResets) (cfg.username.or username)
        (cfg.password.or password)
  | kind => kind

def persist (message : Message β) : SessionM β Unit :=
  modify fun s => { s with
    store.messages :=
      if cfg.persistMessages then s.store.messages.insert message.header.msgSeqNum message
      else s.store.messages
    store.nextSenderMsgSeqNum := s.store.nextSenderMsgSeqNum + 1 }

/-- The branch of `sendRaw` for a Logon. Its number is read again after a reset. -/
def sendLogonReset (message : Message β) : SessionM β (Message β) := do
  match message.kind with
  | .logon _ resetSeqNumFlag _ _ =>
      if (← get).receivedReset then
        return message
      else
        setSentReset resetSeqNumFlag
        if resetSeqNumFlag then
          resetStore
          return { message with header.msgSeqNum := (← get).getExpectedSenderNum }
        else
          return message
  | _ => return message

/-- `sendRaw` without a number of its own: the message gets the next one and is kept. -/
def sendRaw (kind : Kind β) : SessionM β Bool := do
  let s ← get
  if kind.isAdminMsgType then
    let message ← sendLogonReset (fill cfg env s (toAdmin cfg kind))
    persist cfg message
    let s ← get
    if message.kind.isSentAlways || s.isLoggedOn then
      sendString message
    return true
  else
    if !s.isLoggedOn && s.shouldSendReset cfg then
      return false
    let message := fill cfg env s kind
    if !env.toApp message then
      return false
    persist cfg message
    if s.isLoggedOn then
      sendString message
    return true

/-- `generateSequenceReset`. With a number other than zero `sendRaw` keeps nothing and uses
this number. -/
def generateSequenceReset (beginSeqNo endSeqNo : ℤ) : SessionM β Unit := do
  let s ← get
  let message := fill cfg env s (.sequenceReset true endSeqNo)
  let message := { message with
    header.possDupFlag := true, header.origSendingTime := some env.now }
  if beginSeqNo ≠ 0 then
    sendString { message with header.msgSeqNum := beginSeqNo }
  else
    persist cfg message
    sendString message

/-- `generateLogon()` of the side that begins. -/
def generateLogon : SessionM β Unit := do
  if cfg.resetOnLogon then
    resetStore
  let s ← get
  setTestRequest 0
  setSentLogon true
  let _ ← sendRaw cfg env (.logon s.heartBtInt (s.shouldSendReset cfg) none none)

/-- `generateLogon(aLogon)` of the side that answers. -/
def generateLogonResponse (heartBtInt : ℤ) : SessionM β Unit := do
  let s ← get
  let _ ← sendRaw cfg env (.logon heartBtInt s.receivedReset none none)
  setSentLogon true

def generateLogout (text : Str) : SessionM β Unit := do
  let _ ← sendRaw cfg env (.logout text)
  setSentLogout true

/-- `endSeqNo` is zero from FIX.4.2 on, for everything from `beginSeqNo`. -/
def generateResendRequest (msgSeqNum : ℤ) : SessionM β Unit := do
  let beginSeqNo := (← get).getExpectedTargetNum
  let _ ← sendRaw cfg env (.resendRequest beginSeqNo 0)
  setResendRange beginSeqNo (msgSeqNum - 1)

/-- A rejected message is counted if it is the one that was expected. -/
def countRejected (message : Message β) : SessionM β Unit := do
  match message.kind with
  | .logon .. | .sequenceReset .. => pure ()
  | _ =>
      if message.header.msgSeqNum = (← get).getExpectedTargetNum then
        incrNextTargetMsgSeqNum

/-- `generateReject(message, err, field)`. -/
def generateReject (message : Message β) (err field : ℕ) : SessionM β Unit := do
  countRejected message
  if !(← get).receivedLogon then
    throw .runtimeError
  let _ ← sendRaw cfg env (.reject message.header.msgSeqNum err field)

def generateBusinessReject (message : Message β) (err field : ℕ) : SessionM β Unit := do
  incrNextTargetMsgSeqNum
  let _ ← sendRaw cfg env (.businessMessageReject message.header.msgSeqNum err field)

/-- `send(message)` for a message of the application. -/
def send (body : β) : SessionM β Bool := sendRaw cfg env (.app body)

def sendAll : List β → SessionM β Unit
  | [] => pure ()
  | body :: bodies => do
      let _ ← send cfg env body
      sendAll bodies

/-! ### Checking a message -/

def isGoodTime (message : Message β) : Bool :=
  !cfg.checkLatency || |env.now - message.header.sendingTime| ≤ cfg.maxLatency

def isCorrectCompID (message : Message β) : Bool :=
  !cfg.checkCompId || (cfg.sessionID.senderCompID = message.header.targetCompID &&
    cfg.sessionID.targetCompID = message.header.senderCompID)

def doPossDup (message : Message β) : SessionM β Unit := do
  match message.kind, message.header.origSendingTime with
  | .sequenceReset .., _ => pure ()
  | _, none => generateReject cfg env message requiredTagMissing origSendingTimeTag
  | _, some origSendingTime =>
      if message.header.sendingTime < origSendingTime then
        generateReject cfg env message sendingTimeAccuracyProblem 0
        generateLogout cfg env []

/-- The text of the Logout after a number that is too low. -/
def tooLowText (expecting received : ℤ) : Str :=
  ascii ("MsgSeqNum too low, expecting " ++ toString expecting ++
    " but received " ++ toString received)

def doTargetTooLow (message : Message β) : SessionM β Unit := do
  if !message.header.possDupFlag then
    let expected := (← get).getExpectedTargetNum
    generateLogout cfg env (tooLowText expected message.header.msgSeqNum)
    throw .logicError
  doPossDup cfg env message

def doTargetTooHigh (message : Message β) : SessionM β Unit := do
  queue message.header.msgSeqNum message
  let s ← get
  if s.resendRequested && !cfg.sendRedundantResendRequests &&
      s.resendRange.1 ≤ message.header.msgSeqNum then
    return
  generateResendRequest cfg env message.header.msgSeqNum

/-- The checks of `verify`, which stand in its `try` block. -/
def checks (message : Message β) (checkTooHigh checkTooLow : Bool) : SessionM β Bool := do
  let s ← get
  if !s.validLogonState message.kind then
    throw .logicError
  if !isGoodTime cfg env message then
    generateReject cfg env message sendingTimeAccuracyProblem 0
    generateLogout cfg env []
    return false
  if !isCorrectCompID cfg message then
    generateReject cfg env message compIDProblem 0
    generateLogout cfg env []
    return false
  if checkTooHigh && s.isTargetTooHigh message.header.msgSeqNum then
    doTargetTooHigh cfg env message
    return false
  else if checkTooLow && s.isTargetTooLow message.header.msgSeqNum then
    doTargetTooLow cfg env message
    return false
  if (checkTooHigh || checkTooLow) && s.resendRequested &&
      s.resendRange.2 ≤ message.header.msgSeqNum then
    setResendRange 0 0
  return true

def fromCallback (message : Message β) : SessionM β Unit := do
  if message.kind.isAdminMsgType then
    match env.fromAdmin message with
    | none => record (.fromAdmin message true)
    | some e =>
        record (.fromAdmin message false)
        throw e.toFailure
  else
    record (.fromApp message)
    sendAll cfg env (env.replies message)
    match env.fromApp message with
    | none => pure ()
    | some e => throw e.toFailure

/-- `verify`. Every exception of the checks ends the connection; those of the application are
passed on. -/
def verify (message : Message β) (checkTooHigh checkTooLow : Bool) : SessionM β Bool := do
  let checked ← tryCatch (checks cfg env message checkTooHigh checkTooLow) fun _ => do
    disconnect cfg
    return false
  if !checked then
    return false
  setTestRequest 0
  fromCallback cfg env message
  return true

/-! ### Handling a message -/

/-- The part of `nextLogon` before `verify`, and whether it goes on. -/
def openLogon (resetSeqNumFlag : Bool) : SessionM β Bool := do
  if !(← get).enabled then
    disconnect cfg
    return false
  if !env.logonTime then
    disconnect cfg
    return false
  setReceivedReset resetSeqNumFlag
  if resetSeqNumFlag && !(← get).sentReset then
    resetStore
  if (← get).shouldSendLogon cfg && !resetSeqNumFlag then
    disconnect cfg
    return false
  if !cfg.initiate && cfg.resetOnLogon then
    resetStore
  return true

/-- The Logon that answers one. -/
def answerLogon (heartBtInt : ℤ) : SessionM β Unit := do
  let s ← get
  if !cfg.initiate || (s.receivedReset && !s.sentReset) then
    setHeartBtInt heartBtInt
    generateLogonResponse cfg env heartBtInt

/-- The part of `nextLogon` from `verify` on. `drain` is `nextQueued` here and below. -/
def takeLogon (drain : SessionM β Unit) (message : Message β) (heartBtInt : ℤ)
    (resetSeqNumFlag : Bool) : SessionM β Unit := do
  if !(← verify cfg env message false true) then
    return
  setReceivedLogon true
  answerLogon cfg env heartBtInt
  setSentReset false
  setReceivedReset false
  if (← get).isTargetTooHigh message.header.msgSeqNum && !resetSeqNumFlag then
    doTargetTooHigh cfg env message
  else
    incrNextTargetMsgSeqNum
    drain
  if (← get).isLoggedOn then
    record .onLogon

def nextLogon (drain : SessionM β Unit) (message : Message β) (heartBtInt : ℤ)
    (resetSeqNumFlag : Bool) : SessionM β Unit := do
  if ← openLogon cfg env resetSeqNumFlag then
    takeLogon cfg env drain message heartBtInt resetSeqNumFlag

def nextHeartbeat (drain : SessionM β Unit) (message : Message β) : SessionM β Unit := do
  if !(← verify cfg env message true true) then
    return
  incrNextTargetMsgSeqNum
  drain

def nextTestRequest (drain : SessionM β Unit) (message : Message β) (testReqID : Option Str) :
    SessionM β Unit := do
  if !(← verify cfg env message true true) then
    return
  let _ ← sendRaw cfg env (.heartbeat testReqID)
  incrNextTargetMsgSeqNum
  drain

/-- The number of a Logout is not looked at. -/
def nextLogout (message : Message β) : SessionM β Unit := do
  if !(← verify cfg env message false false) then
    return
  if !(← get).sentLogout then
    generateLogout cfg env []
  incrNextTargetMsgSeqNum
  if cfg.resetOnLogout then
    resetStore
  disconnect cfg

/-- A number that is too high is not looked at. -/
def nextReject (drain : SessionM β Unit) (message : Message β) : SessionM β Unit := do
  if !(← verify cfg env message false true) then
    return
  incrNextTargetMsgSeqNum
  drain

def nextSequenceReset (message : Message β) (gapFillFlag : Bool) (newSeqNo : ℤ) :
    SessionM β Unit := do
  if !(← verify cfg env message gapFillFlag gapFillFlag) then
    return
  let s ← get
  if s.getExpectedTargetNum < newSeqNo then
    setNextTargetMsgSeqNum newSeqNo
  else if newSeqNo < s.getExpectedTargetNum then
    generateReject cfg env message valueIsIncorrect 0

/-- The message as it is sent again. -/
def resent (message : Message β) : Message β :=
  { message with
    header.possDupFlag := true
    header.origSendingTime := some message.header.sendingTime
    header.sendingTime := env.now }

/-- The variables of the loop of `nextResendRequest`. `begin` is the first number of the gap that
has still to be filled, and zero if there is none. -/
structure Resending where
  begin : ℤ
  current : ℤ
  msgSeqNum : ℤ

/-- Where the gap begins at a message. Missing messages are in it. -/
def Resending.gap (r : Resending) (msgSeqNum : ℤ) : ℤ :=
  if r.current ≠ msgSeqNum && r.begin = 0 then r.current else r.begin

/-- The loop of `nextResendRequest` over the messages of the store. -/
def resendLoop : List (Message β) → Resending → SessionM β Resending
  | [], r => return r
  | message :: messages, r => do
      let msgSeqNum := message.header.msgSeqNum
      let gap := r.gap msgSeqNum
      let gapWith := if gap = 0 then msgSeqNum else gap
      if message.kind.isAdminMsgType then
        resendLoop messages ⟨gapWith, msgSeqNum + 1, msgSeqNum⟩
      else if env.toApp (resent env message) then
        if gap ≠ 0 then
          generateSequenceReset cfg env gap msgSeqNum
        sendString (resent env message)
        resendLoop messages ⟨0, msgSeqNum + 1, msgSeqNum⟩
      else
        resendLoop messages ⟨gapWith, msgSeqNum + 1, msgSeqNum⟩

/-- The last number of a request that is answered. Zero stands for all. -/
def MessageStore.lastRequested (store : MessageStore β) (endSeqNo : ℤ) : ℤ :=
  if endSeqNo = 0 || store.nextSenderMsgSeqNum ≤ endSeqNo then store.nextSenderMsgSeqNum - 1
  else endSeqNo

/-- The answer to a request: the messages of the store are sent again, with gaps filled. -/
def resendMessages (beginSeqNo endSeqNo : ℤ) : SessionM β Unit := do
  let s ← get
  let endSeqNo := s.store.lastRequested endSeqNo
  if !cfg.persistMessages then
    generateSequenceReset cfg env beginSeqNo (min (endSeqNo + 1) s.getExpectedSenderNum)
  else
    let r ← resendLoop cfg env (s.store.get beginSeqNo endSeqNo) ⟨0, beginSeqNo, 0⟩
    if r.begin ≠ 0 then
      generateSequenceReset cfg env r.begin (r.msgSeqNum + 1)
    if r.msgSeqNum < endSeqNo then
      let next := (← get).getExpectedSenderNum
      generateSequenceReset cfg env beginSeqNo (min (endSeqNo + 1) next)

/-- `nextResendRequest`. Without persistence it returns before it counts the request. -/
def nextResendRequest (message : Message β) (beginSeqNo endSeqNo : ℤ) : SessionM β Unit := do
  if !(← verify cfg env message false false) then
    return
  resendMessages cfg env beginSeqNo endSeqNo
  if cfg.persistMessages && message.header.msgSeqNum = (← get).getExpectedTargetNum then
    incrNextTargetMsgSeqNum

/-- The last branch of `next`, for everything that is not an administrative message. It stands in
`next` itself, which returns when `verify` says so. -/
def nextApp (message : Message β) : SessionM β Bool := do
  if !(← verify cfg env message true true) then
    return false
  incrNextTargetMsgSeqNum
  return true

/-- The functions that `next` calls for the types of administrative messages. -/
def nextAdmin (drain : SessionM β Unit) (message : Message β) : SessionM β Unit :=
  match message.kind with
  | .logon heartBtInt resetSeqNumFlag _ _ =>
      nextLogon cfg env drain message heartBtInt resetSeqNumFlag
  | .heartbeat _ => nextHeartbeat cfg env drain message
  | .testRequest testReqID => nextTestRequest cfg env drain message testReqID
  | .sequenceReset gapFillFlag newSeqNo => nextSequenceReset cfg env message gapFillFlag newSeqNo
  | .logout _ => nextLogout cfg env message
  | .resendRequest beginSeqNo endSeqNo => nextResendRequest cfg env message beginSeqNo endSeqNo
  | .reject .. => nextReject cfg env drain message
  | .businessMessageReject .. | .app _ => pure ()

/-- The branches of `next` for the types of messages, and whether `next` goes on. -/
def dispatch (drain : SessionM β Unit) (message : Message β) : SessionM β Bool := do
  if message.kind.isAdminMsgType then
    nextAdmin cfg env drain message
    return true
  else
    nextApp cfg env message

/-- The `try` block of `next`. -/
def tryNext (drain : SessionM β Unit) (message : Message β) : SessionM β Bool := do
  if message.header.beginString ≠ cfg.sessionID.beginString then
    throw .unsupportedVersion
  match env.validate message with
  | some fault => throw fault.toFailure
  | none => dispatch cfg env drain message

/-- `LOGEX`: an exception is logged. -/
def logex (method : SessionM β Unit) : SessionM β Unit := tryCatch method fun _ => pure ()

/-- `reset()`. -/
def reset : SessionM β Unit := do
  generateLogout cfg env []
  disconnect cfg
  resetStore

/-- The `catch` clauses of `next`. The last two exceptions have none. -/
def handleFailure (message : Message β) : Failure → SessionM β Unit
  | .rejected reason field => logex (generateReject cfg env message reason field)
  | .fieldNotFound field => do
      if message.kind.isAdminMsgType then
        logex (generateReject cfg env message requiredTagMissing field)
        match message.kind with
        | .logon .. => disconnect cfg
        | _ => pure ()
      else
        logex (generateBusinessReject cfg env message conditionallyRequiredFieldMissing field)
  | .unsupportedMessageType => logex (generateBusinessReject cfg env message unknownMessageType 0)
  | .unsupportedVersion =>
      match message.kind with
      | .logout _ => nextLogout cfg env message
      | _ => do
          generateLogout cfg env (ascii "Incorrect BeginString")
          incrNextTargetMsgSeqNum
  | .rejectLogon text => do
      generateLogout cfg env text
      disconnect cfg
  | .logicError => throw .logicError
  | .runtimeError => throw .runtimeError

/-- `next()`, which is called when nothing has come for a while and after every message. -/
def nextTimer (clock : Clock) : SessionM β Unit := do
  if !env.sessionTime then
    reset cfg env
    return
  let s ← get
  if !s.enabled || !clock.logonTime then
    if s.isLoggedOn then
      if !s.sentLogout then
        generateLogout cfg env s.logoutReason
    else
      return
  let s ← get
  if !s.receivedLogon then
    if s.shouldSendLogon cfg && clock.logonTime then
      generateLogon cfg env
    else if cfg.initiate && s.sentLogon && clock.logonTimedOut then
      disconnect cfg
    return
  if s.heartBtInt = 0 then
    return
  if s.sentLogout && clock.logoutTimedOut then
    disconnect cfg
  if clock.withinHeartBeat then
    return
  if clock.timedOut then
    disconnect cfg
  else if clock.needTestRequest then
    let _ ← sendRaw cfg env (.testRequest (some (ascii "TEST")))
    setTestRequest ((← get).testRequest + 1)
  else if clock.needHeartbeat && (← get).testRequest = 0 then
    let _ ← sendRaw cfg env (.heartbeat none)

/-- `next(message)`, for a message that comes from the peer or was queued. -/
def nextMessage (drain : SessionM β Unit) (message : Message β) (queued : Bool) :
    SessionM β Unit := do
  if !env.sessionTime then
    reset cfg env
    return
  let goesOn ← tryCatch (tryNext cfg env drain message) fun failure => do
    handleFailure cfg env message failure
    return true
  if !goesOn then
    return
  if !queued then
    drain
  if (← get).isLoggedOn then
    nextTimer cfg env (env.clock message)

/-- `nextQueued`, with fuel for the messages that are queued. -/
def nextQueued : ℕ → SessionM β Unit
  | 0 => pure ()
  | fuel + 1 => do
      match ← retrieve (← get).getExpectedTargetNum with
      | none => pure ()
      | some message =>
          match message.kind with
          | .logon .. | .resendRequest .. => incrNextTargetMsgSeqNum
          | _ => nextMessage cfg env (nextQueued fuel) message true
          nextQueued fuel

/-- A message from the peer. -/
def receive (message : Message β) : SessionM β Unit :=
  nextMessage cfg env (nextQueued cfg env env.fuel) message false

end

/-! ### Runs -/

def setResponder (cfg : Settings) (env : Answers β) (responder : Bool) : SessionM β Unit := do
  if !env.sessionTime then
    reset cfg env
  modify fun s => { s with connected := responder }

/-- A new process opens the store again. -/
def restart (cfg : Settings) (env : Answers β) : SessionM β Unit := do
  modify fun s => { Session.new cfg s.store with wire := s.wire, journal := s.journal }
  if !env.sessionTime then
    reset cfg env

/-- What happens to a session: calls of its connection, of its timer and of the application,
and the end and the start of its process, which come between two calls. -/
inductive Event (β : Type) where
  | setResponder (env : Answers β) (responder : Bool)
  | disconnect
  | next (env : Answers β) (clock : Clock)
  | receive (env : Answers β) (message : Message β)
  | send (env : Answers β) (body : β)
  | logon
  | logout (reason : Str)
  | restart (env : Answers β)

/-- The answers of an event. A disconnect and a change of the settings ask for none. -/
def Event.env : Event β → Answers β
  | .setResponder env _ | .next env _ | .receive env _ | .send env _ | .restart env => env
  | .disconnect | .logon | .logout _ => { now := 0 }

def handle (cfg : Settings) : Event β → SessionM β Unit
  | .setResponder env responder => setResponder cfg env responder
  | .disconnect => disconnect cfg
  | .next env clock => nextTimer cfg env clock
  | .receive env message => receive cfg env message
  | .send env body => do let _ ← send cfg env body
  | .logon => modify fun s => { s with enabled := true, logoutReason := [] }
  | .logout reason => modify fun s => { s with enabled := false, logoutReason := reason }
  | .restart env => restart cfg env

/-- The session after an event, also after one whose exception nobody catches. -/
def act (cfg : Settings) (s : Session β) (e : Event β) : Session β := ((handle cfg e).run.run s).2

def run (cfg : Settings) (s : Session β) (es : List (Event β)) : Session β := es.foldl (act cfg) s

end ForexSuite.FixSession
