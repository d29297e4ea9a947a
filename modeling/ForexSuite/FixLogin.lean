import ForexSuite.FixDelivery

/-!
# Logging on to a FIX session

A session shows a Logon to its application and takes messages of the application only after
one was accepted. There is a gap in this: ResetSeqNumFlag is remembered before the Logon is
checked, and while it is remembered every message is taken.
-/
namespace ForexSuite.FixSession
open PriceServer

variable {β : Type} {cfg : Settings} {env : Answers β} {s : Session β} {m : Message β}

/-- The environment and the header of a message give no reason to refuse it. -/
structure Admissible (cfg : Settings) (env : Answers β) (m : Message β) : Prop where
  sessionTime : env.sessionTime = true
  validate : env.validate m = none
  beginString : m.header.beginString = cfg.sessionID.beginString
  sender : m.header.senderCompID = cfg.sessionID.targetCompID
  target : m.header.targetCompID = cfg.sessionID.senderCompID
  time : isGoodTime cfg env m = true

theorem Admissible.isCorrectCompID (h : Admissible cfg env m) : isCorrectCompID cfg m = true := by
  simp [FixSession.isCorrectCompID, h.sender, h.target]

/-- A session that waits for a Logon, as it is after `disconnect`. -/
structure Waiting (s : Session β) : Prop where
  receivedLogon : s.receivedLogon = false
  sentReset : s.sentReset = false
  resendRange : s.resendRange = (0, 0)
  queue : s.queue = ∅

/-- A message that was sent before, with the times of a message that is sent again. -/
structure Repeated (m : Message β) : Prop where
  possDupFlag : m.header.possDupFlag = true
  origSendingTime : ∃ t, m.header.origSendingTime = some t ∧ t ≤ m.header.sendingTime

/-- What a Logon with ResetSeqNumFlag leaves behind when it is not looked at any more. -/
def Session.opened (cfg : Settings) (s : Session β) : Session β :=
  { s with
    receivedReset := true
    store := .empty
    journal := s.journal ++ if cfg.resetOnLogon then [.reset, .reset] else [.reset] }

/-- What a message of the application leaves behind that is taken without a Logon. -/
def Session.taken (s : Session β) (m : Message β) : Session β :=
  { s with
    testRequest := 0
    store.nextTargetMsgSeqNum := s.store.nextTargetMsgSeqNum + 1
    journal := s.journal ++ [.fromApp m] }

/-! ### Runs -/

theorem run_get_bind {γ : Type} (f : Session β → SessionM β γ) (s : Session β) :
    (get >>= f).run.run s = (f s).run.run s :=
  rfl

theorem run_modify_bind {γ : Type} (g : Session β → Session β) (f : Unit → SessionM β γ)
    (s : Session β) : (modify g >>= f).run.run s = (f ()).run.run (g s) :=
  rfl

theorem run_pure {γ : Type} (a : γ) (s : Session β) :
    (pure a : SessionM β γ).run.run s = (.ok a, s) :=
  rfl

theorem run_tryCatch {γ : Type} {x : SessionM β γ} {f : Failure → SessionM β γ} {a : γ}
    {s s' : Session β} (h : x.run.run s = (.ok a, s')) :
    (tryCatch x f).run.run s = (.ok a, s') := by
  rw [ExceptT.run_tryCatch, StateT.run_bind, h]
  rfl

theorem run_nextQueued (hq : s.queue = ∅) (fuel : ℕ) :
    (nextQueued cfg env fuel).run.run s = (.ok (), s) := by
  cases fuel with
  | zero => rfl
  | succ fuel =>
      have hempty : (∅ : Finmap fun _ : ℤ => Message β).erase s.store.nextTargetMsgSeqNum = ∅ := by
        refine Finmap.ext_lookup ?_
        intro k
        by_cases hk : k = s.store.nextTargetMsgSeqNum
        · rw [hk, Finmap.lookup_erase, Finmap.lookup_empty]
        · rw [Finmap.lookup_erase_ne hk]
      have hretrieve : (retrieve s.getExpectedTargetNum).run.run s = (.ok none, s) := by
        change (Except.ok (s.queue.lookup s.store.nextTargetMsgSeqNum),
          { s with queue := s.queue.erase s.store.nextTargetMsgSeqNum }) = _
        rw [hq, hempty, Finmap.lookup_empty, ← hq]
      unfold nextQueued
      rw [run_get_bind, run_bind_ok hretrieve]
      rfl

/-- The connection is given up, nothing is delivered, and the session waits. -/
theorem run_disconnect (hd : cfg.resetOnDisconnect = false) (s : Session β) :
    ∃ s', (disconnect cfg).run.run s = (.ok (), s') ∧ s'.store = s.store ∧
      s'.delivered = s.delivered ∧ s.journal <+: s'.journal ∧ Waiting s' := by
  unfold disconnect
  simp only [hd, Bool.false_eq_true, if_false]
  obtain ⟨_, receivedLogon, _, sentLogon, _, _, _, _, _, _, _, _, connected, _, _⟩ := s
  cases connected <;> cases receivedLogon <;> cases sentLogon <;>
    refine ⟨_, rfl, rfl, ?_, ?_, rfl, rfl, rfl, rfl⟩ <;>
    simp [Session.delivered, List.foldl_append, Entry.deliver]

/-- A message whose branch of `next` ends without an exception, at a session that nobody has
logged on to. -/
theorem run_receive (h : Admissible cfg env m) (goesOn : Bool) {s' : Session β}
    (hrun : (dispatch cfg env (nextQueued cfg env env.fuel) m).run.run s =
      (.ok goesOn, s')) (hq : s'.queue = ∅) (hl : s'.receivedLogon = false) :
    (receive cfg env m).run.run s = (.ok (), s') := by
  have htry : (tryNext cfg env (nextQueued cfg env env.fuel) m).run.run s =
      (.ok goesOn, s') := by
    unfold tryNext
    simp only [h.beginString, h.validate, ne_eq, not_true_eq_false, if_false]
    exact hrun
  have hlogged : s'.isLoggedOn = false := by
    simp [Session.isLoggedOn, hl]
  unfold receive nextMessage
  simp only [h.sessionTime, Bool.not_true, Bool.false_eq_true, if_false, Bool.not_false, if_true]
  rw [run_bind_ok (run_tryCatch htry)]
  cases goesOn with
  | false => rfl
  | true =>
      simp only [Bool.not_true, Bool.false_eq_true, if_false]
      rw [run_bind_ok (run_nextQueued hq _), run_get_bind, hlogged]
      rfl

/-- What an administrative message leaves behind that the application accepts. -/
def Session.shown (s : Session β) (m : Message β) : Session β :=
  { s with testRequest := 0, journal := s.journal ++ [.fromAdmin m true] }

theorem run_incrNextTargetMsgSeqNum (h : s.store.nextTargetMsgSeqNum + 1 < 2 ^ 31) :
    (incrNextTargetMsgSeqNum : SessionM β Unit).run.run s =
      (.ok (), s.counted (s.store.nextTargetMsgSeqNum + 1)) := by
  unfold incrNextTargetMsgSeqNum
  rw [run_get_bind]
  dsimp only
  rw [if_pos h]
  rfl

theorem run_incrNextTargetMsgSeqNum_overflow (h : ¬s.store.nextTargetMsgSeqNum + 1 < 2 ^ 31) :
    (incrNextTargetMsgSeqNum : SessionM β Unit).run.run s =
      (.ok (), (s.noted .overflow).counted (s.store.nextTargetMsgSeqNum + 1 - 2 ^ 32)) := by
  unfold incrNextTargetMsgSeqNum
  rw [run_get_bind]
  dsimp only
  rw [if_neg h]
  rfl

/-- An administrative message whose number is not looked at. -/
theorem run_verify_unnumbered (h : Admissible cfg env m) (hstate : s.validLogonState m.kind = true)
    (hk : m.kind.isAdminMsgType = true) (hadmin : env.fromAdmin m = none) :
    (verify cfg env m false false).run.run s = (.ok true, s.shown m) := by
  have hchecks : (checks cfg env m false false).run.run s = (.ok true, s) := by
    unfold checks
    simp only [run_get_bind, hstate, h.time, h.isCorrectCompID, Bool.not_true,
      Bool.false_eq_true, if_false, Bool.false_and, Bool.or_self]
    rfl
  unfold verify fromCallback setTestRequest record
  rw [run_bind_ok (run_tryCatch hchecks)]
  simp only [Bool.not_true, Bool.false_eq_true, if_false, run_modify_bind, hk, if_true, hadmin]
  rfl

/-! ### The gap -/

/-- A repeated message with a number that is too low is not looked at any more. -/
theorem run_verify_tooLow (h : Admissible cfg env m) (hr : Repeated m)
    (hk : s.validLogonState m.kind = true) (hs : m.kind.isSequenceReset = false)
    (hn : m.header.msgSeqNum < s.store.nextTargetMsgSeqNum) :
    (verify cfg env m false true).run.run s = (.ok false, s) := by
  obtain ⟨hdup, t, horig, ht⟩ := hr
  have hcomp := h.isCorrectCompID
  have hgood := h.time
  have hlow : s.isTargetTooLow m.header.msgSeqNum = true := by
    simp [Session.isTargetTooLow, Session.getExpectedTargetNum, hn]
  have hposs : (doPossDup cfg env m).run.run s = (.ok (), s) := by
    unfold doPossDup
    rw [horig]
    cases hk : m.kind with
    | sequenceReset =>
        rw [hk] at hs
        cases hs
    | _ =>
        simp only [not_lt.2 ht, if_false]
        rfl
  have htoo : (doTargetTooLow cfg env m).run.run s = (.ok (), s) := by
    unfold doTargetTooLow
    simp only [hdup, Bool.not_true, Bool.false_eq_true, if_false]
    exact hposs
  have hchecks : (checks cfg env m false true).run.run s = (.ok false, s) := by
    unfold checks
    simp only [run_get_bind, hk, hgood, hcomp, hlow, Bool.not_true, Bool.false_eq_true, if_false,
      Bool.false_and, Bool.true_and, if_true]
    rw [run_bind_ok htoo]
    rfl
  unfold verify
  rw [run_bind_ok (run_tryCatch hchecks)]
  rfl

theorem run_openLogon (hs : Waiting s) (he : s.enabled = true) (hi : cfg.initiate = false)
    (ht : env.logonTime = true) :
    (openLogon cfg env true).run.run s = (.ok true, s.opened cfg) := by
  have hstart : s.shouldSendLogon cfg = false := by
    simp [Session.shouldSendLogon, hi]
  unfold openLogon Session.opened
  simp only [run_get_bind, he, ht, setReceivedReset, run_modify_bind, Bool.not_true,
    Bool.false_eq_true, if_false, Bool.true_and, hs.sentReset, Bool.not_false, if_true,
    resetStore, Bool.and_false, hi]
  cases cfg.resetOnLogon with
  | false => rfl
  | true =>
      simp only [if_true, run_modify_bind, run_pure, List.append_assoc, List.cons_append,
        List.nil_append]

/-- The Logon is never shown to the application, whatever it would say of it. -/
theorem run_receive_logon (h : Admissible cfg env m) (hs : Waiting s) (he : s.enabled = true)
    (hi : cfg.initiate = false) (ht : env.logonTime = true) {heartBtInt : ℤ}
    {username password : Option Str} (hk : m.kind = .logon heartBtInt true username password)
    (hr : Repeated m) (hn : m.header.msgSeqNum < 1) :
    (receive cfg env m).run.run s = (.ok (), s.opened cfg) := by
  have hadmin : m.kind.isAdminMsgType = true := by
    rw [hk]
    rfl
  have hstate : (s.opened cfg).validLogonState m.kind = true := by
    simp [hk, Session.validLogonState, Session.opened]
  have hverify : (verify cfg env m false true).run.run (s.opened cfg) =
      (.ok false, s.opened cfg) :=
    run_verify_tooLow h hr hstate (by rw [hk]; rfl) hn
  refine run_receive h true ?_ hs.queue hs.receivedLogon
  unfold dispatch nextAdmin
  rw [if_pos hadmin, hk]
  have hlogon : (nextLogon cfg env (nextQueued cfg env env.fuel) m heartBtInt true).run.run s =
      (.ok (), s.opened cfg) := by
    unfold nextLogon
    rw [run_bind_ok (run_openLogon hs he hi ht)]
    unfold takeLogon
    simp only [if_true]
    rw [run_bind_ok hverify]
    rfl
  rw [run_bind_ok hlogon]
  rfl

/-- After such a Logon the next message of the application is given to it. -/
theorem run_receive_app (h : Admissible cfg env m) (hreset : s.receivedReset = true)
    (hl : s.receivedLogon = false) (hrange : s.resendRange = (0, 0)) (hq : s.queue = ∅)
    (hk : m.kind.isAdminMsgType = false)
    (hn : m.header.msgSeqNum = s.store.nextTargetMsgSeqNum)
    (hmax : s.store.nextTargetMsgSeqNum + 1 < 2 ^ 31) (happ : env.fromApp m = none)
    (hreplies : env.replies m = []) :
    (receive cfg env m).run.run s = (.ok (), s.taken m) := by
  have hstate : s.validLogonState m.kind = true := by
    cases hk' : m.kind <;> simp_all [Session.validLogonState, Kind.isAdminMsgType]
  have hhigh : s.isTargetTooHigh m.header.msgSeqNum = false := by
    simp [Session.isTargetTooHigh, Session.getExpectedTargetNum, hn]
  have hlow : s.isTargetTooLow m.header.msgSeqNum = false := by
    simp [Session.isTargetTooLow, Session.getExpectedTargetNum, hn]
  have hrequested : s.resendRequested = false := by
    simp [Session.resendRequested, hrange]
  have hcomp := h.isCorrectCompID
  have hgood := h.time
  have hchecks : (checks cfg env m true true).run.run s = (.ok true, s) := by
    unfold checks
    simp only [run_get_bind, hstate, hgood, hcomp, hhigh, hlow, hrequested, Bool.not_true,
      Bool.false_eq_true, if_false, Bool.and_false, Bool.false_and]
    rfl
  have hverify : (verify cfg env m true true).run.run s =
      (.ok true, { s with testRequest := 0, journal := s.journal ++ [.fromApp m] }) := by
    unfold verify fromCallback setTestRequest record
    rw [run_bind_ok (run_tryCatch hchecks)]
    simp only [Bool.not_true, Bool.false_eq_true, if_false, run_modify_bind, hk, hreplies, happ]
    rfl
  refine run_receive h true ?_ hq hl
  unfold dispatch nextApp
  rw [if_neg (by simp [hk]), run_bind_ok hverify]
  simp only [Bool.not_true, Bool.false_eq_true, if_false]
  have hcount := run_incrNextTargetMsgSeqNum
    (s := { s with testRequest := 0, journal := s.journal ++ [.fromApp m] }) hmax
  rw [run_bind_ok hcount]
  rfl

/-- A server whose application would refuse every Logon is sent a Logon with ResetSeqNumFlag,
PossDupFlag and a number below one, and then a message of the application: that is given to the
application, which was never asked about the Logon. -/
theorem application_without_logon {cfg : Settings} {env₁ env₂ : Answers β} {s : Session β}
    {m₁ m₂ : Message β} (hs : Waiting s) (he : s.enabled = true) (hi : cfg.initiate = false)
    (h₁ : Admissible cfg env₁ m₁) (ht : env₁.logonTime = true) {heartBtInt : ℤ}
    {username password : Option Str} (hk₁ : m₁.kind = .logon heartBtInt true username password)
    (hr : Repeated m₁) (hn₁ : m₁.header.msgSeqNum < 1)
    (h₂ : Admissible cfg env₂ m₂) (hk₂ : m₂.kind.isAdminMsgType = false)
    (hn₂ : m₂.header.msgSeqNum = 1) (happ : env₂.fromApp m₂ = none)
    (hreplies : env₂.replies m₂ = []) :
    let s' := run cfg s [.receive env₁ m₁, .receive env₂ m₂]
    s'.receivedLogon = false ∧ s'.journal = s.journal ++
      (if cfg.resetOnLogon then [.reset, .reset] else [.reset]) ++ [.fromApp m₂] := by
  have hlogon := run_receive_logon h₁ hs he hi ht hk₁ hr hn₁
  have htaken := run_receive_app (s := s.opened cfg) h₂ rfl hs.receivedLogon hs.resendRange
    hs.queue hk₂ hn₂ (show (1 : ℤ) + 1 < 2 ^ 31 by norm_num) happ hreplies
  have hrun : run cfg s [.receive env₁ m₁, .receive env₂ m₂] = (s.opened cfg).taken m₂ := by
    simp only [run, List.foldl, act, handle, hlogon, htaken]
  intro s'
  rw [show s' = _ from hrun]
  exact ⟨hs.receivedLogon, rfl⟩

/-- The application of a new server would refuse the Logon, and is given the message. -/
theorem new_server_takes_message :
    let refusing : Answers ℕ := { now := 0, fromAdmin := fun _ => some (.rejectLogon []) }
    let s' := run (ends false) (Session.new (ends false) .empty)
      [.receive refusing (resent { now := 0 } (fromEnd true 0 (.logon 30 true none none))),
        .receive refusing (fromEnd true 1 (.app 5))]
    s'.receivedLogon = false ∧ s'.journal = [.reset, .fromApp (fromEnd true 1 (.app 5))] :=
  application_without_logon ⟨rfl, rfl, rfl, rfl⟩ rfl rfl ⟨rfl, rfl, rfl, rfl, rfl, rfl⟩ rfl rfl
    ⟨rfl, 0, rfl, le_rfl⟩ (by decide) ⟨rfl, rfl, rfl, rfl, rfl, rfl⟩ rfl rfl rfl rfl

/-! ### Exceptions -/

theorem run_bind_error {γ δ : Type} {x : SessionM β γ} (f : γ → SessionM β δ)
    {s s' : Session β} {e : Failure} (h : x.run.run s = (.error e, s')) :
    (x >>= f).run.run s = (.error e, s') := by
  change (ExceptT.bindCont f) (x.run.run s).1 (x.run.run s).2 = _
  rw [h]
  rfl

theorem run_tryCatch_error {γ : Type} {x : SessionM β γ} (f : Failure → SessionM β γ)
    {s s' : Session β} {e : Failure} (h : x.run.run s = (.error e, s')) :
    (tryCatch x f).run.run s = (f e).run.run s' := by
  rw [ExceptT.run_tryCatch, StateT.run_bind, h]
  rfl

/-- A number that is not lower than the one that is expected is taken over. -/
theorem run_nextSequenceReset_raise {newSeqNo : ℤ}
    (hverify : (verify cfg env m false false).run.run s = (.ok true, s.shown m))
    (hle : s.store.nextTargetMsgSeqNum ≤ newSeqNo) :
    (nextSequenceReset cfg env m false newSeqNo).run.run s =
      (.ok (), (s.shown m).counted newSeqNo) := by
  unfold nextSequenceReset
  rw [run_bind_ok hverify]
  simp only [Bool.not_true, Bool.false_eq_true, if_false, run_get_bind]
  rcases hle.lt_or_eq with hlt | heq
  · rw [if_pos (show (s.shown m).getExpectedTargetNum < newSeqNo from hlt)]
    rfl
  · rw [if_neg (show ¬(s.shown m).getExpectedTargetNum < newSeqNo from not_lt.2 heq.ge),
      if_neg (show ¬newSeqNo < (s.shown m).getExpectedTargetNum from not_lt.2 heq.le), ← heq]
    rfl

/-- A lower one is rejected, which throws if nobody has logged on. -/
theorem run_nextSequenceReset_lower {newSeqNo : ℤ}
    (hverify : (verify cfg env m false false).run.run s = (.ok true, s.shown m))
    (hk : m.kind.isSequenceReset = true) (hl : s.receivedLogon = false)
    (hlt : newSeqNo < s.store.nextTargetMsgSeqNum) :
    (nextSequenceReset cfg env m false newSeqNo).run.run s =
      (.error .runtimeError, s.shown m) := by
  have hcount : (countRejected m).run.run (s.shown m) = (.ok (), s.shown m) := by
    unfold countRejected
    cases hm : m.kind with
    | sequenceReset => rfl
    | _ => simp [hm, Kind.isSequenceReset] at hk
  have hreject : (generateReject cfg env m valueIsIncorrect 0).run.run (s.shown m) =
      (.error .runtimeError, s.shown m) := by
    have hl : (s.shown m).receivedLogon = false := hl
    unfold generateReject
    rw [run_bind_ok hcount, run_get_bind, hl]
    rfl
  unfold nextSequenceReset
  rw [run_bind_ok hverify]
  simp only [Bool.not_true, Bool.false_eq_true, if_false, run_get_bind]
  rw [if_neg (show ¬(s.shown m).getExpectedTargetNum < newSeqNo from not_lt.2 hlt.le),
    if_pos (show newSeqNo < (s.shown m).getExpectedTargetNum from hlt)]
  exact hreject

/-- `std::runtime_error` has no `catch` in `next`. -/
theorem run_receive_runtimeError (h : Admissible cfg env m) {s' : Session β}
    (hrun : (dispatch cfg env (nextQueued cfg env env.fuel) m).run.run s =
      (.error .runtimeError, s')) :
    (receive cfg env m).run.run s = (.error .runtimeError, s') := by
  have htry : (tryNext cfg env (nextQueued cfg env env.fuel) m).run.run s =
      (.error .runtimeError, s') := by
    unfold tryNext
    simp only [h.beginString, h.validate, ne_eq, not_true_eq_false, if_false]
    exact hrun
  unfold receive nextMessage
  simp only [h.sessionTime, Bool.not_true, Bool.false_eq_true, if_false]
  refine run_bind_error _ ?_
  rw [run_tryCatch_error _ htry]
  rfl

/-- A SequenceReset is taken without a Logon, and its number is expected next. If that would
lower the number that is expected, the reject throws, because nobody has logged on, and no
`catch` of `next` is for this exception. -/
theorem sequence_reset_needs_no_logon {cfg : Settings} {env : Answers β} {s : Session β}
    {m : Message β} (h : Admissible cfg env m) (hs : Waiting s) {newSeqNo : ℤ}
    (hk : m.kind = .sequenceReset false newSeqNo) (hadmin : env.fromAdmin m = none) :
    (receive cfg env m).run.run s =
      if newSeqNo < s.store.nextTargetMsgSeqNum then (.error .runtimeError, s.shown m)
      else (.ok (), (s.shown m).counted newSeqNo) := by
  have hstate : s.validLogonState m.kind = true := by
    simp [hk, Session.validLogonState]
  have hverify := run_verify_unnumbered h hstate (by rw [hk]; rfl) hadmin
  have hdispatch : dispatch cfg env (nextQueued cfg env env.fuel) m = (do
      nextSequenceReset cfg env m false newSeqNo
      return true) := by
    unfold dispatch nextAdmin
    simp only [hk, Kind.isAdminMsgType, if_true]
  split
  · rename_i hlt
    refine run_receive_runtimeError h ?_
    rw [hdispatch]
    exact run_bind_error _ (run_nextSequenceReset_lower hverify (by rw [hk]; rfl)
      hs.receivedLogon hlt)
  · rename_i hlt
    refine run_receive h true ?_ hs.queue hs.receivedLogon
    rw [hdispatch, run_bind_ok (run_nextSequenceReset_raise hverify (not_lt.1 hlt))]
    rfl

/-- The first message to a new server may be a SequenceReset, which `next` does not survive. -/
theorem new_server_throws :
    let m : Message ℕ := fromEnd true 1 (.sequenceReset false 0)
    (receive (ends false) { now := 0 } m).run.run (Session.new (ends false) .empty) =
      (.error .runtimeError, (Session.new (ends false) .empty).shown m) := by
  intro m
  have hm : Admissible (ends false) ({ now := 0 } : Answers ℕ) m := ⟨rfl, rfl, rfl, rfl, rfl, rfl⟩
  rw [sequence_reset_needs_no_logon hm ⟨rfl, rfl, rfl, rfl⟩ rfl rfl]
  rfl

end ForexSuite.FixSession
