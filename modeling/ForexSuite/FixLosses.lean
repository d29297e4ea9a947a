import ForexSuite.FixLogin

/-!
# What a FIX session loses

The number that is expected next never falls unless it is reset or overflows, and what is
delivered later has that number or a higher one. A Logout is counted whatever its number is:
if messages were lost before it, the first of them is never delivered. What can be asked for
again is sent again, as soon as the request is let through.
-/
namespace ForexSuite.FixSession
open PriceServer Relation

variable {β : Type} {cfg : Settings} {env : Answers β} {s : Session β} {m : Message β}

/-! ### What comes later -/

/-- These entries do not begin the numbers again. -/
def Numbered (js : List (Entry β)) : Prop := .reset ∉ js ∧ .overflow ∉ js

theorem Numbered.left {js js' : List (Entry β)} (h : Numbered (js ++ js')) : Numbered js :=
  ⟨fun hr => h.1 (List.mem_append_left _ hr), fun ho => h.2 (List.mem_append_left _ ho)⟩

theorem Numbered.right {js js' : List (Entry β)} (h : Numbered (js ++ js')) : Numbered js' :=
  ⟨fun hr => h.1 (List.mem_append_right _ hr), fun ho => h.2 (List.mem_append_right _ ho)⟩

/-- A point that comes after a session: unless the numbers began again in between, what was
delivered since has no number below the one that the session expected. -/
structure After (s : Session β) (js : List (Entry β)) (a : Point β) : Prop where
  journal : a.1.journal = s.journal ++ js
  target : Numbered js → s.store.nextTargetMsgSeqNum ≤ a.1.store.nextTargetMsgSeqNum
  delivered : Numbered js → ∀ m ∈ a.1.delivered,
    m ∈ s.delivered ∨ s.store.nextTargetMsgSeqNum ≤ m.header.msgSeqNum

theorem After.refl (s : Session β) : After s [] (s, none) :=
  ⟨(List.append_nil _).symm, fun _ => le_refl _, fun _ _ h => Or.inl h⟩

section

variable {js : List (Entry β)} {known : Message β → Prop} {fair : Prop}

/-- The number that is expected next is not lowered, and the journal stays. -/
theorem After.raise {a b : Point β} (h : After s js a) (hj : b.1.journal = a.1.journal)
    (ht : a.1.store.nextTargetMsgSeqNum ≤ b.1.store.nextTargetMsgSeqNum) : After s js b := by
  obtain ⟨journal, target, delivered⟩ := h
  refine ⟨hj.trans journal, fun hr => (target hr).trans ht, ?_⟩
  intro hr m hm
  rw [Session.delivered, hj] at hm
  exact delivered hr m hm

theorem After.noted {s' : Session β} {p p' : Option (Message β × ℤ)} (h : After s js (s', p))
    {e : Entry β} (hd : ∀ m ∈ e.deliver s'.delivered, m ∈ s'.delivered ∨
      s'.store.nextTargetMsgSeqNum ≤ m.header.msgSeqNum) :
    After s (js ++ [e]) (s'.noted e, p') := by
  obtain ⟨journal, target, delivered⟩ := h
  refine ⟨?_, fun hr => target hr.left, ?_⟩
  · rw [← List.append_assoc, ← journal]
    rfl
  · intro hr m hm
    rw [Session.delivered_noted] at hm
    rcases hd m hm with hm | hm
    · exact delivered hr.left m hm
    · exact Or.inr ((target hr.left).trans hm)

/-- After an entry that begins the numbers again nothing is said of them. -/
theorem After.begin {a b : Point β} (h : After s js a) {e : Entry β}
    (hj : b.1.journal = a.1.journal ++ [e]) (he : ¬Numbered [e]) : After s (js ++ [e]) b := by
  refine ⟨?_, fun hn => absurd hn.right he, fun hn => absurd hn.right he⟩
  rw [hj, h.journal, List.append_assoc]

theorem Move.after {a b : Point β} (h : Move cfg known fair a b) (ha : After s js a) :
    ∃ js', After s js' b := by
  cases h with
  | control h => exact ⟨js, ha.raise h.journal (by rw [h.store])⟩
  | note e h =>
      refine ⟨js ++ [e], ha.noted fun m hm => Or.inl ?_⟩
      rwa [e.deliver_note h] at hm
  | reset h hp => exact ⟨js ++ [.reset], ha.begin rfl (by simp [Numbered])⟩
  | overflow n h => exact ⟨js ++ [.overflow], ha.begin rfl (by simp [Numbered])⟩
  | write ms h =>
      refine ⟨js, ha.raise ?_ (by rw [Session.store_sent])⟩
      unfold Session.sent
      split <;> rfl
  | deliver m h hk hn =>
      refine ⟨js ++ [.fromApp m], ha.noted ?_⟩
      intro m' hm
      rcases List.mem_append.1 hm with hm | hm
      · exact Or.inl hm
      · obtain rfl : m' = m := by simpa using hm
        exact Or.inr hn.ge
  | count h => exact ⟨js, ha.raise rfl (Int.lt_succ _).le⟩
  | jump n hlt hk h => exact ⟨js, ha.raise rfl hlt.le⟩
  | lose n hlt h => exact ⟨js, ha.raise rfl hlt.le⟩
  | receivedReset | keep | enqueue | accept | drop => exact ⟨js, ha.raise rfl (le_refl _)⟩

theorem moves_after {a b : Point β} (h : ReflTransGen (Move cfg known fair) a b)
    (ha : After s js a) : ∃ js', After s js' b := by
  induction h with
  | refl => exact ⟨js, ha⟩
  | tail _ hm ih =>
      obtain ⟨js', h⟩ := ih
      exact hm.after h

theorem Safe.run_after {s' : Session β} (hs : Safe cfg s') (ha : After s js (s', none))
    (es : List (Event β)) : ∃ js', After s js' (FixSession.run cfg s' es, none) := by
  induction es generalizing s' js with
  | nil => exact ⟨js, ha⟩
  | cons e es ih =>
      obtain ⟨js', h⟩ := moves_after (hs.moves e) ha
      exact ih (hs.act e) h

end

/-! ### Logouts -/

theorem run_generateLogout (text : Str) (s : Session β) :
    (generateLogout cfg env text).run.run s =
      (.ok (), { (s.kept cfg (fill cfg env s (.logout text))).sent
        [fill cfg env s (.logout text)] with sentLogout := true }) := by
  rfl

/-- The end of the connection after a Logout. -/
theorem run_count_disconnect (hd : cfg.resetOnDisconnect = false) (s : Session β) :
    ∃ s', (do incrNextTargetMsgSeqNum; disconnect cfg : SessionM β Unit).run.run s =
        (.ok (), s') ∧
      (.overflow ∉ s'.journal →
        s'.store.nextTargetMsgSeqNum = s.store.nextTargetMsgSeqNum + 1) ∧
      s'.delivered = s.delivered ∧ Waiting s' := by
  by_cases hmax : s.store.nextTargetMsgSeqNum + 1 < 2 ^ 31
  · obtain ⟨s', hrun, hstore, hdelivered, _, hwaiting⟩ := run_disconnect hd
      (s.counted (s.store.nextTargetMsgSeqNum + 1))
    refine ⟨s', ?_, fun _ => by rw [hstore]; rfl, hdelivered, hwaiting⟩
    rw [run_bind_ok (run_incrNextTargetMsgSeqNum hmax)]
    exact hrun
  · obtain ⟨s', hrun, _, hdelivered, hjournal, hwaiting⟩ := run_disconnect hd
      ((s.noted .overflow).counted (s.store.nextTargetMsgSeqNum + 1 - 2 ^ 32))
    have hover : .overflow ∈ s'.journal :=
      hjournal.subset (List.mem_append_right _ List.mem_cons_self)
    refine ⟨s', ?_, fun h => absurd hover h, hdelivered.trans (s.delivered_noted .overflow),
      hwaiting⟩
    rw [run_bind_ok (run_incrNextTargetMsgSeqNum_overflow hmax)]
    exact hrun

theorem run_nextLogout (h : Admissible cfg env m) {text : Str} (hk : m.kind = .logout text)
    (hadmin : env.fromAdmin m = none) (hlogout : cfg.resetOnLogout = false)
    (hd : cfg.resetOnDisconnect = false) (hl : s.receivedLogon = true) :
    ∃ s', (nextLogout cfg env m).run.run s = (.ok (), s') ∧
      (.overflow ∉ s'.journal →
        s'.store.nextTargetMsgSeqNum = s.store.nextTargetMsgSeqNum + 1) ∧
      s'.delivered = s.delivered ∧ Waiting s' := by
  have hstate : s.validLogonState m.kind = true := by
    simp [hk, Session.validLogonState, hl]
  have hverify := run_verify_unnumbered h hstate (by rw [hk]; rfl) hadmin
  have hnote : (s.shown m).delivered = s.delivered := by
    simp [Session.delivered, Session.shown, Entry.deliver]
  unfold nextLogout
  rw [run_bind_ok hverify]
  simp only [Bool.not_true, Bool.false_eq_true, if_false, run_get_bind, hlogout]
  split
  · rw [run_bind_ok (run_generateLogout _ _)]
    generalize hs₁ : ({ (((s.shown m).kept cfg (fill cfg env (s.shown m) (.logout []))).sent
      [fill cfg env (s.shown m) (.logout [])]) with sentLogout := true } : Session β) = s₁
    have ht : s₁.store.nextTargetMsgSeqNum = s.store.nextTargetMsgSeqNum := by
      rw [← hs₁]
      change (Session.sent _ _).store.nextTargetMsgSeqNum = _
      rw [Session.store_sent]
      rfl
    have hdelivered : s₁.delivered = s.delivered := by
      rw [← hs₁]
      change (Session.sent _ _).delivered = _
      rw [Session.delivered_sent]
      exact hnote
    rw [← ht, ← hdelivered]
    exact run_count_disconnect hd s₁
  · rw [← hnote]
    exact run_count_disconnect hd (s.shown m)

/-- A Logout is counted, whatever its number is. So the message that the session expected when
the Logout came is not delivered any more: also when the Logout came before it, and whatever
happens afterwards, unless a reset or an overflow begins the numbers again. -/
theorem logout_loses {cfg : Settings} (hlogout : cfg.resetOnLogout = false)
    (hd : cfg.resetOnDisconnect = false) {env : Answers β} {m : Message β}
    (h : Admissible cfg env m) {text : Str} (hk : m.kind = .logout text)
    (hadmin : env.fromAdmin m = none) {es : List (Event β)}
    (hl : (run cfg (Session.new cfg .empty) es).receivedLogon = true) (es' : List (Event β)) :
    let s := run cfg (Session.new cfg .empty) es
    let s' := run cfg s (.receive env m :: es')
    ∃ js, s'.journal = s.journal ++ js ∧
      (.reset ∉ js → .overflow ∉ s'.journal → ∀ m' ∈ s'.delivered,
        m'.header.msgSeqNum ≠ s.store.nextTargetMsgSeqNum) := by
  intro s s'
  have hsafe : Safe cfg s := (Safe.new cfg).run es
  obtain ⟨s₁, hrun, htarget, hdelivered, hwaiting⟩ := run_nextLogout h hk hadmin hlogout hd hl
  have hdispatch : (dispatch cfg env (nextQueued cfg env env.fuel) m).run.run s =
      (.ok true, s₁) := by
    unfold dispatch nextAdmin
    simp only [hk, Kind.isAdminMsgType, if_true]
    rw [run_bind_ok hrun]
    rfl
  have hact : act cfg s (.receive env m) = s₁ := by
    simp only [act, handle, run_receive h true hdispatch hwaiting.queue hwaiting.receivedLogon]
  obtain ⟨js₁, h₁⟩ := moves_after (hsafe.moves (.receive env m)) (After.refl s)
  obtain ⟨js₂, h₂⟩ := (hsafe.act (.receive env m)).run_after (After.refl _) es'
  have hjournal : s'.journal = s.journal ++ (js₁ ++ js₂) := by
    rw [← List.append_assoc, ← h₁.journal]
    exact h₂.journal
  refine ⟨js₁ ++ js₂, hjournal, ?_⟩
  intro hreset hend m' hm'
  rw [hjournal] at hend
  have hstart : .overflow ∉ s.journal := fun h => hend (List.mem_append_left _ h)
  have hnumbered : Numbered (js₁ ++ js₂) :=
    ⟨hreset, fun h => hend (List.mem_append_right _ h)⟩
  have hmiddle : .overflow ∉ s₁.journal := by
    rw [← hact, h₁.journal]
    exact fun h => (List.mem_append.1 h).elim hstart hnumbered.left.2
  have hd₂ := h₂.delivered hnumbered.right m' hm'
  rw [hact] at hd₂
  rcases hd₂ with hm | hle
  · rw [hdelivered] at hm
    exact ((hsafe.delivers hstart).inOrder.below m' hm).ne
  · have htarget : s₁.store.nextTargetMsgSeqNum = s.store.nextTargetMsgSeqNum + 1 :=
      htarget hmiddle
    omega

/-- The client logs on, and its second message comes after a Logout with number five: too late,
also on a new connection. -/
theorem second_message_is_lost :
    let s := run (ends false) (Session.new (ends false) .empty)
      [.setResponder { now := 0 } true, .receive { now := 0 } (fromEnd true 1
        (.logon 30 false none none))]
    let s' := run (ends false) s
      [.receive { now := 0 } (fromEnd true 5 (.logout [])), .setResponder { now := 0 } true,
        .receive { now := 0 } (fromEnd true 6 (.logon 30 false none none)),
        .receive { now := 0 } (resent { now := 0 } (fromEnd true 2 (.app 5)))]
    ∀ m ∈ s'.delivered, m.header.msgSeqNum ≠ 2 := by
  intro s s'
  have hreset : .reset ∉ s'.journal := by
    decide +kernel
  have hend : .overflow ∉ s'.journal := by
    decide +kernel
  have htarget : s.store.nextTargetMsgSeqNum = 2 := by
    decide +kernel
  have hl : s.receivedLogon = true := by
    decide +kernel
  have hm : Admissible (ends false) ({ now := 0 } : Answers ℕ) (fromEnd true 5 (.logout [])) :=
    ⟨rfl, rfl, rfl, rfl, rfl, rfl⟩
  obtain ⟨js, hjs, hlost⟩ := logout_loses rfl rfl hm rfl rfl hl
    [.setResponder { now := 0 } true,
      .receive { now := 0 } (fromEnd true 6 (.logon 30 false none none)),
      .receive { now := 0 } (resent { now := 0 } (fromEnd true 2 (.app 5)))]
  rw [← htarget]
  refine hlost (fun h => hreset ?_) hend
  rw [show s'.journal = _ from hjs]
  exact List.mem_append_right _ h

/-! ### Requests -/

theorem moves_wire {known : Message β → Prop} {fair : Prop} {a b : Point β}
    (h : ReflTransGen (Move cfg known fair) a b) : a.1.wire <+: b.1.wire := by
  induction h with
  | refl => exact List.prefix_rfl
  | tail _ hm ih => exact ih.trans hm.wire_prefix

theorem run_receive_after (h : Admissible cfg env m) {s' : Session β}
    (hrun : (dispatch cfg env (nextQueued cfg env env.fuel) m).run.run s = (.ok true, s')) :
    (receive cfg env m).run.run s = (afterMessage cfg env m).run.run s' := by
  have htry : (tryNext cfg env (nextQueued cfg env env.fuel) m).run.run s = (.ok true, s') := by
    unfold tryNext
    simp only [h.beginString, h.validate, ne_eq, not_true_eq_false, if_false]
    exact hrun
  unfold receive nextMessage
  simp only [h.sessionTime, Bool.not_true, Bool.false_eq_true, if_false, Bool.not_false, if_true]
  rw [run_bind_ok (run_tryCatch htry)]
  rfl

/-- What was written up to then stays written. -/
theorem wire_afterMessage (hs : Sound cfg (fun _ => True) False (s, none)) :
    s.wire <+: ((afterMessage cfg env m).run.run s).2.wire := by
  let c : Course β :=
    ⟨cfg, env, fun _ => True, False, s, False.elim, False.elim, False.elim, hs⟩
  have hrun := Course.run_of_triple (Course.afterMessage_at (c := c) (m := m)) .refl
  split at hrun
  · rename_i heq
    rw [heq]
    exact moves_wire hrun
  · rename_i heq
    rw [heq]
    exact moves_wire hrun.1

theorem run_incrNextTargetMsgSeqNum_wire (s : Session β) :
    ∃ s', (incrNextTargetMsgSeqNum : SessionM β Unit).run.run s = (.ok (), s') ∧
      s'.wire = s.wire := by
  by_cases hmax : s.store.nextTargetMsgSeqNum + 1 < 2 ^ 31
  · exact ⟨_, run_incrNextTargetMsgSeqNum hmax, rfl⟩
  · exact ⟨_, run_incrNextTargetMsgSeqNum_overflow hmax, rfl⟩

/-- A request that `verify` lets through: the answer is written next. -/
theorem run_nextResendRequest
    (hverify : (verify cfg env m false false).run.run s = (.ok true, s.shown m))
    (hconnected : s.connected = true) {beginSeqNo : ℤ} (hb : beginSeqNo ≠ 0) (endSeqNo : ℤ) :
    ∃ s', (nextResendRequest cfg env m beginSeqNo endSeqNo).run.run s = (.ok (), s') ∧
      s'.wire = s.wire ++ answer cfg env s.store beginSeqNo endSeqNo := by
  have hsent : (resendMessages cfg env beginSeqNo endSeqNo).run.run (s.shown m) =
      (.ok (), (s.shown m).sent (answer cfg env s.store beginSeqNo endSeqNo)) :=
    run_resendMessages hb endSeqNo (s.shown m)
  have hwire : ((s.shown m).sent (answer cfg env s.store beginSeqNo endSeqNo)).wire =
      s.wire ++ answer cfg env s.store beginSeqNo endSeqNo := by
    unfold Session.sent
    rw [if_pos (show (s.shown m).connected = true from hconnected)]
    rfl
  unfold nextResendRequest
  rw [run_bind_ok hverify]
  simp only [Bool.not_true, Bool.false_eq_true, if_false]
  rw [run_bind_ok hsent, run_get_bind]
  split
  · obtain ⟨s', hrun, hw⟩ := run_incrNextTargetMsgSeqNum_wire
      ((s.shown m).sent (answer cfg env s.store beginSeqNo endSeqNo))
    exact ⟨s', hrun, hw.trans hwire⟩
  · exact ⟨_, rfl, hwire⟩

/-- A session that keeps its messages answers a request that it lets through with messages that
cover what was asked for, and writes them before anything else. -/
theorem request_is_answered {cfg : Settings} (hp : cfg.persistMessages = true)
    (es : List (Event β)) {env : Answers β} {m : Message β} (h : Admissible cfg env m)
    {beginSeqNo endSeqNo : ℤ} (hk : m.kind = .resendRequest beginSeqNo endSeqNo)
    (hadmin : env.fromAdmin m = none) (hb : 1 ≤ beginSeqNo) :
    let s := run cfg (Session.new cfg .empty) es
    s.validLogonState m.kind = true → s.connected = true →
      beginSeqNo ≤ s.store.lastRequested endSeqNo →
      ∃ out, Covers cfg env s.store beginSeqNo (s.store.lastRequested endSeqNo + 1) out ∧
        s.wire ++ out <+: (act cfg s (.receive env m)).wire := by
  intro s hstate hconnected hle
  have hsound : Sound cfg (fun _ => True) False (s, none) := ((Safe.new cfg).run es).sound
  refine ⟨_, answer_covers (hsound.kept hp) hp hb hle, ?_⟩
  have hverify := run_verify_unnumbered h hstate (by rw [hk]; rfl) hadmin
  obtain ⟨s', hrun, hwire⟩ :=
    run_nextResendRequest hverify hconnected (show beginSeqNo ≠ 0 by omega) endSeqNo
  have hdispatch : (dispatch cfg env (nextQueued cfg env env.fuel) m).run.run s =
      (.ok true, s') := by
    unfold dispatch nextAdmin
    simp only [hk, Kind.isAdminMsgType, if_true]
    rw [run_bind_ok hrun]
    rfl
  have hsound' : Sound cfg (fun _ => True) False (s', none) := by
    let c : Course β :=
      ⟨cfg, env, fun _ => True, False, s, False.elim, False.elim, False.elim, hsound⟩
    have hat := Course.run_of_triple (Course.nextResendRequest_at (c := c) trivial hk) ⟨.refl, rfl⟩
    rw [hrun] at hat
    exact hat.sound
  rw [← hwire]
  unfold act
  change s'.wire <+: ((receive cfg env m).run.run s).2.wire
  rw [run_receive_after h hdispatch]
  exact wire_afterMessage hsound'

end ForexSuite.FixSession
