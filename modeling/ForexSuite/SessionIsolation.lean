import ForexSuite.PriceServer

/-!
# What one session sees of the others

Neither map belongs to a session and everything is sent to the session created
last. So that session is the only one that receives anything, and it receives
what the events of all sessions together cause. It cannot tell that the other
sessions are there as long as their events change no map and are not rejected;
`Unnoticed` says which events these are.
-/
namespace ForexSuite.SessionIsolation

open TextNumbers EventMachine PriceServer Application

/-- The session whose counterparty causes an event. The server itself creates the sessions,
and ticks come from the platform. -/
def origin : Event → Option SessionID
  | .create _ => none
  | .logon s => some s
  | .logout s => some s
  | .request s _ _ => some s
  | .tick _ _ => none

def deleteOthers (s : SessionID) (events : List Event) : List Event :=
  events.filter fun e => origin e = none ∨ origin e = some s

/-- What a session receives during a run, with the session it is addressed to. -/
def received (s : SessionID) (outcomes : List Outcome) : List Sent :=
  outcomes.flatMap fun o => o.sent.filter fun m => m.target = s

/-- The request lacks a field read before the loop, is of neither type, or its loop ends
before a symbol has been read. -/
def AsksNothing (message : MarketDataRequest) : Prop :=
  MissesField message ∨
    (message.subscriptionRequestType ≠ some snapshotPlusUpdates ∧
      message.subscriptionRequestType ≠ some disablePrevious) ∨
    message.noRelatedSym.getD 0 ≤ 0 ∨ ∀ g ∈ message.groups.head?, g.symbol = none

/-- An event of a session other than `s` changes no map and is not rejected. -/
def Unnoticed (s : SessionID) (app : Application) : Event → Prop
  | .create _ => True
  | .logon t => t ≠ s → app.symSub = ∅
  | .logout t => t ≠ s → app.symSub = ∅ ∧ app.symMDReqID = ∅
  | .request t message _ => t ≠ s → AsksNothing message
  | .tick _ _ => True

variable {conv : Conversions} {symbolGet : Text → Bool} {app : Application}

theorem symbolLoop_of_other_type {type : Char} (h₁ : type ≠ snapshotPlusUpdates)
    (h₂ : type ≠ disablePrevious) (id : Str) (n : ℕ) (groups : List NoRelatedSymGroup)
    (app : Application) :
    (symbolLoop conv symbolGet type id n groups app).1 = app ∧
      (symbolLoop conv symbolGet type id n groups app).2.sent = [] := by
  fun_induction symbolLoop conv symbolGet type id n groups app with
  | case1 => exact ⟨rfl, rfl⟩
  | case2 => exact ⟨rfl, rfl⟩
  | case3 => exact ⟨rfl, rfl⟩
  | case4 n g groups app s hg app' text hh => simp [handleSymbol, h₁, h₂] at hh
  | case5 n g groups app s hg app' hh ih =>
      obtain rfl : app = app' := by simpa [handleSymbol, h₁, h₂] using hh
      exact ih

theorem onMessage_of_asksNothing {message : MarketDataRequest} (h : AsksNothing message)
    (app : Application) :
    (app.onMessage conv symbolGet message).1 = app ∧
      (app.onMessage conv symbolGet message).2.sent = [] := by
  obtain ⟨-, tag, hr⟩ | ⟨hmiss, type, id, depth, count, htype, -, -, hcount, hr⟩ :=
    onMessage_cases conv symbolGet message app
  · rw [hr]
    exact ⟨rfl, rfl⟩
  · rw [hr]
    rcases h with h | ⟨h₁, h₂⟩ | h | h
    · exact absurd h hmiss
    · rw [htype, Ne, Option.some.injEq] at h₁ h₂
      exact symbolLoop_of_other_type h₁ h₂ id _ _ app
    · rw [hcount, Option.getD_some] at h
      rw [Int.toNat_of_nonpos h]
      exact ⟨rfl, rfl⟩
    · rcases hn : count.toNat with _ | n
      · exact ⟨rfl, rfl⟩
      rcases hg : message.groups with _ | ⟨g, groups⟩
      · exact ⟨rfl, rfl⟩
      · have hsym : g.symbol = none := h g (by simp [hg])
        simp [symbolLoop, hsym]

theorem step_of_unnoticed (conv : Conversions) {s : SessionID} {e : Event} (h : Unnoticed s app e)
    (hother : ¬ (origin e = none ∨ origin e = some s)) :
    (step conv app e).1 = app ∧ (step conv app e).2.sent = [] := by
  cases e with
  | create t => exact absurd (Or.inl rfl) hother
  | logon t =>
      have hsub : app.symSub = ∅ := h (by simpa [origin] using hother)
      exact ⟨by simp [step, onLogon, ← hsub], rfl⟩
  | logout t =>
      obtain ⟨hsub, hid⟩ := h (by simpa [origin] using hother)
      refine ⟨?_, rfl⟩
      rw [step, onLogout, ← hsub, ← hid]
  | request t message symbolGet =>
      exact onMessage_of_asksNothing (h (by simpa [origin] using hother)) app
  | tick symbol tick => exact absurd (Or.inl rfl) hother

theorem symbolLoop_target (type : Char) (id : Str) (n : ℕ) (groups : List NoRelatedSymGroup)
    (app : Application) :
    ∀ m ∈ (symbolLoop conv symbolGet type id n groups app).2.sent, m.target = app.appSessionID := by
  fun_induction symbolLoop conv symbolGet type id n groups app with
  | case1 => simp
  | case2 => simp
  | case3 => simp
  | case4 n g groups app s hg app' text hh =>
      have hsession := app.handleSymbol_appSessionID type id s (symbolGet (conv.s2ws s))
      rw [hh] at hsession
      simpa [sendMarketDataRequestReject] using hsession
  | case5 n g groups app s hg app' hh ih =>
      have hsession := app.handleSymbol_appSessionID type id s (symbolGet (conv.s2ws s))
      rw [hh] at hsession
      rwa [hsession] at ih

theorem step_target (app : Application) (e : Event) :
    ∀ m ∈ (step conv app e).2.sent, m.target = app.appSessionID := by
  cases e with
  | create t => simp [step]
  | logon t => simp [step]
  | logout t => simp [step]
  | request t message symbolGet =>
      obtain ⟨-, tag, hr⟩ | ⟨-, type, id, depth, count, -, -, -, -, hr⟩ :=
        onMessage_cases conv symbolGet message app
      · simp [step, hr]
      · rw [step, hr]
        exact symbolLoop_target type id count.toNat message.groups app
  | tick symbol tick =>
      rw [step, onTick_eq]
      split <;> simp

theorem step_appSessionID {e : Event} (hcreate : ∀ t, e ≠ .create t) (app : Application) :
    (step conv app e).1.appSessionID = app.appSessionID := by
  cases e with
  | create t => exact absurd rfl (hcreate t)
  | logon t => rfl
  | logout t => rfl
  | request t message symbolGet => exact onMessage_appSessionID conv symbolGet message app
  | tick symbol tick => rfl

theorem trace_target (app : Application) {events : List Event}
    (hcreate : ∀ e ∈ events, ∀ t, e ≠ .create t) :
    ∀ o ∈ trace (step conv) app events, ∀ m ∈ o.sent, m.target = app.appSessionID := by
  induction events generalizing app with
  | nil => simp
  | cons e events ih =>
      intro o ho
      rcases List.mem_cons.mp ho with rfl | ho
      · exact step_target app e
      · have hrest := ih (step conv app e).1 (fun e he => hcreate e (by simp [he])) o ho
        rwa [step_appSessionID (hcreate e (by simp))] at hrest

theorem received_eq_nil {s : SessionID} {outcomes : List Outcome}
    (h : ∀ o ∈ outcomes, ∀ m ∈ o.sent, m.target ≠ s) : received s outcomes = [] := by
  rw [received, List.flatMap_eq_nil_iff]
  intro o ho
  rw [List.filter_eq_nil_iff]
  intro m hm
  simpa using h o ho m hm

/-- The sessions are created, `last` as the last one, and then act in any order. Every
message goes to `last`. Every other session receives the same as when it is alone, which
is nothing, and `last` receives the same as when it is alone if the events of the other
sessions are unnoticed when they arrive. -/
theorem receives_as_if_alone (conv : Conversions) (sessions : List SessionID) (last : SessionID)
    (events : List Event) (hcreate : ∀ e ∈ events, ∀ t, e ≠ .create t) :
    let app := withSessions (sessions ++ [last])
    (∀ o ∈ trace (step conv) app events, ∀ m ∈ o.sent, m.target = last) ∧
      ∀ s, (s = last → Along (step conv) (Unnoticed s) app events) →
        received s (trace (step conv) app events) =
          received s (trace (step conv) app (deleteOthers s events)) := by
  intro app
  have htarget {events : List Event} (hcreate : ∀ e ∈ events, ∀ t, e ≠ .create t) :
      ∀ o ∈ trace (step conv) app events, ∀ m ∈ o.sent, m.target = last := by
    intro o ho m hm
    rw [trace_target app hcreate o ho m hm, withSessions_appSessionID]
  refine ⟨htarget hcreate, fun s hs => ?_⟩
  by_cases hlast : s = last
  · refine Along.flatMap_trace_filter ((hs hlast).mono fun app e he hother => ?_)
    obtain ⟨hstate, hsent⟩ := step_of_unnoticed conv he (by simpa using hother)
    exact ⟨hstate, by rw [hsent, List.filter_nil]⟩
  · have hne {events : List Event} (hcreate : ∀ e ∈ events, ∀ t, e ≠ .create t) :
        received s (trace (step conv) app events) = [] :=
      received_eq_nil fun o ho m hm hms => hlast (hms ▸ htarget hcreate o ho m hm)
    rw [hne hcreate, deleteOthers, hne fun e he => hcreate e (List.mem_of_mem_filter he)]

theorem receives_as_if_alone_run :
    let a : SessionID := ⟨ascii "FIX.4.4", ascii "SRV", ascii "A", []⟩
    let b : SessionID := ⟨ascii "FIX.4.4", ascii "SRV", ascii "B", []⟩
    let app := withSessions [a, b]
    let events : List Event := [.logon a, .logout a, .logon b,
      .request b (.ofSymbols '1' (ascii "1") [ascii "EURUSD"]) fun _ => true,
      .tick "EURUSD".toList ⟨1, 2⟩]
    received b (trace (step asciiConversions) app events) =
        received b (trace (step asciiConversions) app (deleteOthers b events)) ∧
      (received b (trace (step asciiConversions) app events)).length = 1 := by
  intro a b app events
  refine ⟨(receives_as_if_alone asciiConversions [a] b events ?_).2 b fun _ => ?_, by decide⟩
  · simp [events]
  · exact ⟨fun _ => rfl, fun _ => ⟨rfl, rfl⟩, fun h => absurd rfl h, fun h => absurd rfl h,
      trivial, trivial⟩

/-- The session created last is sent the quotes another session has asked for. -/
theorem receives_quotes_of_other :
    let a : SessionID := ⟨ascii "FIX.4.4", ascii "SRV", ascii "A", []⟩
    let b : SessionID := ⟨ascii "FIX.4.4", ascii "SRV", ascii "B", []⟩
    let app := withSessions [a, b]
    let events : List Event := [.logon a, .logon b,
      .request a (.ofSymbols '1' (ascii "1") [ascii "EURUSD"]) fun _ => true,
      .tick "EURUSD".toList ⟨1, 2⟩]
    received b (trace (step asciiConversions) app events) =
        [⟨b, snapshot (ascii "1") (ascii "EURUSD") ⟨1, 2⟩⟩] ∧
      received b (trace (step asciiConversions) app (deleteOthers b events)) = [] := by
  decide

end ForexSuite.SessionIsolation
