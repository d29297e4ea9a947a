import ForexSuite.RejectAtomicity

/-!
# Which request id a quote carries

`Ledger` records what a subscriber can tell from the answers it gets: for every
symbol, the id of the accepted request that subscribed it, until an accepted
unsubscription, a logon or a logout ends the subscription. A rejected request
leaves the ledger alone, while the server has then overwritten ids already. The
ids of the server agree with the ledger in a run without such a request.
-/
namespace ForexSuite.QuoteRequestIds

open TextNumbers EventMachine MapValues PriceServer Application RejectAtomicity

/-- The id of the accepted request to which each subscribed symbol belongs. -/
abbrev Ledger := Finmap (fun _ : Str => Str)

def symbolsOf (n : ℕ) (groups : List NoRelatedSymGroup) : List Str :=
  (groups.take n).filterMap NoRelatedSymGroup.symbol

def recordSymbol (type : Char) (id : Str) (cur : Ledger) (s : Str) : Ledger :=
  if type = snapshotPlusUpdates then cur.insert s id
  else if type = disablePrevious then cur.erase s
  else cur

/-- An accepted request enters its symbols under its id, or removes them. -/
def record (message : MarketDataRequest) (cur : Ledger) : Ledger :=
  (symbolsOf (message.noRelatedSym.getD 0).toNat message.groups).foldl
    (recordSymbol (message.subscriptionRequestType.getD '0') (message.mdReqID.getD [])) cur

def ledgerStep (cur : Ledger) (o : Outcome) : Event → Ledger
  | .create _ => cur
  | .logon _ => ∅
  | .logout _ => ∅
  | .request _ message _ => if rejectedIDs o = [] ∧ o.thrown = none then record message cur else cur
  | .tick _ _ => cur

/-- The server with the ledger beside it. The ledger is never read. -/
def observedStep (conv : Conversions) (s : Application × Ledger) (e : Event) :
    (Application × Ledger) × Outcome :=
  let r := step conv s.1 e
  ((r.1, ledgerStep s.2 r.2 e), r.2)

/-- Every symbol that a subscribe request reaches, because the groups before it pass the
checks, has the id of the request already. -/
def ReachedKeepIds (conv : Conversions) (symbolGet : Text → Bool) (id : Str) (n : ℕ)
    (groups : List NoRelatedSymGroup) (app : Application) : Prop :=
  ∀ k < n, GoesThrough conv symbolGet snapshotPlusUpdates k groups app →
    ∀ s, groups[k]? = some ⟨some s⟩ → app.symMDReqID.lookup s = some id

/-- The events that cannot make a rejected or ended request the id of a quote: a logon when
no id is held, and a subscribe request that passes every check or would overwrite nothing. -/
def KeepsIds (conv : Conversions) (s : Application × Ledger) : Event → Prop
  | .logon _ => s.1.symMDReqID = ∅
  | .request _ message symbolGet =>
      message.subscriptionRequestType = some snapshotPlusUpdates →
        ∀ id ∈ message.mdReqID, message.marketDepth.isSome → ∀ count ∈ message.noRelatedSym,
          GoesThrough conv symbolGet snapshotPlusUpdates count.toNat message.groups s.1 ∨
            ReachedKeepIds conv symbolGet id count.toNat message.groups s.1
  | _ => True

def Agrees (ids cur : Ledger) : Prop := ∀ s id, ids.lookup s = some id → cur.lookup s = some id

variable {conv : Conversions} {symbolGet : Text → Bool} {ids cur : Ledger}

theorem agrees_empty (cur : Ledger) : Agrees ∅ cur := by
  intro s id h
  simp at h

theorem Agrees.insert (h : Agrees ids cur) (s id : Str) :
    Agrees (ids.insert s id) (cur.insert s id) := by
  intro t id' hid
  by_cases hts : t = s
  · subst hts
    rwa [Finmap.lookup_insert] at hid ⊢
  · rw [Finmap.lookup_insert_of_ne _ hts] at hid ⊢
    exact h t id' hid

theorem Agrees.erase_left (h : Agrees ids cur) (s : Str) : Agrees (ids.erase s) cur := by
  intro t id' hid
  by_cases hts : t = s
  · subst hts
    simp at hid
  · rw [Finmap.lookup_erase_ne hts] at hid
    exact h t id' hid

theorem Agrees.erase (h : Agrees ids cur) (s : Str) : Agrees (ids.erase s) (cur.erase s) := by
  intro t id' hid
  by_cases hts : t = s
  · subst hts
    simp at hid
  · rw [Finmap.lookup_erase_ne hts] at hid ⊢
    exact h t id' hid

theorem handleSymbol_symMDReqID (app : Application) (type : Char) (id s : Str) (b : Bool) :
    (app.handleSymbol type id s b).1.symMDReqID = recordSymbol type id app.symMDReqID s := by
  unfold handleSymbol recordSymbol
  split_ifs
  · exact subscribe_symMDReqID app id s b
  · exact unsubscribe_symMDReqID app s b
  · rfl

theorem symMDReqID_of_handled {type : Char} {id s : Str} {b : Bool} {app app' : Application}
    {r : Option Str} (h : app.handleSymbol type id s b = (app', r)) :
    app'.symMDReqID = recordSymbol type id app.symMDReqID s := by
  rw [← handleSymbol_symMDReqID app type id s b, h]

theorem Agrees.recordSymbol (h : Agrees ids cur) (type : Char) (id s : Str) :
    Agrees (recordSymbol type id ids s) (recordSymbol type id cur s) := by
  unfold QuoteRequestIds.recordSymbol
  split_ifs
  · exact h.insert s id
  · exact h.erase s
  · exact h

theorem ledgerStep_of_failed (cur : Ledger) (sessionID : SessionID) (message : MarketDataRequest)
    (symbolGet : Text → Bool) {o : Outcome} (h : Failed o) :
    ledgerStep cur o (.request sessionID message symbolGet) = cur := by
  rw [ledgerStep, if_neg]
  intro hok
  rcases h with h | h
  · exact h hok.1
  · simp [hok.2] at h

theorem ledgerStep_of_not_failed (cur : Ledger) (sessionID : SessionID)
    (message : MarketDataRequest) (symbolGet : Text → Bool) {o : Outcome} (h : ¬ Failed o) :
    ledgerStep cur o (.request sessionID message symbolGet) = record message cur := by
  rw [ledgerStep, if_pos]
  simpa [Failed, not_or] using h

/-- A request that is accepted does to the ids what the ledger records. -/
theorem symbolLoop_agrees {type : Char} {id : Str} (n : ℕ) (groups : List NoRelatedSymGroup)
    (app : Application) (h : Agrees app.symMDReqID cur)
    (hok : ¬ Failed (symbolLoop conv symbolGet type id n groups app).2) :
    Agrees (symbolLoop conv symbolGet type id n groups app).1.symMDReqID
      ((symbolsOf n groups).foldl (recordSymbol type id) cur) := by
  fun_induction symbolLoop conv symbolGet type id n groups app generalizing cur with
  | case1 groups app => simpa [symbolsOf] using h
  | case2 n app => simp at hok
  | case3 n g groups app hg => simp at hok
  | case4 n g groups app s hg app' text hh => simp at hok
  | case5 n g groups app s hg app' hh ih =>
      have hstep := h.recordSymbol type id s
      rw [← symMDReqID_of_handled hh] at hstep
      simpa [symbolsOf, hg] using ih hstep hok

theorem symbolLoop_agrees_unsubscribe {type id : _} (ht : type ≠ snapshotPlusUpdates) (n : ℕ)
    (groups : List NoRelatedSymGroup) (app : Application) (h : Agrees app.symMDReqID cur) :
    Agrees (symbolLoop conv symbolGet type id n groups app).1.symMDReqID cur := by
  have hone (app : Application) (s : Str) (b : Bool) (h : Agrees app.symMDReqID cur) :
      Agrees (app.handleSymbol type id s b).1.symMDReqID cur := by
    rw [handleSymbol_symMDReqID, recordSymbol, if_neg ht]
    split_ifs
    · exact h.erase_left s
    · exact h
  fun_induction symbolLoop conv symbolGet type id n groups app with
  | case1 => exact h
  | case2 => exact h
  | case3 => exact h
  | case4 n g groups app s hg app' text hh =>
      have hs := hone app s (symbolGet (conv.s2ws s)) h
      rwa [hh] at hs
  | case5 n g groups app s hg app' hh ih =>
      have hs := hone app s (symbolGet (conv.s2ws s)) h
      rw [hh] at hs
      exact ih hs

/-- A subscribe request whose reached symbols have its id already overwrites nothing. -/
theorem symbolLoop_keeps_ids {id : Str} (n : ℕ) (groups : List NoRelatedSymGroup)
    (app : Application) (h : ReachedKeepIds conv symbolGet id n groups app) :
    (symbolLoop conv symbolGet snapshotPlusUpdates id n groups app).1.symMDReqID =
      app.symMDReqID := by
  have hhead {n : ℕ} {g : NoRelatedSymGroup} {groups : List NoRelatedSymGroup}
      {app app' : Application} {s : Str} {r : Option Str} (hg : g.symbol = some s)
      (hh : app.handleSymbol snapshotPlusUpdates id s (symbolGet (conv.s2ws s)) = (app', r))
      (h : ReachedKeepIds conv symbolGet id (n + 1) (g :: groups) app) :
      app'.symMDReqID = app.symMDReqID := by
    have hlookup : app.symMDReqID.lookup s = some id := by
      refine h 0 (Nat.succ_pos n) ⟨[], rfl, rfl, ?_⟩ s ?_
      · simp [Acceptable]
      · simp [← hg]
    rw [symMDReqID_of_handled hh]
    exact insert_of_lookup hlookup
  fun_induction symbolLoop conv symbolGet snapshotPlusUpdates id n groups app with
  | case1 => rfl
  | case2 => rfl
  | case3 => rfl
  | case4 n g groups app s hg app' text hh => exact hhead hg hh h
  | case5 n g groups app s hg app' hh ih =>
      have hsame := hhead hg hh h
      rw [ih, hsame]
      intro k hk hgo t ht
      rw [hsame]
      refine h (k + 1) (by omega) ?_ t (by simpa using ht)
      exact (goesThrough_cons id).mpr ⟨s, hg, not_stops_of_accept hh, by rwa [hh]⟩

theorem onMessage_agrees {sessionID : SessionID} {message : MarketDataRequest} {app : Application}
    (h : Agrees app.symMDReqID cur)
    (hk : KeepsIds conv (app, cur) (.request sessionID message symbolGet)) :
    Agrees (app.onMessage conv symbolGet message).1.symMDReqID
      (ledgerStep cur (app.onMessage conv symbolGet message).2
        (.request sessionID message symbolGet)) := by
  obtain ⟨-, tag, hr⟩ | ⟨-, type, id, depth, count, htype, hid, hdepth, hcount, hr⟩ :=
    onMessage_cases conv symbolGet message app
  · simpa [hr, ledgerStep] using h
  · rw [hr]
    by_cases hok : Failed (symbolLoop conv symbolGet type id count.toNat message.groups app).2
    · rw [ledgerStep_of_failed cur sessionID message symbolGet hok]
      by_cases ht : type = snapshotPlusUpdates
      · subst ht
        have hreach := hk htype id hid (by simp [hdepth]) count hcount
        rw [goesThrough_iff conv symbolGet snapshotPlusUpdates id] at hreach
        rw [symbolLoop_keeps_ids _ _ _ (hreach.resolve_left fun hgo => hgo hok)]
        exact h
      · exact symbolLoop_agrees_unsubscribe ht _ _ _ h
    · rw [ledgerStep_of_not_failed cur sessionID message symbolGet hok, record, htype, hid, hcount]
      exact symbolLoop_agrees _ _ _ h hok

theorem observedStep_agrees (s : Application × Ledger) (e : Event)
    (h : Agrees s.1.symMDReqID s.2) (hk : KeepsIds conv s e) :
    Agrees (observedStep conv s e).1.1.symMDReqID (observedStep conv s e).1.2 := by
  cases e with
  | create sessionID => exact h
  | logon sessionID =>
      rw [observedStep, step, onLogon_symMDReqID, hk]
      exact agrees_empty _
  | logout sessionID => exact agrees_empty _
  | request sessionID message symbolGet => exact onMessage_agrees h hk
  | tick symbol tick => exact h

/-- In a run of events that keep the ids, started with no session and no subscription,
every snapshot carries the id of the accepted request to which its symbol belongs. -/
theorem quotes_carry_accepted_id (conv : Conversions) (events : List Event)
    (h : Along (observedStep conv) (KeepsIds conv) (Application.new, ∅) events)
    (symbol : Text) (tick : MTTickShort) :
    let s := run (observedStep conv) (Application.new, ∅) events
    ∀ sent ∈ (s.1.onTick conv symbol tick).sent, ∃ id,
      sent.message = snapshot id (conv.narrow symbol) tick ∧
        s.2.lookup (conv.narrow symbol) = some id := by
  intro s sent hsent
  have hagree : Agrees s.1.symMDReqID s.2 :=
    h.invariant (fun s => Agrees s.1.symMDReqID s.2)
      (fun s e hs hk => observedStep_agrees s e hs hk) (agrees_empty _)
  rw [onTick_eq] at hsent
  rcases hid : s.1.symMDReqID.lookup (conv.narrow symbol) with _ | id
  · simp [hid] at hsent
  · rw [hid, List.mem_singleton] at hsent
    exact ⟨id, by rw [hsent], hagree _ id hid⟩

theorem quotes_carry_accepted_id_run :
    let eurusd := ascii "EURUSD"
    let subscribe : Event := .request default (.ofSymbols '1' (ascii "A") [eurusd]) fun _ => true
    let s := run (observedStep asciiConversions) (Application.new, ∅)
      [.logon default, subscribe, subscribe]
    ∀ sent ∈ (s.1.onTick asciiConversions "EURUSD".toList ⟨1, 2⟩).sent, ∃ id,
      sent.message = snapshot id eurusd ⟨1, 2⟩ ∧ s.2.lookup eurusd = some id := by
  intro eurusd subscribe s
  refine quotes_carry_accepted_id asciiConversions [.logon default, subscribe, subscribe]
    ⟨rfl, ?_, ?_, trivial⟩ "EURUSD".toList ⟨1, 2⟩
  · intro _ id _ _ count hcount
    cases hcount
    exact Or.inl ⟨[eurusd], rfl, rfl, by unfold Acceptable; decide⟩
  · intro _ id hid _ count hcount
    cases hid
    cases hcount
    refine Or.inr fun k hk _ t ht => ?_
    obtain rfl : k = 0 := by simpa using hk
    obtain rfl : eurusd = t := by simpa [MarketDataRequest.ofSymbols] using ht
    decide

/-- A duplicate subscribe is rejected, and the next quote carries its id. -/
theorem quote_carries_rejected_id :
    let eurusd := ascii "EURUSD"
    let subscribe id : Event := .request default (.ofSymbols '1' (ascii id) [eurusd]) fun _ => true
    let s := run (observedStep asciiConversions) (Application.new, ∅)
      [.logon default, subscribe "A", subscribe "B"]
    trace (observedStep asciiConversions) (Application.new, ∅)
        [.logon default, subscribe "A", subscribe "B", .tick "EURUSD".toList ⟨1, 2⟩] =
      [{}, {}, { sent := [s.1.sendMarketDataRequestReject (ascii "B") alreadySubscribed] },
        { sent := [⟨default, snapshot (ascii "B") eurusd ⟨1, 2⟩⟩] }] ∧
      s.2.lookup eurusd = some (ascii "A") := by
  decide

end ForexSuite.QuoteRequestIds
