import ForexSuite.MapValues
import ForexSuite.PriceServer

/-!
# When a rejected request leaves the maps alone

The request loop writes before it checks, so a request can be rejected, or left
by an exception at a later group, after one of the maps has changed. `Idle` says
that handling a symbol changes neither map. It is also what holds after a symbol
has been handled, and handling further symbols of the same request keeps it.
Hence the maps are the same at the end only if every symbol handled was idle at
the start, which gives the exact condition of `onMessage_atomic_iff`.
-/
namespace ForexSuite.RejectAtomicity

open TextNumbers MapValues PriceServer Application

variable {conv : Conversions} {symbolGet : Text → Bool}

/-- Handling the symbol changes neither map: its id is recorded and it is subscribed, or,
to unsubscribe, it is in neither map. A symbol that does not exist is not looked up. -/
def Idle (type : Char) (id sym : Str) (isSymbolExist : Bool) (app : Application) : Prop :=
  if type = snapshotPlusUpdates then
    app.symMDReqID.lookup sym = some id ∧ (isSymbolExist = true → sym ∈ app.symSub)
  else if type = disablePrevious then
    sym ∉ app.symMDReqID ∧ (isSymbolExist = true → sym ∉ app.symSub)
  else True

def Stops (type : Char) (sym : Str) (isSymbolExist : Bool) (app : Application) : Prop :=
  if type = snapshotPlusUpdates then
    isSymbolExist = false ∨ app.symSub.lookup sym = some true
  else if type = disablePrevious then isSymbolExist = false ∨ sym ∉ app.symSub
  else False

/-- Among the first `n` groups there is one that stops the request, and up to it, that one
included, no symbol changes a map. A group without a symbol, or no group where one is
needed, stops the request without changing anything. -/
def QuietStop (conv : Conversions) (symbolGet : Text → Bool) (type : Char) (id : Str)
    (app : Application) : ℕ → List NoRelatedSymGroup → Prop
  | 0, _ => False
  | _ + 1, [] => True
  | n + 1, g :: groups =>
      match g.symbol with
      | none => True
      | some sym =>
          Idle type id sym (symbolGet (conv.s2ws sym)) app ∧
            (Stops type sym (symbolGet (conv.s2ws sym)) app ∨
              QuietStop conv symbolGet type id app n groups)

/-- None of the symbols is rejected. To subscribe they exist and are not subscribed, and a
symbol that is not in `symSub` is named once; to unsubscribe they exist and are in
`symSub`, and each is named once. -/
def Acceptable (conv : Conversions) (symbolGet : Text → Bool) (type : Char) (symbols : List Str)
    (app : Application) : Prop :=
  if type = snapshotPlusUpdates then
    (∀ s ∈ symbols, symbolGet (conv.s2ws s) = true ∧ app.symSub.lookup s ≠ some true) ∧
      symbols.Pairwise fun s t => s = t → s ∈ app.symSub
  else if type = disablePrevious then
    (∀ s ∈ symbols, symbolGet (conv.s2ws s) = true ∧ s ∈ app.symSub) ∧ symbols.Nodup
  else True

/-- The first `n` groups exist, carry a symbol, and none of their symbols is rejected. -/
def GoesThrough (conv : Conversions) (symbolGet : Text → Bool) (type : Char) (n : ℕ)
    (groups : List NoRelatedSymGroup) (app : Application) : Prop :=
  ∃ symbols : List Str, symbols.length = n ∧
    groups.take n = symbols.map (fun s => ⟨some s⟩) ∧ Acceptable conv symbolGet type symbols app

def Failed (o : Outcome) : Prop := rejectedIDs o ≠ [] ∨ o.thrown.isSome

theorem stops_iff {type : Char} (id : Str) {sym : Str} {b : Bool} {app : Application} :
    (app.handleSymbol type id sym b).2.isSome ↔ Stops type sym b app := by
  unfold handleSymbol Stops subscribe unsubscribe
  split_ifs with h₁ hb h₂ hb
  · rcases hs : app.symSub.lookup sym with _ | _ | _ <;> simp [hb, hs]
  · simp [hb]
  · rcases hs : app.symSub.lookup sym with _ | v
    · simp [hb, hs, Finmap.lookup_eq_none.mp hs]
    · simp [hb, hs, Finmap.mem_of_lookup_eq_some hs]
  · simp [hb]
  · simp

theorem stops_of_reject {type : Char} {id sym text : Str} {b : Bool} {app app' : Application}
    (h : app.handleSymbol type id sym b = (app', some text)) : Stops type sym b app :=
  (stops_iff id).mp (by rw [h]; rfl)

theorem not_stops_of_accept {type : Char} {id sym : Str} {b : Bool} {app app' : Application}
    (h : app.handleSymbol type id sym b = (app', none)) : ¬ Stops type sym b app := by
  rw [← stops_iff id, h]
  exact Bool.false_ne_true

theorem handleSymbol_of_idle {type : Char} {id sym : Str} {b : Bool} {app : Application}
    (h : Idle type id sym b app) : (app.handleSymbol type id sym b).1 = app := by
  unfold Idle at h
  unfold handleSymbol subscribe unsubscribe
  split_ifs at h ⊢ with h₁ hb h₂ hb
  · rw [insert_of_lookup h.1]
    obtain ⟨v, hv⟩ := Finmap.mem_iff.mp (h.2 hb)
    cases v <;> simp [hv]
  · rw [insert_of_lookup h.1]
  · rw [erase_of_notMem h.1]
    simp [Finmap.lookup_eq_none.mpr (h.2 hb)]
  · rw [erase_of_notMem h.1]
  · rfl

/-- A symbol is idle once it has been handled. -/
theorem idle_handleSymbol (type : Char) (id sym : Str) (b : Bool) (app : Application) :
    Idle type id sym b (app.handleSymbol type id sym b).1 := by
  unfold Idle handleSymbol subscribe unsubscribe
  split_ifs with h₁ hb h₂ hb
  · rcases hs : app.symSub.lookup sym with _ | _ | _
    · simp [hs, Finmap.lookup_insert, Finmap.mem_insert]
    all_goals simp [hs, Finmap.lookup_insert, Finmap.mem_of_lookup_eq_some hs]
  · simp [hb, Finmap.lookup_insert]
  · rcases hs : app.symSub.lookup sym with _ | v
    · simp [hs, Finmap.mem_erase, Finmap.lookup_eq_none.mp hs]
    · simp [hs, Finmap.mem_erase]
  · simp [hb, Finmap.mem_erase]

theorem subscribe_symMDReqID (app : Application) (id sym : Str) (b : Bool) :
    (app.subscribe id sym b).1.symMDReqID = app.symMDReqID.insert sym id := by
  unfold subscribe
  split
  · dsimp only
    split <;> rfl
  · rfl

theorem unsubscribe_symMDReqID (app : Application) (sym : Str) (b : Bool) :
    (app.unsubscribe sym b).1.symMDReqID = app.symMDReqID.erase sym := by
  unfold unsubscribe
  split
  · dsimp only
    split <;> rfl
  · rfl

theorem mem_subscribe_symSub {app : Application} {id s sym : Str} {b : Bool}
    (h : s ∈ app.symSub) : s ∈ (app.subscribe id sym b).1.symSub := by
  unfold subscribe
  split
  · dsimp only
    split
    · exact h
    · exact h
    · exact Finmap.mem_insert.mpr (Or.inr h)
  · exact h

theorem mem_of_mem_unsubscribe_symSub {app : Application} {s sym : Str} {b : Bool}
    (h : s ∈ (app.unsubscribe sym b).1.symSub) : s ∈ app.symSub := by
  unfold unsubscribe at h
  split at h
  · dsimp only at h
    split at h
    · exact (Finmap.mem_erase.mp h).2
    · exact h
  · exact h

theorem Idle.handleSymbol {type : Char} {id s t : Str} {b c : Bool} {app : Application}
    (h : Idle type id s b app) : Idle type id s b (app.handleSymbol type id t c).1 := by
  unfold Idle at h ⊢
  unfold Application.handleSymbol
  split_ifs at h ⊢ with h₁ h₂
  · refine ⟨?_, fun hb => mem_subscribe_symSub (h.2 hb)⟩
    rw [subscribe_symMDReqID]
    by_cases hst : s = t
    · rw [hst, Finmap.lookup_insert]
    · rw [Finmap.lookup_insert_of_ne _ hst, h.1]
  · refine ⟨?_, fun hb hmem => h.2 hb (mem_of_mem_unsubscribe_symSub hmem)⟩
    rw [unsubscribe_symMDReqID]
    exact fun hmem => h.1 (Finmap.mem_erase.mp hmem).2

theorem Idle.symbolLoop {type : Char} {id s : Str} {b : Bool} {app : Application} (n : ℕ)
    (groups : List NoRelatedSymGroup) (h : Idle type id s b app) :
    Idle type id s b (symbolLoop conv symbolGet type id n groups app).1 := by
  fun_induction Application.symbolLoop conv symbolGet type id n groups app with
  | case1 => exact h
  | case2 => exact h
  | case3 => exact h
  | case4 n g groups app t hg app' text hh =>
      have hidle := h.handleSymbol (t := t) (c := symbolGet (conv.s2ws t))
      rwa [hh] at hidle
  | case5 n g groups app t hg app' hh ih =>
      have hidle := h.handleSymbol (t := t) (c := symbolGet (conv.s2ws t))
      rw [hh] at hidle
      exact ih hidle

@[simp] theorem not_failed_empty : ¬ Failed {} := by simp [Failed, rejectedIDs]

@[simp] theorem failed_thrown (e : FixException) : Failed { thrown := some e } := Or.inr rfl

@[simp] theorem failed_reject (app : Application) (id text : Str) :
    Failed { sent := [app.sendMarketDataRequestReject id text] } :=
  Or.inl (by simp [rejectedIDs, sendMarketDataRequestReject])

/-- A failing request leaves the state as it was exactly when it stops quietly. That a
handled symbol is idle at the end is what shows it idle at the start. -/
theorem quietStop_iff (type : Char) (id : Str) (n : ℕ) (groups : List NoRelatedSymGroup)
    (app : Application) :
    QuietStop conv symbolGet type id app n groups ↔
      Failed (symbolLoop conv symbolGet type id n groups app).2 ∧
        (symbolLoop conv symbolGet type id n groups app).1 = app := by
  fun_induction symbolLoop conv symbolGet type id n groups app with
  | case1 groups app => simp [QuietStop]
  | case2 n app => simp [QuietStop]
  | case3 n g groups app hg => simp [QuietStop, hg]
  | case4 n g groups app s hg app' text hh =>
      have hstops := stops_of_reject hh
      simp only [QuietStop, hg, hstops, true_or, and_true, failed_reject, true_and]
      constructor
      · intro hidle
        rw [← handleSymbol_of_idle hidle, hh]
      · intro hsame
        have hidle := idle_handleSymbol type id s (symbolGet (conv.s2ws s)) app
        rwa [hh, hsame] at hidle
  | case5 n g groups app s hg app' hh ih =>
      have hstops := not_stops_of_accept hh
      have hidle' : Idle type id s (symbolGet (conv.s2ws s)) app' := by
        have hidle := idle_handleSymbol type id s (symbolGet (conv.s2ws s)) app
        rwa [hh] at hidle
      simp only [QuietStop, hg, hstops, false_or]
      have hunchanged (h : Idle type id s (symbolGet (conv.s2ws s)) app) : app' = app := by
        rw [← handleSymbol_of_idle h, hh]
      constructor
      · intro h
        have happ := hunchanged h.1
        subst happ
        exact ih.mp h.2
      · intro h
        have hidle : Idle type id s (symbolGet (conv.s2ws s)) app := by
          rw [← h.2]
          exact hidle'.symbolLoop n groups
        have happ := hunchanged hidle
        subst happ
        exact ⟨hidle, ih.mpr h⟩

theorem subscribe_symSub {app : Application} {id sym : Str}
    (h : app.symSub.lookup sym ≠ some true) :
    (app.subscribe id sym true).1.symSub =
      if sym ∈ app.symSub then app.symSub else app.symSub.insert sym true := by
  unfold subscribe
  rcases hs : app.symSub.lookup sym with _ | _ | _
  · simp [hs, Finmap.lookup_eq_none.mp hs]
  · simp [hs, Finmap.mem_of_lookup_eq_some hs]
  · exact absurd hs h

theorem lookup_insert_ne_true {m : Finmap fun _ : Str => Bool} {s t : Str} :
    (m.insert s true).lookup t ≠ some true ↔ t ≠ s ∧ m.lookup t ≠ some true := by
  by_cases ht : t = s
  · subst ht
    simp [Finmap.lookup_insert]
  · simp [ht, Finmap.lookup_insert_of_ne]

theorem unsubscribe_symSub {app : Application} {sym : Str} (h : sym ∈ app.symSub) :
    (app.unsubscribe sym true).1.symSub = app.symSub.erase sym := by
  unfold unsubscribe
  obtain ⟨v, hv⟩ := Finmap.mem_iff.mp h
  simp [hv]

theorem acceptable_nil {type : Char} {app : Application} :
    Acceptable conv symbolGet type [] app := by
  unfold Acceptable
  split_ifs <;> simp

/-- What acceptance asks of the first symbol, and of the others in the state it leaves. -/
theorem acceptable_cons {type : Char} (id : Str) {s : Str} {symbols : List Str}
    {app : Application} :
    Acceptable conv symbolGet type (s :: symbols) app ↔
      ¬ Stops type s (symbolGet (conv.s2ws s)) app ∧
        Acceptable conv symbolGet type symbols
          (app.handleSymbol type id s (symbolGet (conv.s2ws s))).1 := by
  unfold Acceptable Stops Application.handleSymbol
  split_ifs with h₁ h₂
  · simp only [List.forall_mem_cons, List.pairwise_cons, not_or, Bool.not_eq_false, and_assoc]
    refine and_congr_right fun he => and_congr_right fun hsub => ?_
    rw [he, subscribe_symSub hsub]
    by_cases hmem : s ∈ app.symSub
    · simp [hmem]
    · -- a symbol that is subscribed now must not be named again
      simp only [hmem, if_false, Finmap.mem_insert, lookup_insert_ne_true]
      constructor
      · intro h
        have hall (t : Str) (ht : t ∈ symbols) := h.1 t ht
        have hne (t : Str) (ht : t ∈ symbols) : t ≠ s := fun hts => h.2.1 t ht hts.symm
        refine ⟨fun t ht => ⟨(hall t ht).1, hne t ht, (hall t ht).2⟩, ?_⟩
        exact h.2.2.imp fun hab heq => Or.inr (hab heq)
      · intro h
        have hall (t : Str) (ht : t ∈ symbols) := h.1 t ht
        have hne (t : Str) (ht : t ∈ symbols) : t ≠ s := (hall t ht).2.1
        refine ⟨fun t ht => ⟨(hall t ht).1, (hall t ht).2.2⟩,
          fun t ht hst => hne t ht hst.symm, ?_⟩
        exact h.2.imp_of_mem fun ha _ hab heq => (hab heq).resolve_left (hne _ ha)
  · simp only [List.forall_mem_cons, List.nodup_cons, not_or, Bool.not_eq_false, not_not,
      and_assoc]
    refine and_congr_right fun he => and_congr_right fun hmem => ?_
    rw [he, unsubscribe_symSub hmem]
    simp only [Finmap.mem_erase]
    constructor
    · intro h
      have hne (t : Str) (ht : t ∈ symbols) : t ≠ s := fun hts => h.2.1 (hts ▸ ht)
      exact ⟨fun t ht => ⟨(h.1 t ht).1, hne t ht, (h.1 t ht).2⟩, h.2.2⟩
    · intro h
      have hs : s ∉ symbols := fun hs => (h.1 s hs).2.1 rfl
      exact ⟨fun t ht => ⟨(h.1 t ht).1, (h.1 t ht).2.2⟩, hs, h.2⟩
  · simp

theorem goesThrough_cons {type : Char} (id : Str) {n : ℕ} {g : NoRelatedSymGroup}
    {groups : List NoRelatedSymGroup} {app : Application} :
    GoesThrough conv symbolGet type (n + 1) (g :: groups) app ↔
      ∃ s, g.symbol = some s ∧ ¬ Stops type s (symbolGet (conv.s2ws s)) app ∧
        GoesThrough conv symbolGet type n groups
          (app.handleSymbol type id s (symbolGet (conv.s2ws s))).1 := by
  constructor
  · intro h
    obtain ⟨symbols, hlen, htake, hacc⟩ := h
    cases symbols with
    | nil => simp at hlen
    | cons s symbols =>
        simp only [List.take_succ_cons, List.map_cons, List.cons.injEq] at htake
        have hfirst := (acceptable_cons id).mp hacc
        have hlen' : symbols.length = n := by simpa using hlen
        exact ⟨s, by rw [htake.1], hfirst.1, symbols, hlen', htake.2, hfirst.2⟩
  · intro h
    obtain ⟨s, hg, hstops, symbols, hlen, htake, hacc⟩ := h
    have hgroup : g = ⟨some s⟩ := by rw [← hg]
    refine ⟨s :: symbols, by simp [hlen], ?_, (acceptable_cons id).mpr ⟨hstops, hacc⟩⟩
    rw [hgroup, List.take_succ_cons, htake, List.map_cons]

theorem goesThrough_iff (conv : Conversions) (symbolGet : Text → Bool) (type : Char) (id : Str)
    (n : ℕ) (groups : List NoRelatedSymGroup) (app : Application) :
    GoesThrough conv symbolGet type n groups app ↔
      ¬ Failed (symbolLoop conv symbolGet type id n groups app).2 := by
  fun_induction symbolLoop conv symbolGet type id n groups app with
  | case1 groups app =>
      simp only [not_failed_empty, not_false_eq_true, iff_true]
      exact ⟨[], rfl, by simp, acceptable_nil⟩
  | case2 n app =>
      simp only [failed_thrown, not_true_eq_false, iff_false]
      intro h
      obtain ⟨symbols, hlen, htake, -⟩ := h
      rw [List.take_nil, eq_comm, List.map_eq_nil_iff] at htake
      simp [htake] at hlen
  | case3 n g groups app hg => simp [goesThrough_cons id, hg]
  | case4 n g groups app s hg app' text hh =>
      have hstops := stops_of_reject hh
      simp [goesThrough_cons id, hg, hstops]
  | case5 n g groups app s hg app' hh ih =>
      have hstops := not_stops_of_accept hh
      simp [goesThrough_cons id, hg, hstops, hh, ih]

def RequestGoesThrough (conv : Conversions) (symbolGet : Text → Bool)
    (message : MarketDataRequest) (app : Application) : Prop :=
  ∀ type ∈ message.subscriptionRequestType, ∀ count ∈ message.noRelatedSym,
    GoesThrough conv symbolGet type count.toNat message.groups app

def RequestStopsQuietly (conv : Conversions) (symbolGet : Text → Bool)
    (message : MarketDataRequest) (app : Application) : Prop :=
  ∀ type ∈ message.subscriptionRequestType, ∀ id ∈ message.mdReqID,
    ∀ count ∈ message.noRelatedSym,
      QuietStop conv symbolGet type id app count.toNat message.groups

/-- Two states that differ in their maps at most are equal when the maps are. -/
theorem onMessage_eq_self_iff {message : MarketDataRequest} {app : Application} :
    (app.onMessage conv symbolGet message).1 = app ↔
      (app.onMessage conv symbolGet message).1.symMDReqID = app.symMDReqID ∧
        (app.onMessage conv symbolGet message).1.symSub = app.symSub := by
  constructor
  · intro h
    rw [h]
    exact ⟨rfl, rfl⟩
  · intro h
    have hsession := onMessage_appSessionID conv symbolGet message app
    rcases hr : (app.onMessage conv symbolGet message).1 with ⟨ids, subs, sessionID⟩
    rw [hr] at h hsession
    cases app
    exact Application.mk.injEq .. ▸ ⟨h.1, h.2, hsession⟩

/-- A request that is rejected, or left by an exception, leaves both maps as they were if
and only if it lacks a field read before the loop, passes every check, or stops before
any of its symbols has changed a map. -/
theorem onMessage_atomic_iff (conv : Conversions) (symbolGet : Text → Bool)
    (message : MarketDataRequest) (app : Application) :
    (Failed (app.onMessage conv symbolGet message).2 →
        (app.onMessage conv symbolGet message).1.symMDReqID = app.symMDReqID ∧
          (app.onMessage conv symbolGet message).1.symSub = app.symSub) ↔
      MissesField message ∨ RequestGoesThrough conv symbolGet message app ∨
        RequestStopsQuietly conv symbolGet message app := by
  rw [← onMessage_eq_self_iff]
  obtain ⟨hmiss, tag, h⟩ | ⟨hmiss, type, id, depth, count, htype, hid, -, hcount, h⟩ :=
    onMessage_cases conv symbolGet message app
  · simp [h, hmiss]
  · simp only [h, hmiss, false_or, RequestGoesThrough, RequestStopsQuietly, htype, hid, hcount,
      Option.mem_some_iff, forall_eq', goesThrough_iff conv symbolGet type id, quietStop_iff]
    by_cases hf : Failed (symbolLoop conv symbolGet type id count.toNat message.groups app).2
    · simp [hf]
    · simp [hf]

/-- Subscribing a symbol again under a new id is rejected, and the new id is recorded. -/
theorem reject_changes_ids :
    let eurusd := ascii "EURUSD"
    let app : Application :=
      ⟨Finmap.singleton eurusd (ascii "A"), Finmap.singleton eurusd true, default⟩
    let r := app.onMessage asciiConversions (fun _ => true) (.ofSymbols '1' (ascii "B") [eurusd])
    rejectedIDs r.2 = [ascii "B"] ∧ r.1.symMDReqID ≠ app.symMDReqID := by
  decide

end ForexSuite.RejectAtomicity
