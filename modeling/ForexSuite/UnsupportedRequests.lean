import ForexSuite.QuoteRequestIds

/-!
# Requests the rules of engagement do not support

The rules of engagement support two types of requests, for one symbol at the top of
the book. A request outside of them is to be answered by one reject and to change
nothing. The server reads the type, the depth and the number of symbols, compares
the type with the two it supports, and rejects a request only for a symbol that
does not exist, is subscribed already or is not subscribed yet.
-/
namespace ForexSuite.UnsupportedRequests

open TextNumbers MapValues PriceServer Application RejectAtomicity QuoteRequestIds

variable {conv : Conversions} {symbolGet : Text → Bool} {type : Char} {id s t : Str} {b : Bool}
  {n : ℕ} {g : NoRelatedSymGroup} {groups : List NoRelatedSymGroup} {app : Application}
  {streamed : Finset Str}

/-- The request has another type, depth or number of symbols than those supported, or a symbol
that does not exist. -/
def Unsupported (conv : Conversions) (symbolGet : Text → Bool) (message : MarketDataRequest) :
    Prop :=
  (∃ type ∈ message.subscriptionRequestType, type ≠ '1' ∧ type ≠ '2') ∨
    (∃ depth ∈ message.marketDepth, depth ≠ 1) ∨
    (∃ count ∈ message.noRelatedSym, count ≠ 1) ∨
    ∃ g ∈ message.groups, ∃ s ∈ g.symbol, symbolGet (conv.s2ws s) = false

/-- The symbol is streamed as handling it would leave it. -/
def Settled (type : Char) (s : Str) (streamed : Finset Str) : Prop :=
  if type = snapshotPlusUpdates then s ∈ streamed
  else if type = disablePrevious then s ∉ streamed
  else True

/-- The loop comes to a symbol that does not pass the checks, and all symbols up to that one,
which it handles, are streamed as handling them leaves them. -/
def StopsSettled (conv : Conversions) (symbolGet : Text → Bool) (type : Char) (n : ℕ)
    (groups : List NoRelatedSymGroup) (app : Application) : Prop :=
  ∃ (passed : List Str) (s : Str), passed.length < n ∧
    groups.take (passed.length + 1) = (passed ++ [s]).map (fun s => ⟨some s⟩) ∧
    Acceptable conv symbolGet type passed app ∧
    ¬ Acceptable conv symbolGet type (passed ++ [s]) app ∧
    ∀ t ∈ passed ++ [s], Settled type t app.symMDReqID.keys

/-! ### One symbol -/

theorem keys_handleSymbol (app : Application) (type : Char) (id s : Str) (b : Bool) :
    (app.handleSymbol type id s b).1.symMDReqID.keys =
      if type = snapshotPlusUpdates then insert s app.symMDReqID.keys
      else if type = disablePrevious then app.symMDReqID.keys.erase s
      else app.symMDReqID.keys := by
  rw [handleSymbol_symMDReqID, recordSymbol]
  split_ifs
  · exact keys_insert _ _ _
  · exact keys_erase _ _
  · rfl

theorem keys_handleSymbol_eq_iff (app : Application) (type : Char) (id s : Str) (b : Bool) :
    (app.handleSymbol type id s b).1.symMDReqID.keys = app.symMDReqID.keys ↔
      Settled type s app.symMDReqID.keys := by
  rw [keys_handleSymbol, Settled]
  split_ifs
  · exact Finset.insert_eq_self
  · exact Finset.erase_eq_self
  · exact iff_of_true rfl trivial

theorem settled_handleSymbol (app : Application) (type : Char) (id s : Str) (b : Bool) :
    Settled type s (app.handleSymbol type id s b).1.symMDReqID.keys := by
  rw [keys_handleSymbol, Settled]
  split_ifs
  · exact Finset.mem_insert_self _ _
  · exact Finset.notMem_erase _ _

theorem Settled.handleSymbol (h : Settled type s app.symMDReqID.keys) (id t : Str) (b : Bool) :
    Settled type s (app.handleSymbol type id t b).1.symMDReqID.keys := by
  rw [keys_handleSymbol]
  unfold Settled at h ⊢
  split_ifs at h ⊢
  · exact Finset.mem_insert_of_mem h
  · exact fun hmem => h (Finset.mem_of_mem_erase hmem)

theorem Settled.symbolLoop (h : Settled type s app.symMDReqID.keys) :
    Settled type s (symbolLoop conv symbolGet type id n groups app).1.symMDReqID.keys := by
  fun_induction Application.symbolLoop conv symbolGet type id n groups app with
  | case1 => exact h
  | case2 => exact h
  | case3 => exact h
  | case4 n g groups app t hg app' text hh =>
      have hnext := h.handleSymbol id t (symbolGet (conv.s2ws t))
      rwa [hh] at hnext
  | case5 n g groups app t hg app' hh ih =>
      have hnext := h.handleSymbol id t (symbolGet (conv.s2ws t))
      rw [hh] at hnext
      exact ih hnext

/-! ### The request loop -/

theorem not_stopsSettled_zero : ¬ StopsSettled conv symbolGet type 0 groups app := by
  intro h
  have ⟨_, _, hlt, _⟩ := h
  omega

theorem not_stopsSettled_nil : ¬ StopsSettled conv symbolGet type n [] app := by
  intro h
  have ⟨_, _, _, htake, _⟩ := h
  simp at htake

theorem not_stopsSettled_of_none (hg : g.symbol = none) :
    ¬ StopsSettled conv symbolGet type n (g :: groups) app := by
  intro h
  have ⟨passed, s, _, htake, _⟩ := h
  rw [List.take_succ_cons] at htake
  cases passed with
  | nil =>
      have hfirst := (List.cons.inj htake).1
      simp [hfirst] at hg
  | cons t passed =>
      have hfirst := (List.cons.inj htake).1
      simp [hfirst] at hg

theorem stopsSettled_of_stops (id : Str) (hg : g.symbol = some s)
    (hs : Settled type s app.symMDReqID.keys)
    (hstops : Stops type s (symbolGet (conv.s2ws s)) app) :
    StopsSettled conv symbolGet type (n + 1) (g :: groups) app := by
  have hgroup : g = ⟨some s⟩ := by rw [← hg]
  refine ⟨[], s, by simp, by simp [hgroup], acceptable_nil, ?_, by simpa using hs⟩
  intro haccepted
  exact ((acceptable_cons id).mp haccepted).1 hstops

theorem StopsSettled.cons (hg : g.symbol = some s) (hs : Settled type s app.symMDReqID.keys)
    (hstops : ¬ Stops type s (symbolGet (conv.s2ws s)) app)
    (h : StopsSettled conv symbolGet type n groups
      (app.handleSymbol type id s (symbolGet (conv.s2ws s))).1) :
    StopsSettled conv symbolGet type (n + 1) (g :: groups) app := by
  have hgroup : g = ⟨some s⟩ := by rw [← hg]
  obtain ⟨passed, x, hlt, htake, hpassed, hx, hsettled⟩ := h
  refine ⟨s :: passed, x, by simpa using hlt, ?_, ?_, ?_, ?_⟩
  · rw [List.length_cons, List.take_succ_cons, htake, hgroup]
    rfl
  · exact (acceptable_cons id).mpr ⟨hstops, hpassed⟩
  · intro haccepted
    exact hx ((acceptable_cons id).mp haccepted).2
  · intro t ht
    rw [List.cons_append, List.mem_cons] at ht
    cases ht with
    | inl heq => rwa [heq]
    | inr hmem =>
        rw [← (keys_handleSymbol_eq_iff app type id s _).mpr hs]
        exact hsettled t hmem

/-- What the condition asks of the first symbol, and of the others in the state it leaves. -/
theorem stopsSettled_cons (id : Str) (hg : g.symbol = some s) :
    StopsSettled conv symbolGet type (n + 1) (g :: groups) app ↔
      Settled type s app.symMDReqID.keys ∧
        (Stops type s (symbolGet (conv.s2ws s)) app ∨
          ¬ Stops type s (symbolGet (conv.s2ws s)) app ∧
            StopsSettled conv symbolGet type n groups
              (app.handleSymbol type id s (symbolGet (conv.s2ws s))).1) := by
  constructor
  · intro h
    obtain ⟨passed, x, hlt, htake, hpassed, hx, hsettled⟩ := h
    have hgroup : g = ⟨some s⟩ := by rw [← hg]
    cases passed with
    | nil =>
        obtain rfl : s = x := by simpa [hgroup] using htake
        refine ⟨hsettled s (by simp), Or.inl ?_⟩
        by_contra hstops
        exact hx ((acceptable_cons id).mpr ⟨hstops, acceptable_nil⟩)
    | cons t passed =>
        rw [List.length_cons, List.take_succ_cons, List.cons_append, List.map_cons] at htake
        have ⟨hfirst, hrest⟩ := List.cons.inj htake
        obtain rfl : s = t := by simpa [hgroup] using hfirst
        have ⟨hstops, hpassed'⟩ := (acceptable_cons id).mp hpassed
        have hs := hsettled s (by simp)
        refine ⟨hs, Or.inr ⟨hstops, passed, x, by simpa using hlt, hrest, hpassed', ?_, ?_⟩⟩
        · intro hx'
          exact hx ((acceptable_cons id).mpr ⟨hstops, hx'⟩)
        · intro t ht
          rw [(keys_handleSymbol_eq_iff app type id s _).mpr hs]
          exact hsettled t (List.mem_cons_of_mem s ht)
  · intro h
    cases h.2 with
    | inl hstops => exact stopsSettled_of_stops id hg h.1 hstops
    | inr hrest => exact StopsSettled.cons hg h.1 hrest.1 hrest.2

/-- One reject is sent, which carries the id, and the streamed symbols stay the same. -/
def AnswersOnce (id : Str) (before : Application) (r : Application × Outcome) : Prop :=
  rejectedIDs r.2 = [id] ∧ r.1.symMDReqID.keys = before.symMDReqID.keys

theorem symbolLoop_answersOnce_iff :
    AnswersOnce id app (symbolLoop conv symbolGet type id n groups app) ↔
      StopsSettled conv symbolGet type n groups app := by
  unfold AnswersOnce
  fun_induction symbolLoop conv symbolGet type id n groups app with
  | case1 groups app => simp [not_stopsSettled_zero, rejectedIDs]
  | case2 n app => simp [not_stopsSettled_nil, rejectedIDs]
  | case3 n g groups app hg => simp [not_stopsSettled_of_none hg, rejectedIDs]
  | case4 n g groups app t hg app' text hh =>
      have hkeys := keys_handleSymbol_eq_iff app type id t (symbolGet (conv.s2ws t))
      rw [hh] at hkeys
      rw [stopsSettled_cons id hg]
      simp [rejectedIDs, sendMarketDataRequestReject, stops_of_reject hh, hkeys]
  | case5 n g groups app t hg app' hh ih =>
      have hkeys := keys_handleSymbol_eq_iff app type id t (symbolGet (conv.s2ws t))
      rw [hh] at hkeys
      rw [stopsSettled_cons id hg, hh, ← ih]
      simp only [not_stops_of_accept hh, not_false_eq_true, false_or, true_and]
      constructor
      · intro h
        -- the symbol is settled once it has been handled, and stays so
        have hlast : Settled type t app'.symMDReqID.keys := by
          have hhandled := settled_handleSymbol app type id t (symbolGet (conv.s2ws t))
          rwa [hh] at hhandled
        have hs : Settled type t app.symMDReqID.keys := by
          rw [← h.2]
          exact hlast.symbolLoop
        exact ⟨hs, h.1, h.2.trans (hkeys.mpr hs).symm⟩
      · intro h
        exact ⟨h.2.1, h.2.2.trans (hkeys.mpr h.1)⟩

/-- Whether a request is answered so does not depend on what the rules support. -/
theorem onMessage_answersOnce_iff (message : MarketDataRequest) :
    (∃ id, message.mdReqID = some id ∧ AnswersOnce id app (app.onMessage conv symbolGet message)) ↔
      ¬ MissesField message ∧ ∃ type count, message.subscriptionRequestType = some type ∧
        message.noRelatedSym = some count ∧
          StopsSettled conv symbolGet type count.toNat message.groups app := by
  cases onMessage_cases conv symbolGet message app with
  | inl h =>
      obtain ⟨hmiss, tag, heq⟩ := h
      simp [heq, hmiss, AnswersOnce, rejectedIDs]
  | inr h =>
      obtain ⟨hmiss, type, id, depth, count, htype, hid, _, hcount, heq⟩ := h
      simp [heq, hmiss, htype, hid, hcount, symbolLoop_answersOnce_iff]

/-- For every state and every request: if it is not supported, it is answered by exactly one reject
with its id and changes no streamed symbol. This holds if and only if such a request carries
its header fields and its loop stops at a symbol, with all symbols up to that one settled. -/
theorem unsupported_rejected_iff (conv : Conversions) (symbolGet : Text → Bool)
    (message : MarketDataRequest) (app : Application) :
    (Unsupported conv symbolGet message → ∃ id, message.mdReqID = some id ∧
        rejectedIDs (app.onMessage conv symbolGet message).2 = [id] ∧
        (app.onMessage conv symbolGet message).1.symMDReqID.keys = app.symMDReqID.keys) ↔
      (Unsupported conv symbolGet message → ¬ MissesField message ∧
        ∃ type count, message.subscriptionRequestType = some type ∧
          message.noRelatedSym = some count ∧
            StopsSettled conv symbolGet type count.toNat message.groups app) :=
  imp_congr_right fun _ => onMessage_answersOnce_iff message

/-- A request for a single snapshot is not answered, one for a deeper book is accepted, and one for
a symbol that does not exist makes the symbol streamed. -/
theorem unsupported_is_not_rejected :
    let eurusd := ascii "EURUSD"
    let subscribes := MarketDataRequest.ofSymbols '1' (ascii "A") [eurusd]
    let answer (exist : Bool) (message : MarketDataRequest) :=
      Application.new.onMessage asciiConversions (fun _ => exist) message
    rejectedIDs (answer true (.ofSymbols '0' (ascii "A") [eurusd])).2 = [] ∧
      rejectedIDs (answer true { subscribes with marketDepth := some 5 }).2 = [] ∧
      (answer false subscribes).1.symMDReqID.keys = {eurusd} := by
  decide

end ForexSuite.UnsupportedRequests
