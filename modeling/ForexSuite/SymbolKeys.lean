import ForexSuite.CodePages
import ForexSuite.QuoteRequestIds

/-!
# The key of a symbol

A request names a symbol in bytes. They are the key under which its id is stored,
and decoded by the code page of the machine they are the name the platform knows
it by. A tick carries this name, and looks it up encoded in UTF-8. The two keys
are the same for ASCII names only.
-/
namespace ForexSuite.SymbolKeys

open TextNumbers EventMachine CodePages PriceServer Application RejectAtomicity QuoteRequestIds

/-- The conversions of a machine with this code page. -/
def conversions (page : CodePage) : Conversions := ⟨page.widen, CodePages.narrow⟩

/-- The request subscribes `b` and is neither rejected nor left by an exception. -/
structure Subscribes (conv : Conversions) (symbolGet : Text → Bool) (b : Str)
    (message : MarketDataRequest) (app : Application) : Prop where
  type : message.subscriptionRequestType = some snapshotPlusUpdates
  names : ⟨some b⟩ ∈ message.groups.take (message.noRelatedSym.getD 0).toNat
  accepted : ¬ Failed (app.onMessage conv symbolGet message).2

/-- The event is no logon, no logout, and no request to unsubscribe `b`. -/
def LeavesSubscribed (b : Str) : Event → Prop
  | .logon _ => False
  | .logout _ => False
  | .request _ message _ =>
      message.subscriptionRequestType = some disablePrevious → ⟨some b⟩ ∉ message.groups
  | _ => True

variable {conv : Conversions} {symbolGet : Text → Bool} {type : Char} {id b s : Str}
  {app : Application} {groups : List NoRelatedSymGroup}

theorem mem_recordSymbol {ids : Ledger} (h : b ∈ ids) (hs : type = disablePrevious → b ≠ s) :
    b ∈ recordSymbol type id ids s := by
  unfold recordSymbol
  split_ifs with h₁ h₂
  · exact Finmap.mem_insert.mpr (Or.inr h)
  · exact Finmap.mem_erase.mpr ⟨hs h₂, h⟩
  · exact h

theorem symbolLoop_keeps_mem {n : ℕ} (h : b ∈ app.symMDReqID)
    (hgroups : type = disablePrevious → ⟨some b⟩ ∉ groups) :
    b ∈ (symbolLoop conv symbolGet type id n groups app).1.symMDReqID := by
  fun_induction symbolLoop conv symbolGet type id n groups app with
  | case1 => exact h
  | case2 => exact h
  | case3 => exact h
  | case4 n g groups app s hg app' text hh =>
      rw [symMDReqID_of_handled hh]
      refine mem_recordSymbol h fun ht heq => hgroups ht ?_
      rw [heq, ← hg]
      exact List.mem_cons_self
  | case5 n g groups app s hg app' hh ih =>
      refine ih ?_ fun ht hmem => hgroups ht (List.mem_cons_of_mem _ hmem)
      rw [symMDReqID_of_handled hh]
      refine mem_recordSymbol h fun ht heq => hgroups ht ?_
      rw [heq, ← hg]
      exact List.mem_cons_self

theorem symbolLoop_records {n : ℕ} (hnames : ⟨some b⟩ ∈ groups.take n)
    (hok : ¬ Failed (symbolLoop conv symbolGet snapshotPlusUpdates id n groups app).2) :
    b ∈ (symbolLoop conv symbolGet snapshotPlusUpdates id n groups app).1.symMDReqID := by
  fun_induction symbolLoop conv symbolGet snapshotPlusUpdates id n groups app with
  | case1 => simp at hnames
  | case2 => simp at hnames
  | case3 => simp at hok
  | case4 => simp at hok
  | case5 n g groups app s hg app' hh ih =>
      rw [List.take_succ_cons, List.mem_cons] at hnames
      cases hnames with
      | inl heq =>
          obtain rfl : b = s := by simpa [← heq] using hg
          apply symbolLoop_keeps_mem
          · rw [symMDReqID_of_handled hh, recordSymbol, if_pos rfl]
            exact Finmap.mem_insert.mpr (Or.inl rfl)
          · intro ht
            exact absurd ht (by decide)
      | inr hmem => exact ih hmem hok

theorem Subscribes.records {message : MarketDataRequest}
    (h : Subscribes conv symbolGet b message app) :
    b ∈ (app.onMessage conv symbolGet message).1.symMDReqID := by
  have hok := h.accepted
  have hnames := h.names
  cases onMessage_cases conv symbolGet message app with
  | inl hthrow =>
      obtain ⟨_, tag, heq⟩ := hthrow
      rw [heq] at hok
      exact absurd (failed_thrown _) hok
  | inr hloop =>
      have ⟨_, type, id, depth, count, htype, _, _, hcount, heq⟩ := hloop
      obtain rfl : snapshotPlusUpdates = type := by simpa [h.type] using htype
      rw [heq] at hok ⊢
      rw [hcount] at hnames
      exact symbolLoop_records hnames hok

theorem step_keeps_mem {e : Event} (h : b ∈ app.symMDReqID) (he : LeavesSubscribed b e) :
    b ∈ (step conv app e).1.symMDReqID := by
  cases e with
  | create sessionID => exact h
  | logon sessionID => exact he.elim
  | logout sessionID => exact he.elim
  | request sessionID message symbolGet =>
      cases onMessage_cases conv symbolGet message app with
      | inl hthrow =>
          obtain ⟨_, tag, heq⟩ := hthrow
          rw [step, heq]
          exact h
      | inr hloop =>
          obtain ⟨_, type, id, depth, count, htype, _, _, _, heq⟩ := hloop
          rw [step, heq]
          exact symbolLoop_keeps_mem h fun ht => he (ht ▸ htype)
  | tick symbol tick => exact h

theorem run_keeps_mem {later : List Event} (h : b ∈ app.symMDReqID)
    (hlater : ∀ e ∈ later, LeavesSubscribed b e) :
    b ∈ (run (step conv) app later).symMDReqID := by
  induction later generalizing app with
  | nil => exact h
  | cons e later ih =>
      have hstep : b ∈ (step conv app e).1.symMDReqID := step_keeps_mem h (hlater e (by simp))
      exact ih hstep fun e' he' => hlater e' (by simp [he'])

/-- Every tick of `W`, the name `b` stands for, after an accepted subscription and before the end
of it, finds the entry stored under `b`. -/
def TicksFindEntry (page : CodePage) (b : Str) : Prop :=
  ∀ (app : Application) (sessionID : SessionID) (message : MarketDataRequest)
    (symbolGet : Text → Bool) (later : List Event) (tick : MTTickShort),
    Subscribes (conversions page) symbolGet b message app →
    (∀ e ∈ later, LeavesSubscribed b e) →
    let app' := run (step (conversions page)) app (.request sessionID message symbolGet :: later)
    ∃ id, app'.symMDReqID.lookup b = some id ∧
      app'.onTick (conversions page) (page.widen b) tick =
        { sent := [⟨app'.appSessionID, snapshot id b tick⟩] }

theorem subscribes_ofSymbols (conv : Conversions) (id b : Str) :
    Subscribes conv (fun _ => true) b (.ofSymbols '1' id [b]) .new where
  type := rfl
  names := by simp [MarketDataRequest.ofSymbols]
  accepted := by simp [MarketDataRequest.ofSymbols, onMessage, symbolLoop, handleSymbol, subscribe,
    snapshotPlusUpdates, Application.new]

/-- On every machine the ticks of a subscribed symbol find its entry exactly when its name in the
request is made of ASCII characters. -/
theorem ticksFindEntry_iff_ascii (page : CodePage) (b : Str) :
    TicksFindEntry page b ↔ ∀ x ∈ b, IsAscii x := by
  rw [← narrow_widen_iff page]
  constructor
  · intro h
    have ⟨id, _, htick⟩ := h .new default (.ofSymbols '1' [] [b]) (fun _ => true) [] ⟨0, 0⟩
      (subscribes_ofSymbols _ [] b) (by simp)
    rw [onTick_eq] at htick
    split at htick
    · rename_i mktReqID hlookup
      -- the message carries the name of the tick, encoded
      simp only [Outcome.mk.injEq, List.cons.injEq, Sent.mk.injEq, snapshot,
        FixMessage.marketDataSnapshotFullRefresh.injEq] at htick
      exact htick.1.1.2.2.1
    · simp at htick
  · intro hkey app sessionID message symbolGet later tick hsub hlater app'
    have hmem : b ∈ (run (step (conversions page))
        (app.onMessage (conversions page) symbolGet message).1 later).symMDReqID :=
      run_keeps_mem hsub.records hlater
    have hstored : ∃ id, app'.symMDReqID.lookup b = some id := Finmap.mem_iff.mp hmem
    have ⟨id, hid⟩ := hstored
    have hnarrow : (conversions page).narrow (page.widen b) = b := hkey
    refine ⟨id, hid, ?_⟩
    rw [onTick_eq, hnarrow, hid]

/-- A symbol with an accent, on a machine with the code page Windows-1252: the request is accepted,
and the tick of the symbol is not sent. -/
theorem accented_symbol_is_not_found :
    let cafe : Str := [67, 65, 70, 201]
    let app := run (step (conversions windows1252)) .new
      [.request default (.ofSymbols '1' (ascii "A") [cafe]) fun _ => true]
    app.symMDReqID.lookup cafe = some (ascii "A") ∧
      app.onTick (conversions windows1252) (windows1252.widen cafe) ⟨1, 2⟩ = {} ∧
      ¬ TicksFindEntry windows1252 cafe := by
  intro cafe app
  have hmissed : app.onTick (conversions windows1252) (windows1252.widen cafe) ⟨1, 2⟩ = {} := by
    decide
  refine ⟨by decide, hmissed, ?_⟩
  intro h
  have ⟨id, _, hfound⟩ := h .new default (.ofSymbols '1' (ascii "A") [cafe]) (fun _ => true) []
    ⟨1, 2⟩ (subscribes_ofSymbols _ (ascii "A") cafe) (by simp)
  rw [hmissed] at hfound
  cases hfound

end ForexSuite.SymbolKeys
