import ForexSuite.RejectAtomicity

/-!
# The two subscription maps

The ids of `symMDReqID` and the flags of `symSub` are meant to be kept for the
same symbols, so that a symbol is quoted exactly when it is recorded as
subscribed. A logon clears the flags only, and a request changes the ids of a
symbol before it learns that the symbol does not exist.
-/
namespace ForexSuite.SubscriptionCoupling

open TextNumbers EventMachine PriceServer Application RejectAtomicity

variable {conv : Conversions} {symbolGet : Text → Bool} {type : Char} {id sym : Str} {b : Bool}
  {app app' : Application}

def Coupled (app : Application) : Prop := app.symMDReqID.keys = app.symSub.keys

instance (app : Application) : Decidable (Coupled app) :=
  inferInstanceAs (Decidable (_ = _))

/-- No flag is ever `false`. -/
def FlagsSet (app : Application) : Prop := ∀ s v, app.symSub.lookup s = some v → v = true

/-- A request to subscribe the symbol would record an id without a flag, or one to unsubscribe it
would remove its id and leave its flag. -/
def Uncouples (type : Char) (sym : Str) (isSymbolExist : Bool) (app : Application) : Prop :=
  isSymbolExist = false ∧
    (type = snapshotPlusUpdates ∧ sym ∉ app.symSub ∨ type = disablePrevious ∧ sym ∈ app.symSub)

theorem coupled_iff : Coupled app ↔ ∀ s, s ∈ app.symMDReqID ↔ s ∈ app.symSub := by
  unfold Coupled
  rw [Finset.ext_iff]
  simp only [Finmap.mem_keys]

theorem types_differ : disablePrevious ≠ snapshotPlusUpdates := by decide

/-- A symbol that uncouples the maps does not exist, and such a symbol is rejected. -/
theorem Uncouples.stops (h : Uncouples type sym b app) : Stops type sym b app := by
  unfold Stops
  cases h.2 with
  | inl hsub =>
      rw [if_pos hsub.1]
      exact Or.inl h.1
  | inr hunsub =>
      rw [hunsub.1, if_neg types_differ, if_pos rfl]
      exact Or.inl h.1

/-! ### One symbol -/

theorem subscribe_flagsSet (h : FlagsSet app) : FlagsSet (app.subscribe id sym b).1 := by
  unfold subscribe
  split
  · dsimp only
    split
    · exact h
    · exact h
    · intro s v hv
      by_cases hs : s = sym
      · rw [hs, Finmap.lookup_insert, Option.some_inj] at hv
        exact hv.symm
      · rw [Finmap.lookup_insert_of_ne _ hs] at hv
        exact h s v hv
  · exact h

theorem unsubscribe_flagsSet (h : FlagsSet app) : FlagsSet (app.unsubscribe sym b).1 := by
  unfold unsubscribe
  split
  · dsimp only
    split
    · intro s v hv
      by_cases hs : s = sym
      · rw [hs, Finmap.lookup_erase] at hv
        cases hv
      · rw [Finmap.lookup_erase_ne hs] at hv
        exact h s v hv
    · exact h
  · exact h

theorem handleSymbol_flagsSet (type : Char) (id sym : Str) (b : Bool) (h : FlagsSet app) :
    FlagsSet (app.handleSymbol type id sym b).1 := by
  unfold handleSymbol
  split_ifs
  · exact subscribe_flagsSet h
  · exact unsubscribe_flagsSet h
  · exact h

/-- The flags after a subscription of an existing symbol: it has one, as its id says. -/
theorem subscribe_coupled (hc : Coupled app) (hf : FlagsSet app) :
    Coupled (app.subscribe id sym true).1 := by
  rw [coupled_iff] at hc ⊢
  intro s
  unfold subscribe
  cases hs : app.symSub.lookup sym with
  | none => simp [hs, Finmap.mem_insert, hc]
  | some v =>
      have hmem : sym ∈ app.symSub := Finmap.mem_of_lookup_eq_some hs
      rw [hf sym v hs] at hs
      simp only [hs, if_true, Finmap.mem_insert, hc]
      constructor
      · intro h
        cases h with
        | inl heq => rwa [heq]
        | inr h => exact h
      · exact Or.inr

theorem subscribe_coupled_of_missing (hc : Coupled app) :
    Coupled (app.subscribe id sym false).1 ↔ sym ∈ app.symSub := by
  rw [coupled_iff] at hc ⊢
  simp only [subscribe, Bool.false_eq_true, if_false, Finmap.mem_insert, hc]
  constructor
  · intro h
    exact (h sym).mp (Or.inl rfl)
  · intro hmem s
    constructor
    · intro h
      cases h with
      | inl heq => rwa [heq]
      | inr h => exact h
    · exact Or.inr

theorem unsubscribe_coupled (hc : Coupled app) : Coupled (app.unsubscribe sym true).1 := by
  rw [coupled_iff] at hc ⊢
  intro s
  unfold unsubscribe
  cases hs : app.symSub.lookup sym with
  | some v => simp [hs, Finmap.mem_erase, hc]
  | none =>
      have hnot : sym ∉ app.symSub := Finmap.lookup_eq_none.mp hs
      simp only [hs, if_true, Finmap.mem_erase, hc]
      constructor
      · exact And.right
      · intro h
        exact ⟨fun heq => hnot (heq ▸ h), h⟩

theorem unsubscribe_coupled_of_missing (hc : Coupled app) :
    Coupled (app.unsubscribe sym false).1 ↔ sym ∉ app.symSub := by
  rw [coupled_iff] at hc ⊢
  simp only [unsubscribe, Bool.false_eq_true, if_false, Finmap.mem_erase, hc]
  constructor
  · intro h hmem
    exact ((h sym).mpr hmem).1 rfl
  · intro hnot s
    constructor
    · exact And.right
    · intro h
      exact ⟨fun heq => hnot (heq ▸ h), h⟩

/-- Handling a symbol keeps the maps coupled unless it uncouples them. -/
theorem handleSymbol_coupled_iff (type : Char) (id sym : Str) (b : Bool) (hc : Coupled app)
    (hf : FlagsSet app) :
    Coupled (app.handleSymbol type id sym b).1 ↔ ¬ Uncouples type sym b app := by
  unfold handleSymbol Uncouples
  by_cases hsub : type = snapshotPlusUpdates
  · rw [if_pos hsub]
    cases b with
    | true => simp [subscribe_coupled hc hf]
    | false => simp [subscribe_coupled_of_missing hc, hsub, types_differ.symm]
  · rw [if_neg hsub]
    by_cases hunsub : type = disablePrevious
    · rw [if_pos hunsub]
      cases b with
      | true => simp [unsubscribe_coupled hc]
      | false => simp [unsubscribe_coupled_of_missing hc, hunsub, types_differ]
    · simp [hsub, hunsub, hc]

theorem flagsSet_of_handled {r : Option Str} (h : app.handleSymbol type id sym b = (app', r))
    (hf : FlagsSet app) : FlagsSet app' := by
  have hnext := handleSymbol_flagsSet type id sym b hf
  rwa [h] at hnext

theorem coupled_of_handled_iff {r : Option Str} (h : app.handleSymbol type id sym b = (app', r))
    (hc : Coupled app) (hf : FlagsSet app) : Coupled app' ↔ ¬ Uncouples type sym b app := by
  rw [← handleSymbol_coupled_iff type id sym b hc hf, h]

/-! ### The request loop -/

theorem mem_handleSymbol_symSub_of_ne (type : Char) (id : Str) (b : Bool) {t : Str} (h : sym ≠ t) :
    sym ∈ (app.handleSymbol type id t b).1.symSub ↔ sym ∈ app.symSub := by
  unfold handleSymbol subscribe unsubscribe
  split_ifs
  · cases hs : app.symSub.lookup t with
    | none => simp [hs, Finmap.mem_insert, h]
    | some v => cases v <;> simp [hs]
  · rfl
  · cases hs : app.symSub.lookup t with
    | none => simp [hs]
    | some v => simp [hs, Finmap.mem_erase, h]
  · rfl
  · rfl

/-- A symbol that is accepted exists, so it is not the one that uncouples the maps later. -/
theorem uncouples_handleSymbol {t : Str}
    (h : app.handleSymbol type id t (symbolGet (conv.s2ws t)) = (app', none)) :
    Uncouples type sym (symbolGet (conv.s2ws sym)) app' ↔
      Uncouples type sym (symbolGet (conv.s2ws sym)) app := by
  by_cases hsym : sym = t
  · have hstops := not_stops_of_accept h
    rw [hsym]
    constructor
    · intro hu
      have hexists := hu.1
      cases hu.2 with
      | inl hsub => exact (hstops (by rw [Stops, if_pos hsub.1]; exact Or.inl hexists)).elim
      | inr hunsub =>
          refine (hstops ?_).elim
          rw [hunsub.1, Stops, if_neg types_differ, if_pos rfl]
          exact Or.inl hexists
    · intro hu
      exact (hstops hu.stops).elim
  · have hmem : sym ∈ (app.handleSymbol type id t (symbolGet (conv.s2ws t))).1.symSub ↔
        sym ∈ app.symSub := mem_handleSymbol_symSub_of_ne type id _ hsym
    rw [h] at hmem
    simp only [Uncouples, hmem]

theorem goesThrough_zero (groups : List NoRelatedSymGroup) :
    GoesThrough conv symbolGet type 0 groups app := by
  rw [goesThrough_iff conv symbolGet type []]
  exact not_failed_empty

/-- The first `n` groups hold no symbol that uncouples the maps when the loop reaches it. -/
def LoopKeeps (conv : Conversions) (symbolGet : Text → Bool) (type : Char) (n : ℕ)
    (groups : List NoRelatedSymGroup) (app : Application) : Prop :=
  ∀ k < n, ∀ s, groups[k]? = some ⟨some s⟩ → GoesThrough conv symbolGet type k groups app →
    ¬ Uncouples type s (symbolGet (conv.s2ws s)) app

theorem loopKeeps_cons (id : Str) {n : ℕ} {g : NoRelatedSymGroup} {groups : List NoRelatedSymGroup}
    (hg : g.symbol = some sym) :
    LoopKeeps conv symbolGet type (n + 1) (g :: groups) app ↔
      ¬ Uncouples type sym (symbolGet (conv.s2ws sym)) app ∧
        (¬ Stops type sym (symbolGet (conv.s2ws sym)) app →
          ∀ k < n, ∀ s, groups[k]? = some ⟨some s⟩ →
            GoesThrough conv symbolGet type k groups
              (app.handleSymbol type id sym (symbolGet (conv.s2ws sym))).1 →
            ¬ Uncouples type s (symbolGet (conv.s2ws s)) app) := by
  have hgroup : g = ⟨some sym⟩ := by rw [← hg]
  unfold LoopKeeps
  constructor
  · intro h
    refine ⟨h 0 (by omega) sym (by simp [hgroup]) (goesThrough_zero _), ?_⟩
    intro hstops k hk s hs hgoes
    exact h (k + 1) (by omega) s hs ((goesThrough_cons id).mpr ⟨sym, hg, hstops, hgoes⟩)
  · intro h k hk s hs hgoes
    cases k with
    | zero =>
        obtain rfl : sym = s := by simpa [hgroup] using hs
        exact h.1
    | succ k =>
        have ⟨t, ht, hstops, hrest⟩ := (goesThrough_cons id).mp hgoes
        obtain rfl : sym = t := Option.some.inj (hg.symm.trans ht)
        exact h.2 hstops k (by omega) s hs hrest

theorem symbolLoop_flagsSet {n : ℕ} {groups : List NoRelatedSymGroup} (hf : FlagsSet app) :
    FlagsSet (symbolLoop conv symbolGet type id n groups app).1 := by
  fun_induction symbolLoop conv symbolGet type id n groups app with
  | case1 => exact hf
  | case2 => exact hf
  | case3 => exact hf
  | case4 n g groups app t hg app' text hh => exact flagsSet_of_handled hh hf
  | case5 n g groups app t hg app' hh ih => exact ih (flagsSet_of_handled hh hf)

theorem symbolLoop_coupled_iff {n : ℕ} {groups : List NoRelatedSymGroup} (hc : Coupled app)
    (hf : FlagsSet app) :
    Coupled (symbolLoop conv symbolGet type id n groups app).1 ↔
      LoopKeeps conv symbolGet type n groups app := by
  fun_induction symbolLoop conv symbolGet type id n groups app with
  | case1 groups app => simp [hc, LoopKeeps]
  | case2 n app => simp [hc, LoopKeeps]
  | case3 n g groups app hg =>
      simp only [hc, LoopKeeps, true_iff]
      intro k hk s hs hgoes
      cases k with
      | zero =>
          obtain rfl : g = ⟨some s⟩ := by simpa using hs
          simp at hg
      | succ k => simp [goesThrough_cons id, hg] at hgoes
  | case4 n g groups app t hg app' text hh =>
      rw [loopKeeps_cons id hg, coupled_of_handled_iff hh hc hf]
      simp [stops_of_reject hh]
  | case5 n g groups app t hg app' hh ih =>
      have hstops := not_stops_of_accept hh
      have hnot : ¬ Uncouples type t (symbolGet (conv.s2ws t)) app := fun hu => hstops hu.stops
      have hcoupled := (coupled_of_handled_iff hh hc hf).mpr hnot
      rw [ih hcoupled (flagsSet_of_handled hh hf), loopKeeps_cons id hg, hh]
      simp only [LoopKeeps, uncouples_handleSymbol hh, hnot, hstops, not_false_eq_true, true_and,
        forall_const]

/-! ### Runs -/

/-- What the maps need of an event: a logon finds no ids, and a request reaches no symbol that
does not exist and is recorded the other way round. -/
def KeepsCoupled (conv : Conversions) (app : Application) : Event → Prop
  | .logon _ => app.symMDReqID = ∅
  | .request _ message symbolGet =>
      MissesField message ∨ ∀ type ∈ message.subscriptionRequestType,
        ∀ count ∈ message.noRelatedSym,
          LoopKeeps conv symbolGet type count.toNat message.groups app
  | _ => True

theorem onMessage_flagsSet {message : MarketDataRequest} (hf : FlagsSet app) :
    FlagsSet (app.onMessage conv symbolGet message).1 := by
  cases onMessage_cases conv symbolGet message app with
  | inl h =>
      have ⟨_, tag, heq⟩ := h
      rwa [heq]
  | inr h =>
      have ⟨_, type, id, depth, count, _, _, _, _, heq⟩ := h
      rw [heq]
      exact symbolLoop_flagsSet hf

theorem onMessage_coupled_iff {message : MarketDataRequest} (hc : Coupled app)
    (hf : FlagsSet app) (sessionID : SessionID) :
    Coupled (app.onMessage conv symbolGet message).1 ↔
      KeepsCoupled conv app (.request sessionID message symbolGet) := by
  unfold KeepsCoupled
  cases onMessage_cases conv symbolGet message app with
  | inl h =>
      have ⟨hmiss, tag, heq⟩ := h
      simp [heq, hmiss, hc]
  | inr h =>
      have ⟨hmiss, type, id, depth, count, htype, _, _, hcount, heq⟩ := h
      simp [heq, hmiss, htype, hcount, symbolLoop_coupled_iff hc hf]

theorem step_flagsSet (e : Event) (hf : FlagsSet app) : FlagsSet (step conv app e).1 := by
  cases e with
  | create sessionID => exact hf
  | logon sessionID => exact fun s v hv => by simp [step, onLogon] at hv
  | logout sessionID => exact fun s v hv => by simp [step, onLogout] at hv
  | request sessionID message symbolGet => exact onMessage_flagsSet hf
  | tick symbol tick => exact hf

theorem step_coupled_iff (e : Event) (hf : FlagsSet app) (hc : Coupled app) :
    Coupled (step conv app e).1 ↔ KeepsCoupled conv app e := by
  cases e with
  | create sessionID => exact iff_of_true hc trivial
  | logon sessionID =>
      -- the flags are gone, so the ids have to be gone as well
      simp only [step, Coupled, onLogon, KeepsCoupled, Finmap.keys_empty]
      constructor
      · intro h
        apply Finmap.ext_lookup
        intro s
        rw [Finmap.lookup_empty, Finmap.lookup_eq_none, ← Finmap.mem_keys, h]
        simp
      · intro h
        rw [h, Finmap.keys_empty]
  | logout sessionID => exact iff_of_true rfl trivial
  | request sessionID message symbolGet => exact onMessage_coupled_iff hc hf sessionID
  | tick symbol tick => exact iff_of_true hc trivial

theorem quotedSymbols_onTick (symbol : Text) (tick : MTTickShort) :
    conv.narrow symbol ∈ quotedSymbols (app.onTick conv symbol tick) ↔
      conv.narrow symbol ∈ app.symMDReqID := by
  rw [onTick_eq]
  cases h : app.symMDReqID.lookup (conv.narrow symbol) with
  | none => simp [quotedSymbols, Finmap.lookup_eq_none.mp h]
  | some id => simp [quotedSymbols, snapshot, Finmap.mem_of_lookup_eq_some h]

/-- After every prefix of a run the two maps are kept for the same symbols, and a symbol is quoted
exactly when it is recorded as subscribed, if and only if every event of the run keeps them
coupled. -/
theorem maps_coupled_iff (conv : Conversions) (events : List Event) :
    (∀ k, let app := run (step conv) .new (events.take k)
        app.symMDReqID.keys = app.symSub.keys ∧
          ∀ symbol tick, conv.narrow symbol ∈ quotedSymbols (app.onTick conv symbol tick) ↔
            conv.narrow symbol ∈ app.symSub) ↔
      Along (step conv) (KeepsCoupled conv) .new events := by
  have hiff : (∀ k, Coupled (run (step conv) .new (events.take k))) ↔
      Along (step conv) (KeepsCoupled conv) .new events :=
    forall_take_iff_along FlagsSet Coupled (fun _ e hf => step_flagsSet e hf)
      (fun _ e hf hc => step_coupled_iff e hf hc)
      (fun s v hv => by simp [Application.new] at hv) rfl
  rw [← hiff]
  constructor
  · intro h k
    exact (h k).1
  · intro h k
    refine ⟨h k, ?_⟩
    intro symbol tick
    rw [quotedSymbols_onTick]
    exact coupled_iff.mp (h k) _

/-- A request for a symbol that does not exist is rejected, and its id stays. -/
theorem rejected_request_uncouples :
    let app := run (step asciiConversions) .new
      [.create default, .logon default,
        .request default (.ofSymbols '1' (ascii "A") [ascii "EURUSD"]) fun _ => false]
    app.symMDReqID.keys ≠ app.symSub.keys ∧
      quotedSymbols (app.onTick asciiConversions "EURUSD".toList ⟨1, 1⟩) = [ascii "EURUSD"] := by
  decide

end ForexSuite.SubscriptionCoupling
