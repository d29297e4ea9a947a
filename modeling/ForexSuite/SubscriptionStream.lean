import ForexSuite.PriceServer

/-!
# Streaming is exactly the subscription

The abstract server keeps one set of symbol names. It is emptied by every logon
and logout; a request goes through its symbols in order and stops at the first
one it has to reject. The two maps of the price server refine this set on the
symbols that exist: `Coupled` says that both hold exactly the subscribed ones,
and every branch of the request loop keeps it. A symbol that does not exist may
be left in `symMDReqID`, which is why nothing is said about such symbols.
-/
namespace ForexSuite.SubscriptionStream

open TextNumbers EventMachine PriceServer Application

def subscribeOne (exist : Text → Bool) (type : Char) (s : Text) (subs : Finset Text) :
    Finset Text × Bool :=
  if type = '1' then
    if exist s = true ∧ s ∉ subs then (insert s subs, false) else (subs, true)
  else if type = '2' then
    if exist s = true ∧ s ∈ subs then (subs.erase s, false) else (subs, true)
  else (subs, false)

/-- The symbols of one request in order, up to the first one rejected. -/
def subscribeAll (exist : Text → Bool) (type : Char) :
    List Text → Finset Text → Finset Text × Bool
  | [], subs => (subs, false)
  | s :: names, subs =>
      let r := subscribeOne exist type s subs
      if r.2 then (r.1, true) else subscribeAll exist type names r.1

def requestedNames (conv : Conversions) (message : MarketDataRequest) : List Text :=
  message.groups.filterMap fun g => g.symbol.map conv.s2ws

/-- The abstract server. Its output is the list of request ids it rejects. -/
def specStep (conv : Conversions) (exist : Text → Bool) (subs : Finset Text) :
    Event → Finset Text × List Str
  | .create _ => (subs, [])
  | .logon _ => (∅, [])
  | .logout _ => (∅, [])
  | .request _ message _ =>
      let r := subscribeAll exist (message.subscriptionRequestType.getD '0')
        (requestedNames conv message) subs
      (r.1, if r.2 then [message.mdReqID.getD []] else [])
  | .tick _ _ => (subs, [])

/-- A request that carries its required fields and as many groups with a symbol as
NoRelatedSym says. -/
structure Complete (message : MarketDataRequest) : Prop where
  type : message.subscriptionRequestType.isSome
  id : message.mdReqID.isSome
  depth : message.marketDepth.isSome
  count : message.noRelatedSym = some message.groups.length
  symbols : ∀ g ∈ message.groups, g.symbol.isSome

/-- Logon and logout of one session alternate, starting with logon, and requests come only
in between. -/
def Alternates (sessionID : SessionID) : Bool → List Event → Prop
  | _, [] => True
  | _, .create _ :: _ => False
  | on, .logon s :: es => s = sessionID ∧ on = false ∧ Alternates sessionID true es
  | on, .logout s :: es => s = sessionID ∧ on = true ∧ Alternates sessionID false es
  | on, .request s _ _ :: es => s = sessionID ∧ on = true ∧ Alternates sessionID on es
  | on, .tick _ _ :: es => Alternates sessionID on es

/-- What is asked of a request of the run: it is complete, `SymbolGet` gives the answers
that are constant over the run, and the conversions agree on its symbols. -/
def Regular (conv : Conversions) (exist : Text → Bool) : Event → Prop
  | .request _ message symbolGet => Complete message ∧ symbolGet = exist ∧
      ∀ g ∈ message.groups, ∀ b, g.symbol = some b → conv.narrow (conv.s2ws b) = b
  | _ => True

/-- Both maps hold exactly the subscribed symbols, as far as existing symbols go. -/
def Coupled (conv : Conversions) (exist : Text → Bool) (app : Application)
    (subs : Finset Text) : Prop :=
  ∀ s, exist s = true → conv.s2ws (conv.narrow s) = s →
    (conv.narrow s ∈ app.symMDReqID ↔ s ∈ subs) ∧
    app.symSub.lookup (conv.narrow s) = if s ∈ subs then some true else none

variable {conv : Conversions} {exist : Text → Bool} {app : Application} {subs : Finset Text}

theorem coupled_empty (h : app.symMDReqID = ∅) (h' : app.symSub = ∅) :
    Coupled conv exist app ∅ := by
  intro s _ _
  simp [h, h', Finmap.notMem_empty]

/-- On names the conversions agree on, the key of a name and the name determine each other. -/
theorem narrow_eq_iff {s : Text} {b : Str} (hs : conv.s2ws (conv.narrow s) = s)
    (hb : conv.narrow (conv.s2ws b) = b) : conv.narrow s = b ↔ s = conv.s2ws b := by
  constructor
  · intro h
    rw [← h, hs]
  · intro h
    rw [h, hb]

/-- The id written before the checks does not disturb the coupling when the name is
subscribed already or does not exist. -/
theorem Coupled.insert_id {id b : Str} (hb : conv.narrow (conv.s2ws b) = b)
    (h : Coupled conv exist app subs)
    (hreject : exist (conv.s2ws b) = true → conv.s2ws b ∈ subs) :
    Coupled conv exist { app with symMDReqID := app.symMDReqID.insert b id } subs := by
  intro s he hs
  refine ⟨?_, (h s he hs).2⟩
  rw [Finmap.mem_insert, (h s he hs).1, narrow_eq_iff hs hb]
  constructor
  · intro hcase
    rcases hcase with rfl | hmem
    · exact hreject he
    · exact hmem
  · exact Or.inr

theorem Coupled.erase_id {b : Str} (hb : conv.narrow (conv.s2ws b) = b)
    (h : Coupled conv exist app subs)
    (hreject : exist (conv.s2ws b) = true → conv.s2ws b ∉ subs) :
    Coupled conv exist { app with symMDReqID := app.symMDReqID.erase b } subs := by
  intro s he hs
  refine ⟨?_, (h s he hs).2⟩
  rw [Finmap.mem_erase, (h s he hs).1, Ne, narrow_eq_iff hs hb]
  constructor
  · exact And.right
  · intro hmem
    have hne : s ≠ conv.s2ws b := by
      intro heq
      subst heq
      exact hreject he hmem
    exact ⟨hne, hmem⟩

/-- A subscription enters the name into both maps. -/
theorem Coupled.insert {b : Str} (id : Str) (hb : conv.narrow (conv.s2ws b) = b)
    (h : Coupled conv exist app subs) :
    Coupled conv exist
      { app with symMDReqID := app.symMDReqID.insert b id, symSub := app.symSub.insert b true }
      (insert (conv.s2ws b) subs) := by
  intro s he hs
  constructor
  · rw [Finmap.mem_insert, (h s he hs).1, narrow_eq_iff hs hb, Finset.mem_insert]
  · by_cases hsb : s = conv.s2ws b
    · rw [hsb, hb, Finmap.lookup_insert, if_pos (Finset.mem_insert_self _ _)]
    · rw [Finmap.lookup_insert_of_ne _ fun hk => hsb ((narrow_eq_iff hs hb).mp hk), (h s he hs).2]
      simp [hsb]

theorem Coupled.erase {b : Str} (hb : conv.narrow (conv.s2ws b) = b)
    (h : Coupled conv exist app subs) :
    Coupled conv exist
      { app with symMDReqID := app.symMDReqID.erase b, symSub := app.symSub.erase b }
      (subs.erase (conv.s2ws b)) := by
  intro s he hs
  constructor
  · rw [Finmap.mem_erase, (h s he hs).1, Ne, narrow_eq_iff hs hb, Finset.mem_erase]
  · by_cases hsb : s = conv.s2ws b
    · rw [hsb, hb, Finmap.lookup_erase, if_neg (Finset.notMem_erase _ _)]
    · rw [Finmap.lookup_erase_ne fun hk => hsb ((narrow_eq_iff hs hb).mp hk), (h s he hs).2]
      simp [hsb]

theorem subscribe_refines (id : Str) {b : Str} (hb : conv.narrow (conv.s2ws b) = b)
    (h : Coupled conv exist app subs) :
    if exist (conv.s2ws b) = true ∧ conv.s2ws b ∉ subs then
      (app.subscribe id b (exist (conv.s2ws b))).2 = none ∧
        Coupled conv exist (app.subscribe id b (exist (conv.s2ws b))).1 (insert (conv.s2ws b) subs)
    else
      (app.subscribe id b (exist (conv.s2ws b))).2.isSome ∧
        Coupled conv exist (app.subscribe id b (exist (conv.s2ws b))).1 subs := by
  by_cases he : exist (conv.s2ws b) = true
  · have hsub := (h (conv.s2ws b) he (by rw [hb])).2
    rw [hb] at hsub
    by_cases hmem : conv.s2ws b ∈ subs
    · rw [if_neg (by simp [hmem])]
      rw [if_pos hmem] at hsub
      simp only [Application.subscribe, he, if_true, hsub]
      exact ⟨rfl, h.insert_id hb fun _ => hmem⟩
    · rw [if_pos ⟨he, hmem⟩]
      rw [if_neg hmem] at hsub
      simp only [Application.subscribe, he, if_true, hsub]
      exact ⟨trivial, h.insert id hb⟩
  · rw [if_neg fun hc => he hc.1]
    rw [Bool.not_eq_true] at he
    simp only [Application.subscribe, he, Bool.false_eq_true, if_false]
    exact ⟨rfl, h.insert_id hb fun hc => by simp [he] at hc⟩

theorem unsubscribe_refines {b : Str} (hb : conv.narrow (conv.s2ws b) = b)
    (h : Coupled conv exist app subs) :
    if exist (conv.s2ws b) = true ∧ conv.s2ws b ∈ subs then
      (app.unsubscribe b (exist (conv.s2ws b))).2 = none ∧
        Coupled conv exist (app.unsubscribe b (exist (conv.s2ws b))).1 (subs.erase (conv.s2ws b))
    else
      (app.unsubscribe b (exist (conv.s2ws b))).2.isSome ∧
        Coupled conv exist (app.unsubscribe b (exist (conv.s2ws b))).1 subs := by
  by_cases he : exist (conv.s2ws b) = true
  · have hsub := (h (conv.s2ws b) he (by rw [hb])).2
    rw [hb] at hsub
    by_cases hmem : conv.s2ws b ∈ subs
    · rw [if_pos ⟨he, hmem⟩]
      rw [if_pos hmem] at hsub
      simp only [Application.unsubscribe, he, if_true, hsub]
      exact ⟨trivial, h.erase hb⟩
    · rw [if_neg fun hc => hmem hc.2]
      rw [if_neg hmem] at hsub
      simp only [Application.unsubscribe, he, if_true, hsub]
      exact ⟨rfl, h.erase_id hb fun _ => hmem⟩
  · rw [if_neg fun hc => he hc.1]
    rw [Bool.not_eq_true] at he
    simp only [Application.unsubscribe, he, Bool.false_eq_true, if_false]
    exact ⟨rfl, h.erase_id hb fun hc => by simp [he] at hc⟩

theorem handleSymbol_refines (type : Char) (id : Str) {b : Str}
    (hb : conv.narrow (conv.s2ws b) = b)
    (h : Coupled conv exist app subs) :
    (app.handleSymbol type id b (exist (conv.s2ws b))).2.isSome =
        (subscribeOne exist type (conv.s2ws b) subs).2 ∧
      Coupled conv exist (app.handleSymbol type id b (exist (conv.s2ws b))).1
        (subscribeOne exist type (conv.s2ws b) subs).1 := by
  unfold handleSymbol subscribeOne snapshotPlusUpdates disablePrevious
  split_ifs with h₁ hc h₂ hc
  · have hr := subscribe_refines id hb h
    rw [if_pos hc] at hr
    exact ⟨by simp [hr.1], hr.2⟩
  · have hr := subscribe_refines id hb h
    rwa [if_neg hc] at hr
  · have hr := unsubscribe_refines hb h
    rw [if_pos hc] at hr
    exact ⟨by simp [hr.1], hr.2⟩
  · have hr := unsubscribe_refines hb h
    rwa [if_neg hc] at hr
  · exact ⟨rfl, h⟩

/-- The request loop refines the abstract one: induction on the groups not read yet. -/
theorem symbolLoop_refines {type : Char} {id : Str} (groups : List NoRelatedSymGroup)
    (hsome : ∀ g ∈ groups, g.symbol.isSome)
    (hagree : ∀ g ∈ groups, ∀ b, g.symbol = some b → conv.narrow (conv.s2ws b) = b)
    (h : Coupled conv exist app subs) :
    Coupled conv exist (symbolLoop conv exist type id groups.length groups app).1
        (subscribeAll exist type (groups.filterMap fun g => g.symbol.map conv.s2ws) subs).1 ∧
      rejectedIDs (symbolLoop conv exist type id groups.length groups app).2 =
        if (subscribeAll exist type (groups.filterMap fun g => g.symbol.map conv.s2ws) subs).2
        then [id] else [] := by
  induction groups generalizing app subs with
  | nil => exact ⟨h, rfl⟩
  | cons g groups ih =>
      obtain ⟨b, hg⟩ := Option.isSome_iff_exists.mp (hsome g (by simp))
      have hb := hagree g (by simp) b hg
      have hstep := handleSymbol_refines type id hb h
      simp only [List.length_cons, symbolLoop, hg, List.filterMap_cons, Option.map_some,
        subscribeAll]
      rcases hr : app.handleSymbol type id b (exist (conv.s2ws b)) with ⟨app', _ | text⟩
      · rw [hr] at hstep
        rw [← hstep.1, Option.isSome_none]
        exact ih (fun g hg => hsome g (by simp [hg])) (fun g hg => hagree g (by simp [hg])) hstep.2
      · rw [hr] at hstep
        rw [← hstep.1, Option.isSome_some]
        exact ⟨hstep.2, rfl⟩

theorem onMessage_refines {message : MarketDataRequest} (hc : Complete message)
    (hagree : ∀ g ∈ message.groups, ∀ b, g.symbol = some b → conv.narrow (conv.s2ws b) = b)
    (h : Coupled conv exist app subs) (sessionID : SessionID) :
    Coupled conv exist (app.onMessage conv exist message).1
        (specStep conv exist subs (.request sessionID message exist)).1 ∧
      rejectedIDs (app.onMessage conv exist message).2 =
        (specStep conv exist subs (.request sessionID message exist)).2 := by
  obtain ⟨type, ht⟩ := Option.isSome_iff_exists.mp hc.type
  obtain ⟨id, hid⟩ := Option.isSome_iff_exists.mp hc.id
  obtain ⟨depth, hd⟩ := Option.isSome_iff_exists.mp hc.depth
  simp only [onMessage, ht, hid, hd, hc.count, specStep, requestedNames, Option.getD_some]
  exact symbolLoop_refines message.groups hc.symbols hagree h

/-- The coupling of a run: between a logout and the next logon both maps are empty, which is
what lets `onLogon` leave one of them alone. -/
structure Refines (conv : Conversions) (exist : Text → Bool) (on : Bool) (app : Application)
    (subs : Finset Text) : Prop where
  coupled : Coupled conv exist app subs
  off : on = false → app.symMDReqID = ∅ ∧ app.symSub = ∅

theorem onTick_quotes (h : Coupled conv exist app subs) {s : Text} (he : exist s = true)
    (hs : conv.s2ws (conv.narrow s) = s) (tick : MTTickShort) :
    quotedSymbols (app.onTick conv s tick) = if s ∈ subs then [conv.narrow s] else [] := by
  have hmem := (h s he hs).1
  rw [onTick_eq]
  by_cases hsub : s ∈ subs
  · obtain ⟨id, hid⟩ := Finmap.mem_iff.mp (hmem.mpr hsub)
    rw [hid, if_pos hsub]
    rfl
  · rw [Finmap.lookup_eq_none.mpr fun hk => hsub (hmem.mp hk), if_neg hsub]
    rfl

theorem run_refines {sessionID : SessionID} {on : Bool} (events rest : List Event)
    (halt : Alternates sessionID on (events ++ rest))
    (hreg : ∀ e ∈ events ++ rest, Regular conv exist e) (h : Refines conv exist on app subs) :
    ∃ on', Alternates sessionID on' rest ∧
      Refines conv exist on' (run (step conv) app events)
        (run (specStep conv exist) subs events) := by
  induction events generalizing on app subs with
  | nil => exact ⟨on, halt, h⟩
  | cons e events ih =>
      have hreg' : ∀ e ∈ events ++ rest, Regular conv exist e := fun e he => hreg e (by simp [he])
      cases e with
      | create s => exact halt.elim
      | logon s =>
          obtain ⟨-, rfl, halt⟩ := halt
          exact ih halt hreg' ⟨coupled_empty (h.off rfl).1 rfl, by simp⟩
      | logout s =>
          obtain ⟨-, -, halt⟩ := halt
          exact ih halt hreg' ⟨coupled_empty rfl rfl, fun _ => ⟨rfl, rfl⟩⟩
      | request s message symbolGet =>
          obtain ⟨-, rfl, halt⟩ := halt
          obtain ⟨hc, rfl, hagree⟩ := hreg (.request s message symbolGet) (by simp)
          exact ih halt hreg' ⟨(onMessage_refines hc hagree h.coupled s).1, by simp⟩
      | tick s tick => exact ih halt hreg' h

/-- One session, logging on and off in turn, sends well-formed requests about symbols on
which the string conversions agree. At every point of the run the server rejects exactly
the requests the abstract server rejects, and a tick of an existing symbol is forwarded
if and only if the symbol is subscribed there. -/
theorem streams_exactly_subscribed (conv : Conversions) (exist : Text → Bool)
    (sessionID : SessionID) (events rest : List Event)
    (halt : Alternates sessionID false (events ++ rest))
    (hreg : ∀ e ∈ events ++ rest, Regular conv exist e) :
    let app := run (step conv) (Application.new.onCreate sessionID) events
    let subs := run (specStep conv exist) ∅ events
    (∀ e ∈ rest.head?, rejectedIDs (step conv app e).2 = (specStep conv exist subs e).2) ∧
      ∀ s, exist s = true → conv.s2ws (conv.narrow s) = s → ∀ tick,
        quotedSymbols (app.onTick conv s tick) = if s ∈ subs then [conv.narrow s] else [] := by
  intro app subs
  have hstart : Refines conv exist false (Application.new.onCreate sessionID) ∅ :=
    ⟨coupled_empty rfl rfl, fun _ => ⟨rfl, rfl⟩⟩
  obtain ⟨on, halt', href⟩ := run_refines events rest halt hreg hstart
  refine ⟨?_, fun s he hs tick => onTick_quotes href.coupled he hs tick⟩
  intro e he
  obtain ⟨rest', rfl⟩ : ∃ rest', rest = e :: rest' := List.head?_eq_some_iff.mp he
  cases e with
  | create s => exact halt'.elim
  | logon s => rfl
  | logout s => rfl
  | request s message symbolGet =>
      obtain ⟨hc, rfl, hagree⟩ := hreg (.request s message symbolGet) (by simp)
      exact (onMessage_refines hc hagree href.coupled s).2
  | tick s tick => exact rejectedIDs_onTick conv s tick app

theorem streams_exactly_subscribed_run :
    let eurusd := ascii "EURUSD"
    let exist : Text → Bool := fun s => s = "EURUSD".toList
    let subscribe id := Event.request default (.ofSymbols '1' (ascii id) [eurusd]) exist
    let app := run (step asciiConversions) (Application.new.onCreate default)
      [.logon default, subscribe "A"]
    rejectedIDs (step asciiConversions app (subscribe "B")).2 = [ascii "B"] ∧
      quotedSymbols (app.onTick asciiConversions "EURUSD".toList ⟨1, 2⟩) = [eurusd] := by
  intro eurusd exist subscribe app
  have hsubscribe (id : String) : Regular asciiConversions exist (subscribe id) := by
    refine ⟨⟨rfl, rfl, rfl, rfl, by simp [MarketDataRequest.ofSymbols]⟩, rfl, ?_⟩
    intro g hg b hb
    obtain rfl : g = ⟨some eurusd⟩ := by simpa [MarketDataRequest.ofSymbols] using hg
    obtain rfl : eurusd = b := by simpa using hb
    decide
  have hreg : ∀ e ∈ [.logon default, subscribe "A"] ++ [subscribe "B"],
      Regular asciiConversions exist e := by
    simp only [List.cons_append, List.nil_append, List.forall_mem_cons, hsubscribe]
    simp [Regular]
  have h := streams_exactly_subscribed asciiConversions exist default
    [.logon default, subscribe "A"] [subscribe "B"] ⟨rfl, rfl, rfl, rfl, rfl, rfl, trivial⟩ hreg
  exact ⟨(h.1 _ rfl).trans (by decide), (h.2 _ (by decide) (by decide) _).trans (by decide)⟩

end ForexSuite.SubscriptionStream
