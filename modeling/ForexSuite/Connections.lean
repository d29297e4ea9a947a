import ForexSuite.EventMachine
import Mathlib.Data.Finset.Insert
import Mathlib.Data.Finset.Erase

/-!
# The life of a connection

A transport names its connections by handles. It opens each handle at most once,
closes it at most once after that, and delivers messages in between. `Lifecycle`
records which handles have been opened and which of them are still open; an
orderly run keeps to these rules at every event.
-/
namespace ForexSuite.Connections

open EventMachine

variable {η ε : Type*} [DecidableEq η]

/-- What an event means to a connection. -/
inductive Signal (η : Type*) where
  | opens (hdl : η)
  | closes (hdl : η)
  | uses (hdl : η)
  | none

structure Lifecycle (η : Type*) where
  opened : Finset η
  live : Finset η

namespace Lifecycle

def new : Lifecycle η := ⟨∅, ∅⟩

def after (l : Lifecycle η) : Signal η → Lifecycle η
  | .opens hdl => ⟨insert hdl l.opened, insert hdl l.live⟩
  | .closes hdl => ⟨l.opened, l.live.erase hdl⟩
  | .uses _ => l
  | .none => l

/-- A handle is opened once, and is closed and used only while it is open. -/
def Permits (l : Lifecycle η) : Signal η → Prop
  | .opens hdl => hdl ∉ l.opened
  | .closes hdl => hdl ∈ l.live
  | .uses hdl => hdl ∈ l.live
  | .none => True

instance (l : Lifecycle η) : (x : Signal η) → Decidable (l.Permits x)
  | .opens hdl => inferInstanceAs (Decidable (hdl ∉ l.opened))
  | .closes hdl => inferInstanceAs (Decidable (hdl ∈ l.live))
  | .uses hdl => inferInstanceAs (Decidable (hdl ∈ l.live))
  | .none => inferInstanceAs (Decidable True)

/-- The lifecycle as a machine over the events of a server. -/
def step (signal : ε → Signal η) (l : Lifecycle η) (e : ε) : Lifecycle η × Unit :=
  (l.after (signal e), ())

end Lifecycle

/-- The transport keeps to its rules at every event of the run. -/
def Orderly (signal : ε → Signal η) (events : List ε) : Prop :=
  Along (Lifecycle.step signal) (fun l e => l.Permits (signal e)) .new events

/-- The handles that have been opened and not closed. -/
def openAfter (signal : ε → Signal η) (events : List ε) : Finset η :=
  (run (Lifecycle.step signal) .new events).live

/-- The handles that have been opened, closed or not. -/
def openedAfter (signal : ε → Signal η) (events : List ε) : Finset η :=
  (run (Lifecycle.step signal) .new events).opened

theorem after_opened_eq_live_iff {l : Lifecycle η} {x : Signal η} (hl : l.opened = l.live)
    (hpermits : l.Permits x) :
    (l.after x).opened = (l.after x).live ↔ ∀ hdl, x ≠ .closes hdl := by
  cases x with
  | opens hdl => simp [Lifecycle.after, hl]
  | uses hdl => simp [Lifecycle.after, hl]
  | none => simp [Lifecycle.after, hl]
  | closes hdl =>
      have hopened : hdl ∈ l.opened := hl ▸ hpermits
      constructor
      · intro hsame
        rw [Lifecycle.after] at hsame
        rw [hsame] at hopened
        exact (Finset.notMem_erase hdl l.live hopened).elim
      · intro hno
        exact (hno hdl rfl).elim

/-- What the transport opens is what is open, after every prefix of the run, exactly if it closes
nothing. -/
theorem opened_eq_open_iff {signal : ε → Signal η} {events : List ε} (h : Orderly signal events) :
    (∀ k, openedAfter signal (events.take k) = openAfter signal (events.take k)) ↔
      ∀ e ∈ events, ∀ hdl, signal e ≠ .closes hdl := by
  have hclosed : Along (Lifecycle.step signal) (fun _ e => ∀ hdl, signal e ≠ .closes hdl) .new
      events ↔ ∀ e ∈ events, ∀ hdl, signal e ≠ .closes hdl := along_const
  rw [← hclosed]
  refine forall_take_iff_along_of
    (fun (_ : Unit) l es => l.opened = l.live ∧
      Along (Lifecycle.step signal) (fun l e => l.Permits (signal e)) l es)
    (fun _ l read => (run (Lifecycle.step signal) l read).opened =
      (run (Lifecycle.step signal) l read).live) (fun _ _ _ => ()) ?_ ?_ ?_ (a := ()) ⟨rfl, h⟩
  · intro _ l _ hl
    exact hl.1
  · intro _ l e _ hl
    exact after_opened_eq_live_iff hl.1 hl.2.1
  · intro _ l e _ hl hno
    exact ⟨⟨(after_opened_eq_live_iff hl.1 hl.2.1).mpr hno, hl.2.2⟩, fun _ => Iff.rfl⟩

/-- A list to which every handle that is opened is added, and from which none is removed, holds
the handles that have been opened, each once. -/
theorem handles_eq_opened {σ ω : Type*} {step : σ → ε → σ × ω} {signal : ε → Signal η}
    (handles : σ → List η)
    (hopens : ∀ s e hdl, signal e = .opens hdl → handles (step s e).1 = handles s ++ [hdl])
    (hothers : ∀ s e, (∀ hdl, signal e ≠ .opens hdl) → handles (step s e).1 = handles s)
    {s : σ} (hs : handles s = []) {events : List ε} (h : Orderly signal events) :
    (handles (run step s events) : Multiset η) = (openedAfter signal events).val := by
  refine h.related (fun s l => (handles s : Multiset η) = l.opened.val) ?_ (by rw [hs]; rfl)
  intro s l e hsl hpermits
  cases hsignal : signal e with
  | opens hdl =>
      rw [hsignal] at hpermits
      have hval : (insert hdl l.opened).val = hdl ::ₘ l.opened.val :=
        Finset.insert_val_of_notMem hpermits
      rw [hopens s e hdl hsignal]
      simp only [Lifecycle.step, hsignal, Lifecycle.after, hval, ← hsl]
      exact Multiset.coe_eq_coe.mpr (List.perm_append_singleton hdl (handles s))
  | closes hdl =>
      rw [hothers s e (by simp [hsignal])]
      simpa only [Lifecycle.step, hsignal, Lifecycle.after] using hsl
  | uses hdl =>
      rw [hothers s e (by simp [hsignal])]
      simpa only [Lifecycle.step, hsignal, Lifecycle.after] using hsl
  | none =>
      rw [hothers s e (by simp [hsignal])]
      simpa only [Lifecycle.step, hsignal, Lifecycle.after] using hsl

end ForexSuite.Connections
