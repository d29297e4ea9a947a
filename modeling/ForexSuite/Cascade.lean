import Mathlib.Data.Finset.Card
import Mathlib.Logic.Relation

/-!
# Finitely branching cascades

Each element triggers a finite list of further elements. `wave next n` lists
everything triggered after exactly `n` rounds, so a cascade stops precisely when
some wave is empty. When all triggered elements lie in one finite set, stopping
is the absence of a reachable cycle, and the number of rounds is bounded by the
size of that set.
-/
namespace ForexSuite.Cascade

open Relation
variable {α β : Type*}

/-- Everything triggered after exactly `n` rounds, with multiplicity. -/
def wave (next : α → List α) : ℕ → List α → List α
  | 0, xs => xs
  | n + 1, xs => wave next n (xs.flatMap next)

def Triggers (next : α → List α) (a b : α) : Prop := b ∈ next a

variable {next : α → List α}

@[simp] theorem wave_zero (xs : List α) : wave next 0 xs = xs := rfl

end ForexSuite.Cascade
