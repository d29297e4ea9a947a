import ForexSuite.Cascade
import ForexSuite.CopierRouting

/-!
# Copies of copies

The order of a copy is a deal of the target account, placed by a dealer, and is
handed to the plugin like any other deal. The test a rule has to pass when it is
loaded looks at its own target only and excludes that an account copies to
itself. Longer cycles can be loaded; copying started by a deal ends if and only
if its account reaches none of them.
-/
namespace ForexSuite.CopierCascade

open TextNumbers CopierConfig CopierPlugin CopierLoading CopierRouting Cascade Relation

def nextAccounts (check : Text → Text → Bool) (api : ServerApi) (p : CPluginInstance)
    (symbol : Text) (login : UInt64) : List UInt64 :=
  pushedTargets check api p (.client login symbol)

def Copies (check : Text → Text → Bool) (api : ServerApi) (p : CPluginInstance) (symbol : Text) :
    UInt64 → UInt64 → Prop :=
  Triggers (nextAccounts check api p symbol)

variable {check : Text → Text → Bool} {api : ServerApi} {p : CPluginInstance} {symbol : Text}
  {userGetAtLoad : UserGet}

theorem copies_iff {a b : UInt64} :
    Copies check api p symbol a b ↔
      ∃ sc ∈ p.symbolconfig, ∃ t, RoutesTo check api (.client a symbol) sc t ∧ b = toUINT64 t := by
  rw [Copies, Triggers, nextAccounts, pushedTargets_eq rfl, List.mem_filterMap]
  simp only [copyFor_target_eq_some]

theorem Copies.rule {a b : UInt64} (h : Copies check api p symbol a b) :
    ∃ sc ∈ p.symbolconfig, ∃ r ∈ sc.rules,
      r.Matches check (userGroup api.userGet a) (toLong a) ∧ b = toUINT64 r.targetlogin := by
  obtain ⟨sc, hsc, t, ⟨-, ht⟩, rfl⟩ := copies_iff.mp h
  obtain ⟨r, hr, hmatch, rfl⟩ := searchGroupConfig_sound ht
  exact ⟨sc, hsc, r, hr, hmatch, rfl⟩

end ForexSuite.CopierCascade
