import BandwidthGovernor.Lib.Run

/-! Runs with what their steps put out.

    What a step puts out is a function of the state and the event; `Logged` collects it along a run.
    Its invariant rule is that of a run, for statements that also speak of what was put out. -/

namespace Lib
variable {S E O : Type} (Step : S → E → S → Prop) (out : S → E → List O)

/-- A run with everything its steps put out, in order. -/
inductive Logged : S → List E → List O → S → Prop where
  | nil (s : S) : Logged s [] [] s
  | cons {s s' s'' : S} {e : E} {es : List E} {log : List O} : Step s e s' → Logged s' es log s'' →
      Logged s (e :: es) (out s e ++ log) s''

variable {Step out}

theorem Run.logged {s s' : S} {es : List E} (h : Run Step s es s') :
    ∃ log, Logged Step out s es log s' := by
  induction h with
  | nil s => exact ⟨[], .nil s⟩
  | cons hs _ ih =>
    obtain ⟨log, hlog⟩ := ih
    exact ⟨_, .cons hs hlog⟩

/-- An invariant of the state and what has been put out so far. -/
theorem Logged.inv_of {P : List O → S → Prop} {Q : E → Prop}
    (hstep : ∀ log s e s', Q e → P log s → Step s e s' → P (log ++ out s e) s') {s s' : S}
    {es : List E} {log : List O} (h : Logged Step out s es log s') (hQ : ∀ e ∈ es, Q e) :
    ∀ {log₀ : List O}, P log₀ s → P (log₀ ++ log) s' := by
  induction h with
  | nil s => exact fun hP => (List.append_nil _).symm ▸ hP
  | cons hs _ ih =>
    intro log₀ hP
    rw [List.forall_mem_cons] at hQ
    rw [← List.append_assoc]
    exact ih hQ.2 (hstep _ _ _ _ hQ.1 hP hs)

end Lib
