import Mathlib.Data.List.Basic

/-! Runs of a labelled transition system: an initial state, a list of events, a final state.

    `Run.inv` is the invariant rule every safety argument uses; `Run.inv_of` is the same with a
    condition on the events of the run. -/

namespace Lib
variable {S E : Type} (Step : S → E → S → Prop)

/-- A run from one state to another through the listed events. -/
inductive Run : S → List E → S → Prop where
  | nil (s : S) : Run s [] s
  | cons {s s' s'' : S} {e : E} {es : List E} : Step s e s' → Run s' es s'' → Run s (e :: es) s''

namespace Run
variable {Step}

theorem append {s s' s'' : S} {es fs : List E} (h : Run Step s es s') (h' : Run Step s' fs s'') :
    Run Step s (es ++ fs) s'' := by
  induction h with
  | nil => exact h'
  | cons hs _ ih => exact cons hs (ih h')

theorem single {s s' : S} {e : E} (h : Step s e s') : Run Step s [e] s' := cons h (nil _)

/-- An invariant kept by every step whose event satisfies `Q` holds at the end of every run whose
    events all do. -/
theorem inv_of {P : S → Prop} {Q : E → Prop}
    (hstep : ∀ s e s', Q e → P s → Step s e s' → P s') {s s' : S} {es : List E}
    (h : Run Step s es s') (hQ : ∀ e ∈ es, Q e) (hP : P s) : P s' := by
  induction h with
  | nil => exact hP
  | cons hs _ ih =>
    rw [List.forall_mem_cons] at hQ
    exact ih hQ.2 (hstep _ _ _ hQ.1 hP hs)

theorem inv {P : S → Prop} (hstep : ∀ s e s', P s → Step s e s' → P s') {s s' : S} {es : List E}
    (h : Run Step s es s') (hP : P s) : P s' :=
  h.inv_of (Q := fun _ => True) (fun s e s' _ => hstep s e s') (fun _ _ => trivial) hP

/-- A run is one of every relation its steps are in. -/
theorem mono {Step' : S → E → S → Prop} (hstep : ∀ s e s', Step s e s' → Step' s e s') {s s' : S}
    {es : List E} (h : Run Step s es s') : Run Step' s es s' := by
  induction h with
  | nil => exact nil _
  | cons hs _ ih => exact cons (hstep _ _ _ hs) ih

/-- Events that can be carried out one after another make a run. -/
theorem of_foldlM {perform : S → E → Option S}
    (hstep : ∀ {s e s'}, perform s e = some s' → Step s e s') :
    ∀ {es : List E} {s s' : S}, es.foldlM perform s = some s' → Run Step s es s'
  | [], s, s', h => Option.some.inj h ▸ nil s
  | e :: es, s, s', h => by
    rw [List.foldlM_cons] at h
    obtain ⟨s₁, h₁, h₂⟩ := Option.bind_eq_some_iff.mp h
    exact cons (hstep h₁) (of_foldlM hstep h₂)

end Run
end Lib
