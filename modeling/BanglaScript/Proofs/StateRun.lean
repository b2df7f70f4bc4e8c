/-!
# Runs of stateful computations

Lowering, checking, numbering and emission all thread a state through a walk.
The equations here say what a run of such a computation is, one for each way to
build one, in terms of the two components of the runs of its parts.
-/

namespace BanglaScript.StateRun

variable {σ α β : Type}

theorem run_pure (value : α) (state : σ) : (pure value : StateM σ α).run state = (value, state) :=
  rfl

theorem run_bind (first : StateM σ α) (next : α → StateM σ β) (state : σ) :
    (first >>= next).run state = (next (first.run state).1).run (first.run state).2 :=
  rfl

theorem run_get (state : σ) : (get : StateM σ σ).run state = (state, state) :=
  rfl

theorem run_modify (change : σ → σ) (state : σ) :
    (modify change : StateM σ PUnit).run state = (⟨⟩, change state) :=
  rfl

/-! ## Relations between the states before and behind a computation -/

/-- Whatever the state before, the state behind is related to it. -/
def Relates (relation : σ → σ → Prop) (computation : StateM σ α) : Prop :=
  ∀ state, relation state (computation.run state).2

end BanglaScript.StateRun
