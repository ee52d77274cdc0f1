import FerroFlow.Lib.Transition
import Mathlib.Order.WellFounded

/-! Endless runs. Where one party's steps bring it ever closer to its goal, and nobody else's take it away
from there, the party gets there unless it is neglected for ever. -/

namespace Transition

variable {State Label Rank : Type*} {step : State → Label → State → Prop} {own : Label → Prop}
  {states : ℕ → State} {labels : ℕ → Label}

def Endless (step : State → Label → State → Prop) (states : ℕ → State) (labels : ℕ → Label) : Prop :=
  ∀ time, step (states time) (labels time) (states (time + 1))

/-- A party that can always go on from some time on does so at last. -/
def Fair (step : State → Label → State → Prop) (own : Label → Prop) (states : ℕ → State) (labels : ℕ → Label) :
    Prop :=
  ∀ time, (∀ later ≥ time, ∃ label next, own label ∧ step (states later) label next) →
    ∃ later ≥ time, own (labels later)

structure Approaches [Preorder Rank] (step : State → Label → State → Prop) (own : Label → Prop)
    (waiting goal : State → Prop) (rank : State → Rank) : Prop where
  goesOn : ∀ state, waiting state → ∃ label next, own label ∧ step state label next
  next : ∀ state label after, waiting state → step state label after →
    goal after ∨ (waiting after ∧ rank after ≤ rank state ∧ (own label → rank after < rank state))

theorem Endless.run (endless : Endless step states labels) {time later : ℕ} (order : time ≤ later) :
    ∃ taken, Run step (states time) taken (states later) := by
  induction later, order using Nat.le_induction with
  | base => exact ⟨[], Run.nil _⟩
  | succ later _ ih =>
      obtain ⟨taken, run⟩ := ih
      exact ⟨taken ++ [labels later], run.append (Run.cons (endless later) (Run.nil _))⟩

def preceded {α : Type*} (first : α) (rest : ℕ → α) : ℕ → α
  | 0 => first
  | time + 1 => rest time

theorem Endless.preceded {start : State} {label : Label} (first : step start label (states 0))
    (endless : Endless step states labels) :
    Endless step (Transition.preceded start states) (Transition.preceded label labels) := by
  intro time
  cases time with
  | zero => exact first
  | succ time => exact endless time

theorem Endless.after_run {start : State} {taken : List Label} (run : Run step start taken (states 0))
    (endless : Endless step states labels) : ∃ (whole : ℕ → State) (all : ℕ → Label), Endless step whole all ∧
      whole 0 = start ∧ ∀ time, whole (taken.length + time) = states time ∧ all (taken.length + time) = labels time := by
  induction taken generalizing start with
  | nil =>
      obtain same := run_nil_iff.mp run
      exact ⟨states, labels, endless, same, fun time => by simp⟩
  | cons label taken ih =>
      obtain ⟨middle, first, rest⟩ := run_cons_iff.mp run
      obtain ⟨whole, all, endless, rfl, same⟩ := ih rest
      refine ⟨_, _, endless.preceded first, rfl, fun time => ?_⟩
      rw [List.length_cons, Nat.add_right_comm]
      exact same time

theorem endless_of_sustained {sustains : State → Prop} {label : Label}
    (again : ∀ state, sustains state → ∃ next, step state label next ∧ sustains next) {start : State}
    (holds : sustains start) :
    ∃ states, Endless step states (fun _ => label) ∧ states 0 = start ∧ ∀ time, sustains (states time) := by
  obtain ⟨goesOn, steps⟩ : ∃ goesOn : { state // sustains state } → { state // sustains state },
      ∀ state, step state.1 label (goesOn state).1 := by
    choose next steps still using again
    exact ⟨fun state => ⟨next state.1 state.2, still state.1 state.2⟩, fun state => steps state.1 state.2⟩
  refine ⟨fun time => (goesOn^[time] ⟨start, holds⟩).1, fun time => ?_, rfl, fun time => (goesOn^[time] _).2⟩
  simp only [Function.iterate_succ_apply']
  exact steps _

theorem Endless.always (endless : Endless step states labels) {invariant : State → Prop}
    (preserved : ∀ state label after, invariant state → step state label after → invariant after) {time : ℕ}
    (now : invariant (states time)) : ∀ later ≥ time, invariant (states later) := by
  intro later order
  induction later, order using Nat.le_induction with
  | base => exact now
  | succ later _ ih => exact preserved _ _ _ ih (endless later)

/-- While the goal is not reached, the party waits, and is no farther from it than before. -/
theorem Endless.waits [Preorder Rank] {waiting goal : State → Prop} {rank : State → Rank}
    (endless : Endless step states labels) (approaches : Approaches step own waiting goal rank) {time : ℕ}
    (now : waiting (states time)) (never : ∀ later ≥ time, ¬ goal (states later)) :
    ∀ later ≥ time, waiting (states later) ∧ rank (states later) ≤ rank (states time) := by
  intro later order
  induction later, order using Nat.le_induction with
  | base => exact ⟨now, le_refl _⟩
  | succ later order ih =>
      obtain ⟨waits, nearer⟩ := ih
      rcases approaches.next _ _ _ waits (endless later) with reached | ⟨waits, closer, _⟩
      · exact absurd reached (never _ (Nat.le_succ_of_le order))
      · exact ⟨waits, closer.trans nearer⟩

theorem Endless.reaches [Preorder Rank] [WellFoundedLT Rank] {waiting goal : State → Prop} {rank : State → Rank}
    (endless : Endless step states labels) (fair : Fair step own states labels)
    (approaches : Approaches step own waiting goal rank) {time : ℕ} (now : waiting (states time)) :
    ∃ later ≥ time, goal (states later) := by
  induction distance : rank (states time) using WellFoundedLT.induction generalizing time with
  | ind distance ih =>
      by_contra never
      have never : ∀ later ≥ time, ¬ goal (states later) := fun later order reached => never ⟨later, order, reached⟩
      have waits := endless.waits approaches now never
      obtain ⟨moved, order, ours⟩ := fair time fun later order => approaches.goesOn _ (waits later order).1
      obtain ⟨waiting, nearer⟩ := waits moved order
      rcases approaches.next _ _ _ waiting (endless moved) with reached | ⟨later, _, closer⟩
      · exact never _ (Nat.le_succ_of_le order) reached
      · obtain ⟨arrival, after, reached⟩ := ih _ (distance ▸ (closer ours).trans_le nearer) later rfl
        exact never _ (by omega) reached

end Transition
