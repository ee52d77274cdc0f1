import Mathlib.Data.List.Basic

/-! Labelled transition relations: finite runs, invariants of runs, invariants that also speak
about the labels seen so far, runs whose steps all meet a condition, and runs that are watched. -/

namespace Transition

variable {State Label : Type*}

inductive Run (step : State → Label → State → Prop) : State → List Label → State → Prop
  | nil (state) : Run step state [] state
  | cons {start label middle labels finish} : step start label middle →
      Run step middle labels finish → Run step start (label :: labels) finish

def Restrict (allowed : State → Label → Prop) (step : State → Label → State → Prop)
    (start : State) (label : Label) (finish : State) : Prop :=
  allowed start label ∧ step start label finish

/-- A system together with the notes an onlooker takes of its steps. -/
def Watched {Notes : Type*} (watch : State → Label → State → Notes → Notes)
    (step : State → Label → State → Prop) (start : State × Notes) (label : Label)
    (finish : State × Notes) : Prop :=
  step start.1 label finish.1 ∧ finish.2 = watch start.1 label finish.1 start.2

variable {step : State → Label → State → Prop}

theorem run_nil_iff {start finish : State} : Run step start [] finish ↔ finish = start := by
  constructor
  · intro run
    cases run
    rfl
  · rintro rfl
    exact Run.nil _

theorem run_cons_iff {start finish : State} {label : Label} {labels : List Label} :
    Run step start (label :: labels) finish ↔
      ∃ middle, step start label middle ∧ Run step middle labels finish := by
  constructor
  · intro run
    cases run with
    | cons first rest => exact ⟨_, first, rest⟩
  · rintro ⟨middle, first, rest⟩
    exact Run.cons first rest

theorem run_append_iff {start finish : State} {before after : List Label} :
    Run step start (before ++ after) finish ↔
      ∃ middle, Run step start before middle ∧ Run step middle after finish := by
  induction before generalizing start with
  | nil => simp [run_nil_iff]
  | cons label before ih =>
      simp only [List.cons_append, run_cons_iff, ih]
      constructor
      · rintro ⟨next, first, middle, left, right⟩
        exact ⟨middle, ⟨next, first, left⟩, right⟩
      · rintro ⟨middle, ⟨next, first, left⟩, right⟩
        exact ⟨next, first, middle, left, right⟩

theorem Run.append {start middle finish : State} {before after : List Label}
    (left : Run step start before middle) (right : Run step middle after finish) :
    Run step start (before ++ after) finish :=
  run_append_iff.mpr ⟨middle, left, right⟩

theorem Run.invariant (invariant : State → Prop)
    (preserved : ∀ start label finish, invariant start → step start label finish → invariant finish)
    {start finish : State} {labels : List Label} (run : Run step start labels finish)
    (initial : invariant start) : invariant finish := by
  induction run with
  | nil => exact initial
  | cons first _ ih => exact ih (preserved _ _ _ initial first)

/-- The invariant may mention the history: the labels taken before the state was reached. -/
theorem Run.history (invariant : List Label → State → Prop)
    (preserved : ∀ past start label finish, invariant past start → step start label finish →
      invariant (past ++ [label]) finish)
    {start finish : State} {past labels : List Label} (run : Run step start labels finish)
    (initial : invariant past start) : invariant (past ++ labels) finish := by
  induction run generalizing past with
  | nil => simpa using initial
  | cons first _ ih => simpa using ih (preserved _ _ _ _ initial first)

theorem Run.labels {property : Label → Prop} (taken : ∀ start label finish, step start label finish → property label)
    {start finish : State} {labels : List Label} (run : Run step start labels finish) :
    ∀ label ∈ labels, property label := by
  induction run with
  | nil => simp
  | cons first _ ih => exact List.forall_mem_cons.mpr ⟨taken _ _ _ first, ih⟩

theorem Run.becomes (holds : State → Prop) {start finish : State} {labels : List Label}
    (run : Run step start labels finish) (notYet : ¬ holds start) (atLast : holds finish) :
    ∃ before label after left right, labels = before ++ label :: after ∧ Run step start before left ∧
      step left label right ∧ Run step right after finish ∧ ¬ holds left ∧ holds right := by
  induction run with
  | nil => exact absurd atLast notYet
  | @cons start label middle labels finish first rest ih =>
      by_cases now : holds middle
      · exact ⟨[], label, labels, start, middle, rfl, Run.nil _, first, rest, notYet, now⟩
      · obtain ⟨before, change, after, left, right, same, reached, changes, rest, not, holding⟩ := ih now atLast
        exact ⟨label :: before, change, after, left, right, by rw [same, List.cons_append],
          Run.cons first reached, changes, rest, not, holding⟩

theorem Run.mono {other : State → Label → State → Prop}
    (included : ∀ start label finish, step start label finish → other start label finish)
    {start finish : State} {labels : List Label} (run : Run step start labels finish) :
    Run other start labels finish := by
  induction run with
  | nil => exact Run.nil _
  | cons first _ ih => exact Run.cons (included _ _ _ first) ih

theorem Run.weaken {allowed : State → Label → Prop} {start finish : State} {labels : List Label}
    (run : Run (Restrict allowed step) start labels finish) : Run step start labels finish :=
  run.mono fun _ _ _ taken => taken.2

theorem Run.restrict {allowed : State → Label → Prop} (invariant : State → Prop)
    (permitted : Label → Prop)
    (kept : ∀ start label finish, invariant start → permitted label → step start label finish →
      allowed start label ∧ invariant finish)
    {start finish : State} {labels : List Label} (run : Run step start labels finish)
    (initial : invariant start) (all : ∀ label ∈ labels, permitted label) :
    Run (Restrict allowed step) start labels finish := by
  induction run with
  | nil => exact Run.nil _
  | @cons start label middle labels finish first _ ih =>
      obtain ⟨now, next⟩ := kept start label middle initial (all label (by simp)) first
      exact Run.cons ⟨now, first⟩ (ih next fun later member => all later (by simp [member]))

/-- A run seen through `view`, at the labels that are visible there. -/
theorem Run.project {Seen SeenLabel : Type*} {seenStep : Seen → SeenLabel → Seen → Prop}
    (view : State → Seen) (visible : Label → Option SeenLabel)
    (shown : ∀ start label finish seen, step start label finish → visible label = some seen →
      seenStep (view start) seen (view finish))
    (hidden : ∀ start label finish, step start label finish → visible label = none →
      view finish = view start)
    {start finish : State} {labels : List Label} (run : Run step start labels finish) :
    Run seenStep (view start) (labels.filterMap visible) (view finish) := by
  induction run with
  | nil => exact Run.nil _
  | @cons start label middle labels finish first _ ih =>
      cases seen : visible label with
      | none =>
          rw [List.filterMap_cons_none seen, ← hidden _ _ _ first seen]
          exact ih
      | some seenLabel =>
          rw [List.filterMap_cons_some seen]
          exact Run.cons (shown _ _ _ _ first seen) ih

/-- Whatever a view of the system can do, the system can do so that it is seen. -/
theorem Run.lift {Seen SeenLabel : Type*} {seenStep : Seen → SeenLabel → Seen → Prop}
    (view : State → Seen) (visible : Label → Option SeenLabel) (invariant : State → Prop)
    (kept : ∀ start label finish, invariant start → step start label finish → invariant finish)
    (shown : ∀ start label seen after, invariant start → visible label = some seen →
      seenStep (view start) seen after → ∃ finish, step start label finish ∧ view finish = after)
    (hidden : ∀ start label, invariant start → visible label = none →
      ∃ finish, step start label finish ∧ view finish = view start)
    {start : State} {labels : List Label} {after : Seen}
    (run : Run seenStep (view start) (labels.filterMap visible) after) (initial : invariant start) :
    ∃ finish, Run step start labels finish ∧ view finish = after := by
  induction labels generalizing start with
  | nil =>
      obtain rfl := run_nil_iff.mp run
      exact ⟨start, Run.nil _, rfl⟩
  | cons label labels ih =>
      cases seen : visible label with
      | none =>
          rw [List.filterMap_cons_none seen] at run
          obtain ⟨middle, first, same⟩ := hidden start label initial seen
          rw [← same] at run
          obtain ⟨finish, rest, viewed⟩ := ih run (kept _ _ _ initial first)
          exact ⟨finish, Run.cons first rest, viewed⟩
      | some seenLabel =>
          rw [List.filterMap_cons_some seen, run_cons_iff] at run
          obtain ⟨next, seenFirst, seenRest⟩ := run
          obtain ⟨middle, first, rfl⟩ := shown start label seenLabel next initial seen seenFirst
          obtain ⟨finish, rest, viewed⟩ := ih seenRest (kept _ _ _ initial first)
          exact ⟨finish, Run.cons first rest, viewed⟩

section Watched

variable {Notes : Type*}

theorem Run.watched {start finish : State} {labels : List Label}
    (run : Run step start labels finish) (watch : State → Label → State → Notes → Notes)
    (notes : Notes) :
    ∃ after, Run (Watched watch step) (start, notes) labels (finish, after) := by
  induction run generalizing notes with
  | nil state => exact ⟨notes, Run.nil _⟩
  | @cons start label middle labels finish first _ ih =>
      obtain ⟨after, rest⟩ := ih (watch start label middle notes)
      exact ⟨after, Run.cons ⟨first, rfl⟩ rest⟩

theorem Run.unwatched {watch : State → Label → State → Notes → Notes} {start finish : State × Notes}
    {labels : List Label}
    (run : Run (Watched watch step) start labels finish) :
    Run step start.1 labels finish.1 := by
  induction run with
  | nil state => exact Run.nil _
  | cons first _ ih => exact Run.cons first.1 ih

end Watched

theorem run_iff_foldl {next : State → Label → State} {start finish : State} {labels : List Label} :
    Run (fun state label after => next state label = after) start labels finish ↔
      labels.foldl next start = finish := by
  induction labels generalizing start with
  | nil => simp [run_nil_iff, eq_comm]
  | cons label labels ih => simp [run_cons_iff, ih]

theorem run_iff_foldlM {next : State → Label → Option State} {start finish : State}
    {labels : List Label} :
    Run (fun state label after => next state label = some after) start labels finish ↔
      labels.foldlM next start = some finish := by
  induction labels generalizing start with
  | nil => simp [run_nil_iff, eq_comm]
  | cons label labels ih => simp [run_cons_iff, Option.bind_eq_some_iff, ih]

theorem run_unique {next : State → Label → Option State} {start first second : State} {labels : List Label}
    (run : Run (fun state label after => next state label = some after) start labels first)
    (again : Run (fun state label after => next state label = some after) start labels second) : first = second :=
  Option.some.inj ((run_iff_foldlM.mp run).symm.trans (run_iff_foldlM.mp again))

theorem run_watched_iff_foldlM {Notes : Type*} {watch : State → Label → State → Notes → Notes}
    {next : State → Label → Option State} {start finish : State × Notes} {labels : List Label} :
    Run (Watched watch fun state label after => next state label = some after) start labels finish ↔
      labels.foldlM (fun seen label => (next seen.1 label).map fun after => (after, watch seen.1 label after seen.2))
        start = some finish := by
  rw [← run_iff_foldlM]
  have same : Watched watch (fun state label after => next state label = some after) =
      fun seen label later => (next seen.1 label).map (fun after => (after, watch seen.1 label after seen.2)) =
        some later := by
    funext seen label later
    obtain ⟨after, notes⟩ := later
    simp only [Watched, Option.map_eq_some_iff, Prod.mk.injEq, eq_iff_iff]
    constructor
    · rintro ⟨stepped, rfl⟩
      exact ⟨after, stepped, rfl, rfl⟩
    · rintro ⟨_, stepped, rfl, rfl⟩
      exact ⟨stepped, rfl⟩
  rw [same]

end Transition
