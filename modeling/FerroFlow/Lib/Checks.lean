import Mathlib.Data.List.Basic

/-! Checks that either pass or fail with an error, and when a chain of them passes. -/

namespace Checks

variable {ε α β : Type}

def ensure (condition : Prop) [Decidable condition] (error : ε) : Except ε Unit :=
  if condition then .ok () else .error error

@[simp] theorem ensure_ok_iff {condition : Prop} [Decidable condition] {error : ε} {value : Unit} :
    ensure condition error = .ok value ↔ condition := by
  unfold ensure
  split <;> simp_all

theorem bind_ok_iff {first : Except ε α} {next : α → Except ε β} {result : β} :
    first >>= next = .ok result ↔ ∃ value, first = .ok value ∧ next value = .ok result := by
  cases first with
  | error error => simp [bind, Except.bind]
  | ok value => simp [bind, Except.bind]

theorem bind_unit_ok_iff {first : Except ε Unit} {next : Except ε β} {result : β} :
    (first >>= fun _ => next) = .ok result ↔ first = .ok () ∧ next = .ok result := by
  rw [bind_ok_iff]
  constructor
  · rintro ⟨⟨⟩, passed, rest⟩
    exact ⟨passed, rest⟩
  · rintro ⟨passed, rest⟩
    exact ⟨(), passed, rest⟩

theorem map_ok_iff {first : Except ε α} {apply : α → β} {result : β} :
    apply <$> first = .ok result ↔ ∃ value, first = .ok value ∧ apply value = result := by
  cases first with
  | error error => simp [Functor.map, Except.map]
  | ok value => simp [Functor.map, Except.map]

@[simp] theorem mapError_ok_iff {δ : Type} {action : Except ε α} {wrap : ε → δ} {value : α} :
    action.mapError wrap = .ok value ↔ action = .ok value := by
  cases action <;> simp [Except.mapError]

def checkAll (check : α → Except ε Unit) : List α → Except ε Unit
  | [] => .ok ()
  | value :: rest => do
      check value
      checkAll check rest

theorem checkAll_ok_iff (check : α → Except ε Unit) (values : List α) :
    checkAll check values = .ok () ↔ ∀ value ∈ values, check value = .ok () := by
  induction values with
  | nil => simp [checkAll]
  | cons value rest ih => simp [checkAll, bind_unit_ok_iff, ih]

/-- What one step of an accepted fold preserves holds at its end, of all the items. -/
theorem foldlM_ok_invariant {σ : Type} {step : σ → α → Except ε σ} (invariant : List α → σ → Prop)
    (preserved : ∀ past state item next, invariant past state → step state item = .ok next →
      invariant (past ++ [item]) next)
    {items : List α} {start finish : σ} (accepted : items.foldlM step start = .ok finish)
    (initial : invariant [] start) : invariant items finish := by
  have extended (past : List α) (holds : invariant past start) : invariant (past ++ items) finish := by
    clear initial
    induction items generalizing past start with
    | nil =>
        have same := Except.ok.inj accepted
        rw [List.append_nil, ← same]
        exact holds
    | cons item rest ih =>
        rw [List.foldlM_cons] at accepted
        obtain ⟨next, first, remaining⟩ := bind_ok_iff.mp accepted
        have last := ih remaining (past ++ [item]) (preserved past start item next holds first)
        rwa [List.append_assoc, List.singleton_append] at last
  exact extended [] initial

theorem foldlM_progress {σ : Type} {step : σ → α → Except ε σ} (invariant : List α → σ → Prop)
    {items : List α} (progress : ∀ past state item rest, items = past ++ item :: rest →
      invariant past state → ∃ next, step state item = .ok next ∧ invariant (past ++ [item]) next)
    {start : σ} (initial : invariant [] start) :
    ∃ finish, items.foldlM step start = .ok finish ∧ invariant items finish := by
  have remaining (rest : List α) : ∀ past state, items = past ++ rest → invariant past state →
      ∃ finish, rest.foldlM step state = .ok finish ∧ invariant items finish := by
    induction rest with
    | nil =>
        intro past state split holds
        rw [List.append_nil] at split
        exact ⟨state, rfl, split ▸ holds⟩
    | cons item rest ih =>
        intro past state split holds
        obtain ⟨next, accepted, further⟩ := progress past state item rest split holds
        obtain ⟨finish, folded, last⟩ := ih (past ++ [item]) next (by simp [split]) further
        refine ⟨finish, ?_, last⟩
        rw [List.foldlM_cons]
        exact bind_ok_iff.mpr ⟨next, accepted, folded⟩
  exact remaining items [] start rfl initial

end Checks
