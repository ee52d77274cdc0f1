import Mathlib.Data.List.Basic

/-! Times that keep a distance: a list with the latest time first, in which every time but the latest lies
at least one gap further back than the one before it. -/

namespace Pacing

/-- The times lie behind the limit, the first of them by `count` gaps and each later one by one more. -/
def Behind (gap : ℕ) : ℕ → ℕ → List ℕ → Prop
  | _, _, [] => True
  | count, limit, time :: older => time + count * gap ≤ limit ∧ Behind gap (count + 1) limit older

/-- From every time, the one before it may be at no distance, and those further back keep theirs. -/
def Spaced (gap : ℕ) : List ℕ → Prop
  | [] => True
  | time :: older => Behind gap 0 time older ∧ Spaced gap older

/-- The earliest of the times is not before the start, and each one after it not before another gap. -/
def NotBefore (gap start : ℕ) : List ℕ → Prop
  | [] => True
  | time :: older => start + older.length * gap ≤ time ∧ NotBefore gap start older

variable {gap count limit later time : ℕ} {times kept : List ℕ}

theorem Behind.mono (behind : Behind gap count limit times) (order : limit ≤ later) :
    Behind gap count later times := by
  induction times generalizing count with
  | nil => trivial
  | cons time older ih => exact ⟨Nat.le_trans behind.1 order, ih behind.2⟩

theorem Behind.fewer (behind : Behind gap (count + 1) limit times) : Behind gap count limit times := by
  induction times generalizing count with
  | nil => trivial
  | cons time older ih =>
      obtain ⟨first, rest⟩ := behind
      refine ⟨?_, ih rest⟩
      rw [Nat.succ_mul] at first
      omega

theorem Behind.advance (behind : Behind gap count limit times) : Behind gap (count + 1) (limit + gap) times := by
  induction times generalizing count with
  | nil => trivial
  | cons time older ih =>
      obtain ⟨first, rest⟩ := behind
      refine ⟨?_, ih rest⟩
      rw [Nat.succ_mul]
      omega

theorem Behind.sublist (behind : Behind gap count limit times) (sublist : kept.Sublist times) :
    Behind gap count limit kept := by
  induction sublist generalizing count with
  | slnil => trivial
  | cons time _ ih => exact ih behind.2.fewer
  | cons_cons time _ ih => exact ⟨behind.1, ih behind.2⟩

theorem Spaced.sublist (spaced : Spaced gap times) (sublist : kept.Sublist times) : Spaced gap kept := by
  induction sublist with
  | slnil => trivial
  | cons time _ ih => exact ih spaced.2
  | cons_cons time within ih => exact ⟨spaced.1.sublist within, ih spaced.2⟩

theorem Behind.oldest (behind : Behind gap count limit (times ++ [time])) :
    time + (count + times.length) * gap ≤ limit := by
  induction times generalizing count with
  | nil => exact behind.1
  | cons first rest ih =>
      have further := ih behind.2
      rw [List.length_cons]
      rwa [Nat.add_right_comm, Nat.add_assoc] at further

theorem Spaced.count_le (spaced : Spaced gap times) (positive : 0 < gap) (first length : ℕ) :
    times.countP (fun time => first ≤ time ∧ time ≤ first + length) ≤ length / gap + 2 := by
  rw [List.countP_eq_length_filter]
  have within := spaced.sublist (List.filter_sublist (p := fun time => first ≤ time ∧ time ≤ first + length))
  have inside : ∀ time ∈ times.filter (fun time => first ≤ time ∧ time ≤ first + length),
      first ≤ time ∧ time ≤ first + length := fun time member => by simpa using (List.mem_filter.mp member).2
  generalize times.filter (fun time => first ≤ time ∧ time ≤ first + length) = window at within inside ⊢
  cases window with
  | nil => exact Nat.zero_le _
  | cons newest older =>
      rcases List.eq_nil_or_concat' older with rfl | ⟨middle, oldest, rfl⟩
      · exact Nat.le_add_left 1 _
      · have distance := within.1.oldest
        have low := (inside oldest (by simp)).1
        have high := (inside newest (by simp)).2
        have fits : middle.length ≤ length / gap := by
          rw [Nat.le_div_iff_mul_le positive]
          rw [Nat.zero_add] at distance
          omega
        simp only [List.length_cons, List.length_append, List.length_nil]
        omega

end Pacing
