import Mathlib.Data.List.Basic
import Mathlib.Data.List.TakeWhile

/-! A consumer that comes down a queue while the queue grows: what it has found on its way, and where it
stops. -/

namespace Consumer

variable {Entry Found : Type*}

/-- Up to its position, the consumer has found all that it looks for. -/
structure Finds (pick : Entry → Option Found) (queue : List Entry) (position : ℕ) (found : List Found) :
    Prop where
  inside : position ≤ queue.length
  found : found = (queue.take position).filterMap pick

/-- While it runs it has passed nothing that is a last entry; it stops at the first one. -/
structure Stops (isLast : Entry → Bool) (queue : List Entry) (position : ℕ) (running : Bool) : Prop where
  inside : position ≤ queue.length
  passed : running = true → ∀ entry ∈ queue.take position, isLast entry = false
  stopped : running = false → ∃ before last, queue.take position = before ++ [last] ∧
    (∀ entry ∈ before, isLast entry = false) ∧ isLast last = true

variable {pick : Entry → Option Found} {isLast : Entry → Bool} {queue longer : List Entry} {position : ℕ}
  {found : List Found} {running : Bool} {entry : Entry}

theorem take_grow (inside : position ≤ queue.length) (grows : queue <+: longer) :
    longer.take position = queue.take position := by
  obtain ⟨more, rfl⟩ := grows
  exact List.take_append_of_le_length inside

theorem take_next (here : queue[position]? = some entry) :
    queue.take (position + 1) = queue.take position ++ [entry] := by
  rw [List.take_add_one, here]
  rfl

theorem finds_new (pick : Entry → Option Found) (queue : List Entry) : Finds pick queue 0 [] where
  inside := Nat.zero_le _
  found := rfl

theorem Finds.grow (finds : Finds pick queue position found) (grows : queue <+: longer) :
    Finds pick longer position found where
  inside := Nat.le_trans finds.inside grows.length_le
  found := by
    rw [take_grow finds.inside grows]
    exact finds.found

theorem Finds.next (finds : Finds pick queue position found) (here : queue[position]? = some entry) :
    Finds pick queue (position + 1) (found ++ (pick entry).toList) where
  inside := (List.getElem?_eq_some_iff.mp here).1
  found := by
    rw [take_next here, List.filterMap_append, finds.found, List.append_cancel_left_eq]
    cases picked : pick entry <;> simp [picked]

theorem stops_new (isLast : Entry → Bool) (queue : List Entry) : Stops isLast queue 0 true where
  inside := Nat.zero_le _
  passed _ := by simp
  stopped impossible := by cases impossible

theorem Stops.grow (stops : Stops isLast queue position running) (grows : queue <+: longer) :
    Stops isLast longer position running where
  inside := Nat.le_trans stops.inside grows.length_le
  passed := by
    rw [take_grow stops.inside grows]
    exact stops.passed
  stopped := by
    rw [take_grow stops.inside grows]
    exact stops.stopped

theorem Stops.next (stops : Stops isLast queue position true) (here : queue[position]? = some entry) :
    Stops isLast queue (position + 1) (!isLast entry) where
  inside := (List.getElem?_eq_some_iff.mp here).1
  passed goesOn := by
    rw [take_next here]
    have last : ∀ other ∈ [entry], isLast other = false := by simpa using goesOn
    exact List.forall_mem_append.mpr ⟨stops.passed rfl, last⟩
  stopped ends :=
    ⟨queue.take position, entry, take_next here, stops.passed rfl, by simpa using ends⟩

theorem Stops.before (stops : Stops isLast queue position false) : ∃ last, isLast last = true ∧
    queue.take position = queue.takeWhile (fun entry => !isLast entry) ++ [last] := by
  obtain ⟨before, last, taken, passed, ends⟩ := stops.stopped rfl
  refine ⟨last, ends, ?_⟩
  have whole := List.take_append_drop position queue
  rw [taken, List.append_assoc, List.singleton_append] at whole
  have first : (last :: queue.drop position).takeWhile (fun entry => !isLast entry) = [] := by simp [ends]
  rw [taken, ← whole, List.takeWhile_append_of_pos (by simpa using passed), first, List.append_nil]

theorem Stops.goesOn (stops : Stops isLast queue position true) :
    queue.take position <+: queue.takeWhile fun entry => !isLast entry := by
  have whole := List.take_append_drop position queue
  have passed : ∀ entry ∈ queue.take position, (!isLast entry) = true := by simpa using stops.passed rfl
  nth_rewrite 2 [← whole]
  rw [List.takeWhile_append_of_pos passed]
  exact List.prefix_append _ _

def toTake (isLast : Entry → Bool) (queue : List Entry) (position : ℕ) : ℕ :=
  ((queue.drop position).takeWhile fun entry => !isLast entry).length + 1

theorem Stops.ahead (stops : Stops isLast queue position true) (asked : ∃ entry ∈ queue, isLast entry = true) :
    ∃ entry ∈ queue.drop position, isLast entry = true := by
  obtain ⟨entry, member, last⟩ := asked
  refine ⟨entry, ?_, last⟩
  rw [← List.take_append_drop position queue] at member
  rcases List.mem_append.mp member with behind | ahead
  · rw [stops.passed rfl entry behind] at last
    cases last
  · exact ahead

theorem Stops.following (stops : Stops isLast queue position true) (asked : ∃ entry ∈ queue, isLast entry = true) :
    ∃ entry, queue[position]? = some entry := by
  obtain ⟨entry, ahead, _⟩ := stops.ahead asked
  have inner : position < queue.length := by
    have some := List.length_pos_of_mem ahead
    rw [List.length_drop] at some
    omega
  exact ⟨_, List.getElem?_eq_getElem inner⟩

theorem Stops.toTake_grow (stops : Stops isLast queue position true) (asked : ∃ entry ∈ queue, isLast entry = true)
    (grows : queue <+: longer) : toTake isLast longer position = toTake isLast queue position := by
  obtain ⟨more, rfl⟩ := grows
  obtain ⟨entry, ahead, last⟩ := stops.ahead asked
  unfold toTake
  rw [List.drop_append_of_le_length stops.inside, List.takeWhile_append, if_neg]
  intro whole
  have all := List.takeWhile_eq_self_iff.mp
    ((List.takeWhile_prefix fun entry => !isLast entry).eq_of_length whole) entry ahead
  simp [last] at all

theorem toTake_next (here : queue[position]? = some entry) (goesOn : isLast entry = false) :
    toTake isLast queue (position + 1) < toTake isLast queue position := by
  obtain ⟨inner, same⟩ := List.getElem?_eq_some_iff.mp here
  unfold toTake
  rw [List.drop_eq_getElem_cons inner, same, List.takeWhile_cons_of_pos (by simp [goesOn]), List.length_cons]
  omega

end Consumer
