import Mathlib.Data.List.AList
import Mathlib.Data.List.Perm.Subperm
import Mathlib.Algebra.BigOperators.Group.List.Basic
import Mathlib.Algebra.Order.BigOperators.Group.List
import Mathlib.Algebra.GroupWithZero.Nat

/-! Finite maps with one value for each key, kept in an iteration order that no lookup
depends on, and when a map holds all the entries of a list. -/

abbrev KeyedMap (Key Value : Type) := AList fun _ : Key => Value

theorem List.sum_eq_iff_subset {α : Type*} [DecidableEq α] (weight : α → ℕ)
    {part whole : List α} (partUnique : part.Nodup) (wholeUnique : whole.Nodup)
    (inside : part ⊆ whole) (positive : ∀ value ∈ whole, 0 < weight value) :
    (part.map weight).sum = (whole.map weight).sum ↔ whole ⊆ part := by
  obtain ⟨reordered, same, sublist⟩ := List.subperm_of_subset partUnique inside
  obtain ⟨rest, extended⟩ := sublist.exists_perm_append
  have split : whole.Perm (part ++ rest) := extended.trans (same.append_right rest)
  have total : (whole.map weight).sum = (part.map weight).sum + (rest.map weight).sum := by
    rw [(split.map weight).sum_eq, List.map_append, List.sum_append]
  have separate : (part ++ rest).Nodup := split.nodup wholeUnique
  constructor
  · intro equal
    have noWeight : (rest.map weight).sum = 0 := by omega
    cases rest with
    | nil => simpa using split.subset
    | cons value rest =>
        have present : value ∈ whole := split.symm.subset (by simp)
        have heavy := positive value present
        simp only [List.map_cons, List.sum_cons] at noWeight
        omega
  · intro covered
    cases rest with
    | nil => simpa using total.symm
    | cons value rest =>
        have present : value ∈ part := covered (split.symm.subset (by simp))
        exact ((List.nodup_append.mp separate).2.2 value present value (by simp) rfl).elim

theorem List.perm_iff_listed_once {α : Type*} {members keys : List α} (keysUnique : keys.Nodup)
    (count : members.length = keys.length) : members.Perm keys ↔ members.Nodup ∧ members ⊆ keys := by
  constructor
  · intro same
    exact ⟨same.nodup_iff.mpr keysUnique, same.subset⟩
  · rintro ⟨unique, inside⟩
    exact (List.subperm_of_subset unique inside).perm_of_length_le count.ge

theorem List.perm_iff_covers {α : Type*} {members keys : List α} (keysUnique : keys.Nodup)
    (count : members.length = keys.length) : members.Perm keys ↔ keys ⊆ members := by
  constructor
  · intro same
    exact same.symm.subset
  · intro covered
    exact ((List.subperm_of_subset keysUnique covered).perm_of_length_le count.le).symm

namespace KeyedMap

variable {Key Value : Type} [DecidableEq Key]

def toPairs (map : KeyedMap Key Value) : List (Key × Value) :=
  map.entries.map fun entry => (entry.1, entry.2)

def size (map : KeyedMap Key Value) : ℕ :=
  map.entries.length

def values (map : KeyedMap Key Value) : List Value :=
  map.entries.map fun entry => entry.2

def mapValues (change : Value → Value) (map : KeyedMap Key Value) : KeyedMap Key Value where
  entries := map.entries.map (Sigma.map id fun _ => change)
  nodupKeys := by
    have unique := map.nodupKeys
    simpa [List.NodupKeys, List.keys, List.map_map, Function.comp_def, Sigma.map] using unique

theorem mem_toPairs_iff (map : KeyedMap Key Value) (key : Key) (value : Value) :
    (key, value) ∈ map.toPairs ↔ map.lookup key = some value := by
  rw [← Option.mem_def, AList.mem_lookup_iff, toPairs, List.mem_map]
  constructor
  · rintro ⟨entry, member, same⟩
    obtain ⟨rfl, rfl⟩ := Prod.mk.inj same
    exact member
  · intro member
    exact ⟨_, member, rfl⟩

omit [DecidableEq Key] in
theorem eq_empty_of_keys {map : KeyedMap Key Value} (none : map.keys = []) : map = ∅ :=
  AList.ext (List.map_eq_nil_iff.mp none)

theorem lookup_mapValues (change : Value → Value) (map : KeyedMap Key Value) (key : Key) :
    (map.mapValues change).lookup key = (map.lookup key).map change := by
  simp only [AList.lookup, mapValues]
  exact List.dlookup_map₂ key

theorem lookup_insert_eq (map : KeyedMap Key Value) (key other : Key) (value : Value) :
    (map.insert key value).lookup other = if other = key then some value else map.lookup other := by
  by_cases same : other = key
  · subst other
    simp
  · simp [same, AList.lookup_insert_ne same]

theorem lookup_erase_eq (map : KeyedMap Key Value) (key other : Key) :
    (map.erase key).lookup other = if other = key then none else map.lookup other := by
  by_cases same : other = key
  · subst other
    simp
  · simp [same, AList.lookup_erase_ne same]

theorem perm_insert_same {map : KeyedMap Key Value} {key : Key} {value : Value}
    (present : map.lookup key = some value) : (map.insert key value).entries.Perm map.entries := by
  apply List.lookup_ext (map.insert key value).nodupKeys map.nodupKeys
  intro other found
  change found ∈ (map.insert key value).lookup other ↔ found ∈ map.lookup other
  rw [lookup_insert_eq]
  by_cases same : other = key
  · subst same
    rw [if_pos rfl, present]
  · rw [if_neg same]

theorem toPairs_insert (map : KeyedMap Key Value) (key : Key) (value : Value) :
    toPairs (map.insert key value) = (key, value) :: toPairs (map.erase key) := rfl

theorem filterMap_toPairs {Result : Type} (map : KeyedMap Key Value) (key : Key)
    (apply : Value → Result) :
    (map.toPairs.filterMap fun entry => if entry.1 = key then some (apply entry.2) else none) =
      (map.lookup key).toList.map apply := by
  obtain ⟨entries, unique⟩ := map
  simp only [toPairs, AList.lookup]
  induction entries with
  | nil => rfl
  | cons entry rest ih =>
      obtain ⟨first, value⟩ := entry
      obtain ⟨absent, uniqueRest⟩ := List.nodupKeys_cons.mp unique
      have remaining := ih uniqueRest
      simp only [List.map_cons, List.filterMap_cons]
      by_cases same : first = key
      · subst same
        simp only [↓reduceIte, remaining, List.dlookup_cons_eq, List.dlookup_eq_none.mpr absent]
        rfl
      · simp only [same, ↓reduceIte, remaining]
        rw [List.dlookup_cons_ne rest (⟨first, value⟩ : Sigma fun _ : Key => Value) (Ne.symm same)]

omit [DecidableEq Key] in
theorem keys_eq_toPairs (map : KeyedMap Key Value) : map.keys = map.toPairs.map Prod.fst := by
  simp [toPairs, AList.keys, List.keys, List.map_map, Function.comp_def]

omit [DecidableEq Key] in
theorem toPairs_nodup (map : KeyedMap Key Value) : map.toPairs.Nodup := by
  have unique := map.keys_nodup
  rw [keys_eq_toPairs] at unique
  exact List.Nodup.of_map _ unique

omit [DecidableEq Key] in
theorem values_eq_toPairs (map : KeyedMap Key Value) : map.values = map.toPairs.map Prod.snd := by
  simp [values, toPairs, List.map_map, Function.comp_def]

theorem toPairs_eq_nil {map : KeyedMap Key Value} (empty : ∀ key value, map.lookup key ≠ some value) :
    map.toPairs = [] := by
  apply List.eq_nil_iff_forall_not_mem.mpr
  rintro ⟨key, value⟩ member
  exact empty key value ((mem_toPairs_iff map key value).mp member)

def Collects {Item : Type} (map : KeyedMap Key Value) (encode : Item → Key × Value)
    (given : Item → Prop) : Prop :=
  ∀ key value, map.lookup key = some value ↔ ∃ item, given item ∧ encode item = (key, value)

section Collects

variable {Item : Type} {encode : Item → Key × Value} {given : Item → Prop} {map : KeyedMap Key Value}

theorem collects_empty (encode : Item → Key × Value) :
    Collects (∅ : KeyedMap Key Value) encode fun _ => False := by
  intro key value
  simp

theorem Collects.congr {also : Item → Prop} (collected : Collects map encode given)
    (same : ∀ item, given item ↔ also item) : Collects map encode also := by
  intro key value
  simp only [collected key value, same]

theorem Collects.insert (collected : Collects map encode given) (fresh : Item)
    (agrees : ∀ item, given item → (encode item).1 = (encode fresh).1 → encode item = encode fresh) :
    Collects (map.insert (encode fresh).1 (encode fresh).2) encode
      fun item => given item ∨ item = fresh := by
  intro key value
  rw [lookup_insert_eq]
  by_cases sameKey : key = (encode fresh).1
  · subst key
    simp only [↓reduceIte, Option.some.injEq]
    constructor
    · rintro rfl
      exact ⟨fresh, Or.inr rfl, rfl⟩
    · rintro ⟨item, present | rfl, encoded⟩
      · have sameKey : (encode item).1 = (encode fresh).1 := by rw [encoded]
        exact congrArg Prod.snd ((agrees item present sameKey).symm.trans encoded)
      · exact congrArg Prod.snd encoded
  · simp only [sameKey, ↓reduceIte, collected key value]
    constructor
    · rintro ⟨item, present, encoded⟩
      exact ⟨item, Or.inl present, encoded⟩
    · rintro ⟨item, present | rfl, encoded⟩
      · exact ⟨item, present, encoded⟩
      · exact (sameKey (congrArg Prod.fst encoded).symm).elim

theorem Collects.insert_expected (collected : Collects map encode given) {expected : List Item}
    (keysUnique : (expected.map fun item => (encode item).1).Nodup)
    (inside : ∀ item, given item → item ∈ expected) {fresh : Item} (member : fresh ∈ expected) :
    Collects (map.insert (encode fresh).1 (encode fresh).2) encode
      fun item => given item ∨ item = fresh := by
  apply collected.insert fresh
  intro item present sameKey
  rw [List.inj_on_of_nodup_map keysUnique (inside item present) member sameKey]

/-- A map that collects some of the expected items weighs as much as all of them exactly when
every expected item was given. -/
theorem Collects.weight_eq_iff [DecidableEq Value] (collected : Collects map encode given)
    (injective : Function.Injective encode) (expected : List Item)
    (keysUnique : (expected.map fun item => (encode item).1).Nodup)
    (inside : ∀ item, given item → item ∈ expected) (weight : Value → ℕ)
    (positive : ∀ item ∈ expected, 0 < weight (encode item).2) :
    (map.values.map weight).sum = (expected.map fun item => weight (encode item).2).sum ↔
      ∀ item ∈ expected, given item := by
  have expectedUnique : (expected.map encode).Nodup := by
    apply List.Nodup.of_map Prod.fst
    simpa [List.map_map, Function.comp_def] using keysUnique
  have subset : map.toPairs ⊆ expected.map encode := by
    rintro ⟨key, value⟩ member
    obtain ⟨item, present, encoded⟩ := (collected key value).mp ((mem_toPairs_iff map key value).mp member)
    exact List.mem_map.mpr ⟨item, inside item present, encoded⟩
  have heavy : ∀ pair ∈ expected.map encode, 0 < weight pair.2 := by
    intro pair member
    obtain ⟨item, expectedItem, rfl⟩ := List.mem_map.mp member
    exact positive item expectedItem
  have covered := List.sum_eq_iff_subset (fun pair : Key × Value => weight pair.2)
    map.toPairs_nodup expectedUnique subset heavy
  rw [values_eq_toPairs, List.map_map]
  simp only [List.map_map, Function.comp_def] at covered ⊢
  rw [covered]
  constructor
  · intro all item member
    have pair : encode item ∈ map.toPairs := all (List.mem_map_of_mem member)
    obtain ⟨other, present, encoded⟩ :=
      (collected _ _).mp ((mem_toPairs_iff map (encode item).1 (encode item).2).mp pair)
    rwa [injective encoded] at present
  · intro all pair member
    obtain ⟨item, expectedItem, rfl⟩ := List.mem_map.mp member
    exact (mem_toPairs_iff map _ _).mpr ((collected _ _).mpr ⟨item, all item expectedItem, rfl⟩)

omit [DecidableEq Key] in
theorem size_eq_sum (map : KeyedMap Key Value) : map.size = (map.values.map fun _ => 1).sum := by
  simp [size, values, Function.comp_def]

theorem Collects.size_eq_iff [DecidableEq Value] (collected : Collects map encode given)
    (injective : Function.Injective encode) (expected : List Item)
    (keysUnique : (expected.map fun item => (encode item).1).Nodup)
    (inside : ∀ item, given item → item ∈ expected) :
    map.size = expected.length ↔ ∀ item ∈ expected, given item := by
  have weighed := collected.weight_eq_iff injective expected keysUnique inside (fun _ => 1) (fun _ _ => by omega)
  rw [size_eq_sum, ← weighed]
  simp

end Collects

end KeyedMap
