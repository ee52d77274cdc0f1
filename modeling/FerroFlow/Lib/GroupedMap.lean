import Mathlib.Data.List.Induction
import Mathlib.Data.List.Perm.Basic
import Std.Data.TreeMap.Lemmas

/-! Ordered maps from keys to lists: their items, one for each value with its key, and how the
items of two such maps come together when the lists are appended key by key. -/

abbrev GroupedMap (Key Value : Type) [Ord Key] := Std.TreeMap Key (List Value)

namespace GroupedMap

variable {Key Value : Type} [Ord Key] [Std.TransOrd Key] [Std.LawfulEqOrd Key]

def items (map : GroupedMap Key Value) : List (Key × Value) :=
  map.toList.flatMap fun entry => entry.2.map fun value => (entry.1, value)

def extend (map : GroupedMap Key Value) (key : Key) (values : List Value) : GroupedMap Key Value :=
  map.insert key (map.getD key [] ++ values)

def merge (map other : GroupedMap Key Value) : GroupedMap Key Value :=
  other.toList.foldl (fun merged entry => extend merged entry.1 entry.2) map

theorem toList_insert_same {map : GroupedMap Key Value} {key : Key} {values : List Value}
    (present : map[key]? = some values) : (map.insert key values).toList = map.toList := by
  apply Std.TreeMap.Equiv.toList_eq
  apply Std.TreeMap.Equiv.of_forall_constGet?_eq
  intro other
  rw [Std.TreeMap.getElem?_insert]
  split
  · rename_i same
    rw [← Std.LawfulEqOrd.eq_of_compare same, present]
  · rfl

section Items

variable [BEq Key] [Std.LawfulBEqOrd Key]

def itemsApart (map : GroupedMap Key Value) (key : Key) : List (Key × Value) :=
  (map.toList.filter fun entry => decide ¬ (key == entry.1) = true).flatMap fun entry =>
    entry.2.map fun value => (entry.1, value)

omit [Std.LawfulEqOrd Key] in
theorem items_insert (map : GroupedMap Key Value) (key : Key) (values : List Value) :
    (items (map.insert key values)).Perm
      ((values.map fun value => (key, value)) ++ itemsApart map key) :=
  Std.TreeMap.toList_insert_perm.flatMap_right _

theorem items_split (map : GroupedMap Key Value) (key : Key) :
    (items map).Perm (((map.getD key []).map fun value => (key, value)) ++ itemsApart map key) := by
  rw [Std.TreeMap.getD_eq_getD_getElem?]
  cases present : map[key]? with
  | some values =>
      have same := items_insert map key values
      unfold items at same
      rw [toList_insert_same present] at same
      exact same
  | none =>
      have all : map.toList.filter (fun entry => decide ¬ (key == entry.1) = true) = map.toList := by
        refine List.filter_eq_self.mpr ?_
        rintro ⟨other, values⟩ member
        have found := Std.TreeMap.mem_toList_iff_getElem?_eq_some.mp member
        apply decide_eq_true
        intro same
        have equal : key = other := Std.LawfulEqOrd.eq_of_compare (Std.LawfulBEqOrd.compare_eq_iff_beq.mpr same)
        rw [← equal, present] at found
        cases found
      simp only [Option.getD_none, List.map_nil, List.nil_append, itemsApart, all]
      rfl

theorem items_extend (map : GroupedMap Key Value) (key : Key) (values : List Value) :
    (items (extend map key values)).Perm (items map ++ values.map fun value => (key, value)) := by
  have inserted := items_insert map key (map.getD key [] ++ values)
  rw [List.map_append, List.append_assoc] at inserted
  have split := (items_split map key).append_right (values.map fun value => (key, value))
  rw [List.append_assoc] at split
  exact inserted.trans ((List.perm_append_comm.append_left _).trans split.symm)

theorem items_merge (map other : GroupedMap Key Value) :
    (items (merge map other)).Perm (items map ++ items other) := by
  unfold merge
  have folded (entries : List (Key × List Value)) :
      (items (entries.foldl (fun merged entry => extend merged entry.1 entry.2) map)).Perm
        (items map ++ entries.flatMap fun entry => entry.2.map fun value => (entry.1, value)) := by
    induction entries using List.reverseRecOn with
    | nil => rw [List.flatMap_nil, List.append_nil, List.foldl_nil]
    | append_singleton entries entry ih =>
        rw [List.foldl_append, List.foldl_cons, List.foldl_nil, List.flatMap_append,
          List.flatMap_singleton, ← List.append_assoc]
        exact (items_extend _ _ _).trans (ih.append_right _)
  exact folded other.toList

end Items

theorem getElem?_extend (map : GroupedMap Key Value) (key other : Key) (values : List Value) :
    (extend map key values)[other]? =
      if compare key other = .eq then (map[other]?).merge (· ++ ·) (some values) else map[other]? := by
  unfold extend
  rw [Std.TreeMap.getElem?_insert]
  split
  · rename_i same
    rw [← Std.LawfulEqOrd.eq_of_compare same, Std.TreeMap.getD_eq_getD_getElem?]
    cases map[key]? <;> rfl
  · rfl

theorem getElem?_foldl_extend {map : GroupedMap Key Value} {key : Key}
    {entries : List (Key × List Value)} (distinct : (entries.map Prod.fst).Nodup) :
    (entries.foldl (fun merged entry => extend merged entry.1 entry.2) map)[key]? =
      (map[key]?).merge (· ++ ·) ((entries.find? (compare ·.1 key == .eq)).map Prod.snd) := by
  induction entries generalizing map with
  | nil => rw [List.find?_nil, Option.map_none, Option.merge_none_right, List.foldl_nil]
  | cons entry rest ih =>
      rw [List.map_cons, List.nodup_cons] at distinct
      rw [List.foldl_cons, ih distinct.2, getElem?_extend, List.find?_cons]
      by_cases same : compare entry.1 key = .eq
      · have absent : rest.find? (compare ·.1 key == .eq) = none := by
          refine List.find?_eq_none.mpr fun other member matching => distinct.1 ?_
          have equal := Std.LawfulEqOrd.eq_of_compare (eq_of_beq matching)
          rw [Std.LawfulEqOrd.eq_of_compare same, ← equal]
          exact List.mem_map_of_mem member
        simp only [same, absent, ↓reduceIte, beq_self_eq_true, Option.map_none, Option.map_some,
          Option.merge_none_right]
      · simp only [same, ↓reduceIte, beq_eq_false_iff_ne.mpr same]

omit [Std.LawfulEqOrd Key] in
theorem find?_toList (map : GroupedMap Key Value) (key : Key) :
    (map.toList.find? (compare ·.1 key == .eq)).map Prod.snd = map[key]? := by
  cases located : map.toList.find? (compare ·.1 key == .eq) with
  | none =>
      have absent := Std.TreeMap.find?_toList_eq_none_iff_not_mem.mp located
      exact (Std.TreeMap.getElem?_eq_none absent).symm
  | some entry =>
      have present := Std.TreeMap.find?_toList_eq_some_iff_getKey?_eq_some_and_getElem?_eq_some.mp located
      exact present.2.symm

theorem getElem?_merge (map other : GroupedMap Key Value) (key : Key) :
    (merge map other)[key]? = (map[key]?).merge (· ++ ·) other[key]? := by
  have distinct : (other.toList.map Prod.fst).Nodup := by
    rw [Std.TreeMap.map_fst_toList_eq_keys]
    exact Std.TreeMap.nodup_keys
  rw [merge, getElem?_foldl_extend distinct, find?_toList]

theorem mem_merge {map other : GroupedMap Key Value} {key : Key} :
    key ∈ merge map other ↔ key ∈ map ∨ key ∈ other := by
  simp only [Std.TreeMap.mem_iff_isSome_getElem?, getElem?_merge, Option.isSome_merge, Bool.or_eq_true]

end GroupedMap
