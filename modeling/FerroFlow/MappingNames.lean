import FerroFlow.TypedWrites

/-! The two names of a mapped field. A validated mapping gives every field a mapped name of its own;
the raw name, of the node and the raw field, leads back to the field only if the node name has no
colon. -/

namespace FerroFlow

def rawName (node field : String) : String :=
  node ++ ":" ++ field

theorem toList_rawName (node field : String) :
    (rawName node field).toList = node.toList ++ ':' :: field.toList := by
  simp only [rawName, String.toList_append, List.append_assoc]
  rfl

theorem splitOnce_rawName {node : String} (plain : ':' ∉ node.toList) (field : String) :
    splitOnce ':' (rawName node field) = some (node, field) := by
  have passed : ∀ char ∈ node.toList, decide (char ≠ ':') = true := by
    intro char member
    apply decide_eq_true
    intro colon
    subst colon
    exact plain member
  simp only [splitOnce, toList_rawName, List.span_eq_takeWhile_dropWhile,
    List.takeWhile_append_of_pos passed, List.dropWhile_append_of_pos passed, ne_eq, not_true_eq_false,
    decide_false, Bool.false_eq_true, not_false_eq_true, List.takeWhile_cons_of_neg,
    List.dropWhile_cons_of_neg, List.append_nil, String.ofList_toList]

theorem splitOnce_plain {separator : Char} {text before after : String}
    (split : splitOnce separator text = some (before, after)) : separator ∉ before.toList := by
  simp only [splitOnce, List.span_eq_takeWhile_dropWhile] at split
  split at split
  · rename_i first rest parts
    have same := (Prod.mk.inj (Option.some.inj split)).1
    have taken := (Prod.mk.inj parts).1
    intro member
    rw [← same, String.toList_ofList, ← taken] at member
    have passes := List.mem_takeWhile_imp member
    simp at passes
  · cases split

namespace Mapping

def fields (mapping : Mapping) : List (String × MappingEntry) :=
  mapping.mapping.toList.flatMap fun entry => entry.2.map fun field => (entry.1, field)

theorem mem_fields_iff {mapping : Mapping} {node : String} {field : MappingEntry} :
    (node, field) ∈ mapping.fields ↔ ∃ entries, mapping.mapping[node]? = some entries ∧ field ∈ entries := by
  simp only [fields, List.mem_flatMap, List.mem_map, Prod.mk.injEq, Prod.exists,
    Std.TreeMap.mem_toList_iff_getElem?_eq_some]
  constructor
  · rintro ⟨_, entries, present, _, member, rfl, rfl⟩
    exact ⟨entries, present, member⟩
  · rintro ⟨entries, present, member⟩
    exact ⟨node, entries, present, field, member, rfl, rfl⟩

structure Accounted (listed : List (String × MappingEntry)) (seen : SeenNames) : Prop where
  valid : ∀ item ∈ listed, item.2.validate = .ok ()
  names : ∀ name, name ∈ seen.names ↔ name ∈ listed.map fun item => item.2.name
  rawFields : ∀ pair, pair ∈ seen.rawFields ↔ pair ∈ listed.map fun item => (item.1, item.2.rawField)
  namesUnique : (listed.map fun item => item.2.name).Nodup
  rawFieldsUnique : (listed.map fun item => (item.1, item.2.rawField)).Nodup

theorem accounted_nil : Accounted [] {} := by
  constructor <;> simp

theorem Accounted.field {listed : List (String × MappingEntry)} {seen next : SeenNames} {node : String}
    {field : MappingEntry} (accounted : Accounted listed seen)
    (accepted : validateField node seen field = .ok next) : Accounted (listed ++ [(node, field)]) next := by
  simp only [validateField, withContext, Checks.bind_unit_ok_iff, Checks.mapError_ok_iff] at accepted
  obtain ⟨valid, fresh⟩ := accepted
  split at fresh
  · cases fresh
  · rename_i newRaw
    split at fresh
    · cases fresh
    · rename_i newName
      have same := Except.ok.inj fresh
      subst same
      constructor
      · intro item member
        rcases List.mem_append.mp member with earlier | last
        · exact accounted.valid item earlier
        · have same := List.mem_singleton.mp last
          subst same
          exact valid
      · intro name
        simp [accounted.names name, or_comm]
      · intro pair
        simp [accounted.rawFields pair, or_comm]
      · rw [List.map_append, List.map_singleton, ← List.concat_eq_append]
        exact accounted.namesUnique.concat fun listed => newName ((accounted.names _).mpr listed)
      · rw [List.map_append, List.map_singleton, ← List.concat_eq_append]
        exact accounted.rawFieldsUnique.concat fun listed => newRaw ((accounted.rawFields _).mpr listed)

theorem Accounted.node {listed : List (String × MappingEntry)} {seen next : SeenNames}
    {entry : String × List MappingEntry} (accounted : Accounted listed seen)
    (accepted : validateNode seen entry = .ok next) :
    Accounted (listed ++ entry.2.map fun field => (entry.1, field)) next := by
  simp only [validateNode, Checks.bind_unit_ok_iff] at accepted
  have whole := Checks.foldlM_ok_invariant
    (fun fields state => Accounted (listed ++ fields.map fun field => (entry.1, field)) state) ?_ accepted.2 ?_
  · simpa using whole
  · intro past state field next before step
    have after := before.field step
    simpa using after
  · simpa using accounted

theorem accounted_of_validate {mapping : Mapping} (valid : mapping.validate = .ok ()) :
    ∃ seen, Accounted mapping.fields seen := by
  simp only [validate, Checks.bind_ok_iff] at valid
  obtain ⟨seen, accepted, _⟩ := valid
  have whole := Checks.foldlM_ok_invariant
    (fun past state => Accounted (past.flatMap fun entry => entry.2.map fun field => (entry.1, field)) state)
    ?_ accepted accounted_nil
  · exact ⟨seen, whole⟩
  · intro past state entry next before step
    simpa using before.node step

variable {mapping : Mapping} {node : String} {field : MappingEntry}

theorem no_colon_of_validate (valid : field.validate = .ok ()) : ':' ∉ field.name.toList := by
  simp only [MappingEntry.validate, Checks.bind_unit_ok_iff, require_ok_iff] at valid
  obtain ⟨_, plain, _⟩ := valid
  intro member
  simp [member] at plain

theorem listed_of_getMappingForName {name otherNode : String} {other : MappingEntry}
    (located : mapping.getMappingForName name = some ⟨otherNode, other⟩) :
    (otherNode, other) ∈ mapping.fields ∧ other.name = name := by
  obtain ⟨⟨_, entries⟩, inMap, matching⟩ := List.exists_of_findSome?_eq_some located
  obtain ⟨_, found, same⟩ := Option.map_eq_some_iff.mp matching
  obtain ⟨rfl, rfl⟩ := MappingLookupResult.mk.inj same
  have present := Std.TreeMap.mem_toList_iff_getElem?_eq_some.mp inMap
  have named := List.find?_some found
  exact ⟨mem_fields_iff.mpr ⟨entries, present, List.mem_of_find?_eq_some found⟩, of_decide_eq_true named⟩

theorem listed_of_getMappingForRaw {rawField otherNode : String} {other : MappingEntry}
    (located : mapping.getMappingForRaw node rawField = some ⟨otherNode, other⟩) :
    (otherNode, other) ∈ mapping.fields ∧ otherNode = node ∧ other.rawField = rawField := by
  obtain ⟨entries, present, matching⟩ := Option.bind_eq_some_iff.mp located
  obtain ⟨_, found, same⟩ := Option.map_eq_some_iff.mp matching
  obtain ⟨rfl, rfl⟩ := MappingLookupResult.mk.inj same
  have named := List.find?_some found
  exact ⟨mem_fields_iff.mpr ⟨entries, present, List.mem_of_find?_eq_some found⟩, rfl,
    of_decide_eq_true named⟩

theorem getMappingForName_listed {seen : SeenNames} (accounted : Accounted mapping.fields seen)
    (listed : (node, field) ∈ mapping.fields) :
    mapping.getMappingForName field.name = some ⟨node, field⟩ := by
  obtain ⟨entries, present, member⟩ := mem_fields_iff.mp listed
  have found : (mapping.getMappingForName field.name).isSome := by
    rw [getMappingForName, List.findSome?_isSome_iff]
    refine ⟨(node, entries), Std.TreeMap.mem_toList_iff_getElem?_eq_some.mpr present, ?_⟩
    rw [Option.isSome_map, List.find?_isSome]
    exact ⟨field, member, decide_eq_true rfl⟩
  obtain ⟨⟨otherNode, other⟩, located⟩ := Option.isSome_iff_exists.mp found
  obtain ⟨alsoListed, named⟩ := listed_of_getMappingForName located
  obtain ⟨sameNode, sameField⟩ :=
    Prod.mk.inj (List.inj_on_of_nodup_map accounted.namesUnique alsoListed listed named)
  rw [located, sameNode, sameField]

theorem getMappingForRaw_listed {seen : SeenNames} (accounted : Accounted mapping.fields seen)
    (listed : (node, field) ∈ mapping.fields) :
    mapping.getMappingForRaw node field.rawField = some ⟨node, field⟩ := by
  obtain ⟨entries, present, member⟩ := mem_fields_iff.mp listed
  have found : (mapping.getMappingForRaw node field.rawField).isSome := by
    rw [getMappingForRaw, present, Option.bind_some, Option.isSome_map, List.find?_isSome]
    exact ⟨field, member, decide_eq_true rfl⟩
  obtain ⟨⟨otherNode, other⟩, located⟩ := Option.isSome_iff_exists.mp found
  obtain ⟨alsoListed, sameNode, named⟩ := listed_of_getMappingForRaw located
  subst sameNode
  have sameField := (Prod.mk.inj (List.inj_on_of_nodup_map accounted.rawFieldsUnique alsoListed listed
    (Prod.mk.injEq _ _ _ _ ▸ ⟨rfl, named⟩))).2
  rw [located, sameField]

end Mapping

namespace NodeManager

variable {manager : NodeManager} {node : String} {field : MappingEntry}

theorem isMappedName_listed {seen : Mapping.SeenNames} {mapping : Mapping} {item : String × MappingEntry}
    (accounted : Mapping.Accounted mapping.fields seen) (listed : item ∈ mapping.fields) :
    isMappedName item.2.name = true := by
  have plain := Mapping.no_colon_of_validate (accounted.valid item listed)
  simp [isMappedName, plain]

theorem lookupMapping_mappedName (valid : manager.mapping.validate = .ok ())
    (listed : (node, field) ∈ manager.mapping.fields) :
    manager.lookupMapping field.name = .ok ⟨node, field⟩ := by
  obtain ⟨seen, accounted⟩ := Mapping.accounted_of_validate valid
  have mapped : isMappedName (node, field).2.name = true := isMappedName_listed accounted listed
  simp only [lookupMapping, mapped, ↓reduceIte, orFail_ok_iff]
  exact Mapping.getMappingForName_listed accounted listed

theorem isMappedName_rawName (node field : String) : isMappedName (rawName node field) = false := by
  simp [isMappedName, toList_rawName]

theorem lookupMapping_rawName_iff (valid : manager.mapping.validate = .ok ())
    (listed : (node, field) ∈ manager.mapping.fields) :
    manager.lookupMapping (rawName node field.rawField) = .ok ⟨node, field⟩ ↔ ':' ∉ node.toList := by
  obtain ⟨seen, accounted⟩ := Mapping.accounted_of_validate valid
  simp only [lookupMapping, isMappedName_rawName, Bool.false_eq_true, ↓reduceIte]
  constructor
  · intro found
    split at found
    · rename_i before after split
      obtain ⟨_, sameNode, _⟩ := Mapping.listed_of_getMappingForRaw (orFail_ok_iff.mp found)
      rw [sameNode]
      exact splitOnce_plain split
    · cases found
  · intro plain
    simp only [splitOnce_rawName plain, orFail_ok_iff]
    exact Mapping.getMappingForRaw_listed accounted listed

theorem rawName_inj {otherNode raw otherRaw : String} (plain : ':' ∉ node.toList)
    (otherPlain : ':' ∉ otherNode.toList) (same : rawName node raw = rawName otherNode otherRaw) :
    (node, raw) = (otherNode, otherRaw) := by
  have split := splitOnce_rawName plain raw
  rw [same, splitOnce_rawName otherPlain] at split
  exact (Option.some.inj split).symm

/-- Every mapped field is reached under both of its names, and no name belongs to two of them. -/
structure Addressable (manager : NodeManager) : Prop where
  byName : ∀ node field, (node, field) ∈ manager.mapping.fields →
    manager.lookupMapping field.name = .ok ⟨node, field⟩
  byRawName : ∀ node field, (node, field) ∈ manager.mapping.fields →
    manager.lookupMapping (rawName node field.rawField) = .ok ⟨node, field⟩
  names : (manager.mapping.fields.map fun item => item.2.name).Nodup
  rawNames : (manager.mapping.fields.map fun item => rawName item.1 item.2.rawField).Nodup
  mapped : ∀ item ∈ manager.mapping.fields, isMappedName item.2.name = true
  raw : ∀ item ∈ manager.mapping.fields, isMappedName (rawName item.1 item.2.rawField) = false

/-- The validation leaves one thing out: a colon in the name of a node. -/
theorem addressable_iff (valid : manager.mapping.validate = .ok ()) :
    (manager.Addressable ↔ ∀ node field, (node, field) ∈ manager.mapping.fields → ':' ∉ node.toList) ∧
    ∀ node field, (node, field) ∈ manager.mapping.fields →
      manager.lookupMapping field.name = .ok ⟨node, field⟩ ∧
      (manager.lookupMapping (rawName node field.rawField) = .ok ⟨node, field⟩ ↔ ':' ∉ node.toList) := by
  obtain ⟨seen, accounted⟩ := Mapping.accounted_of_validate valid
  refine ⟨⟨?_, ?_⟩, ?_⟩
  · intro addressable node field listed
    exact (lookupMapping_rawName_iff valid listed).mp (addressable.byRawName node field listed)
  · intro plain
    constructor
    · intro node field listed
      exact lookupMapping_mappedName valid listed
    · intro node field listed
      exact (lookupMapping_rawName_iff valid listed).mpr (plain node field listed)
    · exact accounted.namesUnique
    · apply List.Nodup.map_on _ (List.Nodup.of_map _ accounted.rawFieldsUnique)
      rintro ⟨node, field⟩ listed ⟨otherNode, other⟩ otherListed same
      have pairs := rawName_inj (plain node field listed) (plain otherNode other otherListed) same
      exact List.inj_on_of_nodup_map accounted.rawFieldsUnique listed otherListed pairs
    · intro item listed
      exact isMappedName_listed accounted listed
    · intro item _
      exact isMappedName_rawName item.1 item.2.rawField
  · intro node field listed
    exact ⟨lookupMapping_mappedName valid listed, lookupMapping_rawName_iff valid listed⟩

def tankMapping (node : String) : Mapping where
  mapping := (∅ : Std.TreeMap String (List MappingEntry)).insert node [
    { name := "pressure", fieldType := .telemetry, rawField := "p1" },
    { name := "temperature", fieldType := .telemetry, rawField := "t:1" }]

theorem addressable_iff_tank : (new (tankMapping "tank")).Addressable := by
  have valid : (new (tankMapping "tank")).mapping.validate = .ok () := by decide
  have nodes : (new (tankMapping "tank")).mapping.fields.map (fun item => item.1) = ["tank", "tank"] := by
    decide
  apply (addressable_iff valid).1.mpr
  intro node field listed
  have member := List.mem_map_of_mem (f := fun item => item.1) listed
  rw [nodes] at member
  have same : node = "tank" := by simpa using member
  subst same
  decide

theorem colon_in_node_name_not_addressable :
    ¬ ∀ mapping : Mapping, mapping.validate = .ok () → (new mapping).Addressable := by
  intro claim
  have valid : (tankMapping "tank:1").validate = .ok () := by decide
  have nodes : (tankMapping "tank:1").fields.map (fun item => item.1) = ["tank:1", "tank:1"] := by
    decide
  have first : "tank:1" ∈ (tankMapping "tank:1").fields.map fun item => item.1 := by
    rw [nodes]
    exact List.mem_cons_self
  obtain ⟨⟨node, field⟩, listed, same⟩ := List.mem_map.mp first
  simp only at same
  subst same
  have found := (claim _ valid).byRawName "tank:1" field listed
  exact absurd ((lookupMapping_rawName_iff valid listed).mp found) (by decide)

end NodeManager

end FerroFlow
