import FerroFlow.Lib.GroupedMap
import FerroFlow.MappingNames

/-! Mappings that are split over the TOML files of a directory. Every file is validated for itself,
and then all of them together; how the entries are distributed makes no difference. -/

namespace FerroFlow

abbrev TomlDecoder := String → Except String Mapping

structure DirEntry where
  path : String
  fileName : String
  isFile : Bool
  content : Except String String
deriving DecidableEq

structure Directory where
  path : String
  listing : Except String (List (Except String DirEntry))

/-- What follows the last dot of a file name, unless nothing precedes that dot. -/
def extension (fileName : String) : Option String :=
  match fileName.toList.reverse.span (· ≠ '.') with
  | (after, _ :: _ :: _) => some (String.ofList after.reverse)
  | _ => none

def eqIgnoreAsciiCase (left right : String) : Bool :=
  decide (left.toList.map Char.toLower = right.toList.map Char.toLower)

def DirEntry.isToml (entry : DirEntry) : Bool :=
  entry.isFile && (extension entry.fileName).any fun extension => eqIgnoreAsciiCase extension "toml"

/-- The entries that are loaded. All are from one directory, so sorting their paths sorts their names. -/
def tomlFiles (entries : List DirEntry) : List DirEntry :=
  (entries.filter DirEntry.isToml).mergeSort fun left right => decide (left.fileName ≤ right.fileName)

namespace Mapping

section Loading

variable (fromStr : TomlDecoder)

def parseMapping (tomlStr : String) : Result Mapping := do
  let config ← (fromStr tomlStr).mapError fun err => .error [s!"Failed to parse mapping config: {err}"]
  config.validate
  .ok config

def loadMappingFile (entry : DirEntry) : Result Mapping := do
  let tomlStr ← entry.content.mapError fun err =>
    .error [s!"Failed to read mapping config file at {entry.path}", err]
  withContext s!"Failed to load mapping config from {entry.path}" (parseMapping fromStr tomlStr)

def extend (combined mapping : Mapping) : Mapping where
  mapping := GroupedMap.merge combined.mapping mapping.mapping

def loadInto (combined : Mapping) (entry : DirEntry) : Result Mapping := do
  let mapping ← withContext s!"Failed to load mapping config from {entry.path}"
    (loadMappingFile fromStr entry)
  .ok (combined.extend mapping)

def loadMappingDirectory (directory : Directory) : Result Mapping := do
  let listed ← directory.listing.mapError fun err =>
    .error [s!"Failed to read mapping directory {directory.path}", err]
  let entries ← (listed.mapM id).mapError fun err =>
    .error [s!"Failed to list mapping directory {directory.path}", err]
  let entries := tomlFiles entries
  require (entries.isEmpty = false) s!"mapping directory {directory.path} contains no TOML files"
  let combined ← entries.foldlM (loadInto fromStr) {}
  withContext s!"Mapping validation failed for directory {directory.path}" combined.validate
  .ok combined

end Loading

/-- What the validation asks for, without the order in which it goes through the fields. -/
structure Valid (mapping : Mapping) : Prop where
  nodes : ∀ node, node ∈ mapping.mapping → isBlank node = false
  fields : ∀ item ∈ mapping.fields, item.2.validate = .ok ()
  names : (mapping.fields.map fun item => item.2.name).Nodup
  rawFields : (mapping.fields.map fun item => (item.1, item.2.rawField)).Nodup

theorem nodes_of_validate {mapping : Mapping} (valid : mapping.validate = .ok ()) :
    ∀ entry ∈ mapping.mapping.toList, isBlank entry.1 = false := by
  simp only [validate, Checks.bind_ok_iff] at valid
  obtain ⟨seen, accepted, _⟩ := valid
  refine Checks.foldlM_ok_invariant (fun past _ => ∀ entry ∈ past, isBlank entry.1 = false) ?_ accepted
    (by simp)
  intro past state entry next before step other member
  simp only [validateNode, Checks.bind_unit_ok_iff, require_ok_iff] at step
  rcases List.mem_append.mp member with earlier | last
  · exact before other earlier
  · rw [List.mem_singleton.mp last]
    exact step.1

theorem valid_of_validate {mapping : Mapping} (valid : mapping.validate = .ok ()) : mapping.Valid := by
  obtain ⟨seen, accounted⟩ := accounted_of_validate valid
  refine ⟨?_, accounted.valid, accounted.namesUnique, accounted.rawFieldsUnique⟩
  intro node member
  have present := Std.TreeMap.getElem?_eq_some_getElem member
  exact nodes_of_validate valid _ (Std.TreeMap.mem_toList_iff_getElem?_eq_some.mpr present)

theorem validateField_progress {listed : List (String × MappingEntry)} {seen : SeenNames} {node : String}
    {field : MappingEntry} (accounted : Accounted listed seen) (valid : field.validate = .ok ())
    (newRaw : (node, field.rawField) ∉ listed.map fun item => (item.1, item.2.rawField))
    (newName : field.name ∉ listed.map fun item => item.2.name) :
    ∃ next, validateField node seen field = .ok next ∧ Accounted (listed ++ [(node, field)]) next := by
  have rawUnseen : (node, field.rawField) ∉ seen.rawFields :=
    fun member => newRaw ((accounted.rawFields _).mp member)
  have nameUnseen : field.name ∉ seen.names := fun member => newName ((accounted.names _).mp member)
  have accepted : validateField node seen field = .ok
      { names := field.name :: seen.names, rawFields := (node, field.rawField) :: seen.rawFields } := by
    simp only [validateField, withContext, Checks.bind_unit_ok_iff, Checks.mapError_ok_iff, rawUnseen,
      nameUnseen, ↓reduceIte, and_true]
    exact valid
  exact ⟨_, accepted, accounted.field accepted⟩

theorem notMem_of_nodup_map {α β : Type} {apply : α → β} {before after : List α} {item : α}
    (unique : ((before ++ item :: after).map apply).Nodup) : apply item ∉ before.map apply := by
  rw [List.map_append, List.map_cons] at unique
  intro member
  exact List.disjoint_of_nodup_append unique member List.mem_cons_self

theorem validateNode_progress {mapping : Mapping} {before after : List (String × List MappingEntry)}
    {entry : String × List MappingEntry} {seen : SeenNames} (valid : mapping.Valid)
    (split : mapping.mapping.toList = before ++ entry :: after)
    (accounted : Accounted (before.flatMap fun entry => entry.2.map fun field => (entry.1, field)) seen) :
    ∃ next, validateNode seen entry = .ok next ∧
      Accounted ((before ++ [entry]).flatMap fun entry => entry.2.map fun field => (entry.1, field))
        next := by
  have present : mapping.mapping[entry.1]? = some entry.2 :=
    Std.TreeMap.mem_toList_iff_getElem?_eq_some.mp (by simp [split])
  have named := valid.nodes entry.1 (Std.TreeMap.mem_iff_isSome_getElem?.mpr (by simp [present]))
  simp only [validateNode, Checks.bind_unit_ok_iff, require_ok_iff, named, true_and,
    List.flatMap_append, List.flatMap_singleton]
  refine Checks.foldlM_progress (fun past state => Accounted
    ((before.flatMap fun entry => entry.2.map fun field => (entry.1, field)) ++
      past.map fun field => (entry.1, field)) state) ?_ (by simpa using accounted)
  intro past state field rest fieldSplit before'
  have whole : mapping.fields = ((before.flatMap fun entry => entry.2.map fun field => (entry.1, field)) ++
      past.map fun field => (entry.1, field)) ++ (entry.1, field) ::
        ((rest.map fun field => (entry.1, field)) ++
          after.flatMap fun entry => entry.2.map fun field => (entry.1, field)) := by
    simp only [fields, split, List.flatMap_append, List.flatMap_cons, fieldSplit, List.map_append,
      List.map_cons, List.append_assoc, List.cons_append]
  have names := valid.names
  have rawFields := valid.rawFields
  rw [whole] at names rawFields
  have fieldValid := valid.fields (entry.1, field) (by simp [whole])
  obtain ⟨next, accepted, further⟩ := validateField_progress before' fieldValid
    (notMem_of_nodup_map rawFields) (notMem_of_nodup_map names)
  refine ⟨next, accepted, ?_⟩
  rw [List.map_append, List.map_singleton, ← List.append_assoc]
  exact further

theorem validate_ok_iff {mapping : Mapping} : mapping.validate = .ok () ↔ mapping.Valid := by
  refine ⟨valid_of_validate, fun valid => ?_⟩
  obtain ⟨seen, accepted, _⟩ := Checks.foldlM_progress
    (fun past state => Accounted (past.flatMap fun entry => entry.2.map fun field => (entry.1, field)) state)
    (fun past state entry rest split before => validateNode_progress valid split before) accounted_nil
  rw [validate, Checks.bind_ok_iff]
  exact ⟨seen, accepted, rfl⟩

theorem Valid.within {mapping part : Mapping} (valid : mapping.Valid)
    (fields : part.fields.Subperm mapping.fields)
    (nodes : ∀ node, node ∈ part.mapping → node ∈ mapping.mapping) : part.Valid := by
  obtain ⟨listed, same, kept⟩ := fields
  refine ⟨?_, ?_, ?_, ?_⟩
  · intro node member
    exact valid.nodes node (nodes node member)
  · intro item member
    exact valid.fields item (kept.subset (same.mem_iff.mpr member))
  · exact (same.map _).nodup_iff.mp (valid.names.sublist (kept.map _))
  · exact (same.map _).nodup_iff.mp (valid.rawFields.sublist (kept.map _))

def union (family : List Mapping) : Mapping :=
  family.foldl extend {}

theorem union_concat (family : List Mapping) (mapping : Mapping) :
    union (family ++ [mapping]) = (union family).extend mapping := by
  rw [union, List.foldl_append, List.foldl_cons, List.foldl_nil, union]

theorem fields_union (family : List Mapping) : (union family).fields.Perm (family.flatMap fields) := by
  induction family using List.reverseRecOn with
  | nil => rfl
  | append_singleton family mapping ih =>
      rw [union_concat, List.flatMap_append, List.flatMap_singleton]
      exact (GroupedMap.items_merge _ _).trans (ih.append_right _)

theorem fields_union_perm {family other : List Mapping}
    (same : (family.flatMap fields).Perm (other.flatMap fields)) :
    (union family).fields.Perm (union other).fields :=
  (fields_union family).trans (same.trans (fields_union other).symm)

theorem mem_union {family : List Mapping} {node : String} :
    node ∈ (union family).mapping ↔ ∃ mapping ∈ family, node ∈ mapping.mapping := by
  induction family using List.reverseRecOn with
  | nil => simp [union]
  | append_singleton family mapping ih =>
      simp only [union_concat, extend, GroupedMap.mem_merge, ih, List.mem_append, List.mem_singleton, or_and_right,
        exists_or,
        exists_eq_left]

theorem valid_of_union {family : List Mapping} {mapping : Mapping} (valid : (union family).Valid)
    (member : mapping ∈ family) : mapping.Valid := by
  apply valid.within
  · obtain ⟨before, after, split⟩ := List.mem_iff_append.mp member
    have whole := fields_union family
    rw [split, List.flatMap_append, List.flatMap_cons, ← split] at whole
    have kept : List.Sublist mapping.fields (before.flatMap fields ++ (mapping.fields ++ after.flatMap fields)) :=
      (List.sublist_append_left _ _).trans (List.sublist_append_right _ _)
    exact kept.subperm.trans whole.symm.subperm
  · intro node present
    exact mem_union.mpr ⟨mapping, member, present⟩

def Concatenation (family : List Mapping) (whole : Mapping) : Prop :=
  ∀ node : String, whole.mapping[node]? =
    family.foldl (fun (entries : Option (List MappingEntry)) mapping =>
      entries.merge (· ++ ·) mapping.mapping[node]?) none

theorem concatenation_union (family : List Mapping) : Concatenation family (union family) := by
  intro node
  induction family using List.reverseRecOn with
  | nil => exact Std.TreeMap.getElem?_emptyc
  | append_singleton family mapping ih =>
      rw [union_concat, extend, GroupedMap.getElem?_merge, ih, List.foldl_append, List.foldl_cons,
        List.foldl_nil]

theorem Concatenation.toList_eq {family : List Mapping} {whole : Mapping}
    (concatenated : Concatenation family whole) :
    whole.mapping.toList = (union family).mapping.toList := by
  apply Std.TreeMap.Equiv.toList_eq
  apply Std.TreeMap.Equiv.of_forall_constGet?_eq
  intro node
  exact (concatenated node).trans (concatenation_union family node).symm

theorem Concatenation.validate_eq {family : List Mapping} {whole : Mapping}
    (concatenated : Concatenation family whole) : whole.validate = (union family).validate := by
  rw [validate, validate, concatenated.toList_eq]

section Loading

variable {fromStr : TomlDecoder}

theorem parseMapping_ok_iff {tomlStr : String} {mapping : Mapping} :
    parseMapping fromStr tomlStr = .ok mapping ↔
      fromStr tomlStr = .ok mapping ∧ mapping.validate = .ok () := by
  simp only [parseMapping, Checks.bind_ok_iff, Checks.mapError_ok_iff, Except.ok.injEq]
  constructor
  · rintro ⟨config, decoded, _, valid, rfl⟩
    exact ⟨decoded, valid⟩
  · rintro ⟨decoded, valid⟩
    exact ⟨mapping, decoded, (), valid, rfl⟩

def Decodes (fromStr : TomlDecoder) (entry : DirEntry) (mapping : Mapping) : Prop :=
  ∃ tomlStr, entry.content = .ok tomlStr ∧ fromStr tomlStr = .ok mapping

theorem loadMappingFile_ok_iff {entry : DirEntry} {mapping : Mapping} :
    loadMappingFile fromStr entry = .ok mapping ↔
      Decodes fromStr entry mapping ∧ mapping.validate = .ok () := by
  simp only [loadMappingFile, withContext, Checks.bind_ok_iff, Checks.mapError_ok_iff,
    parseMapping_ok_iff, Decodes]
  constructor
  · rintro ⟨tomlStr, content, decoded, valid⟩
    exact ⟨⟨tomlStr, content, decoded⟩, valid⟩
  · rintro ⟨⟨tomlStr, content, decoded⟩, valid⟩
    exact ⟨tomlStr, content, decoded, valid⟩

theorem Decodes.unique {entry : DirEntry} {mapping other : Mapping} (decodes : Decodes fromStr entry mapping)
    (otherDecodes : Decodes fromStr entry other) : other = mapping := by
  obtain ⟨tomlStr, content, decoded⟩ := decodes
  obtain ⟨otherStr, otherContent, otherDecoded⟩ := otherDecodes
  have same : otherStr = tomlStr := Except.ok.inj (otherContent.symm.trans content)
  rw [same] at otherDecoded
  exact Except.ok.inj (otherDecoded.symm.trans decoded)

theorem loadInto_ok_iff {combined mapping next : Mapping} {entry : DirEntry}
    (decodes : Decodes fromStr entry mapping) :
    loadInto fromStr combined entry = .ok next ↔
      mapping.validate = .ok () ∧ next = combined.extend mapping := by
  simp only [loadInto, withContext, Checks.bind_ok_iff, Checks.mapError_ok_iff, loadMappingFile_ok_iff,
    Except.ok.injEq]
  constructor
  · rintro ⟨other, ⟨otherDecodes, valid⟩, rfl⟩
    have same := decodes.unique otherDecodes
    subst same
    exact ⟨valid, rfl⟩
  · rintro ⟨valid, rfl⟩
    exact ⟨mapping, ⟨decodes, valid⟩, rfl⟩

theorem foldlM_loadInto_ok_iff {entries : List DirEntry} {family : List Mapping} {start combined : Mapping}
    (decodes : List.Forall₂ (Decodes fromStr) entries family) :
    entries.foldlM (loadInto fromStr) start = .ok combined ↔
      (∀ mapping ∈ family, mapping.validate = .ok ()) ∧ combined = family.foldl extend start := by
  induction decodes generalizing start with
  | nil => simp [pure, Except.pure, eq_comm]
  | cons first rest ih =>
      simp only [List.foldlM_cons, Checks.bind_ok_iff, loadInto_ok_iff first, ih, List.forall_mem_cons,
        List.foldl_cons]
      constructor
      · rintro ⟨next, ⟨valid, rfl⟩, others, same⟩
        exact ⟨⟨valid, others⟩, same⟩
      · rintro ⟨⟨valid, others⟩, same⟩
        exact ⟨_, ⟨valid, rfl⟩, others, same⟩

def Parses (fromStr : TomlDecoder) (directory : Directory) (family : List Mapping) : Prop :=
  ∃ entries : List DirEntry, directory.listing = .ok (entries.map .ok) ∧
    List.Forall₂ (Decodes fromStr) (tomlFiles entries) family

theorem loadMappingDirectory_ok_iff {directory : Directory} {family : List Mapping} {combined : Mapping}
    (parses : Parses fromStr directory family) (nonempty : family ≠ []) :
    loadMappingDirectory fromStr directory = .ok combined ↔
      (union family).Valid ∧ combined = union family := by
  obtain ⟨entries, listing, decodes⟩ := parses
  have listed : (entries.map Except.ok).mapM id = (.ok entries : Except String (List DirEntry)) := by
    clear listing decodes
    induction entries with
    | nil => rfl
    | cons first rest ih =>
        rw [List.map_cons, List.mapM_cons, ih]
        rfl
  have found : (tomlFiles entries).isEmpty = false := by
    cases files : tomlFiles entries with
    | nil =>
        rw [files] at decodes
        exact absurd (List.forall₂_nil_left_iff.mp decodes) nonempty
    | cons first rest => rfl
  have whole : loadMappingDirectory fromStr directory = .ok combined ↔
      (tomlFiles entries).foldlM (loadInto fromStr) {} = .ok combined ∧ combined.validate = .ok () := by
    simp only [loadMappingDirectory, withContext, Checks.bind_ok_iff, Checks.mapError_ok_iff,
      require_ok_iff, Except.ok.injEq]
    constructor
    · rintro ⟨_, read, others, collected, _, _, loaded, folded, _, valid, rfl⟩
      have sameListing := Except.ok.inj (read.symm.trans listing)
      subst sameListing
      have sameEntries := Except.ok.inj (collected.symm.trans listed)
      subst sameEntries
      exact ⟨folded, valid⟩
    · rintro ⟨folded, valid⟩
      exact ⟨_, listing, entries, listed, (), found, combined, folded, (), valid, rfl⟩
  rw [whole, foldlM_loadInto_ok_iff decodes, validate_ok_iff]
  constructor
  · rintro ⟨⟨_, rfl⟩, valid⟩
    exact ⟨valid, rfl⟩
  · rintro ⟨valid, rfl⟩
    refine ⟨⟨fun mapping member => ?_, rfl⟩, valid⟩
    exact validate_ok_iff.mpr (valid_of_union valid member)

end Loading

theorem getMappingForName_eq_some_iff {mapping : Mapping} (valid : mapping.validate = .ok ())
    {name node : String} {field : MappingEntry} :
    mapping.getMappingForName name = some ⟨node, field⟩ ↔
      (node, field) ∈ mapping.fields ∧ field.name = name := by
  obtain ⟨seen, accounted⟩ := accounted_of_validate valid
  constructor
  · exact listed_of_getMappingForName
  · rintro ⟨listed, rfl⟩
    exact getMappingForName_listed accounted listed

theorem getMappingForRaw_eq_some_iff {mapping : Mapping} (valid : mapping.validate = .ok ())
    {node rawField otherNode : String} {field : MappingEntry} :
    mapping.getMappingForRaw node rawField = some ⟨otherNode, field⟩ ↔
      (otherNode, field) ∈ mapping.fields ∧ otherNode = node ∧ field.rawField = rawField := by
  obtain ⟨seen, accounted⟩ := accounted_of_validate valid
  constructor
  · exact listed_of_getMappingForRaw
  · rintro ⟨listed, rfl, rfl⟩
    exact getMappingForRaw_listed accounted listed

def SameLookups (mapping other : Mapping) : Prop :=
  (∀ name, mapping.getMappingForName name = other.getMappingForName name) ∧
    ∀ node field, mapping.getMappingForRaw node field = other.getMappingForRaw node field

theorem sameLookups_of_perm {mapping other : Mapping} (valid : mapping.validate = .ok ())
    (otherValid : other.validate = .ok ()) (same : mapping.fields.Perm other.fields) :
    SameLookups mapping other := by
  constructor
  · intro name
    apply Option.ext
    rintro ⟨node, field⟩
    rw [getMappingForName_eq_some_iff valid, getMappingForName_eq_some_iff otherValid, same.mem_iff]
  · intro node rawField
    apply Option.ext
    rintro ⟨otherNode, field⟩
    rw [getMappingForRaw_eq_some_iff valid, getMappingForRaw_eq_some_iff otherValid, same.mem_iff]

/-- The same entries distributed over other files, which name the same nodes. -/
structure Redistributed (family other : List Mapping) : Prop where
  fields : (family.flatMap fields).Perm (other.flatMap fields)
  nodes : ∀ node, (∃ mapping ∈ family, node ∈ mapping.mapping) ↔ ∃ mapping ∈ other, node ∈ mapping.mapping

theorem Redistributed.symm {family other : List Mapping} (redistributed : Redistributed family other) :
    Redistributed other family :=
  ⟨redistributed.fields.symm, fun node => (redistributed.nodes node).symm⟩

theorem Redistributed.valid {family other : List Mapping} (redistributed : Redistributed family other)
    (valid : (union family).Valid) : (union other).Valid := by
  apply valid.within (fields_union_perm redistributed.fields.symm).subperm
  intro node present
  exact mem_union.mpr ((redistributed.nodes node).mpr (mem_union.mp present))

theorem loads_iff {fromStr : TomlDecoder} {directory : Directory} {family : List Mapping}
    (parses : Parses fromStr directory family) (nonempty : family ≠ []) :
    (∃ combined, loadMappingDirectory fromStr directory = .ok combined) ↔ (union family).Valid := by
  simp only [loadMappingDirectory_ok_iff parses nonempty, exists_and_left, exists_eq, and_true]

/-- A directory loads exactly if the concatenation of its files is valid, and what the lookups find
does not depend on how the entries are distributed over the files or on the order of the files. -/
theorem splitting_does_not_matter {fromStr : TomlDecoder} {directory other : Directory}
    {family otherFamily : List Mapping} (parses : Parses fromStr directory family)
    (otherParses : Parses fromStr other otherFamily) (nonempty : family ≠ []) (otherNonempty : otherFamily ≠ []) :
    (∃ whole, Concatenation family whole) ∧
    (∀ whole, Concatenation family whole →
      ((∃ combined, loadMappingDirectory fromStr directory = .ok combined) ↔ whole.validate = .ok ())) ∧
    ((family.flatMap fields).Perm (otherFamily.flatMap fields) → ∀ combined otherCombined,
      loadMappingDirectory fromStr directory = .ok combined →
      loadMappingDirectory fromStr other = .ok otherCombined → SameLookups combined otherCombined) ∧
    (Redistributed family otherFamily →
      ((∃ combined, loadMappingDirectory fromStr directory = .ok combined) ↔
        ∃ combined, loadMappingDirectory fromStr other = .ok combined)) := by
  refine ⟨⟨_, concatenation_union family⟩, ?_, ?_, ?_⟩
  · intro whole concatenated
    rw [loads_iff parses nonempty, concatenated.validate_eq, validate_ok_iff]
  · intro same combined otherCombined loaded otherLoaded
    obtain ⟨valid, rfl⟩ := (loadMappingDirectory_ok_iff parses nonempty).mp loaded
    obtain ⟨otherValid, rfl⟩ := (loadMappingDirectory_ok_iff otherParses otherNonempty).mp otherLoaded
    exact sameLookups_of_perm (validate_ok_iff.mpr valid) (validate_ok_iff.mpr otherValid)
      (fields_union_perm same)
  · intro redistributed
    rw [loads_iff parses nonempty, loads_iff otherParses otherNonempty]
    exact ⟨redistributed.valid, redistributed.symm.valid⟩

def pressureToml : String :=
  "[[mapping.ECU]]\nname = \"first\"\ntype = \"telemetry\"\nraw_field = \"pressure\"\n"

def temperatureToml : String :=
  "[[mapping.ECU]]\nname = \"second\"\ntype = \"telemetry\"\nraw_field = \"temperature\"\n"

def ecuMapping (entries : List MappingEntry) : Mapping where
  mapping := (∅ : Std.TreeMap String (List MappingEntry)).insert "ECU" entries

def pressureEntry : MappingEntry where
  name := "first"
  fieldType := .telemetry
  rawField := "pressure"

def temperatureEntry : MappingEntry where
  name := "second"
  fieldType := .telemetry
  rawField := "temperature"

def ecuDecoder : TomlDecoder := fun tomlStr =>
  if tomlStr = pressureToml then .ok (ecuMapping [pressureEntry])
  else if tomlStr = temperatureToml then .ok (ecuMapping [temperatureEntry])
  else if tomlStr = temperatureToml ++ pressureToml then .ok (ecuMapping [temperatureEntry, pressureEntry])
  else .error "TOML parse error"

def ecuFile (fileName content : String) : DirEntry where
  path := "mapping/" ++ fileName
  fileName := fileName
  isFile := true
  content := .ok content

def ecuDirectory (entries : List DirEntry) : Directory where
  path := "mapping"
  listing := .ok (entries.map .ok)

theorem tomlFiles_split :
    tomlFiles [ecuFile "b.TOML" temperatureToml, ecuFile "notes.md" "", ecuFile "a.toml" pressureToml] =
      [ecuFile "a.toml" pressureToml, ecuFile "b.TOML" temperatureToml] := by
  have kept : [ecuFile "b.TOML" temperatureToml, ecuFile "notes.md" "", ecuFile "a.toml" pressureToml].filter
      DirEntry.isToml = [ecuFile "b.TOML" temperatureToml, ecuFile "a.toml" pressureToml] := rfl
  have order : decide ((ecuFile "b.TOML" temperatureToml).fileName ≤
      (ecuFile "a.toml" pressureToml).fileName) = false := by
    simp [ecuFile]
  simp [tomlFiles, kept, order, List.mergeSort, List.MergeSort.Internal.splitInTwo]

theorem temperatureToml_ne : ¬ temperatureToml = pressureToml := by
  simp [temperatureToml, pressureToml]

theorem ecuDecoder_pressure : ecuDecoder pressureToml = .ok (ecuMapping [pressureEntry]) := by
  rw [ecuDecoder, if_pos rfl]

theorem ecuDecoder_temperature : ecuDecoder temperatureToml = .ok (ecuMapping [temperatureEntry]) := by
  rw [ecuDecoder, if_neg temperatureToml_ne, if_pos rfl]

theorem ecuDecoder_both :
    ecuDecoder (temperatureToml ++ pressureToml) = .ok (ecuMapping [temperatureEntry, pressureEntry]) := by
  have longer : ¬ temperatureToml ++ pressureToml = pressureToml := by simp [temperatureToml, pressureToml]
  have appended : ¬ temperatureToml ++ pressureToml = temperatureToml := by simp [temperatureToml, pressureToml]
  rw [ecuDecoder, if_neg longer, if_neg appended, if_pos rfl]

theorem parses_split : Parses ecuDecoder
    (ecuDirectory [ecuFile "b.TOML" temperatureToml, ecuFile "notes.md" "", ecuFile "a.toml" pressureToml])
    [ecuMapping [pressureEntry], ecuMapping [temperatureEntry]] := by
  refine ⟨_, rfl, ?_⟩
  rw [tomlFiles_split]
  exact .cons ⟨_, rfl, ecuDecoder_pressure⟩ (.cons ⟨_, rfl, ecuDecoder_temperature⟩ .nil)

theorem parses_single : Parses ecuDecoder
    (ecuDirectory [ecuFile "all.toml" (temperatureToml ++ pressureToml)])
    [ecuMapping [temperatureEntry, pressureEntry]] := by
  refine ⟨_, rfl, ?_⟩
  have files : tomlFiles [ecuFile "all.toml" (temperatureToml ++ pressureToml)] =
      [ecuFile "all.toml" (temperatureToml ++ pressureToml)] := by
    have kept : (ecuFile "all.toml" (temperatureToml ++ pressureToml)).isToml = true := rfl
    simp [tomlFiles, kept]
  rw [files]
  exact .cons ⟨_, rfl, ecuDecoder_both⟩ .nil

theorem redistributed_ecu : Redistributed [ecuMapping [pressureEntry], ecuMapping [temperatureEntry]]
    [ecuMapping [temperatureEntry, pressureEntry]] where
  fields := List.Perm.swap ("ECU", temperatureEntry) ("ECU", pressureEntry) []
  nodes node := by simp [ecuMapping]

theorem splitting_does_not_matter_ecu : ∃ combined otherCombined,
    loadMappingDirectory ecuDecoder (ecuDirectory
      [ecuFile "b.TOML" temperatureToml, ecuFile "notes.md" "", ecuFile "a.toml" pressureToml]) =
        .ok combined ∧
    loadMappingDirectory ecuDecoder (ecuDirectory
      [ecuFile "all.toml" (temperatureToml ++ pressureToml)]) = .ok otherCombined ∧
    SameLookups combined otherCombined := by
  obtain ⟨_, loads, lookups, redistributed⟩ :=
    splitting_does_not_matter parses_split parses_single (by simp) (by simp)
  have valid : (union [ecuMapping [pressureEntry], ecuMapping [temperatureEntry]]).validate = .ok () := rfl
  obtain ⟨combined, loaded⟩ := (loads _ (concatenation_union _)).mpr valid
  obtain ⟨otherCombined, otherLoaded⟩ := (redistributed redistributed_ecu).mp ⟨combined, loaded⟩
  exact ⟨combined, otherCombined, loaded, otherLoaded,
    lookups redistributed_ecu.fields combined otherCombined loaded otherLoaded⟩

end Mapping

end FerroFlow
