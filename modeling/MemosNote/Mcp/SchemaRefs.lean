import Mathlib.Data.List.Basic
import Mathlib.Data.List.Nodup
import Mathlib.Data.Nat.Notation
import Mathlib.Logic.Relation
import MemosNote.Library.Keys

/-!
# References between schemas

A schema refers to named component schemas, which refer to each other in any way.  It is resolved
to a schema that holds the components it reaches in a map under `$defs` and refers to that map.

Main results:

- Theorem {lit}`resolveSchemaValue_spec`: what resolving a value adds to the definitions.
- Theorem {lit}`resolveSchemaRef_iff`: resolving ends, and the result is closed and finite exactly
  when the schema is not itself a reference to a component that leads back to itself.
-/

namespace MemosNote
namespace Mcp

/-! ## Schemas -/

/-- The scalar values of a schema. -/
inductive Scalar where
  | null
  | bool (b : Bool)
  | number (text : String)
  | text (s : String)

/-- A decoded value. -/
inductive SchemaValue where
  | scalar (s : Scalar)
  | array (items : List SchemaValue)
  | object (entries : List (String × SchemaValue))

/-- A schema: its entries by key. -/
abbrev JsonSchema :=
  List (String × SchemaValue)

/-- The component schemas by their names. -/
abbrev Components :=
  List (String × JsonSchema)

/-- The text under `$ref`, if there is one. -/
def refText (schema : JsonSchema) : Option String :=
  match schema.lookup "$ref" with
  | some (.scalar (.text ref)) => some ref
  | _ => none

/-- The reference that a schema is. -/
def schemaRef (schema : JsonSchema) : Option String :=
  (refText schema).filter (· ≠ "")

/-! ## Values in memory -/

/-- A value in memory.  Each map that is made has a number of its own, so that the same map is known
in several places. -/
inductive GoValue where
  | scalar (s : Scalar)
  | array (items : List GoValue)
  | map (id : ℕ) (entries : List (String × GoValue))

/-- A map with the address that tells it from other maps. -/
structure GoMap where
  id : ℕ
  entries : List (String × GoValue)

/-- The map as a value. -/
def GoMap.value (m : GoMap) : GoValue :=
  .map m.id m.entries

/-- Store an entry of a map under its key. -/
def putEntry {α : Type} (key : String) (value : α) : List (String × α) → List (String × α)
  | [] => [(key, value)]
  | entry :: rest =>
      if entry.1 = key then (key, value) :: rest else entry :: putEntry key value rest

/-- The definitions and the names being resolved, with the number of the next map. -/
structure ResolveState where
  next : ℕ
  defs : List (String × GoMap)
  resolving : List String

/-- How the resolution of a schema fails. -/
inductive ResolveError where
  | unsupported (ref : String)
  | notFound (ref : String)
  /-- The model is not deep enough; the code has no such error. -/
  | outOfFuel

/-! ## Resolving -/

/-- Where component schemas are. -/
def schemasPath : String :=
  "#/components/schemas/"

/-- The reference to a component. -/
def schemaComponentRef (name : String) : String :=
  schemasPath ++ name

/-- The component that a reference names. -/
def schemaComponentName (ref : String) : Except ResolveError String :=
  if schemasPath.toList.isPrefixOf ref.toList then
    .ok (String.ofList (ref.toList.drop schemasPath.toList.length))
  else .error (.unsupported ref)

/-- Where a component is found in the result. -/
def schemaDefRef (name : String) : String :=
  "#/$defs/" ++ name

/-- Define a component if it is not yet defined. -/
abbrev AddDef :=
  String → ResolveState → Except ResolveError ResolveState

/-- A map, when it is known how its entries are resolved. -/
def resolveMapWith (addDef : AddDef)
    (resolveEntries : ResolveState → Except ResolveError (List (String × GoValue) × ResolveState))
    (schema : JsonSchema) (st : ResolveState) : Except ResolveError (GoMap × ResolveState) :=
  match schemaRef schema with
  | some ref => do
      let name ← schemaComponentName ref
      let st ← addDef name st
      .ok (⟨st.next, [("$ref", .scalar (.text (schemaDefRef name)))]⟩,
        { st with next := st.next + 1 })
  | none => do
      let (entries, st') ← resolveEntries { st with next := st.next + 1 }
      .ok (⟨st.next, entries⟩, st')

mutual

/-- Resolve a value below the schema itself. -/
def resolveSchemaValue (addDef : AddDef) :
    SchemaValue → ResolveState → Except ResolveError (GoValue × ResolveState)
  | .scalar s, st => .ok (.scalar s, st)
  | .array items, st => do
      let (items, st) ← resolveItems addDef items st
      .ok (.array items, st)
  | .object entries, st => do
      let (m, st) ← resolveMapWith addDef (resolveEntries addDef entries) entries st
      .ok (m.value, st)

/-- The elements of a list, one after another. -/
def resolveItems (addDef : AddDef) :
    List SchemaValue → ResolveState → Except ResolveError (List GoValue × ResolveState)
  | [], st => .ok ([], st)
  | item :: rest, st => do
      let (item, st) ← resolveSchemaValue addDef item st
      let (rest, st) ← resolveItems addDef rest st
      .ok (item :: rest, st)

/-- The entries of a map, one after another. -/
def resolveEntries (addDef : AddDef) :
    List (String × SchemaValue) → ResolveState →
      Except ResolveError (List (String × GoValue) × ResolveState)
  | [], st => .ok ([], st)
  | (key, value) :: rest, st => do
      let (value, st) ← resolveSchemaValue addDef value st
      let (rest, st) ← resolveEntries addDef rest st
      .ok ((key, value) :: rest, st)

end

/-- A map with its references resolved. -/
def resolveSchemaMap (addDef : AddDef) (schema : JsonSchema) (st : ResolveState) :
    Except ResolveError (GoMap × ResolveState) :=
  resolveMapWith addDef (resolveEntries addDef schema) schema st

/-- Resolve a component while its name is marked. -/
def resolveMarked (addDef : AddDef) (name : String) (component : JsonSchema) (st : ResolveState) :
    Except ResolveError (GoMap × ResolveState) := do
  let (resolved, st) ←
    resolveSchemaMap addDef component { st with resolving := name :: st.resolving }
  .ok (resolved, { st with resolving := st.resolving.filter (· ≠ name) })

/-- Resolve a component into the definitions, unless it is there already. -/
def addSchemaDefWith (components : Components) (addDef : AddDef) : AddDef :=
  fun name st =>
    if (st.defs.lookup name).isSome then .ok st
    else
      match components.lookup name with
      | none => .error (.notFound (schemaComponentRef name))
      | some component =>
          let st :=
            { st with next := st.next + 1, defs := putEntry name ⟨st.next, []⟩ st.defs }
          if name ∈ st.resolving then .ok st
          else do
            let (resolved, st) ← resolveMarked addDef name component st
            .ok { st with defs := putEntry name resolved st.defs }

/-- Define a component and those it refers to, as deep as there is fuel. -/
def addSchemaDef (components : Components) : ℕ → AddDef
  | 0 => addSchemaDefWith components fun _ _ => .error .outOfFuel
  | fuel + 1 => addSchemaDefWith components (addSchemaDef components fuel)

/-- The schema of a component, which replaces a reference at the root. -/
def resolveComponentSchema (components : Components) (addDef : AddDef) (name : String)
    (st : ResolveState) : Except ResolveError (GoMap × ResolveState) :=
  match components.lookup name with
  | none => .error (.notFound (schemaComponentRef name))
  | some component => do
      let (resolved, st) ← resolveMarked addDef name component st
      if (st.defs.lookup name).isSome then
        .ok (resolved, { st with defs := putEntry name resolved st.defs })
      else .ok (resolved, st)

/-- A resolved schema: its map, and the definitions that are stored in it under `$defs`, which are
the map number 0. -/
structure ResolvedSchema where
  root : GoMap
  defs : List (String × GoMap)

/-- Resolve a schema; only a reference that is the schema itself is replaced by its component. -/
def resolveSchemaRef (components : Components) (fuel : ℕ) (schema : JsonSchema) :
    Except ResolveError ResolvedSchema := do
  let addDef := addSchemaDef components fuel
  let st : ResolveState := ⟨1, [], []⟩
  let (resolved, st) ←
    match schemaRef schema with
    | some ref => do
        let name ← schemaComponentName ref
        resolveComponentSchema components addDef name st
    | none => resolveSchemaMap addDef schema st
  .ok ⟨resolved, st.defs⟩

/-- The definitions as a value. -/
def ResolvedSchema.defsValue (result : ResolvedSchema) : GoValue :=
  .map 0 (result.defs.map fun entry => (entry.1, entry.2.value))

/-- The entries of a map of a resolved schema, with `$defs` in the map of the schema itself. -/
def ResolvedSchema.contents (result : ResolvedSchema) (id : ℕ) (entries : List (String × GoValue)) :
    List (String × GoValue) :=
  if id = result.root.id ∧ result.defs ≠ [] then
    putEntry "$defs" result.defsValue entries
  else entries

/-! ## What is meant -/

mutual

/-- The references that resolving a value meets. -/
def SchemaValue.references : SchemaValue → List String
  | .scalar _ => []
  | .array items => itemsReferences items
  | .object entries =>
      match refText entries with
      | some ref => [ref]
      | none => entriesReferences entries

/-- The components that the elements refer to. -/
def itemsReferences : List SchemaValue → List String
  | [] => []
  | item :: rest => item.references ++ itemsReferences rest

/-- The components that the entries refer to. -/
def entriesReferences : List (String × SchemaValue) → List String
  | [] => []
  | (_, value) :: rest => value.references ++ entriesReferences rest

end

/-- The component that a reference names, if it names one. -/
def componentName (ref : String) : Option String :=
  (schemaComponentName ref).toOption

mutual

/-- A value whose references lead to the definitions. -/
def SchemaValue.rewrite : SchemaValue → SchemaValue
  | .scalar s => .scalar s
  | .array items => .array (rewriteItems items)
  | .object entries =>
      match (refText entries).bind componentName with
      | some name => .object [("$ref", .scalar (.text (schemaDefRef name)))]
      | none => .object (rewriteEntries entries)

/-- The elements with their references turned to the definitions. -/
def rewriteItems : List SchemaValue → List SchemaValue
  | [] => []
  | item :: rest => item.rewrite :: rewriteItems rest

/-- The entries with their references turned to the definitions. -/
def rewriteEntries : List (String × SchemaValue) → List (String × SchemaValue)
  | [] => []
  | (key, value) :: rest => (key, value.rewrite) :: rewriteEntries rest

end

mutual

/-- All texts under `$ref` in a value. -/
def SchemaValue.refTexts : SchemaValue → List String
  | .scalar _ => []
  | .array items => itemsRefTexts items
  | .object entries => (refText entries).toList ++ entriesRefTexts entries

/-- The reference texts of the elements. -/
def itemsRefTexts : List SchemaValue → List String
  | [] => []
  | item :: rest => item.refTexts ++ itemsRefTexts rest

/-- The reference texts of the entries. -/
def entriesRefTexts : List (String × SchemaValue) → List String
  | [] => []
  | (_, value) :: rest => value.refTexts ++ entriesRefTexts rest

end

mutual

/-- The value without the numbers of its maps. -/
def GoValue.erase : GoValue → SchemaValue
  | .scalar s => .scalar s
  | .array items => .array (eraseItems items)
  | .map _ entries => .object (eraseEntries entries)

/-- The elements without the addresses. -/
def eraseItems : List GoValue → List SchemaValue
  | [] => []
  | item :: rest => item.erase :: eraseItems rest

/-- The entries without the addresses. -/
def eraseEntries : List (String × GoValue) → List (String × SchemaValue)
  | [] => []
  | (key, value) :: rest => (key, value.erase) :: eraseEntries rest

end

mutual

/-- The numbers of the maps in a value. -/
def GoValue.ids : GoValue → List ℕ
  | .scalar _ => []
  | .array items => itemsIds items
  | .map id entries => id :: entriesIds entries

/-- The addresses of the maps in the elements. -/
def itemsIds : List GoValue → List ℕ
  | [] => []
  | item :: rest => item.ids ++ itemsIds rest

/-- The addresses of the maps in the entries. -/
def entriesIds : List (String × GoValue) → List ℕ
  | [] => []
  | (_, value) :: rest => value.ids ++ entriesIds rest

end

/-- A value of a resolved schema is finitely deep, so that it can be written out. -/
inductive Finite (result : ResolvedSchema) : GoValue → Prop where
  | scalar (s : Scalar) : Finite result (.scalar s)
  | array (items : List GoValue) (below : ∀ item ∈ items, Finite result item) :
      Finite result (.array items)
  | map (id : ℕ) (entries : List (String × GoValue))
      (below : ∀ entry ∈ result.contents id entries, Finite result entry.2) :
      Finite result (.map id entries)

/-- A reference names one of some components. -/
def NamesAmong (known : String → Prop) (ref : String) : Prop :=
  ∃ name, ref = schemaComponentRef name ∧ known name

/-- A reference names a component. -/
def NamesComponent (components : Components) (ref : String) : Prop :=
  NamesAmong (fun name => (components.lookup name).isSome) ref

/-- One component refers to another. -/
def RefersTo (components : Components) (a b : String) : Prop :=
  ∃ component, components.lookup a = some component ∧
    schemaComponentRef b ∈ (SchemaValue.object component).references

/-- References lead to a component, directly or through other components. -/
def Reaches (components : Components) (refs : List String) (name : String) : Prop :=
  ∃ first, schemaComponentRef first ∈ refs ∧
    Relation.ReflTransGen (RefersTo components) first name

/-- The references of the components that a schema leads to name components. -/
def ReachedNamed (components : Components) (schema : JsonSchema) : Prop :=
  ∀ name component, Reaches components (SchemaValue.object schema).references name →
    components.lookup name = some component →
      ∀ ref ∈ (SchemaValue.object component).references, NamesComponent components ref

/-- A definition is its resolved component. -/
def Resolved (components : Components) (name : String) (m : GoMap) : Prop :=
  ∃ component, components.lookup name = some component ∧
    m.value.erase = (SchemaValue.object component).rewrite

/-- Every reference of a resolved schema leads to a resolved definition, and the schema is
finite. -/
structure ClosedFinite (components : Components) (result : ResolvedSchema) : Prop where
  closed : ∀ m, m = result.root ∨ (∃ name, result.defs.lookup name = some m) →
    ∀ text ∈ m.value.erase.refTexts, ∃ name d, text = schemaDefRef name ∧
      result.defs.lookup name = some d ∧ Resolved components name d
  finite : Finite result result.root.value

/-! ## Names and entries -/

@[simp]
theorem lookup_putEntry {α : Type} (key k : String) (value : α) (entries : List (String × α)) :
    (putEntry key value entries).lookup k =
      if k = key then some value else entries.lookup k := by
  induction entries with
  | nil =>
      by_cases hk : k = key
      · simp [putEntry, hk]
      · have hbeq : (k == key) = false := by simpa using hk
        simp [putEntry, hk, List.lookup_cons, hbeq]
  | cons entry rest ih =>
      rw [putEntry]
      by_cases hkey : entry.1 = key
      · rw [if_pos hkey, List.lookup_cons, List.lookup_cons, hkey]
        by_cases hk : k = key
        · simp [hk]
        · have hbeq : (k == key) = false := by simpa using hk
          simp [hk, hbeq]
      · rw [if_neg hkey, List.lookup_cons, List.lookup_cons, ih]
        by_cases hk : k = entry.1
        · subst hk
          simp [hkey]
        · have hbeq : (k == entry.1) = false := by simpa using hk
          simp [hbeq]

/-- What is in a map after an entry was put. -/
theorem mem_putEntry {α : Type} {key : String} {value : α} {entries : List (String × α)}
    {entry : String × α} (h : entry ∈ putEntry key value entries) :
    entry = (key, value) ∨ entry ∈ entries := by
  induction entries with
  | nil => exact Or.inl (List.mem_singleton.mp h)
  | cons first rest ih =>
      rw [putEntry] at h
      split at h
      · rcases List.mem_cons.mp h with h | h
        · exact Or.inl h
        · exact Or.inr (List.mem_cons_of_mem _ h)
      · rcases List.mem_cons.mp h with h | h
        · exact Or.inr (h ▸ List.mem_cons_self)
        · exact (ih h).imp_right (List.mem_cons_of_mem _)

/-- A map keeps one entry a key. -/
theorem nodup_putEntry {α : Type} {key : String} {value : α} {entries : List (String × α)}
    (h : (entries.map Prod.fst).Nodup) : ((putEntry key value entries).map Prod.fst).Nodup := by
  induction entries with
  | nil => exact List.nodup_singleton key
  | cons first rest ih =>
      rw [List.map_cons, List.nodup_cons] at h
      rw [putEntry]
      split
      · rename_i hkey
        rw [List.map_cons, List.nodup_cons]
        exact hkey ▸ h
      · rename_i hkey
        rw [List.map_cons, List.nodup_cons]
        refine ⟨fun hmem => ?_, ih h.2⟩
        rcases List.mem_map.mp hmem with ⟨entry, hentry, hsame⟩
        rcases mem_putEntry hentry with rfl | hentry
        · exact hkey hsame.symm
        · exact h.1 (hsame ▸ List.mem_map_of_mem hentry)

private theorem lookup_of_mem {α : Type} {key : String} {value : α} {entries : List (String × α)}
    (hkeys : (entries.map Prod.fst).Nodup) (h : (key, value) ∈ entries) :
    entries.lookup key = some value := by
  induction entries with
  | nil => cases h
  | cons first rest ih =>
      rw [List.map_cons, List.nodup_cons] at hkeys
      rcases List.mem_cons.mp h with rfl | h
      · exact List.lookup_cons_self
      · rw [List.lookup_cons]
        have hne : (key == first.1) = false := by
          have hdiff : key ≠ first.1 := fun hsame => hkeys.1 (hsame ▸ List.mem_map_of_mem h)
          simpa using hdiff
        rw [hne]
        exact ih hkeys.2 h

/-- A component is named by its own reference. -/
theorem schemaComponentName_ref (name : String) :
    schemaComponentName (schemaComponentRef name) = .ok name := by
  rw [schemaComponentName, schemaComponentRef, String.toList_append, if_pos]
  · rw [List.drop_left, String.ofList_toList]
  · exact List.isPrefixOf_iff_prefix.mpr (List.prefix_append _ _)

theorem componentName_ref (name : String) :
    componentName (schemaComponentRef name) = some name := by
  rw [componentName, schemaComponentName_ref]
  rfl

private theorem schemaComponentRef_ne (name : String) : schemaComponentRef name ≠ "" := by
  intro h
  have hlist := congrArg String.toList h
  rw [schemaComponentRef, String.toList_append, schemasPath] at hlist
  cases hlist

/-- Two components have different references. -/
theorem schemaComponentRef_inj {a b : String} (h : schemaComponentRef a = schemaComponentRef b) :
    a = b := by
  have hname := congrArg componentName h
  rw [componentName_ref, componentName_ref] at hname
  exact Option.some_inj.mp hname

/-! ## The growth of the definitions -/

variable {components : Components} {known : String → Prop} {refs : List String}
  {st st' : ResolveState}

/-- The numbers of the maps in a value were given between two states. -/
def MadeBetween (st st' : ResolveState) (value : GoValue) : Prop :=
  ∀ id ∈ value.ids, st.next ≤ id ∧ id < st'.next

/-- All components that a component refers to are defined. -/
def RefsDefined (components : Components) (st : ResolveState) (name : String) : Prop :=
  ∀ other, RefersTo components name other → (st.defs.lookup other).isSome

/-- A definition that some references led to. -/
structure Added (components : Components) (refs : List String) (st st' : ResolveState)
    (name : String) (m : GoMap) : Prop where
  reached : Reaches components refs name
  made : MadeBetween st st' m.value
  resolved : name ∉ st.resolving → Resolved components name m ∧ RefsDefined components st' name

/-- Some references were followed: the definitions stay, and those that the references lead to are
added. -/
structure Follows (components : Components) (refs : List String) (st st' : ResolveState) :
    Prop where
  next : st.next ≤ st'.next
  resolving : st'.resolving = st.resolving
  keys : (st.defs.map Prod.fst).Nodup → (st'.defs.map Prod.fst).Nodup
  kept : ∀ name m, st.defs.lookup name = some m → st'.defs.lookup name = some m
  requested : ∀ name, schemaComponentRef name ∈ refs → (st'.defs.lookup name).isSome
  added : ∀ name m, st'.defs.lookup name = some m → st.defs.lookup name = none →
    Added components refs st st' name m

theorem isSome_of_kept
    (hkept : ∀ name m, st.defs.lookup name = some m → st'.defs.lookup name = some m)
    {name : String} (h : (st.defs.lookup name).isSome) : (st'.defs.lookup name).isSome := by
  rcases Option.isSome_iff_exists.mp h with ⟨m, hm⟩
  exact Option.isSome_iff_exists.mpr ⟨m, hkept name m hm⟩

/-- What refers to known definitions still does when more are known. -/
theorem RefsDefined.mono {name : String} (h : RefsDefined components st name)
    (hsome : ∀ name, (st.defs.lookup name).isSome → (st'.defs.lookup name).isSome) :
    RefsDefined components st' name :=
  fun other hother => hsome other (h other hother)

/-- What was made in a part of a run was made in the run. -/
theorem MadeBetween.widen {a b c d : ResolveState} {value : GoValue} (h : MadeBetween b c value)
    (hab : a.next ≤ b.next) (hcd : c.next ≤ d.next) : MadeBetween a d value := by
  intro id hid
  have hbounds := h id hid
  omega

theorem follows_refl (st : ResolveState) : Follows components [] st st := by
  refine ⟨Nat.le_refl _, rfl, id, fun _ _ h => h, by simp, fun name m hm hnone => ?_⟩
  rw [hm] at hnone
  cases hnone

/-- Two parts of a resolution follow the references of both. -/
theorem Follows.trans {refs' : List String} {st'' : ResolveState}
    (h : Follows components refs st st') (h' : Follows components refs' st' st'') :
    Follows components (refs ++ refs') st st'' := by
  constructor
  · exact Nat.le_trans h.next h'.next
  · rw [h'.resolving, h.resolving]
  · exact fun hkeys => h'.keys (h.keys hkeys)
  · exact fun name m hm => h'.kept name m (h.kept name m hm)
  · intro name hname
    rcases List.mem_append.mp hname with hname | hname
    · exact isSome_of_kept h'.kept (h.requested name hname)
    · exact h'.requested name hname
  · intro name m hm hnone
    cases hbetween : st'.defs.lookup name with
    | none =>
        have hadded := h'.added name m hm hbetween
        rcases hadded.reached with ⟨first, hfirst, hpath⟩
        refine ⟨⟨first, List.mem_append_right _ hfirst, hpath⟩, ?_, ?_⟩
        · exact hadded.made.widen h.next (Nat.le_refl _)
        · exact fun hresolving => hadded.resolved (h.resolving ▸ hresolving)
    | some d =>
        have hsame := h'.kept name d hbetween
        rw [hm] at hsame
        cases hsame
        have hadded := h.added name m hbetween hnone
        rcases hadded.reached with ⟨first, hfirst, hpath⟩
        refine ⟨⟨first, List.mem_append_left _ hfirst, hpath⟩, ?_, fun hresolving => ?_⟩
        · exact hadded.made.widen (Nat.le_refl _) h'.next
        · rcases hadded.resolved hresolving with ⟨hresolved, hrefs⟩
          exact ⟨hresolved, hrefs.mono fun _ => isSome_of_kept h'.kept⟩

/-- The components that are not defined. -/
def missing (components : Components) (st : ResolveState) : ℕ :=
  (components.filter fun entry => (st.defs.lookup entry.1).isNone).length

theorem isNone_of_kept (hkept : ∀ name m, st.defs.lookup name = some m →
    st'.defs.lookup name = some m) {name : String} (hnone : (st'.defs.lookup name).isNone) :
    (st.defs.lookup name).isNone := by
  cases hm : st.defs.lookup name with
  | none => rfl
  | some m =>
      rw [hkept _ m hm] at hnone
      cases hnone

private theorem missing_le (hkept : ∀ name m, st.defs.lookup name = some m →
    st'.defs.lookup name = some m) : missing components st' ≤ missing components st :=
  (List.monotone_filter_right _ fun _ => isNone_of_kept hkept).length_le

private theorem missing_lt {name : String} (hname : (components.lookup name).isSome)
    (hnone : st.defs.lookup name = none) (hsome : (st'.defs.lookup name).isSome)
    (hkept : ∀ name m, st.defs.lookup name = some m → st'.defs.lookup name = some m) :
    missing components st' < missing components st := by
  have hsub : (components.filter fun entry => (st'.defs.lookup entry.1).isNone).Sublist
      (components.filter fun entry => (st.defs.lookup entry.1).isNone) :=
    List.monotone_filter_right _ fun entry => isNone_of_kept hkept
  apply Nat.lt_of_le_of_ne hsub.length_le
  intro hlength
  rcases List.lookup_isSome_iff.mp hname with ⟨⟨key, component⟩, hmem, hkey⟩
  have hkey : name = key := beq_iff_eq.mp hkey
  have hold : (key, component) ∈
      components.filter fun entry => (st.defs.lookup entry.1).isNone :=
    List.mem_filter.mpr ⟨hmem, by rw [← hkey, hnone]; rfl⟩
  rw [← hsub.eq_of_length hlength, List.mem_filter, ← hkey] at hold
  rw [Option.isNone_iff_eq_none.mp hold.2] at hsome
  cases hsome

/-! ## Resolving a value -/

private theorem Follows.of_later (h : Follows components refs { st with next := st.next + 1 } st') :
    Follows components refs st st' := by
  rcases h with ⟨hnext, hresolving, hkeys, hkept, hrequested, hadded⟩
  have hlater : st.next + 1 ≤ st'.next := hnext
  refine ⟨by omega, hresolving, hkeys, hkept, hrequested, fun name m hm hnone => ?_⟩
  rcases hadded name m hm hnone with ⟨hreached, hmade, hresolved⟩
  exact ⟨hreached, hmade.widen (Nat.le_succ st.next) (Nat.le_refl _), hresolved⟩

theorem Follows.later (h : Follows components refs st st') :
    Follows components refs st { st' with next := st'.next + 1 } := by
  rcases h with ⟨hnext, hresolving, hkeys, hkept, hrequested, hadded⟩
  refine ⟨Nat.le_succ_of_le hnext, hresolving, hkeys, hkept, hrequested,
    fun name m hm hnone => ?_⟩
  rcases hadded name m hm hnone with ⟨hreached, hmade, hresolved⟩
  exact ⟨hreached, hmade.widen (Nat.le_refl _) (Nat.le_succ st'.next), hresolved⟩

/-- Defining a known component works as far as not too many components are missing. -/
def AddsDefs (components : Components) (known : String → Prop) (fuel : ℕ) (addDef : AddDef) :
    Prop :=
  ∀ name st, known name → missing components st ≤ fuel →
    ∃ st', addDef name st = .ok st' ∧ Follows components [schemaComponentRef name] st st'

/-- The entries that resolving some entries gives. -/
structure EntriesResolved (components : Components) (schema : JsonSchema) (st : ResolveState)
    (entries : List (String × GoValue)) (st' : ResolveState) : Prop where
  follows : Follows components (entriesReferences schema) st st'
  erased : eraseEntries entries = rewriteEntries schema
  made : ∀ id ∈ entriesIds entries, st.next ≤ id ∧ id < st'.next

/-- The map that resolving a schema gives; it is in none of the definitions that are added. -/
structure MapResolved (components : Components) (schema : JsonSchema) (st : ResolveState)
    (m : GoMap) (st' : ResolveState) : Prop where
  follows : Follows components (SchemaValue.object schema).references st st'
  erased : m.value.erase = (SchemaValue.object schema).rewrite
  made : MadeBetween st st' m.value
  apart : m.id ∉ entriesIds m.entries
  notDefined : ∀ name d, st'.defs.lookup name = some d → st.defs.lookup name = none →
    m.id ∉ d.value.ids

theorem schemaRef_component {schema : JsonSchema} {name : String}
    (h : refText schema = some (schemaComponentRef name)) :
    schemaRef schema = some (schemaComponentRef name) := by
  rw [schemaRef, h, Option.filter_some, if_pos]
  simp [schemaComponentRef_ne]

theorem schemaRef_none {schema : JsonSchema} (h : refText schema = none) :
    schemaRef schema = none := by
  rw [schemaRef, h]
  rfl

variable {fuel : ℕ} {addDef : AddDef}

/-- The resolution of a map, whatever resolves its entries. -/
theorem resolveMapWith_spec (hadd : AddsDefs components known fuel addDef) (schema : JsonSchema)
    {resolve : ResolveState → Except ResolveError (List (String × GoValue) × ResolveState)}
    (hresolve : refText schema = none → ∀ st, missing components st ≤ fuel →
      ∃ entries st', resolve st = .ok (entries, st') ∧
        EntriesResolved components schema st entries st')
    (hrefs : ∀ ref ∈ (SchemaValue.object schema).references, NamesAmong known ref)
    (hfuel : missing components st ≤ fuel) :
    ∃ m st', resolveMapWith addDef resolve schema st = .ok (m, st') ∧
      MapResolved components schema st m st' := by
  cases href : refText schema with
  | none =>
      rcases hresolve href { st with next := st.next + 1 } hfuel with ⟨entries, st', hok, hentries⟩
      refine ⟨⟨st.next, entries⟩, st', ?_, ?_⟩
      · rw [resolveMapWith, schemaRef_none href]
        simp only [hok]
        rfl
      · have hnext : st.next + 1 ≤ st'.next := hentries.follows.next
        constructor
        · rw [SchemaValue.references, href]
          exact hentries.follows.of_later
        · rw [GoMap.value, GoValue.erase, hentries.erased, SchemaValue.rewrite, href]
          rfl
        · intro id hid
          rcases List.mem_cons.mp hid with rfl | hid
          · exact ⟨Nat.le_refl _, hnext⟩
          · have hbounds := hentries.made id hid
            exact ⟨Nat.le_of_succ_le hbounds.1, hbounds.2⟩
        · intro hmem
          have hbounds := (hentries.made _ hmem).1
          exact absurd hbounds (Nat.not_succ_le_self _)
        · intro name d hd hnone hmem
          have hbounds := ((hentries.follows.added name d hd hnone).made _ hmem).1
          exact absurd hbounds (Nat.not_succ_le_self _)
  | some ref =>
      have hnames := hrefs ref (by rw [SchemaValue.references, href]; exact List.mem_cons_self)
      rcases hnames with ⟨name, rfl, hname⟩
      rcases hadd name st hname hfuel with ⟨st', hok, hfollows⟩
      refine ⟨⟨st'.next, [("$ref", .scalar (.text (schemaDefRef name)))]⟩,
        { st' with next := st'.next + 1 }, ?_, ?_⟩
      · rw [resolveMapWith, schemaRef_component href]
        simp only [schemaComponentName_ref, bind, Except.bind, hok]
      · constructor
        · rw [SchemaValue.references, href]
          exact hfollows.later
        · rw [SchemaValue.rewrite, href, Option.bind_some, componentName_ref]
          rfl
        · intro id hid
          cases List.mem_singleton.mp hid
          exact ⟨hfollows.next, Nat.lt_succ_self _⟩
        · exact List.not_mem_nil
        · intro other d hd hnone hmem
          have hbounds := ((hfollows.added other d hd hnone).made _ hmem).2
          exact absurd hbounds (Nat.lt_irrefl _)

/-- The depth that is left suffices for what is still missing. -/
theorem fuel_mono {st st' : ResolveState} (h : Follows components refs st st')
    (hfuel : missing components st ≤ fuel) : missing components st' ≤ fuel :=
  Nat.le_trans (missing_le h.kept) hfuel

mutual

/-- Resolving a value gives the value with its references rewritten and follows them. -/
theorem resolveSchemaValue_spec (hadd : AddsDefs components known fuel addDef) (value : SchemaValue)
    {st : ResolveState} (hrefs : ∀ ref ∈ value.references, NamesAmong known ref)
    (hfuel : missing components st ≤ fuel) :
    ∃ gv st', resolveSchemaValue addDef value st = .ok (gv, st') ∧
      Follows components value.references st st' ∧ gv.erase = value.rewrite ∧
      MadeBetween st st' gv := by
  cases value with
  | scalar s =>
      refine ⟨.scalar s, st, rfl, follows_refl st, rfl, fun id hid => ?_⟩
      cases hid
  | array items =>
      rcases resolveItems_spec hadd items hrefs hfuel with ⟨gvs, st', hok, hfollows, herased, hmade⟩
      refine ⟨.array gvs, st', ?_, hfollows, congrArg SchemaValue.array herased, hmade⟩
      rw [resolveSchemaValue]
      simp only [hok]
      rfl
  | object schema =>
      have hentries : refText schema = none → ∀ st, missing components st ≤ fuel →
          ∃ entries st', resolveEntries addDef schema st = .ok (entries, st') ∧
            EntriesResolved components schema st entries st' := by
        intro hnone st hfuel
        apply resolveEntries_spec hadd schema _ hfuel
        rwa [SchemaValue.references, hnone] at hrefs
      rcases resolveMapWith_spec hadd schema hentries hrefs hfuel with ⟨m, st', hok, hm⟩
      refine ⟨m.value, st', ?_, hm.follows, hm.erased, hm.made⟩
      rw [resolveSchemaValue]
      simp only [hok]
      rfl

/-- The resolution of a list. -/
theorem resolveItems_spec (hadd : AddsDefs components known fuel addDef) (items : List SchemaValue)
    {st : ResolveState} (hrefs : ∀ ref ∈ itemsReferences items, NamesAmong known ref)
    (hfuel : missing components st ≤ fuel) :
    ∃ gvs st', resolveItems addDef items st = .ok (gvs, st') ∧
      Follows components (itemsReferences items) st st' ∧ eraseItems gvs = rewriteItems items ∧
      ∀ id ∈ itemsIds gvs, st.next ≤ id ∧ id < st'.next := by
  cases items with
  | nil =>
      refine ⟨[], st, rfl, follows_refl st, rfl, fun id hid => ?_⟩
      cases hid
  | cons item rest =>
      rw [itemsReferences] at hrefs
      rcases resolveSchemaValue_spec hadd item
        (fun ref href => hrefs ref (List.mem_append_left _ href)) hfuel with
        ⟨gv, st₁, hok, hfollows, herased, hmade⟩
      rcases resolveItems_spec hadd rest
        (fun ref href => hrefs ref (List.mem_append_right _ href)) (fuel_mono hfollows hfuel) with
        ⟨gvs, st₂, hok', hfollows', herased', hmade'⟩
      refine ⟨gv :: gvs, st₂, ?_, hfollows.trans hfollows', ?_, ?_⟩
      · rw [resolveItems]
        simp only [hok, hok', bind, Except.bind]
      · rw [eraseItems, herased, herased', rewriteItems]
      · intro id hid
        have hnext := hfollows.next
        have hnext' := hfollows'.next
        rcases List.mem_append.mp hid with hid | hid
        · have hbounds := hmade id hid
          omega
        · have hbounds := hmade' id hid
          omega

/-- The resolution of the entries of a map. -/
theorem resolveEntries_spec (hadd : AddsDefs components known fuel addDef) (schema : JsonSchema)
    {st : ResolveState} (hrefs : ∀ ref ∈ entriesReferences schema, NamesAmong known ref)
    (hfuel : missing components st ≤ fuel) :
    ∃ entries st', resolveEntries addDef schema st = .ok (entries, st') ∧
      EntriesResolved components schema st entries st' := by
  cases schema with
  | nil =>
      refine ⟨[], st, rfl, follows_refl st, rfl, fun id hid => ?_⟩
      cases hid
  | cons entry rest =>
      cases entry with
      | mk key value =>
          rw [entriesReferences] at hrefs
          rcases resolveSchemaValue_spec hadd value
            (fun ref href => hrefs ref (List.mem_append_left _ href)) hfuel with
            ⟨gv, st₁, hok, hfollows, herased, hmade⟩
          rcases resolveEntries_spec hadd rest
            (fun ref href => hrefs ref (List.mem_append_right _ href))
            (fuel_mono hfollows hfuel) with ⟨entries, st₂, hok', hrest⟩
          refine ⟨(key, gv) :: entries, st₂, ?_, hfollows.trans hrest.follows, ?_, ?_⟩
          · rw [resolveEntries]
            simp only [hok, hok', bind, Except.bind]
          · rw [eraseEntries, herased, hrest.erased, rewriteEntries]
          · intro id hid
            have hnext := hfollows.next
            have hnext' := hrest.follows.next
            rcases List.mem_append.mp hid with hid | hid
            · have hbounds := hmade id hid
              omega
            · have hbounds := hrest.made id hid
              omega

end

/-- The resolution of a map. -/
theorem resolveSchemaMap_spec (hadd : AddsDefs components known fuel addDef) (schema : JsonSchema)
    (hrefs : ∀ ref ∈ (SchemaValue.object schema).references, NamesAmong known ref)
    (hfuel : missing components st ≤ fuel) :
    ∃ m st', resolveSchemaMap addDef schema st = .ok (m, st') ∧
      MapResolved components schema st m st' := by
  apply resolveMapWith_spec hadd schema _ hrefs hfuel
  intro hnone st hfuel
  apply resolveEntries_spec hadd schema _ hfuel
  rwa [SchemaValue.references, hnone] at hrefs

/-! ## Defining components -/

/-- The known components exist, and their references name known components. -/
def AllNamed (components : Components) (known : String → Prop) : Prop :=
  ∀ name, known name → ∃ component, components.lookup name = some component ∧
    ∀ ref ∈ (SchemaValue.object component).references, NamesAmong known ref

private theorem ReachedNamed.allNamed {schema : JsonSchema} (h : ReachedNamed components schema) :
    AllNamed components fun name =>
      Reaches components (SchemaValue.object schema).references name ∧
        (components.lookup name).isSome := by
  rintro name ⟨hreached, hname⟩
  rcases Option.isSome_iff_exists.mp hname with ⟨component, hcomponent⟩
  refine ⟨component, hcomponent, fun ref href => ?_⟩
  rcases h name component hreached hcomponent ref href with ⟨other, rfl, hother⟩
  rcases hreached with ⟨first, hfirst, hpath⟩
  exact ⟨other, rfl, ⟨first, hfirst, hpath.tail ⟨component, hcomponent, href⟩⟩, hother⟩

private theorem names_reached {schema : JsonSchema}
    (hnames : ∀ ref ∈ (SchemaValue.object schema).references, NamesComponent components ref) :
    ∀ ref ∈ (SchemaValue.object schema).references, NamesAmong (fun name =>
      Reaches components (SchemaValue.object schema).references name ∧
        (components.lookup name).isSome) ref := by
  intro ref href
  rcases hnames ref href with ⟨name, rfl, hname⟩
  exact ⟨name, rfl, ⟨name, href, .refl⟩, hname⟩

/-- What known components lead to is known. -/
theorem AllNamed.of_reaches (hnamed : AllNamed components known)
    (hrefs : ∀ ref ∈ refs, NamesAmong known ref) {name : String}
    (h : Reaches components refs name) : known name := by
  rcases h with ⟨first, hfirst, hpath⟩
  rcases hrefs _ hfirst with ⟨first', hsame, hknown⟩
  cases schemaComponentRef_inj hsame
  induction hpath with
  | refl => exact hknown
  | @tail middle last _ hedge ih =>
      rcases hedge with ⟨component, hcomponent, hmem⟩
      rcases hnamed middle ih with ⟨component', hcomponent', hnames⟩
      rw [hcomponent] at hcomponent'
      cases hcomponent'
      rcases hnames _ hmem with ⟨last', hsame', hlast⟩
      exact schemaComponentRef_inj hsame' ▸ hlast

/-- The resolution of a component, marked while it goes on. -/
theorem resolveMarked_spec (hadd : AddsDefs components known fuel addDef) {name : String}
    {component : JsonSchema}
    (hrefs : ∀ ref ∈ (SchemaValue.object component).references, NamesAmong known ref)
    (hname : name ∉ st.resolving) (hfuel : missing components st ≤ fuel) :
    ∃ m st', resolveMarked addDef name component st =
        .ok (m, { st' with resolving := st.resolving }) ∧
      MapResolved components component { st with resolving := name :: st.resolving } m st' := by
  rcases @resolveSchemaMap_spec _ _ { st with resolving := name :: st.resolving } _ _ hadd
    component hrefs hfuel with ⟨m, st', hok, hm⟩
  refine ⟨m, st', ?_, hm⟩
  have hfilter : st'.resolving.filter (· ≠ name) = st.resolving := by
    rw [hm.follows.resolving, List.filter_cons_of_neg (by simp), List.filter_eq_self]
    intro other hother
    have hne : other ≠ name := fun hsame => hname (hsame ▸ hother)
    simpa using hne
  rw [resolveMarked]
  simp only [hok, bind, Except.bind, hfilter]

/-- The state in which a component has been given a place. -/
def placed (st : ResolveState) (name : String) : ResolveState :=
  { st with next := st.next + 1, defs := putEntry name ⟨st.next, []⟩ st.defs }

private theorem follows_placed {name : String} (hnone : st.defs.lookup name = none)
    (hname : name ∈ st.resolving) :
    Follows components [schemaComponentRef name] st (placed st name) := by
  constructor
  · exact Nat.le_succ _
  · rfl
  · exact nodup_putEntry
  · intro other m hm
    rw [placed, lookup_putEntry, if_neg, hm]
    rintro rfl
    rw [hm] at hnone
    cases hnone
  · intro other hother
    rw [schemaComponentRef_inj (List.mem_singleton.mp hother), placed, lookup_putEntry, if_pos rfl]
    rfl
  · intro other m hm hnone'
    rw [placed, lookup_putEntry] at hm
    split at hm
    · subst other
      cases hm
      refine ⟨⟨name, List.mem_singleton.mpr rfl, .refl⟩, fun id hid => ?_, fun h => absurd hname h⟩
      cases List.mem_singleton.mp hid
      exact ⟨Nat.le_refl _, Nat.lt_succ_self _⟩
    · rw [hm] at hnone'
      cases hnone'

/-- Once the component of a place is resolved, its references are followed. -/
theorem follows_defined {name : String} {component : JsonSchema} {m : GoMap}
    (hnone : st.defs.lookup name = none) (hcomponent : components.lookup name = some component)
    (hm : MapResolved components component
      { placed st name with resolving := name :: st.resolving } m st') :
    Follows components [schemaComponentRef name] st
      { st' with resolving := st.resolving, defs := putEntry name m st'.defs } := by
  rcases hm with ⟨⟨hnext, -, hkeys, hkept, hrequested, hadded⟩, herased, hmade, -, -⟩
  have hnext' : st.next + 1 ≤ st'.next := hnext
  have hplaced : ∀ other, other ≠ name →
      (placed st name).defs.lookup other = st.defs.lookup other := by
    intro other hother
    rw [placed, lookup_putEntry, if_neg hother]
  have hsome : ∀ other, (st'.defs.lookup other).isSome →
      ((putEntry name m st'.defs).lookup other).isSome := by
    intro other hother
    rw [lookup_putEntry]
    split
    · rfl
    · exact hother
  have hedge : ∀ other, schemaComponentRef other ∈ (SchemaValue.object component).references ↔
      RefersTo components name other := by
    intro other
    constructor
    · exact fun hother => ⟨component, hcomponent, hother⟩
    · rintro ⟨c, hc, hother⟩
      rw [hcomponent] at hc
      cases hc
      exact hother
  constructor
  · exact Nat.le_of_succ_le hnext'
  · rfl
  · exact fun hold => nodup_putEntry (hkeys (nodup_putEntry hold))
  · intro other d hd
    have hne : other ≠ name := by
      rintro rfl
      rw [hd] at hnone
      cases hnone
    rw [lookup_putEntry, if_neg hne]
    exact hkept other d ((hplaced other hne).trans hd)
  · intro other hother
    rw [schemaComponentRef_inj (List.mem_singleton.mp hother), lookup_putEntry, if_pos rfl]
    rfl
  · intro other d hd hnone'
    rw [lookup_putEntry] at hd
    by_cases hother : other = name
    · rw [if_pos hother] at hd
      cases hd
      subst hother
      refine ⟨⟨other, List.mem_singleton.mpr rfl, .refl⟩, ?_, fun _ => ⟨?_, ?_⟩⟩
      · exact hmade.widen (Nat.le_succ _) (Nat.le_refl _)
      · exact ⟨component, hcomponent, herased⟩
      · intro next hnext
        exact hsome next (hrequested next ((hedge next).mpr hnext))
    · rw [if_neg hother] at hd
      have hold := hadded other d hd ((hplaced other hother).trans hnone')
      rcases hold.reached with ⟨first, hfirst, hpath⟩
      refine ⟨⟨name, List.mem_singleton.mpr rfl, hpath.head ((hedge first).mp hfirst)⟩, ?_, ?_⟩
      · exact hold.made.widen (Nat.le_succ _) (Nat.le_refl _)
      · intro hresolving
        have hnot : other ∉ name :: st.resolving := by
          simpa using ⟨hother, hresolving⟩
        rcases hold.resolved hnot with ⟨hresolved, hrefs⟩
        exact ⟨hresolved, hrefs.mono hsome⟩

/-- One level more resolves every component that is missing. -/
theorem addSchemaDefWith_spec (hnamed : AllNamed components known)
    (hadd : ∀ fuel', fuel = fuel' + 1 → AddsDefs components known fuel' addDef) :
    AddsDefs components known fuel (addSchemaDefWith components addDef) := by
  intro name st hname hfuel
  rcases hnamed name hname with ⟨component, hcomponent, hrefs⟩
  cases hdef : st.defs.lookup name with
  | some d =>
      refine ⟨st, ?_, ?_⟩
      · simp [addSchemaDefWith, hdef]
      · rcases @follows_refl components st with ⟨hnext, hresolving, hkeys, hkept, -, hadded⟩
        refine ⟨hnext, hresolving, hkeys, hkept, fun other hother => ?_, fun other m hm hnone => ?_⟩
        · rw [schemaComponentRef_inj (List.mem_singleton.mp hother), hdef]
          rfl
        · rw [hm] at hnone
          cases hnone
  | none =>
      by_cases hresolving : name ∈ st.resolving
      · refine ⟨placed st name, ?_, follows_placed hdef hresolving⟩
        simp [addSchemaDefWith, hdef, hcomponent, hresolving, placed]
      · have hless : missing components (placed st name) < missing components st := by
          apply missing_lt (Option.isSome_iff_exists.mpr ⟨component, hcomponent⟩) hdef
          · rw [placed, lookup_putEntry, if_pos rfl]
            rfl
          · intro other m hm
            rw [placed, lookup_putEntry, if_neg, hm]
            rintro rfl
            rw [hm] at hdef
            cases hdef
        cases fuel with
        | zero => exact absurd (Nat.lt_of_lt_of_le hless hfuel) (Nat.not_lt_zero _)
        | succ fuel =>
            rcases @resolveMarked_spec _ _ (placed st name) _ _ (hadd fuel rfl) _ _ hrefs hresolving
              (by omega) with ⟨m, st', hok, hm⟩
            refine ⟨_, ?_, follows_defined hdef hcomponent hm⟩
            simp only [addSchemaDefWith, hdef, hcomponent]
            rw [← placed, hok]
            simp [hresolving, bind, Except.bind, placed]

/-- As much fuel as there are components is enough to define a component. -/
theorem addsDefs_addSchemaDef (hnamed : AllNamed components known) (fuel : ℕ) :
    AddsDefs components known fuel (addSchemaDef components fuel) := by
  induction fuel with
  | zero =>
      rw [addSchemaDef]
      exact addSchemaDefWith_spec hnamed fun fuel' h => absurd h (Nat.succ_ne_zero _).symm
  | succ fuel ih =>
      rw [addSchemaDef]
      exact addSchemaDefWith_spec hnamed fun fuel' h => Nat.succ_inj.mp h ▸ ih

/-! ## References in the result -/

private theorem lookup_rewriteEntries (schema : JsonSchema) (key : String) :
    (rewriteEntries schema).lookup key = (schema.lookup key).map SchemaValue.rewrite := by
  induction schema with
  | nil => rfl
  | cons entry rest ih =>
      rcases entry with ⟨k, value⟩
      rw [rewriteEntries, List.lookup_cons, List.lookup_cons]
      cases key == k with
      | true => rfl
      | false => exact ih

private theorem refText_rewriteEntries {schema : JsonSchema} (h : refText schema = none) :
    refText (rewriteEntries schema) = none := by
  rw [refText] at h ⊢
  rw [lookup_rewriteEntries]
  cases hvalue : schema.lookup "$ref" with
  | none => rfl
  | some value =>
      rw [hvalue] at h
      cases value with
      | scalar s => exact h
      | array items => rfl
      | object entries =>
          rw [Option.map_some, SchemaValue.rewrite]
          cases (refText entries).bind componentName <;> rfl

mutual

/-- The references of a rewritten value lead to the definitions of those it had. -/
theorem refTexts_rewrite (value : SchemaValue)
    (hrefs : ∀ ref ∈ value.references, NamesAmong known ref) {text : String}
    (htext : text ∈ value.rewrite.refTexts) :
    ∃ name, schemaComponentRef name ∈ value.references ∧ text = schemaDefRef name := by
  cases value with
  | scalar s => cases htext
  | array items => exact refTexts_rewriteItems items hrefs htext
  | object schema =>
      cases href : refText schema with
      | none =>
          rw [SchemaValue.rewrite, href, Option.bind_none] at htext
          simp only [SchemaValue.refTexts, refText_rewriteEntries href, Option.toList_none,
            List.nil_append] at htext
          rw [SchemaValue.references, href] at hrefs ⊢
          exact refTexts_rewriteEntries schema hrefs htext
      | some ref =>
          rw [SchemaValue.references, href] at hrefs ⊢
          rcases hrefs ref List.mem_cons_self with ⟨name, rfl, -⟩
          rw [SchemaValue.rewrite, href, Option.bind_some, componentName_ref] at htext
          exact ⟨name, List.mem_cons_self, List.mem_singleton.mp htext⟩

/-- The references of rewritten elements are those to the definitions. -/
theorem refTexts_rewriteItems (items : List SchemaValue)
    (hrefs : ∀ ref ∈ itemsReferences items, NamesAmong known ref) {text : String}
    (htext : text ∈ itemsRefTexts (rewriteItems items)) :
    ∃ name, schemaComponentRef name ∈ itemsReferences items ∧ text = schemaDefRef name := by
  cases items with
  | nil => cases htext
  | cons item rest =>
      rw [itemsReferences, List.forall_mem_append] at hrefs
      rw [rewriteItems, itemsRefTexts, List.mem_append] at htext
      rcases htext with htext | htext
      · rcases refTexts_rewrite item hrefs.1 htext with ⟨name, hname, heq⟩
        exact ⟨name, List.mem_append_left _ hname, heq⟩
      · rcases refTexts_rewriteItems rest hrefs.2 htext with ⟨name, hname, heq⟩
        exact ⟨name, List.mem_append_right _ hname, heq⟩

/-- The references of rewritten entries are those to the definitions. -/
theorem refTexts_rewriteEntries (schema : JsonSchema)
    (hrefs : ∀ ref ∈ entriesReferences schema, NamesAmong known ref) {text : String}
    (htext : text ∈ entriesRefTexts (rewriteEntries schema)) :
    ∃ name, schemaComponentRef name ∈ entriesReferences schema ∧ text = schemaDefRef name := by
  cases schema with
  | nil => cases htext
  | cons entry rest =>
      cases entry with
      | mk key value =>
          rw [entriesReferences, List.forall_mem_append] at hrefs
          rw [rewriteEntries, entriesRefTexts, List.mem_append] at htext
          rcases htext with htext | htext
          · rcases refTexts_rewrite value hrefs.1 htext with ⟨name, hname, heq⟩
            exact ⟨name, List.mem_append_left _ hname, heq⟩
          · rcases refTexts_rewriteEntries rest hrefs.2 htext with ⟨name, hname, heq⟩
            exact ⟨name, List.mem_append_right _ hname, heq⟩

end

/-! ## Finite results -/

mutual

/-- A value without the map of the schema itself is finite. -/
theorem finite_of_notMem {result : ResolvedSchema} (value : GoValue)
    (h : result.root.id ∉ value.ids) : Finite result value := by
  cases value with
  | scalar s => exact .scalar s
  | array items => exact .array items (finite_items items h)
  | map id entries =>
      rw [GoValue.ids, List.mem_cons, not_or] at h
      have hcontents : result.contents id entries = entries :=
        if_neg fun hroot => h.1 hroot.1.symm
      exact .map id entries (hcontents.symm ▸ finite_entries entries h.2)

/-- Elements without the root's address can be encoded. -/
theorem finite_items {result : ResolvedSchema} (items : List GoValue)
    (h : result.root.id ∉ itemsIds items) : ∀ item ∈ items, Finite result item := by
  cases items with
  | nil =>
      intro item hitem
      cases hitem
  | cons first rest =>
      rw [itemsIds, List.mem_append, not_or] at h
      exact List.forall_mem_cons.mpr ⟨finite_of_notMem first h.1, finite_items rest h.2⟩

/-- Entries without the root's address can be encoded. -/
theorem finite_entries {result : ResolvedSchema} (entries : List (String × GoValue))
    (h : result.root.id ∉ entriesIds entries) : ∀ entry ∈ entries, Finite result entry.2 := by
  cases entries with
  | nil =>
      intro entry hentry
      cases hentry
  | cons first rest =>
      cases first with
      | mk key value =>
          rw [entriesIds, List.mem_append, not_or] at h
          exact List.forall_mem_cons.mpr ⟨finite_of_notMem value h.1, finite_entries rest h.2⟩

end

/-- A schema is finite if its map is in none of its entries and definitions. -/
theorem finite_root {result : ResolvedSchema} (hroot : result.root.id ≠ 0)
    (hentries : result.root.id ∉ entriesIds result.root.entries)
    (hdefs : ∀ entry ∈ result.defs, result.root.id ∉ entry.2.value.ids) :
    Finite result result.root.value := by
  refine .map _ _ fun entry hentry => ?_
  have hold := finite_entries result.root.entries hentries
  rw [ResolvedSchema.contents] at hentry
  split at hentry
  · rcases mem_putEntry hentry with rfl | hentry
    · refine .map _ _ fun d hd => ?_
      rw [ResolvedSchema.contents, if_neg fun hzero => hroot hzero.1.symm] at hd
      rcases List.mem_map.mp hd with ⟨old, hmem, rfl⟩
      exact finite_of_notMem _ (hdefs old hmem)
    · exact hold entry hentry
  · exact hold entry hentry

/-- A schema that is one of its own definitions is not finite. -/
theorem not_finite_root {result : ResolvedSchema} (hroot : result.root.id ≠ 0) {name : String}
    (hname : (name, result.root) ∈ result.defs) : ¬Finite result result.root.value := by
  have hnot : ∀ value, Finite result value →
      value ≠ result.root.value ∧ value ≠ result.defsValue := by
    intro value hfinite
    induction hfinite with
    | scalar s => exact ⟨nofun, nofun⟩
    | array items below ih => exact ⟨nofun, nofun⟩
    | map id entries below ih =>
        constructor
        · intro hsame
          cases hsame
          have hne : result.defs ≠ [] := List.ne_nil_of_mem hname
          have hmem : ("$defs", result.defsValue) ∈
              result.contents result.root.id result.root.entries := by
            rw [ResolvedSchema.contents, if_pos ⟨rfl, hne⟩]
            apply Library.mem_of_lookup
            rw [lookup_putEntry, if_pos rfl]
          exact (ih _ hmem).2 rfl
        · intro hsame
          rw [ResolvedSchema.defsValue] at hsame
          cases hsame
          have hmem : (name, result.root.value) ∈ result.contents 0
              (result.defs.map fun entry => (entry.1, entry.2.value)) := by
            rw [ResolvedSchema.contents, if_neg fun hzero => hroot hzero.1.symm]
            exact List.mem_map_of_mem hname
          exact (ih _ hmem).1 rfl
  intro hfinite
  exact (hnot _ hfinite).1 rfl

/-! ## The resolved schema -/

/-- The schema is a reference to a component that leads back to itself. -/
def RootRecursive (components : Components) (schema : JsonSchema) : Prop :=
  ∃ name, refText schema = some (schemaComponentRef name) ∧
    Relation.TransGen (RefersTo components) name name

/-- Nothing is resolved; the address 0 is that of the definitions. -/
def startState : ResolveState :=
  ⟨1, [], []⟩

/-- At the start every component may be missing. -/
theorem missing_start (components : Components) :
    missing components startState ≤ components.length :=
  List.length_filter_le _ _

/-- What is known of the definitions when the map of a component or schema is done. -/
structure Done (components : Components) (refs : List String) (marked : List String)
    (root : GoMap) (defs : List (String × GoMap)) : Prop where
  keys : (defs.map Prod.fst).Nodup
  requested : ∀ name, schemaComponentRef name ∈ refs → (defs.lookup name).isSome
  reached : ∀ name m, defs.lookup name = some m → Reaches components refs name
  resolved : ∀ name m, defs.lookup name = some m → name ∉ marked →
    Resolved components name m ∧ ∀ other, RefersTo components name other →
      (defs.lookup other).isSome
  apart : root.id ∉ entriesIds root.entries
  notDefined : ∀ name m, defs.lookup name = some m → root.id ∉ m.value.ids
  positive : root.id ≠ 0

/-- What is left when the map at the root is resolved. -/
theorem MapResolved.done {schema : JsonSchema} {marked : List String} {m : GoMap}
    (h : MapResolved components schema { startState with resolving := marked } m st') :
    Done components (SchemaValue.object schema).references marked m st'.defs := by
  have hadded := fun name d hd => h.follows.added name d hd rfl
  constructor
  · exact h.follows.keys List.nodup_nil
  · exact h.follows.requested
  · exact fun name d hd => (hadded name d hd).reached
  · exact fun name d hd hmarked => (hadded name d hd).resolved hmarked
  · exact h.apart
  · exact fun name d hd => h.notDefined name d hd rfl
  · have hpositive := (h.made m.id List.mem_cons_self).1
    exact Nat.pos_iff_ne_zero.mp hpositive

/-- References of a resolved map lead to definitions. -/
theorem closed_of_resolved {defs : List (String × GoMap)} {value : SchemaValue}
    (hrefs : ∀ ref ∈ value.references, NamesAmong known ref)
    (hdefs : ∀ name, schemaComponentRef name ∈ value.references → (defs.lookup name).isSome)
    (hresolved : ∀ name m, defs.lookup name = some m → Resolved components name m) {text : String}
    (htext : text ∈ value.rewrite.refTexts) :
    ∃ name d, text = schemaDefRef name ∧ defs.lookup name = some d ∧
      Resolved components name d := by
  rcases refTexts_rewrite value hrefs htext with ⟨name, hname, rfl⟩
  rcases Option.isSome_iff_exists.mp (hdefs name hname) with ⟨d, hd⟩
  exact ⟨name, d, rfl, hd, hresolved name d hd⟩

/-- When the result is closed and can be encoded. -/
theorem Done.closedFinite {schema : JsonSchema} {marked : List String} {result : ResolvedSchema}
    (h : Done components (SchemaValue.object schema).references marked result.root result.defs)
    (herased : result.root.value.erase = (SchemaValue.object schema).rewrite)
    (hnamed : AllNamed components known)
    (hrefs : ∀ ref ∈ (SchemaValue.object schema).references, NamesAmong known ref)
    (hmarked : ∀ name ∈ marked, result.defs.lookup name = none) :
    ClosedFinite components result := by
  have hunmarked : ∀ name m, result.defs.lookup name = some m → name ∉ marked := by
    intro name m hm hmem
    rw [hmarked name hmem] at hm
    cases hm
  have hresolved := fun name m hm => (h.resolved name m hm (hunmarked name m hm)).1
  constructor
  · intro m hm text htext
    rcases hm with rfl | ⟨name, hname⟩
    · rw [herased] at htext
      exact closed_of_resolved hrefs h.requested hresolved htext
    · rcases hresolved name m hname with ⟨component, hcomponent, hsame⟩
      rw [hsame] at htext
      have hdefined := (h.resolved name m hname (hunmarked name m hname)).2
      have hknown := hnamed.of_reaches hrefs (h.reached name m hname)
      rcases hnamed name hknown with ⟨component', hcomponent', hnames⟩
      rw [hcomponent] at hcomponent'
      cases hcomponent'
      exact closed_of_resolved hnames
        (fun other hother => hdefined other ⟨component, hcomponent, hother⟩) hresolved htext
  · apply finite_root h.positive h.apart
    rintro ⟨name, m⟩ hmem
    exact h.notDefined name m (lookup_of_mem h.keys hmem)

/-- The components that a marked component leads to are defined. -/
theorem Done.defined {name : String} {component : JsonSchema} {root : GoMap}
    {defs : List (String × GoMap)} (hcomponent : components.lookup name = some component)
    (h : Done components (SchemaValue.object component).references [name] root defs)
    {other : String} (hpath : Relation.TransGen (RefersTo components) name other) :
    (defs.lookup other).isSome := by
  have hfirst : ∀ next, RefersTo components name next → (defs.lookup next).isSome := by
    rintro next ⟨c, hc, hnext⟩
    rw [hcomponent] at hc
    cases hc
    exact h.requested next hnext
  induction hpath with
  | single hedge => exact hfirst _ hedge
  | @tail middle last _ hedge ih =>
      by_cases hmiddle : middle = name
      · exact hfirst last (hmiddle ▸ hedge)
      · rcases Option.isSome_iff_exists.mp ih with ⟨m, hm⟩
        exact (h.resolved middle m hm (by simpa using hmiddle)).2 last hedge

private theorem resolveComponentSchema_iff (hadd : AddsDefs components known fuel addDef)
    (hnamed : AllNamed components known) {name : String} (hname : known name)
    (hfuel : components.length ≤ fuel) :
    ∃ m st', resolveComponentSchema components addDef name startState = .ok (m, st') ∧
      (ClosedFinite components ⟨m, st'.defs⟩ ↔
        ¬Relation.TransGen (RefersTo components) name name) := by
  rcases hnamed name hname with ⟨component, hcomponent, hrefs⟩
  have hmissing := Nat.le_trans (missing_start components) hfuel
  rcases @resolveMarked_spec _ _ startState _ _ hadd name _ hrefs List.not_mem_nil
    hmissing with ⟨m, st', hok, hm⟩
  have hdone := hm.done
  cases hdef : st'.defs.lookup name with
  | none =>
      refine ⟨m, { st' with resolving := startState.resolving }, ?_, ?_⟩
      · simp [resolveComponentSchema, hcomponent, hok, hdef, bind, Except.bind]
      · apply iff_of_true
        · refine Done.closedFinite hdone hm.erased hnamed hrefs fun other hother => ?_
          rw [List.mem_singleton.mp hother]
          exact hdef
        · intro hpath
          have hdefined := hdone.defined hcomponent hpath
          rw [hdef] at hdefined
          cases hdefined
  | some d =>
      refine ⟨m, ⟨st'.next, putEntry name m st'.defs, startState.resolving⟩, ?_, ?_⟩
      · simp [resolveComponentSchema, hcomponent, hok, hdef, bind, Except.bind]
      · apply iff_of_false
        · intro hclosed
          have hmem : (name, m) ∈ putEntry name m st'.defs := by
            apply Library.mem_of_lookup
            rw [lookup_putEntry, if_pos rfl]
          exact not_finite_root hdone.positive hmem hclosed.finite
        · intro hnot
          rcases hdone.reached name d hdef with ⟨first, hfirst, hpath⟩
          exact hnot (.head' ⟨component, hcomponent, hfirst⟩ hpath)

/-- Resolving ends with as much fuel as there are components, and the result is closed and finite
exactly when the schema is not itself a reference to a component that leads back to itself. -/
theorem resolveSchemaRef_iff (components : Components) (schema : JsonSchema)
    (hnames : ∀ ref ∈ (SchemaValue.object schema).references, NamesComponent components ref)
    (hreached : ReachedNamed components schema) (fuel : ℕ) (hfuel : components.length ≤ fuel) :
    ∃ result, resolveSchemaRef components fuel schema = .ok result ∧
      (ClosedFinite components result ↔ ¬RootRecursive components schema) := by
  have hnamed := hreached.allNamed
  have hadd := addsDefs_addSchemaDef hnamed fuel
  have hmissing := Nat.le_trans (missing_start components) hfuel
  have hrefs := names_reached hnames
  cases href : refText schema with
  | none =>
      rcases resolveSchemaMap_spec hadd schema hrefs hmissing with ⟨m, st', hok, hm⟩
      refine ⟨⟨m, st'.defs⟩, ?_, ?_⟩
      · rw [startState] at hok
        simp [resolveSchemaRef, schemaRef_none href, hok, bind, Except.bind]
      · apply iff_of_true
        · have hdone : Done components _ [] m st'.defs := MapResolved.done hm
          exact Done.closedFinite hdone hm.erased hnamed hrefs (by simp)
        · rintro ⟨name, hname, -⟩
          rw [href] at hname
          cases hname
  | some ref =>
      have hfirst := hrefs ref (by rw [SchemaValue.references, href]; exact List.mem_cons_self)
      rcases hfirst with ⟨name, rfl, hname⟩
      rcases resolveComponentSchema_iff hadd hnamed hname hfuel with ⟨m, st', hok, hiff⟩
      refine ⟨⟨m, st'.defs⟩, ?_, hiff.trans (not_congr ?_)⟩
      · rw [startState] at hok
        simp [resolveSchemaRef, schemaRef_component href, schemaComponentName_ref, hok, bind,
          Except.bind]
      · constructor
        · exact fun hpath => ⟨name, href, hpath⟩
        · rintro ⟨other, hother, hpath⟩
          rw [href] at hother
          cases schemaComponentRef_inj (Option.some_inj.mp hother)
          exact hpath

/-- A component that refers to itself in an array, and one that no schema leads to. -/
def selfComponents : Components :=
  [("Node", [("items", .object [("$ref", .scalar (.text (schemaComponentRef "Node")))])]),
    ("Orphan", [("$ref", .scalar (.text "#/definitions/Missing"))])]

/-- A schema whose root refers to a component. -/
def selfSchema : JsonSchema :=
  [("$ref", .scalar (.text (schemaComponentRef "Node")))]

theorem selfSchema_names :
    ∀ ref ∈ (SchemaValue.object selfSchema).references, NamesComponent selfComponents ref :=
  fun _ href => ⟨"Node", List.mem_singleton.mp href, rfl⟩

theorem selfComponents_named : ReachedNamed selfComponents selfSchema := by
  have hedge : ∀ name, RefersTo selfComponents "Node" name → name = "Node" := by
    rintro name ⟨component, hcomponent, hmem⟩
    cases hcomponent
    exact schemaComponentRef_inj (List.mem_singleton.mp hmem)
  rintro name component ⟨first, hfirst, hpath⟩ hcomponent ref href
  cases schemaComponentRef_inj (List.mem_singleton.mp hfirst)
  have hnode : name = "Node" := by
    clear hcomponent
    induction hpath with
    | refl => rfl
    | tail _ hlast ih => exact hedge _ (ih ▸ hlast)
  subst hnode
  cases hcomponent
  exact ⟨"Node", List.mem_singleton.mp href, rfl⟩

theorem resolveSchemaRef_iff_self :
    ∃ result, resolveSchemaRef selfComponents 2 selfSchema = .ok result ∧
      (ClosedFinite selfComponents result ↔ ¬RootRecursive selfComponents selfSchema) :=
  resolveSchemaRef_iff selfComponents selfSchema selfSchema_names selfComponents_named 2 (by decide)

/-- The map of a schema that is a reference to such a component contains itself. -/
theorem self_not_closedFinite :
    ¬∀ (components : Components) (schema : JsonSchema),
      (∀ ref ∈ (SchemaValue.object schema).references, NamesComponent components ref) →
        ReachedNamed components schema →
          ∃ fuel result, resolveSchemaRef components fuel schema = .ok result ∧
            ClosedFinite components result := by
  intro h
  rcases h selfComponents selfSchema selfSchema_names selfComponents_named with
    ⟨fuel, result, hok, hclosed⟩
  have hroot : result.root.id ≠ 0 ∧ ("Node", result.root) ∈ result.defs := by
    cases fuel with
    | zero =>
        cases hok
        exact ⟨by decide, List.mem_cons_self⟩
    | succ fuel =>
        cases hok
        exact ⟨by decide, List.mem_cons_self⟩
  exact not_finite_root hroot.1 hroot.2 hclosed.finite

end Mcp
end MemosNote
