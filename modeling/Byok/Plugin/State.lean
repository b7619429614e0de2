/-
**The state of a plugin.** `server/src/plugin/state.rs`, `server/src/plugin/data.rs`.

A plugin has a file of resources for each of its resource types and a file of models for each of its providers. An
operation reads one file, and writes it anew, within the plugin's lock.

* `upsertResources`, `applyPatch`, `removeResource`, `replaceModels`, `setModelEnabled` — the operations.
* `pluginData` — how `modify` runs them.
* `upsertResources_identities` and its like — what an operation does to identities.
-/

import Byok.Library.Critical
import Byok.Model.Message
import Mathlib.Data.List.Nodup
import Mathlib.Logic.Function.Basic

namespace Byok.Plugin

open Library List

/-! ### Records -/

inductive ResourceState where
  | ready
  | cooling (retryAtMs : Option Int) (message : Option String)
  | invalid (message : Option String)
deriving DecidableEq, Repr

inductive ResourceStateInput where
  | ready
  | cooling (retryAtMs : Option Int) (message : Option String)
  | invalid (message : Option String)
deriving DecidableEq, Repr

/-- `ResourceState::from`. -/
def ResourceState.ofInput : ResourceStateInput → ResourceState
  | .ready => .ready
  | .cooling retryAtMs message => .cooling retryAtMs message
  | .invalid message => .invalid message

structure ResourceRecord where
  id : String
  key : String
  privateData : Value
  state : ResourceState
  createdAtMs : Int
  updatedAtMs : Int
deriving DecidableEq, Repr

structure ResourceDraft where
  key : String
  privateData : Value
  state : Option ResourceStateInput
deriving DecidableEq, Repr

structure ResourcePatch where
  privateData : Option Value
  state : Option ResourceStateInput
deriving DecidableEq, Repr

structure StoredModel where
  id : String
  displayName : String
  description : Option String
  maxOutputTokens : Option Nat
  images : Bool
  enabled : Bool
  privateData : Value
deriving DecidableEq, Repr

structure UpsertOutcome where
  added : Nat
  updated : Nat
deriving DecidableEq, Repr

/-! ### The operations -/

/-- The loop body of `upsert_resources`. A draft comes with the uuid that is generated if its key is new. -/
def upsertDraft (now : Int) (state : List ResourceRecord × UpsertOutcome) (draft : ResourceDraft × String) :
    Except Error (List ResourceRecord × UpsertOutcome) :=
  if trim draft.1.key = "" then .error (.protocol "plugin resource draft requires key")
  else
    let input := (draft.1.state.map ResourceState.ofInput).getD .ready
    match state.1.findIdx? fun record => record.key = draft.1.key with
    | some index => .ok
      (state.1.modify index fun existing =>
        { existing with privateData := draft.1.privateData, state := input, updatedAtMs := now },
      { state.2 with updated := state.2.updated + 1 })
    | none => .ok
      (state.1 ++ [⟨draft.2, draft.1.key, draft.1.privateData, input, now, now⟩],
      { state.2 with added := state.2.added + 1 })

def upsertResources (drafts : List (ResourceDraft × String)) (now : Int) (records : List ResourceRecord) :
    Except Error (List ResourceRecord × UpsertOutcome) :=
  drafts.foldlM (upsertDraft now) (records, ⟨0, 0⟩)

def resourceMissing (resourceId : String) : Error := .runNotFound ("plugin resource " ++ resourceId)

def applyPatch (resourceId : String) (patch : ResourcePatch) (now : Int) (records : List ResourceRecord) :
    Except Error (List ResourceRecord) :=
  match records.findIdx? fun record => record.id = resourceId with
  | none => .error (resourceMissing resourceId)
  | some index => .ok (records.modify index fun record =>
    { record with
      privateData := patch.privateData.getD record.privateData
      state := (patch.state.map ResourceState.ofInput).getD record.state
      updatedAtMs := now })

/-- `remove_resource`: the records that are left. -/
def removeResource (resourceId : String) (records : List ResourceRecord) : Except Error (List ResourceRecord) :=
  match records.findIdx? fun record => record.id = resourceId with
  | none => .error (resourceMissing resourceId)
  | some index => .ok (records.eraseIdx index)

def replaceModels (models previous : List StoredModel) : List StoredModel :=
  models.map fun model =>
    match previous.find? fun old => old.id = model.id with
    | some old => { model with enabled := old.enabled }
    | none => model

def setModelEnabled (modelId : String) (enabled : Bool) (models : List StoredModel) :
    Except Error (List StoredModel) :=
  match models.findIdx? fun model => model.id = modelId with
  | none => .error (.runNotFound ("plugin model " ++ modelId))
  | some index => .ok (models.modify index fun model => { model with enabled := enabled })

/-! ### The files -/

/-- The files of a plugin, by the records that their JSON texts are read as. A text reads back as the records of which it
was made; only fractions in `privateData` may be read back with other digits, and no operation looks at them. A file that
is missing is an empty list. -/
structure PluginFiles where
  resources : String → List ResourceRecord
  models : String → List StoredModel

def PluginFiles.empty : PluginFiles := ⟨fun _ => [], fun _ => []⟩

/-- An operation with its arguments. -/
inductive Operation where
  | upsertResources (resourceType : String) (drafts : List (ResourceDraft × String)) (now : Int)
  | applyPatch (resourceType resourceId : String) (patch : ResourcePatch) (now : Int)
  | removeResource (resourceType resourceId : String)
  | replaceModels (providerId : String) (models : List StoredModel)
  | setModelEnabled (providerId modelId : String) (enabled : Bool)
deriving DecidableEq, Repr

/-- What is written: one file. -/
inductive FileWrite where
  | resources (resourceType : String) (records : List ResourceRecord)
  | models (providerId : String) (models : List StoredModel)
deriving DecidableEq, Repr

/-- The closure that an operation gives to `modify`. -/
def Operation.compute (files : PluginFiles) : Operation → Except Error FileWrite
  | .upsertResources resourceType drafts now =>
    (Plugin.upsertResources drafts now (files.resources resourceType)).map fun done => .resources resourceType done.1
  | .applyPatch resourceType resourceId patch now =>
    (Plugin.applyPatch resourceId patch now (files.resources resourceType)).map (.resources resourceType)
  | .removeResource resourceType resourceId =>
    (Plugin.removeResource resourceId (files.resources resourceType)).map (.resources resourceType)
  | .replaceModels providerId models => .ok (.models providerId (Plugin.replaceModels models (files.models providerId)))
  | .setModelEnabled providerId modelId enabled =>
    (Plugin.setModelEnabled modelId enabled (files.models providerId)).map (.models providerId)

/-- `write_locked`. -/
def FileWrite.store (files : PluginFiles) : FileWrite → PluginFiles
  | .resources resourceType records => { files with resources := Function.update files.resources resourceType records }
  | .models providerId catalogue => { files with models := Function.update files.models providerId catalogue }

/-- `PluginDataStore::modify`. A key that is refused, and a file that cannot be read, is a read that fails. -/
def pluginData : Modifier PluginFiles Operation FileWrite Error where
  compute operation files := operation.compute files
  store write files := write.store files

/-! ### Identities -/

/-- What a record keeps: its key, its id and when it was created. -/
def ResourceRecord.identity (record : ResourceRecord) : String × String × Int :=
  (record.key, record.id, record.createdAtMs)

def identities (records : List ResourceRecord) : List (String × String × Int) := records.map ResourceRecord.identity

theorem map_modify {α β : Type} {list : List α} {part : α → β} {change : α → α}
    (kept : ∀ value, part (change value) = part value) (index : Nat) :
    (list.modify index change).map part = list.map part := by
  apply ext_getElem?
  intro other
  rw [getElem?_map, getElem?_map, getElem?_modify]
  split_ifs
  · cases list[other]? with
    | none => rfl
    | some value => exact congrArg some (kept value)
  · cases list[other]? <;> rfl

theorem upsertDraft_identities {now : Int} {state after : List ResourceRecord × UpsertOutcome}
    {draft : ResourceDraft × String} (done : upsertDraft now state draft = .ok after) :
    identities after.1 = identities state.1 ∨
      draft.1.key ∉ (identities state.1).map Prod.fst ∧
        identities after.1 = identities state.1 ++ [(draft.1.key, draft.2, now)] := by
  unfold upsertDraft at done
  split_ifs at done
  dsimp only at done
  cases found : state.1.findIdx? fun record => record.key = draft.1.key with
  | some index =>
    rw [found] at done
    obtain rfl := Except.ok.inj done
    exact .inl (map_modify (by intro _; rfl) index)
  | none =>
    rw [found] at done
    obtain rfl := Except.ok.inj done
    refine .inr ⟨fun listed => ?_, map_append⟩
    rw [identities, map_map] at listed
    obtain ⟨record, member, same⟩ := mem_map.mp listed
    have missing := findIdx?_eq_none_iff.mp found record member
    exact absurd same (of_decide_eq_false missing)

/-- An upsert keeps all identities and adds new ones, with keys that are not there and the uuids it is given. -/
theorem upsertResources_identities {drafts : List (ResourceDraft × String)} {now : Int}
    {state after : List ResourceRecord × UpsertOutcome} (done : drafts.foldlM (upsertDraft now) state = .ok after) :
    ∃ added, identities after.1 = identities state.1 ++ added ∧
      (added.map fun identity => identity.2.1).Sublist (drafts.map Prod.snd) ∧
      (((identities state.1).map Prod.fst).Nodup → ((identities after.1).map Prod.fst).Nodup) := by
  induction drafts generalizing state with
  | nil =>
    obtain rfl := Except.ok.inj done
    exact ⟨[], (append_nil _).symm, .slnil, id⟩
  | cons draft drafts ih =>
    rw [foldlM_cons] at done
    cases first : upsertDraft now state draft with
    | error error =>
      rw [first] at done
      cases done
    | ok middle =>
      rw [first] at done
      obtain ⟨added, same, uuids, keys⟩ := ih done
      rcases upsertDraft_identities first with kept | ⟨fresh, grown⟩
      · rw [kept] at same keys
        exact ⟨added, same, uuids.cons _, keys⟩
      · refine ⟨(draft.1.key, draft.2, now) :: added, ?_, uuids.cons_cons _, fun distinct => keys ?_⟩
        · rw [same, grown, append_assoc]
          rfl
        · rw [grown, map_append, nodup_append]
          refine ⟨distinct, nodup_singleton _, fun key listed other single same => ?_⟩
          rw [map_singleton, mem_singleton] at single
          rw [same, single] at listed
          exact fresh listed

theorem applyPatch_identities {resourceId : String} {patch : ResourcePatch} {now : Int}
    {records after : List ResourceRecord} (done : applyPatch resourceId patch now records = .ok after) :
    identities after = identities records := by
  unfold applyPatch at done
  split at done
  · cases done
  · obtain rfl := Except.ok.inj done
    exact map_modify (by intro _; rfl) _

theorem removeResource_identities {resourceId : String} {records after : List ResourceRecord}
    (done : removeResource resourceId records = .ok after) :
    (identities after).Sublist (identities records) := by
  unfold removeResource at done
  split at done
  · cases done
  · obtain rfl := Except.ok.inj done
    exact (eraseIdx_sublist _ _).map _

/-! ### Flags -/

theorem ids_replaceModels (models previous : List StoredModel) :
    (replaceModels models previous).map StoredModel.id = models.map StoredModel.id := by
  rw [replaceModels, map_map]
  refine map_congr_left fun model _ => ?_
  rw [Function.comp_apply]
  split <;> rfl

theorem ids_setModelEnabled {modelId : String} {enabled : Bool} {models after : List StoredModel}
    (done : setModelEnabled modelId enabled models = .ok after) :
    after.map StoredModel.id = models.map StoredModel.id := by
  unfold setModelEnabled at done
  split at done
  · cases done
  · obtain rfl := Except.ok.inj done
    exact map_modify (by intro _; rfl) _

theorem mem_replaceModels {models previous : List StoredModel} {model : StoredModel}
    (member : model ∈ replaceModels models previous) :
    ∃ listed ∈ models, listed.id = model.id ∧
      ((∃ old ∈ previous, old.id = model.id ∧ model.enabled = old.enabled) ∨
        model.id ∉ previous.map StoredModel.id ∧ model = listed) := by
  obtain ⟨listed, there, same⟩ := mem_map.mp member
  refine ⟨listed, there, ?_⟩
  cases found : previous.find? fun old : StoredModel => old.id = listed.id with
  | some old =>
    have equal : old.id = listed.id := by simpa using find?_some found
    rw [found] at same
    subst same
    exact ⟨rfl, .inl ⟨old, mem_of_find?_eq_some found, equal, rfl⟩⟩
  | none =>
    rw [found] at same
    subst same
    refine ⟨rfl, .inr ⟨fun stored => ?_, rfl⟩⟩
    obtain ⟨old, member, same⟩ := mem_map.mp stored
    exact absurd (decide_eq_true same) (find?_eq_none.mp found old member)

theorem mem_setModelEnabled {modelId : String} {enabled : Bool} {models after : List StoredModel}
    (done : setModelEnabled modelId enabled models = .ok after) (distinct : (models.map StoredModel.id).Nodup)
    {model : StoredModel} (member : model ∈ after) :
    model.id = modelId ∧ model.enabled = enabled ∨ model.id ≠ modelId ∧ model ∈ models := by
  unfold setModelEnabled at done
  split at done
  · cases done
  · rename_i index found
    obtain rfl := Except.ok.inj done
    obtain ⟨bound, first, -⟩ := findIdx?_eq_some_iff_getElem.mp found
    obtain ⟨place, at_⟩ := getElem?_of_mem member
    rw [getElem?_modify] at at_
    split_ifs at at_ with same
    · subst same
      rw [getElem?_eq_getElem bound] at at_
      obtain rfl := Option.some.inj at_
      exact .inl ⟨of_decide_eq_true first, rfl⟩
    · have at_ : models[place]? = some model := by simpa using at_
      refine .inr ⟨fun equal => same ?_, mem_of_getElem? at_⟩
      have ids : (models.map StoredModel.id)[index]? = (models.map StoredModel.id)[place]? := by
        rw [getElem?_map, getElem?_map, at_, getElem?_eq_getElem bound]
        exact congrArg some ((of_decide_eq_true first).trans equal.symm)
      exact (getElem?_inj (by rwa [length_map]) distinct).mp ids

end Byok.Plugin
