/-
**The state of a plugin over whole runs.** `server/src/plugin/state.rs`, `server/src/plugin/data.rs`.

Operations run side by side. What they do is what the successful ones do one after the other, in the order of their
writes.

* `Distinct`, `serial_distinct` — keys and ids are distinct.
* `identity_stays` — a record keeps its id and its time of creation while its key is there.
* `flagsKept_iff` — a flag is what the user set last, exactly when no catalogue brings back a model that the user had
  disabled.
* `keepsState_iff` — all of it, for every interleaving.
-/

import Byok.Library.Fallible
import Byok.Plugin.State
import Mathlib.Data.List.Flatten
import Mathlib.Data.List.Pairwise

namespace Byok.Plugin

open Library List

/-! ### What an operation is about -/

namespace Operation

/-- The uuids that an operation may use. -/
def uuids : Operation → List String
  | .upsertResources _ drafts _ => drafts.map Prod.snd
  | _ => []

def resourceType? : Operation → Option String
  | .upsertResources resourceType _ _ | .applyPatch resourceType _ _ _ | .removeResource resourceType _ =>
    some resourceType
  | _ => none

/-- What it sets the flag of a model to. -/
def sets (providerId modelId : String) : Operation → Option Bool
  | .setModelEnabled provider model enabled => if provider = providerId ∧ model = modelId then some enabled else none
  | _ => none

/-- A catalogue lists each model once, and enables it. -/
def Lists : Operation → Prop
  | .replaceModels _ models => (models.map StoredModel.id).Nodup ∧ ∀ model ∈ models, model.enabled = true
  | _ => True

end Operation

/-- The flag that the user set last. -/
def lastSet (log : List Operation) (providerId modelId : String) : Option Bool :=
  log.reverse.findSome? (Operation.sets providerId modelId)

theorem lastSet_concat (log : List Operation) (last : Operation) (providerId modelId : String) :
    lastSet (log ++ [last]) providerId modelId =
      (last.sets providerId modelId).or (lastSet log providerId modelId) := by
  rw [lastSet, reverse_concat, findSome?_cons]
  cases last.sets providerId modelId <;> rfl

/-- The files after some operations. -/
def filesAfter (log : List Operation) : PluginFiles := pluginData.replay .empty log

theorem filesAfter_concat {log : List Operation} {last : Operation} {write : FileWrite}
    (computed : last.compute (filesAfter log) = .ok write) :
    filesAfter (log ++ [last]) = write.store (filesAfter log) := Modifier.replay_concat _ _ computed

/-! ### One operation -/

/-- What an operation does to the identities of a type: it adds some, or takes some away. -/
inductive Renews (operation : Operation) (resourceType : String) (before after : List ResourceRecord) : Prop where
  | adds (added : List (String × String × Int)) (same : identities after = identities before ++ added)
      (uuids : (added.map fun identity => identity.2.1).Sublist operation.uuids)
      (source : added ≠ [] → operation.resourceType? = some resourceType)
      (keys : ((identities before).map Prod.fst).Nodup → ((identities after).map Prod.fst).Nodup)
  | removes (fewer : (identities after).Sublist (identities before))

theorem Renews.refl (operation : Operation) (resourceType : String) (records : List ResourceRecord) :
    Renews operation resourceType records records := .removes (.refl _)

theorem renews_store {operation : Operation} {files : PluginFiles} {resourceType : String}
    {records : List ResourceRecord} (renews : Renews operation resourceType (files.resources resourceType) records)
    (other : String) :
    Renews operation other (files.resources other)
      (((FileWrite.resources resourceType records).store files).resources other) := by
  show Renews operation other _ (Function.update files.resources resourceType records other)
  by_cases same : other = resourceType
  · subst same
    rw [Function.update_self]
    exact renews
  · rw [Function.update_of_ne same]
    exact .refl _ _ _

theorem compute_renews {operation : Operation} {files : PluginFiles} {write : FileWrite}
    (computed : operation.compute files = .ok write) (resourceType : String) :
    Renews operation resourceType (files.resources resourceType) ((write.store files).resources resourceType) := by
  cases operation with
  | upsertResources type drafts now =>
    obtain ⟨done, upserted, rfl⟩ := except_map_eq_ok computed
    obtain ⟨added, same, uuids, keys⟩ := upsertResources_identities upserted
    have renews : Renews (.upsertResources type drafts now) type _ done.1 :=
      .adds added same uuids (fun _ => rfl) keys
    exact renews_store renews resourceType
  | applyPatch type resourceId patch now =>
    obtain ⟨records, patched, rfl⟩ := except_map_eq_ok computed
    exact renews_store (.removes (applyPatch_identities patched ▸ .refl _)) resourceType
  | removeResource type resourceId =>
    obtain ⟨records, removed, rfl⟩ := except_map_eq_ok computed
    exact renews_store (.removes (removeResource_identities removed)) resourceType
  | replaceModels providerId models =>
    obtain rfl := Except.ok.inj computed
    exact .refl _ _ _
  | setModelEnabled providerId modelId enabled =>
    obtain ⟨models, set, rfl⟩ := except_map_eq_ok computed
    exact .refl _ _ _

theorem Renews.identity {operation : Operation} {resourceType : String} {before after : List ResourceRecord}
    (renews : Renews operation resourceType before after) (keys : ((identities before).map Prod.fst).Nodup)
    {record later : ResourceRecord} (member : record ∈ before) (stays : later ∈ after) (same : later.key = record.key) :
    later.identity = record.identity := by
  have listed : record.identity ∈ identities before := mem_map_of_mem member
  have found : later.identity ∈ identities after := mem_map_of_mem stays
  cases renews with
  | adds added grown _ _ distinct =>
    rw [grown] at found distinct
    exact inj_on_of_nodup_map (distinct keys) found (mem_append_left _ listed) same
  | removes fewer => exact inj_on_of_nodup_map keys (fewer.subset found) listed same

/-! ### Keys and ids -/

/-- What is known of the identities, after some operations. -/
structure Distinct (log : List Operation) : Prop where
  keys : ∀ resourceType, ((identities ((filesAfter log).resources resourceType)).map Prod.fst).Nodup
  ids : ∀ resourceType,
    ((identities ((filesAfter log).resources resourceType)).map fun identity => identity.2.1).Nodup
  source : ∀ resourceType, ∀ identity ∈ identities ((filesAfter log).resources resourceType),
    ∃ operation ∈ log, operation.resourceType? = some resourceType ∧ identity.2.1 ∈ operation.uuids

/-- **What an operation keeps.** -/
theorem Distinct.snoc {log : List Operation} {last : Operation} {write : FileWrite} (distinct : Distinct log)
    (fresh : ((log ++ [last]).flatMap Operation.uuids).Nodup)
    (computed : last.compute (filesAfter log) = .ok write) : Distinct (log ++ [last]) := by
  rw [flatMap_append, flatMap_singleton, nodup_append'] at fresh
  obtain ⟨-, own, apart⟩ := fresh
  have before (resourceType : String) : ∀ identity ∈ identities ((filesAfter log).resources resourceType),
      ∃ operation ∈ log ++ [last], operation.resourceType? = some resourceType ∧ identity.2.1 ∈ operation.uuids := by
    intro identity member
    obtain ⟨operation, logged, source⟩ := distinct.source resourceType identity member
    exact ⟨operation, mem_append_left _ logged, source⟩
  refine ⟨fun resourceType => ?_, fun resourceType => ?_, fun resourceType identity member => ?_⟩
  · rw [filesAfter_concat computed]
    cases compute_renews computed resourceType with
    | adds _ _ _ _ keys => exact keys (distinct.keys resourceType)
    | removes fewer => exact (distinct.keys resourceType).sublist (fewer.map _)
  · rw [filesAfter_concat computed]
    cases compute_renews computed resourceType with
    | adds added same uuids _ _ =>
      rw [same, map_append, nodup_append']
      refine ⟨distinct.ids resourceType, own.sublist uuids, fun id old new => ?_⟩
      obtain ⟨identity, member, rfl⟩ := mem_map.mp old
      obtain ⟨operation, logged, -, used⟩ := distinct.source resourceType identity member
      exact apart (mem_flatMap_of_mem logged used) (uuids.subset new)
    | removes fewer => exact (distinct.ids resourceType).sublist (fewer.map _)
  · rw [filesAfter_concat computed] at member
    cases compute_renews computed resourceType with
    | adds added same uuids source _ =>
      rw [same] at member
      rcases mem_append.mp member with old | new
      · exact before resourceType identity old
      · exact ⟨last, mem_append_right _ (mem_singleton_self _), source (ne_nil_of_mem new),
          uuids.subset (mem_map_of_mem new)⟩
    | removes fewer => exact before resourceType identity (fewer.subset member)

theorem serial_distinct {log : List Operation} (serial : pluginData.Serial .empty log)
    (fresh : (log.flatMap Operation.uuids).Nodup) : Distinct log := by
  induction serial with
  | nil => exact ⟨fun _ => .nil, fun _ => .nil, fun _ _ => nofun⟩
  | snoc serial computed ih =>
    refine (ih ?_).snoc fresh computed
    rw [flatMap_append] at fresh
    exact fresh.sublist (sublist_append_left _ _)

theorem Distinct.apart {log : List Operation} (distinct : Distinct log) (fresh : (log.flatMap Operation.uuids).Nodup)
    {first second : String} {record other : ResourceRecord} (member : record ∈ (filesAfter log).resources first)
    (there : other ∈ (filesAfter log).resources second) (same : record.id = other.id) : first = second := by
  obtain ⟨operation, logged, type, used⟩ := distinct.source first _ (mem_map_of_mem member)
  obtain ⟨next, nextLogged, nextType, nextUsed⟩ := distinct.source second _ (mem_map_of_mem there)
  by_contra different
  have distinctOps : operation ≠ next := by
    rintro rfl
    exact different (Option.some.inj (type.symm.trans nextType))
  have symmetric : Std.Symm (Function.onFun List.Disjoint Operation.uuids) :=
    ⟨fun _ _ apart _ here there => apart there here⟩
  have disjoint := (nodup_flatMap.mp fresh).2.forall logged nextLogged distinctOps
  have shared : record.id ∈ next.uuids := same.symm ▸ nextUsed
  exact disjoint used shared

/-! ### Flags -/

/-- What an operation does to the models of a provider. -/
inductive Relists (operation : Operation) (providerId : String) (before after : List StoredModel) : Prop where
  | stays (same : after = before) (unset : ∀ modelId, operation.sets providerId modelId = none)
  | catalogue (models : List StoredModel) (is : operation = .replaceModels providerId models)
      (same : after = replaceModels models before)
  | flag (modelId : String) (enabled : Bool) (is : operation = .setModelEnabled providerId modelId enabled)
      (done : setModelEnabled modelId enabled before = .ok after)

theorem compute_relists {operation : Operation} {files : PluginFiles} {write : FileWrite}
    (computed : operation.compute files = .ok write) (providerId : String) :
    Relists operation providerId (files.models providerId) ((write.store files).models providerId) := by
  cases operation with
  | upsertResources type drafts now =>
    obtain ⟨_, -, rfl⟩ := except_map_eq_ok computed
    exact .stays rfl fun _ => rfl
  | applyPatch type resourceId patch now =>
    obtain ⟨_, -, rfl⟩ := except_map_eq_ok computed
    exact .stays rfl fun _ => rfl
  | removeResource type resourceId =>
    obtain ⟨_, -, rfl⟩ := except_map_eq_ok computed
    exact .stays rfl fun _ => rfl
  | replaceModels provider models =>
    obtain rfl := Except.ok.inj computed
    by_cases same : providerId = provider
    · subst same
      exact .catalogue models rfl (Function.update_self ..)
    · exact .stays (Function.update_of_ne same ..) fun _ => rfl
  | setModelEnabled provider modelId enabled =>
    obtain ⟨models, set, rfl⟩ := except_map_eq_ok computed
    by_cases same : providerId = provider
    · subst same
      refine .flag modelId enabled rfl ?_
      rw [set]
      show Except.ok models = .ok (Function.update files.models providerId models providerId)
      rw [Function.update_self]
    · exact .stays (Function.update_of_ne same ..) fun _ => if_neg fun both => same both.1.symm

theorem ids_distinct {log : List Operation} (serial : pluginData.Serial .empty log)
    (lists : ∀ operation ∈ log, operation.Lists) (providerId : String) :
    (((filesAfter log).models providerId).map StoredModel.id).Nodup := by
  induction serial with
  | nil => exact .nil
  | @snoc log last write _ computed ih =>
    have before := ih fun operation logged => lists operation (mem_append_left _ logged)
    have computed : last.compute (filesAfter log) = .ok write := computed
    rw [filesAfter_concat computed]
    cases compute_relists computed providerId with
    | stays same _ =>
      rw [same]
      exact before
    | catalogue models is same =>
      have listed := lists last (mem_append_right _ (mem_singleton_self _))
      rw [is] at listed
      rw [same, ids_replaceModels]
      exact listed.1
    | flag modelId enabled _ done =>
      rw [ids_setModelEnabled done]
      exact before

/-- The flags are what the user set last. -/
def FlagsKept (log : List Operation) : Prop :=
  ∀ providerId, ∀ model ∈ (filesAfter log).models providerId,
    model.enabled = (lastSet log providerId model.id).getD true

/-- No catalogue lists a model again that the user had disabled, when it is not stored any more. -/
def NoneReturns (log : List Operation) : Prop :=
  ∀ before providerId models after, log = before ++ .replaceModels providerId models :: after → ∀ model ∈ models,
    model.id ∉ ((filesAfter before).models providerId).map StoredModel.id →
      lastSet before providerId model.id ≠ some false

/-- **What an operation keeps**, unless it brings back a model that was disabled. -/
theorem FlagsKept.snoc {log : List Operation} {last : Operation} {write : FileWrite} (kept : FlagsKept log)
    (distinct : ∀ providerId, (((filesAfter log).models providerId).map StoredModel.id).Nodup) (lists : last.Lists)
    (computed : last.compute (filesAfter log) = .ok write) (returns : NoneReturns (log ++ [last])) :
    FlagsKept (log ++ [last]) := by
  intro providerId model member
  rw [filesAfter_concat computed] at member
  rw [lastSet_concat]
  cases compute_relists computed providerId with
  | stays same unset =>
    rw [same] at member
    rw [unset]
    exact kept providerId model member
  | catalogue models is same =>
    subst is
    rw [same] at member
    obtain ⟨listed, there, equal, ⟨old, stored, sameId, flag⟩ | ⟨missing, rfl⟩⟩ := mem_replaceModels member
    · rw [flag, kept providerId old stored, sameId]
      rfl
    · have allowed := returns log providerId models [] rfl model there missing
      rw [lists.2 model there]
      show true = (lastSet log providerId model.id).getD true
      cases set : lastSet log providerId model.id with
      | none => rfl
      | some enabled =>
        cases enabled with
        | true => rfl
        | false => exact absurd set allowed
  | flag modelId enabled is done =>
    subst is
    rcases mem_setModelEnabled done (distinct providerId) member with ⟨rfl, flag⟩ | ⟨other, stored⟩
    · rw [flag, Operation.sets, if_pos ⟨rfl, rfl⟩]
      rfl
    · rw [Operation.sets, if_neg fun both => other both.2.symm]
      exact kept providerId model stored

theorem returns_of_kept {before : List Operation} {providerId : String} {models : List StoredModel}
    (kept : FlagsKept (before ++ [.replaceModels providerId models]))
    (lists : (Operation.replaceModels providerId models).Lists) {model : StoredModel} (listed : model ∈ models)
    (missing : model.id ∉ ((filesAfter before).models providerId).map StoredModel.id) :
    lastSet before providerId model.id ≠ some false := by
  have computed : (Operation.replaceModels providerId models).compute (filesAfter before) =
    .ok (.models providerId (replaceModels models ((filesAfter before).models providerId))) := rfl
  have member : model ∈ (filesAfter (before ++ [.replaceModels providerId models])).models providerId := by
    rw [filesAfter_concat computed]
    show model ∈ Function.update (filesAfter before).models providerId _ providerId
    rw [Function.update_self]
    refine mem_map.mpr ⟨model, listed, ?_⟩
    have absent : ((filesAfter before).models providerId).find? (fun old => old.id = model.id) = none :=
      find?_eq_none.mpr fun old stored same => missing (of_decide_eq_true same ▸ mem_map_of_mem stored)
    rw [absent]
  have flag := kept providerId model member
  rw [lists.2 model listed, lastSet_concat] at flag
  intro disabled
  rw [disabled] at flag
  cases flag

/-- **The flags.** They are what the user set last after each operation, exactly when no disabled model returns. -/
theorem flagsKept_iff {log : List Operation} (serial : pluginData.Serial .empty log)
    (lists : ∀ operation ∈ log, operation.Lists) :
    (∀ before, before <+: log → FlagsKept before) ↔ NoneReturns log := by
  constructor
  · intro kept before providerId models after split model listed missing
    have first : before ++ [.replaceModels providerId models] <+: log := ⟨after, by rw [split]; simp⟩
    have member : .replaceModels providerId models ∈ log := first.subset (by simp)
    exact returns_of_kept (kept _ first) (lists _ member) listed missing
  · intro returns
    induction serial with
    | nil =>
      intro before first
      rw [prefix_nil.mp first]
      exact fun _ _ => nofun
    | @snoc log last write serial computed ih =>
      have earlier (operation : Operation) (logged : operation ∈ log) := lists operation (mem_append_left _ logged)
      have kept := ih earlier fun before providerId models after split =>
        returns before providerId models (after ++ [last]) (by rw [split]; simp)
      intro before first
      rcases prefix_concat_iff.mp first with rfl | within
      · exact (kept log (prefix_refl _)).snoc (ids_distinct serial earlier) (lists last (by simp)) computed returns
      · exact kept before within

/-! ### Every interleaving -/

/-- What happens to a plugin that has no files yet. -/
def states (acts : List (TaskAct Operation)) : Guarded PluginFiles Operation FileWrite := pluginData.run .empty acts

def files (acts : List (TaskAct Operation)) : PluginFiles := (states acts).value

/-- What is said of the state of a plugin, whatever happens. -/
structure KeepsState (acts : List (TaskAct Operation)) : Prop where
  keys : ∀ before after, acts = before ++ after → ∀ resourceType,
    (((files before).resources resourceType).map ResourceRecord.key).Nodup
  ids : ∀ before after, acts = before ++ after → ∀ resourceType,
    (((files before).resources resourceType).map ResourceRecord.id).Nodup
  apart : ∀ before after, acts = before ++ after → ∀ first second, ∀ record ∈ (files before).resources first,
    ∀ other ∈ (files before).resources second, record.id = other.id → first = second
  identity : ∀ before span after, acts = before ++ span ++ after → ∀ resourceType,
    ∀ record ∈ (files before).resources resourceType,
      (∀ first rest, span = first ++ rest →
        record.key ∈ ((files (before ++ first)).resources resourceType).map ResourceRecord.key) →
      ∀ later ∈ (files (before ++ span)).resources resourceType, later.key = record.key →
        later.id = record.id ∧ later.createdAtMs = record.createdAtMs
  effect : ∀ before index after, acts = before ++ .write index true :: after → ∀ operation write,
    (states before).tasks[index]? = some (operation, .writing write) →
      operation.compute (files before) = .ok write ∧
        files (before ++ [.write index true]) = write.store (files before)
  serial : files acts = filesAfter (states acts).log ∧
    ((states acts).tasks.filterMap Modifier.succeeded).Perm (states acts).log
  failure : ∀ before act after, acts = before ++ act :: after → ∀ index operation, act.index? = some index →
    (states acts).tasks[index]? = some (operation, .done false) → files (before ++ [act]) = files before
  flags : ∀ before after, acts = before ++ after → ∀ providerId, ∀ model ∈ (files before).models providerId,
    model.enabled = (lastSet (states before).log providerId model.id).getD true

/-- The operations that are called have fresh uuids, and catalogues that list each model once and enable it. -/
structure Called (acts : List (TaskAct Operation)) : Prop where
  fresh : ((acts.flatMap TaskAct.called).flatMap Operation.uuids).Nodup
  lists : ∀ operation ∈ acts.flatMap TaskAct.called, operation.Lists

theorem files_eq (acts : List (TaskAct Operation)) : files acts = filesAfter (states acts).log :=
  (@Modifier.run_value _ _ _ _ pluginData PluginFiles.empty acts).1

theorem states_serial (acts : List (TaskAct Operation)) : pluginData.Serial .empty (states acts).log :=
  (Modifier.run_value PluginFiles.empty acts).2

theorem Called.log {acts : List (TaskAct Operation)} (called : Called acts) :
    ((states acts).log.flatMap Operation.uuids).Nodup ∧ ∀ operation ∈ (states acts).log, operation.Lists := by
  have stored := @Modifier.run_log _ _ _ _ pluginData PluginFiles.empty acts
  have fewer := Modifier.succeeded_sublist (states acts).tasks
  rw [states, Modifier.run_called] at fewer
  constructor
  · exact (stored.flatMap_right Operation.uuids).nodup (called.fresh.sublist (fewer.flatMap Operation.uuids))
  · exact fun operation logged => called.lists operation (fewer.subset (stored.symm.subset logged))

theorem Called.left {before after : List (TaskAct Operation)} (called : Called (before ++ after)) : Called before where
  fresh := by
    have fresh := called.fresh
    rw [flatMap_append, flatMap_append] at fresh
    exact fresh.sublist (sublist_append_left _ _)
  lists operation member := called.lists operation (by
    rw [flatMap_append]
    exact mem_append_left _ member)

theorem Called.distinct {acts : List (TaskAct Operation)} (called : Called acts) : Distinct (states acts).log :=
  serial_distinct (states_serial acts) called.log.1

theorem identity_step {acts : List (TaskAct Operation)} (called : Called acts) (act : TaskAct Operation)
    {resourceType : String} {record later : ResourceRecord} (member : record ∈ (files acts).resources resourceType)
    (stays : later ∈ (files (acts ++ [act])).resources resourceType) (same : later.key = record.key) :
    later.identity = record.identity := by
  have keys := called.distinct.keys resourceType
  rw [← files_eq] at keys
  have unchanged (equal : files (acts ++ [act]) = files acts) : later.identity = record.identity := by
    rw [equal] at stays
    exact (Renews.refl (.removeResource "" "") resourceType _).identity keys member stays same
  rw [files, states, Modifier.run_concat] at stays unchanged
  rcases pluginData.act_moves (pluginData.run .empty acts) act with moves | ⟨-, equal⟩
  · generalize pluginData.act (pluginData.run .empty acts) act = after at moves stays unchanged
    cases moves with
    | @write index operation write at_ =>
      have computed := (Modifier.run_exclusive _ acts).computed index operation write at_
      exact (compute_renews computed resourceType).identity keys member stays same
    | _ => exact unchanged rfl
  · exact unchanged (congrArg Guarded.value equal)

theorem identity_stays {before span : List (TaskAct Operation)} (called : Called (before ++ span))
    {resourceType : String} {record : ResourceRecord} (member : record ∈ (files before).resources resourceType)
    (there : ∀ first rest, span = first ++ rest →
      record.key ∈ ((files (before ++ first)).resources resourceType).map ResourceRecord.key)
    {later : ResourceRecord} (stays : later ∈ (files (before ++ span)).resources resourceType)
    (same : later.key = record.key) : later.identity = record.identity := by
  induction span using List.reverseRecOn generalizing later with
  | nil =>
    rw [append_nil] at stays called
    have keys := called.distinct.keys resourceType
    rw [← files_eq] at keys
    exact (Renews.refl (.removeResource "" "") resourceType _).identity keys member stays same
  | append_singleton span last ih =>
    rw [← append_assoc] at called stays
    obtain ⟨middle, held, equal⟩ := mem_map.mp (there span [last] rfl)
    have first := ih called.left (fun first rest split => there first (rest ++ [last]) (by rw [split]; simp)) held equal
    exact (identity_step called.left last held stays (same.trans equal.symm)).trans first

/-- **The state of a plugin.** Identities are kept and no update is lost, in every interleaving; and flags are what the
user chose, exactly when no catalogue brings back a model that was disabled. -/
theorem keepsState_iff {acts : List (TaskAct Operation)} (called : Called acts) :
    KeepsState acts ↔ NoneReturns (states acts).log := by
  rw [← flagsKept_iff (states_serial acts) called.log.2]
  constructor
  · intro keeps log first
    obtain ⟨before, after, split, rfl⟩ := Modifier.exists_log first
    intro providerId model member
    exact keeps.flags before after split providerId model ((files_eq before).symm ▸ member)
  · intro kept
    refine ⟨?_, ?_, ?_, ?_, ?_, ?_, ?_, ?_⟩
    · rintro before after rfl resourceType
      have keys := called.left.distinct.keys resourceType
      rw [← files_eq, identities, map_map] at keys
      exact keys
    · rintro before after rfl resourceType
      have ids := called.left.distinct.ids resourceType
      rw [← files_eq, identities, map_map] at ids
      exact ids
    · rintro before after rfl first second record member other there same
      rw [files_eq] at member there
      exact called.left.distinct.apart called.left.log.1 member there same
    · rintro before span after rfl resourceType record member there later stays same
      have equal := identity_stays called.left member there stays same
      exact ⟨congrArg (·.2.1) equal, congrArg (·.2.2) equal⟩
    · rintro before index after rfl operation write at_
      refine ⟨(Modifier.run_exclusive _ before).computed index operation write at_, ?_⟩
      rw [files, states, Modifier.run_concat]
      exact Modifier.value_write at_
    · exact ⟨files_eq acts, Modifier.run_log _ acts⟩
    · rintro before act after rfl index operation whose failed
      exact Modifier.failed_keeps whose failed
    · rintro before after rfl providerId model member
      rw [files_eq] at member
      exact kept _ (Modifier.log_grows _ before after) providerId model member

/-! ### A model that comes back -/

/-- A model of a catalogue. -/
def plainModel (id : String) : StoredModel := ⟨id, id, none, none, false, true, .null⟩

/-- A task from its lock to its write. -/
def through (index : Nat) : List (TaskAct Operation) := [.lock index, .read index true, .write index true]

/-- A model is listed and disabled. -/
def disables : List (TaskAct Operation) :=
  [.call (.replaceModels "codex" [plainModel "gpt"]), .call (.setModelEnabled "codex" "gpt" false)] ++
    through 0 ++ through 1

/-- The next catalogue is without it, and the one after it is not. -/
def returns : List (TaskAct Operation) :=
  disables ++ [.call (.replaceModels "codex" [plainModel "mini"])] ++ through 2 ++
    [.call (.replaceModels "codex" [plainModel "gpt"])] ++ through 3

theorem disables_called : Called disables :=
  ⟨by decide, by simp [disables, through, TaskAct.called, Operation.Lists, plainModel]⟩

theorem returns_called : Called returns :=
  ⟨by decide, by simp [returns, disables, through, TaskAct.called, Operation.Lists, plainModel]⟩

theorem keepsState_iff_disables :
    Called disables ∧ (KeepsState disables ↔ NoneReturns (states disables).log) :=
  ⟨disables_called, keepsState_iff disables_called⟩

/-- The model is enabled again, although the user had disabled it. -/
theorem disabled_returns : ¬ ∀ acts, Called acts → KeepsState acts := by
  intro always
  have flags := (always returns returns_called).flags returns [] (append_nil _).symm
  exact absurd (flags "codex" (plainModel "gpt") (mem_singleton.mpr rfl)) (by decide)

end Byok.Plugin
