/-
One reconcile of an ApplicationSet (`Reconcile`, `createOrUpdateInCluster`, `createInCluster`, `deleteInCluster` in
`applicationset/controllers/applicationset_controller.go`, `CreateOrUpdate` in `applicationset/utils/createOrUpdate.go`).

The answers of the API server are inputs, one for each call, so they may be stale or errors. The calls that write
applications are logged. Applications of one batch are handled concurrently by the code; each of them only touches its own
application, so they stand one after another here. Events, metrics and the status of the ApplicationSet are left out, the
conditions for errors apart.
-/
import GitOpsDeploy.Core.Script
import GitOpsDeploy.AppSet.Generate

namespace GitOpsDeploy.AppSet.Reconciler

open List
open Script (mem_calls_bind)

variable {Spec Operation Template Param : Type}

/-! ## Policies -/

inductive ApplicationsSyncPolicy where
  | createOnly
  | createUpdate
  | createDelete
  | sync
  | other (text : String)
  deriving DecidableEq, Repr

def ApplicationsSyncPolicy.allowUpdate (p : ApplicationsSyncPolicy) : Bool := p = .createUpdate || p = .sync

def ApplicationsSyncPolicy.allowDelete (p : ApplicationsSyncPolicy) : Bool := p = .sync || p = .createDelete

/-- the settings of the controller -/
structure Config (Spec Operation : Type) where
  policy : ApplicationsSyncPolicy
  enablePolicyOverride : Bool
  enableProgressiveSyncs : Bool
  globalPreservedAnnotations : List String
  globalPreservedLabels : List String
  project : Spec → String
  /-- `NormalizeApplicationSpec` -/
  normalizeSpec : Spec → Spec
  /-- `SyncDesiredApplications`, which may disable automated syncs and request an operation -/
  syncDesired : Application Spec Operation → Spec × Option Operation

structure ApplicationSet where
  ns : String
  name : String
  uid : String
  deletionTimestamp : Bool
  /-- `spec.syncPolicy.applicationsSync` -/
  applicationsSync : Option ApplicationsSyncPolicy
  preservedAnnotations : List String
  preservedLabels : List String
  isRollingSync : Bool
  stepsEmpty : Bool
  hasApplicationStatus : Bool
  /-- the deletion order is reversed, and the resources finalizer is there -/
  deletionOrderReversed : Bool
  hasFinalizer : Bool
  refreshRequired : Bool

def defaultPolicy (config : Config Spec Operation) (appset : ApplicationSet) : ApplicationsSyncPolicy :=
  match appset.applicationsSync with
  | none => config.policy
  | some policy => if config.enablePolicyOverride then policy else config.policy

/-! ## Calls and answers -/

inductive Call (Spec Operation : Type) where
  | create (app : Application Spec Operation)
  /-- a merge patch from base to app, on the live application -/
  | patch (live base app : Application Spec Operation)
  /-- a merge patch of the finalizers before a deletion -/
  | removeFinalizer (app : Application Spec Operation)
  | delete (app : Application Spec Operation)
  | updateOwnerReferences (app : Application Spec Operation)
  | errorCondition (reason message : String)

structure ApiError where
  text : String
  /-- the context was canceled, or its deadline exceeded -/
  context : Bool
  deriving DecidableEq, Repr

/-- the moments at which the applications are listed -/
inductive Listing where
  | reconcile
  | create
  | delete
  | status
  | ownerReferences
  deriving DecidableEq, Repr

/-- the ignored differences, taken out of a live and a desired application -/
abbrev IgnoreDiffConfig (Spec Operation : Type) := Application Spec Operation → Application Spec Operation →
  Except String (Application Spec Operation × Application Spec Operation)

structure Api (Spec Operation Template Param : Type) where
  migrateStatus : Option String
  updateFinalizer : Option String
  generators : List (Request Template Param)
  renderer : Renderer Spec Operation Template Param
  checks : Checks
  list : Listing → Except String (List (Application Spec Operation))
  clearStatus : Option String
  performProgressiveSyncs : Option String
  buildIgnoreDiffConfig : Except String (Option (IgnoreDiffConfig Spec Operation))
  get : String → Except ApiError (Option (Application Spec Operation))
  create : String → Option ApiError
  patch : String → Option ApiError
  listClusters : Option String
  validDestination : String → Bool
  removeFinalizer : String → Option ApiError
  delete : String → Option ApiError
  updateResourcesStatus : Option String
  refresh : Option String
  upToDateCondition : Option String
  updateOwnerReferences : String → Option String
  /-- the applications that a reversed deletion deletes, and if it asks for another turn -/
  performReverseDeletion : List (Application Spec Operation) × Except String Bool

/-! ## One application -/

def notifiedAnnotationKey : String := "notified.notifications.apps.hanzo.ai"
def defaultPreservedAnnotations : List String :=
  [notifiedAnnotationKey, "apps.hanzo.ai/refresh", "apps.hanzo.ai/hydrate"]
def resourcesFinalizerName : String := "resources-finalizer.apps.hanzo.ai"
def defaultPreservedFinalizers : List String := ["pre-delete-finalizer.apps.hanzo.ai", "post-delete-finalizer.apps.hanzo.ai"]
def apiVersion : String := "apps.hanzo.ai/v1alpha1"

/-- the values that the live map has for the keys go into the desired map -/
def preserve (keys : List String) (live desired : StringMap) : StringMap :=
  keys.foldl (fun desired key =>
    match live.lookup key with
    | none => desired
    | some state => desired.insert key state) desired

/-- the group of an API version; only a version without a slash has none -/
def groupOf (apiVersion : String) : String :=
  if '/' ∈ apiVersion.toList then String.ofList (apiVersion.toList.takeWhile (· ≠ '/')) else ""

/-- the same object, whatever version and UID -/
def referSameObject (a b : OwnerReference) : Bool :=
  groupOf a.apiVersion = groupOf b.apiVersion && a.kind = b.kind && a.name = b.name

def getControllerOf (refs : List OwnerReference) : Option OwnerReference := refs.find? OwnerReference.controller

def controllerReference (appset : ApplicationSet) : OwnerReference :=
  ⟨apiVersion, "ApplicationSet", appset.name, appset.uid, true, true⟩

/-- the reference to the ApplicationSet replaces the first one to the same object -/
def upsertOwnerRef (ref : OwnerReference) (refs : List OwnerReference) : List OwnerReference :=
  match refs.findIdx? (referSameObject ref) with
  | none => refs ++ [ref]
  | some i => refs.set i ref

def setControllerReference (appset : ApplicationSet) (refs : List OwnerReference) : Except String (List OwnerReference) :=
  match getControllerOf refs with
  | none => .ok (upsertOwnerRef (controllerReference appset) refs)
  | some existing =>
    if referSameObject existing (controllerReference appset) then .ok (upsertOwnerRef (controllerReference appset) refs)
    else .error ("already owned by another " ++ existing.kind ++ " controller " ++ existing.name)

section One

variable (config : Config Spec Operation) (appset : ApplicationSet)

/-- the live application with what is significant of the generated one -/
def mutateFn (generated found : Application Spec Operation) : Except String (Application Spec Operation) :=
  let annotations := preserve (appset.preservedAnnotations ++ config.globalPreservedAnnotations ++
    defaultPreservedAnnotations) found.annotations generated.annotations
  let labels := preserve (appset.preservedLabels ++ config.globalPreservedLabels) found.labels generated.labels
  let finalizers := generated.finalizers ++
    defaultPreservedFinalizers.flatMap fun finalizer => found.finalizers.filter fun f => finalizer.toList.isPrefixOf f.toList
  match setControllerReference appset found.ownerReferences with
  | .error e => .error e
  | .ok ownerReferences =>
    .ok { found with
      spec := generated.spec
      operation := if generated.operation.isSome then generated.operation else found.operation
      annotations, labels, finalizers, ownerReferences }

/-- the key that was asked for is the generated application's -/
def mutate (generated found : Application Spec Operation) : Except String (Application Spec Operation) :=
  match mutateFn config appset generated found with
  | .error e => .error ("error while wrapping using MutateFn: " ++ e)
  | .ok obj =>
    if obj.ns = generated.ns ∧ obj.name = generated.name then .ok obj
    else .error "MutateFn cannot mutate object name and/or object namespace"

def newApplication (generated : Application Spec Operation) : Application Spec Operation :=
  { generated with labels := ∅, annotations := ∅, finalizers := [], ownerReferences := [], operation := none }

/-- the rules cannot change which application it is, and which operation it requests -/
def applyIgnoreDifferences (diffConfig : Option (IgnoreDiffConfig Spec Operation))
    (found generated : Application Spec Operation) : Except String
      (Application Spec Operation × Application Spec Operation) :=
  match diffConfig with
  | none => .ok (found, generated)
  | some normalize =>
    match normalize found generated with
    | .error e => .error e
    | .ok (live, target) =>
      .ok (live, { target with name := generated.name, ns := generated.ns, operation := generated.operation })

variable [DecidableEq Spec] [DecidableEq Operation]

/-- `appEquality.DeepEqual` -/
def sameApplication (a b : Application Spec Operation) : Bool :=
  a.ns = b.ns && a.name = b.name && a.spec = b.spec && a.labels = b.labels && a.annotations = b.annotations &&
    a.finalizers = b.finalizers && a.ownerReferences = b.ownerReferences && a.operation = b.operation

/-- `CreateOrUpdate`: the calls for one generated application, and its error -/
def createOrUpdate (api : Api Spec Operation Template Param)
    (diffConfig : Option (IgnoreDiffConfig Spec Operation)) (generated : Application Spec Operation) :
    List (Call Spec Operation) × Option ApiError :=
  match api.get generated.name with
  | .error e => ([], some e)
  | .ok none =>
    match mutate config appset generated (newApplication generated) with
    | .error e => ([], some ⟨e, false⟩)
    | .ok obj => ([.create obj], api.create generated.name)
  | .ok (some live) =>
    match mutate config appset generated live with
    | .error e => ([], some ⟨e, false⟩)
    | .ok obj =>
      match applyIgnoreDifferences diffConfig { live with spec := config.normalizeSpec live.spec } obj with
      | .error e => ([], some ⟨"failed to apply ignore differences: " ++ e, false⟩)
      | .ok (base, obj) =>
        if sameApplication base obj then ([], none) else ([.patch live base obj], api.patch generated.name)

end One

/-! ## Batches -/

/-- the error that is returned for a batch: one of the context, else that of the first name in order -/
def firstAppError (errors : List (String × ApiError)) : Option String :=
  match errors.find? fun e => e.2.context with
  | some e => some e.2.text
  | none =>
    match (errors.map Prod.fst).insertionSort (· ≤ ·) with
    | [] => none
    | name :: _ => (errors.reverse.lookup name).map ApiError.text

/-- what a reconcile returns -/
structure Exit where
  requeueAfterMinutes : ℕ
  err : Option String
  deriving DecidableEq, Repr

abbrev Reconciling (Spec Operation : Type) := Script (Call Spec Operation) Exit

/-- a step that may fail with an error of its own -/
def check (wrap : String → String) : Option String → Reconciling Spec Operation Unit
  | none => pure ()
  | some e => .stop ⟨0, some (wrap e)⟩

/-- the calls of a batch, and its error -/
def batch (handle : Application Spec Operation → List (Call Spec Operation) × Option ApiError)
    (apps : List (Application Spec Operation)) : List (Call Spec Operation) × Option String :=
  (apps.flatMap fun app => (handle app).1,
    firstAppError (apps.filterMap fun app => (handle app).2.map fun e => (app.name, e)))

section Reconcile

variable (config : Config Spec Operation) (appset : ApplicationSet) (api : Api Spec Operation Template Param)
variable [DecidableEq Spec] [DecidableEq Operation]

def createOrUpdateInCluster (desired : List (Application Spec Operation)) : List (Call Spec Operation) × Option String :=
  match api.buildIgnoreDiffConfig with
  | .error e => ([], some ("failed to build ignore diff config: " ++ e))
  | .ok diffConfig => batch (createOrUpdate config appset api diffConfig)
      (desired.map fun app => { app with spec := config.normalizeSpec app.spec })

def createInCluster (desired : List (Application Spec Operation)) : List (Call Spec Operation) × Option String :=
  match api.list .create with
  | .error e => ([], some ("error getting current applications: error retrieving applications: " ++ e))
  | .ok current =>
    createOrUpdateInCluster config appset api (desired.filter fun app => app.name ∉ current.map Application.name)

/-- one application that is to be deleted; its resources finalizer is removed first when its destination is not valid -/
def deleteOne (app : Application Spec Operation) : List (Call Spec Operation) × Option ApiError :=
  let newFinalizers := app.finalizers.filter (· ≠ resourcesFinalizerName)
  if app.finalizers ≠ [] ∧ api.validDestination app.name = false ∧ newFinalizers.length ≠ app.finalizers.length then
    match api.removeFinalizer app.name with
    | some e => ([.removeFinalizer app], some ⟨"error updating finalizers: " ++ e.text, e.context⟩)
    | none => ([.removeFinalizer app, .delete { app with finalizers := newFinalizers }], api.delete app.name)
  else ([.delete app], api.delete app.name)

def deleteInCluster (desired : List (Application Spec Operation)) : List (Call Spec Operation) × Option String :=
  match api.listClusters with
  | some e => ([], some ("error listing clusters: " ++ e))
  | none =>
    match api.list .delete with
    | .error e => ([], some ("error getting current applications: error retrieving applications: " ++ e))
    | .ok current => batch (deleteOne api) (current.filter fun app => app.name ∉ desired.map Application.name)

/-- the calls of a batch, with a condition for its error -/
def runBatch (reason : String) (b : List (Call Spec Operation) × Option String) : Reconciling Spec Operation Unit :=
  match b.2 with
  | none => ⟨b.1, .ok ()⟩
  | some e => ⟨b.1 ++ [.errorCondition reason e], .error ⟨0, some e⟩⟩

/-- `getCurrentApplications`: the applications that the ApplicationSet controls -/
def currentApplications (wrap : String → String) (moment : Listing) :
    Reconciling Spec Operation (List (Application Spec Operation)) :=
  match api.list moment with
  | .error e => .stop ⟨0, some (wrap ("error retrieving applications: " ++ e))⟩
  | .ok apps => pure apps

/-! ### Deletion of the ApplicationSet -/

/-- the owner references of each application go, until an update fails -/
def release : List (Application Spec Operation) → Reconciling Spec Operation Unit
  | [] => pure ()
  | app :: apps => do
    .emit (.updateOwnerReferences { app with ownerReferences := [] })
    check (fun e => "error updating application: " ++ e) (api.updateOwnerReferences app.name)
    release apps

def removeOwnerReferencesOnDeleteAppSet : Reconciling Spec Operation Unit := do
  let apps ← currentApplications api (fun e => "error getting current applications for ApplicationSet: " ++ e)
    .ownerReferences
  release api apps

/-- applications that may not be deleted are let go -/
def releaseApplications : Reconciling Spec Operation Unit :=
  if (defaultPolicy config appset).allowDelete then pure () else removeOwnerReferencesOnDeleteAppSet api

def performReverseDeletion : Reconciling Spec Operation Unit :=
  match api.performReverseDeletion with
  | (apps, .error e) => ⟨apps.map .delete, .error ⟨0, some e⟩⟩
  | (apps, .ok true) => ⟨apps.map .delete, .error ⟨1, none⟩⟩
  | (apps, .ok false) => ⟨apps.map .delete, .ok ()⟩

def reverseDeletion : Reconciling Spec Operation Unit :=
  if appset.deletionOrderReversed then do
    let _ ← currentApplications api id .reconcile
    performReverseDeletion api
  else pure ()

/-- an ApplicationSet that is being deleted -/
def reconcileDeleted : Reconciling Spec Operation Unit := do
  releaseApplications config appset api
  reverseDeletion appset api
  check id api.updateFinalizer

/-! ### Generation -/

/-- the resources finalizer, for a reversed deletion order -/
def ensureFinalizer : Reconciling Spec Operation Unit :=
  if config.enableProgressiveSyncs && appset.deletionOrderReversed && !appset.hasFinalizer then
    check id api.updateFinalizer
  else pure ()

/-- an error condition, and another try after `ReconcileRequeueOnValidationError` -/
def retryLater {A : Type} (reason message : String) : Reconciling Spec Operation A :=
  ⟨[.errorCondition reason message], .error ⟨3, none⟩⟩

def generate : Reconciling Spec Operation (List (Application Spec Operation)) :=
  match generateApplications api.renderer appset.ns api.generators with
  | (_, some (reason, e)) => retryLater reason.text e
  | (generated, none) => pure generated

def validate (generated : List (Application Spec Operation)) : Reconciling Spec Operation ErrorsByApp :=
  match validateGeneratedApplications api.checks appset.name config.project generated with
  | .error e => retryLater "ApplicationValidationError" e
  | .ok errors => pure errors

/-- the statuses of a rolling sync are cleared where there is none, else the next applications are chosen -/
def progressiveSyncs : Reconciling Spec Operation Unit :=
  if config.enableProgressiveSyncs then
    if !appset.isRollingSync && appset.hasApplicationStatus then
      check (fun e => "failed to clear previous AppSet application statuses for " ++ appset.name ++ ": " ++ e)
        api.clearStatus
    else if appset.isRollingSync then
      if appset.stepsEmpty then retryLater "ApplicationSetRolloutError" "No steps defined for rollout"
      else check (fun e => "failed to perform progressive sync reconciliation for application set: " ++ e)
        api.performProgressiveSyncs
    else pure ()
  else if appset.hasApplicationStatus then
    check (fun e => "failed to clear AppSet application statuses when Progressive Sync is disabled for " ++
      appset.name ++ ": " ++ e) api.clearStatus
  else pure ()

/-! ### Changes -/

/-- the applications to create or update, in order -/
def validApplications (errors : ErrorsByApp) (generated : List (Application Spec Operation)) :
    List (Application Spec Operation) :=
  let valid := generated.filter fun app => app.qualifiedName ∉ errors
  let synced :=
    if config.enableProgressiveSyncs && appset.isRollingSync && !appset.stepsEmpty then
      valid.map fun app => { app with spec := (config.syncDesired app).1, operation := (config.syncDesired app).2 }
    else valid
  synced.insertionSort fun a b => a.name ≤ b.name

/-- the message for the errors of a validation: the last one by name -/
def validationMessage (errors : ErrorsByApp) : Option String :=
  match (errors.keys.insertionSort (· ≤ ·)).getLast? with
  | none => none
  | some name =>
    let message := (errors.lookup name).getD ""
    some (if errors.keys.length > 1 then message ++ " (and " ++ toString (errors.keys.length - 1) ++ " more)" else message)

def reportValidation (errors : ErrorsByApp) : Reconciling Spec Operation Unit :=
  match validationMessage errors with
  | none => pure ()
  | some message => .emit (.errorCondition "ApplicationValidationError" message)

def applyValid (validApps : List (Application Spec Operation)) : Reconciling Spec Operation Unit :=
  if (defaultPolicy config appset).allowUpdate then
    runBatch "UpdateApplicationError" (createOrUpdateInCluster config appset api validApps)
  else runBatch "CreateApplicationError" (createInCluster config appset api validApps)

/-- all that were generated count here, so that an application in an invalid state is kept -/
def deleteOthers (generated : List (Application Spec Operation)) : Reconciling Spec Operation Unit :=
  if (defaultPolicy config appset).allowDelete then
    runBatch "DeleteApplicationError" (deleteInCluster api generated)
  else pure ()

/-! ### The end -/

def updateResourcesStatus : Reconciling Spec Operation Unit := do
  let _ ← currentApplications api (fun e => "failed to get current applications for application set: " ++ e) .status
  check (fun e => "failed to update resources status for application set: " ++ e) api.updateResourcesStatus

/-- the annotation that asked for a refresh goes -/
def acknowledgeRefresh : Reconciling Spec Operation Unit :=
  match appset.refreshRequired, api.refresh with
  | true, some e => ⟨[.errorCondition "RefreshApplicationError" e], .error ⟨0, some e⟩⟩
  | _, _ => pure ()

def reportUpToDate (errors : ErrorsByApp) : Reconciling Spec Operation Unit :=
  if errors.keys = [] then check id api.upToDateCondition else pure ()

/-- an ApplicationSet that is not being deleted -/
def reconcileLive : Reconciling Spec Operation Unit := do
  check id api.migrateStatus
  ensureFinalizer config appset api
  let generated ← generate appset api
  let errors ← validate config appset api generated
  let _ ← currentApplications api (fun e => "failed to get current applications for application set: " ++ e) .reconcile
  progressiveSyncs config appset api
  reportValidation errors
  applyValid config appset api (validApplications config appset errors generated)
  deleteOthers config appset api generated
  updateResourcesStatus api
  acknowledgeRefresh appset api
  reportUpToDate api errors

/-- `Reconcile`, of an ApplicationSet that was found -/
def reconcile : Reconciling Spec Operation Unit :=
  if appset.deletionTimestamp then reconcileDeleted config appset api else reconcileLive config appset api

end Reconcile

/-! ## What each part may call -/

section Calls

variable {config : Config Spec Operation} {appset : ApplicationSet} {api : Api Spec Operation Template Param}
variable {call : Call Spec Operation}

/-- a step that writes nothing but conditions -/
def Quiet {A : Type} (o : Reconciling Spec Operation A) : Prop :=
  ∀ call ∈ o.calls, ∃ reason e, call = .errorCondition reason e

variable {A : Type} {desired generated : List (Application Spec Operation)} {errors : ErrorsByApp}

theorem Quiet.of_nil {o : Reconciling Spec Operation A} (h : o.calls = []) : Quiet o := by
  intro call hc
  rw [h] at hc
  cases hc

theorem quiet_pure (a : A) : Quiet (pure a : Reconciling Spec Operation A) := .of_nil rfl

theorem quiet_retryLater (reason message : String) : Quiet (retryLater reason message : Reconciling Spec Operation A) :=
  fun _ hc => ⟨reason, message, mem_singleton.1 hc⟩

variable (wrap : String → String) (err : Option String) (moment : Listing)

theorem calls_check : (check wrap err : Reconciling Spec Operation Unit).calls = [] := by
  cases err <;> rfl

theorem quiet_check : Quiet (check wrap err : Reconciling Spec Operation Unit) := .of_nil (calls_check wrap err)

theorem calls_currentApplications : (currentApplications api wrap moment).calls = [] := by
  unfold currentApplications
  cases api.list moment <;> rfl

theorem quiet_currentApplications : Quiet (currentApplications api wrap moment) :=
  .of_nil (calls_currentApplications wrap moment)

theorem quiet_ensureFinalizer : Quiet (ensureFinalizer config appset api) := by
  unfold ensureFinalizer
  split_ifs
  · exact quiet_check _ _
  · exact quiet_pure ()

theorem quiet_generate : Quiet (generate appset api) := by
  unfold generate
  split
  · exact quiet_retryLater _ _
  · exact quiet_pure _

theorem quiet_validate (generated : List (Application Spec Operation)) :
    Quiet (validate config appset api generated) := by
  unfold validate
  split
  · exact quiet_retryLater _ _
  · exact quiet_pure _

theorem quiet_progressiveSyncs : Quiet (progressiveSyncs config appset api) := by
  unfold progressiveSyncs
  split_ifs
  · exact quiet_check _ _
  · exact quiet_retryLater _ _
  · exact quiet_check _ _
  · exact quiet_pure ()
  · exact quiet_check _ _
  · exact quiet_pure ()

theorem quiet_reportValidation (errors : ErrorsByApp) :
    Quiet (reportValidation errors : Reconciling Spec Operation Unit) := by
  unfold reportValidation
  split
  · exact quiet_pure ()
  · exact fun _ hc => ⟨_, _, mem_singleton.1 hc⟩

theorem Quiet.bind {B : Type} {o : Reconciling Spec Operation A} {f : A → Reconciling Spec Operation B} (ho : Quiet o)
    (hf : ∀ a, Quiet (f a)) : Quiet (o >>= f) := by
  intro call hc
  rcases mem_calls_bind.1 hc with h | ⟨a, _, h⟩
  · exact ho call h
  · exact hf a call h

theorem quiet_finish (errors : ErrorsByApp) : Quiet (do
    updateResourcesStatus api
    acknowledgeRefresh appset api
    reportUpToDate api errors) := by
  refine Quiet.bind ?_ fun _ => Quiet.bind ?_ fun _ => ?_
  · exact Quiet.bind (quiet_currentApplications _ _) fun _ => quiet_check _ _
  · unfold acknowledgeRefresh
    split
    · exact fun _ hc => ⟨_, _, mem_singleton.1 hc⟩
    · exact quiet_pure ()
  · unfold reportUpToDate
    split_ifs
    · exact quiet_check _ _
    · exact quiet_pure ()

theorem mem_performReverseDeletion (h : call ∈ (performReverseDeletion api).calls) : ∃ app, call = .delete app := by
  have hc : (performReverseDeletion api).calls = api.performReverseDeletion.1.map .delete := by
    unfold performReverseDeletion
    split <;> next he => rw [he]
  rw [hc] at h
  obtain ⟨app, _, rfl⟩ := mem_map.1 h
  exact ⟨app, rfl⟩

theorem mem_release {apps : List (Application Spec Operation)} (h : call ∈ (release api apps).calls) :
    ∃ app ∈ apps, call = .updateOwnerReferences { app with ownerReferences := [] } := by
  induction apps with
  | nil => cases h
  | cons app apps ih =>
    rcases mem_calls_bind.1 h with h | ⟨_, _, h⟩
    · exact ⟨app, mem_cons_self, mem_singleton.1 h⟩
    rcases mem_calls_bind.1 h with h | ⟨_, _, h⟩
    · rw [calls_check] at h
      cases h
    · obtain ⟨app', hm, hc⟩ := ih h
      exact ⟨app', mem_cons_of_mem _ hm, hc⟩

/-- an ApplicationSet that is being deleted lets its applications go if it may not delete them, and deletes in reverse
order -/
theorem mem_reconcileDeleted (h : call ∈ (reconcileDeleted config appset api).calls) :
    ((defaultPolicy config appset).allowDelete = false ∧ ∃ current, api.list .ownerReferences = .ok current ∧
      ∃ app ∈ current, call = .updateOwnerReferences { app with ownerReferences := [] }) ∨
    appset.deletionOrderReversed = true ∧ ∃ app, call = .delete app := by
  rcases mem_calls_bind.1 h with h | ⟨_, _, h⟩
  · unfold releaseApplications at h
    split_ifs at h with ha
    · cases h
    · rcases mem_calls_bind.1 h with h | ⟨current, hl, h⟩
      · rw [calls_currentApplications] at h
        cases h
      · refine .inl ⟨by simpa using ha, current, ?_, mem_release h⟩
        unfold currentApplications at hl
        split at hl
        · cases hl
        · next he => exact he.trans (congrArg _ (Except.ok.inj hl))
  rcases mem_calls_bind.1 h with h | ⟨_, _, h⟩
  · unfold reverseDeletion at h
    split_ifs at h with hr
    · rcases mem_calls_bind.1 h with h | ⟨_, _, h⟩
      · rw [calls_currentApplications] at h
        cases h
      · exact .inr ⟨hr, mem_performReverseDeletion h⟩
    · cases h
  · rw [calls_check] at h
    cases h

theorem generate_ok (h : (generate appset api).result = .ok generated) :
    generateApplications api.renderer appset.ns api.generators = (generated, none) := by
  unfold generate at h
  split at h
  · cases h
  · next hg =>
    cases h
    exact hg

theorem validate_ok (h : (validate config appset api generated).result = .ok errors) :
    validateGeneratedApplications api.checks appset.name config.project generated = .ok errors := by
  unfold validate at h
  split at h
  · cases h
  · next hv =>
    cases h
    exact hv

theorem mem_runBatch {reason : String} {b : List (Call Spec Operation) × Option String}
    (h : call ∈ (runBatch reason b).calls) : call ∈ b.1 ∨ ∃ e, call = .errorCondition reason e := by
  unfold runBatch at h
  split at h
  · exact .inl h
  · next e _ =>
    rcases mem_append.1 h with h | h
    · exact .inl h
    · exact .inr ⟨e, mem_singleton.1 h⟩

theorem mutate_key {generated found obj : Application Spec Operation} (h : mutate config appset generated found = .ok obj) :
    obj.ns = generated.ns ∧ obj.name = generated.name := by
  unfold mutate at h
  split at h
  · cases h
  · split_ifs at h with hk
    cases h
    exact hk

theorem applyIgnoreDifferences_key {diffConfig : Option (IgnoreDiffConfig Spec Operation)}
    {found generated live target : Application Spec Operation}
    (h : applyIgnoreDifferences diffConfig found generated = .ok (live, target)) :
    target.ns = generated.ns ∧ target.name = generated.name := by
  unfold applyIgnoreDifferences at h
  split at h
  · cases h
    exact ⟨rfl, rfl⟩
  · split at h
    · cases h
    · cases h
      exact ⟨rfl, rfl⟩

theorem mem_deleteOne {app : Application Spec Operation} (h : call ∈ (deleteOne api app).1) :
    (∃ finalizers, call = .delete { app with finalizers }) ∨
    call = .removeFinalizer app ∧ api.validDestination app.name = false ∧ resourcesFinalizerName ∈ app.finalizers := by
  unfold deleteOne at h
  dsimp only at h
  split_ifs at h with hr
  · have hfi : resourcesFinalizerName ∈ app.finalizers := by
      by_contra hn
      refine hr.2.2 (congrArg List.length (filter_eq_self.2 fun f hf => decide_eq_true ?_))
      exact fun heq => hn (heq ▸ hf)
    split at h
    · exact .inr ⟨mem_singleton.1 h, hr.2.1, hfi⟩
    · rcases mem_cons.1 h with h | h
      · exact .inr ⟨h, hr.2.1, hfi⟩
      · exact .inl ⟨_, mem_singleton.1 h⟩
  · exact .inl ⟨app.finalizers, mem_singleton.1 h⟩

theorem mem_deleteInCluster (h : call ∈ (deleteInCluster api desired).1) :
    ∃ current, api.list .delete = .ok current ∧ ∃ app ∈ current, (∀ other ∈ desired, other.name ≠ app.name) ∧
      call ∈ (deleteOne api app).1 := by
  unfold deleteInCluster at h
  split at h
  · cases h
  split at h
  · cases h
  · next current hl =>
    obtain ⟨app, hm, hca⟩ := mem_flatMap.1 h
    obtain ⟨ha, hn⟩ := mem_filter.1 hm
    refine ⟨current, hl, app, ha, fun other ho heq => of_decide_eq_true hn ?_, hca⟩
    exact heq ▸ mem_map_of_mem ho

theorem mem_validApplications {app : Application Spec Operation}
    (h : app ∈ validApplications config appset errors generated) :
    ∃ g ∈ generated, g.qualifiedName ∉ errors ∧ app.ns = g.ns ∧ app.name = g.name := by
  unfold validApplications at h
  rw [mem_insertionSort] at h
  split_ifs at h
  · obtain ⟨g, hg, rfl⟩ := mem_map.1 h
    obtain ⟨hm, hgo⟩ := mem_filter.1 hg
    exact ⟨g, hm, of_decide_eq_true hgo, rfl, rfl⟩
  · obtain ⟨hm, hgo⟩ := mem_filter.1 h
    exact ⟨app, hm, of_decide_eq_true hgo, rfl, rfl⟩

theorem mem_deleteOthers (h : call ∈ (deleteOthers config appset api generated).calls) :
    (∃ reason e, call = .errorCondition reason e) ∨
    (defaultPolicy config appset).allowDelete = true ∧ call ∈ (deleteInCluster api generated).1 := by
  unfold deleteOthers at h
  split_ifs at h with hd
  · rcases mem_runBatch h with h | ⟨e, h⟩
    · exact .inr ⟨hd, h⟩
    · exact .inl ⟨_, e, h⟩
  · cases h

variable [DecidableEq Spec] [DecidableEq Operation]

/-- an application is created where none was found, and patched where one was found that this ApplicationSet may control -/
theorem mem_createOrUpdate {diffConfig : Option (IgnoreDiffConfig Spec Operation)} {generated : Application Spec Operation}
    (h : call ∈ (createOrUpdate config appset api diffConfig generated).1) :
    (∃ app, call = .create app ∧ app.ns = generated.ns ∧ app.name = generated.name ∧
      api.get generated.name = .ok none) ∨
    ∃ live base app, call = .patch live base app ∧ app.ns = generated.ns ∧ app.name = generated.name ∧
      api.get generated.name = .ok (some live) ∧ ∃ obj, mutate config appset generated live = .ok obj := by
  unfold createOrUpdate at h
  split at h
  · cases h
  · next hg =>
    split at h
    · cases h
    · next obj hm =>
      obtain ⟨hns, hn⟩ := mutate_key hm
      exact .inl ⟨obj, mem_singleton.1 h, hns, hn, hg⟩
  · next live hg =>
    split at h
    · cases h
    · next obj hm =>
      split at h
      · cases h
      · next hd =>
        split_ifs at h
        · cases h
        · obtain ⟨hns, hn⟩ := applyIgnoreDifferences_key hd
          obtain ⟨hns', hn'⟩ := mutate_key hm
          exact .inr ⟨live, _, _, mem_singleton.1 h, hns.trans hns', hn.trans hn', hg, obj, hm⟩

theorem mem_createOrUpdateInCluster (h : call ∈ (createOrUpdateInCluster config appset api desired).1) :
    ∃ app ∈ desired, ∃ diffConfig,
      call ∈ (createOrUpdate config appset api diffConfig { app with spec := config.normalizeSpec app.spec }).1 := by
  unfold createOrUpdateInCluster at h
  split at h
  · cases h
  · next diffConfig _ =>
    obtain ⟨_, hm, hca⟩ := mem_flatMap.1 h
    obtain ⟨app, ha, rfl⟩ := mem_map.1 hm
    exact ⟨app, ha, diffConfig, hca⟩

theorem mem_createInCluster (h : call ∈ (createInCluster config appset api desired).1) :
    ∃ current, api.list .create = .ok current ∧ call ∈ (createOrUpdateInCluster config appset api
      (desired.filter fun app => app.name ∉ current.map Application.name)).1 := by
  unfold createInCluster at h
  split at h
  · cases h
  · next current hl => exact ⟨current, hl, h⟩

theorem mem_applyValid {validApps : List (Application Spec Operation)}
    (h : call ∈ (applyValid config appset api validApps).calls) : (∃ reason e, call = .errorCondition reason e) ∨
    (defaultPolicy config appset).allowUpdate = true ∧ call ∈ (createOrUpdateInCluster config appset api validApps).1 ∨
    (defaultPolicy config appset).allowUpdate = false ∧ call ∈ (createInCluster config appset api validApps).1 := by
  unfold applyValid at h
  split_ifs at h with hu
  · rcases mem_runBatch h with h | ⟨e, h⟩
    · exact .inr (.inl ⟨hu, h⟩)
    · exact .inl ⟨_, e, h⟩
  · rcases mem_runBatch h with h | ⟨e, h⟩
    · exact .inr (.inr ⟨by simpa using hu, h⟩)
    · exact .inl ⟨_, e, h⟩

/-- **What is called for an ApplicationSet that is not being deleted.** Nothing but conditions is written before the
generation and the validation went through. -/
theorem mem_reconcileLive (h : call ∈ (reconcileLive config appset api).calls) :
    (∃ reason e, call = .errorCondition reason e) ∨
    ∃ generated errors, generateApplications api.renderer appset.ns api.generators = (generated, none) ∧
      validateGeneratedApplications api.checks appset.name config.project generated = .ok errors ∧
      (call ∈ (applyValid config appset api (validApplications config appset errors generated)).calls ∨
        call ∈ (deleteOthers config appset api generated).calls) := by
  rcases mem_calls_bind.1 h with h | ⟨_, _, h⟩
  · exact .inl (quiet_check _ _ call h)
  rcases mem_calls_bind.1 h with h | ⟨_, _, h⟩
  · exact .inl (quiet_ensureFinalizer call h)
  rcases mem_calls_bind.1 h with h | ⟨generated, hg, h⟩
  · exact .inl (quiet_generate call h)
  rcases mem_calls_bind.1 h with h | ⟨errors, hv, h⟩
  · exact .inl (quiet_validate generated call h)
  rcases mem_calls_bind.1 h with h | ⟨_, _, h⟩
  · exact .inl (quiet_currentApplications _ _ call h)
  rcases mem_calls_bind.1 h with h | ⟨_, _, h⟩
  · exact .inl (quiet_progressiveSyncs call h)
  rcases mem_calls_bind.1 h with h | ⟨_, _, h⟩
  · exact .inl (quiet_reportValidation errors call h)
  rcases mem_calls_bind.1 h with h | ⟨_, _, h⟩
  · exact .inr ⟨generated, errors, generate_ok hg, validate_ok hv, .inl h⟩
  rcases mem_calls_bind.1 h with h | ⟨_, _, h⟩
  · exact .inr ⟨generated, errors, generate_ok hg, validate_ok hv, .inr h⟩
  · exact .inl (quiet_finish errors call h)

end Calls

end GitOpsDeploy.AppSet.Reconciler
