/-
Generation and validation of the applications of an ApplicationSet (`generators.Transform`, `template.GenerateApplications`,
`validateGeneratedApplications`).

What the generators, the template renderer, the API server and the cluster database answer is an input. Errors are collected
over nested loops while the results that were good keep accumulating; the first error is returned with all of them.
-/
import Mathlib.Data.List.AList
import Mathlib.Data.Finmap
import GitOpsDeploy.Core.Trace

namespace GitOpsDeploy.AppSet.Reconciler

open List

/-! ## Applications -/

structure OwnerReference where
  apiVersion : String
  kind : String
  name : String
  uid : String
  controller : Bool
  blockOwnerDeletion : Bool
  deriving DecidableEq, Repr

abbrev StringMap := Finmap fun _ : String => String

/-- an application, generated or in the cluster; `Spec` is its spec, `Operation` an operation that is requested -/
structure Application (Spec Operation : Type) where
  ns : String
  name : String
  spec : Spec
  labels : StringMap
  annotations : StringMap
  finalizers : List String
  ownerReferences : List OwnerReference
  operation : Option Operation

variable {Spec Operation Template Param : Type}

def Application.qualifiedName (app : Application Spec Operation) : String :=
  if app.ns = "" then app.name else app.ns ++ "/" ++ app.name

/-! ## Generators -/

/-- one parameter set of a generator: flattening it fails, or gives labels that match the selector or not -/
structure ParamRun (Param : Type) where
  param : Param
  flat : Except String Bool

/-- one generator of a request -/
structure GeneratorRun (Template Param : Type) where
  mergedTemplate : Except String Template
  params : Except String (List (ParamRun Param))

/-- one entry of the spec: the error of its selector, and the generators that are relevant to it -/
structure Request (Template Param : Type) where
  selectorError : Option String
  generators : List (GeneratorRun Template Param)

/-- the error that was first -/
def firstError (first : Option String) (err : String) : Option String := some (first.getD err)

/-- the loop over the parameter sets of a generator -/
def filterParams (params : List (ParamRun Param)) (err : Option String) : List Param × Option String :=
  params.foldl (fun (res, err) p =>
    match p.flat with
    | .error e => (res, firstError err e)
    | .ok true => (res ++ [p.param], err)
    | .ok false => (res, err)) ([], err)

def transform (requested : Request Template Param) : List (Template × List Param) × Option String :=
  match requested.selectorError with
  | some e => ([], some ("error parsing label selector: " ++ e))
  | none =>
    requested.generators.foldl (fun (res, err) g =>
      match g.mergedTemplate with
      | .error e => (res, firstError err e)
      | .ok template =>
        match g.params with
        | .error e => (res, firstError err e)
        | .ok params =>
          let (filtered, err) := filterParams params err
          (res ++ [(template, filtered)], err)) ([], none)

structure Renderer (Spec Operation Template Param : Type) where
  renderTemplateParams : Template → Param → Except String (Application Spec Operation)
  /-- with the template patch, where the ApplicationSet has one -/
  renderTemplatePatch : Option (Application Spec Operation → Param → Except String (Application Spec Operation))

inductive GenerationReason where
  | paramsGeneration
  | renderTemplateParams
  deriving DecidableEq, Repr

def GenerationReason.text : GenerationReason → String
  | .paramsGeneration => "ApplicationGenerationFromParamsError"
  | .renderTemplateParams => "RenderTemplateParamsError"

variable (r : Renderer Spec Operation Template Param)

def Renderer.render (template : Template) (p : Param) : Except String (Application Spec Operation) :=
  match r.renderTemplateParams template p with
  | .error e => .error e
  | .ok app =>
    match r.renderTemplatePatch with
    | none => .ok app
    | some patch => patch app p

/-- the error that was first, with its reason -/
def firstFailure (first : Option (GenerationReason × String)) (reason : GenerationReason) (err : String) :
    Option (GenerationReason × String) :=
  some (first.getD (reason, err))

abbrev Generated (Spec Operation : Type) := List (Application Spec Operation) × Option (GenerationReason × String)

/-- the loop over the templates and parameter sets of one request -/
def renderAll (ns : String) (t : List (Template × List Param))
    (acc : Generated Spec Operation) : Generated Spec Operation :=
  t.foldl (fun acc a => a.2.foldl (fun (res, err) p =>
    match r.render a.1 p with
    | .error e => (res, firstFailure err .renderTemplateParams e)
    | .ok app => (res ++ [{ app with ns }], err)) acc) acc

def generateApplications (ns : String) (requests : List (Request Template Param)) : Generated Spec Operation :=
  requests.foldl (fun acc requested =>
    match transform requested with
    | (_, some e) => (acc.1, firstFailure acc.2 .paramsGeneration e)
    | (t, none) => renderAll r ns t acc) ([], none)

/-! ## What a generation without an error says -/

/-- nothing failed: the selector, the merged template, the parameters, their labels, and what is rendered from them -/
def GeneratorRun.Clean (g : GeneratorRun Template Param) : Prop :=
  ∃ template params, g.mergedTemplate = .ok template ∧ g.params = .ok params ∧
    ∀ p ∈ params, ∃ selected, p.flat = .ok selected ∧
      (selected = true → ∃ app, r.render template p.param = .ok app)

def Request.Clean (requested : Request Template Param) : Prop :=
  requested.selectorError = none ∧ ∀ g ∈ requested.generators, g.Clean r

theorem firstError_ne_none (first : Option String) (err : String) : firstError first err ≠ none := Option.some_ne_none _

theorem firstFailure_ne_none (first : Option (GenerationReason × String)) (reason : GenerationReason) (err : String) :
    firstFailure first reason err ≠ none := Option.some_ne_none _

theorem filterParams_clean {params : List (ParamRun Param)} {err : Option String} (h : (filterParams params err).2 = none) :
    err = none ∧ ∀ p ∈ params, ∃ selected, p.flat = .ok selected ∧
      (selected = true → p.param ∈ (filterParams params err).1) := by
  refine Trace.foldl_clean (fun s : List Param × Option String => s.2 = none)
    (fun (p : ParamRun Param) s => ∃ selected, p.flat = .ok selected ∧ (selected = true → p.param ∈ s.1))
    ?_ ?_ params ([], err) h
  · rintro ⟨res, err⟩ p hc
    cases hf : p.flat with
    | error e =>
      rw [hf] at hc
      exact absurd hc (firstError_ne_none err e)
    | ok selected =>
      cases selected with
      | false =>
        rw [hf] at hc
        exact ⟨hc, false, rfl, nofun⟩
      | true =>
        rw [hf] at hc
        exact ⟨hc, true, rfl, fun _ => mem_append_right _ (mem_singleton_self _)⟩
  · rintro ⟨res, err⟩ p q ⟨selected, hf, hm⟩
    refine ⟨selected, hf, fun hs => ?_⟩
    have hq := hm hs
    cases p.flat with
    | error e => exact hq
    | ok keep => cases keep with
      | false => exact hq
      | true => exact mem_append_left _ hq

theorem transform_clean {requested : Request Template Param} (h : (transform requested).2 = none) :
    requested.selectorError = none ∧ ∀ g ∈ requested.generators, ∃ template params filtered,
      g.mergedTemplate = .ok template ∧ g.params = .ok params ∧ (template, filtered) ∈ (transform requested).1 ∧
      ∀ p ∈ params, ∃ selected, p.flat = .ok selected ∧ (selected = true → p.param ∈ filtered) := by
  unfold transform at h ⊢
  cases hs : requested.selectorError with
  | some e =>
    rw [hs] at h
    cases h
  | none =>
    rw [hs] at h
    refine ⟨rfl, (Trace.foldl_clean (fun s : List (Template × List Param) × Option String => s.2 = none)
      (fun (g : GeneratorRun Template Param) s => ∃ template params filtered,
        g.mergedTemplate = .ok template ∧ g.params = .ok params ∧ (template, filtered) ∈ s.1 ∧
        ∀ p ∈ params, ∃ selected, p.flat = .ok selected ∧ (selected = true → p.param ∈ filtered))
      ?_ ?_ requested.generators ([], none) h).2⟩
    · rintro ⟨res, err⟩ g hc
      cases ht : g.mergedTemplate with
      | error e =>
        rw [ht] at hc
        exact absurd hc (firstError_ne_none err e)
      | ok template =>
        cases hpa : g.params with
        | error e =>
          rw [ht, hpa] at hc
          exact absurd hc (firstError_ne_none err e)
        | ok params =>
          rw [ht, hpa] at hc
          obtain ⟨he, hp⟩ := filterParams_clean hc
          exact ⟨he, template, params, _, rfl, rfl, mem_append_right _ (mem_singleton_self _), hp⟩
    · rintro ⟨res, err⟩ g g' ⟨template, params, filtered, ht, hpa, hm, hp⟩
      refine ⟨template, params, filtered, ht, hpa, ?_, hp⟩
      cases g.mergedTemplate with
      | error e => exact hm
      | ok template => cases g.params with
        | error e => exact hm
        | ok params => exact mem_append_left _ hm

theorem renderAll_clean {r : Renderer Spec Operation Template Param} {ns : String} {t : List (Template × List Param)}
    {acc : Generated Spec Operation} (h : (renderAll r ns t acc).2 = none) :
    acc.2 = none ∧ ∀ a ∈ t, ∀ p ∈ a.2, ∃ app, r.render a.1 p = .ok app := by
  refine Trace.foldl_clean (fun s : Generated Spec Operation => s.2 = none)
    (fun (a : Template × List Param) _ => ∀ p ∈ a.2, ∃ app, r.render a.1 p = .ok app) ?_ (fun _ _ _ hg => hg) t acc h
  intro acc a hc
  refine Trace.foldl_clean (fun s : Generated Spec Operation => s.2 = none)
    (fun (p : Param) _ => ∃ app, r.render a.1 p = .ok app) ?_ (fun _ _ _ hg => hg) a.2 acc hc
  rintro ⟨res, err⟩ p hc
  cases hr : r.render a.1 p with
  | error e =>
    rw [hr] at hc
    exact absurd hc (firstFailure_ne_none err _ e)
  | ok app =>
    rw [hr] at hc
    exact ⟨hc, app, rfl⟩

/-- **No error is returned only if there was none anywhere.** -/
theorem generateApplications_clean {r : Renderer Spec Operation Template Param} {ns : String}
    {requests : List (Request Template Param)} (h : (generateApplications r ns requests).2 = none) :
    ∀ requested ∈ requests, requested.Clean r := by
  refine (Trace.foldl_clean (fun s : Generated Spec Operation => s.2 = none)
    (fun (requested : Request Template Param) _ => requested.Clean r) ?_ (fun _ _ _ hg => hg) requests ([], none) h).2
  intro acc requested hc
  cases ht : transform requested with
  | mk t err =>
    rw [ht] at hc
    cases err with
    | some e => exact absurd hc (firstFailure_ne_none acc.2 _ e)
    | none =>
      obtain ⟨ha, hr⟩ := renderAll_clean hc
      obtain ⟨hse, hg⟩ := transform_clean (congrArg Prod.snd ht)
      refine ⟨ha, hse, fun g hm => ?_⟩
      obtain ⟨template, params, filtered, hte, hpa, hin, hp⟩ := hg g hm
      refine ⟨template, params, hte, hpa, fun p hpm => ?_⟩
      obtain ⟨selected, hfl, hf⟩ := hp p hpm
      rw [ht] at hin
      exact ⟨selected, hfl, fun hs => hr _ hin p.param (hf hs)⟩

/-- every application gets the namespace of the ApplicationSet -/
theorem ns_of_generated (ns : String) (requests : List (Request Template Param)) :
    ∀ app ∈ (generateApplications r ns requests).1, app.ns = ns := by
  refine List.foldlRecOn (motive := fun s : Generated Spec Operation => ∀ app ∈ s.1, app.ns = ns) requests _
    (fun app h => absurd h not_mem_nil) fun acc ha requested _ => ?_
  cases transform requested with
  | mk t err =>
    cases err with
    | some e => exact ha
    | none =>
      refine List.foldlRecOn (motive := fun s : Generated Spec Operation => ∀ app ∈ s.1, app.ns = ns) t _ ha
        fun acc ha a _ => ?_
      refine List.foldlRecOn (motive := fun s : Generated Spec Operation => ∀ app ∈ s.1, app.ns = ns) a.2 _ ha
        fun acc ha p _ => ?_
      cases r.render a.1 p with
      | error e => exact ha
      | ok app =>
        intro app' hm
        rcases mem_append.1 hm with h | h
        · exact ha app' h
        · rw [mem_singleton.1 h]

/-! ## Validation -/

inductive ProjectAnswer where
  | found
  | notFound
  | error (text : String)
  deriving DecidableEq, Repr

/-- the answers for the i-th generated application: its project, and the error of its destination -/
structure Checks where
  project : ℕ → ProjectAnswer
  destination : ℕ → Option String

abbrev ErrorsByApp := AList fun _ : String => String

/-- one turn of the loop; i is the index of the application, names are those seen before -/
def validateOne (checks : Checks) (appset : String) (project : Spec → String) (names : List String) (i : ℕ)
    (app : Application Spec Operation) : Except String (Option String) :=
  if app.name ∈ names then
    .ok (some ("ApplicationSet " ++ appset ++ " contains applications with duplicate name: " ++ app.name))
  else
    match checks.project i with
    | .notFound => .ok (some ("application references project " ++ project app.spec ++ " which does not exist"))
    | .error e => .error e
    | .found => .ok ((checks.destination i).map fun e => "application destination spec is invalid: " ++ e)

def validateFrom (checks : Checks) (appset : String) (project : Spec → String) :
    ℕ → List String → ErrorsByApp → List (Application Spec Operation) → Except String ErrorsByApp
  | _, _, errors, [] => .ok errors
  | i, names, errors, app :: apps =>
    match validateOne checks appset project names i app with
    | .error e => .error e
    | .ok none => validateFrom checks appset project (i + 1) (app.name :: names) errors apps
    | .ok (some e) =>
      validateFrom checks appset project (i + 1) (app.name :: names) (errors.insert app.qualifiedName e) apps

def validateGeneratedApplications (checks : Checks) (appset : String) (project : Spec → String)
    (apps : List (Application Spec Operation)) : Except String ErrorsByApp :=
  validateFrom checks appset project 0 [] ∅ apps

section Validation

variable {checks : Checks} {appset : String} {project : Spec → String}

theorem validateOne_none {names : List String} {i : ℕ} {app : Application Spec Operation}
    (h : validateOne checks appset project names i app = .ok none) :
    app.name ∉ names ∧ checks.project i = .found ∧ checks.destination i = none := by
  unfold validateOne at h
  split_ifs at h with hn
  · cases h
  · split at h
    · cases h
    · cases h
    · next hp => exact ⟨hn, hp, Option.map_eq_none_iff.1 (Except.ok.inj h)⟩

/-- an application without an error was not seen before and passed the checks -/
def Passed (checks : Checks) (i : ℕ) (names : List String) (errors : ErrorsByApp)
    (apps : List (Application Spec Operation)) : Prop :=
  ∀ j app, apps[j]? = some app → app.qualifiedName ∉ errors →
    app.name ∉ names ∧ (∀ k < j, ∀ other, apps[k]? = some other → other.name ≠ app.name) ∧
      checks.project (i + j) = .found ∧ checks.destination (i + j) = none

theorem validateFrom_spec {apps : List (Application Spec Operation)} {i : ℕ} {names : List String}
    {errors errors' : ErrorsByApp} (h : validateFrom checks appset project i names errors apps = .ok errors') :
    (∀ q ∈ errors, q ∈ errors') ∧ Passed checks i names errors' apps := by
  induction apps generalizing i names errors with
  | nil =>
    cases h
    exact ⟨fun q hq => hq, fun j app hj => absurd hj (by simp)⟩
  | cons first rest ih =>
    -- what the rest of the loop says, once the first turn is known not to have lost an error
    have key : ∀ errors₁ : ErrorsByApp, (∀ q ∈ errors, q ∈ errors₁) →
        validateFrom checks appset project (i + 1) (first.name :: names) errors₁ rest = .ok errors' →
        (first.qualifiedName ∉ errors' → validateOne checks appset project names i first = .ok none) →
        (∀ q ∈ errors, q ∈ errors') ∧ Passed checks i names errors' (first :: rest) := by
      intro errors₁ hs hr hf
      obtain ⟨hke, ha⟩ := ih hr
      refine ⟨fun q hq => hke q (hs q hq), fun j app hj hg => ?_⟩
      cases j with
      | zero =>
        cases hj
        obtain ⟨hn, hp, hd⟩ := validateOne_none (hf hg)
        exact ⟨hn, nofun, hp, hd⟩
      | succ j =>
        obtain ⟨hn, hb, hp, hd⟩ := ha j app hj hg
        rw [mem_cons, not_or] at hn
        rw [Nat.add_right_comm] at hp hd
        refine ⟨hn.2, fun k hk other ho => ?_, hp, hd⟩
        cases k with
        | zero =>
          cases ho
          exact fun heq => hn.1 heq.symm
        | succ k => exact hb k (Nat.lt_of_succ_lt_succ hk) other ho
    unfold validateFrom at h
    split at h
    · cases h
    · next hon => exact key errors (fun q hq => hq) h fun _ => hon
    · have hin : first.qualifiedName ∈ errors' := (ih h).1 _ (AList.mem_insert _ |>.2 (.inl rfl))
      exact key _ (fun q hq => (AList.mem_insert _).2 (.inr hq)) h fun hg => absurd hin hg

/-- **An application without an error** is the only one of its name, and passed the checks. -/
theorem validate_unique {apps : List (Application Spec Operation)} {errors : ErrorsByApp} {ns : String}
    (hns : ∀ app ∈ apps, app.ns = ns)
    (h : validateGeneratedApplications checks appset project apps = .ok errors) {app : Application Spec Operation}
    (hm : app ∈ apps) (hg : app.qualifiedName ∉ errors) :
    ∃ i, apps[i]? = some app ∧ (∀ j other, apps[j]? = some other → other.name = app.name → j = i) ∧
      checks.project i = .found ∧ checks.destination i = none := by
  obtain ⟨_, ha⟩ := validateFrom_spec h
  obtain ⟨i, hi⟩ := List.mem_iff_getElem?.1 hm
  obtain ⟨_, hb, hp, hd⟩ := ha i app hi hg
  rw [Nat.zero_add] at hp hd
  refine ⟨i, hi, fun j other hj hn => ?_, hp, hd⟩
  have ho : other.qualifiedName ∉ errors := by
    have hq : other.qualifiedName = app.qualifiedName := by
      unfold Application.qualifiedName
      rw [hn, hns other (List.mem_of_getElem? hj), hns app hm]
    rwa [hq]
  rcases Nat.lt_trichotomy j i with hlt | heq | hgt
  · exact absurd hn (hb j hlt other hj)
  · exact heq
  · exact absurd hn.symm ((ha j other hj ho).2.1 i hgt app hi)

end Validation

end GitOpsDeploy.AppSet.Reconciler
