/-
Access to applications through the API server (`getAppEnforceRBAC` and its callers that look an application up, in
`server/application/application.go`).

A request names an application and, if it wants to, the project. What a request learns about an application that the user may
not act on is whether it named the project it has access to, never whether the application exists.
-/
import Mathlib.Tactic

namespace GitOpsDeploy.Api

/-! ## Applications and errors -/

structure Application where
  name : String
  ns : String
  /-- `Spec.Project` -/
  project : String

def Application.getProject (a : Application) : String := if a.project = "" then "default" else a.project

/-- the object of a request, in a backwards-compatible form -/
def rbacName (defaultNS project ns name : String) : String :=
  if defaultNS ≠ "" ∧ ns ≠ defaultNS ∧ ns ≠ "" then project ++ "/" ++ ns ++ "/" ++ name else project ++ "/" ++ name

def Application.rbacName (a : Application) (defaultNS : String) : String := Api.rbacName defaultNS a.getProject a.ns a.name

inductive Code where
  | permissionDenied
  | notFound
  | invalidArgument
  deriving DecidableEq

structure ApiError where
  code : Code
  message : String
  deriving DecidableEq

def permissionDeniedAPIError : ApiError := ⟨.permissionDenied, "permission denied"⟩

def notFoundError (name : String) : ApiError := ⟨.notFound, "applications.apps.hanzo.ai \"" ++ name ++ "\" not found"⟩

inductive LookupError where
  | notFound
  | other (message : String)

/-! ## The server -/

/-- the server, as it is to one user: `enforce` are the user's decisions on applications -/
structure Server (Proj : Type) where
  ns : String
  isNamespaceEnabled : String → Bool
  enforce : (action object : String) → Bool
  getAppProject : Application → Except ApiError Proj

/-- an application can be returned with the error of its project -/
structure Returned (Proj : Type) where
  app : Option Application
  proj : Option Proj
  err : Option ApiError

def Returned.refused {Proj : Type} (err : ApiError) : Returned Proj := ⟨none, none, some err⟩

/-- the applications by namespace and name; a failed lookup has an error of its own -/
structure Cluster where
  applications : String → String → Option Application
  lookupError : Option String
  keyed : ∀ ns name a, applications ns name = some a → a.ns = ns ∧ a.name = name

variable {Proj : Type} (s : Server Proj) (k : Cluster) (action project ns name : String)

namespace Server

def getAppEnforceRBAC (getApp : Except LookupError Application) : Returned Proj :=
  if project ≠ "" ∧ s.enforce action (rbacName s.ns project ns name) = false then .refused permissionDeniedAPIError
  else
    match getApp with
    | .error .notFound => .refused (if project ≠ "" then notFoundError name else permissionDeniedAPIError)
    | .error (.other _) => .refused permissionDeniedAPIError
    | .ok a =>
      if s.enforce action (a.rbacName s.ns) = false then
        .refused (if project ≠ "" then notFoundError name else permissionDeniedAPIError)
      else if project ≠ "" ∧ a.getProject ≠ project then .refused (notFoundError name)
      else
        match s.getAppProject a with
        | .error err => ⟨some a, none, some err⟩
        | .ok proj => ⟨some a, some proj, none⟩

def appNamespaceOrDefault : String := if ns = "" then s.ns else ns

def getApplication : Except LookupError Application :=
  if s.isNamespaceEnabled ns = false then .error (.other ("namespace '" ++ ns ++ "' is not permitted"))
  else
    match k.lookupError, k.applications ns name with
    | some message, _ => .error (.other message)
    | none, none => .error .notFound
    | none, some a => .ok a

/-- with the informer or with the client -/
def getApplicationEnforceRBAC : Returned Proj :=
  s.getAppEnforceRBAC action project (s.appNamespaceOrDefault ns) name (s.getApplication k (s.appNamespaceOrDefault ns) name)

/-- the application exists, and the user may perform the action on it in its project -/
def May : Prop := ∃ a, k.applications ns name = some a ∧ s.enforce action (a.rbacName s.ns) = true

end Server

/-- the clusters differ in whether the application exists, and in its project -/
structure DiffersIn (ns name : String) (k k' : Cluster) : Prop where
  lookupError : k.lookupError = k'.lookupError
  others : ∀ ns' name', (ns', name') ≠ (ns, name) → k.applications ns' name' = k'.applications ns' name'
  same : ∀ a a', k.applications ns name = some a → k'.applications ns name = some a' →
    a' = { a with project := a'.project }

variable {s k action project ns name}

/-- what is returned for an application that the user may not act on -/
theorem refused_of_not_may (h : ¬s.May k action ns name) :
    s.getAppEnforceRBAC action project ns name (s.getApplication k ns name) = .refused
      (if project = "" ∨ s.enforce action (rbacName s.ns project ns name) = false ∨ s.isNamespaceEnabled ns = false ∨
        k.lookupError.isSome then permissionDeniedAPIError else notFoundError name) := by
  unfold Server.getAppEnforceRBAC Server.getApplication
  by_cases hg : project ≠ "" ∧ s.enforce action (rbacName s.ns project ns name) = false
  · simp [hg]
  cases he : s.isNamespaceEnabled ns with
  | false => simp
  | true =>
    cases hl : k.lookupError with
    | some message => simp
    | none =>
      cases ha : k.applications ns name with
      | none => by_cases hp : project = "" <;> simp_all
      | some a =>
        have hd : s.enforce action (a.rbacName s.ns) = false := by
          by_contra hm
          exact h ⟨a, ha, by simpa using hm⟩
        by_cases hp : project = "" <;> simp_all

/-- an application is returned without error only to a user who may act on it, and in the project that was asked for -/
theorem permitted_of_returned {getApp : Except LookupError Application}
    (he : (s.getAppEnforceRBAC action project ns name getApp).err = none) :
    ∃ a proj, getApp = .ok a ∧ s.getAppEnforceRBAC action project ns name getApp = ⟨some a, some proj, none⟩ ∧
      s.enforce action (a.rbacName s.ns) = true ∧ (project ≠ "" → a.getProject = project) := by
  unfold Server.getAppEnforceRBAC at he ⊢
  by_cases hg : project ≠ "" ∧ s.enforce action (rbacName s.ns project ns name) = false
  · rw [if_pos hg] at he
    cases he
  rw [if_neg hg] at he ⊢
  cases getApp with
  | error err => cases err <;> cases he
  | ok a =>
    refine ⟨a, ?_⟩
    dsimp only at he ⊢
    by_cases hd : s.enforce action (a.rbacName s.ns) = false
    · rw [if_pos hd] at he
      cases he
    by_cases ho : project ≠ "" ∧ a.getProject ≠ project
    · rw [if_neg hd, if_pos ho] at he
      cases he
    rw [if_neg hd, if_neg ho] at he ⊢
    cases hp : s.getAppProject a with
    | error err =>
      rw [hp] at he
      cases he
    | ok proj => exact ⟨proj, rfl, rfl, by simpa using hd, by simpa using ho⟩

/-- **Existence is hidden.** Where the user may not act on the application in either cluster, both return the same error; and
an application is returned without error only if the user may act on it in its project, and that project is the requested one
when one was given. -/
theorem existence_hidden (s : Server Proj) (action project ns name : String) :
    (∀ k k' : Cluster, DiffersIn (s.appNamespaceOrDefault ns) name k k' →
      ¬s.May k action (s.appNamespaceOrDefault ns) name → ¬s.May k' action (s.appNamespaceOrDefault ns) name →
      ∃ err, s.getApplicationEnforceRBAC k action project ns name = .refused err ∧
        s.getApplicationEnforceRBAC k' action project ns name = .refused err) ∧
    ∀ k a, (s.getApplicationEnforceRBAC k action project ns name).app = some a →
      (s.getApplicationEnforceRBAC k action project ns name).err = none →
      s.enforce action (a.rbacName s.ns) = true ∧ (project ≠ "" → a.getProject = project) := by
  refine ⟨fun k k' hdiffers h h' => ⟨_, refused_of_not_may h, ?_⟩, fun k a ha he => ?_⟩
  · rw [hdiffers.lookupError]
    exact refused_of_not_may h'
  · obtain ⟨b, proj, -, hb, hp⟩ := permitted_of_returned he
    cases (congrArg Returned.app hb).symm.trans ha
    exact hp

/-- a user with access to everything in one project -/
def devServer : Server Unit where
  ns := "cd"
  isNamespaceEnabled _ := true
  enforce _ object := "dev/".toList.isPrefixOf object.toList
  getAppProject _ := .ok ()

/-- at most one application, in the namespace of the server -/
def oneApplication (a : Option String) : Cluster where
  applications ns name := if ns = "cd" ∧ name = "app" then a.map fun project => ⟨"app", "cd", project⟩ else none
  lookupError := none
  keyed := by
    intro ns name b h
    split_ifs at h with hkey
    cases a <;> cases h
    exact ⟨hkey.1.symm, hkey.2.symm⟩

theorem existence_hidden_other_project :
    ∃ err, devServer.getApplicationEnforceRBAC (oneApplication none) "get" "dev" "" "app" = .refused err ∧
      devServer.getApplicationEnforceRBAC (oneApplication (some "prod")) "get" "dev" "" "app" = .refused err := by
  refine (existence_hidden devServer "get" "dev" "" "app").1 (oneApplication none) (oneApplication (some "prod"))
    ⟨rfl, ?_, ?_⟩ ?_ ?_
  · intro ns name hne
    have hk : ¬(ns = "cd" ∧ name = "app") := fun h => hne (by rw [h.1, h.2]; rfl)
    simp [oneApplication, hk]
  · rintro a a' ⟨⟩
  · rintro ⟨a, ⟨⟩, -⟩
  · rintro ⟨a, ha, hm⟩
    cases ha
    exact absurd hm (by decide)

end GitOpsDeploy.Api
