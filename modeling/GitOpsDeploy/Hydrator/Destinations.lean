/-
Which destinations a validated group of applications has.

The group has one hydration key, with the normalized URL of the repository; the check for duplicates compares URLs and paths
as they are written, and the manifests are written to the cleaned path.
- `Valid`: what is asked of one application alone. `validateApplication_cases`: one turn of the loop.
- `validateApplications_separates_iff`: in a group without an error the directories are separate iff no two applications are
  `Respelled`.
- Witnesses: `separate_web_api`, and `spelled_twice` for a directory in two spellings.
-/
import GitOpsDeploy.Core.Slices
import GitOpsDeploy.Hydrator.Group

namespace GitOpsDeploy.Hydrator

variable (env : Env) (app : Application)

abbrev Application.destination : Source := app.sourceHydrator.getHydrateToSource

/-- the URL and the path as they are written -/
def Application.destKey : String × String := (app.destination.repoURL, app.destination.path)

/-- the path after `filepath.Clean` -/
def Application.directory : Paths.SlashPath := (Paths.ofString app.destination.path).clean

def Valid : Prop :=
  ∃ proj, env.getProcessableAppProj app = .ok proj ∧ proj.isSourcePermitted
    app.sourceHydrator.drySource.repoURL = true ∧
    isRootPath app.destination.path = false ∧ proj.isSourcePermitted app.destination.repoURL = true

theorem fail_keys_ne (v : Validation) (name err : String) : (v.fail name err).errors.keys ≠ [] :=
  List.ne_nil_of_mem (AList.mem_keys.1 ((AList.mem_insert v.errors).2 (.inl rfl)))

/-- **One turn.** Either the application is valid and its destination is new and noted, or there is an error. -/
theorem validateApplication_cases (v : Validation) (app : Application) :
    (Valid env app ∧ app.destKey ∉ v.uniquePaths.map Prod.fst ∧ (validateApplication env v app).errors = v.errors ∧
        (validateApplication env v app).uniquePaths = (app.destKey, app.qualifiedName) :: v.uniquePaths) ∨
      (¬ (Valid env app ∧ app.destKey ∉ v.uniquePaths.map Prod.fst) ∧
        (validateApplication env v app).errors.keys ≠ []) := by
  generalize hv : validateApplication env v app = r
  unfold validateApplication at hv
  unfold Valid
  cases hp : env.getProcessableAppProj app with
  | error err =>
    rw [hp] at hv
    subst hv
    exact .inr ⟨by simp, fail_keys_ne _ _ _⟩
  | ok proj =>
    simp only [hp] at hv
    simp only [Except.ok.injEq, exists_eq_left']
    split_ifs at hv with hd hr hs
    · subst hv
      exact .inr ⟨by simp_all, fail_keys_ne _ _ _⟩
    · subst hv
      exact .inr ⟨by simp_all, fail_keys_ne _ _ _⟩
    · subst hv
      exact .inr ⟨by simp_all, fail_keys_ne _ _ _⟩
    · cases hl : v.uniquePaths.lookup (app.destination.repoURL, app.destination.path) with
      | some other =>
        rw [hl] at hv
        subst hv
        refine .inr ⟨fun h => ?_, fail_keys_ne _ _ _⟩
        have := Slices.lookup_eq_none_iff_not_mem.2 h.2
        exact absurd (hl.symm.trans this) (by simp)
      | none =>
        rw [hl] at hv
        subst hv
        exact .inl ⟨by simp_all, Slices.lookup_eq_none_iff_not_mem.1 hl, rfl, rfl⟩

variable (apps : List Application)

/-- no error is reported iff every application is valid and no two have one destination -/
theorem foldl_validateApplication_keys (v : Validation) : (apps.foldl (validateApplication env) v).errors.keys = [] ↔
      v.errors.keys = [] ∧ (∀ app ∈ apps, Valid env app) ∧
        (apps.map Application.destKey).Nodup ∧ ∀ app ∈ apps, app.destKey ∉ v.uniquePaths.map Prod.fst := by
  induction apps generalizing v with
  | nil => simp
  | cons app apps ih =>
    rw [List.foldl_cons, ih]
    rcases validateApplication_cases env v app with ⟨hv, hn, he, hu⟩ | ⟨hn, he⟩
    · rw [he, hu]
      simp only [List.map_cons, List.nodup_cons, List.mem_cons, forall_eq_or_imp]
      grind
    · simp only [he, false_and, false_iff]
      rintro ⟨-, hv, -, hk⟩
      exact hn ⟨hv app List.mem_cons_self, hk app List.mem_cons_self⟩

theorem validateApplications_keys_iff : (validateApplications env apps).errors.keys = [] ↔
      (∀ app ∈ apps, Valid env app) ∧ (apps.map Application.destKey).Nodup := by
  have h := foldl_validateApplication_keys env apps ⟨[], ∅, []⟩
  unfold validateApplications
  dsimp only
  split_ifs <;> simp_all

/-- the applications write to different directories, none of them to the root -/
def Separate : Prop :=
  (apps.map Application.directory).Nodup ∧ ∀ app ∈ apps, app.directory.text ∉ ["", ".", "/"]

/-- one destination in two spellings: the URLs differ and are normalized to the same, or the paths differ by components that
say nothing, or both -/
structure Respelled (normalize : String → String) (a b : Application) : Prop where
  written : a.destKey ≠ b.destKey
  url : normalize a.destination.repoURL = normalize b.destination.repoURL
  path : (Paths.ofString a.destination.path).Respells (Paths.ofString b.destination.path)

/-- **Separate directories.** A group of one hydration key without errors has separate directories iff no two applications
spell one destination in two ways. With an error there are no projects. -/
theorem validateApplications_separates_iff (normalize : String → String)
    (hkey : ∀ a ∈ apps, ∀ b ∈ apps,
      getHydrationQueueKey normalize a.sourceHydrator = getHydrationQueueKey normalize b.sourceHydrator) :
    ((validateApplications env apps).errors.keys = [] →
      (Separate apps ↔ apps.Pairwise fun a b => ¬ Respelled normalize a b)) ∧
    ((validateApplications env apps).errors.keys ≠ [] → (validateApplications env apps).projects = []) := by
  constructor
  · rw [validateApplications_keys_iff]
    intro ⟨hv, hn⟩
    have hroot : ∀ app ∈ apps, app.directory.text ∉ ["", ".", "/"] := by
      intro app ha
      obtain ⟨_, _, _, hr, _⟩ := hv app ha
      exact of_decide_eq_false hr
    rw [Separate, and_iff_left hroot, List.Nodup, List.pairwise_map]
    refine ⟨fun hd => hd.imp fun hne hr => hne (Paths.SlashPath.clean_eq_iff.2 hr.path), fun hs => ?_⟩
    -- what is written differs, and the normalized URL is that of the key
    refine (hs.and (List.pairwise_map.1 hn)).imp_of_mem fun {a b} ha hb h hdir => h.1 ⟨h.2, ?_, ?_⟩
    · exact congrArg HydrationQueueKey.destinationRepoURL (hkey a ha b hb)
    · exact Paths.SlashPath.clean_eq_iff.1 hdir
  · intro h
    unfold validateApplications at h ⊢
    dsimp only at h ⊢
    split_ifs at h ⊢
    · rfl
    · contradiction

/-- an application by its name and path, all others of one hydration key -/
def webApp (path : String) : Application :=
  ⟨"cd", path, "p", ⟨⟨"https://git.io/r", "main", "dry", ""⟩, ⟨"env", path, ""⟩, none⟩, ⟨none, none, ""⟩⟩

/-- everything is permitted -/
def permissive : Env := ⟨fun _ => .ok ⟨"p", fun _ => true⟩, fun _ => false, fun _ _ => .error "",
  fun _ _ _ => .error "",
  fun _ _ => .error "", .error "", fun _ _ _ _ => .error "", .error "", .error "", .error "", .error "",
  fun _ => .error "", id⟩

theorem separate_web_api : (validateApplications permissive [webApp "web", webApp "web/../api"]).errors.keys = [] ∧
    Separate [webApp "web", webApp "web/../api"] := by
  have hk : (validateApplications permissive [webApp "web", webApp "web/../api"]).errors.keys = [] := by decide +kernel
  refine ⟨hk, ((validateApplications_separates_iff permissive _ id (by decide +kernel)).1 hk).2 ?_⟩
  refine List.pairwise_pair.2 fun h => ?_
  exact absurd (Paths.SlashPath.clean_eq_iff.2 h.path) (by decide +kernel)

/-- one directory, spelled in two ways: no error is reported -/
theorem spelled_twice : (validateApplications permissive [webApp "web", webApp "./web"]).errors.keys = [] ∧
    (∀ normalize, getHydrationQueueKey normalize (webApp "web").sourceHydrator =
      getHydrationQueueKey normalize (webApp "./web").sourceHydrator) ∧
    (webApp "web").directory = (webApp "./web").directory :=
  ⟨by decide +kernel, fun _ => rfl, by decide +kernel⟩

end GitOpsDeploy.Hydrator
