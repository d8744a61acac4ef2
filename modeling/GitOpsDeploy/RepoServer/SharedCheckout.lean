/-
Generations that share a checkout.

The lock of a repository is shared by requests whose source allows concurrent processing, and a generation under it
should leave the checkout alone.
-/
import GitOpsDeploy.Core.Fallible
import GitOpsDeploy.RepoServer.Kustomize

namespace GitOpsDeploy.RepoServer

open Prog
open Fallible (bind_eq_ok mapError_eq_ok exists_mapM_eq_ok)

/-- a checkout with states S: what a call answers and leaves behind -/
structure Checkout (S : Type) where
  exec : (o : Call) → S → S × o.Answer
  /-- only `kustomize edit` and writes change it -/
  reads : ∀ o s, ¬o.Modifies → (exec o s).1 = s

namespace Checkout

variable {S A : Type} (c : Checkout S)

/-- run alone, the generation runs no `kustomize edit` and writes no file -/
def Untouched (p : Generation A) (s : S) : Prop := p.Quiet c.exec Call.Modifies s

-- what the calls of a generation read

def environ (s : S) : Except String Unit := (c.exec Call.environ s).2

def kustomizeFile (s : S) : Option String := (c.exec Call.findKustomizeFile s).2

def kustomization (file : String) (s : S) : KustomizationFile := (c.exec (Call.readKustomization file) s).2

def stat (file : String) (s : S) : Except String Unit := (c.exec (Call.statFile file) s).2

def lessThan (binary version : String) (s : S) : Bool := (c.exec (Call.versionLessThan binary version) s).2

def root (s : S) : Except String Unit := (c.exec Call.openRoot s).2

def component (name : String) (s : S) : Except String Bool := (c.exec (Call.statComponent name) s).2

/-! ## When the options leave the checkout alone -/

/-- a count of replicas is not a number -/
def CountRefused (opts : Kustomize) : Prop := ∃ replica ∈ opts.replicas, ∀ n, replica.getIntCount ≠ .ok n

/-- the kustomization file with the patches cannot be made -/
def UpdateRefused (tools : Tools) (s : S) (kustFile rest : String) (patches : List String) : Prop :=
  (∀ updated, tools.marshal rest patches ≠ .ok updated) ∨ c.stat kustFile s ≠ .ok ()

/-- there is no kustomization file to which patches can be added -/
def PatchesRefused (tools : Tools) (opts : Kustomize) (s : S) : Prop :=
  ∀ kustFile, c.kustomizeFile s = some kustFile →
    (∀ rest patches, c.kustomization kustFile s = .map rest (some (.list patches)) →
      c.UpdateRefused tools s kustFile rest (patches ++ opts.patches)) ∧
    ∀ rest, c.kustomization kustFile s = .map rest none → c.UpdateRefused tools s kustFile rest opts.patches

/-- components are not supported, or missing ones are ignored and none is found -/
def ComponentsRefused (binaryPath : String) (opts : Kustomize) (s : S) : Prop :=
  c.lessThan (getBinaryPath binaryPath) "v3.7.0" s = true ∨
    opts.ignoreMissingComponents = true ∧
      (c.root s ≠ .ok () ∨ (∃ name ∈ opts.components, ∀ present, c.component name s ≠ .ok present) ∨
        ∀ name ∈ opts.components, c.component name s = .ok false)

/-- no option that is set is one that changes the checkout, up to the first option that is refused -/
def LeftAlone (tools : Tools) (binaryPath : String) (opts : Kustomize) (s : S) : Prop :=
  opts.namePrefix = "" ∧ opts.nameSuffix = "" ∧ opts.images = [] ∧
    (CountRefused opts ∨ opts.replicas = [] ∧ opts.commonLabels = [] ∧ opts.commonAnnotations = [] ∧ opts.ns = "" ∧
      (opts.patches ≠ [] ∧ c.PatchesRefused tools opts s ∨
        opts.patches = [] ∧ (opts.components = [] ∨ c.ComponentsRefused binaryPath opts s)))

/-! ## Stages of a build -/

section Stages

variable {c} {s : S}

theorem untouched_bind {B : Type} {p : Generation A} {f : A → Generation B} :
    c.Untouched (p >>= f) s ↔ c.Untouched p s ∧ ∀ a, p.result c.exec s = .ok a → c.Untouched (f a) s :=
  quiet_bind c.reads

theorem untouched_ask_bind {o : Call} {f : o.Answer → Generation A} :
    c.Untouched (ask o >>= f) s ↔ ¬o.Modifies ∧ c.Untouched (f (c.exec o s).2) s :=
  quiet_ask_bind c.reads

variable {f : Except String Unit → Generation A} {file : String}

theorem untouched_credsEnviron_bind : c.Untouched (credsEnviron >>= f) s ↔ c.Untouched (f (c.environ s)) s :=
  untouched_ask_bind.trans (and_iff_right id)

theorem untouched_findKustomizeFile_bind {f : Option String → Generation A} :
    c.Untouched (findKustomizeFile >>= f) s ↔ c.Untouched (f (c.kustomizeFile s)) s :=
  untouched_ask_bind.trans (and_iff_right id)

theorem untouched_readKustomization_bind {f : KustomizationFile → Generation A} :
    c.Untouched (readKustomization file >>= f) s ↔ c.Untouched (f (c.kustomization file s)) s :=
  untouched_ask_bind.trans (and_iff_right id)

theorem untouched_statFile_bind : c.Untouched (statFile file >>= f) s ↔ c.Untouched (f (c.stat file s)) s :=
  untouched_ask_bind.trans (and_iff_right id)

theorem untouched_versionLessThan_bind {binary version : String} {f : Bool → Generation A} :
    c.Untouched (versionLessThan binary version >>= f) s ↔ c.Untouched (f (c.lessThan binary version s)) s :=
  untouched_ask_bind.trans (and_iff_right id)

theorem untouched_openRoot_bind : c.Untouched (openRoot >>= f) s ↔ c.Untouched (f (c.root s)) s :=
  untouched_ask_bind.trans (and_iff_right id)

theorem untouched_statComponent_bind {name : String} {f : Except String Bool → Generation A} :
    c.Untouched (statComponent name >>= f) s ↔ c.Untouched (f (c.component name s)) s :=
  untouched_ask_bind.trans (and_iff_right id)

theorem not_untouched_writeFile_bind {content : String} : ¬c.Untouched (writeFile file content >>= f) s :=
  fun h => (untouched_ask_bind.1 h).1 trivial

theorem untouched_lift_bind {B : Type} {r : Except String A} {f : A → Generation B} :
    c.Untouched (lift r >>= f) s ↔ ∀ a, r = .ok a → c.Untouched (f a) s :=
  quiet_lift_bind c.reads

@[simp] theorem untouched_pure (a : A) : c.Untouched (pure a) s := quiet_pure a s

@[simp] theorem untouched_stop (x : String) : c.Untouched (stop x : Generation A) s := quiet_stop x s

@[simp] theorem untouched_lift (r : Except String A) : c.Untouched (lift r) s := quiet_lift r s

variable {q : Generation A} {tools : Tools} {bin : String} {opts : Kustomize}

theorem untouched_editWhen_bind {present : Bool} {args : List String} :
    c.Untouched (editWhen present bin args >>= fun _ => q) s ↔ present = false ∧ c.Untouched q s := by
  cases present with
  | false => exact ⟨fun h => ⟨rfl, h⟩, fun h => h.2⟩
  | true =>
    refine ⟨fun h => ?_, nofun⟩
    have ha := (untouched_bind.1 h).1
    exact absurd trivial (untouched_ask_bind.1 ha).1

theorem untouched_editWhen {present : Bool} {args : List String} :
    c.Untouched (editWhen present bin args) s ↔ present = false := by
  cases present with
  | false => exact ⟨fun _ => rfl, fun _ => untouched_pure ()⟩
  | true =>
    refine ⟨fun h => ?_, nofun⟩
    exact absurd trivial (untouched_ask_bind.1 h).1

theorem exists_args_iff {replicas : List KustomizeReplica} :
    (∃ args, replicas.mapM KustomizeReplica.arg = .ok args) ↔
      ∀ replica ∈ replicas, ∃ n, replica.getIntCount = .ok n := by
  rw [exists_mapM_eq_ok]
  refine forall₂_congr fun replica _ => ?_
  simp only [KustomizeReplica.arg, bind_eq_ok]
  constructor
  · rintro ⟨_, n, hn, _⟩
    exact ⟨n, hn⟩
  · rintro ⟨n, hn⟩
    exact ⟨_, n, hn, rfl⟩

theorem countRefused_iff : CountRefused opts ↔ ∀ args, opts.replicas.mapM KustomizeReplica.arg ≠ .ok args := by
  rw [← not_exists, exists_args_iff]
  simp only [CountRefused, not_forall, not_exists, exists_prop]

theorem untouched_setReplicas_bind : c.Untouched (setReplicas bin opts >>= fun _ => q) s ↔
      CountRefused opts ∨ opts.replicas = [] ∧ c.Untouched q s := by
  rw [countRefused_iff]
  unfold setReplicas
  cases ha : opts.replicas.mapM KustomizeReplica.arg with
  | error x => exact ⟨fun _ => .inl nofun, fun _ => untouched_stop x⟩
  | ok args =>
    have he : c.Untouched (editWhen (opts.replicas.length > 0) bin (["set", "replicas"] ++ args) >>= fun _ => q) s ↔
        opts.replicas = [] ∧ c.Untouched q s := by
      rw [untouched_editWhen_bind]
      simp
    refine he.trans ⟨.inr, ?_⟩
    rintro (h | h)
    · exact absurd rfl (h args)
    · exact h

theorem untouched_whenNonempty_bind {α : Type} {l : List α} {p : Generation Unit} (hp : ¬c.Untouched p s) :
    c.Untouched ((if l.length > 0 then p else pure ()) >>= fun _ => q) s ↔ l = [] ∧ c.Untouched q s := by
  cases l with
  | nil => exact ⟨fun h => ⟨rfl, h⟩, fun h => h.2⟩
  | cons a l => exact ⟨fun h => absurd (untouched_bind.1 h).1 hp, nofun⟩

/-- a command with arguments that depend on the version of kustomize -/
theorem not_untouched_addArgs {val : List (String × String)} {args : List String → List String} :
    ¬c.Untouched (do
      let pairs ← mapToEditAddArgs val
      editWhen true bin (args pairs)) s := by
  intro h
  have hp : ∃ pairs, (mapToEditAddArgs val).result c.exec s = .ok pairs := by
    change ∃ pairs, (if c.lessThan (getBinaryPath "") "v3.8.5" s = true then (pure _ : Generation (List String))
      else pure _).result c.exec _ = _
    split_ifs
    · exact ⟨_, rfl⟩
    · exact ⟨_, rfl⟩
  obtain ⟨pairs, hp⟩ := hp
  cases untouched_editWhen.1 ((untouched_bind.1 h).2 pairs hp)

theorem untouched_addLabels_bind :
    c.Untouched (addLabels tools bin opts >>= fun _ => q) s ↔ opts.commonLabels = [] ∧ c.Untouched q s :=
  untouched_whenNonempty_bind not_untouched_addArgs

theorem untouched_addAnnotations_bind : c.Untouched (addAnnotations tools bin opts >>= fun _ => q) s ↔
      opts.commonAnnotations = [] ∧ c.Untouched q s :=
  untouched_whenNonempty_bind not_untouched_addArgs

theorem untouched_update_bind {kustFile rest : String} {patches : List String} :
    c.Untouched (addPatches.update tools kustFile rest patches >>= fun _ => q) s ↔
      c.UpdateRefused tools s kustFile rest patches := by
  unfold addPatches.update UpdateRefused
  simp only [bind_assoc, untouched_lift_bind, untouched_statFile_bind, mapError_eq_ok, not_untouched_writeFile_bind,
    imp_false]
  constructor
  · intro h
    rcases Classical.em (∃ updated, tools.marshal rest patches = .ok updated) with ⟨updated, hok⟩ | hno
    · exact .inr (h updated hok ())
    · exact .inl fun updated hok => hno ⟨updated, hok⟩
  · rintro (h | h) updated hok
    · exact absurd hok (h updated)
    · exact fun _ => h

theorem untouched_addPatches_bind : c.Untouched (addPatches tools opts >>= fun _ => q) s ↔
      opts.patches ≠ [] ∧ c.PatchesRefused tools opts s ∨ opts.patches = [] ∧ c.Untouched q s := by
  unfold addPatches PatchesRefused
  cases hp : opts.patches with
  | nil => simp
  | cons patch patches =>
    simp only [List.length_cons, Nat.zero_lt_succ, if_true, bind_assoc, untouched_findKustomizeFile_bind, ne_eq,
      reduceCtorEq, not_false_eq_true, true_and, false_and, or_false, gt_iff_lt]
    cases hf : c.kustomizeFile s with
    | none => simp
    | some kustFile =>
      simp only [bind_assoc, untouched_readKustomization_bind, Option.some.injEq, forall_eq']
      cases hr : c.kustomization kustFile s with
      | map rest field =>
        cases field with
        | none => simp [untouched_update_bind]
        | some field =>
          cases field with
          | list existing => simp [untouched_update_bind]
          | other type => simp
      | _ => simp

/-- the search for components goes on until a path is refused; then the components that were found are added -/
theorem untouched_found {components found : List String} {args : List String → List String} :
    c.Untouched (components.foldlM addFound found >>= fun found => editWhen (found.length > 0) bin (args found)) s ↔
      (∃ name ∈ components, ∀ present, c.component name s ≠ .ok present) ∨
        found = [] ∧ ∀ name ∈ components, c.component name s = .ok false := by
  induction components generalizing found with
  | nil => simp [untouched_editWhen]
  | cons name components ih =>
    rw [List.foldlM_cons]
    simp only [addFound, bind_assoc, pure_bind, untouched_statComponent_bind, untouched_lift_bind, mapError_eq_ok]
    cases hn : c.component name s with
    | error err => simp [hn]
    | ok present =>
      cases present with
      | false => simp [ih, hn]
      | true => simp [ih, hn]

theorem untouched_addComponents : c.Untouched (addComponents bin opts) s ↔
      opts.components = [] ∨ c.ComponentsRefused bin opts s := by
  unfold addComponents ComponentsRefused
  cases hc : opts.components with
  | nil => simp
  | cons name components =>
    simp only [List.length_cons, Nat.zero_lt_succ, if_true, gt_iff_lt, untouched_versionLessThan_bind, reduceCtorEq,
      false_or]
    cases c.lessThan (getBinaryPath bin) "v3.7.0" s with
    | true => simp
    | false =>
      cases opts.ignoreMissingComponents with
      | false => simp [untouched_editWhen]
      | true =>
        simp only [Bool.false_eq_true, if_false, if_true, untouched_openRoot_bind, untouched_lift_bind, mapError_eq_ok,
          false_or, true_and, existingComponents, untouched_found]
        cases hr : c.root s with
        | error err => simp
        | ok u => simp

/-- the options leave the checkout alone exactly under the condition read off them -/
theorem untouched_applyOptions : c.Untouched (applyOptions tools bin opts) s ↔ c.LeftAlone tools bin opts s := by
  unfold applyOptions LeftAlone
  simp only [setNamePrefix, setNameSuffix, setImages, setNamespace, untouched_editWhen_bind, untouched_setReplicas_bind,
    untouched_addLabels_bind, untouched_addAnnotations_bind, untouched_addPatches_bind, untouched_addComponents]
  simp

theorem untouched_applyOverride {merged : ApplicationSource} {filename : String} :
    c.Untouched (applyOverride tools merged filename) s := by
  refine (untouched_ask_bind (o := .overrideFile filename)).2 ⟨id, ?_⟩
  split
  · exact untouched_pure _
  · exact untouched_pure _
  · exact untouched_stop _
  · exact untouched_stop _
  · exact untouched_lift _

variable {req : GenerationRequest}

theorem untouched_mergeSourceParameters : c.Untouched (mergeSourceParameters tools req) s :=
  untouched_bind.2 ⟨quiet_foldlM c.reads (fun _ _ => untouched_applyOverride) _ _, fun _ _ => untouched_pure _⟩

theorem untouched_getAppSourceType : c.Untouched (getAppSourceType tools req) s := by
  refine untouched_bind.2 ⟨quiet_mapStop.2 untouched_mergeSourceParameters, fun source _ => ?_⟩
  refine untouched_lift_bind.2 fun explicit _ => ?_
  cases explicit with
  | none =>
    refine (untouched_ask_bind (o := .appType)).2 ⟨id, ?_⟩
    exact untouched_lift_bind.2 fun _ _ => untouched_pure _
  | some appSourceType =>
    dsimp only
    split_ifs
    · exact untouched_pure _
    · exact untouched_pure _

theorem untouched_buildParams {kubeVersion : String} {apiVersions : List String} :
    c.Untouched (buildParams req bin kubeVersion apiVersions) s := by
  unfold buildParams
  split
  · refine untouched_versionLessThan_bind.2 ?_
    split
    · exact untouched_pure _
    · exact untouched_pure _
  · exact untouched_pure _

theorem untouched_build {kubeVersion : String} {apiVersions : List String} {options : Option Kustomize} :
    c.Untouched (build tools req bin kubeVersion apiVersions options) s ↔
      (c.environ s = .ok () → ∀ opts, options = some opts → c.LeftAlone tools bin opts s) := by
  have hr : c.Untouched (do
      let params ← buildParams req bin kubeVersion apiVersions
      let out ← lift (← kustomizeBuild (getBinaryPath bin) params)
      lift (tools.splitYAML out)) s := by
    refine untouched_bind.2 ⟨untouched_buildParams, fun params _ => ?_⟩
    refine (untouched_ask_bind (o := .build _ params)).2 ⟨id, ?_⟩
    exact untouched_lift_bind.2 fun _ _ => untouched_lift _
  unfold build
  rw [untouched_credsEnviron_bind, untouched_lift_bind]
  cases options with
  | none => exact ⟨fun _ _ _ => nofun, fun _ _ _ => hr⟩
  | some opts =>
    constructor
    · intro h he _ ho
      cases ho
      exact untouched_applyOptions.1 (untouched_bind.1 (h () he)).1
    · intro h _ he
      exact untouched_bind.2 ⟨untouched_applyOptions.2 (h he opts rfl), fun _ _ => hr⟩

end Stages

/-! ## Generations -/

/-- the build is reached, with this binary and these options in force after the override files -/
def InForce (tools : Tools) (req : GenerationRequest) (s : S) (binaryPath : String) (opts : Kustomize) : Prop :=
  ∃ source kubeVersion, (getAppSourceType tools req).result c.exec s = .ok (.kustomize, source) ∧
    tools.kustomizeBinaryPath source = .ok binaryPath ∧ tools.kubeVersion source = .ok kubeVersion ∧
    c.environ s = .ok () ∧ source.kustomize = some opts

variable {c} {s : S} {tools : Tools} {req : GenerationRequest}

theorem untouched_generateManifests : c.Untouched (generateManifests tools req) s ↔
      ∀ bin opts, c.InForce tools req s bin opts → c.LeftAlone tools bin opts s := by
  have hs : ∀ p : SourceType × ApplicationSource,
      ((getAppSourceType tools req).mapStop ("error getting app source type: " ++ ·)).result c.exec s = .ok p ↔
        (getAppSourceType tools req).result c.exec s = .ok p := by
    intro p
    rw [result_mapStop, mapError_eq_ok]
  unfold generateManifests
  rw [untouched_bind]
  simp only [hs]
  constructor
  · rintro ⟨-, h⟩ bin opts ⟨source, kubeVersion, ht, hb, hk, he, ho⟩
    have hbu := untouched_lift_bind.1 (h _ ht) bin (mapError_eq_ok.2 hb)
    exact untouched_build.1 (untouched_bind.1 (untouched_lift_bind.1 hbu kubeVersion hk)).1 he opts ho
  · refine fun h => ⟨quiet_mapStop.2 untouched_getAppSourceType, ?_⟩
    rintro ⟨appSourceType, source⟩ ht
    cases appSourceType with
    | kustomize =>
      refine untouched_lift_bind.2 fun bin hb => untouched_lift_bind.2 fun kubeVersion hk => ?_
      refine untouched_bind.2 ⟨untouched_build.2 fun he opts ho => ?_, fun _ _ => untouched_pure _⟩
      exact h bin opts ⟨source, kubeVersion, ht, mapError_eq_ok.1 hb, hk, he, ho⟩
    | _ => exact untouched_pure _

/-- of the options that change the checkout, the source's own test overlooks the replicas -/
theorem leftAlone_of_allowed {bin : String} {opts : Kustomize} (h : opts.allowsConcurrentProcessing = true) :
    c.LeftAlone tools bin opts s ↔ opts.replicas = [] ∨ CountRefused opts := by
  simp only [Kustomize.allowsConcurrentProcessing, Bool.and_eq_true, decide_eq_true_eq, List.length_eq_zero_iff] at h
  obtain ⟨⟨⟨⟨⟨⟨⟨hi, hl⟩, ha⟩, hpr⟩, hns⟩, hs⟩, hp⟩, hc⟩ := h
  simp [LeftAlone, hi, hl, ha, hpr, hns, hs, hp, hc, or_comm]

variable (c)

/-- the request's own options set no replicas, or an invalid number of them, and options from the override files leave
the checkout alone -/
def Kept (tools : Tools) (req : GenerationRequest) (s : S) : Prop :=
  ∀ binaryPath opts, c.InForce tools req s binaryPath opts →
    (req.source.kustomize = some opts → opts.replicas = [] ∨ CountRefused opts) ∧
      (req.source.kustomize ≠ some opts → c.LeftAlone tools binaryPath opts s)

variable {c}

theorem untouched_iff_kept (h : req.source.allowsConcurrentProcessing = true) :
    c.Untouched (generateManifests tools req) s ↔ c.Kept tools req s := by
  rw [untouched_generateManifests]
  refine forall₃_congr fun bin opts _ => ?_
  rcases Classical.em (req.source.kustomize = some opts) with ho | ho
  · have ha : opts.allowsConcurrentProcessing = true := by
      simpa only [ApplicationSource.allowsConcurrentProcessing, ho] using h
    simp [ho, leftAlone_of_allowed ha]
  · simp [ho]

/-- **Shared checkouts.** Generations of requests that allow concurrent processing leave the checkout untouched exactly
when it is kept by each one's options in force; and then, however their calls are interleaved, the checkout stays as it
was and each generation ends as it does alone. -/
theorem shared_checkout_kept {ι : Type} [DecidableEq ι] (c : Checkout S) (tools : ι → Tools)
    (reqs : ι → GenerationRequest) (s : S) (hallowed : ∀ i, (reqs i).source.allowsConcurrentProcessing = true) :
    (∀ i, c.Untouched (generateManifests (tools i) (reqs i)) s ↔ c.Kept (tools i) (reqs i) s) ∧
      ((∀ i, c.Kept (tools i) (reqs i) s) → ∀ schedule,
        (interleave c.exec (fun i => generateManifests (tools i) (reqs i)) s schedule).2 = s ∧
        ∀ i r, (interleave c.exec (fun i => generateManifests (tools i) (reqs i)) s schedule).1 i = done r →
          r = (generateManifests (tools i) (reqs i)).result c.exec s) := by
  refine ⟨fun i => untouched_iff_kept (hallowed i), fun hk schedule => ?_⟩
  exact quiet_interleave c.reads (fun i => (untouched_iff_kept (hallowed i)).2 (hk i)) schedule

end Checkout

/-! ## A checkout -/

/-- the changes made to a checkout, in order; it has an override file of one application -/
def exampleExec : (o : Call) → List (List String) → List (List String) × o.Answer
  | .overrideFile filename, t =>
    (t, if filename = "app/.cd-source-web.yaml" then OverrideFile.content "canary-" else OverrideFile.missing)
  | .appType, t => (t, Except.ok SourceType.kustomize)
  | .environ, t => (t, Except.ok ())
  | .edit _ args, t => (t ++ [args], Except.ok ())
  | .findKustomizeFile, t => (t, some "kustomization.yaml")
  | .readKustomization _, t => (t, KustomizationFile.map "" none)
  | .statFile _, t => (t, Except.ok ())
  | .writeFile file content, t => (t ++ [[file, content]], Except.ok ())
  | .versionLessThan _ _, t => (t, false)
  | .openRoot, t => (t, Except.ok ())
  | .statComponent _, t => (t, Except.ok true)
  | .build _ _, t => (t, Except.ok (",".intercalate (t.map (" ".intercalate ·))))

def exampleCheckout : Checkout (List (List String)) where
  exec := exampleExec
  reads o s h := by
    cases o with
    | edit binary args => exact absurd trivial h
    | writeFile file content => exact absurd trivial h
    | _ => rfl

/-- an override file has a name prefix -/
def exampleTools : Tools where
  mergePatch source text :=
    .ok { source with kustomize := some { source.kustomize.getD Kustomize.zero with namePrefix := text } }
  kustomizeBinaryPath _ := .ok ""
  kubeVersion _ := .ok "1.31"
  apiVersions _ := []
  envsubst text := text
  marshal rest patches := .ok (" ".intercalate (rest :: patches))
  splitYAML out := .ok [out]

def kustomizeSource (replicas : List KustomizeReplica) : ApplicationSource :=
  ⟨"https://git.example.com/web", "app", "main", none, some { Kustomize.zero with replicas }, none, none, "", "", ""⟩

def kustomizeRequest (appName : String) (replicas : List KustomizeReplica) : GenerationRequest :=
  ⟨kustomizeSource replicas, appName, "app", none, ""⟩

/-- without replicas, the options in force are the request's own -/
theorem kept_plain : exampleCheckout.Kept exampleTools (kustomizeRequest "" []) [] := by
  rintro bin opts ⟨source, kubeVersion, ht, -, -, -, ho⟩
  have hs : (getAppSourceType exampleTools (kustomizeRequest "" [])).result exampleCheckout.exec [] =
      .ok (.kustomize, kustomizeSource []) := rfl
  cases hs.symm.trans ht
  cases ho
  exact ⟨fun _ => .inl rfl, fun h => absurd rfl h⟩

/-- two generations without options side by side -/
theorem shared_checkout_kept_plain :
    exampleCheckout.Untouched (generateManifests exampleTools (kustomizeRequest "" [])) [] ∧
      (interleave exampleCheckout.exec (fun _ : Bool => generateManifests exampleTools (kustomizeRequest "" [])) []
        [true, false, false, true]).2 = [] := by
  have h := Checkout.shared_checkout_kept exampleCheckout (fun _ : Bool => exampleTools)
    (fun _ => kustomizeRequest "" []) [] (fun _ => rfl)
  exact ⟨(h.1 true).2 kept_plain, (h.2 (fun _ => kept_plain) _).1⟩

/-- one replica, or two -/
def scaled (two : Bool) : GenerationRequest :=
  kustomizeRequest "" [⟨"web", .int (if two then 2 else 1)⟩]

/-- **Shared checkouts are edited.** Replicas do not count as options that need the checkout for themselves: of two
generations that share it, one builds with the replicas of both. And an override file adds a name prefix to a request
without options, which is then written to the shared checkout. -/
theorem shared_checkout_edited :
    (∀ two, (scaled two).source.allowsConcurrentProcessing = true) ∧
      (generateManifests exampleTools (scaled false)).trace exampleExec [] =
        [.overrideFile "app/.cd-source.yaml", .environ, .edit "kustomize" ["set", "replicas", "web=1"],
          .build "kustomize" ["build", "app"]] ∧
      (generateManifests exampleTools (scaled false)).result exampleExec [] = .ok (.objects ["set replicas web=1"]) ∧
      (interleave exampleExec (fun two => generateManifests exampleTools (scaled two)) []
        [false, false, false, true, true, true, false]).1 false =
        .done (.ok (.objects ["set replicas web=1,set replicas web=2"])) ∧
      (kustomizeRequest "web" []).source.allowsConcurrentProcessing = true ∧
      .edit "kustomize" ["set", "nameprefix", "--", "canary-"] ∈
        (generateManifests exampleTools (kustomizeRequest "web" [])).trace exampleExec [] := by
  refine ⟨fun two => rfl, rfl, rfl, rfl, rfl, ?_⟩
  exact .tail _ (.tail _ (.tail _ (.head _)))

end GitOpsDeploy.RepoServer
