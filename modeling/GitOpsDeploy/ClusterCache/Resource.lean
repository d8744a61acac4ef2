/-
Cached resources (`gitops-engine/pkg/cache/resource.go`, `references.go` and `newResource` of `cluster.go`).

A resource keeps what the cache indexes of an object: its reference, its owner references with those the cache adds to
them, and, for a StatefulSet, the predicate that recognises its volume claims. The regular expressions are matched by a
parameter; the manifest, the info and the creation time of a resource are read by nothing modelled here.
-/
import GitOpsDeploy.Kube

namespace GitOpsDeploy.ClusterCache

open List

structure ObjectReference where
  apiVersion : String
  kind : String
  ns : String
  name : String
  uid : String
  deriving DecidableEq, Repr, Inhabited

structure OwnerReference where
  uid : String
  name : String
  kind : String
  apiVersion : String
  deriving DecidableEq, Repr, Inhabited

structure Resource where
  resourceVersion : String
  ref : ObjectReference
  ownerRefs : List OwnerReference
  /-- answers if the resource is the inferred parent of the one with the given key; only StatefulSets have it -/
  isInferredParentOf : Option (ResourceKey → Bool)
  deriving Inhabited

/-- the group of "group/version" or of a bare version; `none` when there are more slashes -/
def parseGroup (apiVersion : String) : Option String :=
  match apiVersion.toList.count '/' with
  | 0 => some ""
  | 1 => some (String.ofList (apiVersion.toList.takeWhile (· ≠ '/')))
  | _ => none

/-- `Ref.GroupVersionKind().Group` -/
def ObjectReference.group (r : ObjectReference) : String := (parseGroup r.apiVersion).getD ""

def Resource.resourceKey (r : Resource) : ResourceKey := ⟨r.ref.group, r.ref.kind, r.ref.ns, r.ref.name⟩

def Resource.toOwnerRef (r : Resource) : OwnerReference := ⟨r.ref.uid, r.ref.name, r.ref.kind, r.ref.apiVersion⟩

def Resource.ownerUIDs (r : Resource) : List String := r.ownerRefs.map OwnerReference.uid

/-- adds the reference or removes the first one with its UID, when that changes anything -/
def Resource.setOwnerRef (r : Resource) (ref : OwnerReference) (add : Bool) : Resource :=
  match r.ownerRefs.findIdx? fun item => item.uid = ref.uid with
  | none => if add then { r with ownerRefs := r.ownerRefs ++ [ref] } else r
  | some index => if add then r else { r with ownerRefs := r.ownerRefs.eraseIdx index }

def mightHaveInferredOwner (r : Resource) : Bool := r.ref.group = "" ∧ r.ref.kind = "PersistentVolumeClaim"

/-! ## Resources of objects -/

/-- what `newResource` reads of an object -/
structure Object where
  apiVersion : String
  kind : String
  ns : String
  name : String
  uid : String
  resourceVersion : String
  ownerReferences : List OwnerReference
  annotations : List (String × String)
  /-- the field `type` of a Secret, when it is a string -/
  type : Option String
  /-- the names of the volume claim templates; `none` when the object does not parse as a StatefulSet -/
  volumeClaimTemplates : Option (List String)
  deriving DecidableEq, Repr, Inhabited

variable (matchString : String → String → Bool) (un : Object)

def isServiceAccountTokenSecret : Option OwnerReference :=
  if un.type ≠ some "kubernetes.io/service-account-token" then none
  else
    match un.annotations.lookup "kubernetes.io/service-account.uid",
      un.annotations.lookup "kubernetes.io/service-account.name" with
    | some id, some name =>
      if name ≠ "" ∧ id ≠ "" then some { uid := id, name, kind := "ServiceAccount", apiVersion := "v1" } else none
    | _, _ => none

/-- `matchString pattern text` is regexp.MatchString -/
def isStatefulSetChild (templates : List String) (key : ResourceKey) :
    Bool :=
  decide (key.kind = "PersistentVolumeClaim" ∧ key.group = "") &&
    templates.any fun templ => matchString (templ ++ "-" ++ un.name ++ "-\\d+$") key.name

/-- the owner references of an object with those inferred from its kind, and the predicate of a StatefulSet -/
def resolveResourceReferences :
    List OwnerReference × Option (ResourceKey → Bool) :=
  -- an API version that does not parse leaves group and kind empty
  let gvk : String × String := ((parseGroup un.apiVersion).map fun group => (group, un.kind)).getD ("", "")
  if gvk = ("", "Endpoints") ∧ un.ownerReferences = [] then
    ([{ uid := "", name := un.name, kind := "Service", apiVersion := "v1" }], none)
  else if gvk = ("operators.coreos.com", "ClusterServiceVersion") then
    let olm := (un.annotations.lookup "olm.operatorGroup").getD ""
    if olm ≠ "" then
      (un.ownerReferences ++ [{ uid := "", name := olm, kind := "OperatorGroup", apiVersion := "operators.coreos.com/v1" }],
        none)
    else (un.ownerReferences, none)
  else if gvk = ("", "Secret") then
    (un.ownerReferences ++ (isServiceAccountTokenSecret un).toList, none)
  else if gvk = ("apps", "StatefulSet") ∨ gvk = ("extensions", "StatefulSet") then
    (un.ownerReferences, un.volumeClaimTemplates.map (isStatefulSetChild matchString un))
  else (un.ownerReferences, none)

def newResource : Resource :=
  { resourceVersion := un.resourceVersion
    ref := ⟨un.apiVersion, un.kind, un.ns, un.name, un.uid⟩
    ownerRefs := (resolveResourceReferences matchString un).1
    isInferredParentOf := (resolveResourceReferences matchString un).2 }

/-! ## Owner UIDs -/

theorem setOwnerRef_frame (r : Resource) (ref : OwnerReference) (add : Bool) :
    r.setOwnerRef ref add = { r with ownerRefs := (r.setOwnerRef ref add).ownerRefs } := by
  unfold Resource.setOwnerRef
  split <;> split_ifs <;> rfl

variable {r : Resource}

theorem findIdx?_uid_eq_none {uid : String}
    (h : (r.ownerRefs.findIdx? fun item => item.uid = uid) = none) : uid ∉ r.ownerUIDs := by
  rw [List.findIdx?_eq_none_iff] at h
  intro hm
  obtain ⟨item, hi, he⟩ := mem_map.1 hm
  simpa [he] using h item hi

theorem findIdx?_uid_eq_some {uid : String} {index : ℕ}
    (h : (r.ownerRefs.findIdx? fun item => item.uid = uid) = some index) : r.ownerUIDs[index]? = some uid := by
  obtain ⟨hlt, hi, _⟩ := List.findIdx?_eq_some_iff_getElem.1 h
  simpa [Resource.ownerUIDs, List.getElem?_eq_getElem hlt] using hi

theorem setOwnerRef_nodup (h : r.ownerUIDs.Nodup) (ref : OwnerReference) (add : Bool) :
    (r.setOwnerRef ref add).ownerUIDs.Nodup := by
  unfold Resource.setOwnerRef
  split
  · rename_i hi
    split_ifs
    · simp only [Resource.ownerUIDs, map_append, map_cons, map_nil]
      rw [← concat_eq_append]
      exact h.concat (findIdx?_uid_eq_none hi)
    · exact h
  · split_ifs
    · exact h
    · simp only [Resource.ownerUIDs, ← eraseIdx_map]
      exact h.sublist (eraseIdx_sublist _ _)

/-- with distinct UIDs, `setOwnerRef` makes the UID an owner or not, and keeps the others -/
theorem setOwnerRef_uids (h : r.ownerUIDs.Nodup) (ref : OwnerReference) (add : Bool) (u : String) :
    u ∈ (r.setOwnerRef ref add).ownerUIDs ↔ if u = ref.uid then add = true else u ∈ r.ownerUIDs := by
  unfold Resource.setOwnerRef
  split
  · rename_i hi
    by_cases hu : u = ref.uid
    · subst hu
      cases add <;> simp_all [Resource.ownerUIDs]
    · cases add <;> simp [Resource.ownerUIDs, hu]
  · rename_i index hi
    have hat := findIdx?_uid_eq_some hi
    have hm : ref.uid ∈ r.ownerUIDs := List.mem_of_getElem? hat
    cases add with
    | true =>
      by_cases hu : u = ref.uid
      · simpa [hu] using hm
      · simp [hu]
    | false =>
      have he : (r.ownerRefs.eraseIdx index).map OwnerReference.uid = r.ownerUIDs.erase ref.uid := by
        obtain ⟨hlt, hg⟩ := List.getElem?_eq_some_iff.1 hat
        rw [← eraseIdx_map, ← hg]
        exact (h.erase_getElem index hlt).symm
      change u ∈ (r.ownerRefs.eraseIdx index).map OwnerReference.uid ↔ _
      rw [he, List.Nodup.mem_erase_iff h]
      by_cases hu : u = ref.uid <;> simp [hu]

/-- the kinds with added owner references, and those that are inferred to be owners, are not volume claims -/
theorem newResource_claim (h : mightHaveInferredOwner (newResource matchString un) = true) :
    (newResource matchString un).ownerRefs = un.ownerReferences ∧
      (newResource matchString un).isInferredParentOf = none := by
  have hk : un.kind = "PersistentVolumeClaim" := (of_decide_eq_true h).2
  simp only [newResource, resolveResourceReferences, hk]
  cases parseGroup un.apiVersion with
  | none => simp
  | some group => simp

end GitOpsDeploy.ClusterCache
