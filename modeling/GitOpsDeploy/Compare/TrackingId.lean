/-
The tracking annotation of a resource (`util/cd/resource_tracking.go`).

The annotation names the application and the resource it was written for as `application:group/kind:namespace/name`.
`parseAppInstanceValue` cuts it at the first two colons only, so a name may hold colons, and wants exactly one slash on
either side of the second one.
-/
import Mathlib.Tactic

namespace GitOpsDeploy.Compare

/-- `strings.SplitN` with a separator of one character -/
def splitN (sep : Char) : ℕ → List Char → List (List Char)
  | 0, _ => []
  | 1, l => [l]
  | n + 2, l => if sep ∈ l then l.takeWhile (· ≠ sep) :: splitN sep (n + 1) (l.dropWhile (· ≠ sep)).tail else [l]

structure AppInstanceValue where
  applicationName : String
  group : String
  kind : String
  ns : String
  name : String

def errWrongResourceTrackingFormat : String :=
  "wrong resource tracking format, should be <application-name>:<group>/<kind>:<namespace>/<name>"

def buildAppInstanceValue (v : AppInstanceValue) : String :=
  v.applicationName ++ ":" ++ v.group ++ "/" ++ v.kind ++ ":" ++ v.ns ++ "/" ++ v.name

def parseAppInstanceValue (value : String) : Except String AppInstanceValue :=
  match splitN ':' 3 value.toList with
  | [applicationName, groupKind, nsName] =>
    match groupKind.splitOn '/', nsName.splitOn '/' with
    | [group, kind], [ns, name] =>
      .ok ⟨.ofList applicationName, .ofList group, .ofList kind, .ofList ns, .ofList name⟩
    | _, _ => .error errWrongResourceTrackingFormat
  | _ => .error errWrongResourceTrackingFormat

/-! ## Round trips -/

variable {sep : Char} {a l : List Char} {v : AppInstanceValue} {s : String}

theorem splitN_append (n : ℕ) (h : sep ∉ a) : splitN sep (n + 2) (a ++ sep :: l) = a :: splitN sep (n + 1) l := by
  have ha : ∀ c ∈ a, decide (c ≠ sep) = true := fun c hc => decide_eq_true fun he => h (he ▸ hc)
  rw [splitN, if_pos (by simp), List.takeWhile_append_of_pos ha, List.dropWhile_append_of_pos ha]
  simp

theorem splitN_ne_nil (n : ℕ) (l : List Char) : splitN sep (n + 1) l ≠ [] := by
  cases n with
  | zero => simp [splitN]
  | succ n => rw [splitN]; split_ifs <;> simp

theorem intercalate_splitN (n : ℕ) (l : List Char) : [sep].intercalate (splitN sep (n + 1) l) = l := by
  induction n generalizing l with
  | zero => simp [splitN]
  | succ n ih =>
    by_cases hm : sep ∈ l
    · obtain ⟨p, q, rfl, hp⟩ := List.eq_append_cons_of_mem hm
      rw [splitN_append n hp, List.intercalate_cons_of_ne_nil (splitN_ne_nil _ _), ih]
      simp
    · simp [splitN, hm]

/-- the texts a tracking value can be read back from -/
structure AppInstanceValue.Unambiguous (v : AppInstanceValue) : Prop where
  app : ':' ∉ v.applicationName.toList
  group : ':' ∉ v.group.toList ∧ '/' ∉ v.group.toList
  kind : ':' ∉ v.kind.toList ∧ '/' ∉ v.kind.toList
  ns : '/' ∉ v.ns.toList
  name : '/' ∉ v.name.toList

theorem toList_buildAppInstanceValue : (buildAppInstanceValue v).toList =
    v.applicationName.toList ++ ':' :: ((v.group.toList ++ '/' :: v.kind.toList) ++
      ':' :: (v.ns.toList ++ '/' :: v.name.toList)) := by
  simp [buildAppInstanceValue]

theorem parse_buildAppInstanceValue (h : v.Unambiguous) : parseAppInstanceValue (buildAppInstanceValue v) = .ok v := by
  have hg : ':' ∉ v.group.toList ++ '/' :: v.kind.toList := by simp [h.group.1, h.kind.1]
  have hs : ∀ a b : List Char, '/' ∉ a → '/' ∉ b → (a ++ '/' :: b).splitOn '/' = [a, b] := fun a b ha hb => by
    rw [List.splitOn_append_cons_self_of_not_mem ha, List.splitOn_eq_singleton hb]
  rw [parseAppInstanceValue, toList_buildAppInstanceValue, splitN_append 1 h.app, splitN_append 0 hg, splitN]
  simp only [hs _ _ h.group.2 h.kind.2, hs _ _ h.ns h.name, String.ofList_toList]

theorem build_of_parseAppInstanceValue (h : parseAppInstanceValue s = .ok v) : buildAppInstanceValue v = s := by
  unfold parseAppInstanceValue at h
  split at h
  · next applicationName groupKind nsName hp =>
    split at h
    · next group kind ns name hg hn =>
      cases h
      have h3 := @intercalate_splitN ':' 2 s.toList
      have hgk := @List.intercalate_splitOn _ groupKind _ _ '/'
      have hnn := @List.intercalate_splitOn _ nsName _ _ '/'
      rw [hp] at h3
      rw [hg] at hgk
      rw [hn] at hnn
      apply String.toList_inj.1
      rw [toList_buildAppInstanceValue, ← h3, ← hgk, ← hnn]
      simp
    · cases h
  · cases h

/-- **The tracking annotation is a codec.** A value without separators in the wrong place is read back, and a text that
is read is the one its value is written as. -/
theorem tracking_id_codec :
    (∀ v : AppInstanceValue, v.Unambiguous → parseAppInstanceValue (buildAppInstanceValue v) = .ok v) ∧
    (∀ s v, parseAppInstanceValue s = .ok v → buildAppInstanceValue v = s) ∧
    ∀ s s' v, parseAppInstanceValue s = .ok v → parseAppInstanceValue s' = .ok v → s = s' := by
  refine ⟨fun v => parse_buildAppInstanceValue, fun s v => build_of_parseAppInstanceValue, fun s s' v hs hs' => ?_⟩
  rw [← build_of_parseAppInstanceValue hs, build_of_parseAppInstanceValue hs']

/-- a cluster role: no namespace, and colons in its name -/
theorem tracking_id_codec_clusterRole :
    parseAppInstanceValue (buildAppInstanceValue ⟨"web", "rbac.authorization.k8s.io", "ClusterRole", "",
      "system:node"⟩) = .ok ⟨"web", "rbac.authorization.k8s.io", "ClusterRole", "", "system:node"⟩ :=
  tracking_id_codec.1 _ (by constructor <;> decide)

end GitOpsDeploy.Compare
