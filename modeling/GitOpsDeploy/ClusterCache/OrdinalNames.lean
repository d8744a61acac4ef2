/-
The claims a StatefulSet is inferred to own (`isStatefulSetChild` in `gitops-engine/pkg/cache/references.go`).

The pattern `<template>-<statefulset>-\d+$` is put together from names, without quoting them and without an anchor in
front: a dot in a name matches any character, and the match may begin anywhere in the claim's name. `matchOrdinal` is
`regexp.MatchString` on such patterns.
- `inferred_exact_iff`: what is inferred is right for a claim that has the form `<template>-<statefulset>-<ordinal>`, and for
  one whose name neither has a proper suffix of that form (`HasSuffix`) nor fits it by a dot (`FitsByDot`).
- Witnesses: `inferred_exact_web`, and `inferred_from_suffix`, where it is wrong by a suffix and by a dot.
-/
import GitOpsDeploy.ClusterCache.Resource

namespace GitOpsDeploy.ClusterCache

open List

/-- the characters with a meaning of their own in a pattern, the dot aside -/
def metaChars : List Char := "\\+*?()|[]\x7b\x7d^$".toList

/-- no name in Kubernetes has such a character -/
def Plain (name : List Char) : Prop := ∀ c ∈ name, c ∉ metaChars

-- over the characters of the name, not over all characters
instance (name : List Char) : Decidable (Plain name) := decidableBAll (· ∉ metaChars) name

/-- a character of a pattern stands for itself, a dot for everything but a newline -/
def CharFits (p c : Char) : Prop := p = c ∨ p = '.' ∧ c ≠ '\n'

instance : DecidableRel CharFits := fun p c => inferInstanceAs (Decidable (p = c ∨ p = '.' ∧ c ≠ '\n'))

/-- a non-empty string of decimal digits -/
def IsOrdinal (ordinal : List Char) : Prop := ordinal ≠ [] ∧ ∀ c ∈ ordinal, c.isDigit = true

instance (ordinal : List Char) : Decidable (IsOrdinal ordinal) :=
  @instDecidableAnd _ _ inferInstance (decidableBAll (fun c => c.isDigit = true) ordinal)

/-- `regexp.MatchString` on a text without other metacharacters, followed by a dash, digits and the end of the text; the
match is tried from every beginning. There are no other patterns here. -/
def matchOrdinal (pattern text : String) : Bool :=
  let p := pattern.toList.take (pattern.toList.length - 5)
  decide (Plain p) && (List.range (text.toList.length + 1)).any fun i =>
    let rest := text.toList.drop i
    decide (Forall₂ CharFits p (rest.take p.length)) &&
      match rest.drop p.length with
      | '-' :: ordinal => decide (IsOrdinal ordinal)
      | _ => false

/-- the text ends in what fits p, a dash and an ordinal -/
def EndsIn (p text : List Char) : Prop :=
  ∃ before part ordinal, text = before ++ (part ++ '-' :: ordinal) ∧ Forall₂ CharFits p part ∧ IsOrdinal ordinal

/-- the claim is named after a template, the StatefulSet and an ordinal -/
def IsClaimOf (templates : List String) (name claim : String) : Prop :=
  ∃ templ ∈ templates, ∃ ordinal : String, IsOrdinal ordinal.toList ∧ claim = templ ++ "-" ++ name ++ "-" ++ ordinal

/-- a proper suffix of the text is p, a dash and an ordinal -/
def HasSuffix (p text : List Char) : Prop :=
  ∃ before ordinal, before ≠ [] ∧ text = before ++ (p ++ '-' :: ordinal) ∧ IsOrdinal ordinal

/-- the text ends in p, a dash and an ordinal, but for other characters where p has a dot -/
def FitsByDot (p text : List Char) : Prop :=
  ∃ before part ordinal, part ≠ p ∧ text = before ++ (part ++ '-' :: ordinal) ∧ Forall₂ CharFits p part ∧
    IsOrdinal ordinal

variable {templates : List String} {un : Object} {p text : List Char}

theorem matchOrdinal_iff {p text : String} (hp : Plain p.toList) :
    matchOrdinal (p ++ "-\\d+$") text = true ↔ EndsIn p.toList text.toList := by
  have ht : (p ++ "-\\d+$").toList.take ((p ++ "-\\d+$").toList.length - 5) = p.toList := by
    rw [String.toList_append, length_append]
    exact take_left
  unfold matchOrdinal EndsIn
  simp only [ht, hp, decide_true, Bool.true_and, any_eq_true, mem_range, Bool.and_eq_true, decide_eq_true_eq]
  constructor
  · rintro ⟨i, -, hf, ho⟩
    split at ho
    · rename_i ordinal hd
      refine ⟨text.toList.take i, (text.toList.drop i).take p.toList.length, ordinal, ?_, hf, of_decide_eq_true ho⟩
      rw [← hd, take_append_drop, take_append_drop]
    · cases ho
  · rintro ⟨before, part, ordinal, he, hf, ho⟩
    have hl : p.toList.length = part.length := hf.length_eq
    refine ⟨before.length, ?_, ?_, ?_⟩
    · rw [he, length_append]
      omega
    · rw [he, drop_left, hl, take_left]
      exact hf
    · rw [he, drop_left, hl, drop_left]
      exact decide_eq_true ho

theorem isStatefulSetChild_iff (ht : ∀ templ ∈ templates, Plain templ.toList) (hn : Plain un.name.toList)
    (ns claim : String) : isStatefulSetChild matchOrdinal un templates
      ⟨"", "PersistentVolumeClaim", ns, claim⟩ = true ↔
      ∃ templ ∈ templates, EndsIn (templ ++ "-" ++ un.name).toList claim.toList := by
  simp only [isStatefulSetChild, and_self, decide_true, Bool.true_and, any_eq_true]
  refine exists_congr fun templ => and_congr_right fun hmem => matchOrdinal_iff fun c hc => ?_
  rw [String.toList_append, String.toList_append, mem_append, mem_append] at hc
  rcases hc with (hc | hc) | hc
  · exact ht templ hmem c hc
  · rw [mem_singleton.1 hc]
    decide
  · exact hn c hc

/-- a match is the whole text, a suffix of it, or one by a dot -/
theorem endsIn_iff : EndsIn p text ↔
    (∃ ordinal, text = p ++ '-' :: ordinal ∧ IsOrdinal ordinal) ∨ HasSuffix p text ∨ FitsByDot p text := by
  have hrefl : Forall₂ CharFits p p := forall₂_same.2 fun _ _ => .inl rfl
  constructor
  · rintro ⟨before, part, ordinal, rfl, hf, ho⟩
    by_cases hpa : part = p
    · subst hpa
      rcases before with _ | ⟨c, before⟩
      · exact .inl ⟨ordinal, rfl, ho⟩
      · exact .inr (.inl ⟨c :: before, ordinal, cons_ne_nil _ _, rfl, ho⟩)
    · exact .inr (.inr ⟨before, part, ordinal, hpa, rfl, hf, ho⟩)
  · rintro (⟨ordinal, rfl, ho⟩ | ⟨before, ordinal, -, rfl, ho⟩ | ⟨before, part, ordinal, -, rfl, hf, ho⟩)
    · exact ⟨[], p, ordinal, rfl, hrefl, ho⟩
    · exact ⟨before, p, ordinal, rfl, hrefl, ho⟩
    · exact ⟨before, part, ordinal, rfl, hf, ho⟩

theorem isClaimOf_iff {name claim : String} : IsClaimOf templates name claim ↔
    ∃ templ ∈ templates, ∃ ordinal, claim.toList = (templ ++ "-" ++ name).toList ++ '-' :: ordinal ∧
      IsOrdinal ordinal := by
  refine exists_congr fun templ => and_congr_right fun _ => ⟨?_, ?_⟩
  · rintro ⟨ordinal, ho, rfl⟩
    exact ⟨ordinal.toList, by simp, ho⟩
  · rintro ⟨ordinal, he, ho⟩
    exact ⟨String.ofList ordinal, by simpa using ho, String.toList_inj.1 (by simpa using he)⟩

/-- **Inferred ownership is exact** for a claim of the form, and otherwise exactly if no proper suffix of its name has the
    form of a template, and no dot stands for another character. -/
theorem inferred_exact_iff (un : Object) (templates : List String) (ht : ∀ templ ∈ templates, Plain templ.toList)
    (hn : Plain un.name.toList) (ns claim : String) :
    (isStatefulSetChild matchOrdinal un templates ⟨"", "PersistentVolumeClaim", ns, claim⟩ = true ↔
      IsClaimOf templates un.name claim) ↔
      IsClaimOf templates un.name claim ∨ ∀ templ ∈ templates,
        ¬ HasSuffix (templ ++ "-" ++ un.name).toList claim.toList ∧
        ¬ FitsByDot (templ ++ "-" ++ un.name).toList claim.toList := by
  rw [isStatefulSetChild_iff ht hn]
  simp only [endsIn_iff, and_or_left, exists_or, ← isClaimOf_iff, ← not_or]
  simp only [← exists_or, ← and_or_left]
  by_cases hc : IsClaimOf templates un.name claim
  · simp [hc]
  · simp [hc, or_iff_not_imp_left]

/-! ## Examples -/

/-- a StatefulSet of the given name -/
def setNamed (name : String) : Object :=
  { (default : Object) with apiVersion := "apps/v1", kind := "StatefulSet", name := name }

theorem inferred_exact_web :
    isStatefulSetChild matchOrdinal (setNamed "web") ["data"]
      ⟨"", "PersistentVolumeClaim", "app", "data-web-0"⟩ = true :=
  have hclaim : IsClaimOf ["data"] (setNamed "web").name "data-web-0" := ⟨"data", by decide, "0", by decide, by decide⟩
  ((inferred_exact_iff (setNamed "web") ["data"] (by decide) (by decide) "app" "data-web-0").2 (.inl hclaim)).2 hclaim

/-- the claim that a StatefulSet "data-web" makes from its template "logs" is taken for one that "web" makes from "data", and
that of "web-1" for one of "web.1" -/
theorem inferred_from_suffix :
    (isStatefulSetChild matchOrdinal (setNamed "web") ["data"]
        ⟨"", "PersistentVolumeClaim", "app", "logs-data-web-0"⟩ = true ∧
          ¬IsClaimOf ["data"] "web" "logs-data-web-0") ∧
      isStatefulSetChild matchOrdinal (setNamed "web.1") ["data"]
        ⟨"", "PersistentVolumeClaim", "app", "data-web-1-0"⟩ = true ∧ ¬IsClaimOf ["data"] "web.1" "data-web-1-0" := by
  refine ⟨⟨by decide +kernel, ?_⟩, by decide +kernel, ?_⟩
  · rintro ⟨templ, hmem, ordinal, -, he⟩
    rw [mem_singleton.1 hmem] at he
    have hc := congrArg (fun s => s.toList.head?) he
    simp at hc
  · rintro ⟨templ, hmem, ordinal, -, he⟩
    rw [mem_singleton.1 hmem] at he
    have hc := congrArg (fun s => s.toList[8]?) he
    simp at hc

end GitOpsDeploy.ClusterCache
