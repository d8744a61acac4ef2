/-
Pre- and postconditions of programs over a store.

`Ensures exec p s Q`: if p, run alone from s, ends with a value, then Q holds of the value and of the store it leaves. A
program that returns early owes nothing. There is one rule for each way to build a program; the rule for a loop has an
invariant over the elements it has gone through.
-/
import GitOpsDeploy.Core.Fallible
import GitOpsDeploy.Core.Interleave

namespace GitOpsDeploy

namespace Prog

variable {O : Type} {Resp : O → Type} {X A B S : Type}

def Ensures (exec : (o : O) → S → S × Resp o) (p : Prog O Resp X A) (s : S) (Q : A → S → Prop) : Prop :=
  ∀ a, p.result exec s = .ok a → Q a (p.final exec s)

variable {exec : (o : O) → S → S × Resp o}

theorem Ensures.mono {p : Prog O Resp X A} {s : S} {Q R : A → S → Prop} (h : p.Ensures exec s Q)
    (hQR : ∀ a s', Q a s' → R a s') : p.Ensures exec s R :=
  fun a ha => hQR a _ (h a ha)

@[simp] theorem ensures_pure (a : A) (s : S) (Q : A → S → Prop) :
    (pure a : Prog O Resp X A).Ensures exec s Q ↔ Q a s :=
  ⟨fun h => h a rfl, fun h _ hb => Except.ok.inj hb ▸ h⟩

@[simp] theorem ensures_stop (x : X) (s : S) (Q : A → S → Prop) : (stop x : Prog O Resp X A).Ensures exec s Q :=
  nofun

@[simp] theorem ensures_ask (o : O) (s : S) (Q : Resp o → S → Prop) :
    (ask o : Prog O Resp X (Resp o)).Ensures exec s Q ↔ Q (exec o s).2 (exec o s).1 :=
  ⟨fun h => h _ rfl, fun h _ hb => Except.ok.inj hb ▸ h⟩

/-- the rest of a sequence starts where its first part ended -/
@[simp] theorem ensures_bind (p : Prog O Resp X A) (f : A → Prog O Resp X B) (s : S) (Q : B → S → Prop) :
    (p >>= f).Ensures exec s Q ↔ p.Ensures exec s (fun a s' => (f a).Ensures exec s' Q) := by
  induction p generalizing s with
  | done r =>
    cases r with
    | ok a => exact (ensures_pure a s (fun a s' => (f a).Ensures exec s' Q)).symm
    | error x => exact ⟨fun _ => nofun, fun _ => nofun⟩
  | call o k ih => exact ih _ _

@[simp] theorem ensures_mapStop {Y : Type} (f : X → Y) (p : Prog O Resp X A) (s : S) (Q : A → S → Prop) :
    (p.mapStop f).Ensures exec s Q ↔ p.Ensures exec s Q := by
  induction p generalizing s with
  | done r => exact forall_congr' fun a => imp_congr_left Fallible.mapError_eq_ok
  | call o k ih => exact ih _ _

/-- **The rule for a loop.** The invariant speaks of the elements gone through; a step may use which element of the list
comes next. -/
theorem ensures_foldlM {α : Type} {f : B → α → Prog O Resp X B} {l : List α} {b : B} {s : S}
    (I : List α → B → S → Prop) (hs : I [] b s)
    (hst : ∀ pre a rest b s, l = pre ++ a :: rest → I pre b s → (f b a).Ensures exec s (I (pre ++ [a]))) :
    (l.foldlM f b).Ensures exec s (I l) := by
  have hr : ∀ pre rest b s, l = pre ++ rest → I pre b s → (rest.foldlM f b).Ensures exec s (I l) := by
    intro pre rest
    induction rest generalizing pre with
    | nil =>
      intro b s hl hI
      rw [List.append_nil] at hl
      exact (ensures_pure b s _).2 (hl ▸ hI)
    | cons a rest ih =>
      intro b s hl hI
      rw [List.foldlM_cons, ensures_bind]
      refine (hst pre a rest b s hl hI).mono fun b' s' hI' => ih (pre ++ [a]) b' s' ?_ hI'
      rw [hl, List.append_assoc, List.singleton_append]
  exact hr [] l b s rfl hs

end Prog

end GitOpsDeploy
