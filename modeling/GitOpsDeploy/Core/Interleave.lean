/-
Programs over a shared store, alone and interleaved.

A `Prog` is a tree of calls: the answer to a call decides how it goes on, and it ends with a value or by an early
return. `exec` says what a call answers and what it does to the store. Alone, a program has a `trace`, a `result` and a
`final` store; of a family of programs, a schedule says which one makes its next call.
-/
import Mathlib.Tactic

namespace GitOpsDeploy

open List Function

/-- calls o of type O with answers in `Resp o`; X is an early return, A the value at the end -/
inductive Prog (O : Type) (Resp : O → Type) (X A : Type) where
  | done (r : Except X A)
  | call (o : O) (k : Resp o → Prog O Resp X A)

namespace Prog

variable {O : Type} {Resp : O → Type} {X A B S : Type}

/-- go on with the value, if the program did not return early -/
def andThen : Prog O Resp X A → (A → Prog O Resp X B) → Prog O Resp X B
  | done (.ok a), f => f a
  | done (.error x), _ => done (.error x)
  | call o k, f => call o (fun r => (k r).andThen f)

instance : Monad (Prog O Resp X) where
  pure a := done (.ok a)
  bind := andThen

theorem andThen_pure (p : Prog O Resp X A) : p.andThen (fun a => done (.ok a)) = p := by
  induction p with
  | done r =>
    cases r with
    | ok a => rfl
    | error x => rfl
  | call o k ih => exact congrArg (call o) (funext ih)

theorem andThen_assoc {C : Type} (p : Prog O Resp X A) (f : A → Prog O Resp X B) (g : B → Prog O Resp X C) :
    (p.andThen f).andThen g = p.andThen (fun a => (f a).andThen g) := by
  induction p with
  | done r =>
    cases r with
    | ok a => rfl
    | error x => rfl
  | call o k ih => exact congrArg (call o) (funext ih)

instance : LawfulMonad (Prog O Resp X) :=
  LawfulMonad.mk' _ andThen_pure (fun _ _ => rfl) andThen_assoc

/-- one call and its answer -/
def ask (o : O) : Prog O Resp X (Resp o) := call o (fun r => done (.ok r))

/-- return early -/
def stop (x : X) : Prog O Resp X A := done (.error x)

@[simp] theorem stop_bind (x : X) (f : A → Prog O Resp X B) : (stop x >>= f) = stop x := rfl

variable (r : Except X A)

/-- a step without calls that may fail -/
def lift : Prog O Resp X A := done r

/-- the same calls with another way to return -/
def mapStop {Y : Type} (f : X → Y) : Prog O Resp X A → Prog O Resp Y A
  | done r => done (r.mapError f)
  | call o k => call o (fun r => (k r).mapStop f)

/-! ## Alone -/

section Alone

variable (exec : (o : O) → S → S × Resp o)

/-- the calls the program makes, in order -/
def trace : Prog O Resp X A → S → List O
  | done _, _ => []
  | call o k, s => o :: (k (exec o s).2).trace (exec o s).1

def result : Prog O Resp X A → S → Except X A
  | done r, _ => r
  | call o k, s => (k (exec o s).2).result (exec o s).1

def final : Prog O Resp X A → S → S
  | done _, s => s
  | call o k, s => (k (exec o s).2).final (exec o s).1

/-- run alone from s, the program makes no call in M -/
def Quiet (M : O → Prop) (p : Prog O Resp X A) (s : S) : Prop := ∀ o ∈ p.trace exec s, ¬M o

variable {exec}

@[simp] theorem result_pure (a : A) (s : S) : (pure a : Prog O Resp X A).result exec s = .ok a := rfl
@[simp] theorem result_stop (x : X) (s : S) : (stop x : Prog O Resp X A).result exec s = .error x := rfl
@[simp] theorem result_lift (s : S) : (lift r : Prog O Resp X A).result exec s = r := rfl
@[simp] theorem result_ask (o : O) (s : S) :
    (ask o : Prog O Resp X (Resp o)).result exec s = .ok (exec o s).2 := rfl

variable {M : O → Prop}

@[simp] theorem quiet_pure (a : A) (s : S) : (pure a : Prog O Resp X A).Quiet exec M s := nofun
@[simp] theorem quiet_stop (x : X) (s : S) : (stop x : Prog O Resp X A).Quiet exec M s := nofun
@[simp] theorem quiet_lift (s : S) : (lift r : Prog O Resp X A).Quiet exec M s := nofun

@[simp] theorem quiet_ask (o : O) (s : S) : (ask o : Prog O Resp X (Resp o)).Quiet exec M s ↔ ¬M o := by
  simp [Quiet, ask, trace]

theorem quiet_call {o : O} {k : Resp o → Prog O Resp X A} {s : S} :
    (call o k).Quiet exec M s ↔ ¬M o ∧ (k (exec o s).2).Quiet exec M (exec o s).1 := by
  simp only [Quiet, trace, forall_mem_cons]

theorem trace_bind (p : Prog O Resp X A) (f : A → Prog O Resp X B) (s : S) :
    (p >>= f).trace exec s =
      p.trace exec s ++ (match p.result exec s with
        | .ok a => (f a).trace exec (p.final exec s)
        | .error _ => []) := by
  induction p generalizing s with
  | done r =>
    cases r with
    | ok a => rfl
    | error x => rfl
  | call o k ih => exact congrArg (o :: ·) (ih _ _)

theorem result_mapStop {Y : Type} (f : X → Y) (p : Prog O Resp X A) (s : S) :
    (p.mapStop f).result exec s = (p.result exec s).mapError f := by
  induction p generalizing s with
  | done r => rfl
  | call o k ih => exact ih _ _

theorem quiet_mapStop {Y : Type} {f : X → Y} {p : Prog O Resp X A} {s : S} :
    (p.mapStop f).Quiet exec M s ↔ p.Quiet exec M s := by
  induction p generalizing s with
  | done r => exact ⟨nofun, nofun⟩
  | call o k ih => exact quiet_call.trans ((and_congr_right fun _ => ih _).trans quiet_call.symm)

section Reads

-- calls outside M leave the store as it is
variable (hM : ∀ o s, ¬M o → (exec o s).1 = s)
include hM

theorem Quiet.final_eq {p : Prog O Resp X A} {s : S} (h : p.Quiet exec M s) : p.final exec s = s := by
  induction p with
  | done r => rfl
  | call o k ih =>
    obtain ⟨ho, hk⟩ := quiet_call.1 h
    rw [hM o s ho] at hk
    calc (call o k).final exec s = (k (exec o s).2).final exec (exec o s).1 := rfl
      _ = (k (exec o s).2).final exec s := by rw [hM o s ho]
      _ = s := ih _ hk

/-- a sequence is quiet iff its first part is and, where that goes on, so is the rest on the same store -/
theorem quiet_bind {p : Prog O Resp X A} {f : A → Prog O Resp X B} {s : S} : (p >>= f).Quiet exec M s ↔
      p.Quiet exec M s ∧ ∀ a, p.result exec s = .ok a → (f a).Quiet exec M s := by
  constructor
  · intro h
    have hp : p.Quiet exec M s := fun o ho => h o (trace_bind p f s ▸ mem_append_left _ ho)
    refine ⟨hp, fun a ha o ho => h o ?_⟩
    rw [trace_bind, ha, hp.final_eq hM]
    exact mem_append_right _ ho
  · rintro ⟨hp, hf⟩ o ho
    rw [trace_bind, hp.final_eq hM] at ho
    rcases mem_append.1 ho with ho | ho
    · exact hp o ho
    · cases hr : p.result exec s with
      | error x =>
        rw [hr] at ho
        exact absurd ho not_mem_nil
      | ok a =>
        rw [hr] at ho
        exact hf a hr o ho

theorem quiet_ask_bind {o : O} {f : Resp o → Prog O Resp X B} {s : S} :
    (ask o >>= f).Quiet exec M s ↔ ¬M o ∧ (f (exec o s).2).Quiet exec M s := by
  simp only [quiet_bind hM, quiet_ask, result_ask, Except.ok.injEq, forall_eq']

theorem quiet_lift_bind {r : Except X A} {f : A → Prog O Resp X B} {s : S} :
    (lift r >>= f).Quiet exec M s ↔ ∀ a, r = .ok a → (f a).Quiet exec M s := by
  simp only [quiet_bind hM, quiet_lift, result_lift, true_and]

theorem quiet_foldlM {α : Type} {f : B → α → Prog O Resp X B} {s : S} (h : ∀ b a, (f b a).Quiet exec M s)
    (l : List α) (b : B) : (l.foldlM f b).Quiet exec M s := by
  induction l generalizing b with
  | nil => exact quiet_pure b s
  | cons a l ih =>
    rw [foldlM_cons]
    exact (quiet_bind hM).2 ⟨h b a, fun b' _ => ih b'⟩

end Reads

end Alone

/-! ## Interleaved -/

section Interleaved

variable {ι : Type} [DecidableEq ι] (exec : (o : O) → S → S × Resp o)

/-- program i makes its next call; one that has ended stays -/
def advance (c : (ι → Prog O Resp X A) × S) (i : ι) : (ι → Prog O Resp X A) × S :=
  match c.1 i with
  | done _ => c
  | call o k => (Function.update c.1 i (k (exec o c.2).2), (exec o c.2).1)

/-- the programs and the store after the calls of the schedule -/
def interleave (ps : ι → Prog O Resp X A) (s : S) (schedule : List ι) : (ι → Prog O Resp X A) × S :=
  schedule.foldl (advance exec) (ps, s)

variable {exec} {M : O → Prop}

/-- what stays the same while quiet programs take turns on the store s -/
structure Undisturbed (exec : (o : O) → S → S × Resp o) (M : O → Prop) (ps : ι → Prog O Resp X A) (s : S)
    (c : (ι → Prog O Resp X A) × S) : Prop where
  store : c.2 = s
  quiet : ∀ i, (c.1 i).Quiet exec M s
  result : ∀ i, (c.1 i).result exec s = (ps i).result exec s

theorem Undisturbed.advance (hM : ∀ o s, ¬M o → (exec o s).1 = s) {ps : ι → Prog O Resp X A} {s : S}
    {c : (ι → Prog O Resp X A) × S} (h : Undisturbed exec M ps s c) (i : ι) :
    Undisturbed exec M ps s (advance exec c i) := by
  unfold Prog.advance
  split
  · exact h
  · rename_i o k hi
    have hq := h.quiet i
    have hr := h.result i
    rw [hi] at hq hr
    obtain ⟨ho, hk⟩ := quiet_call.1 hq
    rw [hM o s ho] at hk
    rw [h.store, hM o s ho]
    refine ⟨rfl, fun j => ?_, fun j => ?_⟩
    · rcases eq_or_ne j i with rfl | hj
      · simpa only [update_self] using hk
      · simpa only [update_of_ne hj] using h.quiet j
    · rcases eq_or_ne j i with rfl | hj
      · simp only [update_self]
        rw [← hr, Prog.result, hM o s ho]
      · simpa only [update_of_ne hj] using h.result j

/-- **Quiet programs do not notice each other.** Whatever the schedule, the store stays as it was, and a program that
has ended has ended as it does alone. -/
theorem quiet_interleave (hM : ∀ o s, ¬M o → (exec o s).1 = s) {ps : ι → Prog O Resp X A} {s : S}
    (hq : ∀ i, (ps i).Quiet exec M s) (schedule : List ι) : (interleave exec ps s schedule).2 = s ∧
      ∀ i r, (interleave exec ps s schedule).1 i = done r → r = (ps i).result exec s := by
  have h : Undisturbed exec M ps s (interleave exec ps s schedule) :=
    List.foldlRecOn schedule _ (motive := Undisturbed exec M ps s) ⟨rfl, hq, fun _ => rfl⟩
      (fun _ hc i _ => hc.advance hM i)
  refine ⟨h.store, fun i r hi => ?_⟩
  rw [← h.result i, hi]
  rfl

end Interleaved

end Prog

end GitOpsDeploy
