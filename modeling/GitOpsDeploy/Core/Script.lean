/-
Programs that issue calls and may return early.

A `Script` is the list of calls that were issued, in order, and the value the program went on with or the way it
returned. It is a monad, so that code with many exits is written down as it stands.
-/
import GitOpsDeploy.Core.Fallible

namespace GitOpsDeploy

/-- calls of type E; X is an early return, A the value to go on with -/
structure Script (E X A : Type) where
  calls : List E
  result : Except X A

namespace Script

variable {E X A B : Type}

instance : Monad (Script E X) where
  pure a := ⟨[], .ok a⟩
  bind o f :=
    match o.result with
    | .error x => ⟨o.calls, .error x⟩
    | .ok a => ⟨o.calls ++ (f a).calls, (f a).result⟩

/-- issue a call -/
def emit (e : E) : Script E X Unit := ⟨[e], .ok ()⟩

/-- return early -/
def stop (x : X) : Script E X A := ⟨[], .error x⟩

/-- a step without calls that may fail -/
def lift (r : Except X A) : Script E X A := ⟨[], r⟩

/-- the same calls with another way to return -/
def mapStop {Y : Type} (f : X → Y) (o : Script E X A) : Script E Y A := ⟨o.calls, o.result.mapError f⟩

@[simp] theorem calls_pure (a : A) : (pure a : Script E X A).calls = [] := rfl
@[simp] theorem result_pure (a : A) : (pure a : Script E X A).result = .ok a := rfl
@[simp] theorem calls_emit (e : E) : (emit e : Script E X Unit).calls = [e] := rfl
@[simp] theorem result_emit (e : E) : (emit e : Script E X Unit).result = .ok () := rfl
@[simp] theorem calls_stop (x : X) : (stop x : Script E X A).calls = [] := rfl
@[simp] theorem result_stop (x : X) : (stop x : Script E X A).result = .error x := rfl
@[simp] theorem calls_lift (r : Except X A) : (lift r : Script E X A).calls = [] := rfl
@[simp] theorem result_lift (r : Except X A) : (lift r : Script E X A).result = r := rfl
@[simp] theorem calls_mapStop {Y : Type} (f : X → Y) (o : Script E X A) : (o.mapStop f).calls = o.calls := rfl

@[simp] theorem result_mapStop_ok {Y : Type} (f : X → Y) (o : Script E X A) (a : A) :
    (o.mapStop f).result = .ok a ↔ o.result = .ok a :=
  Fallible.mapError_eq_ok

variable {o : Script E X A}

theorem bind_of_ok {a : A} (h : o.result = .ok a) (f : A → Script E X B) :
    o >>= f = ⟨o.calls ++ (f a).calls, (f a).result⟩ := by
  simp only [bind, h]

theorem bind_of_error {x : X} (h : o.result = .error x) (f : A → Script E X B) : o >>= f = ⟨o.calls, .error x⟩ := by
  simp only [bind, h]

theorem mem_calls_bind {f : A → Script E X B} {e : E} :
    e ∈ (o >>= f).calls ↔ e ∈ o.calls ∨ ∃ a, o.result = .ok a ∧ e ∈ (f a).calls := by
  cases h : o.result with
  | error x => simp [bind_of_error h]
  | ok a => simp [bind_of_ok h]

theorem result_bind {f : A → Script E X B} {b : B} :
    (o >>= f).result = .ok b ↔ ∃ a, o.result = .ok a ∧ (f a).result = .ok b := by
  cases h : o.result with
  | error x => simp [bind_of_error h]
  | ok a => simp [bind_of_ok h]

end Script

end GitOpsDeploy
