/-
Glob patterns with negation, as project rules use them (`globMatch`, `isDenyPattern`).

The glob library is a parameter: `compile pattern separators` is the compiled matcher, `none` when the pattern does not
compile. A pattern that starts with '!' denies what the rest of it matches; where negation is allowed such a pattern
matches everything else.
-/
import Mathlib.Tactic

namespace GitOpsDeploy.Project

/-- the glob library: a compiled matcher, or `none` for a pattern it rejects -/
abbrev GlobLib := String → List Char → Option (String → Bool)

variable (compile : GlobLib) (pattern val : String) (separators : List Char)

/-- `glob.Match`: a pattern that does not compile matches nothing -/
def GlobLib.matches (pattern text : String) (separators : List Char) : Bool :=
  match compile pattern separators with
  | none => false
  | some m => m text

/-- the pattern starts with '!' -/
def isDenyPattern (pattern : String) : Bool :=
  match pattern.toList with
  | '!' :: _ => true
  | _ => false

/-- `pattern[1:]` -/
def denyBase (pattern : String) : String := String.ofList (pattern.toList.drop 1)

def globMatch (allowNegation : Bool) (separators : List Char) : Bool :=
  if allowNegation && isDenyPattern pattern then !compile.matches (denyBase pattern) val separators
  else if pattern == "*" then true
  else compile.matches pattern val separators

/-- a negated pattern whose base matches the value -/
def denies : Bool :=
  isDenyPattern pattern && compile.matches (denyBase pattern) val separators

/-- where negation is allowed, a negated pattern denies exactly what it does not match -/
theorem denies_eq : denies compile pattern val separators =
      (isDenyPattern pattern && !globMatch compile pattern val true separators) := by
  unfold denies globMatch
  cases isDenyPattern pattern <;> simp

end GitOpsDeploy.Project
