/-
The part of an AppProject that decides who may use it and where it may deploy: roles with their JWT tokens (in the
spec, and by role name in the status) and destination rules. Fields that no modelled function reads (descriptions,
policies, resource lists, sync windows) are left out.
-/
import Mathlib.Data.List.AList
import Mathlib.Tactic

namespace GitOpsDeploy.Project

/-- a token issued for a project role -/
structure JWTToken where
  issuedAt : ℤ
  expiresAt : ℤ
  id : String
deriving DecidableEq, Repr

structure ProjectRole where
  name : String
  jwtTokens : List JWTToken
deriving DecidableEq, Repr

/-- a destination rule of a project, or the destination of an application -/
structure ApplicationDestination where
  server : String
  name : String
  ns : String
deriving DecidableEq, Repr

structure AppProject where
  name : String
  roles : List ProjectRole
  destinations : List ApplicationDestination
  /-- `Status.JWTTokensByRole`; a nil map reads like an empty one -/
  jwtTokensByRole : AList fun _ : String => List JWTToken

/-- `proj.Status.JWTTokensByRole[roleName].Items` -/
def AppProject.statusTokens (p : AppProject) (roleName : String) : List JWTToken :=
  (p.jwtTokensByRole.lookup roleName).getD []

end GitOpsDeploy.Project
