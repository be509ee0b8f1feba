-- SUMMARY: The notify server's rate limiter for write requests: its maps of fixed windows, its checks and its pruning.
import Mathlib.Data.Rat.Floor
import Mathlib.Order.Monotone.Basic
import DeadMansVault.Library.Machine
import DeadMansVault.Library.Window

/-!
# The write limiter

Every write request is charged to its address, and then to its owner, vault and token.
Each of these has a map from keys to fixed windows. A map is pruned of the windows that
have ended: by a sweep, and at a hit that finds it over `mapCap`.
-/

namespace DeadMansVault.Notify

namespace WriteLimiter

def ipWindowMs : Int := 60000
def ipMax : Nat := 30
def facetWindowMs : Int := 600000
def ownerMax : Nat := 10
def vaultMax : Nat := 10
def tokenMax : Nat := 6
def adminWindowMs : Int := 60000
def adminMax : Nat := 20

/-- The cap on the entries of a map. -/
def mapCap : Nat := 50000

/-- The maps of the limiter. -/
inductive Facet
  | ip
  | owner
  | vault
  | token
  | adminIp
  deriving DecidableEq, Repr

/-- How many hits a window of the facet grants. -/
def Facet.max : Facet → Nat
  | .ip => ipMax
  | .owner => ownerMax
  | .vault => vaultMax
  | .token => tokenMax
  | .adminIp => adminMax

def Facet.windowMs : Facet → Int
  | .ip => ipWindowMs
  | .owner | .vault | .token => facetWindowMs
  | .adminIp => adminWindowMs

theorem Facet.max_pos (facet : Facet) : 1 ≤ facet.max := by
  cases facet <;> decide

theorem Facet.windowMs_pos (facet : Facet) : 0 < facet.windowMs := by
  cases facet <;> decide

abbrev Buckets := Std.HashMap String (Window Int)

/-- Delete the entries whose window has ended at time `t`. -/
def pruneMap (map : Buckets) (t : Int) : Buckets :=
  map.filter fun _ b => t < b.resetAt

/-- What a check returns. -/
structure Reply where
  ok : Bool
  retryAfter : Int
  deriving DecidableEq, Repr

/-- One hit on a key, and the window that it left. -/
structure Hit where
  facet : Facet
  key : String
  time : Int
  bucket : Window Int
  deriving DecidableEq, Repr

/-- The seconds that a denied hit is told to wait are rounded up. -/
def Hit.reply (h : Hit) : Reply :=
  if h.facet.max < h.bucket.count then
    ⟨false, Max.max 1 (Rat.ceil (((h.bucket.resetAt - h.time : Int) : Rat) / 1000))⟩
  else
    ⟨true, 0⟩

end WriteLimiter

open WriteLimiter

/-- The state of the limiter. `reads` counts the readings of the injected clock, and `log`
    lists the hits charged so far; the code keeps neither. -/
structure WriteLimiter where
  maps : Facet → Buckets
  reads : Nat
  log : List Hit

namespace WriteLimiter

/-- The limiter of `makeWriteRateLimiter`. -/
def make : WriteLimiter :=
  { maps := fun _ => ∅, reads := 0, log := [] }

section

/-! The injected clock gives its reading `i` as `now i`. How a map is pruned is a parameter:
the code prunes by `pruneMap`, and a limiter that never prunes leaves the map as it is. -/

variable (prune : Buckets → Int → Buckets) (now : Nat → Int)

def sweep (s : WriteLimiter) : WriteLimiter :=
  { s with maps := fun facet => prune (s.maps facet) (now s.reads), reads := s.reads + 1 }

/-- Charge one hit against the window of a key. -/
def hit (s : WriteLimiter) (facet : Facet) (key : String) : WriteLimiter × Hit :=
  let t := now s.reads
  let map := s.maps facet
  let map := if mapCap < map.size then prune map t else map
  let b := Window.charge facet.windowMs t map[key]?
  let h : Hit := ⟨facet, key, t, b⟩
  ({ maps := Function.update s.maps facet (map.insert key b)
     reads := s.reads + 1
     log := s.log ++ [h] }, h)

/-- Check facets in order, up to the first failure. -/
def checkAll (s : WriteLimiter) : List (Facet × String) → WriteLimiter × Reply
  | [] => (s, ⟨true, 0⟩)
  | (facet, key) :: rest =>
      let (s, h) := hit prune now s facet key
      if h.reply.ok then checkAll s rest else (s, h.reply)

/-- The calls a limiter serves, with keys that have been turned into strings. -/
inductive Call
  | checkIp (k : String)
  | checkOwner (k : String)
  | checkVault (k : String)
  | checkTokenHash (k : String)
  | checkAdminIp (k : String)
  | checkFacets (owner vault tokenHash : Option String)
  | sweep
  deriving DecidableEq, Repr

/-- The facets that a call checks, in order. `checkFacets` skips those it is not given. -/
def Call.facets : Call → List (Facet × String)
  | .checkIp k => [(.ip, k)]
  | .checkOwner k => [(.owner, k)]
  | .checkVault k => [(.vault, k)]
  | .checkTokenHash k => [(.token, k)]
  | .checkAdminIp k => [(.adminIp, k)]
  | .checkFacets owner vault tokenHash =>
      owner.toList.map (Facet.owner, ·) ++ vault.toList.map (Facet.vault, ·) ++
        tokenHash.toList.map (Facet.token, ·)
  | .sweep => []

/-- Serve a call. A sweep returns nothing. -/
def serve : Machine WriteLimiter Call Reply := fun s call =>
  match call with
  | .sweep => (sweep prune now s, [])
  | call => ((checkAll prune now s call.facets).1, [(checkAll prune now s call.facets).2])

end

/-- The limiter that never prunes, for comparison. -/
def keepAll (map : Buckets) (_ : Int) : Buckets := map

/-- The hits of the log on one key of one facet. -/
def hitsOn (s : WriteLimiter) (facet : Facet) (key : String) : List Hit :=
  s.log.filter fun h => h.facet = facet ∧ h.key = key

end WriteLimiter

end DeadMansVault.Notify
