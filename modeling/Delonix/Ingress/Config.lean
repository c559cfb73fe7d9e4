import Mathlib.Tactic.Common

/-! The configuration of a proxy instance: a part that documents asked for, a part that containers
registered themselves, and the configuration composed of both, which the proxy serves.
-/

namespace Delonix.Ingress

/-- Where a proxy instance lives. -/
inductive Where where
  | holder
  | host
deriving DecidableEq, Repr

structure Listener where
  port : Nat
  tls : Bool
  addr : Option String
  /-- The documents that asked for the port. -/
  sources : List String
deriving DecidableEq, Repr

structure Route where
  host : String
  path : String
  backend : String
  /-- The document the route comes from. -/
  source : String
deriving DecidableEq, Repr

structure TlsMaterial where
  certPem : String
  keyPem : String
  mode : String
deriving DecidableEq, Repr

/-- A name that a document publishes. -/
structure PublishedHost where
  host : String
  source : String
  addr : Option String
deriving DecidableEq, Repr

/-- An address that a document holds. -/
structure PoolClaim where
  source : String
  pool : String
  addr : String
deriving DecidableEq, Repr

/-- Who owns the routes of a document. -/
structure Stamp where
  source : String
  kind : String
  stack : String
  lastApplied : String
deriving DecidableEq, Repr

structure ProxyConfig where
  listeners : List Listener
  routes : List Route
  tls : Option TlsMaterial
  publishedHosts : List PublishedHost
  claims : List PoolClaim
  stamps : List Stamp
  bind : Option String
deriving DecidableEq, Repr

/-- A route that a container registered. -/
structure AutoRoute where
  name : String
  namespaceName : String
  ip : String
  port : Nat
deriving DecidableEq, Repr

def AutoRoute.fqdn (a : AutoRoute) : String :=
  a.name ++ "." ++ a.namespaceName ++ ".svc.delonix.internal"

def AutoRoute.legacyFqdn (a : AutoRoute) : String :=
  a.name ++ "." ++ a.namespaceName ++ ".delonix.internal"

/-- The files of an instance, those that exist. -/
structure Files where
  manual : Option ProxyConfig
  auto : Option (List AutoRoute)
  config : Option ProxyConfig
deriving DecidableEq, Repr

def noFiles : Files := { manual := none, auto := none, config := none }

def autoHttpPort : Nat := 8080

/-- The registered routes that an instance serves. -/
def autoOf (w : Where) (auto : Option (List AutoRoute)) : List AutoRoute :=
  if w = .holder then auto.getD [] else []

def composedListeners (manual : Option ProxyConfig) (auto : List AutoRoute) : List Listener :=
  let listeners := (manual.map (·.listeners)).getD []
  if !auto.isEmpty && !(listeners.any fun l => l.port = autoHttpPort) then
    listeners ++ [{ port := autoHttpPort, tls := false, addr := none, sources := [] }]
  else listeners

/-- A registered route under both of its names. -/
def AutoRoute.routes (a : AutoRoute) : List Route :=
  [a.fqdn, a.legacyFqdn].map fun host =>
    { host, path := "/", backend := a.ip ++ ":" ++ toString a.port, source := "" }

def composedRoutes (manual : Option ProxyConfig) (auto : List AutoRoute) : List Route :=
  (manual.map (·.routes)).getD [] ++ auto.flatMap AutoRoute.routes

/-- The configuration to serve, if there is anything to serve. -/
def compose (w : Where) (manual : Option ProxyConfig) (auto : List AutoRoute)
    : Option ProxyConfig :=
  let listeners := composedListeners manual auto
  let routes := composedRoutes manual auto
  if listeners.isEmpty || routes.isEmpty then none
  else
    some {
      listeners
      routes
      tls := manual.bind (·.tls)
      publishedHosts := []
      claims := (manual.map (·.claims)).getD []
      stamps := []
      bind := (manual.bind (·.bind)).or (if w = .host then some "127.0.0.1" else none)
    }

/-- Full teardown: the sources go as well. -/
def stop (w : Where) (files : Files) : Files :=
  { manual := none, auto := if w = .holder then none else files.auto, config := none }

/-- Composes the configuration anew, or stops the proxy. -/
def rebuild (w : Where) (files : Files) : Files :=
  match compose w files.manual (autoOf w files.auto) with
  | some config => { files with config := some config }
  | none => stop w files

/-- What containers registered is served. -/
theorem compose_auto (w : Where) (manual : Option ProxyConfig) {auto : List AutoRoute}
    (some : auto ≠ [])
    : compose w manual auto ≠ none := by
  obtain ⟨first, rest, rfl⟩ := List.exists_cons_of_ne_nil some
  have listeners : (composedListeners manual (first :: rest)).isEmpty = false := by
    rw [composedListeners]
    cases found : ((manual.map (·.listeners)).getD []).any fun l => l.port = autoHttpPort with
    | true =>
        obtain ⟨l, member, -⟩ := List.any_eq_true.mp found
        simpa [found] using List.ne_nil_of_mem member
    | false => simp
  have routes : (composedRoutes manual (first :: rest)).isEmpty = false := by
    simp [composedRoutes, AutoRoute.routes]
  simp [compose, listeners, routes]

end Delonix.Ingress
