import Eunha.Sanitizer
import Mathlib.Algebra.GroupWithZero.Nat
import Mathlib.Data.List.AList
import Mathlib.Data.List.DropRight
import Mathlib.Data.List.Sort

/-!
# The tenants of a process

A process serves a registry of tenants, each by its host, and hands a request to one of them
by the host it names. A reload compares what runs with a list of configurations: it publishes
a registry without what is stopped or restarted, stops those, starts what is not running, and
publishes the registry it ends with. Requests are looked up all the while.
-/
namespace Eunha.Tenants
open Sanitizer (trim)

/-! ### Hosts -/

abbrev Host := List Char

/-- `trim_end_matches('.')` -/
def trimDots (host : Host) : Host := host.rdropWhile (· = '.')

def normalizeHost (host : Host) : Host := (trimDots (trim host)).map Char.toLower

/-- `rsplit_once(':')` -/
def rsplitColon (host : Host) : Option (Host × Host) :=
  if ':' ∈ host then
    some ((host.rdropWhile (· ≠ ':')).dropLast, host.rtakeWhile (· ≠ ':'))
  else none

/-! ### Configurations -/

/-- What a process reads of a tenant's configuration. `rest` stands for the settings that
only its fingerprint reads. -/
structure Config where
  domain : Host
  aliases : List Host
  bindAddress : String
  processDeliveryConcurrency : ℕ
  processMaxTenants : Option ℕ
  processDatabaseConnections : Option ℕ
  maxConnections : ℕ
  maxConcurrentRequests : Option ℕ
  rest : String
  deriving DecidableEq

structure TenantConfig where
  source : String
  config : Config
  deriving DecidableEq

def TenantConfig.host (t : TenantConfig) : Host := normalizeHost t.config.domain

def TenantConfig.instanceHosts (t : TenantConfig) : List Host :=
  (t.config.domain :: t.config.aliases).map normalizeHost

/-- `workers.sanitized().process_delivery_concurrency` -/
def Config.deliveryConcurrency (c : Config) : ℕ := max c.processDeliveryConcurrency 1

/-- `limits.max_tenants()` -/
def Config.maxTenants (c : Config) : ℕ := max (c.processMaxTenants.getD 50) 1

/-- `limits.request_limit(shared)` -/
def Config.requestLimit (c : Config) (shared : Bool) : Option ℕ :=
  (c.maxConcurrentRequests.or (if shared then some 64 else none)).map (max · 1)

inductive Refusal where
  | noTenants
  | listeners (first theirs : TenantConfig)
  | deliveries (first theirs : TenantConfig)
  | ceilings (first theirs : TenantConfig)
  | budgets (first theirs : TenantConfig)
  | emptyHost (source : String)
  | bothServe (other source : String) (host : Host)
  | tooMany (tenants ceiling : ℕ)
  | overBudget (wanted budget : ℕ)
  | databaseServers
  | movesListener (next atStart : String)
  | changesDeliveries (next atStart : ℕ)
  | notStarted (source : String)
  deriving DecidableEq

structure ProcessSettings where
  bindAddress : String
  deliveryConcurrency : ℕ
  maxTenants : ℕ
  databaseConnections : Option ℕ
  deriving DecidableEq

def seeHosts (source : String) (seen : List (Host × String)) :
    List Host → Except Refusal (List (Host × String))
  | [] => .ok seen
  | host :: hosts =>
      if host = [] then .error (.emptyHost source)
      else
        match seen.lookup host with
        | some other => .error (.bothServe other source host)
        | none => seeHosts source ((host, source) :: seen) hosts

def agree (first : TenantConfig) (seen : List (Host × String)) :
    List TenantConfig → Except Refusal Unit
  | [] => .ok ()
  | t :: rest =>
      if t.config.bindAddress ≠ first.config.bindAddress then .error (.listeners first t)
      else if t.config.deliveryConcurrency ≠ first.config.deliveryConcurrency then
        .error (.deliveries first t)
      else if t.config.maxTenants ≠ first.config.maxTenants then .error (.ceilings first t)
      else if t.config.processDatabaseConnections ≠ first.config.processDatabaseConnections then
        .error (.budgets first t)
      else
        match seeHosts t.source seen t.instanceHosts with
        | .error refusal => .error refusal
        | .ok seen => agree first seen rest

def processSettings : List TenantConfig → Except Refusal ProcessSettings
  | [] => .error .noTenants
  | first :: rest =>
      match agree first [] (first :: rest) with
      | .error refusal => .error refusal
      | .ok () =>
          .ok ⟨first.config.bindAddress, first.config.deliveryConcurrency,
            first.config.maxTenants, first.config.processDatabaseConnections⟩

/-- `admit` -/
def admitConfigs (configs : List TenantConfig) (settings : ProcessSettings) : Except Refusal Unit :=
  if settings.maxTenants < configs.length then
    .error (.tooMany configs.length settings.maxTenants)
  else
    match settings.databaseConnections with
    | none => .ok ()
    | some budget =>
        let wanted := (configs.map (·.config.maxConnections)).sum
        if budget < wanted then .error (.overBudget wanted budget) else .ok ()

def checkReloadable (atStart next : ProcessSettings) : Except Refusal Unit :=
  if next.bindAddress ≠ atStart.bindAddress then
    .error (.movesListener next.bindAddress atStart.bindAddress)
  else if next.deliveryConcurrency ≠ atStart.deliveryConcurrency then
    .error (.changesDeliveries next.deliveryConcurrency atStart.deliveryConcurrency)
  else .ok ()

/-! ### The registry -/

abbrev HostMap (V : Type) := AList fun _ : Host => V

/-- The state of a started instance; `id` tells one start from another. -/
structure AppState where
  id : ℕ
  config : Config
  deriving DecidableEq

structure Tenant where
  state : AppState
  inFlight : Option ℕ
  deriving DecidableEq

def Tenant.new (state : AppState) (shared : Bool) : Tenant :=
  ⟨state, state.config.requestLimit shared⟩

inductive Slot where
  | serving (t : Tenant)
  | unavailable
  deriving DecidableEq

structure Registry where
  byHost : HostMap Slot
  aliases : HostMap Host
  only : Option Tenant

/-- `Registry::with_aliases`: a lone serving tenant answers every host. -/
def Registry.withAliases (byHost : HostMap Slot) (aliases : HostMap Host) : Registry where
  byHost := byHost
  aliases := aliases
  only :=
    match byHost.entries with
    | [⟨_, .serving t⟩] => some t
    | _ => none

inductive Lookup where
  | serving (t : Tenant)
  | unavailable
  | unknown
  deriving DecidableEq

def Registry.beforePort (r : Registry) (host : Host) : Option Slot :=
  match rsplitColon host with
  | none => none
  | some (name, port) => if port.all Char.isDigit then r.byHost.lookup name else none

def Registry.lookup (r : Registry) (host : Host) : Lookup :=
  match r.only with
  | some t => .serving t
  | none =>
      let host := normalizeHost host
      let canonical := (r.aliases.lookup host).getD host
      match (r.byHost.lookup canonical).or (r.beforePort host) with
      | some (.serving t) => .serving t
      | some .unavailable => .unavailable
      | none => .unknown

def aliases (configs : List TenantConfig) : HostMap Host :=
  (configs.flatMap fun t => t.config.aliases.map fun a => (normalizeHost a, t.host)).foldl
    (fun m entry => m.insert entry.1 entry.2) ∅

/-! ### The process -/

structure Running where
  state : AppState
  fingerprint : UInt64
  deriving DecidableEq

/-- `next` is the number of tenants started so far. -/
structure Process where
  registry : Registry
  settings : ProcessSettings
  running : HostMap Running
  next : ℕ

/-- What the database servers and the starts of tenants answer. -/
structure Answers where
  servers : Bool
  starts : Host → Bool

structure Plan where
  start : List Host
  restart : List Host
  stop : List Host
  keep : List Host
  deriving DecidableEq

structure Reloaded where
  started : List Host
  restarted : List Host
  stopped : List Host
  unavailable : List Host
  kept : List Host
  deriving DecidableEq

def sorted (hosts : List Host) : List Host := hosts.insertionSort (· ≤ ·)

/-- The checks of what the process can hold: `admit`, and what the database servers accept. -/
def canHold (configs : List TenantConfig) (answers : Answers) (settings : ProcessSettings) :
    Except Refusal Unit :=
  match admitConfigs configs settings with
  | .error refusal => .error refusal
  | .ok () => if answers.servers then .ok () else .error .databaseServers

def reloadable (configs : List TenantConfig) (answers : Answers) (atStart : ProcessSettings) :
    Except Refusal Unit :=
  match processSettings configs with
  | .error refusal => .error refusal
  | .ok settings =>
      match checkReloadable atStart settings with
      | .error refusal => .error refusal
      | .ok () => canHold configs answers settings

section
variable (fingerprint : Config → UInt64)

def plan (current : HostMap (Option UInt64)) (next : List TenantConfig) : Plan :=
  let kept := fun t : TenantConfig =>
    current.lookup t.host = some (some (fingerprint t.config))
  let runs := fun t : TenantConfig => (current.lookup t.host).join.isSome
  { start := sorted ((next.filter fun t => !runs t).map (·.host))
    restart := sorted ((next.filter fun t => runs t && !kept t).map (·.host))
    stop := sorted (current.keys.filter (· ∉ next.map (·.host)))
    keep := sorted ((next.filter (kept ·)).map (·.host)) }

/-- What the loop over the started tenants changes. -/
structure Loop where
  byHost : HostMap Slot
  running : HostMap Running
  next : ℕ
  reloaded : Reloaded

def Loop.empty : Loop := ⟨∅, ∅, 0, ⟨[], [], [], [], []⟩⟩

def Loop.start (answers : Answers) (shared : Bool) (restart : List Host) (l : Loop)
    (t : TenantConfig) : Loop :=
  if answers.starts t.host then
    let state : AppState := ⟨l.next, t.config⟩
    { byHost := l.byHost.insert t.host (.serving (.new state shared))
      running := l.running.insert t.host ⟨state, fingerprint t.config⟩
      next := l.next + 1
      reloaded :=
        if t.host ∈ restart then
          { l.reloaded with restarted := l.reloaded.restarted ++ [t.host] }
        else { l.reloaded with started := l.reloaded.started ++ [t.host] } }
  else
    { l with
      byHost := l.byHost.insert t.host .unavailable
      reloaded := { l.reloaded with unavailable := l.reloaded.unavailable ++ [t.host] } }

def started (configs : List TenantConfig) (answers : Answers) (settings : ProcessSettings) :
    Process :=
  let l := configs.foldl (Loop.start fingerprint answers (configs.length ≠ 1) []) .empty
  ⟨.withAliases l.byHost (aliases configs), settings, l.running, l.next⟩

/-- `start`: a lone tenant that cannot start stops the process. -/
def start (configs : List TenantConfig) (answers : Answers) : Except Refusal Process :=
  match processSettings configs with
  | .error refusal => .error refusal
  | .ok settings =>
      match canHold configs answers settings with
      | .error refusal => .error refusal
      | .ok () =>
          match configs with
          | [t] =>
              if answers.starts t.host then .ok (started fingerprint [t] answers settings)
              else .error (.notStarted t.source)
          | _ => .ok (started fingerprint configs answers settings)

def Process.fingerprints (p : Process) : HostMap (Option UInt64) :=
  p.registry.byHost.keys.foldl
    (fun m host => m.insert host ((p.running.lookup host).map (·.fingerprint))) ∅

def takeLimit (running : HostMap Running) (shared : Bool) (byHost : HostMap Slot) (host : Host) :
    HostMap Slot :=
  match running.lookup host with
  | some t => byHost.insert host (.serving (.new t.state shared))
  | none => byHost

def Process.plan (p : Process) (configs : List TenantConfig) : Plan :=
  Tenants.plan fingerprint p.fingerprints configs

def Process.outOfService (p : Process) (plan : Plan) : HostMap Slot :=
  plan.restart.foldl (fun m host => m.insert host .unavailable)
    (plan.stop.foldl (fun m host => m.erase host) p.registry.byHost)

/-- What runs once the tenants to stop and restart were stopped. -/
def Process.leftRunning (p : Process) (plan : Plan) : HostMap Running :=
  (plan.stop ++ plan.restart).foldl (fun m host => m.erase host) p.running

def Process.starting (p : Process) (configs : List TenantConfig) : List TenantConfig :=
  configs.filter (·.host ∉ (p.plan fingerprint configs).keep)

def Process.loop (p : Process) (configs : List TenantConfig) (answers : Answers)
    (done : List TenantConfig) : Loop :=
  let plan := p.plan fingerprint configs
  done.foldl (Loop.start fingerprint answers (1 < configs.length) plan.restart)
    ⟨p.outOfService plan, p.leftRunning plan, p.next, ⟨[], [], plan.stop, [], plan.keep⟩⟩

def Process.lastByHost (p : Process) (configs : List TenantConfig) (l : Loop) : HostMap Slot :=
  let wasShared : Bool := 1 < p.registry.byHost.entries.length
  let shared : Bool := 1 < configs.length
  if shared ≠ wasShared then
    (p.plan fingerprint configs).keep.foldl (takeLimit l.running shared) l.byHost
  else l.byHost

def Process.carryOut (p : Process) (configs : List TenantConfig) (answers : Answers) :
    List Process × Reloaded :=
  let aliasMap := aliases configs
  let starting := p.starting fingerprint configs
  let out :=
    { p with registry := .withAliases (p.outOfService (p.plan fingerprint configs)) aliasMap }
  let loop := p.loop fingerprint configs answers
  ([out] ++ (starting.inits.map fun done =>
      { out with running := (loop done).running, next := (loop done).next }) ++
    [{ out with
      registry := .withAliases (p.lastByHost fingerprint configs (loop starting)) aliasMap
      running := (loop starting).running
      next := (loop starting).next }], (loop starting).reloaded)

/-- `Tenants::reload`: the states the process goes through, and what comes of it. -/
def Process.reload (p : Process) (configs : List TenantConfig) (answers : Answers) :
    List Process × Except Refusal Reloaded :=
  match reloadable configs answers p.settings with
  | .error refusal => ([], .error refusal)
  | .ok () => ((p.carryOut fingerprint configs answers).1,
      .ok (p.carryOut fingerprint configs answers).2)

def Process.reloaded (p : Process) (configs : List TenantConfig) (answers : Answers) : Process :=
  ((p.reload fingerprint configs answers).1.getLast?).getD p

/-- Every state a process can be in while no reload is in progress, with the configurations
put in place last. -/
inductive Reached : Process → List TenantConfig → Prop
  | start {configs : List TenantConfig} {answers : Answers} {p : Process} :
      start fingerprint configs answers = .ok p → Reached p configs
  | refused {p : Process} {configs next : List TenantConfig} {answers : Answers}
      {refusal : Refusal} : Reached p configs →
      (p.reload fingerprint next answers).2 = .error refusal →
      Reached (p.reloaded fingerprint next answers) configs
  | reloaded {p : Process} {configs next : List TenantConfig} {answers : Answers}
      {done : Reloaded} : Reached p configs →
      (p.reload fingerprint next answers).2 = .ok done →
      Reached (p.reloaded fingerprint next answers) next

/-- Every state a process can be in at all, with the configurations being replaced and those
being put in place. -/
inductive Passed : Process → List TenantConfig → List TenantConfig → Prop
  | between {p : Process} {configs : List TenantConfig} :
      Reached fingerprint p configs → Passed p configs configs
  | reloading {p m : Process} {configs next : List TenantConfig} {answers : Answers} :
      Reached fingerprint p configs → m ∈ (p.reload fingerprint next answers).1 →
      Passed m configs next

end

end Eunha.Tenants
