import Netwatch.Config
import Netwatch.Netinfo

/-!
# Starting up

`main.rs` from the command line to the point where the listeners are spawned: the config is
loaded and validated, the overrides are applied on top of it, and the instance serves with
the result.

## Main definitions

- `applyOverrides` — the command line wins over the file
- `main` — what one invocation comes to
-/

namespace Netwatch

open RustStd

structure Cli where
  dnsListen : Option SocketAddr := none
  webListen : Option SocketAddr := none
  database : Option Str := none
  noFetch : Bool := false
  printConfig : Bool := false
  checkConfig : Bool := false
  rebuildDb : Bool := false

def applyOverrides (cfg : Config) (cli : Cli) : Config :=
  let cfg := match cli.dnsListen with
    | some a => { cfg with dns := { cfg.dns with listen := a } }
    | none => cfg
  let cfg := match cli.webListen with
    | some a => { cfg with web := { cfg.web with listen := a } }
    | none => cfg
  match cli.database with
  | some p => { cfg with storage := { cfg.storage with database := p } }
  | none => cfg

/-- What the machine contributes to a start. -/
structure Host where
  /-- `create_dir_all(&cfg.blocking.state_dir)` succeeds. -/
  createsStateDir : Str → Bool
  /-- `db::open` succeeds. -/
  opensDatabase : Str → Bool
  /-- `db::rebuild_database` succeeds. -/
  rebuildsDatabase : Str → Bool
  /-- The subnet of the default route's interface. -/
  lanSubnet : Option Subnet

inductive StartError
  | config (cause : ConfigError)
  | stateDir (path : Str)
  | database (path : Str)
  | subnet (cause : SubnetError)
  deriving DecidableEq

/-- What one invocation comes to. -/
inductive Outcome
  /-- `--check-config`: `config not found: {path}`, exit code 0 -/
  | checkedMissing
  /-- `--check-config`: `config OK: {path}` -/
  | checkedOk
  /-- `--check-config`: `config INVALID: {path}`, exit code 1 -/
  | checkedInvalid (cause : ConfigError)
  | rebuilt (ok : Bool)
  | printed (cfg : Config)
  | failed (cause : StartError)
  | serving (cfg : Config) (subnet : Option Subnet)

/-- `loaded` is what `load_or_default` made of the file. -/
def checkConfig (cli : Cli) (file : ConfigFile) (loaded : Except ConfigError Config) :
    Outcome :=
  match file with
  | .missing => .checkedMissing
  | _ =>
    match loaded.bind fun cfg => (applyOverrides cfg cli).validate with
    | .ok () => .checkedOk
    | .error e => .checkedInvalid e

def main (fromToml : Str → Option Config) (host : Host) (cli : Cli) (file : ConfigFile) :
    Outcome :=
  let loaded := Config.loadOrDefault fromToml file
  if cli.checkConfig then checkConfig cli file loaded
  else match loaded with
  | .error e => .failed (.config e)
  | .ok cfg =>
    let cfg := applyOverrides cfg cli
    if cli.rebuildDb then .rebuilt (host.rebuildsDatabase cfg.storage.database)
    else if cli.printConfig then .printed cfg
    else if ¬ host.createsStateDir cfg.blocking.stateDir then
      .failed (.stateDir cfg.blocking.stateDir)
    else if ¬ host.opensDatabase cfg.storage.database then
      .failed (.database cfg.storage.database)
    else match cfg.discovery.subnet with
    | none => .serving cfg host.lanSubnet
    | some s =>
      match Subnet.parseCidr s with
      | .ok subnet => .serving cfg (some subnet)
      | .error e => .failed (.subnet e)

@[simp] theorem web_adminToken_applyOverrides (cfg : Config) (cli : Cli) :
    (applyOverrides cfg cli).web.adminToken = cfg.web.adminToken := by
  rcases cli with ⟨_ | _, _ | _, _ | _, _⟩ <;> rfl

@[simp] theorem web_listen_applyOverrides (cfg : Config) (cli : Cli) :
    (applyOverrides cfg cli).web.listen = cli.webListen.getD cfg.web.listen := by
  rcases cli with ⟨_ | _, _ | _, _ | _, _⟩ <;> rfl

/-- An instance that serves runs with the loaded configuration under the overrides. -/
theorem main_eq_serving {fromToml : Str → Option Config} {host : Host} {cli : Cli}
    {file : ConfigFile} {cfg : Config} {subnet : Option Subnet}
    (h : main fromToml host cli file = .serving cfg subnet) :
    ∃ loaded, Config.loadOrDefault fromToml file = .ok loaded ∧
      cfg = applyOverrides loaded cli := by
  simp only [main] at h
  split at h
  · simp only [checkConfig] at h
    split at h
    · cases h
    · split at h <;> cases h
  · split at h
    · cases h
    · next loaded hload =>
      refine ⟨loaded, hload, ?_⟩
      repeat' split at h
      all_goals first | (injection h with hcfg _; exact hcfg.symm) | cases h

end Netwatch
