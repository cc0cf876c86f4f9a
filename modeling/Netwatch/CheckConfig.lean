import Netwatch.Startup

/-!
# `--check-config` against a real start

The check and the start share `load_or_default` and `apply_overrides`. They part after that:
the check validates the overridden config and stops, while the start validates nothing more
and parses `discovery.subnet`, which the validator never looks at.

## Main results

- `checkConfig_agrees_iff` — when the verdict of the check is the verdict of the start
-/

namespace Netwatch

open RustStd

variable {fromToml : Str → Option Config} {lan : Option Subnet} {cli : Cli} {file : ConfigFile}

/-- A machine on which nothing but the configuration can stop a start. -/
def Host.sound (lan : Option Subnet) : Host where
  createsStateDir := fun _ => true
  opensDatabase := fun _ => true
  rebuildsDatabase := fun _ => true
  lanSubnet := lan

namespace Outcome

/-- Exit code 0 of `--check-config`. -/
def reportsSuccess : Outcome → Bool
  | checkedMissing => true
  | checkedOk => true
  | _ => false

/-- The start is past every step that the configuration can fail. -/
def isServing : Outcome → Bool
  | serving _ _ => true
  | _ => false

end Outcome

namespace Cli

/-- The same command line, asked for a check. -/
def checking (cli : Cli) : Cli := { cli with checkConfig := true }

/-- The same command line, asked to start. -/
def starting (cli : Cli) : Cli :=
  { cli with checkConfig := false, printConfig := false, rebuildDb := false }

end Cli

/-- The verdict of the check on this file and these overrides is that of a start. -/
def CheckAgrees (fromToml : Str → Option Config) (lan : Option Subnet) (cli : Cli)
    (file : ConfigFile) : Prop :=
  (main fromToml (.sound lan) cli.checking file).reportsSuccess = true ↔
    (main fromToml (.sound lan) cli.starting file).isServing = true

/-- `discovery.subnet` is absent or in CIDR notation. -/
def DiscoveryConfig.WellFormed (cfg : DiscoveryConfig) : Prop :=
  ∀ s, cfg.subnet = some s → ∃ subnet, Subnet.parseCidr s = .ok subnet

@[simp] theorem applyOverrides_checking (cfg : Config) (cli : Cli) :
    applyOverrides cfg cli.checking = applyOverrides cfg cli := rfl

@[simp] theorem applyOverrides_starting (cfg : Config) (cli : Cli) :
    applyOverrides cfg cli.starting = applyOverrides cfg cli := rfl

@[simp] theorem discovery_applyOverrides (cfg : Config) (cli : Cli) :
    (applyOverrides cfg cli).discovery = cfg.discovery := by
  rcases cli with ⟨_ | _, _ | _, _ | _, _⟩ <;> rfl

theorem main_checking (fromToml : Str → Option Config) (host : Host) (cli : Cli)
    (file : ConfigFile) :
    main fromToml host cli.checking file =
      checkConfig cli.checking file (Config.loadOrDefault fromToml file) := rfl

theorem reportsSuccess_verdict (r : Except ConfigError Unit) :
    (match r with
      | .ok () => Outcome.checkedOk
      | .error e => .checkedInvalid e).reportsSuccess = true ↔ r = .ok () := by
  cases r with
  | error e => simp [Outcome.reportsSuccess]
  | ok u => simp [Outcome.reportsSuccess]

/-- The check stops at an absent file, and otherwise passes a config that loads and is valid
under the overrides. -/
theorem checkConfig_reportsSuccess_iff {loaded : Except ConfigError Config} :
    (checkConfig cli file loaded).reportsSuccess = true ↔
      file = .missing ∨ ∃ cfg, loaded = .ok cfg ∧ (applyOverrides cfg cli).Valid := by
  have hbind : (loaded.bind fun cfg => (applyOverrides cfg cli).validate) = .ok () ↔
      ∃ cfg, loaded = .ok cfg ∧ (applyOverrides cfg cli).Valid := by
    cases loaded with
    | error e => simp [Except.bind]
    | ok cfg => simp [Except.bind, Config.validate_eq_ok_iff]
  cases file with
  | missing => simp [checkConfig, Outcome.reportsSuccess]
  | unreadable =>
    simp only [checkConfig, reduceCtorEq, false_or]
    exact (reportsSuccess_verdict _).trans hbind
  | text contents =>
    simp only [checkConfig, reduceCtorEq, false_or]
    exact (reportsSuccess_verdict _).trans hbind

theorem isServing_start (cfg : Config) :
    (match cfg.discovery.subnet with
      | none => Outcome.serving cfg lan
      | some s =>
        match Subnet.parseCidr s with
        | .ok subnet => .serving cfg (some subnet)
        | .error e => .failed (.subnet e)).isServing = true ↔ cfg.discovery.WellFormed := by
  rw [DiscoveryConfig.WellFormed]
  cases cfg.discovery.subnet with
  | none => simp [Outcome.isServing]
  | some s => cases hs : Subnet.parseCidr s <;> simp [Outcome.isServing, hs]

/-- A start gets past the configuration when the file loads and `discovery.subnet` parses;
the overridden config is not validated again. -/
theorem main_isServing_iff :
    (main fromToml (.sound lan) cli.starting file).isServing = true ↔
      ∃ cfg, Config.loadOrDefault fromToml file = .ok cfg ∧ cfg.discovery.WellFormed := by
  cases hload : Config.loadOrDefault fromToml file with
  | error e => simp [main, Cli.starting, hload, Outcome.isServing]
  | ok cfg =>
    simp only [main, Cli.starting, hload, Host.sound, Bool.false_eq_true, if_false, not_true,
      Except.ok.injEq, exists_eq_left']
    have hsame : (applyOverrides cfg cli.starting).discovery.WellFormed ↔
        cfg.discovery.WellFormed := by rw [discovery_applyOverrides]
    exact (isServing_start (applyOverrides cfg cli.starting)).trans hsame

/-- The built-in defaults have no `discovery.subnet`. -/
theorem wellFormed_default : DiscoveryConfig.WellFormed {} := by
  intro s hs
  cases hs

/-- `--web-listen` takes the dashboard off loopback and the config has no token to protect
it. -/
def Cli.Exposes (cli : Cli) (cfg : Config) : Prop :=
  ∃ listen, cli.webListen = some listen ∧ listen.ip.isLoopback = false ∧ cfg.tokenOk = false

/-- Of what the overrides touch, the validator reads only `web.listen`. -/
theorem valid_applyOverrides_iff (cli : Cli) {cfg : Config} (h : cfg.Valid) :
    (applyOverrides cfg cli).Valid ↔ ¬ cli.Exposes cfg := by
  have htoken : (applyOverrides cfg cli).tokenOk = cfg.tokenOk := by
    rw [Config.tokenOk, web_adminToken_applyOverrides]
    rfl
  constructor
  · rintro hvalid ⟨listen, hlisten, hip, hno⟩
    have hdash := hvalid.dashboard
    rw [web_listen_applyOverrides, htoken, hlisten, hno] at hdash
    simp [hip] at hdash
  · intro hno
    have hdash : (applyOverrides cfg cli).web.listen.ip.isLoopback = true ∨
        (applyOverrides cfg cli).tokenOk = true := by
      rw [web_listen_applyOverrides, htoken]
      cases hlisten : cli.webListen with
      | none => exact h.dashboard
      | some listen =>
        by_contra hneither
        simp only [not_or, Bool.not_eq_true] at hneither
        exact hno ⟨listen, hlisten, hneither⟩
    obtain ⟨h1, h2, h3, h4, -, h6, h7, h8⟩ := h
    constructor
    case dashboard => exact hdash
    all_goals rcases cli with ⟨_ | _, _ | _, _ | _, _⟩ <;> assumption

/-- The check and the start agree on every file that is absent or does not load. On a file
that loads they agree when `--web-listen` exposes nothing and `discovery.subnet` is well
formed, and when both go wrong together. -/
theorem checkConfig_agrees_iff (fromToml : Str → Option Config) (lan : Option Subnet)
    (cli : Cli) (file : ConfigFile) :
    CheckAgrees fromToml lan cli file ↔
      file = .missing ∨ ∀ cfg, Config.loadOrDefault fromToml file = .ok cfg →
        (cli.Exposes cfg ↔ ¬ cfg.discovery.WellFormed) := by
  rw [CheckAgrees, main_checking, checkConfig_reportsSuccess_iff, main_isServing_iff]
  by_cases hfile : file = .missing
  · subst hfile
    have hstarts : ∃ cfg, Config.loadOrDefault fromToml .missing = .ok cfg ∧
        cfg.discovery.WellFormed := ⟨{}, rfl, wellFormed_default⟩
    simp only [true_or, true_iff, iff_true]
    exact hstarts
  · simp only [hfile, false_or, applyOverrides_checking]
    cases hload : Config.loadOrDefault fromToml file with
    | error e => simp
    | ok cfg =>
      have hvalid := valid_applyOverrides_iff cli (Config.valid_of_loadOrDefault hload)
      simp only [Except.ok.injEq, exists_eq_left', forall_eq', hvalid]
      exact not_iff_comm.trans Iff.comm

/-- With `discovery.subnet = "lan"` the check passes and the start fails; with `--web-listen
0.0.0.0:8080` on a config without a token the check fails and the start serves. -/
theorem checkConfig_not_agrees :
    (∃ cfg : Config, ¬ CheckAgrees (fun _ => some cfg) none {} (.text [])) ∧
    ∃ cli : Cli, ¬ CheckAgrees (fun _ => some {}) none cli (.text []) := by
  constructor
  · refine ⟨{ discovery := { subnet := some "lan".toList } }, ?_⟩
    rw [CheckAgrees]
    decide
  · refine ⟨{ webListen := some ⟨.v4 0, 8080⟩ }, ?_⟩
    rw [CheckAgrees]
    decide

end Netwatch
