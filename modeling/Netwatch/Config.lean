import Netwatch.Dns.Acl

/-!
# Configuration

The settings of `config.rs` that the modelled code reads, with their defaults, the checks of
`validate` and the paths derived from `blocking.state_dir`.

## Main definitions

- `Config.validate` — the checks, in the order they are made
- `Config.loadOrDefault` — a missing file means the built-in defaults
- `Config.manualDenyPath`, `manualAllowPath`, `cachedListPath` — files under the state dir
-/

namespace Netwatch

open RustStd

structure DnsConfig where
  listen : SocketAddr := ⟨.v4 0, 53⟩
  listenV6 : Option SocketAddr := none
  enableTcp : Bool := true
  allowFrom : List Str := ["loopback".toList, "private".toList]
  upstreams : List SocketAddr :=
    [⟨.v4 (Ipv4Addr.ofOctets 1 1 1 1), 53⟩, ⟨.v4 (Ipv4Addr.ofOctets 9 9 9 9), 53⟩]
  upstreamTimeoutMs : UInt64 := 2500
  upstreamUdpPayload : UInt16 := 1232
  maxUdpInFlight : ℕ := 128
  maxTcpConnections : ℕ := 64
  requestTimeoutMs : UInt64 := 10000
  cache : Bool := true
  cacheMaxEntries : ℕ := 20000
  cacheMinTtl : UInt32 := 30
  cacheMaxTtl : UInt32 := 86400

structure WebConfig where
  listen : SocketAddr := ⟨.v4 (Ipv4Addr.ofOctets 127 0 0 1), 8080⟩
  adminToken : Option Str := none

structure StorageConfig where
  database : Str := "/var/lib/netwatch/netwatch.db".toList

structure DiscoveryConfig where
  subnet : Option Str := none

structure BlockingConfig where
  enabled : Bool := true
  mode : Str := "zero_ip".toList
  sources : List Str :=
    ["https://raw.githubusercontent.com/StevenBlack/hosts/master/hosts".toList]
  files : List Str := []
  disableFirefoxDoh : Bool := true
  stateDir : Str := "/var/lib/netwatch".toList

structure AlertConfig where
  enabled : Bool := true
  ntfyUrl : Str := []
  newDevice : Bool := true
  nxdomainThreshold : UInt32 := 50
  nxdomainWindowMins : UInt32 := 10
  scanIntervalSecs : UInt64 := 300
  cooldownMins : UInt32 := 60

structure Config where
  dns : DnsConfig := {}
  web : WebConfig := {}
  storage : StorageConfig := {}
  discovery : DiscoveryConfig := {}
  blocking : BlockingConfig := {}
  alerts : AlertConfig := {}

inductive ConfigError
  /-- `reading config {path}` -/
  | unreadable
  /-- `parsing config {path}` -/
  | unparsable
  /-- `dns.upstreams must not be empty` -/
  | noUpstreams
  | allowFrom (cause : AclError)
  /-- `dns.max_udp_in_flight and dns.max_tcp_connections must be greater than zero` -/
  | zeroLimits
  /-- `dns.listen_v6 must be an IPv6 address such as "[::]:53", got {v6}.` -/
  | listenV6 (v6 : SocketAddr)
  /-- `web.listen is {} (not loopback), so web.admin_token must be set to at least 16
  characters.` -/
  | exposedDashboard (listen : SocketAddr)
  /-- `alerts.ntfy_url must be a full http(s) URL` -/
  | ntfyUrl (url : Str)
  /-- `alerts.nxdomain_threshold, nxdomain_window_mins and scan_interval_secs must all be
  greater than zero` -/
  | zeroAlertSettings
  /-- `blocking.mode must be "zero_ip" or "nxdomain", got {:?}` -/
  | mode (mode : Str)
  deriving DecidableEq

/-- `PathBuf::join` with a relative path. -/
def joinPath (base path : Str) : Str :=
  if base = [] then path
  else if base.getLast? = some '/' then base ++ path
  else base ++ '/' :: path

theorem joinPath_injective {base p q : Str} (h : joinPath base p = joinPath base q) : p = q := by
  rw [joinPath, joinPath] at h
  split at h
  · exact h
  · split at h
    · exact List.append_cancel_left h
    · exact (List.cons.inj (List.append_cancel_left h)).2

/-- FNV-1a over the bytes of a URL. -/
def fnv1a (url : Str) : UInt64 :=
  (Str.utf8 url).foldl
    (fun hash b => (hash ^^^ b.toUInt64) * 0x100000001b3) 0xcbf29ce484222325

/-- `{hash:016x}` -/
def hex16 (n : UInt64) : Str :=
  (List.range 16).map fun i => Nat.digitChar (n.toNat / 16 ^ (15 - i) % 16)

namespace Config

/-- `admin_token` is long enough to protect a dashboard that others can reach. -/
def tokenOk (cfg : Config) : Bool :=
  cfg.web.adminToken.any fun t => (Str.trim t).len ≥ 16

/-- `anyhow::ensure!` -/
def ensure (cond : Prop) [Decidable cond] (e : ConfigError) : Except ConfigError Unit :=
  if cond then .ok () else .error e

/-- An IPv4 address here would bind a second socket on the port of `dns.listen`. -/
def checkListenV6 : Option SocketAddr → Except ConfigError Unit
  | some v6 => ensure v6.ip.isIpv6 (.listenV6 v6)
  | none => .ok ()

def validate (cfg : Config) : Except ConfigError Unit := do
  ensure (cfg.dns.upstreams ≠ []) .noUpstreams
  let _ ← (Acl.parse cfg.dns.allowFrom).mapError .allowFrom
  ensure (cfg.dns.maxUdpInFlight > 0 ∧ cfg.dns.maxTcpConnections > 0) .zeroLimits
  checkListenV6 cfg.dns.listenV6
  -- the one configuration that would expose rule-changing endpoints to the network
  ensure (cfg.web.listen.ip.isLoopback ∨ cfg.tokenOk) (.exposedDashboard cfg.web.listen)
  let url := Str.trim cfg.alerts.ntfyUrl
  ensure (url = [] ∨ "http://".toList.isPrefixOf url ∨ "https://".toList.isPrefixOf url)
    (.ntfyUrl url)
  ensure (cfg.alerts.nxdomainThreshold > 0 ∧ cfg.alerts.nxdomainWindowMins > 0 ∧
    cfg.alerts.scanIntervalSecs > 0) .zeroAlertSettings
  ensure (cfg.blocking.mode = "zero_ip".toList ∨ cfg.blocking.mode = "nxdomain".toList)
    (.mode cfg.blocking.mode)

/-- What `validate` checks. -/
structure Valid (cfg : Config) : Prop where
  upstreams : cfg.dns.upstreams ≠ []
  allowFrom : ∃ acl, Acl.parse cfg.dns.allowFrom = .ok acl
  limits : 0 < cfg.dns.maxUdpInFlight ∧ 0 < cfg.dns.maxTcpConnections
  listenV6 : ∀ v6, cfg.dns.listenV6 = some v6 → v6.ip.isIpv6 = true
  dashboard : cfg.web.listen.ip.isLoopback = true ∨ cfg.tokenOk = true
  ntfyUrl : Str.trim cfg.alerts.ntfyUrl = [] ∨
    "http://".toList.isPrefixOf (Str.trim cfg.alerts.ntfyUrl) = true ∨
    "https://".toList.isPrefixOf (Str.trim cfg.alerts.ntfyUrl) = true
  alerts : cfg.alerts.nxdomainThreshold > 0 ∧ cfg.alerts.nxdomainWindowMins > 0 ∧
    cfg.alerts.scanIntervalSecs > 0
  mode : cfg.blocking.mode = "zero_ip".toList ∨ cfg.blocking.mode = "nxdomain".toList

theorem ensure_eq_ok {cond : Prop} [Decidable cond] {e : ConfigError} {u : Unit} :
    ensure cond e = .ok u ↔ cond := by
  rw [ensure]
  split <;> simp [*]

theorem bind_eq_ok {α β : Type} {x : Except ConfigError α} {f : α → Except ConfigError β}
    {b : β} : (x >>= f) = .ok b ↔ ∃ a, x = .ok a ∧ f a = .ok b := by
  cases x with
  | error e => simp [bind, Except.bind]
  | ok a => simp [bind, Except.bind]

theorem validate_eq_ok_iff {cfg : Config} : cfg.validate = .ok () ↔ cfg.Valid := by
  have hacl : (∃ a, (Acl.parse cfg.dns.allowFrom).mapError ConfigError.allowFrom = .ok a) ↔
      ∃ acl, Acl.parse cfg.dns.allowFrom = .ok acl := by
    cases Acl.parse cfg.dns.allowFrom <;> simp [Except.mapError]
  have hv6 : ∀ u, checkListenV6 cfg.dns.listenV6 = .ok u ↔
      ∀ v6, cfg.dns.listenV6 = some v6 → v6.ip.isIpv6 = true := by
    cases cfg.dns.listenV6 <;> simp [checkListenV6, ensure_eq_ok]
  simp only [validate, bind_eq_ok, exists_and_left, exists_and_right, hacl, hv6, ensure_eq_ok,
    exists_const]
  constructor
  · rintro ⟨h1, h2, h3, h4, h5, h6, h7, h8⟩
    exact ⟨h1, h2, h3, h4, h5, h6, h7, h8⟩
  · rintro ⟨h1, h2, h3, h4, h5, h6, h7, h8⟩
    exact ⟨h1, h2, h3, h4, h5, h6, h7, h8⟩

/-- Every built-in default passes its own check. -/
theorem validate_default : validate {} = .ok () := by decide

end Config

/-- What is found at the path given with `--config`. -/
inductive ConfigFile
  | missing
  | unreadable
  | text (contents : Str)

namespace Config

/-- `Config::load` on an existing file; `fromToml` is `toml::from_str`. -/
def load (fromToml : Str → Option Config) : ConfigFile → Except ConfigError Config
  | .text contents =>
    match fromToml contents with
    | none => .error .unparsable
    | some cfg => do
      cfg.validate
      return cfg
  | _ => .error .unreadable

def loadOrDefault (fromToml : Str → Option Config) (file : ConfigFile) :
    Except ConfigError Config :=
  match file with
  | .missing => .ok {}
  | file => load fromToml file

/-- Only a config that passes its own check is loaded. -/
theorem valid_of_loadOrDefault {fromToml : Str → Option Config} {file : ConfigFile}
    {cfg : Config} (h : loadOrDefault fromToml file = .ok cfg) : cfg.Valid := by
  cases file with
  | missing =>
    cases h
    exact validate_eq_ok_iff.mp validate_default
  | unreadable => cases h
  | text contents =>
    simp only [loadOrDefault, load] at h
    split at h
    · cases h
    · next parsed _ =>
      obtain ⟨u, hvalid, hcfg⟩ := bind_eq_ok.mp h
      cases hcfg
      exact validate_eq_ok_iff.mp hvalid

def manualDenyPath (cfg : Config) : Str := joinPath cfg.blocking.stateDir "deny.list".toList

def manualAllowPath (cfg : Config) : Str := joinPath cfg.blocking.stateDir "allow.list".toList

/-- Where a downloaded list is kept. -/
def cachedListPath (cfg : Config) (url : Str) : Str :=
  joinPath cfg.blocking.stateDir ("lists/".toList ++ hex16 (fnv1a url) ++ ".list".toList)

theorem manualDenyPath_ne_allow (cfg : Config) : cfg.manualDenyPath ≠ cfg.manualAllowPath :=
  fun h => absurd (joinPath_injective h) (by decide)

theorem manualDenyPath_ne_cached (cfg : Config) (url : Str) :
    cfg.manualDenyPath ≠ cfg.cachedListPath url := by
  intro h
  have hname : 'd' :: "eny.list".toList = 'l' :: ("ists/".toList ++ hex16 (fnv1a url) ++
      ".list".toList) := joinPath_injective h
  exact absurd (List.cons.inj hname).1 (by decide)

end Config

end Netwatch
