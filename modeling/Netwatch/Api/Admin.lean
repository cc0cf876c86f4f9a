import Netwatch.RustStd.Lines
import Netwatch.Startup

/-!
# Who may change the rules

The mutating routes of `api.rs` behind `require_admin`, and what a started instance promises
about them.

## Main definitions

- `requireAdmin` — whether a request reaches the handler behind the middleware
- `serve` — the reply on a mutating route
- `AdminGuarded` — off-host, only the holder of a long token reaches a handler
- `TokenProtects` — the tokens that make it so
-/

namespace Netwatch.Api

open RustStd

inductive Method
  | get
  | post
  | delete
  | other (name : Str)
  deriving DecidableEq

structure Request where
  method : Method
  path : Str
  /-- Names in lower case, values as received. -/
  headers : List (Str × List UInt8)

inductive Handler
  | addDeny
  | removeDeny
  | addAllow
  | removeAllow
  | reload
  | flushCache
  deriving DecidableEq

inductive Reply
  | notMutating
  | unauthorized
  | ran (handler : Handler)
  deriving DecidableEq

/-- The routes of the `mutating` router. -/
def mutating : Method → Str → Option Handler
  | .post, path =>
    if path = "/api/deny".toList then some .addDeny
    else if path = "/api/allow".toList then some .addAllow
    else if path = "/api/reload".toList then some .reload
    else if path = "/api/flush-cache".toList then some .flushCache
    else none
  | .delete, path =>
    if path = "/api/deny".toList then some .removeDeny
    else if path = "/api/allow".toList then some .removeAllow
    else none
  | _, _ => none

/-- `HeaderMap::get`: the first value under the name. -/
def Request.header (req : Request) (name : Str) : Option (List UInt8) := req.headers.lookup name

def isVisibleAscii (b : UInt8) : Bool := (32 ≤ b && b < 127) || b == 9

/-- `HeaderValue::to_str` -/
def toStr (v : List UInt8) : Option Str :=
  if v.all isVisibleAscii then some (v.map Char.ofUInt8) else none

/-- The token a request presents, empty when there is none. -/
def presented (req : Request) : Str :=
  (((req.header "authorization".toList).bind toStr).bind
    (Str.stripPrefix "Bearer ".toList)).getD []

def constantTimeEq (a b : List UInt8) : Bool :=
  if a.length ≠ b.length then false
  else (a.zip b).foldl (fun acc p => acc ||| (p.1 ^^^ p.2)) 0 == 0

def requireAdmin (cfg : Config) (req : Request) : Bool :=
  match cfg.web.adminToken with
  -- config validation guarantees loopback here, so local access is the authorisation
  | none => true
  | some expected => constantTimeEq (Str.utf8 (presented req)) (Str.utf8 expected)

def serve (cfg : Config) (req : Request) : Reply :=
  match mutating req.method req.path with
  | none => .notMutating
  | some handler => if requireAdmin cfg req then .ran handler else .unauthorized

/-- The request carries `Authorization: Bearer t`. -/
def CarriesToken (req : Request) (t : Str) : Prop :=
  req.header "authorization".toList = some (Str.utf8 ("Bearer ".toList ++ t))

/-- Off-host, a handler runs only for a request that carries the configured token, and that
token has at least 16 characters. -/
def AdminGuarded (cfg : Config) : Prop :=
  cfg.web.listen.ip.isLoopback = false → ∀ req handler, serve cfg req = .ran handler →
    ∃ t, cfg.web.adminToken = some t ∧ 16 ≤ t.length ∧ CarriesToken req t

/-- A header value can spell the token. -/
def Presentable (t : Str) : Prop :=
  ∀ c ∈ t, (32 ≤ c.toNat ∧ c.toNat < 127) ∨ c.toNat = 9

/-- Nobody gets past the token without knowing at least 16 characters. -/
def TokenProtects (token : Option Str) : Prop :=
  ∃ t, token = some t ∧ t ≠ [] ∧ (16 ≤ t.length ∨ ¬ Presentable t)

theorem foldl_or_xor_eq_zero (ps : List (UInt8 × UInt8)) (acc : UInt8) :
    ps.foldl (fun acc p => acc ||| (p.1 ^^^ p.2)) acc = 0 ↔
      acc = 0 ∧ ∀ p ∈ ps, p.1 = p.2 := by
  induction ps generalizing acc with
  | nil => simp
  | cons p ps ih =>
    rw [List.foldl_cons, ih, UInt8.or_eq_zero_iff, UInt8.xor_eq_zero_iff, List.forall_mem_cons,
      and_assoc]

theorem constantTimeEq_iff {a b : List UInt8} : constantTimeEq a b = true ↔ a = b := by
  rw [constantTimeEq]
  split
  · next hlen =>
    have hne : a ≠ b := fun h => hlen (h ▸ rfl)
    simp [hne]
  · next hlen =>
    have hlen : a.length = b.length := not_not.mp hlen
    rw [beq_iff_eq, foldl_or_xor_eq_zero, and_iff_right rfl]
    constructor
    · intro h
      refine List.ext_getElem hlen fun i ha hb => ?_
      exact h (a[i], b[i]) (List.mem_iff_getElem.mpr ⟨i, by simp [hlen, hb], by simp⟩)
    · rintro rfl p hp
      obtain ⟨i, hi, rfl⟩ := List.mem_iff_getElem.mp hp
      simp

theorem requireAdmin_of_token {cfg : Config} {t : Str} (h : cfg.web.adminToken = some t)
    (req : Request) : requireAdmin cfg req = true ↔ presented req = t := by
  rw [requireAdmin, h]
  show constantTimeEq _ _ = true ↔ _
  rw [constantTimeEq_iff]
  exact ⟨Str.utf8_injective, fun h => h ▸ rfl⟩

theorem isVisibleAscii_iff {b : UInt8} :
    isVisibleAscii b = true ↔ (32 ≤ b.toNat ∧ b.toNat < 127) ∨ b.toNat = 9 := by
  have h9 : b = 9 ↔ b.toNat = 9 := UInt8.toNat_inj.symm
  simp [isVisibleAscii, UInt8.le_iff_toNat_le, UInt8.lt_iff_toNat_lt, h9]

theorem carriesToken_of_presented {req : Request} {t : Str} (h : presented req = t)
    (hne : t ≠ []) : CarriesToken req t ∧ Presentable t := by
  rw [presented] at h
  cases hstrip : ((req.header "authorization".toList).bind toStr).bind
      (Str.stripPrefix "Bearer ".toList) with
  | none => exact absurd (by rw [← h, hstrip]; rfl) hne
  | some u =>
    have hu : u = t := by rw [hstrip] at h; exact h
    subst hu
    obtain ⟨s, hs, hprefix⟩ := Option.bind_eq_some_iff.mp hstrip
    obtain ⟨v, hv, hstr⟩ := Option.bind_eq_some_iff.mp hs
    have htext : s = "Bearer ".toList ++ u := by
      obtain ⟨p, hp, hbearer⟩ := List.dropPrefix?_eq_some_iff.mp hprefix
      rw [hp, beq_iff_eq.mp hbearer]
    rw [toStr] at hstr
    split at hstr
    · next hall =>
      have hvis := List.all_eq_true.mp hall
      have hmap : v.map Char.ofUInt8 = s := Option.some.inj hstr
      have hascii : ∀ b ∈ v, b.toNat < 128 := by
        intro b hb
        have := isVisibleAscii_iff.mp (hvis b hb)
        omega
      refine ⟨?_, fun c hc => ?_⟩
      · rw [CarriesToken, hv, ← htext, ← hmap, Str.utf8_map_ofUInt8 hascii]
      · have hmem : c ∈ v.map Char.ofUInt8 := by
          rw [hmap, htext]
          exact List.mem_append_right _ hc
        obtain ⟨b, hb, rfl⟩ := List.mem_map.mp hmem
        exact isVisibleAscii_iff.mp (hvis b hb)
    · cases hstr

/-- A request that presents the given token on `POST /api/deny`. -/
def denyRequest (t : Str) : Request where
  method := .post
  path := "/api/deny".toList
  headers := [("authorization".toList, ("Bearer ".toList ++ t).map fun c => c.toNat.toUInt8)]

theorem ofUInt8_toUInt8 {c : Char} (h : c.toNat < 256) :
    Char.ofUInt8 c.toNat.toUInt8 = c := by
  apply Char.toNat_inj.mp
  show (c.toNat.toUInt8).toUInt32.toNat = c.toNat
  rw [UInt8.toNat_toUInt32, Nat.toUInt8, UInt8.toNat_ofNat']
  exact Nat.mod_eq_of_lt h

theorem presentable_bearer {t : Str} (h : Presentable t) :
    Presentable ("Bearer ".toList ++ t) := by
  intro c hc
  rcases List.mem_append.mp hc with hb | ht
  · have hall : "Bearer ".toList.all
        (fun c => (32 ≤ c.toNat ∧ c.toNat < 127) ∨ c.toNat = 9) = true := by decide
    exact of_decide_eq_true (List.all_eq_true.mp hall c hb)
  · exact h c ht

theorem toStr_map {s : Str} (h : Presentable s) :
    toStr (s.map fun c => c.toNat.toUInt8) = some s := by
  have hall : (s.map fun c => c.toNat.toUInt8).all isVisibleAscii = true := by
    rw [List.all_map, List.all_eq_true]
    intro c hc
    have hvis := h c hc
    show isVisibleAscii c.toNat.toUInt8 = true
    rw [isVisibleAscii_iff, Nat.toUInt8, UInt8.toNat_ofNat', Nat.mod_eq_of_lt (by omega)]
    exact hvis
  have hback : (s.map fun c => c.toNat.toUInt8).map Char.ofUInt8 = s := by
    rw [List.map_map]
    refine (List.map_congr_left fun c hc => ?_).trans (List.map_id s)
    have hvis := h c hc
    exact ofUInt8_toUInt8 (by omega)
  rw [toStr, if_pos hall, hback]

theorem presented_denyRequest {t : Str} (h : Presentable t) : presented (denyRequest t) = t := by
  have hvalue : (denyRequest t).header "authorization".toList =
      some (("Bearer ".toList ++ t).map fun c => c.toNat.toUInt8) := rfl
  rw [presented, hvalue, Option.bind_some, toStr_map (presentable_bearer h), Option.bind_some,
    Str.stripPrefix_append, Option.getD_some]

theorem serve_eq_ran_iff {cfg : Config} {req : Request} {handler : Handler} :
    serve cfg req = .ran handler ↔
      mutating req.method req.path = some handler ∧ requireAdmin cfg req = true := by
  rw [serve]
  cases mutating req.method req.path with
  | none => simp
  | some handler' => cases requireAdmin cfg req <;> simp

/-- Whoever presents the token gets in, so it has to exist and to be long. -/
theorem tokenProtects_of_adminGuarded {cfg : Config}
    (hloop : cfg.web.listen.ip.isLoopback = false) (h : AdminGuarded cfg) :
    TokenProtects cfg.web.adminToken := by
  cases htoken : cfg.web.adminToken with
  | none =>
    have hadmin : requireAdmin cfg (denyRequest []) = true := by rw [requireAdmin, htoken]
    obtain ⟨t, ht, _⟩ := h hloop (denyRequest []) .addDeny (serve_eq_ran_iff.mpr ⟨rfl, hadmin⟩)
    rw [htoken] at ht
    cases ht
  | some t =>
    have hlong : Presentable t → 16 ≤ t.length := by
      intro hpres
      have hadmin := (requireAdmin_of_token htoken _).mpr (presented_denyRequest hpres)
      obtain ⟨u, hu, hlen, _⟩ :=
        h hloop (denyRequest t) .addDeny (serve_eq_ran_iff.mpr ⟨rfl, hadmin⟩)
      rw [htoken] at hu
      exact Option.some.inj hu ▸ hlen
    refine ⟨t, rfl, ?_, ?_⟩
    · rintro rfl
      exact absurd (hlong fun c hc => absurd hc List.not_mem_nil) (by decide)
    · by_cases hpres : Presentable t
      · exact .inl (hlong hpres)
      · exact .inr hpres

theorem adminGuarded_of_tokenProtects {cfg : Config} (h : TokenProtects cfg.web.adminToken) :
    AdminGuarded cfg := by
  intro _ req handler hran
  obtain ⟨t, htoken, hne, hprotects⟩ := h
  have hadmin := (serve_eq_ran_iff.mp hran).2
  have hcarries := carriesToken_of_presented ((requireAdmin_of_token htoken req).mp hadmin) hne
  refine ⟨t, htoken, ?_, hcarries.1⟩
  exact hprotects.elim id fun hnot => absurd hcarries.2 hnot

/-- The promise holds exactly on loopback and under a token that protects. -/
theorem adminGuarded_iff (cfg : Config) :
    AdminGuarded cfg ↔
      cfg.web.listen.ip.isLoopback = true ∨ TokenProtects cfg.web.adminToken := by
  by_cases hloop : cfg.web.listen.ip.isLoopback = true
  · simp [AdminGuarded, hloop]
  · rw [or_iff_right hloop]
    rw [Bool.not_eq_true] at hloop
    exact ⟨tokenProtects_of_adminGuarded hloop, adminGuarded_of_tokenProtects⟩

theorem len_eq_length_of_presentable {s : Str} (h : Presentable s) : Str.len s = s.length := by
  rw [Str.len]
  have hone : s.map Char.utf8Size = s.map fun _ => 1 := by
    refine List.map_congr_left fun c hc => ?_
    have hvis := h c hc
    rw [Char.utf8Size_eq_one_iff, UInt32.le_iff_toNat_le]
    show c.toNat ≤ 127
    omega
  rw [hone]
  simp

/-- The length that `validate` asks for protects. -/
theorem tokenProtects_of_tokenOk {cfg : Config} (h : cfg.tokenOk = true) :
    TokenProtects cfg.web.adminToken := by
  rw [Config.tokenOk, Option.any_eq_true] at h
  obtain ⟨t, ht, hlen⟩ := h
  have hlen : 16 ≤ (Str.trim t).len := of_decide_eq_true hlen
  refine ⟨t, ht, ?_, ?_⟩
  · rintro rfl
    exact absurd hlen (by decide)
  · by_cases hpres : Presentable t
    · left
      rw [len_eq_length_of_presentable fun c hc => hpres c (Str.mem_of_mem_trim hc)] at hlen
      exact hlen.trans (Str.length_trim_le t)
    · exact .inr hpres

/-- A configuration that passes its own check needs no override to be guarded. -/
theorem loopback_or_tokenProtects_of_loadOrDefault {fromToml : Str → Option Config}
    {file : ConfigFile} {loaded : Config}
    (h : Config.loadOrDefault fromToml file = .ok loaded) :
    loaded.web.listen.ip.isLoopback = true ∨ TokenProtects loaded.web.adminToken := by
  exact (Config.valid_of_loadOrDefault h).dashboard.imp_right tokenProtects_of_tokenOk

/-- A started instance keeps the promise exactly when no override moved the dashboard off
loopback, or the token of the file protects. -/
theorem adminGuarded_serving_iff {fromToml : Str → Option Config} {host : Host} {cli : Cli}
    {file : ConfigFile} {cfg : Config} {subnet : Option Subnet}
    (hserving : main fromToml host cli file = .serving cfg subnet) :
    ∃ loaded, Config.loadOrDefault fromToml file = .ok loaded ∧
      (AdminGuarded cfg ↔
        (∀ a, cli.webListen = some a → a.ip.isLoopback = true) ∨
          TokenProtects loaded.web.adminToken) := by
  obtain ⟨loaded, hload, rfl⟩ := main_eq_serving hserving
  refine ⟨loaded, hload, ?_⟩
  rw [adminGuarded_iff, web_listen_applyOverrides, web_adminToken_applyOverrides]
  cases hlisten : cli.webListen with
  | some a => simp
  | none =>
    have hsafe := loopback_or_tokenProtects_of_loadOrDefault hload
    simp [hsafe]

def anyHost : Host where
  createsStateDir _ := true
  opensDatabase _ := true
  rebuildsDatabase _ := true
  lanSubnet := none

/-- The dashboard of the built-in defaults, moved to every interface. -/
def exposed : Cli := { webListen := some ⟨.v4 0, 8080⟩ }

def tokenConfig : Config := { web := { adminToken := some "correct horse battery".toList } }

/-- Moved there by the same option, and under a token. -/
theorem adminGuarded_serving_iff_tokenConfig :
    main (fun _ => some tokenConfig) anyHost exposed (.text []) =
        .serving (applyOverrides tokenConfig exposed) none ∧
      ∃ loaded, Config.loadOrDefault (fun _ => some tokenConfig) (.text []) = .ok loaded ∧
        (AdminGuarded (applyOverrides tokenConfig exposed) ↔
          (∀ a, exposed.webListen = some a → a.ip.isLoopback = true) ∨
            TokenProtects loaded.web.adminToken) :=
  have hserving : main (fun _ => some tokenConfig) anyHost exposed (.text []) =
    .serving (applyOverrides tokenConfig exposed) none := rfl
  ⟨hserving, adminGuarded_serving_iff hserving⟩

/-- Started with `--web-listen 0.0.0.0:8080` and no config file, the instance serves, and
adds a block rule for a request without any header. -/
theorem exposed_not_guarded :
    main (fun _ => none) anyHost exposed .missing =
        .serving (applyOverrides {} exposed) none ∧
      (applyOverrides {} exposed).web.listen.ip.isLoopback = false ∧
      serve (applyOverrides {} exposed) ⟨.post, "/api/deny".toList, []⟩ = .ran .addDeny ∧
      ¬ AdminGuarded (applyOverrides {} exposed) := by
  refine ⟨rfl, by decide, by decide, fun h => ?_⟩
  obtain ⟨t, ht, _⟩ := h (by decide) ⟨.post, "/api/deny".toList, []⟩ .addDeny (by decide)
  cases ht

end Netwatch.Api
