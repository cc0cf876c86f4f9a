import Netwatch.RustStd.IpAddr

/-!
# The local network

`Subnet` of `netinfo.rs`: the LAN found in the routing table or given as
`discovery.subnet`.
-/

namespace Netwatch

open RustStd

structure Subnet where
  network : Ipv4Addr
  prefixLen : ℕ
  deriving DecidableEq

inductive SubnetError
  /-- `{s:?} is not CIDR notation, expected e.g. 192.168.1.0/24` -/
  | notCidr (s : Str)
  /-- `bad address {addr:?}` -/
  | badAddress (addr : Str)
  /-- `bad prefix {len:?}` -/
  | badPrefix (len : Str)
  /-- `prefix /{prefix_len} out of range` -/
  | outOfRange (prefixLen : ℕ)
  deriving DecidableEq

def Subnet.parseCidr (s : Str) : Except SubnetError Subnet :=
  match Str.splitOnce '/' s with
  | none => .error (.notCidr s)
  | some (addr, len) =>
    match IpAddr.parse (Str.trim addr) with
    | some (.v4 network) =>
      match Str.parseU8 (Str.trim len) with
      | none => .error (.badPrefix len)
      | some prefixLen =>
        if prefixLen ≤ 32 then .ok ⟨network, prefixLen⟩ else .error (.outOfRange prefixLen)
    | _ => .error (.badAddress addr)

end Netwatch
