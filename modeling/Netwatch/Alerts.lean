import Netwatch.Config
import Netwatch.RustStd.HashMap

/-!
# Alerts

`alerts.rs`: what is raised, and the cooldown that keeps a persistent condition from being raised
again and again. Here the queue to the notifier is taken to have room.

## Main definitions

- `Alert.newDevice` — a device appears for the first time
- `Alert.nxdomainStorm` — a client gets an unusual number of NXDOMAIN answers
- `AlertSink.raise` — queue an alert, unless its subject has had one recently
- `spawn` — the sink that the configuration asks for
-/

namespace Netwatch.Alerts

open RustStd

inductive Severity
  | info
  | warning
  deriving DecidableEq

structure Alert where
  kind : Str
  severity : Severity
  /-- A MAC or a client address; also the cooldown key. -/
  subject : Str
  title : Str
  detail : Str
  deriving DecidableEq

def newDeviceKind : Str := "new_device".toList

def Alert.newDevice (mac : Str) (hostname vendor : Option Str) : Alert :=
  let who := hostname.getD "an unnamed device".toList
  let make := vendor.getD "unknown vendor".toList
  { kind := newDeviceKind
    severity := .info
    subject := mac
    title := "New device on the network".toList
    detail := who ++ " (".toList ++ make ++ ") — ".toList ++ mac }

def Alert.nxdomainStorm (client : Str) (count : Int) (windowMins : UInt32) : Alert :=
  { kind := "nxdomain_storm".toList
    severity := .warning
    subject := client
    title := "Unusual NXDOMAIN volume".toList
    detail := client ++ " got ".toList ++ (toString count).toList ++
      " NXDOMAIN answers in ".toList ++ (toString windowMins).toList ++
      (" minutes. That is the usual shape of malware looking for a command-and-control host, " ++
        "though a broken app can do it too.").toList }

structure AlertSink where
  /-- In nanoseconds. -/
  cooldownFor : ℕ
  cooldown : HashMap (Str × Str) ℕ
  queue : List Alert

namespace AlertSink

/-- Whether this kind and subject have not alerted inside the cooldown; the map is cleaned up
when it has grown. -/
def takeCooldownSlot (kind subject : Str) (now : ℕ) (sink : AlertSink) : Bool × AlertSink :=
  let key := (kind, subject)
  if (sink.cooldown.lookup key).any fun last => now - last < sink.cooldownFor then (false, sink)
  else
    let map :=
      if sink.cooldown.len > 4096 then
        sink.cooldown.retain fun _ t => now - t < sink.cooldownFor
      else sink.cooldown
    (true, { sink with cooldown := map.insert key now })

def raise (alert : Alert) (now : ℕ) (sink : AlertSink) : AlertSink :=
  let (slot, sink) := sink.takeCooldownSlot alert.kind alert.subject now
  if slot then { sink with queue := sink.queue ++ [alert] } else sink

end AlertSink

/-- `None` when alerting is disabled. -/
def spawn (cfg : AlertConfig) : Option AlertSink :=
  if !cfg.enabled then none else some ⟨cfg.cooldownMins.toNat * 60 * 10 ^ 9, ∅, []⟩

namespace AlertSink

theorem queue_raise_of_fresh {alert : Alert} {sink : AlertSink}
    (h : (alert.kind, alert.subject) ∉ sink.cooldown) (now : ℕ) :
    (sink.raise alert now).queue = sink.queue ++ [alert] := by
  have hnone : sink.cooldown.lookup (alert.kind, alert.subject) = none :=
    AList.lookup_eq_none.mpr h
  simp [raise, takeCooldownSlot, hnone]

theorem mem_cooldown_raise {alert : Alert} {now : ℕ} {sink : AlertSink} {key : Str × Str}
    (h : key ∈ (sink.raise alert now).cooldown) :
    key = (alert.kind, alert.subject) ∨ key ∈ sink.cooldown := by
  rw [raise, takeCooldownSlot] at h
  dsimp only at h
  split at h
  · exact .inr h
  · rw [if_pos rfl] at h
    obtain rfl | h := AList.mem_insert _ |>.mp h
    · exact .inl rfl
    · refine .inr ?_
      split at h
      · rw [← AList.lookup_isSome, HashMap.lookup_retain] at h
        rw [← AList.lookup_isSome]
        exact Option.isSome_of_isSome_filter _ _ h
      · exact h

end AlertSink

end Netwatch.Alerts
