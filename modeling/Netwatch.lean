import Netwatch.Alerts
import Netwatch.Alerts.Cooldown
import Netwatch.Alerts.Delivery
import Netwatch.Alerts.Queue
import Netwatch.Alerts.StormWatch
import Netwatch.Api.Admin
import Netwatch.Api.Posted
import Netwatch.Api.Rebuild
import Netwatch.Blocklist.Accounting
import Netwatch.Blocklist.Adblock
import Netwatch.Blocklist.Attribution
import Netwatch.Blocklist.Build
import Netwatch.Blocklist.Canonical
import Netwatch.Blocklist.Fetch
import Netwatch.Blocklist.Health
import Netwatch.Blocklist.ListOrder
import Netwatch.Blocklist.Manual
import Netwatch.Blocklist.ManualIo
import Netwatch.Blocklist.ManualRace
import Netwatch.Blocklist.ManualRules
import Netwatch.Blocklist.Matcher
import Netwatch.Blocklist.Normalize
import Netwatch.Blocklist.Rules
import Netwatch.Buckets.Width
import Netwatch.CheckConfig
import Netwatch.Config
import Netwatch.Db.Bypass
import Netwatch.Db.Conservation
import Netwatch.Db.DevicesTable
import Netwatch.Db.Overview
import Netwatch.Db.Queries
import Netwatch.Db.QueryLog
import Netwatch.Db.Retention
import Netwatch.Db.RowKind
import Netwatch.Db.Sightings
import Netwatch.Db.Tables
import Netwatch.Db.Timeseries
import Netwatch.Db.Windows
import Netwatch.Db.Writer
import Netwatch.Debounce.Log
import Netwatch.Devices.Addresses
import Netwatch.Devices.Concurrent
import Netwatch.Devices.Debounced
import Netwatch.Devices.Dhcp
import Netwatch.Devices.Discovery
import Netwatch.Devices.Indexes
import Netwatch.Devices.Mdns
import Netwatch.Devices.Naming
import Netwatch.Devices.NewDevice
import Netwatch.Devices.Ownership
import Netwatch.Devices.Persisted
import Netwatch.Devices.Process
import Netwatch.Devices.Registry
import Netwatch.Devices.Reports
import Netwatch.Devices.Restart
import Netwatch.Devices.ReverseDns
import Netwatch.Devices.SendOrder
import Netwatch.Devices.Vendors
import Netwatch.Devices.Wellformed
import Netwatch.Dns.Acl
import Netwatch.Dns.AclDenotation
import Netwatch.Dns.AclMapped
import Netwatch.Dns.AclNets
import Netwatch.Dns.AclTrust
import Netwatch.Dns.Admission
import Netwatch.Dns.BindRetry
import Netwatch.Dns.Blocking
import Netwatch.Dns.Cache
import Netwatch.Dns.CacheCapacity
import Netwatch.Dns.CacheExact
import Netwatch.Dns.CacheReply
import Netwatch.Dns.CacheTtl
import Netwatch.Dns.Failover
import Netwatch.Dns.FitUdp
import Netwatch.Dns.Forward
import Netwatch.Dns.Genuine
import Netwatch.Dns.KeyTerms
import Netwatch.Dns.Ledger
import Netwatch.Dns.Logged
import Netwatch.Dns.OpenWorld
import Netwatch.Dns.Outcome
import Netwatch.Dns.Refusal
import Netwatch.Dns.Replies
import Netwatch.Dns.Resolver
import Netwatch.Dns.Server
import Netwatch.Dns.Status
import Netwatch.Dns.TcpSession
import Netwatch.Dns.UpstreamPayload
import Netwatch.Framing.Prefix
import Netwatch.Hickory.Message
import Netwatch.Interleaving.Run
import Netwatch.Intervals.Cover
import Netwatch.Lookup.Expiring
import Netwatch.Lookup.Inverse
import Netwatch.Monitor.Latency
import Netwatch.Monitor.Throughput
import Netwatch.Netinfo
import Netwatch.Netinfo.Hosts
import Netwatch.Netinfo.Proc
import Netwatch.Oui
import Netwatch.Oui.Vendors
import Netwatch.Permits.Semaphore
import Netwatch.Replay.Log
import Netwatch.Retry.Backoff
import Netwatch.RustStd.AddrCase
import Netwatch.RustStd.Fields
import Netwatch.RustStd.HashMap
import Netwatch.RustStd.IpAddr
import Netwatch.RustStd.Ipv4Text
import Netwatch.RustStd.Lines
import Netwatch.RustStd.Mask
import Netwatch.RustStd.Numeral
import Netwatch.RustStd.Path
import Netwatch.RustStd.Slice
import Netwatch.RustStd.Str
import Netwatch.Sql.Latest
import Netwatch.Sql.Like
import Netwatch.Sql.Order
import Netwatch.Sql.Query
import Netwatch.Sql.Table
import Netwatch.Startup
