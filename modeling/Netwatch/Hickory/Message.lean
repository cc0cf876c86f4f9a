import Netwatch.RustStd.IpAddr

/-!
# DNS messages

The part of `hickory_proto` that the resolver reads and writes: messages as plain data, and
the wire format as a parameter.

## Main definitions

- `Message` — header, sections and the OPT record
- `Codec` — `Message::from_vec`, `Message::to_vec` and the texts hickory renders
-/

namespace Hickory

open RustStd

abbrev Bytes := List UInt8

/-- `MessageType` -/
inductive MessageType
  | query
  | response
  deriving DecidableEq

/-- `OpCode`; the resolver only tells `Query` from the rest. -/
inductive OpCode
  | query
  | other (code : UInt8)
  deriving DecidableEq

/-- `ResponseCode`, with the codes the resolver names. -/
inductive ResponseCode
  | noError
  | formErr
  | servFail
  | nxDomain
  | refused
  | other (code : UInt16)
  deriving DecidableEq

/-- `RecordType`, with the types the resolver names. -/
inductive RecordType
  | a
  | aaaa
  | cname
  | mx
  | opt
  | ptr
  | soa
  | txt
  | other (code : UInt16)
  deriving DecidableEq

/-- `DNSClass` -/
inductive DnsClass
  | internet
  | other (code : UInt16)
  deriving DecidableEq

structure Name where
  labels : List Bytes
  deriving DecidableEq

/-- The octet of an ASCII letter in lower case, any other octet as it is. -/
def lowerOctet (b : UInt8) : UInt8 := if 65 ≤ b ∧ b ≤ 90 then b + 32 else b

/-- Equality of names as DNS sees it. -/
def Name.SameUpToCase (a b : Name) : Prop :=
  a.labels.map (List.map lowerOctet) = b.labels.map (List.map lowerOctet)

instance (a b : Name) : Decidable (a.SameUpToCase b) := inferInstanceAs (Decidable (_ = _))

inductive RData
  | a (addr : Ipv4Addr)
  | aaaa (addr : Ipv6Addr)
  | cname (name : Name)
  | ptr (name : Name)
  | mx (preference : UInt16) (exchange : Name)
  | txt (data : List Bytes)
  | other (type : RecordType) (data : Bytes)
  deriving DecidableEq

def RData.recordType : RData → RecordType
  | .a _ => .a
  | .aaaa _ => .aaaa
  | .cname _ => .cname
  | .ptr _ => .ptr
  | .mx .. => .mx
  | .txt _ => .txt
  | .other type _ => type

structure Record where
  name : Name
  dnsClass : DnsClass := .internet
  ttl : UInt32
  data : RData
  deriving DecidableEq

def Record.recordType (r : Record) : RecordType := r.data.recordType

structure Query where
  name : Name
  queryType : RecordType
  queryClass : DnsClass := .internet
  deriving DecidableEq

structure Metadata where
  id : UInt16
  messageType : MessageType
  opCode : OpCode
  authoritative : Bool := false
  truncation : Bool := false
  recursionDesired : Bool := false
  recursionAvailable : Bool := false
  authenticData : Bool := false
  checkingDisabled : Bool := false
  responseCode : ResponseCode := .noError
  deriving DecidableEq

structure Edns where
  maxPayload : UInt16 := 1232
  version : UInt8 := 0
  dnssecOk : Bool := false
  options : List (UInt16 × Bytes) := []
  deriving DecidableEq

/-- `Edns::set_max_payload`: RFC 6891 treats values below 512 as 512. -/
def Edns.setMaxPayload (edns : Edns) (n : UInt16) : Edns := { edns with maxPayload := max n 512 }

structure Message where
  metadata : Metadata
  queries : List Query := []
  answers : List Record := []
  authorities : List Record := []
  additionals : List Record := []
  edns : Option Edns := none
  deriving DecidableEq

/-- `Message::max_payload`: what the sender can receive, at least the classic 512. -/
def Message.maxPayload (m : Message) : UInt16 := max ((m.edns.map Edns.maxPayload).getD 512) 512

/-- `Message::truncate`: the questions and the OPT record stay, TC is set. -/
def Message.truncate (m : Message) : Message where
  metadata := { m.metadata with truncation := true }
  queries := m.queries
  edns := m.edns

/-- `Message::response` -/
def Message.response (id : UInt16) (opCode : OpCode) : Message where
  metadata := { id, messageType := .response, opCode }

/-- What hickory decides: the wire format and the texts of names and types. -/
structure Codec where
  fromVec : Bytes → Option Message
  toVec : Message → Option Bytes
  toAscii : Name → Str
  recordTypeText : RecordType → Str

/-- The size of an OPT record: eleven bytes and its options. -/
def Edns.size (e : Edns) : ℕ := 11 + (e.options.map fun o => 4 + o.2.length).sum

/-- A message without records is a header of twelve bytes, its questions and its OPT record, and
what was encoded is decoded again. How names are compressed is left open. -/
structure Codec.Measured (codec : Codec) (questionsSize : List Query → ℕ) : Prop where
  decodes : ∀ m bytes, codec.toVec m = some bytes → codec.fromVec bytes = some m
  length : ∀ m bytes, codec.toVec m = some bytes → m.answers = [] → m.authorities = [] →
    m.additionals = [] →
      bytes.length = 12 + questionsSize m.queries + (m.edns.map Edns.size).getD 0

def RecordType.text : RecordType → Str
  | .a => "A".toList
  | .aaaa => "AAAA".toList
  | .cname => "CNAME".toList
  | .mx => "MX".toList
  | .opt => "OPT".toList
  | .ptr => "PTR".toList
  | .soa => "SOA".toList
  | .txt => "TXT".toList
  | .other _ => "UNKNOWN".toList

/-- A codec that knows the listed messages only; their names need no escapes. -/
def Codec.ofTable (table : List (Bytes × Message)) : Codec where
  fromVec bytes := table.lookup bytes
  toVec m := (table.find? fun entry => entry.2 = m).map Prod.fst
  toAscii name := name.labels.flatMap fun label => label.map Char.ofUInt8 ++ ['.']
  recordTypeText := RecordType.text

theorem Codec.mem_of_toVec_ofTable {table : List (Bytes × Message)} {m : Message} {bytes : Bytes}
    (h : (Codec.ofTable table).toVec m = some bytes) : (bytes, m) ∈ table := by
  obtain ⟨entry, hfind, rfl⟩ := Option.map_eq_some_iff.mp h
  have hdecide := List.find?_some hfind
  have hm : entry.2 = m := of_decide_eq_true hdecide
  exact hm ▸ List.mem_of_find?_eq_some hfind

/-- In a table without repetitions, what was encoded is decoded again. -/
theorem Codec.fromVec_of_toVec_ofTable {table : List (Bytes × Message)}
    (hnodup : (table.map Prod.fst).Nodup) {m : Message} {bytes : Bytes}
    (h : (Codec.ofTable table).toVec m = some bytes) :
    (Codec.ofTable table).fromVec bytes = some m := by
  have hmem := Codec.mem_of_toVec_ofTable h
  show table.lookup bytes = some m
  clear h
  induction table with
  | nil => cases hmem
  | cons e table ih =>
    rw [List.map_cons, List.nodup_cons] at hnodup
    rw [List.lookup_cons]
    rcases List.mem_cons.mp hmem with rfl | htail
    · simp
    · have hne : bytes ≠ e.1 := fun h => hnodup.1 (h ▸ List.mem_map.mpr ⟨(bytes, m), htail, rfl⟩)
      have hbeq : (bytes == e.1) = false := beq_false_of_ne hne
      simp only [hbeq]
      exact ih hnodup.2 htail

/-- What the entries of the table satisfy, the codec does. -/
theorem Codec.measured_ofTable {table : List (Bytes × Message)} {questionsSize : List Query → ℕ}
    (hnodup : (table.map Prod.fst).Nodup)
    (hlength : ∀ entry ∈ table, entry.2.answers = [] → entry.2.authorities = [] →
      entry.2.additionals = [] → entry.1.length =
        12 + questionsSize entry.2.queries + (entry.2.edns.map Edns.size).getD 0) :
    (Codec.ofTable table).Measured questionsSize := by
  refine ⟨fun m bytes h => Codec.fromVec_of_toVec_ofTable hnodup h, fun m bytes h => ?_⟩
  exact hlength (bytes, m) (Codec.mem_of_toVec_ofTable h)

def exampleName : Name := ⟨[[101, 120, 97, 109, 112, 108, 101], [99, 111, 109]]⟩

/-- `example.com. IN A?` with RD set. -/
def exampleQuery : Message where
  metadata := { id := 0x1234, messageType := .query, opCode := .query, recursionDesired := true }
  queries := [⟨exampleName, .a, .internet⟩]

def exampleQueryBytes : Bytes :=
  [0x12, 0x34, 0x01, 0x00, 0, 1, 0, 0, 0, 0, 0, 0,
    7, 101, 120, 97, 109, 112, 108, 101, 3, 99, 111, 109, 0, 0, 1, 0, 1]

end Hickory
