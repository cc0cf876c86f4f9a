import Netwatch.Oui
import Netwatch.RustStd.Slice

/-!
# DHCP requests

`parse_dhcp` of `devices.rs` reads the MAC and the host name out of a BOOTP packet from anybody
on the network. The options after the magic cookie are a sequence of pad bytes and of code, length
and data; a cursor walks along them.

## Main definitions

- `hostnameFrom` — the walk over the options
- `parseDhcp` — the whole packet, with a panic for every access out of bounds
- `BootRequest`, `Item`, `Ending` — what a request is made of, as bytes

## Main results

- `parseDhcp_ok` — there is no access out of bounds
- `parseDhcp_encode` — what is decoded from a request and its options
-/

namespace Netwatch

open RustStd

namespace Dhcp

/-- `format!("{b:02x}")` -/
def hexByte (b : UInt8) : Str := [Nat.digitChar (b.toNat / 16), Nat.digitChar (b.toNat % 16)]

def macText (bytes : List UInt8) : Str := Str.join [':'] (bytes.map hexByte)

/-- The host name of option 12, unless it is not UTF-8. -/
def readHostname (pkt : Slice UInt8) (code : UInt8) (start stop : ℕ) (hostname : Option Str) :
    Except Panic (Option Str) :=
  if code = 12 then do
    let data ← pkt.range start stop
    .ok ((Str.fromUtf8 data).or hostname)
  else .ok hostname

/-- `while i < pkt.len()`; the outer `none` is the `?` of `checked_add`. -/
def hostnameFrom (pkt : Slice UInt8) (i : ℕ) (hostname : Option Str) :
    Except Panic (Option (Option Str)) :=
  if _h : i < pkt.len then do
    let code ← pkt.index i
    if code = 0 then hostnameFrom pkt (i + 1) hostname
    else if code = 255 then .ok (some hostname)
    else if i + 1 ≥ pkt.len then .ok (some hostname)
    else do
      let len ← pkt.index (i + 1)
      match _hstop : checkedAdd (i + 2) len.toNat with
      | none => .ok none
      | some stop =>
        if _hle : stop > pkt.len then .ok (some hostname)
        else do
          let hostname ← readHostname pkt code (i + 2) stop hostname
          hostnameFrom pkt stop hostname
  else .ok (some hostname)
termination_by pkt.len - i
decreasing_by
  · omega
  · have hstop : i + 2 + len.toNat = stop := by
      rw [checkedAdd] at _hstop
      split at _hstop
      · exact Option.some.inj _hstop
      · cases _hstop
    omega

def parseDhcp (pkt : Slice UInt8) : Except Panic (Option (Str × Option Str)) :=
  if pkt.len < 240 then .ok none
  else do
    let op ← pkt.index 0
    -- a reply
    if op ≠ 1 then .ok none
    else do
      let hlen ← pkt.index 2
      if hlen.toNat = 0 ∨ hlen.toNat > 16 then .ok none
      else do
        let macBytes ← pkt.range 28 (28 + min hlen.toNat 6)
        match Oui.normalize (macText macBytes) with
        | none => .ok none
        | some mac => do
          let cookie ← pkt.range 236 240
          if cookie ≠ [0x63, 0x82, 0x53, 0x63] then .ok (some (mac, none))
          else do
            let hostname ← hostnameFrom pkt 240 none
            .ok (hostname.map fun hostname => (mac, hostname))

/-! ### What a request is made of -/

structure BootRequest where
  htype : UInt8
  hlen : UInt8
  /-- From `hops` to `giaddr`. -/
  fields : List UInt8
  mac : List UInt8
  /-- The rest of `chaddr`, `sname` and `file`. -/
  names : List UInt8
  hlen_ge : 6 ≤ hlen.toNat
  hlen_le : hlen.toNat ≤ 16
  fields_length : fields.length = 25
  mac_length : mac.length = 6
  names_length : names.length = 202
  mac_ne : ∃ b ∈ mac, b ≠ 0

/-- With the magic cookie. -/
def BootRequest.bytes (request : BootRequest) : List UInt8 :=
  [1, request.htype, request.hlen] ++ request.fields ++ request.mac ++ request.names ++
    [0x63, 0x82, 0x53, 0x63]

inductive Item
  | pad
  | option (code : UInt8) (data : List UInt8) (hpad : code ≠ 0) (hend : code ≠ 255)
      (hdata : data.length ≤ 255)

def Item.bytes : Item → List UInt8
  | .pad => [0]
  | .option code data .. => code :: UInt8.ofNat data.length :: data

/-- The host name, if it is a readable option 12. -/
def Item.hostname : Item → Option Str
  | .pad => none
  | .option code data .. => if code = 12 then Str.fromUtf8 data else none

/-- How the options end; the packet may also be cut within an option. -/
inductive Ending
  | none
  | stop (rest : List UInt8)
  | cutBeforeLength (code : UInt8) (hpad : code ≠ 0) (hend : code ≠ 255)
  | cutInData (code len : UInt8) (data : List UInt8) (hpad : code ≠ 0) (hend : code ≠ 255)
      (hdata : data.length < len.toNat)

def Ending.bytes : Ending → List UInt8
  | .none => []
  | .stop rest => 255 :: rest
  | .cutBeforeLength code .. => [code]
  | .cutInData code len data .. => code :: len :: data

/-! ### One turn of the cursor -/

section Turn

variable {pkt : Slice UInt8} {pre rest : List UInt8} {code len : UInt8} {hostname : Option Str}

theorem hostnameFrom_of_le {i : ℕ} (h : pkt.len ≤ i) :
    hostnameFrom pkt i hostname = .ok (some hostname) := by
  rw [hostnameFrom, dif_neg (by omega)]

theorem hostnameFrom_pad (h : pkt.val = pre ++ 0 :: rest) :
    hostnameFrom pkt pre.length hostname = hostnameFrom pkt (pre.length + 1) hostname := by
  have hlen := Slice.len_append h
  rw [List.length_cons] at hlen
  rw [hostnameFrom, dif_pos (by omega), Slice.index_append pre h]
  rfl

theorem hostnameFrom_end (h : pkt.val = pre ++ 255 :: rest) :
    hostnameFrom pkt pre.length hostname = .ok (some hostname) := by
  have hlen := Slice.len_append h
  rw [List.length_cons] at hlen
  rw [hostnameFrom, dif_pos (by omega), Slice.index_append pre h]
  rfl

theorem hostnameFrom_cutBeforeLength (hpad : code ≠ 0) (hend : code ≠ 255)
    (h : pkt.val = pre ++ [code]) :
    hostnameFrom pkt pre.length hostname = .ok (some hostname) := by
  have hlen := Slice.len_append h
  rw [List.length_singleton] at hlen
  rw [hostnameFrom, dif_pos (by omega), Slice.index_append pre h]
  show (if code = 0 then _ else if code = 255 then _ else if pre.length + 1 ≥ pkt.len then _ else _)
    = _
  rw [if_neg hpad, if_neg hend, if_pos (by omega)]

/-- An option whose length byte is there. -/
theorem hostnameFrom_option (hpad : code ≠ 0) (hend : code ≠ 255)
    (h : pkt.val = pre ++ code :: len :: rest) :
    hostnameFrom pkt pre.length hostname =
      if rest.length < len.toNat then .ok (some hostname)
      else readHostname pkt code (pre.length + 2) (pre.length + 2 + len.toNat) hostname >>=
        hostnameFrom pkt (pre.length + 2 + len.toNat) := by
  have hlen := Slice.len_append h
  simp only [List.length_cons] at hlen
  have hnext : pkt.index (pre.length + 1) = .ok len := by
    have hsplit : pkt.val = (pre ++ [code]) ++ len :: rest := by rw [h]; simp
    have hindex := Slice.index_append (pre ++ [code]) hsplit
    rwa [List.length_append] at hindex
  have hstop : checkedAdd (pre.length + 2) len.toNat = some (pre.length + 2 + len.toNat) :=
    Slice.checkedAdd_of_le (s := pkt) (by omega) (by have := len.toNat_lt; omega)
  rw [hostnameFrom, dif_pos (by omega), Slice.index_append pre h]
  show (if code = 0 then _ else if code = 255 then _ else if pre.length + 1 ≥ pkt.len then _ else _)
    = _
  rw [if_neg hpad, if_neg hend, if_neg (by omega), hnext]
  simp only [bind, Except.bind]
  split
  · next heq =>
    rw [hstop] at heq
    cases heq
  · next stop heq =>
    rw [hstop] at heq
    cases heq
    by_cases hshort : rest.length < len.toNat
    · rw [dif_pos (by omega), if_pos hshort]
    · rw [dif_neg (by omega), if_neg hshort]

theorem hostnameFrom_whole {data : List UInt8} (hpad : code ≠ 0) (hend : code ≠ 255)
    (hdata : data.length ≤ 255)
    (h : pkt.val = pre ++ (Item.bytes (.option code data hpad hend hdata) ++ rest)) :
    hostnameFrom pkt pre.length hostname =
      hostnameFrom pkt (pre ++ Item.bytes (.option code data hpad hend hdata)).length
        ((Item.hostname (.option code data hpad hend hdata)).or hostname) := by
  have hlen : (UInt8.ofNat data.length).toNat = data.length := by
    rw [UInt8.toNat_ofNat']
    omega
  have hsplit : pkt.val = (pre ++ [code, UInt8.ofNat data.length]) ++ (data ++ rest) := by
    rw [h, Item.bytes]
    simp
  have hrange := Slice.range_append _ data hsplit
  have hread : readHostname pkt code (pre.length + 2) (pre.length + 2 + data.length) hostname =
      .ok ((Item.hostname (.option code data hpad hend hdata)).or hostname) := by
    rw [readHostname, Item.hostname]
    rw [List.length_append] at hrange
    by_cases hcode : code = 12
    · rw [if_pos hcode, if_pos hcode]
      show (pkt.range (pre.length + 2) (pre.length + 2 + data.length) >>= _) = _
      rw [show pre.length + 2 = pre.length + [code, UInt8.ofNat data.length].length from rfl,
        hrange]
      rfl
    · rw [if_neg hcode, if_neg hcode, Option.none_or]
  have hcons : pkt.val = pre ++ code :: UInt8.ofNat data.length :: (data ++ rest) := h
  rw [hostnameFrom_option hpad hend hcons, hlen, if_neg (by rw [List.length_append]; omega), hread]
  show hostnameFrom pkt (pre.length + 2 + data.length) _ = _
  rw [List.length_append, Item.bytes, List.length_cons, List.length_cons]
  congr 1
  omega

theorem hostnameFrom_ending {ending : Ending} (h : pkt.val = pre ++ ending.bytes) :
    hostnameFrom pkt pre.length hostname = .ok (some hostname) := by
  cases ending with
  | none => exact hostnameFrom_of_le (Slice.len_append h).le
  | stop rest => exact hostnameFrom_end h
  | cutBeforeLength code hpad hend => exact hostnameFrom_cutBeforeLength hpad hend h
  | cutInData code len data hpad hend hdata =>
    rw [hostnameFrom_option hpad hend h, if_pos hdata]

end Turn

/-! ### The options -/

/-- The last one wins. -/
def lastHostname (items : List Item) : Option Str := (items.filterMap Item.hostname).getLast?

theorem lastHostname_cons (item : Item) (items : List Item) (hostname : Option Str) :
    (lastHostname (item :: items)).or hostname =
      (lastHostname items).or (item.hostname.or hostname) := by
  rw [lastHostname, lastHostname, List.filterMap_cons]
  cases item.hostname with
  | none => rfl
  | some name =>
    dsimp only
    rw [List.getLast?_cons]
    cases (items.filterMap Item.hostname).getLast? <;> rfl

theorem hostnameFrom_items {pkt : Slice UInt8} {items : List Item} {ending : Ending}
    {pre : List UInt8} {hostname : Option Str}
    (h : pkt.val = pre ++ (items.flatMap Item.bytes ++ ending.bytes)) :
    hostnameFrom pkt pre.length hostname = .ok (some ((lastHostname items).or hostname)) := by
  induction items generalizing pre hostname with
  | nil => exact hostnameFrom_ending h
  | cons item items ih =>
    rw [List.flatMap_cons, List.append_assoc] at h
    have hrest := h
    rw [← List.append_assoc] at hrest
    rw [lastHostname_cons, ← ih hrest]
    cases item with
    | pad =>
      rw [hostnameFrom_pad h, List.length_append]
      rfl
    | option code data hpad hend hdata => exact hostnameFrom_whole hpad hend hdata h

/-- Any bytes are options with an ending. -/
theorem exists_items (bytes : List UInt8) :
    ∃ (items : List Item) (ending : Ending), bytes = items.flatMap Item.bytes ++ ending.bytes := by
  induction hn : bytes.length using Nat.strong_induction_on generalizing bytes with
  | _ n ih =>
    subst hn
    cases bytes with
    | nil => exact ⟨[], .none, rfl⟩
    | cons code rest =>
      by_cases hpad : code = 0
      · obtain ⟨items, ending, heq⟩ := ih rest.length (by simp) rest rfl
        exact ⟨.pad :: items, ending, by rw [heq, hpad]; rfl⟩
      by_cases hend : code = 255
      · exact ⟨[], .stop rest, by rw [hend]; rfl⟩
      cases rest with
      | nil => exact ⟨[], .cutBeforeLength code hpad hend, rfl⟩
      | cons len rest =>
        by_cases hdata : rest.length < len.toNat
        · exact ⟨[], .cutInData code len rest hpad hend hdata, rfl⟩
        · have htake : (rest.take len.toNat).length = len.toNat := by
            rw [List.length_take]
            omega
          obtain ⟨items, ending, heq⟩ := ih (rest.drop len.toNat).length (by simp; omega) _ rfl
          refine ⟨.option code (rest.take len.toNat) hpad hend (by have := len.toNat_lt; omega) ::
            items, ending, ?_⟩
          rw [List.flatMap_cons, List.append_assoc, ← heq, Item.bytes, htake, UInt8.ofNat_toNat]
          simp

/-! ### The MAC -/

theorem hexDigit (d : ℕ) (h : d < 16) : Oui.isHexdigit (Nat.digitChar d) = true ∧
    (Nat.digitChar d).toLower = Nat.digitChar d ∧
      (Nat.digitChar d == '0') = decide (d = 0) := by
  revert d
  decide

theorem hexByte_all_zero (b : UInt8) : (hexByte b).all (· == '0') = decide (b = 0) := by
  have hhigh := (hexDigit (b.toNat / 16) (by have := b.toNat_lt; omega)).2.2
  have hlow := (hexDigit (b.toNat % 16) (by omega)).2.2
  rw [hexByte, List.all_cons, List.all_cons, List.all_nil, Bool.and_true, hhigh, hlow,
    ← Bool.decide_and]
  refine decide_eq_decide.mpr ⟨fun h => UInt8.toNat_inj.mp ?_, fun h => ?_⟩
  · show b.toNat = 0
    omega
  · rw [h]
    decide

/-- Twelve lower-case digits. -/
theorem hexOf_macText {bytes : List UInt8} (h : bytes.length = 6) :
    macText bytes = Oui.colonPairs (bytes.flatMap hexByte) ∧
      Oui.hexOf (macText bytes) = bytes.flatMap hexByte := by
  have hpairs : macText bytes = Oui.colonPairs (bytes.flatMap hexByte) := by
    match bytes, h with
    | [a, b, c, d, e, f], _ => rfl
  refine ⟨hpairs, ?_⟩
  have hlen : (bytes.flatMap hexByte).length = 12 := by
    rw [List.length_flatMap]
    simp [hexByte, h]
  rw [hpairs]
  refine Oui.hexOf_colonPairs hlen fun c hc => ?_
  obtain ⟨b, -, hb⟩ := List.mem_flatMap.mp hc
  rw [hexByte, List.mem_cons, List.mem_singleton] at hb
  rcases hb with rfl | rfl
  · exact (hexDigit _ (by have := b.toNat_lt; omega)).1
  · exact (hexDigit _ (by omega)).1

theorem toAsciiLowercase_hexBytes (bytes : List UInt8) :
    Str.toAsciiLowercase (bytes.flatMap hexByte) = bytes.flatMap hexByte := by
  induction bytes with
  | nil => rfl
  | cons b bytes ih =>
    have hhigh := (hexDigit (b.toNat / 16) (by have := b.toNat_lt; omega)).2.1
    have hlow := (hexDigit (b.toNat % 16) (by omega)).2.1
    rw [Str.toAsciiLowercase] at ih ⊢
    rw [List.flatMap_cons, List.map_append, ih, hexByte]
    simp only [List.map_cons, List.map_nil, hhigh, hlow]

/-- The text of a MAC is its canonical form. -/
theorem normalize_macText {bytes : List UInt8} (h : bytes.length = 6) (hne : ∃ b ∈ bytes, b ≠ 0) :
    Oui.normalize (macText bytes) = some (macText bytes) := by
  obtain ⟨hpairs, hhex⟩ := hexOf_macText h
  have hlen : (bytes.flatMap hexByte).length = 12 := by
    rw [List.length_flatMap]
    simp [hexByte, h]
  have hzero : (bytes.flatMap hexByte).all (· == '0') = false := by
    obtain ⟨b, hb, hb0⟩ := hne
    rw [List.all_flatMap, List.all_eq_false]
    refine ⟨b, hb, ?_⟩
    rw [hexByte_all_zero]
    simpa using hb0
  rw [Oui.normalize, hhex, if_neg (by rw [hlen]; simp), hzero, toAsciiLowercase_hexBytes, ← hpairs]
  rfl

/-! ### Whole packets -/

theorem hostnameFrom_ok {pkt : Slice UInt8} {i : ℕ} (h : i ≤ pkt.len) (hostname : Option Str) :
    ∃ last, hostnameFrom pkt i hostname = .ok (some last) := by
  obtain ⟨items, ending, heq⟩ := exists_items (pkt.val.drop i)
  have hsplit : pkt.val = pkt.val.take i ++ (items.flatMap Item.bytes ++ ending.bytes) := by
    rw [← heq, List.take_append_drop]
  have hrun : hostnameFrom pkt (pkt.val.take i).length hostname = _ := hostnameFrom_items hsplit
  rw [List.length_take, Nat.min_eq_left (show i ≤ pkt.val.length from h)] at hrun
  exact ⟨_, hrun⟩

/-- There is no access out of bounds. -/
theorem parseDhcp_ok (pkt : Slice UInt8) : ∃ request, parseDhcp pkt = .ok request := by
  rw [parseDhcp]
  by_cases hshort : pkt.len < 240
  · exact ⟨none, if_pos hshort⟩
  obtain ⟨op, hop⟩ := Slice.index_of_lt (s := pkt) (i := 0) (by omega)
  obtain ⟨hlen, hhlen⟩ := Slice.index_of_lt (s := pkt) (i := 2) (by omega)
  have hmac := Slice.range_of_le (s := pkt) (Nat.le_add_right 28 (min hlen.toNat 6)) (by omega)
  have hcookie := Slice.range_of_le (s := pkt) (show 236 ≤ 240 by omega) (by omega)
  obtain ⟨hostname, hhostname⟩ := hostnameFrom_ok (by omega : 240 ≤ pkt.len) none
  rw [if_neg hshort]
  simp only [hop, hhlen, hmac, hcookie, hhostname, bind, Except.bind]
  split
  · exact ⟨_, rfl⟩
  · split
    · exact ⟨_, rfl⟩
    · split
      · exact ⟨_, rfl⟩
      · split <;> exact ⟨_, rfl⟩

theorem BootRequest.length_bytes (request : BootRequest) : request.bytes.length = 240 := by
  simp [BootRequest.bytes, request.fields_length, request.mac_length, request.names_length]

theorem parseDhcp_encode {pkt : Slice UInt8} {request : BootRequest} {items : List Item}
    {ending : Ending} (h : pkt.val = request.bytes ++ (items.flatMap Item.bytes ++ ending.bytes)) :
    parseDhcp pkt = .ok (some (macText request.mac, lastHostname items)) := by
  have hhostname : hostnameFrom pkt request.bytes.length none = _ := hostnameFrom_items h
  have hlong := Slice.len_append h
  rw [request.length_bytes] at hhostname hlong
  rw [Option.or_none] at hhostname
  generalize items.flatMap Item.bytes ++ ending.bytes = options at h
  have hop : pkt.index 0 = .ok 1 :=
    Slice.index_append [] (by rw [h, BootRequest.bytes]; rfl)
  have hhlen : pkt.index 2 = .ok request.hlen :=
    Slice.index_append [1, request.htype] (by rw [h, BootRequest.bytes]; rfl)
  have hmac : pkt.range 28 (28 + min request.hlen.toNat 6) = .ok request.mac := by
    have hrange := Slice.range_append (s := pkt)
      ([1, request.htype, request.hlen] ++ request.fields) request.mac
      (by rw [h, BootRequest.bytes]; simp only [List.append_assoc]; rfl)
    rw [List.length_append, request.fields_length, request.mac_length] at hrange
    rwa [Nat.min_eq_right request.hlen_ge]
  have hcookie : pkt.range 236 240 = .ok [0x63, 0x82, 0x53, 0x63] := by
    have hrange := Slice.range_append (s := pkt)
      ([1, request.htype, request.hlen] ++ request.fields ++ request.mac ++ request.names)
      [0x63, 0x82, 0x53, 0x63]
      (by rw [h, BootRequest.bytes]; simp only [List.append_assoc]; rfl)
    simpa [request.fields_length, request.mac_length, request.names_length] using hrange
  have hbad : ¬ (request.hlen.toNat = 0 ∨ request.hlen.toNat > 16) := by
    have hge := request.hlen_ge
    have hle := request.hlen_le
    omega
  rw [parseDhcp, if_neg (by omega)]
  simp only [hop, hhlen, hmac, hcookie, hhostname, hbad, bind, Except.bind, ne_eq, not_true,
    if_false, normalize_macText request.mac_length request.mac_ne, Option.map_some]

/-- No packet is read out of bounds, and a request is decoded whatever ends its options. -/
theorem parseDhcp_spec :
    (∀ pkt : Slice UInt8, ∃ request, parseDhcp pkt = .ok request) ∧
    ∀ (request : BootRequest) (items : List Item) (ending : Ending) (pkt : Slice UInt8),
      pkt.val = request.bytes ++ (items.flatMap Item.bytes ++ ending.bytes) →
        parseDhcp pkt = .ok (some (macText request.mac, lastHostname items)) ∧
          Oui.normalize (macText request.mac) = some (macText request.mac) := by
  refine ⟨parseDhcp_ok, fun request items ending pkt h => ⟨parseDhcp_encode h, ?_⟩⟩
  exact normalize_macText request.mac_length request.mac_ne

/-- A request of a phone, as the tests of the source build it. -/
def phone : BootRequest where
  htype := 1
  hlen := 6
  fields := List.replicate 25 0
  mac := [0xb8, 0x27, 0xeb, 0x11, 0x22, 0x33]
  names := List.replicate 202 0
  hlen_ge := by decide
  hlen_le := by decide
  fields_length := rfl
  mac_length := rfl
  names_length := rfl
  mac_ne := ⟨0xb8, by decide, by decide⟩

def phoneItems : List Item :=
  [.option 53 [1] (by decide) (by decide) (by decide), .pad,
    .option 12 [0x70, 0x69] (by decide) (by decide) (by decide)]

def phonePacket : Slice UInt8 where
  val := phone.bytes ++ (phoneItems.flatMap Item.bytes ++ Ending.bytes (.stop [0, 7]))
  length_lt := by
    rw [List.length_append, phone.length_bytes]
    decide

theorem parseDhcp_spec_phone : parseDhcp phonePacket =
    .ok (some ("b8:27:eb:11:22:33".toList, some "pi".toList)) := by
  have h := (parseDhcp_spec.2 phone phoneItems (.stop [0, 7]) phonePacket rfl).1
  have hname : lastHostname phoneItems = some "pi".toList := by
    have hutf8 : Str.fromUtf8 [0x70, 0x69] = some "pi".toList := Str.fromUtf8_eq_some_iff.mpr rfl
    simp [lastHostname, phoneItems, Item.hostname, hutf8]
  rw [hname] at h
  exact h

end Dhcp

end Netwatch
