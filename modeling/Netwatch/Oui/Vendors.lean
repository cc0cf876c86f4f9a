import Netwatch.Oui
import Netwatch.RustStd.Fields

/-!
# The vendor table

`oui.rs`: the prefixes that are compiled in, and the IEEE `oui.csv` that fills the gaps between
them.

## Main definitions

- `OuiDb.new`, `OuiDb.loadIeeeCsv` — the two ways into the table
- `OuiDb.csvRow` — what is read of a line of the file
- `OuiDb.rows` — prefixes and vendors, the first row of a prefix being the one that counts

## Main results

- `lookup_available` — what is found of a MAC, in any notation
-/

namespace RustStd.Str

/-- `s.splitn(n, c)` -/
def splitn (c : Char) : ℕ → Str → List Str
  | 0, _ => []
  | 1, s => [s]
  | n + 2, s =>
    match splitOnce c s with
    | some (field, rest) => field :: splitn c (n + 1) rest
    | none => [s]

def trimMatches (c : Char) (s : Str) : Str := (s.dropWhile (· == c)).rdropWhile (· == c)

end RustStd.Str

namespace Netwatch

open RustStd

/-- The digits of a prefix, in upper case. -/
def Oui.key (assignment : Str) : Str := (Oui.hexOf assignment).map Char.toUpper

namespace OuiDb

/-- Some prefixes have spaces in them. -/
def builtinTable : List (String × String) :=
  [("B827EB", "Raspberry Pi Foundation"), ("DCA632", "Raspberry Pi Trading"),
    ("E45F01", "Raspberry Pi Trading"), ("D83ADD", "Raspberry Pi Trading"),
    ("2CCF67", "Raspberry Pi Trading"), ("88A29E", "Raspberry Pi Ltd"), ("F0D1A9", "Apple"),
    ("A85C2C", "Apple"), ("3C0754", "Apple"), ("D02598", "Apple"), ("AC87A3", "Apple"),
    ("8C8590", "Apple"), ("F80377", "Apple"), ("6C4008", "Apple"), ("A4B197", "Apple"),
    ("DC2B2A", "Apple"), ("E0B9BA", "Apple"), ("F0DBF8", "Apple"), ("04D3CF", "Apple"),
    ("BC926B", "Apple"), ("C82A14", "Apple"), ("E8508B", "Samsung Electronics"),
    ("F409D8", "Samsung Electronics"), ("5CF6DC", "Samsung Electronics"),
    ("8C7712", "Samsung Electronics"), ("34BE00", "Samsung Electronics"),
    ("D0176A", "Samsung Electronics"), ("2C598A", "Samsung Electronics"),
    ("C0BDD1", "Samsung Electronics"), ("F4F5D8", "Google"), ("F4F5E8", "Google"),
    ("3C5AB4", "Google"), ("DA A1 19", "Google"), ("1CF29A", "Google"), ("54600D", "Google Nest"),
    ("18B430", "Google Nest"), ("F0272D", "Amazon Technologies"), ("44650D", "Amazon Technologies"),
    ("68375A", "Amazon Technologies"), ("A002DC", "Amazon Technologies"),
    ("FCA183", "Amazon Technologies"), ("74C246", "Amazon Technologies"),
    ("50DCE7", "Amazon Technologies"), ("001B21", "Intel"), ("3C9709", "Intel"),
    ("94659C", "Intel"), ("A0A8CD", "Intel"), ("8CC681", "Intel"), ("E4A471", "Intel"),
    ("7C7A91", "Intel"), ("240AC4", "Espressif (ESP32)"), ("2462AB", "Espressif (ESP32)"),
    ("30AEA4", "Espressif (ESP32)"), ("3C71BF", "Espressif (ESP32)"),
    ("807D3A", "Espressif (ESP32)"), ("A4CF12", "Espressif (ESP32)"),
    ("B4E62D", "Espressif (ESP32)"), ("CC50E3", "Espressif (ESP32)"),
    ("D8A01D", "Espressif (ESP32)"), ("EC FA BC", "Espressif (ESP32)"),
    ("5CCF7F", "Espressif (ESP8266)"), ("18FE34", "Espressif (ESP8266)"), ("50C7BF", "TP-Link"),
    ("A42BB0", "TP-Link"), ("C46E1F", "TP-Link"), ("14CC20", "TP-Link"), ("6466B3", "TP-Link"),
    ("9C5322", "TP-Link"), ("003192", "TP-Link"), ("A040A0", "Netgear"), ("204E7F", "Netgear"),
    ("9CD36D", "Netgear"), ("C40415", "Netgear"), ("1CBDB9", "D-Link"), ("14D64D", "D-Link"),
    ("2C4D54", "ASUSTek"), ("1C872C", "ASUSTek"), ("AC220B", "ASUSTek"), ("48F8B3", "Linksys"),
    ("C0561D", "Linksys"), ("64B473", "Xiaomi"), ("F8A45F", "Xiaomi"), ("286C07", "Xiaomi"),
    ("78110F", "Xiaomi"), ("50EC50", "Xiaomi"), ("00E0FC", "Huawei"), ("240995", "Huawei"),
    ("48D539", "Huawei"), ("781DBA", "Huawei"), ("64A2F9", "OnePlus"), ("C0EEFB", "OnePlus"),
    ("94652D", "OnePlus"), ("D0C5D3", "Oppo"), ("2CF0A2", "Vivo"), ("5CAAFD", "Sonos"),
    ("949F3E", "Sonos"), ("B8E937", "Sonos"), ("B0A737", "Roku"), ("CC6DA0", "Roku"),
    ("D83134", "Roku"), ("C8D083", "Vizio"), ("74E1B6", "LG Electronics"),
    ("A816B2", "LG Electronics"), ("2013E0", "Sony"), ("FCF152", "Sony"), ("001788", "Philips Hue"),
    ("ECB5FA", "Philips Hue"), ("245A4C", "Ubiquiti"), ("788A20", "Ubiquiti"),
    ("FC ECDA", "Ubiquiti"), ("74ACB9", "Ubiquiti"), ("4C5E0C", "Routerboard (MikroTik)"),
    ("E48D8C", "Routerboard (MikroTik)"), ("6C3B6B", "Routerboard (MikroTik)"), ("001A2B", "Cisco"),
    ("F4CFE2", "Cisco"), ("3CD92B", "HP"), ("9CB6D0", "HP"), ("002673", "Brother"),
    ("008077", "Brother"), ("00000E", "Canon"), ("2477 03", "Epson"), ("000C29", "VMware"),
    ("005056", "VMware"), ("080027", "VirtualBox"), ("525400", "QEMU/KVM"), ("02420A", "Docker"),
    ("B0BE76", "Belkin"), ("EC1A59", "Belkin/Wemo"), ("6038E0", "Belkin"), ("001E8F", "Canon"),
    ("00248C", "ASUSTek"), ("485D36", "Amazon eero"), ("F8BBBF", "Nintendo"),
    ("98B6E9", "Nintendo"), ("0017AB", "Nintendo"), ("7CBB8A", "Nintendo"),
    ("BC60A7", "Sony PlayStation"), ("F8461C", "Sony PlayStation"), ("000D3A", "Microsoft"),
    ("7C1E52", "Microsoft"), ("60455E", "Microsoft Xbox")]

def builtin : List (Str × Str) := builtinTable.map fun row => (row.1.toList, row.2.toList)

def insertBuiltin (map : HashMap Str Str) (row : Str × Str) : HashMap Str Str :=
  let key := Oui.key row.1
  if key.length = 6 then map.insert key row.2 else map

def new : OuiDb := ⟨builtin.foldl insertBuiltin ∅⟩

/-- The prefix and the name of a line `Registry,Assignment,Organization Name,Address`. A name
with a comma in it ends there. -/
def csvRow (line : Str) : Option (Str × Str) :=
  match Str.splitn ',' 4 line with
  | _ :: assignment :: org :: _ =>
    let key := Oui.key assignment
    if key.length ≠ 6 then none
    else
      let org := Str.trim (Str.trimMatches '"' (Str.trim org))
      if org = [] then none else some (key, org)
  | _ => none

/-- One line; the count goes up also where the prefix has a vendor already. -/
def loadLine (acc : OuiDb × ℕ) (line : Str) : OuiDb × ℕ :=
  match csvRow line with
  | some (key, org) => (⟨acc.1.map.orInsert key org⟩, acc.2 + 1)
  | none => acc

/-- The first line is the heading. -/
def loadIeeeCsv (text : Str) (db : OuiDb) : OuiDb × ℕ :=
  ((Str.lines text).drop 1).foldl loadLine (db, 0)

/-- What `main` gives to the registry; `csv` is the text of `discovery.oui_file`, if there is one
and it can be read. -/
def available (csv : Option Str) : OuiDb :=
  match csv with
  | some text => (new.loadIeeeCsv text).1
  | none => new

/-! ### What is in the table -/

def builtinRow (row : Str × Str) : Option (Str × Str) :=
  if (Oui.key row.1).length = 6 then some (Oui.key row.1, row.2) else none

def csvRows (text : Str) : List (Str × Str) := ((Str.lines text).drop 1).filterMap csvRow

/-- The compiled rows, from the last to the first, and then those of the file. -/
def rows (csv : Option Str) : List (Str × Str) :=
  (builtin.filterMap builtinRow).reverse ++ csv.elim [] csvRows

theorem foldl_insertBuiltin (table : List (Str × Str)) (m : HashMap Str Str) :
    table.foldl insertBuiltin m =
      (table.filterMap builtinRow).foldl (fun m row => m.insert row.1 row.2) m := by
  rw [List.foldl_filterMap]
  congr 1
  funext m row
  rw [insertBuiltin, builtinRow]
  by_cases hlen : (Oui.key row.1).length = 6
  · simp only [hlen, if_true]
  · simp only [hlen, if_false]

theorem foldl_loadLine (lines : List Str) (db : OuiDb) (n : ℕ) :
    lines.foldl loadLine (db, n) =
      (⟨(lines.filterMap csvRow).foldl (fun m row => m.orInsert row.1 row.2) db.map⟩,
        n + (lines.filterMap csvRow).length) := by
  induction lines generalizing db n with
  | nil => rfl
  | cons line lines ih =>
    rw [List.foldl_cons, loadLine]
    cases hrow : csvRow line with
    | none =>
      rw [List.filterMap_cons_none hrow]
      exact ih db n
    | some row =>
      rw [List.filterMap_cons_some hrow, List.foldl_cons, List.length_cons]
      refine (ih _ _).trans ?_
      rw [Nat.add_assoc, Nat.add_comm 1]

theorem lookup_map_available (csv : Option Str) (key : Str) :
    (available csv).map.lookup key = (rows csv).lookup key := by
  have hnew : new.map.lookup key = (builtin.filterMap builtinRow).reverse.lookup key := by
    rw [new, foldl_insertBuiltin, HashMap.lookup_foldl_insert, AList.lookup_empty,
      Option.or_none]
  rw [rows, List.lookup_append, ← hnew]
  cases csv with
  | none => exact Option.or_none.symm
  | some text =>
    rw [available, loadIeeeCsv, foldl_loadLine]
    exact HashMap.lookup_foldl_orInsert _ _ _

/-- The compiled names come first, then the lines of the file from the first to the last. -/
theorem lookup_available (csv : Option Str) (mac : Str) :
    (available csv).lookup mac =
      if (Oui.key mac).length < 6 then none else (rows csv).lookup ((Oui.key mac).take 6) := by
  show (if (Oui.key mac).length < 6 then none else _) = _
  rw [lookup_map_available]
  rfl

end OuiDb

end Netwatch
