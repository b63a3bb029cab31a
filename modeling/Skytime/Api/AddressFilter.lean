/-
# Skytime.Api.AddressFilter — loading `client_ipf` from its text, and the check against it.

`Load` reads a text of addresses and blocks entry by entry and returns at the first entry that the
package `net` does not understand; what it has added until then stays. The check takes everything
before the last colon of a remote address for the text of an IP. That is right for `a.b.c.d:port`.
In `[v6]:port` the brackets are not part of the address, and `ParseIP` knows no text with brackets.
-/
import Mathlib.Data.List.TakeWhile
import Mathlib.Data.Set.Basic
import Skytime.Process.Text
import Skytime.Api.Console

namespace Skytime

open Process

/-! ## Words of a text -/

/-- The characters of `unicode.IsSpace`, as UTF-8. -/
def spaces : List (List UInt8) :=
  [[0x09], [0x0a], [0x0b], [0x0c], [0x0d], [0x20], [0xc2, 0x85], [0xc2, 0xa0], [0xe1, 0x9a, 0x80],
    [0xe2, 0x80, 0x80], [0xe2, 0x80, 0x81], [0xe2, 0x80, 0x82], [0xe2, 0x80, 0x83],
    [0xe2, 0x80, 0x84], [0xe2, 0x80, 0x85], [0xe2, 0x80, 0x86], [0xe2, 0x80, 0x87],
    [0xe2, 0x80, 0x88], [0xe2, 0x80, 0x89], [0xe2, 0x80, 0x8a], [0xe2, 0x80, 0xa8],
    [0xe2, 0x80, 0xa9], [0xe2, 0x80, 0xaf], [0xe2, 0x81, 0x9f], [0xe3, 0x80, 0x80]]

/-- The length of the space that `data` begins with, `0` if it begins with none. -/
def spaceWidth (data : List UInt8) : ℕ :=
  match spaces.find? (·.isPrefixOf data) with
  | none => 0
  | some w => w.length

/-- The words of `data`, where `field` has been read of the first one and `skip` bytes are left of a
space. -/
def fieldsFrom : ℕ → List UInt8 → List UInt8 → List (List UInt8)
  | _, field, [] => if field = [] then [] else [field]
  | skip + 1, field, _ :: data => fieldsFrom skip field data
  | 0, field, b :: data =>
    match spaceWidth (b :: data) with
    | 0 => fieldsFrom 0 (field ++ [b]) data
    | w + 1 => (if field = [] then [] else [field]) ++ fieldsFrom w [] data

/-- `bytes.Fields`. -/
def fields (data : List UInt8) : List (List UInt8) := fieldsFrom 0 [] data

/-- A printable byte of ASCII begins no space. -/
theorem spaceWidth_of_printable {b : UInt8} (hb : 0x21 ≤ b ∧ b < 0x7f) (data : List UInt8) :
    spaceWidth (b :: data) = 0 := by
  have hfirst : ∀ w ∈ spaces, w.head?.any (fun c => c < 0x21 || 0x7f ≤ c) = true := by decide
  have hnone : spaces.find? (·.isPrefixOf (b :: data)) = none := by
    apply List.find?_eq_none.mpr
    intro w hw hprefix
    have hw := hfirst w hw
    cases w with
    | nil => simp at hw
    | cons c r =>
        have hcb : c = b := by
          simp only [List.isPrefixOf, Bool.and_eq_true, beq_iff_eq] at hprefix
          exact hprefix.1
        subst hcb
        simp only [List.head?_cons, Option.any_some, Bool.or_eq_true, decide_eq_true_eq] at hw
        rcases hw with hw | hw
        · exact absurd hb.1 (UInt8.not_le.mpr hw)
        · exact absurd hb.2 (UInt8.not_lt.mpr hw)
  rw [spaceWidth, hnone]

theorem fieldsFrom_append {field word : List UInt8} (hword : ∀ b ∈ word, 0x21 ≤ b ∧ b < 0x7f)
    (data : List UInt8) :
    fieldsFrom 0 field (word ++ data) = fieldsFrom 0 (field ++ word) data := by
  induction word generalizing field with
  | nil => simp
  | cons b word ih =>
      have hb := spaceWidth_of_printable (hword b List.mem_cons_self) (word ++ data)
      rw [List.cons_append, fieldsFrom, hb]
      show fieldsFrom 0 (field ++ [b]) (word ++ data) = _
      rw [ih fun c hc => hword c (List.mem_cons_of_mem _ hc), List.append_assoc]
      rfl

/-- Words with a blank after each are read back. -/
theorem fields_words {words : List (List UInt8)}
    (hwords : ∀ w ∈ words, w ≠ [] ∧ ∀ b ∈ w, 0x21 ≤ b ∧ b < 0x7f) :
    fields (words.flatMap (· ++ [0x20])) = words := by
  induction words with
  | nil => rfl
  | cons w words ih =>
      obtain ⟨hne, hprint⟩ := hwords w List.mem_cons_self
      have hrest := ih fun w' hw' => hwords w' (List.mem_cons_of_mem _ hw')
      have hblank : ∀ data, spaceWidth (0x20 :: data) = 1 := fun data => by
        simp [spaceWidth, spaces, List.find?, List.isPrefixOf]
      rw [fields, List.flatMap_cons, List.append_assoc, fieldsFrom_append hprint, List.nil_append,
        List.singleton_append, fieldsFrom, hblank]
      show (if w = [] then [] else [w]) ++ fields _ = _
      rw [if_neg hne, hrest, List.singleton_append]

/-! ## Loading -/

/-- The package `net`, with what loading uses of it. -/
structure NetPkg extends NetLib where
  parseCIDR : String → Option IPNet

/-- `string(item)`; bytes that are not UTF-8 are the text of no address. -/
def itemText (item : List UInt8) : Option String := String.fromUTF8? item.toByteArray

theorem itemText_bytesOf (s : String) : itemText (bytesOf s) = some s := by
  have hbytes : (bytesOf s).toByteArray = s.toByteArray := by
    apply ByteArray.ext
    rw [List.data_toByteArray, bytesOf, byteArray_toList]
    rfl
  rw [itemText, hbytes, String.fromUTF8?, dif_pos s.isValidUTF8]
  rfl

inductive LoadError where
  /-- `errors.New("Parse IP Error: " + s)` -/
  | parseIP (s : List UInt8)
  /-- what `net.ParseCIDR(s)` returns -/
  | parseCIDR (s : List UInt8)
  deriving DecidableEq, Repr

namespace IPFilter

variable {net : NetPkg}

def addIPNet (f : IPFilter net.toNetLib) (item : net.IPNet) : IPFilter net.toNetLib :=
  { f with ipnets := f.ipnets ++ [item] }

def addIPNetString (f : IPFilter net.toNetLib) (s : List UInt8) :
    Except LoadError (IPFilter net.toNetLib) :=
  match (itemText s).bind net.parseCIDR with
  | none => .error (.parseCIDR s)
  | some ipnet => .ok (f.addIPNet ipnet)

def addIP (f : IPFilter net.toNetLib) (ip : net.IP) : IPFilter net.toNetLib :=
  { f with ips := f.ips ++ [ip] }

def addIPString (f : IPFilter net.toNetLib) (s : List UInt8) :
    Except LoadError (IPFilter net.toNetLib) :=
  match (itemText s).bind net.parseIP with
  | none => .error (.parseIP s)
  | some ip => .ok (f.addIP ip)

/-- The loop of `Load`, with the filter as it is when the loop returns. -/
def loadItems (f : IPFilter net.toNetLib) : List (List UInt8) →
    IPFilter net.toNetLib × Option LoadError
  | [] => (f, none)
  | item :: items =>
    if 0x2f ∉ item then
      match f.addIPString item with
      | .error err => (f, some err)
      | .ok f => loadItems f items
    else
      match f.addIPNetString item with
      | .error err => (f, some err)
      | .ok f => loadItems f items

def load (f : IPFilter net.toNetLib) (data : List UInt8) :
    IPFilter net.toNetLib × Option LoadError :=
  f.loadItems (fields data)

end IPFilter

/-! ## Entries -/

/-- A member of one of the two lists of a filter. -/
inductive Entry (net : NetPkg) where
  | ip (ip : net.IP)
  | ipnet (item : net.IPNet)

/-- What an item stands for, `none` if it is malformed. -/
def parseEntry (net : NetPkg) (item : List UInt8) : Option (Entry net) :=
  if 0x2f ∉ item then ((itemText item).bind net.parseIP).map .ip
  else ((itemText item).bind net.parseCIDR).map .ipnet

namespace Entry

variable {net : NetPkg}

/-- What the filter asks of an entry. -/
def covers (ip : net.IP) : Entry net → Bool
  | .ip ip' => net.equal ip' ip
  | .ipnet item => net.contains item ip

end Entry

/-- The entries before the first malformed item. -/
def entriesBefore (net : NetPkg) (items : List (List UInt8)) : List (Entry net) :=
  (items.takeWhile fun item => (parseEntry net item).isSome).filterMap (parseEntry net)

namespace IPFilter

variable {net : NetPkg}

def add (f : IPFilter net.toNetLib) : Entry net → IPFilter net.toNetLib
  | .ip ip => f.addIP ip
  | .ipnet item => f.addIPNet item

/-- One more entry, and nothing else, is what the filter accepts besides. -/
theorem filterIP_add (f : IPFilter net.toNetLib) (e : Entry net) (ip : net.IP) :
    (f.add e).filterIP ip = (f.filterIP ip || e.covers ip) := by
  cases e with
  | ip ip' =>
      show (f.ipnets.any _ || (f.ips ++ [ip']).any _) = ((f.ipnets.any _ || f.ips.any _) || _)
      simp [Entry.covers, Bool.or_assoc]
  | ipnet item =>
      show ((f.ipnets ++ [item]).any _ || f.ips.any _) = ((f.ipnets.any _ || f.ips.any _) || _)
      simp [Entry.covers, Bool.or_comm, Bool.or_left_comm]

/-- One round of the loop. -/
theorem loadItems_cons (f : IPFilter net.toNetLib) (item : List UInt8)
    (items : List (List UInt8)) :
    (∃ e, parseEntry net item = some e ∧
        f.loadItems (item :: items) = (f.add e).loadItems items) ∨
      (parseEntry net item = none ∧ ∃ err, f.loadItems (item :: items) = (f, some err)) := by
  by_cases hslash : 0x2f ∉ item
  · cases htext : (itemText item).bind net.parseIP with
    | none => simp [loadItems, parseEntry, addIPString, hslash, htext]
    | some ip => simp [loadItems, parseEntry, addIPString, hslash, htext, add]
  · cases htext : (itemText item).bind net.parseCIDR with
    | none => simp [loadItems, parseEntry, addIPNetString, hslash, htext]
    | some ipnet => simp [loadItems, parseEntry, addIPNetString, hslash, htext, add]

/-- The loop adds the entries before the first malformed item, in order. -/
theorem loadItems_fst (f : IPFilter net.toNetLib) (items : List (List UInt8)) :
    (f.loadItems items).1 = (entriesBefore net items).foldl add f := by
  induction items generalizing f with
  | nil => rfl
  | cons item items ih =>
      rcases f.loadItems_cons item items with ⟨e, hparse, hload⟩ | ⟨hparse, err, hload⟩
      · rw [hload, ih]
        simp [entriesBefore, hparse]
      · rw [hload]
        simp [entriesBefore, hparse]

/-- The loop fails exactly when some item is malformed. -/
theorem loadItems_snd_eq_none_iff (f : IPFilter net.toNetLib) (items : List (List UInt8)) :
    (f.loadItems items).2 = none ↔ ∀ item ∈ items, (parseEntry net item).isSome := by
  induction items generalizing f with
  | nil => simp [loadItems]
  | cons item items ih =>
      rcases f.loadItems_cons item items with ⟨e, hparse, hload⟩ | ⟨hparse, err, hload⟩
      · rw [hload, ih]
        simp [hparse]
      · rw [hload]
        simp [hparse]

theorem filterIP_foldl_add (f : IPFilter net.toNetLib) (es : List (Entry net)) (ip : net.IP) :
    (es.foldl add f).filterIP ip = true ↔ f.filterIP ip = true ∨ ∃ e ∈ es, e.covers ip = true := by
  induction es generalizing f with
  | nil => simp
  | cons e es ih =>
      rw [List.foldl_cons, ih, filterIP_add]
      simp [or_assoc]

end IPFilter

/-- When no item is malformed, no entry is missing. -/
theorem map_some_entriesBefore {net : NetPkg} {items : List (List UInt8)}
    (h : ∀ item ∈ items, (parseEntry net item).isSome) :
    (entriesBefore net items).map some = items.map (parseEntry net) := by
  have hall : (items.takeWhile fun item => (parseEntry net item).isSome) = items :=
    List.takeWhile_eq_self_iff.mpr h
  rw [entriesBefore, hall]
  clear hall
  induction items with
  | nil => rfl
  | cons item items ih =>
      obtain ⟨e, he⟩ := Option.isSome_iff_exists.mp (h item List.mem_cons_self)
      rw [List.filterMap_cons_some he, List.map_cons, List.map_cons, he,
        ih fun item hitem => h item (List.mem_cons_of_mem _ hitem)]

/-- **`Load` adds the entries before the first malformed one and fails exactly when there is one.**
Without an error it has added them all. -/
theorem IPFilter.load_spec {net : NetPkg} (f : IPFilter net.toNetLib) (data : List UInt8) :
    (f.load data).1 = (entriesBefore net (fields data)).foldl IPFilter.add f ∧
      ((f.load data).2 = none ↔ ∀ item ∈ fields data, (parseEntry net item).isSome) ∧
      ((f.load data).2 = none →
        (entriesBefore net (fields data)).map some = (fields data).map (parseEntry net)) ∧
      ∀ ip, (f.load data).1.filterIP ip = true ↔
        f.filterIP ip = true ∨ ∃ e ∈ entriesBefore net (fields data), e.covers ip = true := by
  have hadd := f.loadItems_fst (fields data)
  have herr := f.loadItems_snd_eq_none_iff (fields data)
  refine ⟨hadd, herr, fun hnone => map_some_entriesBefore (herr.mp hnone), fun ip => ?_⟩
  rw [IPFilter.load, hadd]
  exact f.filterIP_foldl_add _ ip

/-! ## The check -/

/-- `client_ip_limit` and `client_ipf`. -/
structure ClientFilter (net : NetLib) where
  clientIpLimit : String
  clientIpf : IPFilter net

def ClientFilter.checkClientIpf {net : NetLib} (f : ClientFilter net) (remoteAddr : String) :
    Except HandlerPanic Bool :=
  if f.clientIpLimit = "0.0.0.0" then .ok true
  else
    match beforeLast ':' remoteAddr with
    | none => .error .sliceBounds
    | some remotePeerIp => .ok (f.clientIpf.filterIPString remotePeerIp)

/-- The filter that `main` loads. -/
def mainClientFilter (net : NetPkg) (clientIpLimit : String) : ClientFilter net.toNetLib :=
  ⟨clientIpLimit, (IPFilter.load ⟨[], []⟩ (bytesOf clientIpLimit)).1⟩

/-- The 128 bits of an address as a number. -/
abbrev Addr := ℕ

/-- The address `::ffff:a.b.c.d`. -/
def v4Addr (a b c d : UInt8) : Addr :=
  0xffff00000000 + a.toNat * 2 ^ 24 + b.toNat * 2 ^ 16 + c.toNat * 2 ^ 8 + d.toNat

def dotted (a b c d : UInt8) : String :=
  ".".intercalate [toString a.toNat, toString b.toNat, toString c.toNat, toString d.toNat]

/-- The remote address of a TCP connection. The text of an IPv6 address is `host`, with its zone if
it has one. -/
inductive RemoteAddr where
  | v4 (a b c d : UInt8) (port : UInt16)
  | v6 (addr : Addr) (host : String) (port : UInt16)
  deriving DecidableEq, Repr

namespace RemoteAddr

/-- `net.Addr.String()`. -/
def text : RemoteAddr → String
  | .v4 a b c d port => dotted a b c d ++ ":" ++ toString port.toNat
  | .v6 _ host port => "[" ++ host ++ "]:" ++ toString port.toNat

def addr : RemoteAddr → Addr
  | .v4 a b c d _ => v4Addr a b c d
  | .v6 addr _ _ => addr

def IsV4 : RemoteAddr → Prop
  | .v4 .. => True
  | .v6 .. => False

end RemoteAddr

/-- The characters of the texts of IP addresses. -/
def isAddrChar (c : Char) : Bool :=
  c.isDigit || 'a' ≤ c && c ≤ 'f' || 'A' ≤ c && c ≤ 'F' || c == '.' || c == ':'

/-- The documented behaviour of the package `net`, where `addr` is the address that an `IP` stands
for and `block` the block of an `IPNet`. -/
structure NetLib.Documented (net : NetLib) (addr : net.IP → Addr)
    (block : net.IPNet → Set Addr) : Prop where
  equal_iff : ∀ ip ip', net.equal ip ip' = true ↔ addr ip = addr ip'
  contains_iff : ∀ item ip, net.contains item ip = true ↔ addr ip ∈ block item
  parse_dotted : ∀ a b c d, ∃ ip, net.parseIP (dotted a b c d) = some ip ∧
    addr ip = v4Addr a b c d
  parse_chars : ∀ s ip, net.parseIP s = some ip → ∀ c ∈ s.toList, isAddrChar c = true

/-- The addresses of an entry. -/
def Entry.addrs {net : NetPkg} (addr : net.IP → Addr) (block : net.IPNet → Set Addr) :
    Entry net → Set Addr
  | .ip a => {addr a}
  | .ipnet item => block item

/-- The address is one of the listed ones or lies in a listed block. -/
def Listed (net : NetPkg) (addr : net.IP → Addr) (block : net.IPNet → Set Addr) (limit : String)
    (x : Addr) : Prop :=
  ∃ item ∈ fields (bytesOf limit), ∃ e, parseEntry net item = some e ∧ x ∈ e.addrs addr block

section Documented

variable {net : NetPkg} {addr : net.IP → Addr} {block : net.IPNet → Set Addr}

theorem Entry.covers_iff (hnet : net.Documented addr block) (e : Entry net) (ip : net.IP) :
    e.covers ip = true ↔ addr ip ∈ e.addrs addr block := by
  cases e with
  | ip ip' =>
      show net.equal ip' ip = true ↔ addr ip = addr ip'
      rw [hnet.equal_iff]
      exact eq_comm
  | ipnet item => exact hnet.contains_iff item ip

/-- A filter whose text is well-formed accepts what is listed. -/
theorem filterIP_mainClientFilter (hnet : net.Documented addr block) {limit : String}
    (hvalid : ∀ item ∈ fields (bytesOf limit), (parseEntry net item).isSome) (ip : net.IP) :
    (mainClientFilter net limit).clientIpf.filterIP ip = true ↔
      Listed net addr block limit (addr ip) := by
  obtain ⟨-, hnone, hall, haccept⟩ :=
    IPFilter.load_spec (⟨[], []⟩ : IPFilter net.toNetLib) (bytesOf limit)
  have hentries := hall (hnone.mpr hvalid)
  have hmem : ∀ e, e ∈ entriesBefore net (fields (bytesOf limit)) ↔
      ∃ item ∈ fields (bytesOf limit), parseEntry net item = some e := by
    intro e
    have hsome : some e ∈ (entriesBefore net (fields (bytesOf limit))).map some ↔
        some e ∈ (fields (bytesOf limit)).map (parseEntry net) := by rw [hentries]
    simpa using hsome
  refine (haccept ip).trans ?_
  have hempty : (⟨[], []⟩ : IPFilter net.toNetLib).filterIP ip = false := rfl
  simp only [hempty, Bool.false_eq_true, false_or, hmem, Entry.covers_iff hnet]
  constructor
  · rintro ⟨e, ⟨item, hitem, hparse⟩, hcover⟩
    exact ⟨item, hitem, e, hparse, hcover⟩
  · rintro ⟨item, hitem, e, hparse, hcover⟩
    exact ⟨e, ⟨item, hitem, hparse⟩, hcover⟩

/-- What stands before the last `c`. -/
theorem beforeLast_append {c : Char} (s : String) {t : String} (ht : c ∉ t.toList) :
    beforeLast c (s ++ String.singleton c ++ t) = some s := by
  have hlist : (s ++ String.singleton c ++ t).toList.reverse =
      t.toList.reverse ++ c :: s.toList.reverse := by simp
  have hdrop : (t.toList.reverse ++ c :: s.toList.reverse).dropWhile (· ≠ c) =
      c :: s.toList.reverse := by
    rw [List.dropWhile_append_of_pos]
    · simp
    · intro x hx
      have hne : x ≠ c := fun hxc => ht (by simpa [hxc] using hx)
      simpa using hne
  rw [beforeLast, hlist, hdrop]
  simp

/-- A port has no colon. -/
theorem colon_notMem_port (port : UInt16) : ':' ∉ (toString port.toNat).toList := fun h =>
  absurd (isDigit_of_mem_toString h) (by decide)

/-- The text that the check hands to `ParseIP`. -/
theorem beforeLast_text (remote : RemoteAddr) : beforeLast ':' remote.text =
    some (match remote with
      | .v4 a b c d _ => dotted a b c d
      | .v6 _ host _ => "[" ++ host ++ "]") := by
  cases remote with
  | v4 a b c d port => exact beforeLast_append _ (colon_notMem_port port)
  | v6 addr host port =>
      have h := beforeLast_append ("[" ++ host ++ "]") (colon_notMem_port port)
      rw [← h]
      simp [RemoteAddr.text, String.append_assoc]

/-- No text with a bracket is an address. -/
theorem parseIP_bracket (hnet : net.Documented addr block) (host : String) :
    net.parseIP ("[" ++ host ++ "]") = none := by
  by_contra h
  obtain ⟨ip, hip⟩ := Option.ne_none_iff_exists'.mp h
  have hbracket := hnet.parse_chars _ _ hip '[' (by simp)
  exact absurd hbracket (by decide)

/-- With a text other than `0.0.0.0` the check admits the listed IPv4 addresses. -/
theorem checkClientIpf_eq_true_iff (hnet : net.Documented addr block) {limit : String}
    (hlimit : limit ≠ "0.0.0.0")
    (hvalid : ∀ item ∈ fields (bytesOf limit), (parseEntry net item).isSome)
    (remote : RemoteAddr) :
    (mainClientFilter net limit).checkClientIpf remote.text = .ok true ↔
      remote.IsV4 ∧ Listed net addr block limit remote.addr := by
  have hcheck := beforeLast_text remote
  unfold ClientFilter.checkClientIpf
  rw [if_neg (show ¬ (mainClientFilter net limit).clientIpLimit = "0.0.0.0" from hlimit), hcheck]
  cases remote with
  | v4 a b c d port =>
      obtain ⟨ip, hparse, haddr⟩ := hnet.parse_dotted a b c d
      have hfilter := filterIP_mainClientFilter hnet hvalid ip
      rw [haddr] at hfilter
      simpa [IPFilter.filterIPString, hparse, RemoteAddr.IsV4, RemoteAddr.addr] using hfilter
  | v6 addr host port =>
      simp [IPFilter.filterIPString, parseIP_bracket hnet, RemoteAddr.IsV4]

/-- **The check admits the listed addresses, and only these, unless the remote address is a listed
one of IPv6.** -/
theorem checkClientIpf_iff (hnet : net.Documented addr block) {limit : String}
    (hvalid : ∀ item ∈ fields (bytesOf limit), (parseEntry net item).isSome)
    (remote : RemoteAddr) :
    ((mainClientFilter net limit).checkClientIpf remote.text = .ok true ↔
        limit = "0.0.0.0" ∨ Listed net addr block limit remote.addr) ↔
      (limit = "0.0.0.0" ∨ remote.IsV4 ∨ ¬ Listed net addr block limit remote.addr) := by
  by_cases hlimit : limit = "0.0.0.0"
  · have hopen : (mainClientFilter net limit).checkClientIpf remote.text = .ok true :=
      if_pos hlimit
    exact iff_of_true (iff_of_true hopen (.inl hlimit)) (.inl hlimit)
  · rw [checkClientIpf_eq_true_iff hnet hlimit hvalid]
    simp only [hlimit, false_or]
    tauto

end Documented

/-! ## The package `net`, for IPv4 and the local host -/

def octet (cs : List Char) : Option UInt8 :=
  if cs ≠ [] ∧ cs.all Char.isDigit ∧ Nat.ofDigitChars 10 cs 0 < 256 then
    some (UInt8.ofNat (Nat.ofDigitChars 10 cs 0))
  else none

def parseDotted (cs : List Char) : Option Addr :=
  match (cs.splitOn '.').map octet with
  | [some a, some b, some c, some d] => some (v4Addr a b c d)
  | _ => none

/-- Addresses `a.b.c.d` and `::1`, and blocks of IPv4 with the number of their free bits. -/
def smallNet : NetPkg where
  IP := Addr
  IPNet := Addr × ℕ
  parseIP := fun s =>
    match parseDotted s.toList with
    | some ip => some ip
    | none => if s = "::1" then some 1 else none
  contains := fun item ip => ip / 2 ^ item.2 == item.1 / 2 ^ item.2
  equal := fun ip ip' => ip == ip'
  parseCIDR := fun s =>
    match s.toList.splitOn '/' with
    | [ip, ones] => do
      let ip ← parseDotted ip
      let ones ← octet ones
      if ones ≤ 32 then some (ip, 32 - ones.toNat) else none
    | _ => none

def smallBlock (item : Addr × ℕ) : Set Addr := {x | x / 2 ^ item.2 = item.1 / 2 ^ item.2}

theorem octet_toString (a : UInt8) : octet (toString a.toNat).toList = some a := by
  have hlist : (toString a.toNat).toList = Nat.toDigits 10 a.toNat := Nat.toList_repr
  have hval : Nat.ofDigitChars 10 (Nat.toDigits 10 a.toNat) 0 = a.toNat :=
    Nat.ofDigitChars_ten_toDigits
  have hdigit : (Nat.toDigits 10 a.toNat).all Char.isDigit = true := by
    rw [← hlist]
    exact List.all_eq_true.mpr fun c hc => isDigit_of_mem_toString hc
  have hlt : a.toNat < 256 := a.toNat_lt
  rw [octet, hlist, hval, if_pos ⟨Nat.toDigits_ne_nil, hdigit, hlt⟩, UInt8.ofNat_toNat]

theorem parseDotted_dotted (a b c d : UInt8) :
    parseDotted (dotted a b c d).toList = some (v4Addr a b c d) := by
  have hdot : ∀ n : UInt8, '.' ∉ (toString n.toNat).toList := fun n h =>
    absurd (isDigit_of_mem_toString h) (by decide)
  have hsplit : (dotted a b c d).toList.splitOn '.' = [(toString a.toNat).toList,
      (toString b.toNat).toList, (toString c.toNat).toList, (toString d.toNat).toList] := by
    have hlist : (dotted a b c d).toList = ['.'].intercalate [(toString a.toNat).toList,
        (toString b.toNat).toList, (toString c.toNat).toList, (toString d.toNat).toList] :=
      String.toList_intercalate
    rw [hlist]
    apply List.splitOn_intercalate
    · intro w hw
      simp only [List.mem_cons, List.not_mem_nil, or_false] at hw
      rcases hw with rfl | rfl | rfl | rfl <;> exact hdot _
    · simp
  rw [parseDotted, hsplit]
  simp only [List.map_cons, List.map_nil, octet_toString]

theorem mem_intercalate {α : Type} {c d : α} {l : List (List α)} (h : d ∈ [c].intercalate l) :
    d = c ∨ ∃ w ∈ l, d ∈ w := by
  induction l with
  | nil => simp [List.intercalate] at h
  | cons w l ih =>
      cases l with
      | nil => exact .inr ⟨w, List.mem_cons_self, by simpa [List.intercalate] using h⟩
      | cons w' l =>
          have h : d ∈ w ++ [c] ++ [c].intercalate (w' :: l) := by
            simpa [List.intercalate] using h
          rcases List.mem_append.mp h with h | h
          · rcases List.mem_append.mp h with h | h
            · exact .inr ⟨w, List.mem_cons_self, h⟩
            · exact .inl (List.mem_singleton.mp h)
          · rcases ih h with h | ⟨v, hv, h⟩
            · exact .inl h
            · exact .inr ⟨v, List.mem_cons_of_mem _ hv, h⟩

/-- What is read as an IPv4 address consists of digits and dots. -/
theorem isAddrChar_of_parseDotted {cs : List Char} {ip : Addr} (h : parseDotted cs = some ip)
    {c : Char} (hc : c ∈ cs) : isAddrChar c = true := by
  have hsplit : ['.'].intercalate (cs.splitOn '.') = cs := List.intercalate_splitOn '.'
  rw [← hsplit] at hc
  rcases mem_intercalate hc with rfl | ⟨w, hw, hcw⟩
  · decide
  · have hoctet : ∃ a, octet w = some a := by
      have hmem : octet w ∈ (cs.splitOn '.').map octet := List.mem_map_of_mem hw
      unfold parseDotted at h
      split at h
      · rename_i a b c d heq
        rw [heq] at hmem
        simp only [List.mem_cons, List.not_mem_nil, or_false] at hmem
        rcases hmem with hmem | hmem | hmem | hmem <;> exact ⟨_, hmem⟩
      · exact absurd h (by simp)
    obtain ⟨a, ha⟩ := hoctet
    have hdigits : w.all Char.isDigit = true := by
      unfold octet at ha
      split at ha
      · rename_i hw'
        exact hw'.2.1
      · exact absurd ha (by simp)
    have hdigit := List.all_eq_true.mp hdigits c hcw
    simp [isAddrChar, hdigit]

theorem smallNet_documented : smallNet.Documented id smallBlock where
  equal_iff := fun (ip ip' : Addr) => by
    show (ip == ip') = true ↔ ip = ip'
    exact beq_iff_eq
  contains_iff := fun (item : Addr × ℕ) (ip : Addr) => by
    show (ip / 2 ^ item.2 == item.1 / 2 ^ item.2) = true ↔
      ip / 2 ^ item.2 = item.1 / 2 ^ item.2
    exact beq_iff_eq
  parse_dotted := fun a b c d => ⟨v4Addr a b c d, by simp [smallNet, parseDotted_dotted], rfl⟩
  parse_chars := by
    intro s ip hparse c hc
    cases hdotted : parseDotted s.toList with
    | some ip' => exact isAddrChar_of_parseDotted hdotted hc
    | none =>
        have hlocal : s = "::1" := by
          by_contra hne
          simp [smallNet, hdotted, hne] at hparse
        have hall : "::1".toList.all isAddrChar = true := by decide
        rw [hlocal] at hc
        exact List.all_eq_true.mp hall c hc

/-! ## Two texts -/

/-- An address of a listed block is admitted. -/
theorem listedBlock_admits :
    (mainClientFilter smallNet "127.0.0.1 10.0.0.0/8").checkClientIpf "10.1.2.3:4711" =
      .ok true := by
  have hvalid : ∀ item ∈ fields (bytesOf "127.0.0.1 10.0.0.0/8"),
      (parseEntry smallNet item).isSome := by decide +kernel
  have hlisted : Listed smallNet id smallBlock "127.0.0.1 10.0.0.0/8" (v4Addr 10 1 2 3) := by
    refine ⟨bytesOf "10.0.0.0/8", by decide +kernel, .ipnet (v4Addr 10 0 0 0, 24), ?_, ?_⟩
    · have hslash : 0x2f ∈ bytesOf "10.0.0.0/8" := by decide +kernel
      have hparse : smallNet.parseCIDR "10.0.0.0/8" = some (v4Addr 10 0 0 0, 24) := rfl
      rw [parseEntry, if_neg (not_not_intro hslash), itemText_bytesOf, Option.bind_some, hparse]
      rfl
    · show v4Addr 10 1 2 3 / 2 ^ 24 = v4Addr 10 0 0 0 / 2 ^ 24
      decide
  exact ((checkClientIpf_iff smallNet_documented hvalid (.v4 10 1 2 3 4711)).mpr
    (.inr (.inl trivial))).mpr (.inr hlisted)

/-- The local host of IPv6 is listed and locked out. -/
theorem listedV6_lockedOut : smallNet.Documented id smallBlock ∧
    (∀ item ∈ fields (bytesOf "::1"), (parseEntry smallNet item).isSome) ∧
    RemoteAddr.text (.v6 1 "::1" 5000) = "[::1]:5000" ∧
    Listed smallNet id smallBlock "::1" 1 ∧
    (mainClientFilter smallNet "::1").checkClientIpf "[::1]:5000" = .ok false := by
  have hitem : parseEntry smallNet (bytesOf "::1") = some (.ip (1 : Addr)) := by
    have hslash : 0x2f ∉ bytesOf "::1" := by decide +kernel
    have hparse : smallNet.parseIP "::1" = some (1 : Addr) := rfl
    rw [parseEntry, if_pos hslash, itemText_bytesOf, Option.bind_some, hparse]
    rfl
  have hrejected : (mainClientFilter smallNet "::1").clientIpf.filterIPString "[::1]" = false := by
    have hparse : smallNet.parseIP "[::1]" = none := parseIP_bracket smallNet_documented "::1"
    rw [IPFilter.filterIPString, hparse]
  refine ⟨smallNet_documented, by decide +kernel, rfl, ?_, ?_⟩
  · exact ⟨bytesOf "::1", by decide +kernel, _, hitem, rfl⟩
  · have hlast : beforeLast ':' "[::1]:5000" = some "[::1]" := by decide
    have hlimit : ¬ (mainClientFilter smallNet "::1").clientIpLimit = "0.0.0.0" := by decide
    unfold ClientFilter.checkClientIpf
    rw [if_neg hlimit, hlast]
    exact congrArg Except.ok hrejected

/-- A text that `Load` rejects opens the filter to the address before the bad word. -/
theorem rejectedText_admits :
    (IPFilter.load (⟨[], []⟩ : IPFilter smallNet.toNetLib) (bytesOf "10.0.0.1 bogus")).2 =
      some (.parseIP (bytesOf "bogus")) ∧
    (⟨[], []⟩ : IPFilter smallNet.toNetLib).filterIP (v4Addr 10 0 0 1) = false ∧
    (IPFilter.load (⟨[], []⟩ : IPFilter smallNet.toNetLib) (bytesOf "10.0.0.1 bogus")).1.filterIP
      (v4Addr 10 0 0 1) = true := by
  refine ⟨by decide +kernel, rfl, by decide +kernel⟩

end Skytime
