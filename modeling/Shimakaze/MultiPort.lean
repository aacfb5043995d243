import Mathlib.Data.List.TakeWhile
import Shimakaze.Config
import Shimakaze.Lib.Delimiter

/-!
# Addresses with Ports

`parse_multiport` of `utils.cpp` reads the addresses of the configuration: a host, in brackets
if it is an IPv6 address, and behind a colon a port or a range of ports. It cuts the text at
the first closing bracket or the last colon, and the service at the first dash, and
`std::from_chars` must then take a port to its end. `Address` is the grammar this comes to. As
elsewhere a string is a sequence of bytes, one a character.

## Main results

* `parsePort_eq_ok_iff`, `splitHostService_eq_ok_iff`: what the two helpers accept.
* `parseMultiport_eq_ok_iff`: an address is accepted exactly when it has the grammar, with the
  host and the ports the grammar gives it.
-/

namespace Shimakaze

/-! ### The code -/

/-- `MultiPort`. -/
structure MultiPort where
  host : String
  minPort : UInt16 := 0
  maxPort : UInt16 := 0
  deriving DecidableEq, Repr

/-- The values of `std::errc` that `std::from_chars` reports. -/
inductive Errc
  | invalidArgument
  | resultOutOfRange
  deriving DecidableEq

/-- `std::from_chars` into an `unsigned` in base ten: the value afterwards, the error, and the
text from the position it stopped at. It takes all digits at the start of the text, and leaves
the value as it is when there are none or they do not fit. -/
def fromChars (text : List Char) (value : UInt32) : UInt32 × Option Errc × List Char :=
  let digits := text.takeWhile Char.isDigit
  let number := Nat.ofDigitChars 10 digits 0
  if digits = [] then (value, some .invalidArgument, text)
  else if 2 ^ 32 ≤ number then (value, some .resultOutOfRange, text.dropWhile Char.isDigit)
  else (UInt32.ofNat number, none, text.dropWhile Char.isDigit)

/-- `parse_port`. -/
def parsePort (text : List Char) : Except String UInt16 :=
  let (value, ec, rest) := fromChars text 0
  if ec ≠ none ∨ rest ≠ [] ∨ value = 0 ∨ 65535 < value then
    throw ("invalid port: " ++ String.ofList text)
  else pure value.toUInt16

/-- `split_host_service`. -/
def splitHostService (address : List Char) : Except String (List Char × List Char) :=
  if address = [] then throw "empty address"
  else if address.head? = some '[' then
    match Delimiter.find ']' address with
    | none => throw ("malformed bracketed IPv6 address: " ++ String.ofList address)
    | some close =>
        if address.length ≤ close + 1 ∨ address[close + 1]? ≠ some ':' then
          throw ("malformed bracketed IPv6 address: " ++ String.ofList address)
        else pure ((address.drop 1).take (close - 1), address.drop (close + 2))
  else
    match Delimiter.rfind ':' address with
    | none => throw ("address must be host:port: " ++ String.ofList address)
    | some colon => pure (address.take colon, address.drop (colon + 1))

/-- The ports of a service, as `parse_multiport` reads them. -/
def parseService (service : List Char) : Except String (UInt16 × UInt16) :=
  match Delimiter.find '-' service with
  | none => do
      let port ← parsePort service
      return (port, port)
  | some dash => do
      let minPort ← parsePort (service.take dash)
      let maxPort ← parsePort (service.drop (dash + 1))
      throwIf (maxPort < minPort) ("invalid port range: " ++ String.ofList service)
      return (minPort, maxPort)

/-- `parse_multiport`. -/
def parseMultiport (address : String) : Except String MultiPort := do
  let (host, service) ← splitHostService address.toList
  let (minPort, maxPort) ← parseService service
  return { host := String.ofList host, minPort, maxPort }

/-! ### The grammar -/

/-- A decimal port: digits, leading zeros allowed, with a value between 1 and 65535. -/
structure DecimalPort (text : List Char) (port : UInt16) : Prop where
  nonempty : text ≠ []
  digits : ∀ ch ∈ text, ch.isDigit = true
  value : Nat.ofDigitChars 10 text 0 = port.toNat
  pos : 0 < port.toNat

/-- A service: a port, or two ports in order with a dash between them. -/
inductive Service : List Char → UInt16 → UInt16 → Prop
  | single {text : List Char} {port : UInt16} (h : DecimalPort text port) : Service text port port
  | range {low high : List Char} {minPort maxPort : UInt16} (hlow : DecimalPort low minPort)
      (hhigh : DecimalPort high maxPort) (hle : minPort ≤ maxPort) :
      Service (low ++ '-' :: high) minPort maxPort

/-- A host and a service: the host in brackets and without a closing one, or a text that does
not start with a bracket, cut at its last colon. -/
inductive HostService : List Char → List Char → List Char → Prop
  | bracketed {host service : List Char} (h : ']' ∉ host) :
      HostService ('[' :: host ++ ']' :: ':' :: service) host service
  | plain {host service : List Char} (hstart : (host ++ ':' :: service).head? ≠ some '[')
      (hcolon : ':' ∉ service) : HostService (host ++ ':' :: service) host service

/-- An address of the configuration. -/
def Address (text : List Char) (address : MultiPort) : Prop :=
  ∃ service, HostService text address.host.toList service ∧
    Service service address.minPort address.maxPort

/-! ### Ports -/

/-- What `std::from_chars` takes without an error and to the end: digits, at least one, whose
value fits. -/
theorem fromChars_spec (text : List Char) (start value : UInt32) :
    fromChars text start = (value, none, []) ↔
      text ≠ [] ∧ (∀ ch ∈ text, ch.isDigit = true) ∧
        Nat.ofDigitChars 10 text 0 = value.toNat := by
  have hall : text.dropWhile Char.isDigit = [] ↔ ∀ ch ∈ text, ch.isDigit = true :=
    List.dropWhile_eq_nil_iff
  simp only [fromChars]
  constructor
  · intro h
    by_cases hnone : text.takeWhile Char.isDigit = []
    · rw [if_pos hnone] at h
      cases congrArg (·.2.1) h
    rw [if_neg hnone] at h
    by_cases hlarge : 2 ^ 32 ≤ Nat.ofDigitChars 10 (text.takeWhile Char.isDigit) 0
    · rw [if_pos hlarge] at h
      cases congrArg (·.2.1) h
    rw [if_neg hlarge] at h
    have hrest : text.dropWhile Char.isDigit = [] := congrArg (·.2.2) h
    have hwhole : text.takeWhile Char.isDigit = text :=
      List.takeWhile_eq_self_iff.mpr (hall.mp hrest)
    rw [hwhole] at hnone hlarge h
    obtain rfl : UInt32.ofNat (Nat.ofDigitChars 10 text 0) = value := congrArg (·.1) h
    exact ⟨hnone, hall.mp hrest, (UInt32.toNat_ofNat_of_lt' (not_le.mp hlarge)).symm⟩
  · rintro ⟨hne, hdigits, hvalue⟩
    have hwhole : text.takeWhile Char.isDigit = text := List.takeWhile_eq_self_iff.mpr hdigits
    have hlarge : ¬ 2 ^ 32 ≤ Nat.ofDigitChars 10 text 0 :=
      not_le.mpr (hvalue ▸ value.toNat_lt)
    rw [hwhole, if_neg hne, if_neg hlarge, hall.mpr hdigits, hvalue, UInt32.ofNat_toNat]

/-- **A port is accepted** exactly when it is a decimal port. -/
theorem parsePort_eq_ok_iff {text : List Char} {port : UInt16} :
    parsePort text = .ok port ↔ DecimalPort text port := by
  rw [parsePort]
  constructor
  · intro h
    cases hread : fromChars text 0 with
    | mk value result =>
        obtain ⟨ec, rest⟩ := result
        simp only [hread] at h
        by_cases hbad : ec ≠ none ∨ rest ≠ [] ∨ value = 0 ∨ 65535 < value
        · rw [if_pos hbad] at h
          cases h
        rw [if_neg hbad] at h
        obtain rfl := Except.ok.inj h
        simp only [not_or, not_not] at hbad
        obtain ⟨rfl, rfl, hzero, hlarge⟩ := hbad
        obtain ⟨hne, hdigits, hvalue⟩ := (fromChars_spec text 0 value).mp hread
        have hle : value.toNat ≤ 65535 := UInt32.le_iff_toNat_le.mp (UInt32.not_lt.mp hlarge)
        have hpos : 0 < value.toNat :=
          Nat.pos_of_ne_zero fun h => hzero (UInt32.toNat_inj.mp h)
        have hcast : value.toUInt16.toNat = value.toNat := by
          rw [UInt32.toNat_toUInt16]
          omega
        exact ⟨hne, hdigits, hvalue.trans hcast.symm, hcast ▸ hpos⟩
  · rintro ⟨hne, hdigits, hvalue, hpos⟩
    have hlt := port.toNat_lt
    have hcast : port.toUInt32.toNat = port.toNat := UInt16.toNat_toUInt32 port
    have hread : fromChars text 0 = (port.toUInt32, none, []) :=
      (fromChars_spec text 0 port.toUInt32).mpr ⟨hne, hdigits, hvalue.trans hcast.symm⟩
    have hgood : ¬ ((none : Option Errc) ≠ none ∨ ([] : List Char) ≠ [] ∨ port.toUInt32 = 0 ∨
        65535 < port.toUInt32) := by
      rintro (h | h | h | h)
      · exact h rfl
      · exact h rfl
      · rw [h] at hcast
        exact hpos.ne hcast
      · rw [UInt32.lt_iff_toNat_lt, hcast] at h
        have hbound : (65535 : UInt32).toNat = 65535 := rfl
        omega
    simp only [hread, if_neg hgood]
    exact congrArg Except.ok (UInt16.toNat_inj.mp (by
      rw [UInt32.toNat_toUInt16, hcast]
      omega))

/-- A decimal port has digits only. -/
theorem DecimalPort.not_mem {text : List Char} {port : UInt16} (h : DecimalPort text port)
    {ch : Char} (hch : ch.isDigit = false) : ch ∉ text := fun hmem =>
  Bool.false_ne_true (hch.symm.trans (h.digits ch hmem))

/-! ### Services -/

/-- A service without a dash is read as one port. -/
theorem parseService_of_not_mem {service : List Char} (h : '-' ∉ service)
    {ports : UInt16 × UInt16} : parseService service = .ok ports ↔
      ∃ port, DecimalPort service port ∧ (port, port) = ports := by
  simp only [parseService, Delimiter.find_eq_none_iff.mpr h, bind_eq_ok_iff, parsePort_eq_ok_iff,
    pure, Except.pure, Except.ok.injEq]

/-- A service with a dash is cut at the first one. -/
theorem parseService_range {low high : List Char} (h : '-' ∉ low) {ports : UInt16 × UInt16} :
    parseService (low ++ '-' :: high) = .ok ports ↔
      ∃ minPort, DecimalPort low minPort ∧ ∃ maxPort, DecimalPort high maxPort ∧
        minPort ≤ maxPort ∧ (minPort, maxPort) = ports := by
  have hfind : Delimiter.find '-' (low ++ '-' :: high) = some low.length :=
    Delimiter.find_eq_some_iff.mpr ⟨low, high, rfl, h, rfl⟩
  simp only [parseService, hfind, List.take_left, Delimiter.drop_cut, bind_eq_ok_iff,
    throwIf_eq_ok_iff, parsePort_eq_ok_iff, UInt16.not_lt, exists_const, pure, Except.pure,
    Except.ok.injEq]

/-- **A service is accepted** exactly when it has the grammar. -/
theorem parseService_eq_ok_iff {service : List Char} {minPort maxPort : UInt16} :
    parseService service = .ok (minPort, maxPort) ↔ Service service minPort maxPort := by
  constructor
  · intro h
    by_cases hdash : '-' ∈ service
    · obtain ⟨low, high, rfl, hfirst⟩ := List.eq_append_cons_of_mem hdash
      obtain ⟨_, hlow, _, hhigh, hle, heq⟩ := (parseService_range hfirst).mp h
      obtain ⟨rfl, rfl⟩ := Prod.mk.inj heq
      exact .range hlow hhigh hle
    · obtain ⟨port, hport, heq⟩ := (parseService_of_not_mem hdash).mp h
      obtain ⟨rfl, rfl⟩ := Prod.mk.inj heq
      exact .single hport
  · rintro (hport | ⟨hlow, hhigh, hle⟩)
    · exact (parseService_of_not_mem (hport.not_mem rfl)).mpr ⟨_, hport, rfl⟩
    · exact (parseService_range (hlow.not_mem rfl)).mpr ⟨_, hlow, _, hhigh, hle, rfl⟩

/-! ### Hosts -/

/-- In brackets: the host ends at the first closing bracket, and a colon has to follow. -/
theorem splitHostService_bracket {host after : List Char} (h : ']' ∉ host)
    {result : List Char × List Char} :
    splitHostService ('[' :: host ++ ']' :: after) = .ok result ↔
      ∃ service, after = ':' :: service ∧ (host, service) = result := by
  have hfront : ('[' :: host ++ ']' :: after).head? = some '[' := rfl
  have hfind : Delimiter.find ']' ('[' :: host ++ ']' :: after) = some ('[' :: host).length :=
    Delimiter.find_eq_some_iff.mpr ⟨'[' :: host, after, rfl, by simp [h], rfl⟩
  have hrest : ('[' :: host ++ ']' :: after).drop (('[' :: host).length + 2) = after.drop 1 := by
    rw [← List.drop_drop (i := 1), Delimiter.drop_cut]
  have hnext : ('[' :: host ++ ']' :: after)[('[' :: host).length + 1]? = after.head? := by
    rw [← List.head?_drop, Delimiter.drop_cut]
  have hhost : (('[' :: host ++ ']' :: after).drop 1).take (('[' :: host).length - 1) = host :=
    List.take_left
  rw [splitHostService, if_neg (by simp), if_pos hfront, hfind]
  dsimp only
  rw [hnext, hrest, hhost]
  cases after with
  | nil => simp [throw, throwThe, MonadExceptOf.throw]
  | cons ch service =>
      by_cases hcolon : ch = ':'
      · subst hcolon
        rw [if_neg (by simp)]
        simp [pure, Except.pure]
      · rw [if_pos (.inr (by simp [hcolon]))]
        simp [hcolon, throw, throwThe, MonadExceptOf.throw]

/-- A bracket that is not closed is refused. -/
theorem splitHostService_unclosed {text : List Char} (h : ']' ∉ text)
    (result : List Char × List Char) : splitHostService ('[' :: text) ≠ .ok result := by
  have hfront : ('[' :: text).head? = some '[' := rfl
  have hfind : Delimiter.find ']' ('[' :: text) = none :=
    Delimiter.find_eq_none_iff.mpr (by simp [h])
  rw [splitHostService, if_neg (List.cons_ne_nil _ _), if_pos hfront, hfind]
  exact fun h => (nomatch h)

/-- Without a bracket at the start: the host ends at the last colon. -/
theorem splitHostService_plain {host service : List Char}
    (hstart : (host ++ ':' :: service).head? ≠ some '[') (hcolon : ':' ∉ service) :
    splitHostService (host ++ ':' :: service) = .ok (host, service) := by
  have hfind : Delimiter.rfind ':' (host ++ ':' :: service) = some host.length :=
    Delimiter.rfind_eq_some_iff.mpr ⟨host, service, rfl, hcolon, rfl⟩
  rw [splitHostService, if_neg (by simp), if_neg hstart, hfind]
  dsimp only
  rw [List.take_left, Delimiter.drop_cut]
  rfl

/-- **A text is split** exactly when it has the grammar of a host and a service. -/
theorem splitHostService_eq_ok_iff {address host service : List Char} :
    splitHostService address = .ok (host, service) ↔ HostService address host service := by
  constructor
  · intro h
    by_cases hstart : address.head? = some '['
    · obtain ⟨text, rfl⟩ := List.head?_eq_some_iff.mp hstart
      by_cases hclose : ']' ∈ text
      · obtain ⟨inner, after, rfl, hfirst⟩ := List.eq_append_cons_of_mem hclose
        obtain ⟨_, rfl, heq⟩ := (splitHostService_bracket hfirst).mp h
        obtain ⟨rfl, rfl⟩ := Prod.mk.inj heq
        exact .bracketed hfirst
      · exact absurd h (splitHostService_unclosed hclose _)
    · rw [splitHostService] at h
      by_cases hempty : address = []
      · rw [if_pos hempty] at h
        cases h
      rw [if_neg hempty, if_neg hstart] at h
      cases hfind : Delimiter.rfind ':' address with
      | none =>
          rw [hfind] at h
          cases h
      | some colon =>
          obtain ⟨before, after, rfl, hlast, rfl⟩ := Delimiter.rfind_eq_some_iff.mp hfind
          have hplain := splitHostService_plain hstart hlast
          rw [splitHostService, if_neg hempty, if_neg hstart] at hplain
          obtain ⟨rfl, rfl⟩ := Prod.mk.inj (Except.ok.inj (hplain.symm.trans h))
          exact .plain hstart hlast
  · rintro (hclose | ⟨hstart, hcolon⟩)
    · exact (splitHostService_bracket hclose).mpr ⟨_, rfl, rfl⟩
    · exact splitHostService_plain hstart hcolon

/-! ### Addresses -/

/-- **An address is accepted exactly when it has the grammar**: for every text, `parse_multiport`
returns a host and ports if and only if they are those the grammar gives the text, and it
throws on every other text. -/
theorem parseMultiport_eq_ok_iff (address : String) :
    (∀ result, parseMultiport address = .ok result ↔ Address address.toList result) ∧
    ((∀ result, ¬ Address address.toList result) →
      ∃ message, parseMultiport address = .error message) := by
  have hiff : ∀ result, parseMultiport address = .ok result ↔ Address address.toList result := by
    intro result
    simp only [parseMultiport, bind_eq_ok_iff, Prod.exists, splitHostService_eq_ok_iff,
      parseService_eq_ok_iff, pure, Except.pure, Except.ok.injEq, Address]
    constructor
    · rintro ⟨host, service, hsplit, minPort, maxPort, hservice, rfl⟩
      exact ⟨service, String.toList_ofList.symm ▸ hsplit, hservice⟩
    · rintro ⟨service, hsplit, hservice⟩
      exact ⟨result.host.toList, service, hsplit, result.minPort, result.maxPort, hservice,
        by rw [String.ofList_toList]⟩
  refine ⟨hiff, fun hnone => ?_⟩
  cases hparse : parseMultiport address with
  | error message => exact ⟨message, rfl⟩
  | ok result => exact absurd ((hiff result).mp hparse) (hnone result)

example : parseMultiport "127.0.0.1:29900-29999" = .ok ⟨"127.0.0.1", 29900, 29999⟩ := by
  decide +kernel

end Shimakaze
