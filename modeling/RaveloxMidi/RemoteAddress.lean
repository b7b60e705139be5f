import RaveloxMidi.ConfigOptions
import RaveloxMidi.RemoteConnection

/-!
# The remote that a connection goes to

One option names the remote, by the name of a service or by address and port. A copy of
its text is cut in place: a pointer comes from the end to the last colon or bracket, and
another one comes from the start and drops the bracket there.
-/
namespace RaveloxMidi
open ByteMemory CText KeyedTable

def portColon : UInt8 := 0x3a
def openBracket : UInt8 := 0x5b
def closeBracket : UInt8 := 0x5d

/-- Space, a sign and digits. The value is held by the bounds of a `long`, and then cut to
an `int`. -/
def atoi (text : List UInt8) : ℤ :=
  let behind := text.dropWhile isSpace
  let negative := behind.head? = some 0x2d
  let digits := if negative ∨ behind.head? = some 0x2b then behind.tail else behind
  let value : ℕ :=
    Nat.ofDigits 10 ((digits.takeWhile isDecimal).map fun c => c.toNat - 0x30).reverse
  (max (-2 ^ 63) (min (2 ^ 63 - 1) (if negative then -value else value : ℤ))).bmod (2 ^ 32)

/-- What the text of the option comes to. -/
inductive RemoteTarget where
  | service (name : List UInt8)
  | direct (ipAddress : List UInt8) (port : ℤ)
  | noPort
  deriving Repr, DecidableEq

/-- Where the pointer from the end stops. -/
def isCut (c : UInt8) : Bool := c == closeBracket || c == portColon

/-- At a colon the text is cut, and the pointer goes to the last character in front of it. -/
def cutPort (block : List UInt8) (p2 : ℕ) : Except Fault (List UInt8 × ℕ × ℤ) := do
  let c ← load block p2 1
  if c = [portColon] then
    let block ← store block p2 [0]
    let portNumber := atoi (← textAt (block.drop (p2 + 1)))
    match (← textAt block).length with
    | 0 => .error .outOfBounds
    | last + 1 => return (block, last, portNumber)
  else return (block, p2, 0)

/-- At a closing bracket the text is cut, and the other pointer goes behind the opening one. -/
def cutBrackets (block : List UInt8) (p2 : ℕ) : Except Fault (List UInt8 × ℕ) := do
  let c ← load block p2 1
  if c = [closeBracket] then
    let block ← store block p2 [0]
    return (block, ← walkPast openBracket block 0 p2)
  else return (block, 0)

/-- How `remote_connect_init` splits the copy of the text. -/
def remoteConnectSplit (remoteServiceName : List UInt8) : Except Fault RemoteTarget := do
  let p2 ← walkBack isCut remoteServiceName (← textAt remoteServiceName).length
  if p2 = 0 then return .service (← textAt remoteServiceName)
  let (block, p2, remotePortNumber) ← cutPort remoteServiceName p2
  let (block, p1) ← cutBrackets block p2
  let p1 := if p1 = p2 then 0 else p1
  if remotePortNumber = 0 then return .noPort
  return .direct (← textAt (block.drop p1)) remotePortNumber

/-- The address without brackets. An opening one at the end of the text is left. -/
def connectAddress (text : List UInt8) : List UInt8 :=
  if text.getLast? = some closeBracket then
    let kept := (text.dropLast.dropWhile (· ≠ openBracket)).tail
    if kept = [] then text.dropLast else kept
  else text

/-- `dns_service_t` -/
structure DnsService where
  name : List UInt8
  ipAddress : List UInt8
  port : ℤ
  deriving Repr, DecidableEq

def dnsDiscoverByName (services : List DnsService) (name : List UInt8) : Option DnsService :=
  services.find? fun service => name = service.name

/-- A name that is there already is not added again. -/
def dnsDiscoverAdd (services : List DnsService) (new : DnsService) : List DnsService :=
  match dnsDiscoverByName services new.name with
  | some _ => services
  | none => services ++ [new]

/-- `dns_discover_services`, which adds what Avahi has resolved. -/
def dnsDiscoverServices (services resolved : List DnsService) : List DnsService :=
  resolved.foldl dnsDiscoverAdd services

def isYes (value : Option (List UInt8)) : Bool :=
  match value with
  | none => false
  | some value => (value.map lowerCase) ∈ [ascii "yes", ascii "y", ascii "1"]

def remoteConnectKey : List UInt8 := ascii "remote.connect"

/-- The part of `remote_connect_init` up to the service found, with what Avahi resolves over
IPv4 and over IPv6. The list of services stays. -/
def remoteConnectFind (config : KvTable) (resolved : Bool → Bool → List DnsService)
    (services : List DnsService) : Except Fault (List DnsService × Option DnsService) := do
  if ¬ configIsSet config remoteConnectKey then return (services, none)
  match configStringGet config remoteConnectKey with
  | none => .error .nullPointer
  | some text =>
    match ← remoteConnectSplit (text ++ [0]) with
    | .service name =>
      let useIpv4 := isYes (configStringGet config (ascii "service.ipv4"))
      let useIpv6 := isYes (configStringGet config (ascii "service.ipv6"))
      let services := dnsDiscoverServices services (resolved useIpv4 useIpv6)
      if services.length ≤ 0 then return (services, none)
      return (services, dnsDiscoverByName services name)
    | .noPort => return (services, none)
    | .direct ipAddress port =>
      let services := dnsDiscoverAdd services ⟨text, ipAddress, port⟩
      return (services, dnsDiscoverByName services text)

/-- The service as a context is registered for it. -/
def DnsService.foundService (service : DnsService) : FoundService :=
  ⟨service.name, service.ipAddress, UInt16.ofInt service.port⟩

/-- The whole of `remote_connect_init`. -/
def remoteConnect (host : NetHost) (moment : NetMoment) (connections : List NetCtx)
    (config : KvTable) (resolved : Bool → Bool → List DnsService) (services : List DnsService) :
    Except Fault (List NetCtx × List NetEffect) := do
  match (← remoteConnectFind config resolved services).2 with
  | none => return (connections, [])
  | some service => remoteConnectInit host moment connections service.foundService

/-- The form of a text decides what it comes to. -/
inductive ConnectsTo : List UInt8 → RemoteTarget → Prop
  | service (first : UInt8) {rest : List UInt8} (hrest : ∀ b ∈ rest, isCut b = false) :
      ConnectsTo (first :: rest) (.service (first :: rest))
  | direct {front port : List UInt8} (hfront : front ≠ []) (hport : ∀ b ∈ port, isCut b = false)
      (hnumber : atoi port ≠ 0) :
      ConnectsTo (front ++ portColon :: port) (.direct (connectAddress front) (atoi port))
  | zeroPort {front port : List UInt8} (hfront : front ≠ []) (hport : ∀ b ∈ port, isCut b = false)
      (hnumber : atoi port = 0) : ConnectsTo (front ++ portColon :: port) .noPort
  | noPort {front rest : List UInt8} (hfront : front ≠ []) (hrest : ∀ b ∈ rest, isCut b = false) :
      ConnectsTo (front ++ closeBracket :: rest) .noPort

section Split
variable {front port rest text : List UInt8}

/-- The text is cut at the colon. Something is in front of it. -/
theorem cutPort_colon (hne : front ≠ []) (hfront : ∀ b ∈ front, b ≠ 0) (hport : ∀ b ∈ port, b ≠ 0) :
    cutPort (front ++ portColon :: (port ++ [0])) front.length =
      .ok (front ++ 0 :: (port ++ [0]), front.length - 1, atoi port) := by
  obtain ⟨last, hlast⟩ := Nat.exists_eq_succ_of_ne_zero (mt List.length_eq_zero_iff.mp hne)
  have hbehind : (front ++ 0 :: (port ++ [0])).drop (front.length + 1) = port ++ [0] := by
    rw [List.drop_append, List.drop_of_length_le (Nat.le_succ _)]
    simp
  simp only [cutPort, load_octet, store_octet, hbehind, textAt_eq hport, textAt_eq hfront,
    if_true, bind, Except.bind, pure, Except.pure]
  rw [hlast]
  rfl

theorem cutPort_bracket :
    cutPort (front ++ closeBracket :: rest) front.length =
      .ok (front ++ closeBracket :: rest, front.length, 0) := by
  have hother : ¬ [closeBracket] = [portColon] := by decide
  simp only [cutPort, load_octet, if_neg hother, bind, Except.bind, pure, Except.pure]

theorem cutBrackets_close :
    cutBrackets (front ++ closeBracket :: rest) front.length =
      .ok (front ++ 0 :: rest,
        front.length - (front.dropWhile (· ≠ openBracket)).tail.length) := by
  have hwalk := walkPast_eq openBracket [] front (0 :: rest)
  rw [List.nil_append, List.length_nil, Nat.zero_add] at hwalk
  simp only [cutBrackets, load_octet, store_octet, hwalk, if_true, bind, Except.bind, pure,
    Except.pure]

theorem cutBrackets_other {c : UInt8} (hc : c ≠ closeBracket) :
    cutBrackets (front ++ c :: rest) front.length = .ok (front ++ c :: rest, 0) := by
  have hother : ¬ [c] = [closeBracket] := by simpa using hc
  simp only [cutBrackets, load_octet, if_neg hother, bind, Except.bind, pure, Except.pure]

/-- The pointers are equal if nothing is behind an opening bracket, and then the text is
read from its start. -/
theorem textAt_behind {kept : List UInt8} (htext : ∀ b ∈ text, b ≠ 0) (hkept : kept <:+ text) :
    textAt ((text ++ 0 :: rest).drop
        (if text.length - kept.length = text.length then 0 else text.length - kept.length)) =
      .ok (if kept = [] then text else kept) := by
  obtain ⟨before, rfl⟩ := hkept
  by_cases hempty : kept = []
  · rw [if_pos (by simp [hempty]), if_pos hempty, List.drop_zero]
    exact textAt_eq htext
  · have hlength : 0 < kept.length := List.length_pos_iff.mpr hempty
    have hbefore : (before ++ kept).length - kept.length = before.length := by simp
    rw [hbefore, if_neg (by rw [List.length_append]; omega), if_neg hempty, List.append_assoc,
      List.drop_left]
    exact textAt_eq fun b hb => htext b (List.mem_append_right _ hb)

/-- What is in front of the colon is read as the address, with or without brackets. -/
theorem cutBrackets_address {last : UInt8} (htext : ∀ b ∈ text ++ [last], b ≠ 0) :
    ∃ block p1, cutBrackets (text ++ last :: 0 :: rest) text.length = .ok (block, p1) ∧
      textAt (block.drop (if p1 = text.length then 0 else p1)) =
        .ok (connectAddress (text ++ [last])) := by
  by_cases hlast : last = closeBracket
  · refine ⟨_, _, by rw [hlast, cutBrackets_close], ?_⟩
    have hkept : (text.dropWhile (· ≠ openBracket)).tail <:+ text :=
      (List.tail_suffix _).trans (List.dropWhile_suffix _)
    have hend : (text ++ [last]).getLast? = some closeBracket := by rw [List.getLast?_concat, hlast]
    rw [textAt_behind (fun b hb => htext b (List.mem_append_left _ hb)) hkept, connectAddress]
    simp only [if_pos hend, List.dropLast_concat]
  · refine ⟨_, _, cutBrackets_other hlast, ?_⟩
    rw [ite_self, List.drop_zero, connectAddress, if_neg (by simpa using hlast), List.append_cons]
    exact textAt_eq htext

/-- The copy is read to its end, and the pointer comes back to the last cut. -/
theorem cut_found {c : UInt8} (hne : front ≠ []) (hc : isCut c = true)
    (htext : ∀ b ∈ front ++ c :: rest, b ≠ 0) (hcut : ∀ b ∈ rest, isCut b = false) :
    textAt (front ++ c :: (rest ++ [0])) = .ok (front ++ c :: rest) ∧
      walkBack isCut (front ++ c :: (rest ++ [0])) (front ++ c :: rest).length =
        .ok front.length := by
  have hpassed : ∀ b ∈ rest ++ [0], isCut b = false :=
    List.forall_mem_append.mpr ⟨hcut, List.forall_mem_singleton.mpr (by decide)⟩
  exact ⟨by simpa using @textAt_eq _ [] htext, by simpa using walkBack_stops hne hc hpassed []⟩

/-- A text that is cut at its last colon. -/
theorem split_port (hne : front ≠ []) (htext : ∀ b ∈ front ++ portColon :: port, b ≠ 0)
    (hcut : ∀ b ∈ port, isCut b = false) :
    remoteConnectSplit (front ++ portColon :: (port ++ [0])) =
      .ok (if atoi port = 0 then .noPort else .direct (connectAddress front) (atoi port)) := by
  obtain ⟨hread, hwalk⟩ := cut_found hne (by decide) htext hcut
  obtain ⟨hfront, hbehind⟩ := List.forall_mem_append.mp htext
  have hcolon := cutPort_colon hne hfront (List.forall_mem_cons.mp hbehind).2
  obtain ⟨text, last, htail⟩ := (List.eq_nil_or_concat' front).resolve_left hne
  obtain ⟨block, p1, hbrackets, haddress⟩ :=
    @cutBrackets_address (port ++ [0]) text last (by rwa [← htail])
  have hlast : front.length - 1 = text.length := by rw [htail]; simp
  rw [List.append_cons, ← htail, ← hlast] at hbrackets
  rw [← htail, ← hlast] at haddress
  simp only [remoteConnectSplit, hread, hwalk, hcolon, hbrackets, haddress,
    if_neg (mt List.length_eq_zero_iff.mp hne), bind, Except.bind, pure, Except.pure]
  split_ifs <;> rfl

/-- Where a bracket comes last there is no port. -/
theorem split_bracket (hne : front ≠ []) (htext : ∀ b ∈ front ++ closeBracket :: rest, b ≠ 0)
    (hcut : ∀ b ∈ rest, isCut b = false) :
    remoteConnectSplit (front ++ closeBracket :: (rest ++ [0])) = .ok .noPort := by
  obtain ⟨hread, hwalk⟩ := cut_found hne (by decide) htext hcut
  simp only [remoteConnectSplit, hread, hwalk, cutPort_bracket, cutBrackets_close,
    if_neg (mt List.length_eq_zero_iff.mp hne), if_true, bind, Except.bind, pure, Except.pure]

theorem split_service {first : UInt8} (htext : ∀ b ∈ first :: rest, b ≠ 0)
    (hcut : ∀ b ∈ rest, isCut b = false) :
    remoteConnectSplit (first :: (rest ++ [0])) = .ok (.service (first :: rest)) := by
  have hread : textAt (first :: (rest ++ [0])) = .ok (first :: rest) := @textAt_eq _ [] htext
  have hwalk : walkBack isCut (first :: (rest ++ [0])) (first :: rest).length = .ok 0 := by
    have hpassed : ∀ b ∈ rest ++ [0], isCut b = false :=
      List.forall_mem_append.mpr ⟨hcut, List.forall_mem_singleton.mpr (by decide)⟩
    simpa using walkBack_front hpassed first []
  simp only [remoteConnectSplit, hread, hwalk, if_true, bind, Except.bind, pure, Except.pure]

/-- Every text has one of the forms. -/
theorem connectsTo_exists (hne : text ≠ []) : ∃ target, ConnectsTo text target := by
  obtain ⟨first, rest, rfl⟩ := List.exists_cons_of_ne_nil hne
  by_cases hcut : ∃ c ∈ rest, isCut c = true
  · obtain ⟨front, c, behind, rfl, hc, hbehind⟩ := exists_last hcut
    have hfront : first :: front ≠ [] := List.cons_ne_nil _ _
    rw [← List.cons_append]
    rw [isCut, Bool.or_eq_true, beq_iff_eq, beq_iff_eq] at hc
    obtain rfl | rfl := hc
    · exact ⟨_, .noPort hfront hbehind⟩
    · by_cases hnumber : atoi behind = 0
      · exact ⟨_, .zeroPort hfront hbehind hnumber⟩
      · exact ⟨_, .direct hfront hbehind hnumber⟩
  · exact ⟨_, .service first fun b hb => by simpa using fun hc => hcut ⟨b, hb, hc⟩⟩

/-- What the code makes of a text is what its form says, and every access is inside. -/
theorem split_iff (hne : text ≠ []) (htext : ∀ b ∈ text, b ≠ 0) {target : RemoteTarget} :
    remoteConnectSplit (text ++ [0]) = .ok target ↔ ConnectsTo text target := by
  have hforms : ∀ {target}, ConnectsTo text target →
      remoteConnectSplit (text ++ [0]) = .ok target := by
    intro target hform
    cases hform with
    | service first hrest => exact split_service htext hrest
    | direct hfront hport hnumber =>
      rw [List.append_assoc, List.cons_append, split_port hfront htext hport, if_neg hnumber]
    | zeroPort hfront hport hnumber =>
      rw [List.append_assoc, List.cons_append, split_port hfront htext hport, if_pos hnumber]
    | noPort hfront hrest =>
      rw [List.append_assoc, List.cons_append, split_bracket hfront htext hrest]
  refine ⟨fun hok => ?_, hforms⟩
  obtain ⟨found, hfound⟩ := connectsTo_exists hne
  rw [hforms hfound] at hok
  exact Except.ok.inj hok ▸ hfound

end Split

theorem isDecimal_others {c : UInt8} (hc : isDecimal c = true) :
    isSpace c = false ∧ c ≠ 0x2d ∧ c ≠ 0x2b ∧ c ≠ 0 ∧ isCut c = false := by
  revert c
  decide +kernel

/-- A number is read as it is printed. -/
theorem atoi_decimal {n : ℕ} (hn : n < 2 ^ 31) : atoi (decimal n) = n := by
  have hdigits := decimal_isDecimal n
  have hspaces : (decimal n).dropWhile isSpace = decimal n := by
    refine List.dropWhile_eq_self_iff.mpr fun hlength => ?_
    exact Bool.not_eq_true _ ▸ (isDecimal_others (hdigits _ (List.getElem_mem hlength))).1
  have hsign : ∀ c ∈ (decimal n).head?, c ≠ 0x2d ∧ c ≠ 0x2b := fun c hc =>
    have hothers := isDecimal_others (hdigits c (List.mem_of_mem_head? hc))
    ⟨hothers.2.1, hothers.2.2.1⟩
  have hminus : ¬ (decimal n).head? = some 0x2d := fun h => (hsign _ h).1 rfl
  have hplus : ¬ (decimal n).head? = some 0x2b := fun h => (hsign _ h).2 rfl
  have hall : (decimal n).takeWhile isDecimal = decimal n := List.takeWhile_eq_self_iff.mpr hdigits
  simp only [atoi, hspaces, hminus, hplus, hall, decimal_value, or_self, if_false]
  rw [min_eq_right (by omega), max_eq_right (by omega)]
  exact Int.bmod_eq_of_le (by omega) (by omega)

/-- The texts of an address that a port can be given for. -/
structure IsAddress (address : List UInt8) : Prop where
  nonempty : address ≠ []
  inside : ∀ b ∈ address, b ≠ 0 ∧ b ≠ openBracket ∧ b ≠ closeBracket

/-- `[address]:port` -/
def bracketed (address : List UInt8) (port : ℕ) : List UInt8 :=
  ascii "[" ++ address ++ ascii "]:" ++ decimal port

/-- `address:port` -/
def unbracketed (address : List UInt8) (port : ℕ) : List UInt8 :=
  address ++ ascii ":" ++ decimal port

/-- The octets in front of the port are the address, if the port is a number. -/
theorem split_decimal {front : List UInt8} {port : ℕ} (hne : front ≠ [])
    (hfront : ∀ b ∈ front, b ≠ 0) (hport : 1 ≤ port) (hle : port ≤ 65535) :
    remoteConnectSplit (front ++ portColon :: (decimal port ++ [0])) =
      .ok (.direct (connectAddress front) port) := by
  have hdigits := fun b hb => isDecimal_others (decimal_isDecimal port b hb)
  have htext : ∀ b ∈ front ++ portColon :: decimal port, b ≠ 0 := List.forall_mem_append.mpr
    ⟨hfront, List.forall_mem_cons.mpr ⟨by decide, fun b hb => (hdigits b hb).2.2.2.1⟩⟩
  have hnumber := @atoi_decimal port (by omega)
  rw [split_port hne htext fun b hb => (hdigits b hb).2.2.2.2, hnumber, if_neg (by omega)]

theorem connectAddress_bracketed {address : List UInt8} (hne : address ≠ []) :
    connectAddress (openBracket :: address ++ [closeBracket]) = address := by
  have hend : (openBracket :: address ++ [closeBracket]).getLast? = some closeBracket :=
    List.getLast?_concat
  have hkept : ((openBracket :: address).dropWhile (· ≠ openBracket)).tail = address := by
    rw [List.dropWhile_cons_of_neg (by simp), List.tail_cons]
  rw [connectAddress, if_pos hend, List.dropLast_concat, hkept, if_neg hne]

theorem connectAddress_unbracketed {address : List UInt8} (hclose : closeBracket ∉ address) :
    connectAddress address = address :=
  if_neg fun hlast => hclose (List.mem_of_getLast? hlast)

theorem split_bracketed {address : List UInt8} (haddress : IsAddress address) {port : ℕ}
    (hport : 1 ≤ port) (hle : port ≤ 65535) :
    remoteConnectSplit (bracketed address port ++ [0]) = .ok (.direct address port) := by
  have hfront : ∀ b ∈ openBracket :: address ++ [closeBracket], b ≠ 0 :=
    List.forall_mem_append.mpr ⟨List.forall_mem_cons.mpr
      ⟨by decide, fun b hb => (haddress.inside b hb).1⟩, List.forall_mem_singleton.mpr (by decide)⟩
  have hsplit := split_decimal (by simp) hfront hport hle
  rw [connectAddress_bracketed haddress.nonempty] at hsplit
  have htext : bracketed address port ++ [0] =
      openBracket :: address ++ [closeBracket] ++ portColon :: (decimal port ++ [0]) := by
    simp only [bracketed, List.append_assoc, List.cons_append]
    rfl
  rw [htext, hsplit]

theorem split_unbracketed {address : List UInt8} (haddress : IsAddress address) {port : ℕ}
    (hport : 1 ≤ port) (hle : port ≤ 65535) :
    remoteConnectSplit (unbracketed address port ++ [0]) = .ok (.direct address port) := by
  have hclose : closeBracket ∉ address := fun hmem => (haddress.inside _ hmem).2.2 rfl
  have hsplit := split_decimal haddress.nonempty (fun b hb => (haddress.inside b hb).1) hport hle
  rw [connectAddress_unbracketed hclose] at hsplit
  have htext : unbracketed address port ++ [0] =
      address ++ portColon :: (decimal port ++ [0]) := by
    simp only [unbracketed, List.append_assoc]
    rfl
  rw [htext, hsplit]

/-- A colon at the start is not looked at either. -/
theorem split_name {text : List UInt8} (hne : text ≠ []) (htext : ∀ b ∈ text, b ≠ 0)
    (hcolon : portColon ∉ text.tail) (hclose : closeBracket ∉ text.tail) :
    remoteConnectSplit (text ++ [0]) = .ok (.service text) := by
  obtain ⟨first, rest, rfl⟩ := List.exists_cons_of_ne_nil hne
  refine split_service htext fun b hb => ?_
  rw [isCut, Bool.or_eq_false_iff, beq_eq_false_iff_ne, beq_eq_false_iff_ne]
  exact ⟨fun h => hclose (h ▸ hb), fun h => hcolon (h ▸ hb)⟩

/-- An address and a port are split as they are written, the brackets apart, and without
colon and closing bracket a text is the name of a service. No access is outside the text. -/
theorem remoteConnect_splits :
    (∀ text, text ≠ [] → (∀ b ∈ text, b ≠ 0) →
      ∃ target, remoteConnectSplit (text ++ [0]) = .ok target) ∧
    (∀ address, IsAddress address → ∀ port : ℕ, 1 ≤ port → port ≤ 65535 →
      remoteConnectSplit (bracketed address port ++ [0]) = .ok (.direct address port)) ∧
    (∀ address, IsAddress address → ∀ port : ℕ, 1 ≤ port → port ≤ 65535 →
      remoteConnectSplit (unbracketed address port ++ [0]) = .ok (.direct address port)) ∧
    (∀ text, text ≠ [] → (∀ b ∈ text, b ≠ 0) → portColon ∉ text → closeBracket ∉ text →
      remoteConnectSplit (text ++ [0]) = .ok (.service text)) := by
  refine ⟨fun text hne htext => ?_, fun address haddress port => split_bracketed haddress,
    fun address haddress port => split_unbracketed haddress,
    fun text hne htext hcolon hclose => ?_⟩
  · obtain ⟨target, hform⟩ := connectsTo_exists hne
    exact ⟨target, (split_iff hne htext).mpr hform⟩
  · exact split_name hne htext (mt List.mem_of_mem_tail hcolon) (mt List.mem_of_mem_tail hclose)

theorem remoteConnect_splits_loopback :
    remoteConnectSplit (bracketed (ascii "::1") 5004 ++ [0]) = .ok (.direct (ascii "::1") 5004) ∧
    remoteConnectSplit (unbracketed (ascii "h") 1 ++ [0]) = .ok (.direct (ascii "h") 1) ∧
    remoteConnectSplit (ascii "studio" ++ [0]) = .ok (.service (ascii "studio")) :=
  ⟨remoteConnect_splits.2.1 _ ⟨by decide, by decide +kernel⟩ 5004 (by decide) (by decide),
    remoteConnect_splits.2.2.1 _ ⟨by decide, by decide +kernel⟩ 1 (by decide) (by decide),
    remoteConnect_splits.2.2.2 _ (by decide) (by decide +kernel) (by decide) (by decide)⟩

section Services
variable {services resolved : List DnsService} {name : List UInt8}

theorem byName_add (new : DnsService) :
    dnsDiscoverByName (dnsDiscoverAdd services new) name =
      dnsDiscoverByName (services ++ [new]) name := by
  rw [dnsDiscoverAdd]
  cases hknown : dnsDiscoverByName services new.name with
  | none => rfl
  | some known =>
    by_cases hname : name = new.name
    · subst hname
      simp only [dnsDiscoverByName, List.find?_append] at hknown ⊢
      rw [hknown, Option.some_or]
    · simp [dnsDiscoverByName, List.find?_append, hname]

/-- The service found under a name is the first one that was resolved for it. -/
theorem byName_discovered : dnsDiscoverByName (dnsDiscoverServices services resolved) name =
    dnsDiscoverByName (services ++ resolved) name := by
  induction resolved generalizing services with
  | nil => exact congrArg (dnsDiscoverByName · name) (List.append_nil services).symm
  | cons new resolved ih =>
    calc dnsDiscoverByName (dnsDiscoverServices services (new :: resolved)) name
        = dnsDiscoverByName (dnsDiscoverAdd services new ++ resolved) name := ih
      _ = (dnsDiscoverByName (dnsDiscoverAdd services new) name).or
          (dnsDiscoverByName resolved name) := List.find?_append
      _ = (dnsDiscoverByName (services ++ [new]) name).or (dnsDiscoverByName resolved name) := by
          rw [byName_add]
      _ = dnsDiscoverByName (services ++ new :: resolved) name := by
          rw [List.append_cons services new resolved]
          exact List.find?_append.symm

end Services

section Remote
variable {config : KvTable} {resolved : Bool → Bool → List DnsService} {text : List UInt8}
  {host : NetHost} {moment : NetMoment} {connections : List NetCtx}

theorem isSet_of_text (hconfig : configStringGet config remoteConnectKey = some text)
    (hne : text ≠ []) : configIsSet config remoteConnectKey = true := by
  rw [configStringGet] at hconfig
  rw [configIsSet, hconfig]
  exact decide_eq_true (List.length_pos_iff.mpr hne)

/-- With an address and a port, the invitation goes to these, under the text as the name. -/
theorem remoteConnect_direct (hconfig : configStringGet config remoteConnectKey = some text)
    (hne : text ≠ []) {address : List UInt8} {port : ℤ}
    (hsplit : remoteConnectSplit (text ++ [0]) = .ok (.direct address port)) :
    remoteConnect host moment connections config resolved [] =
      remoteConnectInit host moment connections ⟨text, address, UInt16.ofInt port⟩ := by
  have hfound : dnsDiscoverByName [⟨text, address, port⟩] text = some ⟨text, address, port⟩ := by
    simp [dnsDiscoverByName]
  simp only [remoteConnect, remoteConnectFind, isSet_of_text hconfig hne, hconfig, hsplit,
    dnsDiscoverAdd, not_true, if_false, bind, Except.bind, pure, Except.pure]
  have hnone : dnsDiscoverByName [] text = none := rfl
  simp only [hnone, List.nil_append, hfound]
  rfl

/-- With a name, it goes to the first service that is resolved under it, if there is one. -/
theorem remoteConnect_service (hconfig : configStringGet config remoteConnectKey = some text)
    (hne : text ≠ []) (hsplit : remoteConnectSplit (text ++ [0]) = .ok (.service text)) :
    remoteConnect host moment connections config resolved [] =
      match dnsDiscoverByName (resolved (isYes (configStringGet config (ascii "service.ipv4")))
        (isYes (configStringGet config (ascii "service.ipv6")))) text with
      | none => .ok (connections, [])
      | some service => remoteConnectInit host moment connections service.foundService := by
  obtain ⟨found, hfound⟩ : ∃ found, found = resolved
    (isYes (configStringGet config (ascii "service.ipv4")))
    (isYes (configStringGet config (ascii "service.ipv6"))) := ⟨_, rfl⟩
  have hname := @byName_discovered [] found text
  rw [List.nil_append] at hname
  simp only [remoteConnect, remoteConnectFind, isSet_of_text hconfig hne, hconfig, hsplit,
    ← hfound, not_true, if_false, bind, Except.bind, pure, Except.pure]
  rw [← hname]
  by_cases hnone : (dnsDiscoverServices [] found).length ≤ 0
  · have hempty := List.eq_nil_of_length_eq_zero (Nat.le_zero.mp hnone)
    simp only [hempty]
    rfl
  · simp only [if_neg hnone]

theorem ofInt_port (port : ℕ) : UInt16.ofInt port = UInt16.ofNat port := by
  apply UInt16.toNat_inj.mp
  simp [UInt16.ofInt]
  omega

/-- The option in the form of the documentation: one new context for the address and the
port, and its INV goes out. -/
theorem remoteConnect_invites {address : List UInt8} (haddress : IsAddress address) {port : ℕ}
    (hport : 1 ≤ port) (hle : port ≤ 65535)
    (hconfig : configStringGet config remoteConnectKey = some (bracketed address port))
    (hfind : netCtxFindBySsrc connections (moment.random 0) = none) :
    ∃ t slot ctx octets, remoteConnect host moment connections config resolved [] =
        .ok (t, (netCtxSend ctx octets true).toList.map fun sent =>
          .command slot sent.1 sent.2) ∧
      Registered connections t slot ctx ∧ ctx.status = .firstInv ∧
      ctx.controlAddress = host.getSockInfo address (UInt16.ofNat port) ∧
      ctx.dataAddress = host.getSockInfo address (UInt16.ofNat port + 1) ∧
      InvPacket netApplemidiCmdInv (moment.random 0) (moment.random 1) octets := by
  have hne : bracketed address port ≠ [] := by simp [bracketed, ascii]
  obtain ⟨t, slot, ctx, octets, hok, hregistered, hstatus, -, -, -, hcontrol, hdata, hpacket⟩ :=
    connect_fresh host moment ⟨bracketed address port, address, UInt16.ofInt port⟩ hfind
  rw [← remoteConnect_direct hconfig hne (split_bracketed haddress hport hle)] at hok
  rw [ofInt_port] at hcontrol hdata
  exact ⟨t, slot, ctx, octets, hok, hregistered, hstatus, hcontrol, hdata, hpacket⟩

end Remote

end RaveloxMidi
