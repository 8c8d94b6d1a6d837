import AimDb.Knx.Tunnel

/-!
# GroupValueWrite frames

A value of six bits rides in the APCI octet, every other payload behind it.  The
parser tells them apart by the length octet alone, so that a payload without
octets reads as the value zero.
-/

namespace AimDb.Knx

/-- The largest datagram: 6 header bytes, 4 of the connection header and a cEMI
frame, rounded up. -/
def maxFrame : ℕ := 12 + maxCemi

inductive PublishError
  | invalidDestination
  | messageTooLarge
  deriving DecidableEq, Repr

def GroupWrite.tryNew (parseAddress : String → Option GroupAddress) (destination : String)
    (payload : List UInt8) : Except PublishError GroupWrite :=
  match parseAddress destination with
  | none => .error .invalidDestination
  | some groupAddr =>
      if fits : payload.length ≤ maxApdu then .ok ⟨groupAddr, payload, fits⟩
      else .error .messageTooLarge

/-- `TunnelingRequest::build` for a channel, a sequence counter and cEMI data, into a
buffer of some size. -/
abbrev RequestBuilder :=
  (channelId seq : UInt8) → (cemi : List UInt8) → (room : ℕ) → Option Frame

/-- A frame is copied into a vector of bounded capacity, or the call panics. -/
def frameFrom (buf : List UInt8) : Option Frame :=
  if buf.length ≤ maxFrame then some buf else none

/-- A panic is `none`. -/
def buildTunnelingRequest (build : RequestBuilder) (channelId seq : UInt8) (cemi : List UInt8) :
    Option Frame :=
  match build channelId seq cemi maxFrame with
  | none => none
  | some buf => frameFrom buf

def addressOf (high low : UInt8) : GroupAddress := UInt16.ofNat (high.toNat * 256 + low.toNat)

/-- An L_Data frame without additional information, as documented: the length octet
counts the APCI octet and the data behind it. -/
structure KnxPico.Documented (pico : KnxPico) (build : RequestBuilder) : Prop where
  lData : ∀ ctrl1 ctrl2 sourceHigh sourceLow destHigh destLow npdu tpci apci rest,
    1 ≤ npdu.toNat → npdu.toNat - 1 ≤ rest.length →
      pico.parseLData (0x11 :: 0x00 :: ctrl1 :: ctrl2 :: sourceHigh :: sourceLow :: destHigh ::
          destLow :: npdu :: tpci :: apci :: rest) =
        some {
          isGroupWrite := tpci &&& 0x03 = 0 ∧ apci &&& 0xC0 = 0x80
          destinationGroup := if ctrl2 &&& 0x80 = 0 then none else some (addressOf destHigh destLow)
          data := rest.take (npdu.toNat - 1)
          sixBitValue := apci &&& 0x3F }
  /-- A request is the cEMI data behind a header of 6 bytes and one of 4. -/
  request : ∀ channelId seq cemi room, 10 + cemi.length ≤ room →
    ∃ header : List UInt8, header.length = 10 ∧
    build channelId seq cemi room = some (header ++ cemi)

def cemiHeader (groupAddr : GroupAddress) : List UInt8 :=
  [0x11, 0x00, 0xBC, 0xE0, 0x00, 0x00, (groupAddr >>> 8).toUInt8, groupAddr.toUInt8]

def npdu (data : List UInt8) : List UInt8 :=
  match data with
  | [value] =>
      if value < 64 then [0x01, 0x00, 0x80 ||| (value &&& 0x3F)] else [0x02, 0x00, 0x80, value]
  | _ => [UInt8.ofNat (2 + data.length - 1), 0x00, 0x80] ++ data

theorem length_npdu_le (data : List UInt8) : (npdu data).length ≤ 3 + data.length := by
  rcases data with _ | ⟨value, _ | ⟨next, rest⟩⟩
  · exact Nat.le_refl 3
  · simp only [npdu]
    split <;> simp
  · simp [npdu]
    omega

theorem buildGroupWriteCemi_eq (groupAddr : GroupAddress) {data : List UInt8}
    (fits : data.length ≤ maxApdu) :
    buildGroupWriteCemi groupAddr data = cemiHeader groupAddr ++ npdu data := by
  have room := fits
  simp only [maxApdu] at room
  rcases data with _ | ⟨value, _ | ⟨next, rest⟩⟩
  · simp [buildGroupWriteCemi, pushBytes, maxCemi, maxApdu, cemiHeader, npdu]
  · by_cases short : value < 64
    · simp [buildGroupWriteCemi, pushBytes, maxCemi, maxApdu, cemiHeader, npdu, short]
    · simp [buildGroupWriteCemi, pushBytes, maxCemi, maxApdu, cemiHeader, npdu, short]
  · simp [buildGroupWriteCemi, pushBytes, maxCemi, maxApdu, cemiHeader, npdu] at room ⊢
    omega

theorem addressOf_bytes (groupAddr : GroupAddress) :
    addressOf (groupAddr >>> 8).toUInt8 groupAddr.toUInt8 = groupAddr := by
  apply UInt16.toNat_inj.mp
  have small := groupAddr.toNat_lt
  simp [addressOf, Nat.shiftRight_eq_div_pow]
  omega

theorem apci_sixBits {value : UInt8} (short : value < 64) :
    (0x80 ||| (value &&& 0x3F)) &&& 0xC0 = 0x80 ∧
        (0x80 ||| (value &&& 0x3F)) &&& 0x3F = value := by
  have all : ∀ n : Fin 64, (0x80 ||| (UInt8.ofNat n &&& 0x3F)) &&& 0xC0 = 0x80 ∧
      (0x80 ||| (UInt8.ofNat n &&& 0x3F)) &&& 0x3F = UInt8.ofNat n := by decide
  have one := all ⟨value.toNat, UInt8.lt_iff_toNat_lt.mp short⟩
  simpa using one

/-- What an NPDU is read as: an empty payload is the value zero. -/
def readAs (data : List UInt8) : List UInt8 := if data = [] then [0] else data

theorem KnxPico.Documented.telegram {pico : KnxPico} {build : RequestBuilder}
    (documented : pico.Documented build) (groupAddr : GroupAddress) {length apci : UInt8}
    {rest : List UInt8} (counted : length.toNat = 1 + rest.length)
    (isWrite : apci &&& 0xC0 = 0x80) :
    pico.parseTelegram (cemiHeader groupAddr ++ (length :: 0x00 :: apci :: rest)) =
      some (groupAddr, if rest = [] then [apci &&& 0x3F] else rest) := by
  have parsed := documented.lData 0xBC 0xE0 0x00 0x00 (groupAddr >>> 8).toUInt8 groupAddr.toUInt8
    length 0x00 apci rest (by omega) (by omega)
  rw [counted, Nat.add_sub_cancel_left, List.take_length, addressOf_bytes] at parsed
  rw [parseTelegram, cemiHeader]
  simp only [List.cons_append, List.nil_append]
  have toGroup : ¬(0xE0 : UInt8) &&& 0x80 = 0 := by decide
  rw [parsed, if_neg toGroup]
  simp [isWrite]

theorem parseTelegram_build {pico : KnxPico} {build : RequestBuilder}
    (documented : pico.Documented build) (groupAddr : GroupAddress) {data : List UInt8}
    (fits : data.length ≤ maxApdu) :
    pico.parseTelegram (buildGroupWriteCemi groupAddr data) = some (groupAddr, readAs data) := by
  rw [buildGroupWriteCemi_eq groupAddr fits]
  simp only [maxApdu] at fits
  rcases data with _ | ⟨value, _ | ⟨next, rest⟩⟩
  · exact documented.telegram groupAddr (by rfl) (by rfl)
  · by_cases short : value < 64
    · obtain ⟨isWrite, sixBits⟩ := apci_sixBits short
      have parsed :=
        @KnxPico.Documented.telegram _ _ documented groupAddr 0x01 _ [] (by rfl) isWrite
      simpa [npdu, short, readAs, sixBits] using parsed
    · have parsed :=
        @KnxPico.Documented.telegram _ _ documented groupAddr 0x02 0x80 [value] (by rfl) (by rfl)
      simpa [npdu, short, readAs] using parsed
  · have counted : (UInt8.ofNat (2 + (value :: next :: rest).length - 1)).toNat =
        1 + (value :: next :: rest).length := by
      rw [UInt8.toNat_ofNat']
      omega
    have parsed := documented.telegram groupAddr counted (by rfl : (0x80 : UInt8) &&& 0xC0 = 0x80)
    simpa [npdu, readAs] using parsed

/-- What a write keeps on its way to the bus and back. -/
structure Carried (pico : KnxPico) (build : RequestBuilder) (write : GroupWrite) : Prop where
  decodes : pico.parseTelegram (buildGroupWriteCemi write.groupAddr write.data) =
    some (write.groupAddr, write.data)
  whole : buildGroupWriteCemi write.groupAddr write.data =
    cemiHeader write.groupAddr ++ npdu write.data
  counted : 2 + write.data.length - 1 < 256
  /-- No call panics, and nothing is lost in a buffer. -/
  request : ∀ channelId seq, ∃ header : List UInt8, header.length = 10 ∧
    buildTunnelingRequest build channelId seq (buildGroupWriteCemi write.groupAddr write.data) =
      some (header ++ buildGroupWriteCemi write.groupAddr write.data)

theorem buildTunnelingRequest_isSome {pico : KnxPico} {build : RequestBuilder}
    (documented : pico.Documented build) (channelId seq : UInt8) {cemi : List UInt8}
    (fits : cemi.length ≤ maxCemi) :
    ∃ header : List UInt8, header.length = 10 ∧
      buildTunnelingRequest build channelId seq cemi = some (header ++ cemi) := by
  have room : 10 + cemi.length ≤ maxFrame := by
    rw [maxFrame]
    omega
  obtain ⟨header, ten, built⟩ := documented.request channelId seq cemi maxFrame room
  refine ⟨header, ten, ?_⟩
  rw [buildTunnelingRequest, built]
  exact if_pos (by rw [List.length_append, ten]; exact room)

theorem GroupWrite.data_of_tryNew {parseAddress : String → Option GroupAddress}
    {destination : String} {payload : List UInt8} {write : GroupWrite}
    (accepted : tryNew parseAddress destination payload = .ok write) :
    parseAddress destination = some write.groupAddr ∧ write.data = payload := by
  rw [tryNew] at accepted
  split at accepted
  · cases accepted
  · next groupAddr parsed =>
    split at accepted
    · cases accepted
      exact ⟨parsed, rfl⟩
    · cases accepted

/-- Of the payloads accepted, those with an octet come back. -/
theorem carried_iff {pico : KnxPico} {build : RequestBuilder} (documented : pico.Documented build)
    {parseAddress : String → Option GroupAddress} {destination : String} {payload : List UInt8}
    {write : GroupWrite}
    (accepted : GroupWrite.tryNew parseAddress destination payload = .ok write) :
    Carried pico build write ↔ payload ≠ [] := by
  obtain ⟨-, rfl⟩ := GroupWrite.data_of_tryNew accepted
  obtain ⟨groupAddr, data, fits⟩ := write
  have parsed := parseTelegram_build documented groupAddr fits
  constructor
  · rintro carried rfl
    have same := carried.decodes.symm.trans parsed
    simp [readAs] at same
  · intro nonempty
    have built := buildGroupWriteCemi_eq groupAddr fits
    have short : (buildGroupWriteCemi groupAddr data).length ≤ maxCemi := by
      have npduFits := length_npdu_le data
      rw [built, List.length_append]
      simp only [cemiHeader, List.length_cons, List.length_nil, maxCemi]
      omega
    refine ⟨?_, built, ?_, fun channelId seq =>
      buildTunnelingRequest_isSome documented channelId seq short⟩
    · rw [parsed, readAs, if_neg nonempty]
    · simp only [maxApdu] at fits
      simp only
      omega

def referenceLData : List UInt8 → Option LData
  | 0x11 :: 0x00 :: _ :: ctrl2 :: _ :: _ :: destHigh :: destLow :: npdu :: tpci :: apci :: rest =>
      if 1 ≤ npdu.toNat ∧ npdu.toNat - 1 ≤ rest.length then
        some {
          isGroupWrite := tpci &&& 0x03 = 0 ∧ apci &&& 0xC0 = 0x80
          destinationGroup := if ctrl2 &&& 0x80 = 0 then none else some (addressOf destHigh destLow)
          data := rest.take (npdu.toNat - 1)
          sixBitValue := apci &&& 0x3F }
      else none
  | _ => none

def referenceBuild : RequestBuilder := fun channelId seq cemi room =>
  let frame := reference.buildTunnelingRequest channelId seq cemi
  if frame.length ≤ room then some frame else none

def busReference : KnxPico := { reference with parseLData := referenceLData }

theorem busReference_documented : busReference.Documented referenceBuild where
  lData ctrl1 ctrl2 sourceHigh sourceLow destHigh destLow npdu tpci apci rest counts inside :=
    if_pos ⟨counts, inside⟩
  request channelId seq cemi room fits := by
    have whole : reference.buildTunnelingRequest channelId seq cemi =
        [0x06, 0x10, 0x04, 0x20, UInt8.ofNat ((10 + cemi.length) / 256),
          UInt8.ofNat (10 + cemi.length), 0x04, channelId, seq, 0x00] ++ cemi := by
      have counted : 6 + ([0x04, channelId, seq, 0x00] ++ cemi).length = 10 + cemi.length := by
        simp
        omega
      simp only [reference, frameOf, serviceCode, counted]
      rfl
    have built : referenceBuild channelId seq cemi room =
        some (reference.buildTunnelingRequest channelId seq cemi) := by
      apply if_pos
      rw [whole, List.length_append]
      exact fits
    exact ⟨_, rfl, built.trans (congrArg some whole)⟩

def lamp : String → Option GroupAddress := fun _ => some 0x0807

theorem carried_switchedOn :
    Carried busReference referenceBuild ⟨0x0807, [0x01], by decide⟩ ↔
        ([0x01] : List UInt8) ≠ [] :=
  @carried_iff _ _ busReference_documented lamp "1/0/7" [0x01] _ rfl

/-- A write of nothing is accepted, and zero is read. -/
theorem empty_reads_zero :
    GroupWrite.tryNew lamp "1/0/7" [] = .ok ⟨0x0807, [], by decide⟩ ∧
      busReference.Documented referenceBuild ∧
      busReference.parseTelegram (buildGroupWriteCemi 0x0807 []) = some (0x0807, [0x00]) ∧
      buildGroupWriteCemi 0x0807 [] = buildGroupWriteCemi 0x0807 [0x00] ∧
      ¬Carried busReference referenceBuild ⟨0x0807, [], by decide⟩ := by
  refine ⟨rfl, busReference_documented, by decide, by decide, fun carried => ?_⟩
  have decoded := carried.decodes
  revert decoded
  decide

end AimDb.Knx
