import RpiFastbootd.Fastboot.Driver

/-!
# The UDP transport of the host

`UdpTransport` sends what it is given in packets, each with a number.  A packet is sent again when there
is no response for too long, and what does not match it is passed over.  A response may have a
continuation, for which the host prompts with an empty packet.  Query and initialization packets find
out the number that the device expects and the size of a packet.

A socket is given by its calls and by what it keeps between them.  The number of packets that are
sent or looked at is bounded by a fuel here.
-/

namespace RpiFastbootd

namespace Udp

open FastbootDevice (text)

def kMinPacketSize : ℕ := 512

def kHeaderSize : ℕ := 4

def kProtocolVersion : ℕ := 1

def kHostMaxPacketSize : ℕ := 8192

def kMaxConnectAttempts : ℕ := 4

def kMaxTransmissionAttempts : ℕ := 120

def kIdError : Byte := 0

def kIdDeviceQuery : Byte := 1

def kIdInitialization : Byte := 2

def kIdFastboot : Byte := 3

def kFlagNone : Byte := 0

def kFlagContinuation : Byte := 1

/-- `ExtractUint16`. -/
def extractUint16 (bytes : List Byte) : ℕ :=
  (bytes.getD 0 0).toNat * 256 + (bytes.getD 1 0).toNat

/-- The bytes of a 16 bit number, the high one first. -/
def uint16Bytes (n : ℕ) : List Byte := [BitVec.ofNat 8 (n / 256), BitVec.ofNat 8 n]

structure Header where
  id : Byte := kIdError
  flag : Byte := kFlagNone
  sequence : ℕ := 0
  deriving DecidableEq, Repr

namespace Header

/-- `Set`, from an `int` for the number. -/
def set (id : Byte) (sequence : ℕ) (flag : Byte) : Header := ⟨id, flag, sequence % 2 ^ 16⟩

def bytes (h : Header) : List Byte := h.id :: h.flag :: uint16Bytes h.sequence

/-- `Matches`. -/
def Matches (h : Header) (response : List Byte) : Prop :=
  (response.drop 2).take 2 = uint16Bytes h.sequence ∧
    (response.getD 0 0 = h.id ∨ response.getD 0 0 = kIdError)

instance (h : Header) (response : List Byte) : Decidable (h.Matches response) :=
  inferInstanceAs (Decidable (_ ∧ _))

end Header

/-- How `Receive` turns out. -/
inductive Datagram
  | got (bytes : List Byte)
  | timedOut
  | failed
  deriving DecidableEq, Repr

/-- A socket that keeps a `σ`: whether `Send` succeeds, what `Receive` brings of a size at most, and
the text of the last error. -/
structure Socket (σ : Type) where
  send : σ → List Byte → Bool × σ
  receive : σ → ℕ → Datagram × σ
  getErrorMessage : σ → String
  close : σ → ℤ

/-- What `SendSinglePacketHelper` gathers: the number of data bytes, those for which there was room
and the text of the errors. -/
structure Gathered where
  total : ℕ := 0
  rxData : List Byte := []
  error : List Byte := []
  deriving DecidableEq, Repr

/-- The data of a response. -/
def Gathered.add (rxLength : ℕ) (packet : List Byte) (g : Gathered) : Gathered :=
  let data := packet.drop kHeaderSize
  if packet.getD 0 0 = kIdError then { g with error := g.error ++ data }
  else
    { g with
      total := g.total + data.length
      rxData := g.rxData ++ data.take (rxLength - g.rxData.length) }

/-- What the wait for a response ends with. -/
inductive Heard
  | response (packet : List Byte)
  | timedOut
  | failed (error : String)
  deriving DecidableEq, Repr

/-- `++sequence_`, of an `int`. -/
def increment (sequence : ℕ) : Except HostStop ℕ :=
  if sequence + 1 < 2 ^ 31 then .ok (sequence + 1) else .error (.fault .undefined)

structure UdpTransport (σ : Type) where
  socket : Option σ
  sequence : ℕ
  maxDataLength : ℕ := kMinPacketSize - kHeaderSize
  rxPacketSize : ℕ
  deriving DecidableEq

section

variable {σ : Type} (S : Socket σ)

/-- The inner loop of `SendSinglePacketHelper`. -/
def receiveLoop (header : Header) (size : ℕ) : ℕ → σ → Except HostStop (Heard × σ)
  | 0, _ => .error .outOfFuel
  | fuel + 1, st =>
    match S.receive st size with
    | (.timedOut, st) => return (.timedOut, st)
    | (.failed, st) => return (.failed (S.getErrorMessage st), st)
    | (.got packet, st) =>
      if packet.length < kHeaderSize then
        return (.failed "protocol error: incomplete header", st)
      else if header.Matches packet then return (.response packet, st)
      else receiveLoop header size fuel st

/-- The outer loop of `SendSinglePacketHelper`, with the attempts that are left. -/
def sendSinglePacketLoop (size rxLength attempts : ℕ) :
    ℕ → ℕ → Header → List Byte → Gathered → σ → ℕ →
    Except HostStop (Except String Gathered × σ × ℕ)
  | 0, _, _, _, _, _, _ => .error .outOfFuel
  | _ + 1, 0, _, _, _, st, sequence => return (.error "no response from target", st, sequence)
  | fuel + 1, attemptsLeft + 1, header, txData, g, st, sequence =>
    match S.send st (header.bytes ++ txData) with
    | (false, st) => return (.error (S.getErrorMessage st), st, sequence)
    | (true, st) => do
      match ← receiveLoop S header size fuel st with
      | (.failed error, st) => return (.error error, st, sequence)
      | (.timedOut, st) =>
        sendSinglePacketLoop size rxLength attempts fuel attemptsLeft header txData g st sequence
      | (.response packet, st) =>
        let sequence ← increment sequence
        let g := g.add rxLength packet
        if packet.getD 1 0 &&& kFlagContinuation ≠ 0 then
          let header := Header.set (packet.getD 0 0) sequence kFlagNone
          sendSinglePacketLoop size rxLength attempts fuel attempts header [] g st sequence
        else if packet.getD 0 0 = kIdError then
          return (.error ("target reported error: " ++ text g.error), st, sequence)
        else return (.ok g, st, sequence)

namespace UdpTransport

/-- `SendSinglePacketHelper`, on a socket that is open. -/
def sendSinglePacketHelper (fuel : ℕ) (header : Header) (txData : List Byte)
    (rxLength attempts : ℕ) (st : σ) (t : UdpTransport σ) :
    Except HostStop (Except String Gathered × UdpTransport σ) := do
  let (r, st, sequence) ← sendSinglePacketLoop S t.rxPacketSize rxLength attempts fuel attempts
    header txData {} st t.sequence
  return (r, { t with socket := some st, sequence })

/-- The loop of `SendData`: a packet at least, and a packet for each part of the data.  What it gives is
the number of the data bytes received and those for which there was room. -/
def sendDataLoop (id : Byte) (attempts : ℕ) :
    ℕ → List Byte → ℕ → ℕ × List Byte → UdpTransport σ →
    Except HostStop (Except String (ℕ × List Byte) × UdpTransport σ)
  | 0, _, _, _, _ => .error .outOfFuel
  | fuel + 1, txData, rxLength, (ret, rxData), t =>
    match t.socket with
    | none => return (.error "socket is closed", t)
    | some st => do
      let more := t.maxDataLength < txData.length
      let packetDataLength := if more then t.maxDataLength else txData.length
      let header := Header.set id t.sequence (if more then kFlagContinuation else kFlagNone)
      match ← sendSinglePacketHelper S fuel header (txData.take packetDataLength) rxLength attempts
        st t with
      | (.error error, t) => return (.error error, t)
      | (.ok g, t) =>
        let sofar := (ret + g.total, rxData ++ g.rxData)
        if 0 < txData.length - packetDataLength then
          sendDataLoop id attempts fuel (txData.drop packetDataLength) (rxLength - g.total) sofar t
        else return (.ok sofar, t)

/-- `SendData`. -/
def sendData (fuel : ℕ) (id : Byte) (txData : List Byte) (rxLength attempts : ℕ)
    (t : UdpTransport σ) : Except HostStop (Except String (ℕ × List Byte) × UdpTransport σ) :=
  sendDataLoop S id attempts fuel txData rxLength (0, []) t

/-- The version and the size of a packet that the host sends. -/
def initData : List Byte := uint16Bytes kProtocolVersion ++ uint16Bytes kHostMaxPacketSize

/-- `InitializeProtocol`. -/
def initializeProtocol (fuel : ℕ) (t : UdpTransport σ) :
    Except HostStop (Except String Unit × UdpTransport σ) := do
  let t := { t with sequence := 0, rxPacketSize := kMinPacketSize }
  match ← sendData S fuel kIdDeviceQuery [] 4 kMaxConnectAttempts t with
  | (.error error, t) => return (.error error, t)
  | (.ok (rxBytes, rxData), t) =>
    if rxBytes < 2 then return (.error "invalid query response from target", t)
    else
      let t := { t with sequence := extractUint16 rxData }
      match ← sendData S fuel kIdInitialization initData 4 kMaxTransmissionAttempts t with
      | (.error error, t) => return (.error error, t)
      | (.ok (rxBytes, rxData), t) =>
        let version := extractUint16 rxData
        let packetSize := extractUint16 (rxData.drop 2)
        if rxBytes < 4 then return (.error "invalid initialization response from target", t)
        else if version < kProtocolVersion then
          return (.error ("target reported invalid protocol version " ++ toString version), t)
        else if packetSize < kMinPacketSize then
          return (.error ("target reported invalid packet size " ++ toString packetSize), t)
        else
          let packetSize := min kHostMaxPacketSize packetSize
          return (.ok (),
            { t with maxDataLength := packetSize - kHeaderSize, rxPacketSize := packetSize })

/-- `NewTransport`. -/
def newTransport (fuel : ℕ) (st : σ) : Except HostStop (Except String (UdpTransport σ)) := do
  match ← initializeProtocol S fuel { socket := some st, sequence := 0, rxPacketSize := 0 } with
  | (.error error, _) => return .error error
  | (.ok (), t) => return .ok t

/-- `Read`: the bytes, or nothing for -1. -/
def read (fuel length : ℕ) (t : UdpTransport σ) :
    Except HostStop (Option (List Byte) × UdpTransport σ) := do
  match ← sendData S fuel kIdFastboot [] length kMaxTransmissionAttempts t with
  | (.error _, t) => return (none, t)
  | (.ok (bytes, data), t) => if length < bytes then return (none, t) else return (some data, t)

/-- `Write`: the number of bytes, or nothing for -1. -/
def write (fuel : ℕ) (data : List Byte) (t : UdpTransport σ) :
    Except HostStop (Option ℕ × UdpTransport σ) := do
  match ← sendData S fuel kIdFastboot data 0 kMaxTransmissionAttempts t with
  | (.error _, t) => return (none, t)
  | (.ok (bytes, _), t) => if 0 < bytes then return (none, t) else return (some data.length, t)

/-- `Close`. -/
def close (t : UdpTransport σ) : ℤ × UdpTransport σ :=
  match t.socket with
  | none => (0, t)
  | some st => (S.close st, { t with socket := none })

/-- A transport has made its two exchanges. -/
theorem newTransport_ok {S : Socket σ} {fuel : ℕ} {st : σ} {t : UdpTransport σ}
    (hrun : newTransport S fuel st = .ok (.ok t)) :
    ∃ ret rxData t₁ ret' rxData' t₂,
      sendData S fuel kIdDeviceQuery [] 4 kMaxConnectAttempts
        { socket := some st, sequence := 0, rxPacketSize := kMinPacketSize } =
        .ok (.ok (ret, rxData), t₁) ∧
      sendData S fuel kIdInitialization initData 4 kMaxTransmissionAttempts
        { t₁ with sequence := extractUint16 rxData } = .ok (.ok (ret', rxData'), t₂) ∧
      kMinPacketSize ≤ extractUint16 (rxData'.drop 2) ∧
      t = { t₂ with
        maxDataLength := min kHostMaxPacketSize (extractUint16 (rxData'.drop 2)) - kHeaderSize
        rxPacketSize := min kHostMaxPacketSize (extractUint16 (rxData'.drop 2)) } := by
  obtain ⟨⟨r, t'⟩, hinit, hrun⟩ := bind_eq_ok_iff.1 hrun
  cases r with
  | error e => cases hrun
  | ok =>
    cases hrun
    obtain ⟨⟨r, t₁⟩, hquery, hinit⟩ := bind_eq_ok_iff.1 hinit
    cases r with
    | error e => cases hinit
    | ok p =>
      obtain ⟨ret, rxData⟩ := p
      dsimp only at hinit
      split_ifs at hinit with hshort
      · cases hinit
      obtain ⟨⟨r, t₂⟩, hsend, hinit⟩ := bind_eq_ok_iff.1 hinit
      cases r with
      | error e => cases hinit
      | ok p =>
        obtain ⟨ret', rxData'⟩ := p
        dsimp only at hinit
        split_ifs at hinit with hlength hversion hsize
        · cases hinit
        · cases hinit
        · cases hinit
        cases hinit
        exact ⟨ret, rxData, t₁, ret', rxData', t₂, hquery, hsend, not_lt.1 hsize, rfl⟩

end UdpTransport

/-- What holds after a `Receive`, and what holds of a packet as well. -/
def Datagram.After (J : List Byte → Prop) (I : Prop) : Datagram → Prop
  | got packet => I ∧ J packet
  | _ => I

theorem Datagram.After.mono {J J' : List Byte → Prop} {I : Prop} {d : Datagram} (h : d.After J I)
    (hJ : I → ∀ packet, J packet → J' packet) : d.After J' I := by
  cases d with
  | got packet => exact ⟨h.1, hJ h.1 packet h.2⟩
  | timedOut => exact h
  | failed => exact h

/-- What holds after a wait, with a response and without one. -/
def Heard.After (J : List Byte → Prop) (I : Prop) : Heard → Prop
  | response packet => J packet
  | _ => I

/-- What every call of `Receive` keeps is kept by the wait, and a packet that ends it matches. -/
theorem receiveLoop_ends {S : Socket σ} {I : σ → Prop} {J : List Byte → σ → Prop} {header : Header}
    {size fuel : ℕ} {st st' : σ} {heard : Heard}
    (hstep : ∀ st, I st → (S.receive st size).1.After
      (fun packet => header.Matches packet → J packet (S.receive st size).2)
      (I (S.receive st size).2))
    (h : I st) (hrun : receiveLoop S header size fuel st = .ok (heard, st')) :
    heard.After (J · st') (I st') := by
  induction fuel generalizing st with
  | zero => cases hrun
  | succ fuel ih =>
    have hreceive := hstep st h
    unfold receiveLoop at hrun
    split at hrun
    · rename_i st₁ heq
      rw [heq] at hreceive
      cases hrun
      exact hreceive
    · rename_i st₁ heq
      rw [heq] at hreceive
      cases hrun
      exact hreceive
    · rename_i packet st₁ heq
      rw [heq] at hreceive
      obtain ⟨hkept, hmatch⟩ := hreceive
      split_ifs at hrun with hshort hmatches
      · cases hrun
        exact hkept
      · cases hrun
        exact hmatch hmatches
      · exact ih hkept hrun

end

end Udp

end RpiFastbootd
