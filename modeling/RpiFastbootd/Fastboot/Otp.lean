import RpiFastbootd.Lib.Bytes
import RpiFastbootd.Lib.Fallible

/-!
# One-time programmable memory

The customer rows and the customer MAC addresses are read and written through the mailbox of the
firmware.  A write can only blow fuses: it ORs words into a row.  `WriteCustomerOtp` and
`SetCustomerMac` therefore read first and refuse to write over a row with another value, and read
back what they have written.  The firmware stands here as a memory with OR-writes, and an
environment decides which mailbox calls succeed and which of the requested fuses blow.
-/

namespace RpiFastbootd

/-! ### Addresses -/

abbrev Mac := Vector (BitVec 8) 6

inductive MacInterface
  | ethernet
  | wifi
  | bluetooth
  deriving DecidableEq, Repr

def macInterfaceName : MacInterface → String
  | .ethernet => "ethernet"
  | .wifi => "wifi"
  | .bluetooth => "bluetooth"

def macTagOffset : MacInterface → Word
  | .ethernet => 0
  | .wifi => 1
  | .bluetooth => 2

/-- Lower-case hexadecimal digits, filled up with zeros to a width. -/
def hexText (width n : ℕ) : String :=
  let digits := Nat.toDigits 16 n
  String.ofList (List.replicate (width - digits.length) '0' ++ digits)

def hex32 (value : Word) : String := "0x" ++ hexText 8 value.toNat

def formatMac (mac : Mac) : String :=
  ":".intercalate (mac.toList.map fun octet => hexText 2 octet.toNat)

def macIsBlank (mac : Mac) : Bool := mac.toList.all (· == 0x00)

def macIsIgnored (mac : Mac) : Bool := mac.toList.all (· == 0xff)

/-- Where a request fails: at a check, in a mailbox call, or when the row is read back. -/
inductive FailureKind
  | check
  | mailbox
  | readBack
  deriving DecidableEq, Repr

structure Failure where
  kind : FailureKind
  err : String
  deriving DecidableEq, Repr

def validateMac (mac : Mac) : Except Failure Unit :=
  if macIsBlank mac then .error ⟨.check, "00:00:00:00:00:00 is how an unprogrammed row reads"⟩
  else if macIsIgnored mac then
    .error ⟨.check, "ff:ff:ff:ff:ff:ff is ignored by the bootloader"⟩
  else if mac[0] &&& 0x01 ≠ 0 then .error ⟨.check, formatMac mac ++ " is a multicast address"⟩
  else .ok ()

/-- The first octet in the low byte of the first word. -/
def macToWords (mac : Mac) : List Word :=
  [mac[0].setWidth 32 ||| mac[1].setWidth 32 <<< 8 ||| mac[2].setWidth 32 <<< 16 |||
      mac[3].setWidth 32 <<< 24,
    mac[4].setWidth 32 ||| mac[5].setWidth 32 <<< 8]

def macFromWords (words : List Word) : Mac :=
  let w0 := words.getD 0 0
  let w1 := words.getD 1 0
  #v[(w0 &&& 0xff).setWidth 8, ((w0 >>> 8) &&& 0xff).setWidth 8, ((w0 >>> 16) &&& 0xff).setWidth 8,
    ((w0 >>> 24) &&& 0xff).setWidth 8, (w1 &&& 0xff).setWidth 8, ((w1 >>> 8) &&& 0xff).setWidth 8]

/-! ### The firmware -/

def kCustomerRows : Word := 8
def kRequestSucceeded : Word := 0x80000000
def kTagGetCustomerOtp : Word := 0x00030021
def kTagSetCustomerOtp : Word := 0x00038021
def kTagGetCustomerMac : Word := 0x00030082
def kTagSetCustomerMac : Word := 0x00038082
def kMacValueBytes : Word := 6

/-- The start row that locks the customer rows for good. -/
def kLockRow : Word := 0xffffffff

structure Otp where
  customer : Fin 8 → Word
  mac : MacInterface → Mac
  locked : Bool := false

/-- The customer rows from `start` on; there is nothing to read behind the last one. -/
def Otp.rows (otp : Otp) (start count : ℕ) : List Word :=
  (List.range count).map fun i =>
    if h : start + i < 8 then otp.customer ⟨start + i, h⟩ else 0

/-- Word `i` is ORed into row `start + i`. -/
def Otp.orRows (otp : Otp) (start count : ℕ) (word : ℕ → Word) : Otp :=
  { otp with customer := fun r =>
      if start ≤ r.val ∧ r.val < start + count then otp.customer r ||| word (r.val - start)
      else otp.customer r }

def Otp.orMac (otp : Otp) (iface : MacInterface) (mac : Mac) : Otp :=
  let row : Mac := Vector.zipWith (· ||| ·) (otp.mac iface) mac
  { otp with mac := Function.update otp.mac iface row }

/-- What becomes of a mailbox call: opening the node or the request may fail, the firmware may
reject the request or not know its tag, and of the fuses of word `i` only those in `blown i` blow. -/
structure MboxAnswer where
  openError : Option String := none
  ioctlError : Option String := none
  status : Word := kRequestSucceeded
  handled : Bool := true
  blown : ℕ → Word := fun _ => BitVec.allOnes 32

/-- The interface of a MAC tag. -/
def macOfTag (base tag : Word) : Option MacInterface :=
  [MacInterface.ethernet, .wifi, .bluetooth].find? fun iface => base + macTagOffset iface = tag

/-- The tag of a message buffer. -/
def bufTag (buf : List Word) : Word := buf.getD 2 0

/-- The value of a message buffer, as long as its length field says. -/
def bufValue (buf : List Word) : List Word :=
  (buf.drop 5).take ((buf.getD 3 0 + 3) / 4).toNat

/-- The firmware: reads give the true contents, writes OR their words into the memory. -/
def firmware (blown : ℕ → Word) (otp : Otp) (buf : List Word) : Otp × List Word :=
  let value := bufValue buf
  let start := value.getD 0 0
  let count := value.getD 1 0
  if bufTag buf = kTagGetCustomerOtp then
    (otp, [start, count] ++ otp.rows start.toNat count.toNat)
  else if bufTag buf = kTagSetCustomerOtp then
    if start = kLockRow then ({ otp with locked := true }, value)
    else
      (otp.orRows start.toNat count.toNat fun i => value.getD (2 + i) 0 &&& blown i, value)
  else match macOfTag kTagGetCustomerMac (bufTag buf) with
    | some iface => (otp, macToWords (otp.mac iface))
    | none => match macOfTag kTagSetCustomerMac (bufTag buf) with
      | some iface =>
        (otp.orMac iface (macFromWords
          [value.getD 0 0 &&& blown 0, value.getD 1 0 &&& blown 1]), value)
      | none => (otp, value)

/-! ### The mailbox -/

/-- The memory, the message buffers sent so far, and the number of calls of the environment. -/
structure OtpState where
  otp : Otp
  sent : List (List Word) := []
  calls : ℕ := 0

/-- Whether the provisioning node exists, whether the rows can be read through nvmem, and the
answers of the mailbox. -/
structure OtpEnv where
  provisioning : Bool
  nvmem : ℕ → Bool
  answer : ℕ → List Word → MboxAnswer

abbrev OtpM := FailM Failure OtpState

def mboxBuffer (tag valueBytes : Word) (value : List Word) : List Word :=
  let rest := [0, tag, valueBytes, valueBytes] ++ value ++ [0]
  BitVec.ofNat 32 ((rest.length + 1) * 4) :: rest

section

variable (env : OtpEnv)

/-- A property request: its value is cut or filled up to the length, and the answer must say that
the request succeeded and its tag was handled. -/
def mboxProperty (device : String) (tag valueBytes : Word) (value : List Word) :
    OtpM (List Word) := fun s =>
  let words := ((valueBytes + 3) / 4).toNat
  let buf := mboxBuffer tag valueBytes (value.take words ++ List.replicate (words - value.length) 0)
  let a := env.answer s.calls buf
  let s := { s with calls := s.calls + 1 }
  match a.openError with
  | some e => (.error ⟨.mailbox, "cannot open " ++ device ++ ": " ++ e⟩, s)
  | none =>
    let (otp, out) := firmware a.blown s.otp buf
    let s := { s with otp, sent := s.sent ++ [buf] }
    match a.ioctlError with
    | some e =>
      (.error ⟨.mailbox, "mailbox ioctl for tag " ++ hex32 tag ++ " failed: " ++ e⟩, s)
    | none =>
      if a.status ≠ kRequestSucceeded then
        (.error ⟨.mailbox, "firmware rejected tag " ++ hex32 tag ++ " (status " ++
          hex32 a.status ++ ")"⟩, s)
      else if !a.handled then
        (.error ⟨.mailbox, "firmware does not implement tag " ++ hex32 tag ++
          "; this SoC or bootloader does not support it"⟩, s)
      else (.ok (out.take words), s)

def kVcio : String := "/dev/vcio"

def writeDevice : String := if env.provisioning then "/dev/vcio_provisioning" else kVcio

/-- The rows through nvmem, where it has them. -/
def readNvmemRows (start count : ℕ) : OtpM (Option (List Word)) := fun s =>
  (.ok (if env.nvmem s.calls then some (s.otp.rows start count) else none),
    { s with calls := s.calls + 1 })

def readCustomerOtp (start count : Word) : OtpM (List Word) := do
  if count = 0 then FailM.fail ⟨.check, "asked for no rows"⟩
  else if kCustomerRows ≤ start ∨ kCustomerRows - start < count then
    FailM.fail ⟨.check, "rows " ++ toString start.toNat ++ "-" ++
      toString (start + count - 1).toNat ++ " are outside the customer region, which is rows 0-" ++
      toString (kCustomerRows - 1).toNat⟩
  else match ← readNvmemRows env start.toNat count.toNat with
    | some rows => return rows
    | none => do
      let value ← mboxProperty env kVcio kTagGetCustomerOtp (8 + count * 4) [start, count]
      return (value.drop 2).take count.toNat

inductive WriteOutcome
  | programmed
  | alreadyMatches
  deriving DecidableEq, Repr

/-- The first row that holds another value than the requested one, and not zero. -/
def conflict (start : Word) : List Word → List Word → ℕ → Option Failure
  | c :: current, v :: values, i =>
    if c ≠ v ∧ c ≠ 0 then
      some ⟨.check, "customer row " ++ toString (start + BitVec.ofNat 32 i).toNat ++
        " already holds " ++ hex32 c ++ "; OTP bits cannot be cleared to write " ++ hex32 v⟩
    else conflict start current values (i + 1)
  | _, _, _ => none

/-- The first row that does not read back as it was written. -/
def mismatch (start : Word) : List Word → List Word → ℕ → Option Failure
  | w :: written, v :: values, i =>
    if w ≠ v then
      some ⟨.readBack, "wrote " ++ hex32 v ++ " to customer row " ++
        toString (start + BitVec.ofNat 32 i).toNat ++ " but it reads back as " ++ hex32 w⟩
    else mismatch start written values (i + 1)
  | _, _, _ => none

def writeCustomerOtp (start : Word) (values : List Word) : OtpM WriteOutcome := do
  let count := BitVec.ofNat 32 values.length
  let current ← readCustomerOtp env start count
  match conflict start current values 0 with
  | some f => FailM.fail f
  | none =>
    if current = values then return .alreadyMatches
    else do
      let _ ← mboxProperty env (writeDevice env) kTagSetCustomerOtp (8 + count * 4)
        ([start, count] ++ values)
      let written ← readCustomerOtp env start count
      match mismatch start written values 0 with
      | some f => FailM.fail f
      | none => return .programmed

def getCustomerMac (iface : MacInterface) : OtpM Mac := do
  let value ← mboxProperty env kVcio (kTagGetCustomerMac + macTagOffset iface) kMacValueBytes [0, 0]
  return macFromWords value

def setCustomerMac (iface : MacInterface) (mac : Mac) : OtpM WriteOutcome := do
  match validateMac mac with
  | .error f => FailM.fail f
  | .ok () =>
    let current ← getCustomerMac env iface
    if current = mac then return .alreadyMatches
    else if !macIsBlank current then
      FailM.fail ⟨.check, "customer " ++ macInterfaceName iface ++ " MAC is already programmed as " ++
        formatMac current ++ "; OTP bits cannot be cleared to write " ++ formatMac mac⟩
    else
      let _ ← mboxProperty env (writeDevice env) (kTagSetCustomerMac + macTagOffset iface)
        kMacValueBytes (macToWords mac)
      let written ← getCustomerMac env iface
      if written ≠ mac then
        FailM.fail ⟨.readBack, "wrote " ++ formatMac mac ++ " but the row reads back as " ++
          formatMac written⟩
      else return .programmed

end

end RpiFastbootd
