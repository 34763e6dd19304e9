import RpiFastbootd.Fastboot.TcpSession
import RpiFastbootd.Libsparse.Written

/-!
# The driver of the host

`FastBootDriver` sends commands and data over a transport and reads the responses.  A transport is
given by its calls and by what it keeps between them; a call may fail or be short.  The wait for a
response goes on over INFO and TEXT, until it has taken too long; the number of responses that are
looked at is bounded by a fuel here.

`flash_partition_files` downloads and flashes the pieces of an image one after the other, and the
tool ends with the first command that fails.
-/

namespace RpiFastbootd

inductive RetCode
  | success
  | badArg
  | ioError
  | badDevResp
  | deviceFail
  | timeout
  deriving DecidableEq, Repr

/-- The transport of a host that keeps a `σ`: a number of bytes or -1 for `Write`, the bytes or -1 for
`Read`, the text of the last error, and whether the wait for a response has taken too long. -/
structure Transport (σ : Type) where
  write : σ → List Byte → Option ℕ × σ
  read : σ → ℕ → Option (List Byte) × σ
  strerror : σ → String
  late : σ → Bool × σ

/-- The fields of a `FastBootDriver` that its calls change, and whether it checks lengths. -/
structure FastBootDriver (σ : Type) where
  transport : σ
  error : String := ""
  disableChecks : Bool := false
  deriving DecidableEq

/-- What `HandleResponse` gives beside its code. -/
structure Reply where
  code : RetCode := .success
  response : List Byte := []
  info : List (List Byte) := []
  dsize : ℤ := 0
  deriving DecidableEq, Repr

/-- Why a call of the driver does not return; `outOfFuel` is no end of the source. -/
inductive HostStop
  | fault (f : Fault)
  | outOfFuel
  deriving DecidableEq, Repr

def liftFault {α : Type} : Except Fault α → Except HostStop α
  | .ok a => .ok a
  | .error f => .error (.fault f)

def kCommandSize : ℕ := 4096

def kMaxDownloadSize : ℕ := 2 ^ 32 - 1

def kTransportChunkSize : ℕ := 1024

/-! ### Responses -/

inductive ReplyKind
  | info
  | okay
  | fail
  | text
  | data
  | unknown
  deriving DecidableEq, Repr

/-- What a response starts with. -/
def replyKind (input : List Byte) : ReplyKind :=
  if (bytesOf "INFO").isPrefixOf input then .info
  else if (bytesOf "OKAY").isPrefixOf input then .okay
  else if (bytesOf "FAIL").isPrefixOf input then .fail
  else if (bytesOf "TEXT").isPrefixOf input then .text
  else if (bytesOf "DATA").isPrefixOf input then .data
  else .unknown

/-- The bytes of a buffer up to the first zero. -/
def cString (bytes : List Byte) : List Byte := bytes.takeWhile (· ≠ 0)

/-- `strtol` to the base 16. -/
def strtolHex (s : String) : ℤ :=
  let rest := s.toList.dropWhile isSpace
  let (sign, rest) : ℤ × List Char := match rest with
    | '-' :: rest => (-1, rest)
    | '+' :: rest => (1, rest)
    | _ => (1, rest)
  let isDigit (c : Char) : Bool := (digitValue 16 c).isSome
  let rest := match rest with
    | '0' :: 'x' :: c :: more => if isDigit c then c :: more else rest
    | '0' :: 'X' :: c :: more => if isDigit c then c :: more else rest
    | _ => rest
  let value := (rest.takeWhile isDigit).foldl (fun n c => n * 16 + (digitValue 16 c).getD 0) 0
  max (-2 ^ 63) (min (2 ^ 63 - 1) (sign * (value : ℤ)))

section

variable {σ : Type} (T : Transport σ)

namespace Transport

def errnoStr (st : σ) (msg : String) : String := msg ++ " (" ++ T.strerror st ++ ")"

end Transport

namespace FastBootDriver

/-- The loop of `HandleResponse`.  The number of a DATA response is cut to 32 bits, and none of these
is above `MAX_DOWNLOAD_SIZE`. -/
def handleResponse : ℕ → Reply → FastBootDriver σ → Except HostStop (Reply × FastBootDriver σ)
  | 0, _, _ => .error .outOfFuel
  | fuel + 1, reply, d =>
    match T.late d.transport with
    | (true, st) => return ({ reply with code := .timeout }, { d with transport := st })
    | (false, st) =>
      match T.read st kResponseSize with
      | (none, st) =>
        return ({ reply with code := .ioError },
          { d with transport := st, error := T.errnoStr st "Status read failed" })
      | (some bytes, st) =>
        let d := { d with transport := st }
        let input := cString bytes
        let tmp := input.drop 4
        match replyKind input with
        | .info => handleResponse fuel { reply with info := reply.info ++ [tmp] } d
        | .okay => return ({ reply with code := .success, response := tmp }, d)
        | .fail =>
          return ({ reply with code := .deviceFail, response := tmp },
            { d with error := "remote: '" ++ FastbootDevice.text tmp ++ "'" })
        | .text => handleResponse fuel reply d
        | .data =>
          return ({ reply with
            code := .success, response := tmp
            dsize := (BitVec.ofInt 32 (strtolHex (FastbootDevice.text tmp))).toInt }, d)
        | .unknown =>
          return ({ reply with code := .badDevResp },
            { d with
              error := "Device sent unknown status code: " ++ FastbootDevice.text input })

/-! ### Commands and data -/

/-- `RawCommand`. -/
def rawCommand (fuel : ℕ) (cmd : String) (d : FastBootDriver σ) :
    Except HostStop (Reply × FastBootDriver σ) :=
  if kCommandSize < cmd.length ∧ d.disableChecks = false then
    return ({ code := .badArg },
      { d with error := "Command length to RawCommand() is too long" })
  else
    match T.write d.transport (bytesOf cmd) with
    | (n, st) =>
      if n = some cmd.length then
        handleResponse T fuel {} { d with transport := st, error := "" }
      else
        return ({ code := .ioError },
          { d with transport := st, error := T.errnoStr st "Write to device failed" })

def downloadText (size : ℕ) : String := "download:" ++ hexText 8 size

def downloadCommand (fuel size : ℕ) (d : FastBootDriver σ) :
    Except HostStop (Reply × FastBootDriver σ) := rawCommand T fuel (downloadText size) d

def flashText (partition : String) : String := "flash:" ++ partition

def flash (fuel : ℕ) (partition : String) (d : FastBootDriver σ) :
    Except HostStop (Reply × FastBootDriver σ) := rawCommand T fuel (flashText partition) d

def sendBuffer (bytes : List Byte) (d : FastBootDriver σ) : RetCode × FastBootDriver σ :=
  if bytes = [] then (.badArg, d)
  else
    match T.write d.transport bytes with
    | (none, st) =>
      (.ioError,
        { d with
          transport := st
          error := T.errnoStr st "Write to device failed in SendBuffer()" })
    | (some n, st) =>
      if n = bytes.length then (.success, { d with transport := st })
      else
        (.ioError,
          { d with
            transport := st
            error := "Failed to write all " ++ toString bytes.length ++ " bytes" })

/-- `SparseWriteCallback`: what is written is gathered, and sent in a number of whole chunks. -/
def sparseWriteCallback (st : FastBootDriver σ × List Byte) (data : List Byte) :
    Bool × FastBootDriver σ × List Byte :=
  let (d, tpbuf) := st
  let toWrite := min (kTransportChunkSize - tpbuf.length) data.length
  let tpbuf := tpbuf ++ data.take toWrite
  if tpbuf.length < kTransportChunkSize then (true, d, tpbuf)
  else
    let failed (d : FastBootDriver σ) : FastBootDriver σ :=
      { d with error := T.errnoStr d.transport "Send failed in SparseWriteCallback()" }
    match sendBuffer T tpbuf d with
    | (.success, d) =>
      let rest := data.drop toWrite
      let nbytes := kTransportChunkSize * (rest.length / kTransportChunkSize)
      if nbytes = 0 then (true, d, rest)
      else
        match sendBuffer T (rest.take nbytes) d with
        | (.success, d) => (true, d, rest.drop nbytes)
        | (_, d) => (false, failed d, [])
    | (_, d) => (false, failed d, tpbuf)

/-- `Download` of a sparse file. -/
def download (fuel : ℕ) (image : List Byte) (s : FdSparseFile) (d : FastBootDriver σ) :
    Except HostStop (Reply × FastBootDriver σ) := do
  let d := { d with error := "" }
  let size ← liftFault (sparseFileLenSparse image s)
  if size ≤ 0 ∨ kMaxDownloadSize < size then
    return ({ code := .badArg }, { d with error := "Sparse file is too large or invalid" })
  else
    match ← downloadCommand T fuel size.toNat d with
    | (reply, d) =>
      if reply.code = .success then
        match ← liftFault (sparseFileCallback (sparseWriteCallback T) image s (d, [])) with
        | (false, d, _) =>
          return ({ reply with code := .ioError }, { d with error := "Error reading sparse file" })
        | (true, d, tpbuf) =>
          if tpbuf = [] then handleResponse T fuel {} d
          else
            match sendBuffer T tpbuf d with
            | (.success, d) => handleResponse T fuel {} d
            | (code, d) => return ({ reply with code }, d)
      else return (reply, d)

end FastBootDriver

/-! ### The tool -/

/-- How the tool ends: a command that fails ends it with the error of the driver, and a length that
cannot be computed ends it at once. -/
inductive Ended
  | done
  | died (error : String)
  | fatal
  deriving DecidableEq, Repr

/-- `flash_partition_files`.  The codes that `FlashPartition` returns are lost here, but `Epilog` has
looked at them. -/
def flashPartitionFiles (fuel : ℕ) (image : List Byte) (partition : String) :
    List FdSparseFile → FastBootDriver σ → Except HostStop (Ended × FastBootDriver σ)
  | [], d => return (.done, d)
  | s :: rest, d => do
    let size ← liftFault (sparseFileLenSparse image s)
    if size < 0 then return (.fatal, d)
    else
      match ← FastBootDriver.download T fuel image s d with
      | (reply, d) =>
        if reply.code = .success then
          match ← FastBootDriver.flash T fuel partition d with
          | (reply, d) =>
            if reply.code = .success then flashPartitionFiles fuel image partition rest d
            else return (.died d.error, d)
        else return (.died d.error, d)

end

end RpiFastbootd
