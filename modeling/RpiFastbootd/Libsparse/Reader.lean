import RpiFastbootd.Libsparse.BackedBlock

/-!
# Reading a sparse image

`sparse_file_import_buf` reads the header of an image and then its chunks, one after the other, and
queues the blocks of raw and fill chunks.  The number of the next block is kept in 32 bits.  A chunk
of an unknown type is passed over with its header only.

`Begins` says what the format is, without the reader: an image begins with some chunks if its bytes
are the header and the bytes of these chunks, and then whatever follows.
-/

namespace RpiFastbootd

def kSparseHeaderMagic : ℕ := 0xed26ff3a
def kSparseHeaderLen : ℕ := 28
def kChunkHeaderLen : ℕ := 12

def kChunkTypeRaw : ℕ := 0xCAC1
def kChunkTypeFill : ℕ := 0xCAC2
def kChunkTypeDontCare : ℕ := 0xCAC3
def kChunkTypeCrc32 : ℕ := 0xCAC4

/-- A `sparse_header_t`, without the fields that are not read. -/
structure SparseHeader where
  magic : ℕ
  majorVersion : ℕ
  fileHdrSz : ℕ
  chunkHdrSz : ℕ
  blkSz : ℕ
  totalBlks : ℕ
  totalChunks : ℕ
  deriving DecidableEq, Repr

def SparseHeader.ofBytes (b : List Byte) : SparseHeader where
  magic := (le32 b 0).toNat
  majorVersion := (le16 b 4).toNat
  fileHdrSz := (le16 b 8).toNat
  chunkHdrSz := (le16 b 10).toNat
  blkSz := (le32 b 12).toNat
  totalBlks := (le32 b 16).toNat
  totalChunks := (le32 b 20).toNat

/-- A `chunk_header_t`. -/
structure ChunkHeader where
  chunkType : ℕ
  chunkSz : ℕ
  totalSz : ℕ
  deriving DecidableEq, Repr

def ChunkHeader.ofBytes (b : List Byte) : ChunkHeader where
  chunkType := (le16 b 0).toNat
  chunkSz := (le32 b 4).toNat
  totalSz := (le32 b 8).toNat

/-- How the reader fails: it refuses the image, an assertion fails, or a signed product overflows. -/
inductive Fault
  | rejected
  | assertion
  | undefined
  deriving DecidableEq, Repr

structure SparseFile where
  blockSize : ℕ
  len : ℕ
  backedBlockList : BackedBlockList
  deriving DecidableEq, Repr

namespace SparseFile

/-- `sparse_file_new`. -/
def new (blockSize len : ℕ) : SparseFile where
  blockSize := blockSize
  len := len
  backedBlockList := { blockSize := blockSize }

/-- `backed_block_add_data` and `backed_block_add_fill`. -/
def add (s : SparseFile) (backing : Backing) (len block : ℕ) : Except Fault SparseFile :=
  match s.backedBlockList.queueBB ⟨block, len, backing⟩ with
  | none => .error .assertion
  | some l => .ok { s with backedBlockList := l }

end SparseFile

/-! ### The source: the bytes of the buffer that are left -/

def accessOkay (len : ℕ) (buf : List Byte) : Bool := 0 < len ∧ len ≤ buf.length

def seek (len : ℕ) (buf : List Byte) : Except Fault (List Byte) :=
  if accessOkay len buf then .ok (buf.drop len) else .error .rejected

def readValue (len : ℕ) (buf : List Byte) : Except Fault (List Byte × List Byte) :=
  if accessOkay len buf then .ok (buf.take len, buf.drop len) else .error .rejected

/-- `(int64_t)blocks * block_size`. -/
def signedProduct (blocks blockSize : ℕ) : Except Fault ℕ :=
  if blocks * blockSize < 2 ^ 63 then .ok (blocks * blockSize) else .error .undefined

/-! ### Chunks -/

/-- `AddToSparseFile`: a block with the next bytes of the buffer. -/
def addToSparseFile (s : SparseFile) (buf : List Byte) (len block : ℕ) : Except Fault SparseFile :=
  if accessOkay len buf then s.add (.data (buf.take len)) len block else .error .rejected

def processRawChunk (s : SparseFile) (chunkSize : ℕ) (buf : List Byte) (blocks block : ℕ) :
    Except Fault (SparseFile × List Byte) := do
  let len ← signedProduct blocks s.blockSize
  if chunkSize % s.blockSize ≠ 0 then throw .rejected
  else if chunkSize / s.blockSize ≠ blocks then throw .rejected
  else do
    let s ← addToSparseFile s buf len block
    let buf ← seek len buf
    return (s, buf)

def processFillChunk (s : SparseFile) (chunkSize : ℕ) (buf : List Byte) (blocks block : ℕ) :
    Except Fault (SparseFile × List Byte) := do
  let len ← signedProduct blocks s.blockSize
  if chunkSize ≠ 4 then throw .rejected
  else do
    let (fillVal, buf) ← readValue 4 buf
    let s ← s.add (.fill fillVal) len block
    return (s, buf)

def processSkipChunk (s : SparseFile) (chunkSize : ℕ) (buf : List Byte) :
    Except Fault (SparseFile × List Byte) :=
  if chunkSize ≠ 0 then .error .rejected else .ok (s, buf)

/-- Without a checksum to compare with. -/
def processCrc32Chunk (s : SparseFile) (chunkSize : ℕ) (buf : List Byte) :
    Except Fault (SparseFile × List Byte) := do
  if chunkSize ≠ 4 then throw .rejected
  else do
    let (_, buf) ← readValue 4 buf
    return (s, buf)

/-- `process_chunk`: the number of blocks that it returns, the file and the rest of the buffer. -/
def processChunk (s : SparseFile) (buf : List Byte) (chunkHdrSz : ℕ) (header : ChunkHeader)
    (curBlock : ℕ) : Except Fault (ℕ × SparseFile × List Byte) := do
  let chunkDataSize := (header.totalSz + (2 ^ 32 - chunkHdrSz)) % 2 ^ 32
  if header.chunkType = kChunkTypeRaw then
    return (header.chunkSz, ← processRawChunk s chunkDataSize buf header.chunkSz curBlock)
  else if header.chunkType = kChunkTypeFill then
    return (header.chunkSz, ← processFillChunk s chunkDataSize buf header.chunkSz curBlock)
  else if header.chunkType = kChunkTypeDontCare then
    return (header.chunkSz, ← processSkipChunk s chunkDataSize buf)
  else if header.chunkType = kChunkTypeCrc32 then
    return (0, ← processCrc32Chunk s chunkDataSize buf)
  else return (0, s, buf)

/-- The remaining bytes of a header that is longer than expected are passed over. -/
def skipLonger (size expected : ℕ) (buf : List Byte) : Except Fault (List Byte) :=
  if expected < size then seek (size - expected) buf else .ok buf

def readChunkHeader (h : SparseHeader) (buf : List Byte) :
    Except Fault (ChunkHeader × List Byte) := do
  let (header, buf) ← readValue kChunkHeaderLen buf
  let buf ← skipLonger h.chunkHdrSz kChunkHeaderLen buf
  return (ChunkHeader.ofBytes header, buf)

/-- The loop of `sparse_file_read_sparse`, with the number of chunks that are left.  The number that
`process_chunk` returns is an `int`, and an error if that is negative. -/
def readChunks (h : SparseHeader) :
    ℕ → SparseFile → List Byte → ℕ → Except Fault (SparseFile × ℕ)
  | 0, s, _, curBlock => return (s, curBlock)
  | n + 1, s, buf, curBlock => do
    let (header, buf) ← readChunkHeader h buf
    let (blocks, s, buf) ← processChunk s buf h.chunkHdrSz header curBlock
    if 2 ^ 31 ≤ blocks then throw .rejected
    else readChunks h n s buf ((curBlock + blocks) % 2 ^ 32)

/-- The chunks of an image, which have to add up to its number of blocks. -/
def readBody (h : SparseHeader) (s : SparseFile) (buf : List Byte) : Except Fault SparseFile := do
  let (s, curBlock) ← readChunks h h.totalChunks s buf 0
  if h.totalBlks ≠ curBlock then throw .rejected else return s

/-- `sparse_file_read_sparse`. -/
def sparseFileReadSparse (s : SparseFile) (buf : List Byte) : Except Fault SparseFile := do
  let (header, buf) ← readValue kSparseHeaderLen buf
  let h := SparseHeader.ofBytes header
  if h.magic ≠ kSparseHeaderMagic then throw .rejected
  else if h.majorVersion ≠ 1 then throw .rejected
  else if h.fileHdrSz < kSparseHeaderLen then throw .rejected
  else if h.chunkHdrSz < kChunkHeaderLen then throw .rejected
  else do
    let buf ← skipLonger h.fileHdrSz kSparseHeaderLen buf
    readBody h s buf

/-- `sparse_file_import_buf`; it gives no file where it rejects. -/
def sparseFileImportBuf (buf : List Byte) : Except Fault SparseFile := do
  let (header, _) ← readValue kSparseHeaderLen buf
  let h := SparseHeader.ofBytes header
  if h.magic ≠ kSparseHeaderMagic then throw .rejected
  else if h.majorVersion ≠ 1 then throw .rejected
  else if h.fileHdrSz < kSparseHeaderLen then throw .rejected
  else if h.chunkHdrSz < kChunkHeaderLen then throw .rejected
  else if h.blkSz = 0 ∨ h.blkSz % 4 ≠ 0 then throw .rejected
  else if h.totalBlks = 0 then throw .rejected
  else do
    let len ← signedProduct h.totalBlks h.blkSz
    sparseFileReadSparse (.new h.blkSz len) buf

/-! ### The format -/

/-- A chunk of a known type. -/
inductive SparseChunk
  | raw (blocks : ℕ) (bytes : List Byte)
  | fill (blocks : ℕ) (val : List Byte)
  | dontCare (blocks : ℕ)
  | crc32 (checksum : List Byte)
  deriving DecidableEq, Repr

namespace SparseChunk

/-- The blocks of the expansion that a chunk stands for. -/
def blocks : SparseChunk → ℕ
  | raw n _ => n
  | fill n _ => n
  | dontCare n => n
  | crc32 _ => 0

/-- What a chunk puts into its blocks. -/
def backing : SparseChunk → Option Backing
  | raw _ bytes => some (.data bytes)
  | fill _ val => some (.fill val)
  | dontCare _ => none
  | crc32 _ => none

/-- A chunk with its header and the bytes behind the header. -/
inductive Encodes (blkSz : ℕ) (header : ChunkHeader) : SparseChunk → List Byte → Prop
  | raw {bytes : List Byte} (htype : header.chunkType = kChunkTypeRaw)
      (hlength : bytes.length = header.chunkSz * blkSz) :
      Encodes blkSz header (.raw header.chunkSz bytes) bytes
  | fill {val : List Byte} (htype : header.chunkType = kChunkTypeFill) (hlength : val.length = 4) :
      Encodes blkSz header (.fill header.chunkSz val) val
  | dontCare (htype : header.chunkType = kChunkTypeDontCare) :
      Encodes blkSz header (.dontCare header.chunkSz) []
  | crc32 {checksum : List Byte} (htype : header.chunkType = kChunkTypeCrc32)
      (hlength : checksum.length = 4) : Encodes blkSz header (.crc32 checksum) checksum

end SparseChunk

/-- The header of an image. -/
def sparseHeader (b : List Byte) : SparseHeader := .ofBytes (b.take kSparseHeaderLen)

/-- The header describes an image. -/
structure SparseHeader.Valid (h : SparseHeader) : Prop where
  magic : h.magic = kSparseHeaderMagic
  majorVersion : h.majorVersion = 1
  fileHdrSz : kSparseHeaderLen ≤ h.fileHdrSz
  chunkHdrSz : kChunkHeaderLen ≤ h.chunkHdrSz
  blkSz : h.blkSz ≠ 0
  aligned : h.blkSz % 4 = 0
  totalBlks : h.totalBlks ≠ 0

/-- The bytes of an image are a header, some chunks, and what follows them. -/
inductive Begins (b : List Byte) : List SparseChunk → List Byte → Prop
  | header (hlength : (sparseHeader b).fileHdrSz ≤ b.length) :
      Begins b [] (b.drop (sparseHeader b).fileHdrSz)
  | chunk {chunks : List SparseChunk} {c : SparseChunk} {header extra payload rest : List Byte}
      (h : Begins b chunks (header ++ extra ++ (payload ++ rest)))
      (hheader : header.length = kChunkHeaderLen)
      (hextra : extra.length = (sparseHeader b).chunkHdrSz - kChunkHeaderLen)
      (htotal : (ChunkHeader.ofBytes header).totalSz =
        ((sparseHeader b).chunkHdrSz + payload.length) % 2 ^ 32)
      (hchunk : c.Encodes (sparseHeader b).blkSz (.ofBytes header) payload) :
      Begins b (chunks ++ [c]) rest

/-- The blocks of some chunks. -/
def blockCount (chunks : List SparseChunk) : ℕ := (chunks.map SparseChunk.blocks).sum

/-- The image has as many chunks as its header says, all of known types, and as many blocks. -/
structure WellFormed (b : List Byte) (chunks : List SparseChunk) : Prop where
  header : (sparseHeader b).Valid
  begins : ∃ rest, Begins b chunks rest
  length : chunks.length = (sparseHeader b).totalChunks
  blocks : blockCount chunks = (sparseHeader b).totalBlks

/-- Where the chunks that put something into their blocks start. -/
def starts : ℕ → List SparseChunk → List ℕ
  | _, [] => []
  | start, c :: chunks =>
    if c.backing.isSome then start :: starts (start + c.blocks) chunks
    else starts (start + c.blocks) chunks

/-- What an image gives to a device. -/
def paintChunks (blkSz : ℕ) : ℕ → List SparseChunk → Layer → Layer
  | _, [], layer => layer
  | start, c :: chunks, layer =>
    paintChunks blkSz (start + c.blocks) chunks
      (match c.backing with
      | some backing => layer.put (start * blkSz) (c.blocks * blkSz) backing.byte
      | none => layer)

section

variable {start : ℕ} {chunks : List SparseChunk} {c : SparseChunk}

theorem blockCount_concat : blockCount (chunks ++ [c]) = blockCount chunks + c.blocks := by
  simp [blockCount]

theorem blockCount_cons : blockCount (c :: chunks) = c.blocks + blockCount chunks := by
  simp [blockCount]

theorem starts_concat :
    starts start (chunks ++ [c]) =
      starts start chunks ++ if c.backing.isSome then [start + blockCount chunks] else [] := by
  induction chunks generalizing start with
  | nil =>
    simp only [List.nil_append, starts, blockCount, List.map_nil, List.sum_nil, Nat.add_zero]
  | cons d chunks ih =>
    rw [List.cons_append, starts, starts, ih, blockCount_cons, Nat.add_assoc]
    split_ifs <;> simp

theorem le_of_mem_starts {n : ℕ} (h : n ∈ starts start chunks) : n ≤ start + blockCount chunks := by
  induction chunks generalizing start with
  | nil => cases h
  | cons d chunks ih =>
    rw [starts] at h
    rw [blockCount_cons]
    split_ifs at h
    · obtain rfl | h := List.mem_cons.1 h
      · omega
      · have := ih h
        omega
    · have := ih h
      omega

theorem paintChunks_concat {blkSz : ℕ} {layer : Layer} :
    paintChunks blkSz start (chunks ++ [c]) layer =
      match c.backing with
      | some backing =>
        (paintChunks blkSz start chunks layer).put ((start + blockCount chunks) * blkSz)
          (c.blocks * blkSz) backing.byte
      | none => paintChunks blkSz start chunks layer := by
  induction chunks generalizing start layer with
  | nil => rfl
  | cons d chunks ih =>
    rw [List.cons_append, paintChunks, paintChunks, ih, blockCount_cons, Nat.add_assoc]

end

end RpiFastbootd
