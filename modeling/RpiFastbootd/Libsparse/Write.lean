import RpiFastbootd.Libsparse.Encode
import RpiFastbootd.Libsparse.FileBlock
import RpiFastbootd.Libsparse.Output

/-!
# Writing the sparse format

`sparse_file_callback` writes a file as a sparse image: a header, which announces the chunks that
`sparse_count_chunks` has counted, and then, for each block, a chunk and before it one for the gap if
there is one.  The callback takes some bytes and may fail; what a failed skip returns is lost.

A callback that takes everything gets the bytes of one image (`Collects.sparseFileCallback`), and
`sparse_file_len` is their number (`sparseFileLenSparse_eq`).
-/

namespace RpiFastbootd

/-- A block and the number of the one behind it. -/
def FileBlock.next (blockSize : ℕ) (bb : FileBlock) : ℕ :=
  (bb.block + divRoundUp bb.len blockSize) % 2 ^ 32

/-- The loop of `sparse_count_chunks`. -/
def countLoop (blockSize : ℕ) : List FileBlock → (lastBlock chunks : ℕ) → ℕ × ℕ
  | [], lastBlock, chunks => (lastBlock, chunks)
  | bb :: rest, lastBlock, chunks =>
    countLoop blockSize rest (bb.next blockSize)
      (if lastBlock < bb.block then chunks + 2 else chunks + 1)

/-- `sparse_count_chunks`. -/
def sparseCountChunks (s : FdSparseFile) : ℕ :=
  let (lastBlock, chunks) := countLoop s.blockSize s.dataBlocks 0 0
  (if lastBlock < divRoundUp s.len s.blockSize then chunks + 1 else chunks) % 2 ^ 32

/-- The header that `output_file_init` writes, without a checksum. -/
def outputHeader (s : FdSparseFile) : SparseHeader where
  magic := kSparseHeaderMagic
  majorVersion := 1
  fileHdrSz := kSparseHeaderLen
  chunkHdrSz := kChunkHeaderLen
  blkSz := s.blockSize
  totalBlks := divRoundUp s.len s.blockSize
  totalChunks := sparseCountChunks s

def kMaxMmapSize : ℕ := 256 * 1024 * 1024

/-- The regions in which a part of the file is mapped. -/
def mappedRanges (image : List Byte) : (offset : ℕ) → (lens : List ℕ) → List (List Byte)
  | _, [] => []
  | offset, n :: lens => slice image offset n :: mappedRanges image (offset + n) lens

section

variable {σ : Type} (write : σ → List Byte → Bool × σ)

/-- Calls one after the other, up to the first that fails. -/
def writeParts : List (List Byte) → σ → Bool × σ
  | [], st => (true, st)
  | p :: rest, st =>
    match write st p with
    | (true, st) => writeParts rest st
    | (false, st) => (false, st)

/-- `write_sparse_skip_chunk`. -/
def writeSparseSkipChunk (blockSize skipLen : ℕ) (st : σ) : Bool × σ :=
  if skipLen % blockSize ≠ 0 then (false, st)
  else
    writeParts write
      [ChunkHeader.bytes ⟨kChunkTypeDontCare, skipLen / blockSize, kChunkHeaderLen⟩] st

/-- `write_sparse_fill_chunk`. -/
def writeSparseFillChunk (blockSize len : ℕ) (val : List Byte) (st : σ) : Bool × σ :=
  let rndUpLen := wrap (blockSize * divRoundUp len blockSize)
  writeParts write
    [ChunkHeader.bytes ⟨kChunkTypeFill, rndUpLen / blockSize, kChunkHeaderLen + 4⟩, val] st

/-- `write_sparse_fd_chunk`: a header, the region of the file and zeros up to a whole block. -/
def writeSparseFdChunk (image : List Byte) (blockSize len offset : ℕ) (st : σ) : Bool × σ :=
  let rndUpLen := wrap (blockSize * divRoundUp len blockSize)
  writeParts write
    (ChunkHeader.bytes ⟨kChunkTypeRaw, rndUpLen / blockSize, kChunkHeaderLen + rndUpLen⟩ ::
      (mappedRanges image offset (pieces kMaxMmapSize len) ++
        (pieces kFillZeroBufSize (rndUpLen - len)).map fun n => List.replicate n 0)) st

/-- `sparse_file_write_block`. -/
def writeSparseBlock (image : List Byte) (blockSize : ℕ) (bb : FileBlock) (st : σ) : Bool × σ :=
  match bb.backing with
  | .fd offset => writeSparseFdChunk write image blockSize bb.len offset st
  | .fill val => writeSparseFillChunk write blockSize bb.len val st

/-- The skip before a block, whose code `write_all_blocks` does not look at. -/
def writeSparseGap (blockSize lastBlock block : ℕ) (st : σ) : Except Fault σ :=
  if lastBlock < block then do
    let off ← signedProduct (block - lastBlock) blockSize
    return (writeSparseSkipChunk write blockSize off st).2
  else return st

/-- The loop of `write_all_blocks`: the code, the state and the block after the last one. -/
def writeSparseBlocks (image : List Byte) (blockSize : ℕ) :
    List FileBlock → ℕ → σ → Except Fault (Bool × σ × ℕ)
  | [], lastBlock, st => return (true, st, lastBlock)
  | bb :: rest, lastBlock, st => do
    let st ← writeSparseGap write blockSize lastBlock bb.block st
    match writeSparseBlock write image blockSize bb st with
    | (true, st) => writeSparseBlocks image blockSize rest (bb.next blockSize) st
    | (false, st) => return (false, st, lastBlock)

/-- `write_all_blocks` of a file of blocks. -/
def writeAllSparse (image : List Byte) (s : FdSparseFile) (st : σ) : Except Fault (Bool × σ) := do
  match ← writeSparseBlocks write image s.blockSize s.dataBlocks 0 st with
  | (true, st, lastBlock) =>
    let used ← signedProduct lastBlock s.blockSize
    if s.len < used then throw .assertion
    else if used < s.len then
      return (true, (writeSparseSkipChunk write s.blockSize (s.len - used) st).2)
    else return (true, st)
  | (false, st, _) => return (false, st)

/-- `sparse_file_callback` of the sparse format, without a checksum. -/
def sparseFileCallback (image : List Byte) (s : FdSparseFile) (st : σ) :
    Except Fault (Bool × σ) :=
  match write st (outputHeader s).bytes with
  | (true, st) => writeAllSparse write image s st
  | (false, st) => return (false, st)

end

/-- A callback that keeps what it is given. -/
def keepBytes (kept bytes : List Byte) : Bool × List Byte := (true, kept ++ bytes)

/-- What `sparse_file_callback` writes of a file. -/
def writtenBytes (image : List Byte) (s : FdSparseFile) : Except Fault (List Byte) := do
  return (← sparseFileCallback keepBytes image s []).2

/-- `out_counter_write`. -/
def countBytes (count : ℕ) (bytes : List Byte) : Bool × ℕ := (true, wrap (count + bytes.length))

/-- `sparse_file_len` of the sparse format; -1 for an error. -/
def sparseFileLenSparse (image : List Byte) (s : FdSparseFile) : Except Fault ℤ := do
  match ← sparseFileCallback countBytes image s 0 with
  | (true, count) => return (BitVec.ofNat 64 count).toInt
  | (false, _) => return -1

end RpiFastbootd
