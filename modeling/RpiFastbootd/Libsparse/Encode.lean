import Mathlib.Data.List.Induction
import RpiFastbootd.Lib.WordBytes
import RpiFastbootd.Libsparse.Reader

/-!
# The bytes of an image

`SparseImage.bytes` are the header of an image and its chunks, each with its header.  An image whose
sizes fit into the fields of these headers is well formed (`SparseImage.wellFormed_bytes`).
-/

namespace RpiFastbootd

/-! ### Headers -/

/-- A `sparse_header_t` of version 1.0, without a checksum. -/
def SparseHeader.bytes (h : SparseHeader) : List Byte :=
  leBytes 4 h.magic ++ (leBytes 2 h.majorVersion ++ (leBytes 2 0 ++ (leBytes 2 h.fileHdrSz ++
    (leBytes 2 h.chunkHdrSz ++ (leBytes 4 h.blkSz ++ (leBytes 4 h.totalBlks ++
      (leBytes 4 h.totalChunks ++ leBytes 4 0)))))))

/-- A `chunk_header_t`. -/
def ChunkHeader.bytes (h : ChunkHeader) : List Byte :=
  leBytes 2 h.chunkType ++ (leBytes 2 0 ++ (leBytes 4 h.chunkSz ++ leBytes 4 h.totalSz))

/-- The numbers of a header fit into their fields. -/
structure SparseHeader.InRange (h : SparseHeader) : Prop where
  magic : h.magic < 2 ^ 32
  majorVersion : h.majorVersion < 2 ^ 16
  fileHdrSz : h.fileHdrSz < 2 ^ 16
  chunkHdrSz : h.chunkHdrSz < 2 ^ 16
  blkSz : h.blkSz < 2 ^ 32
  totalBlks : h.totalBlks < 2 ^ 32
  totalChunks : h.totalChunks < 2 ^ 32

structure ChunkHeader.InRange (h : ChunkHeader) : Prop where
  chunkType : h.chunkType < 2 ^ 16
  chunkSz : h.chunkSz < 2 ^ 32
  totalSz : h.totalSz < 2 ^ 32

@[simp] theorem SparseHeader.length_bytes (h : SparseHeader) : h.bytes.length = kSparseHeaderLen := by
  simp [SparseHeader.bytes, kSparseHeaderLen]

@[simp] theorem ChunkHeader.length_bytes (h : ChunkHeader) : h.bytes.length = kChunkHeaderLen := by
  simp [ChunkHeader.bytes, kChunkHeaderLen]

/-- A header is read as it was written: each field has the bytes of its number. -/
theorem SparseHeader.ofBytes_bytes {h : SparseHeader} (hrange : h.InRange) :
    SparseHeader.ofBytes h.bytes = h := by
  have hmagic : (le32 h.bytes 0).toNat = h.magic := le32_leBytes hrange.magic
  have hmajor : (le16 h.bytes 4).toNat = h.majorVersion := le16_leBytes hrange.majorVersion
  have hfile : (le16 h.bytes 8).toNat = h.fileHdrSz := le16_leBytes hrange.fileHdrSz
  have hchunk : (le16 h.bytes 10).toNat = h.chunkHdrSz := le16_leBytes hrange.chunkHdrSz
  have hblk : (le32 h.bytes 12).toNat = h.blkSz := le32_leBytes hrange.blkSz
  have hblks : (le32 h.bytes 16).toNat = h.totalBlks := le32_leBytes hrange.totalBlks
  have hchunks : (le32 h.bytes 20).toNat = h.totalChunks := le32_leBytes hrange.totalChunks
  rw [SparseHeader.ofBytes, hmagic, hmajor, hfile, hchunk, hblk, hblks, hchunks]

theorem ChunkHeader.ofBytes_bytes {h : ChunkHeader} (hrange : h.InRange) :
    ChunkHeader.ofBytes h.bytes = h := by
  have htype : (le16 h.bytes 0).toNat = h.chunkType := le16_leBytes hrange.chunkType
  have hsize : (le32 h.bytes 4).toNat = h.chunkSz := le32_leBytes hrange.chunkSz
  have htotal : (le32 h.bytes 8).toNat = h.totalSz := le32_leBytes hrange.totalSz
  rw [ChunkHeader.ofBytes, htype, hsize, htotal]

/-! ### Chunks -/

namespace SparseChunk

def chunkType : SparseChunk → ℕ
  | raw _ _ => kChunkTypeRaw
  | fill _ _ => kChunkTypeFill
  | dontCare _ => kChunkTypeDontCare
  | crc32 _ => kChunkTypeCrc32

/-- The bytes that stand behind the header of a chunk. -/
def payload : SparseChunk → List Byte
  | raw _ bytes => bytes
  | fill _ val => val
  | dontCare _ => []
  | crc32 checksum => checksum

def header (c : SparseChunk) : ChunkHeader where
  chunkType := c.chunkType
  chunkSz := c.blocks
  totalSz := kChunkHeaderLen + c.payload.length

def bytes (c : SparseChunk) : List Byte := c.header.bytes ++ c.payload

/-- The chunk has as many bytes as its type and its blocks ask for. -/
def Sized (blkSz : ℕ) : SparseChunk → Prop
  | raw n bytes => bytes.length = n * blkSz
  | fill _ val => val.length = 4
  | dontCare _ => True
  | crc32 checksum => checksum.length = 4

instance (blkSz : ℕ) : DecidablePred (Sized blkSz) := fun c => by
  cases c <;> unfold Sized <;> infer_instance

/-- The bytes of a chunk are those that its header says, and its sizes fit into the header. -/
structure Fits (blkSz : ℕ) (c : SparseChunk) : Prop where
  sized : c.Sized blkSz
  blocks : c.blocks < 2 ^ 32
  total : kChunkHeaderLen + c.payload.length < 2 ^ 32

variable {blkSz : ℕ} {c : SparseChunk}

theorem Fits.header (h : c.Fits blkSz) : ChunkHeader.ofBytes c.header.bytes = c.header := by
  refine ChunkHeader.ofBytes_bytes ⟨?_, h.blocks, h.total⟩
  cases c <;>
    simp [SparseChunk.header, chunkType, kChunkTypeRaw, kChunkTypeFill, kChunkTypeDontCare,
      kChunkTypeCrc32]

theorem Fits.encodes (h : c.Fits blkSz) :
    c.Encodes blkSz (.ofBytes c.header.bytes) c.payload := by
  rw [h.header]
  have hsized := h.sized
  cases c with
  | raw n bytes => exact .raw rfl hsized
  | fill n val => exact .fill rfl hsized
  | dontCare n => exact .dontCare rfl
  | crc32 checksum => exact .crc32 rfl hsized

end SparseChunk

/-! ### Images -/

structure SparseImage where
  blkSz : ℕ
  chunks : List SparseChunk
  deriving DecidableEq, Repr

namespace SparseImage

def header (image : SparseImage) : SparseHeader where
  magic := kSparseHeaderMagic
  majorVersion := 1
  fileHdrSz := kSparseHeaderLen
  chunkHdrSz := kChunkHeaderLen
  blkSz := image.blkSz
  totalBlks := blockCount image.chunks
  totalChunks := image.chunks.length

def bytes (image : SparseImage) : List Byte :=
  image.header.bytes ++ image.chunks.flatMap SparseChunk.bytes

/-- The image has blocks, and its sizes fit into its headers. -/
structure Fits (image : SparseImage) : Prop where
  blkSz : image.blkSz ≠ 0
  aligned : image.blkSz % 4 = 0
  blkSz_lt : image.blkSz < 2 ^ 32
  blocks : blockCount image.chunks ≠ 0
  blocks_lt : blockCount image.chunks < 2 ^ 32
  chunks_lt : image.chunks.length < 2 ^ 32
  chunks : ∀ c ∈ image.chunks, c.Fits image.blkSz

variable {image : SparseImage} {before after : List SparseChunk}

theorem Fits.sparseHeader_bytes (h : image.Fits) : sparseHeader image.bytes = image.header := by
  have htake : image.bytes.take kSparseHeaderLen = image.header.bytes := by
    rw [bytes, ← image.header.length_bytes, List.take_left]
  rw [sparseHeader, htake]
  have hmagic : kSparseHeaderMagic < 2 ^ 32 := by decide
  have hmajor : 1 < 2 ^ 16 := by decide
  have hfile : kSparseHeaderLen < 2 ^ 16 := by decide
  have hchunk : kChunkHeaderLen < 2 ^ 16 := by decide
  exact SparseHeader.ofBytes_bytes ⟨hmagic, hmajor, hfile, hchunk, h.blkSz_lt, h.blocks_lt,
    h.chunks_lt⟩

/-- The image begins with each of its chunks, and the bytes of the others follow. -/
theorem Fits.begins (h : image.Fits) (hchunks : image.chunks = before ++ after) :
    Begins image.bytes before (after.flatMap SparseChunk.bytes) := by
  induction before using List.reverseRecOn generalizing after with
  | nil =>
    have hbegins : Begins image.bytes [] (image.bytes.drop (sparseHeader image.bytes).fileHdrSz) :=
      .header (by rw [h.sparseHeader_bytes, bytes, List.length_append, SparseHeader.length_bytes]
                  exact Nat.le_add_right _ _)
    have hdrop : image.bytes.drop (sparseHeader image.bytes).fileHdrSz =
        after.flatMap SparseChunk.bytes := by
      have hall : image.chunks = after := hchunks
      rw [h.sparseHeader_bytes, bytes, hall]
      exact List.drop_left' (SparseHeader.length_bytes _)
    rw [hdrop] at hbegins
    exact hbegins
  | append_singleton before c ih =>
    rw [List.append_assoc] at hchunks
    have hc : c.Fits image.blkSz := h.chunks c (by simp [hchunks])
    have hbefore := ih hchunks
    rw [List.singleton_append, List.flatMap_cons, SparseChunk.bytes, List.append_assoc] at hbefore
    rw [← List.append_nil c.header.bytes] at hbefore
    refine hbefore.chunk c.header.length_bytes ?_ ?_ ?_
    · rw [h.sparseHeader_bytes]
      rfl
    · rw [h.sparseHeader_bytes, hc.header]
      exact (Nat.mod_eq_of_lt hc.total).symm
    · rw [h.sparseHeader_bytes]
      exact hc.encodes

/-- The bytes of an image are a well-formed image. -/
theorem Fits.wellFormed_bytes (h : image.Fits) : WellFormed image.bytes image.chunks where
  header := by
    rw [h.sparseHeader_bytes]
    exact ⟨rfl, rfl, le_rfl, le_rfl, h.blkSz, h.aligned, h.blocks⟩
  begins := ⟨_, h.begins (List.append_nil _).symm⟩
  length := by rw [h.sparseHeader_bytes, header]
  blocks := by rw [h.sparseHeader_bytes, header]

end SparseImage

end RpiFastbootd
