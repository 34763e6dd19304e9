import RpiFastbootd.Lib.Outcome
import RpiFastbootd.Libsparse.Reader

/-!
# What has been read

An image is regular if, wherever its bytes begin with some chunks, the next chunk is of a known type,
does not carry the block count over 32 bits and does not start where another chunk with content has
started.  A regular image is refused, or it is well formed and its blocks are queued as they are
painted (`yields_sparseFileImportBuf`); no assertion fails on the way.
-/

namespace RpiFastbootd

/-- The header is that of a chunk whose blocks are queued. -/
def ChunkHeader.queues (header : ChunkHeader) : Prop :=
  header.chunkType = kChunkTypeRaw ∨ header.chunkType = kChunkTypeFill

instance (header : ChunkHeader) : Decidable header.queues := inferInstanceAs (Decidable (_ ∨ _))

/-- The blocks that the reader counts for a chunk. -/
def ChunkHeader.blocks (header : ChunkHeader) : ℕ :=
  if header.chunkType = kChunkTypeCrc32 then 0 else header.chunkSz

/-- The next chunk after some chunks is no trouble: its type is known, the count of the blocks stays
below `2 ^ 32` (a count from `2 ^ 31` on is refused), and a chunk with content does not start where
another one has started. -/
structure ChunkHeader.Regular (blkSz : ℕ) (chunks : List SparseChunk) (header : ChunkHeader) :
    Prop where
  known : header.queues ∨ header.chunkType = kChunkTypeDontCare ∨
    header.chunkType = kChunkTypeCrc32
  count : header.blocks < 2 ^ 31 → blockCount chunks + header.blocks < 2 ^ 32
  product : header.queues → header.chunkSz * blkSz < 2 ^ 63
  fresh : header.queues → blockCount chunks ∉ starts 0 chunks

/-- Every chunk that a reader of the image can come to is no trouble, and the length of the expansion
is a signed 64-bit number. -/
structure Regular (b : List Byte) : Prop where
  expansion : (sparseHeader b).Valid → (sparseHeader b).totalBlks * (sparseHeader b).blkSz < 2 ^ 63
  chunks : ∀ chunks rest, Begins b chunks rest →
    chunks.length < (sparseHeader b).totalChunks → kChunkHeaderLen ≤ rest.length →
    (ChunkHeader.ofBytes (rest.take kChunkHeaderLen)).Regular (sparseHeader b).blkSz chunks

/-! ### An image can be read in one way only -/

theorem SparseChunk.Encodes.unique {blkSz : ℕ} {header : ChunkHeader} {c c' : SparseChunk}
    {payload payload' rest rest' : List Byte} (h : c.Encodes blkSz header payload)
    (h' : c'.Encodes blkSz header payload') (heq : payload ++ rest = payload' ++ rest') :
    c = c' ∧ rest = rest' := by
  cases h with
  | raw htype hlength =>
    cases h' with
    | raw _ hlength' =>
      obtain ⟨rfl, rfl⟩ := List.append_inj heq (hlength.trans hlength'.symm)
      exact ⟨rfl, rfl⟩
    | fill htype' => exact absurd (htype.symm.trans htype') (by decide)
    | dontCare htype' => exact absurd (htype.symm.trans htype') (by decide)
    | crc32 htype' => exact absurd (htype.symm.trans htype') (by decide)
  | fill htype hlength =>
    cases h' with
    | fill _ hlength' =>
      obtain ⟨rfl, rfl⟩ := List.append_inj heq (hlength.trans hlength'.symm)
      exact ⟨rfl, rfl⟩
    | raw htype' => exact absurd (htype.symm.trans htype') (by decide)
    | dontCare htype' => exact absurd (htype.symm.trans htype') (by decide)
    | crc32 htype' => exact absurd (htype.symm.trans htype') (by decide)
  | dontCare htype =>
    cases h' with
    | dontCare => exact ⟨rfl, heq⟩
    | raw htype' => exact absurd (htype.symm.trans htype') (by decide)
    | fill htype' => exact absurd (htype.symm.trans htype') (by decide)
    | crc32 htype' => exact absurd (htype.symm.trans htype') (by decide)
  | crc32 htype hlength =>
    cases h' with
    | crc32 _ hlength' =>
      obtain ⟨rfl, rfl⟩ := List.append_inj heq (hlength.trans hlength'.symm)
      exact ⟨rfl, rfl⟩
    | raw htype' => exact absurd (htype.symm.trans htype') (by decide)
    | fill htype' => exact absurd (htype.symm.trans htype') (by decide)
    | dontCare htype' => exact absurd (htype.symm.trans htype') (by decide)

theorem Begins.cases {b rest : List Byte} {chunks : List SparseChunk} (h : Begins b chunks rest) :
    chunks = [] ∧ rest = b.drop (sparseHeader b).fileHdrSz ∨
      ∃ (before : List SparseChunk) (c : SparseChunk) (header extra payload : List Byte),
        chunks = before ++ [c] ∧ Begins b before (header ++ extra ++ (payload ++ rest)) ∧
        header.length = kChunkHeaderLen ∧
        extra.length = (sparseHeader b).chunkHdrSz - kChunkHeaderLen ∧
        c.Encodes (sparseHeader b).blkSz (.ofBytes header) payload := by
  cases h with
  | header => exact .inl ⟨rfl, rfl⟩
  | chunk h hheader hextra _ hchunk => exact .inr ⟨_, _, _, _, _, rfl, h, hheader, hextra, hchunk⟩

/-- Where the same bytes begin with the same number of chunks, these are the same chunks. -/
theorem Begins.unique {b rest rest' : List Byte} {chunks chunks' : List SparseChunk}
    (h : Begins b chunks rest) (h' : Begins b chunks' rest')
    (hlength : chunks.length = chunks'.length) : chunks = chunks' ∧ rest = rest' := by
  induction h generalizing chunks' rest' with
  | header =>
    obtain ⟨rfl, rfl⟩ | ⟨before, c, _, _, _, rfl, -⟩ := h'.cases
    · exact ⟨rfl, rfl⟩
    · simp at hlength
  | chunk h hheader hextra _ hchunk ih =>
    obtain ⟨rfl, -⟩ | ⟨before, c', header', extra', payload', rfl, h', hheader', hextra', hchunk'⟩ :=
      h'.cases
    · simp at hlength
    · obtain ⟨rfl, heq⟩ := ih h' (by simpa using hlength)
      obtain ⟨hleft, hright⟩ := List.append_inj heq (by
        rw [List.length_append, List.length_append, hheader, hheader', hextra, hextra'])
      obtain ⟨rfl, -⟩ := List.append_inj hleft (hheader.trans hheader'.symm)
      obtain ⟨rfl, rfl⟩ := hchunk.unique hchunk' hright
      exact ⟨rfl, rfl⟩

/-! ### The source -/

section

variable {len : ℕ} {buf : List Byte}

theorem length_take_of_accessOkay (h : accessOkay len buf = true) :
    (buf.take len).length = len := by
  simp only [accessOkay, decide_eq_true_eq] at h
  rw [List.length_take]
  omega

theorem yields_readValue (len : ℕ) (buf : List Byte) :
    Yields .rejected (readValue len buf) fun r => buf = r.1 ++ r.2 ∧ r.1.length = len := by
  unfold readValue
  by_cases h : accessOkay len buf = true
  · rw [if_pos h]
    exact yields_ok ⟨(List.take_append_drop _ _).symm, length_take_of_accessOkay h⟩
  · rw [if_neg h]
    exact yields_error

theorem yields_seek (len : ℕ) (buf : List Byte) :
    Yields .rejected (seek len buf) fun rest =>
      ∃ extra, buf = extra ++ rest ∧ extra.length = len := by
  unfold seek
  by_cases h : accessOkay len buf = true
  · rw [if_pos h]
    exact yields_ok ⟨_, (List.take_append_drop len buf).symm, length_take_of_accessOkay h⟩
  · rw [if_neg h]
    exact yields_error

theorem yields_skipLonger {size expected : ℕ} (hle : expected ≤ size) (buf : List Byte) :
    Yields .rejected (skipLonger size expected buf) fun rest =>
      ∃ extra, buf = extra ++ rest ∧ extra.length = size - expected := by
  unfold skipLonger
  by_cases hlong : expected < size
  · rw [if_pos hlong]
    exact yields_seek (size - expected) buf
  · rw [if_neg hlong]
    refine yields_ok ⟨[], rfl, ?_⟩
    rw [List.length_nil]
    omega

theorem yields_readChunkHeader (h : SparseHeader) (hsize : kChunkHeaderLen ≤ h.chunkHdrSz)
    (buf : List Byte) :
    Yields .rejected (readChunkHeader h buf) fun r => ∃ header extra, r.1 = .ofBytes header ∧
      buf = header ++ extra ++ r.2 ∧ header.length = kChunkHeaderLen ∧
      extra.length = h.chunkHdrSz - kChunkHeaderLen := by
  refine (yields_readValue kChunkHeaderLen buf).bind fun r hr => ?_
  obtain ⟨header, rest⟩ := r
  obtain ⟨rfl, hheader⟩ := hr
  refine (yields_skipLonger hsize rest).bind fun rest' hrest => ?_
  obtain ⟨extra, rfl, hextra⟩ := hrest
  exact yields_ok ⟨header, extra, rfl, (List.append_assoc ..).symm, hheader, hextra⟩

end

/-! ### One chunk -/

section

variable {s : SparseFile} {chunkSize blocks block : ℕ} {buf : List Byte}

theorem signedProduct_of_lt {m n : ℕ} (h : m * n < 2 ^ 63) : signedProduct m n = .ok (m * n) :=
  if_pos h

theorem yields_processRawChunk (hproduct : blocks * s.blockSize < 2 ^ 63)
    (hadd : ∀ backing len, ∃ s', s.add backing len block = .ok s') :
    Yields .rejected (processRawChunk s chunkSize buf blocks block) fun r => ∃ bytes,
      buf = bytes ++ r.2 ∧ bytes.length = blocks * s.blockSize ∧
      chunkSize = blocks * s.blockSize ∧
      s.add (.data bytes) (blocks * s.blockSize) block = .ok r.1 := by
  unfold processRawChunk
  rw [signedProduct_of_lt hproduct, ok_bind]
  refine yields_check fun hwhole => yields_check fun hblocks => ?_
  rw [not_not] at hwhole hblocks
  have hsize : chunkSize = blocks * s.blockSize := by
    rw [← hblocks, Nat.div_mul_cancel (Nat.dvd_of_mod_eq_zero hwhole)]
  rw [addToSparseFile, seek]
  by_cases haccess : accessOkay (blocks * s.blockSize) buf = true
  · obtain ⟨s', hs'⟩ := hadd (.data (buf.take (blocks * s.blockSize))) (blocks * s.blockSize)
    rw [if_pos haccess, if_pos haccess, hs']
    exact yields_ok ⟨_, (List.take_append_drop _ _).symm, length_take_of_accessOkay haccess, hsize,
      hs'⟩
  · rw [if_neg haccess]
    exact yields_error

theorem yields_processFillChunk (hproduct : blocks * s.blockSize < 2 ^ 63)
    (hadd : ∀ backing len, ∃ s', s.add backing len block = .ok s') :
    Yields .rejected (processFillChunk s chunkSize buf blocks block) fun r => ∃ val,
      buf = val ++ r.2 ∧ val.length = 4 ∧ chunkSize = 4 ∧
      s.add (.fill val) (blocks * s.blockSize) block = .ok r.1 := by
  unfold processFillChunk
  rw [signedProduct_of_lt hproduct, ok_bind]
  refine yields_check fun hsize => (yields_readValue 4 buf).bind fun r hr => ?_
  obtain ⟨val, rest⟩ := r
  obtain ⟨s', hs'⟩ := hadd (.fill val) (blocks * s.blockSize)
  dsimp only
  rw [hs']
  exact yields_ok ⟨val, hr.1, hr.2, not_not.1 hsize, hs'⟩

theorem yields_processSkipChunk (s : SparseFile) (chunkSize : ℕ) (buf : List Byte) :
    Yields .rejected (processSkipChunk s chunkSize buf) fun r => r = (s, buf) ∧ chunkSize = 0 :=
  yields_check fun hsize => yields_ok ⟨rfl, not_not.1 hsize⟩

theorem yields_processCrc32Chunk (s : SparseFile) (chunkSize : ℕ) (buf : List Byte) :
    Yields .rejected (processCrc32Chunk s chunkSize buf) fun r => ∃ checksum,
      r.1 = s ∧ buf = checksum ++ r.2 ∧ checksum.length = 4 ∧ chunkSize = 4 := by
  refine yields_check fun hsize => (yields_readValue 4 buf).bind fun r hr => ?_
  obtain ⟨checksum, rest⟩ := r
  exact yields_ok ⟨checksum, rfl, hr.1, hr.2, not_not.1 hsize⟩

/-- The reader has taken the bytes of chunk `c` off the buffer, and queued what is in it. -/
structure TakesChunk (s : SparseFile) (buf : List Byte) (chunkHdrSz : ℕ) (header : ChunkHeader)
    (curBlock : ℕ) (c : SparseChunk) (payload : List Byte) (r : ℕ × SparseFile × List Byte) :
    Prop where
  blocks : r.1 = c.blocks
  header_blocks : header.blocks = c.blocks
  buf_eq : buf = payload ++ r.2.2
  encodes : c.Encodes s.blockSize header payload
  total : header.totalSz = (chunkHdrSz + payload.length) % 2 ^ 32
  queued : c.backing = none ∧ r.2.1 = s ∨ header.queues ∧ ∃ backing, c.backing = some backing ∧
    s.add backing (c.blocks * s.blockSize) curBlock = .ok r.2.1

/-- What `process_chunk` makes of a chunk of a known type: it refuses it, or takes the bytes of one
chunk and queues what is in it. -/
theorem yields_processChunk {header : ChunkHeader} {chunkHdrSz curBlock : ℕ}
    {chunks : List SparseChunk} (hregular : header.Regular s.blockSize chunks)
    (htotal : header.totalSz < 2 ^ 32) (hsize : chunkHdrSz < 2 ^ 32) (buf : List Byte)
    (hadd : header.queues → ∀ backing len, ∃ s', s.add backing len curBlock = .ok s') :
    Yields .rejected (processChunk s buf chunkHdrSz header curBlock) fun r =>
      ∃ c payload, TakesChunk s buf chunkHdrSz header curBlock c payload r := by
  -- the size of the data as the header gives it
  have hdata {n : ℕ} (h : (header.totalSz + (2 ^ 32 - chunkHdrSz)) % 2 ^ 32 = n) :
      header.totalSz = (chunkHdrSz + n) % 2 ^ 32 := by
    omega
  unfold processChunk
  by_cases hraw : header.chunkType = kChunkTypeRaw
  · have hblocks : header.blocks = header.chunkSz := by
      rw [ChunkHeader.blocks, hraw, if_neg (by decide)]
    simp only [if_pos hraw]
    refine (yields_processRawChunk (hregular.product (.inl hraw)) (hadd (.inl hraw))).bind
      fun r hr => ?_
    obtain ⟨bytes, hbuf, hlength, hdataSize, hs'⟩ := hr
    refine yields_ok ⟨.raw header.chunkSz bytes, bytes, rfl, hblocks, hbuf, .raw hraw hlength, ?_,
      .inr ⟨.inl hraw, .data bytes, rfl, hs'⟩⟩
    rw [hlength]
    exact hdata hdataSize
  by_cases hfill : header.chunkType = kChunkTypeFill
  · have hblocks : header.blocks = header.chunkSz := by
      rw [ChunkHeader.blocks, hfill, if_neg (by decide)]
    simp only [if_neg hraw, if_pos hfill]
    refine (yields_processFillChunk (hregular.product (.inr hfill)) (hadd (.inr hfill))).bind
      fun r hr => ?_
    obtain ⟨val, hbuf, hlength, hdataSize, hs'⟩ := hr
    refine yields_ok ⟨.fill header.chunkSz val, val, rfl, hblocks, hbuf, .fill hfill hlength, ?_,
      .inr ⟨.inr hfill, .fill val, rfl, hs'⟩⟩
    rw [hlength]
    exact hdata hdataSize
  by_cases hskip : header.chunkType = kChunkTypeDontCare
  · have hblocks : header.blocks = header.chunkSz := by
      rw [ChunkHeader.blocks, hskip, if_neg (by decide)]
    simp only [if_neg hraw, if_neg hfill, if_pos hskip]
    refine (yields_processSkipChunk ..).bind fun r hr => ?_
    obtain ⟨rfl, hdataSize⟩ := hr
    exact yields_ok ⟨.dontCare header.chunkSz, [], rfl, hblocks, rfl, .dontCare hskip,
      hdata hdataSize, .inl ⟨rfl, rfl⟩⟩
  have hcrc : header.chunkType = kChunkTypeCrc32 := by
    obtain (h | h) | h | h := hregular.known
    · exact absurd h hraw
    · exact absurd h hfill
    · exact absurd h hskip
    · exact h
  have hblocks : header.blocks = 0 := by
    rw [ChunkHeader.blocks, if_pos hcrc]
  simp only [if_neg hraw, if_neg hfill, if_neg hskip, if_pos hcrc]
  refine (yields_processCrc32Chunk ..).bind fun r hr => ?_
  obtain ⟨checksum, hs', hbuf, hlength, hdataSize⟩ := hr
  refine yields_ok ⟨.crc32 checksum, checksum, rfl, hblocks, hbuf, .crc32 hcrc hlength, ?_,
    .inl ⟨rfl, hs'⟩⟩
  rw [hlength]
  exact hdata hdataSize

end

/-! ### All chunks -/

/-- What holds while an image is read: the reader has come behind some chunks, and the blocks that it
has queued are what these chunks say. -/
structure Reading (b : List Byte) (s : SparseFile) (buf : List Byte) (curBlock : ℕ)
    (chunks : List SparseChunk) : Prop where
  begins : Begins b chunks buf
  count : curBlock = blockCount chunks
  lt : curBlock < 2 ^ 32
  blockSize : s.blockSize = (sparseHeader b).blkSz
  len : s.len = (sparseHeader b).totalBlks * (sparseHeader b).blkSz
  listSize : s.backedBlockList.blockSize = (sparseHeader b).blkSz
  ordered : Ordered (sparseHeader b).blkSz 0 s.backedBlockList.dataBlocks curBlock
  startsIn : ∀ bb ∈ s.backedBlockList.dataBlocks, bb.block ∈ starts 0 chunks
  painted : ∀ layer,
    s.backedBlockList.dataBlocks.foldl (BackedBlock.paint (sparseHeader b).blkSz) layer =
      paintChunks (sparseHeader b).blkSz 0 chunks layer

section

variable {b buf : List Byte} {s : SparseFile} {curBlock : ℕ} {chunks : List SparseChunk}

theorem blkSz_lt (b : List Byte) : (sparseHeader b).blkSz < 2 ^ 32 :=
  (le32 (b.take kSparseHeaderLen) 12).isLt

theorem chunkHdrSz_lt (b : List Byte) : (sparseHeader b).chunkHdrSz < 2 ^ 32 := by
  have : (sparseHeader b).chunkHdrSz < 2 ^ 16 := (le16 (b.take kSparseHeaderLen) 10).isLt
  omega

/-- A block can be queued behind the chunks that were read, if none of them starts there. -/
theorem Reading.exists_add (h : Reading b s buf curBlock chunks)
    (hfresh : blockCount chunks ∉ starts 0 chunks) (backing : Backing) (len : ℕ) :
    (∀ bb ∈ s.backedBlockList.dataBlocks, bb.block < curBlock) ∧
      ∃ l, s.backedBlockList.queueBB ⟨curBlock, len, backing⟩ = some l ∧
        l.blockSize = s.backedBlockList.blockSize ∧
        s.add backing len curBlock = .ok { s with backedBlockList := l } := by
  have hlt : ∀ bb ∈ s.backedBlockList.dataBlocks, bb.block < curBlock := by
    intro bb hbb
    have hmem := h.startsIn bb hbb
    have hle := le_of_mem_starts hmem
    rw [h.count]
    by_contra hge
    have : bb.block = blockCount chunks := by omega
    exact hfresh (this ▸ hmem)
  have hnew : ∀ bb ∈ s.backedBlockList.dataBlocks,
      bb.block < (⟨curBlock, len, backing⟩ : BackedBlock).block := hlt
  obtain ⟨l, hl, hsize, -⟩ := BackedBlockList.queueBB_cases hnew
  refine ⟨hlt, l, hl, hsize, ?_⟩
  rw [SparseFile.add, hl]

/-- The blocks of a chunk with content are queued behind those of the chunks before it. -/
theorem Reading.add (h : Reading b s buf curBlock chunks) (hvalid : (sparseHeader b).Valid)
    (hfresh : blockCount chunks ∉ starts 0 chunks) {c : SparseChunk} {backing : Backing}
    {rest : List Byte} {s' : SparseFile} (hbegins : Begins b (chunks ++ [c]) rest)
    (hbacking : c.backing = some backing)
    (hbytes : ∀ bytes, backing = .data bytes → bytes.length = c.blocks * (sparseHeader b).blkSz)
    (hcount : curBlock + c.blocks < 2 ^ 32)
    (hadd : s.add backing (c.blocks * s.blockSize) curBlock = .ok s') :
    Reading b s' rest (curBlock + c.blocks) (chunks ++ [c]) := by
  have hpos : 0 < (sparseHeader b).blkSz := Nat.pos_of_ne_zero hvalid.blkSz
  rw [h.blockSize] at hadd
  obtain ⟨hlt, l, hqueue, hsize, hok⟩ :=
    h.exists_add hfresh backing (c.blocks * (sparseHeader b).blkSz)
  cases hadd.symm.trans hok
  have hdiv : c.blocks * (sparseHeader b).blkSz / (sparseHeader b).blkSz = c.blocks :=
    Nat.mul_div_cancel _ hpos
  have h64 : curBlock * (sparseHeader b).blkSz + c.blocks * (sparseHeader b).blkSz < 2 ^ 64 := by
    rw [← Nat.add_mul]
    calc (curBlock + c.blocks) * (sparseHeader b).blkSz
        < 2 ^ 32 * 2 ^ 32 := Nat.mul_lt_mul_of_lt_of_lt hcount (blkSz_lt b)
      _ = 2 ^ 64 := by norm_num
  have hord : Ordered s.backedBlockList.blockSize 0 s.backedBlockList.dataBlocks curBlock := by
    rw [h.listSize]
    exact h.ordered
  have hnext := BackedBlockList.ordered_queueBB hord hlt le_rfl
    ⟨by rw [h.listSize]; exact Nat.dvd_mul_left _ _, hbytes⟩ h.lt (by rw [h.listSize]; exact h64)
    (by rw [h.listSize]; exact Nat.dvd_of_mod_eq_zero hvalid.aligned) hqueue
  rw [h.listSize] at hnext hsize
  obtain ⟨hordered, hpaint⟩ := hnext
  refine ⟨hbegins, ?_, hcount, h.blockSize, h.len, hsize, ?_, fun bb hbb => ?_, fun layer => ?_⟩
  · rw [blockCount_concat, h.count]
  · rw [hdiv] at hordered
    exact hordered
  · rw [starts_concat, hbacking, List.mem_append]
    obtain hbb | ⟨b', hb', hbb⟩ := BackedBlockList.starts_queueBB hlt hqueue bb hbb
    · right
      simp [hbb, h.count]
    · left
      rw [hbb]
      exact h.startsIn b' hb'
  · rw [hpaint layer, h.painted layer, paintChunks_concat, hbacking, Nat.zero_add, ← h.count]
    rfl

/-- A chunk without content changes nothing. -/
theorem Reading.pass (h : Reading b s buf curBlock chunks) {c : SparseChunk} {rest : List Byte}
    (hbegins : Begins b (chunks ++ [c]) rest) (hbacking : c.backing = none)
    (hcount : curBlock + c.blocks < 2 ^ 32) :
    Reading b s rest (curBlock + c.blocks) (chunks ++ [c]) where
  begins := hbegins
  count := by rw [blockCount_concat, h.count]
  lt := hcount
  blockSize := h.blockSize
  len := h.len
  listSize := h.listSize
  ordered := h.ordered.mono (Nat.le_add_right _ _)
  startsIn bb hbb := by
    rw [starts_concat, List.mem_append]
    exact .inl (h.startsIn bb hbb)
  painted layer := by rw [h.painted layer, paintChunks_concat, hbacking]

theorem length_of_encodes {blkSz : ℕ} {header : ChunkHeader} {c : SparseChunk} {payload : List Byte}
    (h : c.Encodes blkSz header payload) {backing : Backing} (hbacking : c.backing = some backing)
    {bytes : List Byte} (hdata : backing = .data bytes) : bytes.length = c.blocks * blkSz := by
  subst hdata
  cases h with
  | raw _ hlength =>
    cases hbacking
    exact hlength
  | fill => cases hbacking
  | dontCare => cases hbacking
  | crc32 => cases hbacking

/-- One chunk more has been read. -/
theorem Reading.next (h : Reading b s buf curBlock chunks) (hvalid : (sparseHeader b).Valid)
    {header extra payload rest : List Byte} (hbuf : buf = header ++ extra ++ rest)
    (hheader : header.length = kChunkHeaderLen)
    (hextra : extra.length = (sparseHeader b).chunkHdrSz - kChunkHeaderLen)
    (hregular : (ChunkHeader.ofBytes header).Regular (sparseHeader b).blkSz chunks)
    {c : SparseChunk} {r : ℕ × SparseFile × List Byte}
    (htaken : TakesChunk s rest (sparseHeader b).chunkHdrSz (.ofBytes header) curBlock c payload r)
    (hlt : r.1 < 2 ^ 31) :
    Reading b r.2.1 r.2.2 ((curBlock + r.1) % 2 ^ 32) (chunks ++ [c]) := by
  have hcount : curBlock + c.blocks < 2 ^ 32 := by
    rw [h.count, ← htaken.header_blocks]
    refine hregular.count ?_
    rwa [htaken.header_blocks, ← htaken.blocks]
  have hencodes := htaken.encodes
  rw [h.blockSize] at hencodes
  have hbegins : Begins b (chunks ++ [c]) r.2.2 := by
    have hbegins := h.begins
    rw [hbuf, htaken.buf_eq] at hbegins
    exact hbegins.chunk hheader hextra htaken.total hencodes
  rw [htaken.blocks, Nat.mod_eq_of_lt hcount]
  obtain ⟨hnone, hs'⟩ | ⟨hqueues, backing, hbacking, hs'⟩ := htaken.queued
  · rw [hs']
    exact h.pass hbegins hnone hcount
  · exact h.add hvalid (hregular.fresh hqueues) hbegins hbacking
      (fun bytes hdata => length_of_encodes hencodes hbacking hdata) hcount hs'

/-- The loop: the image is refused, or all its chunks have been read. -/
theorem Reading.yields_readChunks (h : Reading b s buf curBlock chunks)
    (hvalid : (sparseHeader b).Valid) (hregular : Regular b) {n : ℕ}
    (hn : chunks.length + n = (sparseHeader b).totalChunks) :
    Yields .rejected (readChunks (sparseHeader b) n s buf curBlock) fun r =>
      ∃ rest chunks', Reading b r.1 rest r.2 chunks' ∧
        chunks'.length = (sparseHeader b).totalChunks := by
  induction n generalizing s buf curBlock chunks with
  | zero => exact yields_ok ⟨buf, chunks, h, hn⟩
  | succ n ih =>
    refine (yields_readChunkHeader (sparseHeader b) hvalid.chunkHdrSz buf).bind fun r hr => ?_
    obtain ⟨_, rest⟩ := r
    obtain ⟨header, extra, rfl, hbuf, hheader, hextra⟩ := hr
    have hnext := hregular.chunks chunks buf h.begins (by omega) (by
      rw [hbuf, List.length_append, List.length_append, hheader]
      omega)
    have htake : buf.take kChunkHeaderLen = header := by
      rw [hbuf, List.append_assoc, ← hheader, List.take_left]
    rw [htake] at hnext
    have hadd : (ChunkHeader.ofBytes header).queues →
        ∀ backing len, ∃ s', s.add backing len curBlock = .ok s' := by
      intro hqueues backing len
      obtain ⟨-, l, -, -, hs'⟩ := h.exists_add (hnext.fresh hqueues) backing len
      exact ⟨_, hs'⟩
    have hnext' : (ChunkHeader.ofBytes header).Regular s.blockSize chunks := by
      rw [h.blockSize]
      exact hnext
    refine (yields_processChunk hnext' (le32 header 8).isLt (chunkHdrSz_lt b) rest hadd).bind
      fun r hr => ?_
    obtain ⟨c, payload, htaken⟩ := hr
    refine yields_check fun hlt => ?_
    refine ih (h.next hvalid hbuf hheader hextra hnext htaken (not_le.1 hlt)) ?_
    rw [List.length_append, List.length_singleton]
    omega

/-- An empty file, before the first chunk is read. -/
theorem reading_new (hlength : (sparseHeader b).fileHdrSz ≤ b.length) :
    Reading b (.new (sparseHeader b).blkSz ((sparseHeader b).totalBlks * (sparseHeader b).blkSz))
      (b.drop (sparseHeader b).fileHdrSz) 0 [] where
  begins := .header hlength
  count := rfl
  lt := by norm_num
  blockSize := rfl
  len := rfl
  listSize := rfl
  ordered := le_rfl
  startsIn _ hbb := by cases hbb
  painted _ := rfl

/-- The image was read as a well-formed one. -/
structure Imported (b : List Byte) (s : SparseFile) (chunks : List SparseChunk) : Prop where
  wellFormed : WellFormed b chunks
  reading : ∃ rest, Reading b s rest (sparseHeader b).totalBlks chunks

theorem yields_readBody (hvalid : (sparseHeader b).Valid) (hregular : Regular b)
    (h : Reading b s buf 0 []) :
    Yields .rejected (readBody (sparseHeader b) s buf) fun s' => ∃ chunks, Imported b s' chunks := by
  refine (h.yields_readChunks hvalid hregular (Nat.zero_add _)).bind fun r hr => ?_
  obtain ⟨s', curBlock⟩ := r
  obtain ⟨rest, chunks, hreading, hlength⟩ := hr
  refine yields_check fun hblocks => ?_
  obtain rfl : (sparseHeader b).totalBlks = curBlock := not_not.1 hblocks
  exact yields_ok ⟨chunks, ⟨hvalid, ⟨rest, hreading.begins⟩, hlength, hreading.count.symm⟩, rest,
    hreading⟩

/-- The bytes of the header of the image come first. -/
theorem yields_readHeader (b : List Byte) :
    Yields .rejected (readValue kSparseHeaderLen b) fun r =>
      b = r.1 ++ r.2 ∧ r.1.length = kSparseHeaderLen ∧ SparseHeader.ofBytes r.1 = sparseHeader b := by
  obtain herr | ⟨r, hok, hb, hheader⟩ := yields_readValue kSparseHeaderLen b
  · exact .inl herr
  · refine .inr ⟨r, hok, hb, hheader, ?_⟩
    rw [sparseHeader]
    conv_rhs => rw [hb, ← hheader, List.take_left]

theorem yields_sparseFileReadSparse (hvalid : (sparseHeader b).Valid) (hregular : Regular b) :
    Yields .rejected (sparseFileReadSparse (.new (sparseHeader b).blkSz
      ((sparseHeader b).totalBlks * (sparseHeader b).blkSz)) b) fun s =>
        ∃ chunks, Imported b s chunks := by
  refine (yields_readHeader b).bind fun r hr => ?_
  obtain ⟨header, rest⟩ := r
  obtain ⟨hb, hheader, hsparse⟩ := hr
  dsimp only at hb hheader hsparse ⊢
  rw [hsparse]
  refine yields_check fun _ => yields_check fun _ => yields_check fun _ => yields_check fun _ => ?_
  refine (yields_skipLonger hvalid.fileHdrSz rest).bind fun rest' hrest => ?_
  obtain ⟨extra, hrest, hextra⟩ := hrest
  have hlen : (header ++ extra).length = (sparseHeader b).fileHdrSz := by
    have := hvalid.fileHdrSz
    rw [List.length_append]
    omega
  have hb' : b = header ++ extra ++ rest' := by
    rw [List.append_assoc, ← hrest]
    exact hb
  have hdrop : b.drop (sparseHeader b).fileHdrSz = rest' := by
    rw [← hlen]
    conv_lhs => rw [hb']
    exact List.drop_left
  have hle : (sparseHeader b).fileHdrSz ≤ b.length := by
    have htotal := congrArg List.length hb'
    rw [List.length_append, hlen] at htotal
    omega
  have hnew := reading_new hle
  rw [hdrop] at hnew
  exact yields_readBody hvalid hregular hnew

/-- A regular image is refused, or read as a well-formed one. -/
theorem yields_sparseFileImportBuf (hregular : Regular b) :
    Yields .rejected (sparseFileImportBuf b) fun s => ∃ chunks, Imported b s chunks := by
  refine (yields_readHeader b).bind fun r hr => ?_
  obtain ⟨header, rest⟩ := r
  obtain ⟨-, -, hsparse⟩ := hr
  dsimp only at hsparse ⊢
  rw [hsparse]
  refine yields_check fun hmagic => yields_check fun hmajor => ?_
  refine yields_check fun hfile => yields_check fun hchunk => ?_
  refine yields_check fun hblk => yields_check fun htotal => ?_
  rw [not_not] at hmagic hmajor
  rw [not_or, not_not] at hblk
  have hvalid : (sparseHeader b).Valid :=
    ⟨hmagic, hmajor, not_lt.1 hfile, not_lt.1 hchunk, hblk.1, hblk.2, htotal⟩
  rw [signedProduct_of_lt (hregular.expansion hvalid)]
  exact yields_sparseFileReadSparse hvalid hregular

end

end RpiFastbootd
