import RpiFastbootd.Libsparse.Encode
import RpiFastbootd.Libsparse.Import

/-!
# Which images the reader takes

A regular image is imported if and only if it is well formed and its chunks are readable
(`sparseFileImportBuf_ok_iff`): the number of blocks of a chunk fits into the signed number that the
reader returns, its bytes are counted in 32 bits, and there are some in a raw chunk.

A readable image without empty fills is regular (`ReadableImage.regular`).
-/

namespace RpiFastbootd

namespace SparseChunk

/-- The reader has room for the chunk. -/
structure Readable (c : SparseChunk) : Prop where
  blocks : c.blocks < 2 ^ 31
  size : c.payload.length < 2 ^ 32
  nonempty : ∀ n, c ≠ .raw n []

theorem Encodes.payload_eq {blkSz : ℕ} {header : ChunkHeader} {c : SparseChunk}
    {payload : List Byte} (h : c.Encodes blkSz header payload) : payload = c.payload := by
  cases h <;> rfl

end SparseChunk

/-- The image is well formed, and the reader has room for all its chunks. -/
structure ReadableImage (b : List Byte) (chunks : List SparseChunk) : Prop where
  wellFormed : WellFormed b chunks
  chunks : ∀ c ∈ chunks, c.Readable

/-! ### The source -/

section

variable {buf rest : List Byte}

theorem accessOkay_append (h : buf ≠ []) : accessOkay buf.length (buf ++ rest) = true := by
  have := List.length_pos_iff.2 h
  simp only [accessOkay, List.length_append, decide_eq_true_eq]
  omega

theorem readValue_append (h : buf ≠ []) :
    readValue buf.length (buf ++ rest) = .ok (buf, rest) := by
  rw [readValue, if_pos (accessOkay_append h), List.take_left, List.drop_left]

theorem seek_append (h : buf ≠ []) : seek buf.length (buf ++ rest) = .ok rest := by
  rw [seek, if_pos (accessOkay_append h), List.drop_left]

theorem skipLonger_append {extra : List Byte} {size expected : ℕ} (hle : expected ≤ size)
    (hextra : extra.length = size - expected) :
    skipLonger size expected (extra ++ rest) = .ok rest := by
  unfold skipLonger
  split_ifs with hlong
  · rw [← hextra]
    exact seek_append (List.length_pos_iff.1 (by omega))
  · rw [List.length_eq_zero_iff.1 (by omega : extra.length = 0)]
    rfl

theorem readChunkHeader_append {h : SparseHeader} {bytes extra : List Byte}
    (hsize : kChunkHeaderLen ≤ h.chunkHdrSz) (hbytes : bytes.length = kChunkHeaderLen)
    (hextra : extra.length = h.chunkHdrSz - kChunkHeaderLen) :
    readChunkHeader h (bytes ++ extra ++ rest) = .ok (.ofBytes bytes, rest) := by
  have hne : bytes ≠ [] := List.length_pos_iff.1 (by rw [hbytes]; decide)
  rw [readChunkHeader, List.append_assoc, ← hbytes, readValue_append hne, ok_bind]
  dsimp only
  rw [hbytes, skipLonger_append hsize hextra]
  rfl

end

/-! ### One chunk -/

section

variable {s : SparseFile} {header : ChunkHeader} {c : SparseChunk} {payload rest : List Byte}
  {chunkHdrSz curBlock : ℕ}

/-- A chunk that is all there is taken. -/
theorem processChunk_of_encodes (hencodes : c.Encodes s.blockSize header payload)
    (htotal : header.totalSz = (chunkHdrSz + payload.length) % 2 ^ 32) (hsize : chunkHdrSz < 2 ^ 32)
    (hpos : 0 < s.blockSize) (hreadable : c.Readable)
    (hproduct : header.queues → header.chunkSz * s.blockSize < 2 ^ 63)
    (hadd : header.queues → ∀ backing len, ∃ s', s.add backing len curBlock = .ok s') :
    ∃ s', processChunk s (payload ++ rest) chunkHdrSz header curBlock = .ok (c.blocks, s', rest) := by
  have hdata : (header.totalSz + (2 ^ 32 - chunkHdrSz)) % 2 ^ 32 = payload.length := by
    have hlt := hreadable.size
    rw [← hencodes.payload_eq] at hlt
    omega
  unfold processChunk
  rw [hdata]
  cases hencodes with
  | raw htype hlength =>
    have hne : payload ≠ [] := fun hnil => hreadable.nonempty header.chunkSz (by rw [hnil])
    obtain ⟨s', hs'⟩ := hadd (.inl htype) (.data payload) payload.length
    refine ⟨s', ?_⟩
    simp only [if_pos htype, processRawChunk]
    rw [signedProduct_of_lt (hproduct (.inl htype)), ok_bind, hlength, Nat.mul_mod_left,
      if_neg (by simp), Nat.mul_div_cancel _ hpos, if_neg (by simp), ← hlength, addToSparseFile,
      if_pos (accessOkay_append hne), seek_append hne, List.take_left, hs']
    rfl
  | fill htype hlength =>
    have hne : payload ≠ [] := List.length_pos_iff.1 (by omega)
    have hraw : header.chunkType ≠ kChunkTypeRaw := ne_of_eq_of_ne htype (by decide)
    obtain ⟨s', hs'⟩ := hadd (.inr htype) (.fill payload) (header.chunkSz * s.blockSize)
    refine ⟨s', ?_⟩
    simp only [if_neg hraw, if_pos htype, processFillChunk]
    rw [signedProduct_of_lt (hproduct (.inr htype)), ok_bind, hlength, if_neg (by simp), ← hlength,
      readValue_append hne, ok_bind]
    dsimp only
    rw [hs']
    rfl
  | dontCare htype =>
    have hraw : header.chunkType ≠ kChunkTypeRaw := ne_of_eq_of_ne htype (by decide)
    have hfill : header.chunkType ≠ kChunkTypeFill := ne_of_eq_of_ne htype (by decide)
    refine ⟨s, ?_⟩
    simp only [if_neg hraw, if_neg hfill, if_pos htype]
    rfl
  | crc32 htype hlength =>
    have hne : payload ≠ [] := List.length_pos_iff.1 (by omega)
    have hraw : header.chunkType ≠ kChunkTypeRaw := ne_of_eq_of_ne htype (by decide)
    have hfill : header.chunkType ≠ kChunkTypeFill := ne_of_eq_of_ne htype (by decide)
    have hskip : header.chunkType ≠ kChunkTypeDontCare := ne_of_eq_of_ne htype (by decide)
    refine ⟨s, ?_⟩
    simp only [if_neg hraw, if_neg hfill, if_neg hskip, if_pos htype, processCrc32Chunk]
    rw [hlength, if_neg (by simp), ← hlength, readValue_append hne]
    rfl

/-- A chunk that has been taken is readable, if its blocks are counted. -/
theorem readable_of_processChunk {buf : List Byte} {r : ℕ × SparseFile × List Byte}
    (hencodes : c.Encodes s.blockSize header payload) (hblocks : c.blocks < 2 ^ 31)
    (hok : processChunk s buf chunkHdrSz header curBlock = .ok r) : c.Readable := by
  unfold processChunk at hok
  generalize hdata : (header.totalSz + (2 ^ 32 - chunkHdrSz)) % 2 ^ 32 = dataSize at hok
  cases hencodes with
  | raw htype hlength =>
    simp only [if_pos htype, processRawChunk, bind_eq_ok_iff] at hok
    obtain ⟨_, ⟨len, hlen, hok⟩, -⟩ := hok
    unfold signedProduct at hlen
    split_ifs at hlen
    cases hlen
    split_ifs at hok with hmod hdiv
    obtain ⟨s', hadd, -⟩ := bind_eq_ok_iff.1 hok
    rw [not_not] at hmod hdiv
    have hsize : dataSize = payload.length := by
      rw [hlength, ← hdiv, Nat.div_mul_cancel (Nat.dvd_of_mod_eq_zero hmod)]
    refine ⟨hblocks, ?_, fun n hn => ?_⟩
    · show payload.length < 2 ^ 32
      omega
    · cases hn
      unfold addToSparseFile accessOkay at hadd
      rw [← hlength] at hadd
      simp at hadd
  | fill _ hlength =>
    refine ⟨hblocks, ?_, fun n hn => by cases hn⟩
    show payload.length < 2 ^ 32
    omega
  | dontCare => exact ⟨hblocks, Nat.two_pow_pos 32, fun n hn => by cases hn⟩
  | crc32 _ hlength =>
    refine ⟨hblocks, ?_, fun n hn => by cases hn⟩
    show payload.length < 2 ^ 32
    omega

end

/-! ### All chunks -/

section

variable {b buf rest : List Byte} {before after chunks : List SparseChunk} {c : SparseChunk}
  {s : SparseFile} {curBlock : ℕ}

/-- The last of the chunks, and what stands before it. -/
theorem Begins.last (h : Begins b (before ++ [c]) rest) :
    ∃ header extra payload, Begins b before (header ++ extra ++ (payload ++ rest)) ∧
      header.length = kChunkHeaderLen ∧
      extra.length = (sparseHeader b).chunkHdrSz - kChunkHeaderLen ∧
      (ChunkHeader.ofBytes header).totalSz =
        ((sparseHeader b).chunkHdrSz + payload.length) % 2 ^ 32 ∧
      c.Encodes (sparseHeader b).blkSz (.ofBytes header) payload := by
  generalize hall : before ++ [c] = all at h
  cases h with
  | header => simp at hall
  | chunk h hheader hextra htotal hencodes =>
    obtain ⟨rfl, hc⟩ := List.append_inj' hall rfl
    cases hc
    exact ⟨_, _, _, h, hheader, hextra, htotal, hencodes⟩

theorem Begins.upTo (h : Begins b (before ++ c :: after) rest) :
    ∃ rest', Begins b (before ++ [c]) rest' := by
  induction after using List.reverseRecOn generalizing rest with
  | nil => exact ⟨rest, h⟩
  | append_singleton after d ih =>
    rw [← List.cons_append, ← List.append_assoc] at h
    obtain ⟨_, _, _, hbefore, -⟩ := h.last
    exact ih hbefore

theorem Begins.fileHdrSz_le (h : Begins b chunks rest) : (sparseHeader b).fileHdrSz ≤ b.length := by
  induction h with
  | header hlength => exact hlength
  | chunk _ _ _ _ _ ih => exact ih

/-- What the next chunk after some of the chunks is. -/
theorem WellFormed.next (h : WellFormed b chunks) (hchunks : chunks = before ++ c :: after)
    (hbegins : Begins b before buf) :
    ∃ header extra payload rest, buf = header ++ extra ++ (payload ++ rest) ∧
      header.length = kChunkHeaderLen ∧
      extra.length = (sparseHeader b).chunkHdrSz - kChunkHeaderLen ∧
      (ChunkHeader.ofBytes header).totalSz =
        ((sparseHeader b).chunkHdrSz + payload.length) % 2 ^ 32 ∧
      c.Encodes (sparseHeader b).blkSz (.ofBytes header) payload := by
  obtain ⟨rest, hall⟩ := h.begins
  rw [hchunks] at hall
  obtain ⟨rest', hupto⟩ := hall.upTo
  obtain ⟨header, extra, payload, hbefore, hheader, hextra, htotal, hencodes⟩ := hupto.last
  obtain ⟨-, rfl⟩ := hbegins.unique hbefore rfl
  exact ⟨header, extra, payload, rest', rfl, hheader, hextra, htotal, hencodes⟩

/-- A header is the one of the next chunk, and no trouble. -/
theorem Regular.of_append {header extra : List Byte} (h : Regular b)
    (hbegins : Begins b before (header ++ extra ++ rest)) (hheader : header.length = kChunkHeaderLen)
    (hlength : before.length < (sparseHeader b).totalChunks) :
    (ChunkHeader.ofBytes header).Regular (sparseHeader b).blkSz before := by
  have hnext := h.chunks before _ hbegins hlength (by
    rw [List.length_append, List.length_append, hheader]
    omega)
  rw [List.append_assoc, ← hheader, List.take_left] at hnext
  exact hnext

theorem Reading.exists_add_of_regular (hreading : Reading b s buf curBlock before)
    {header : ChunkHeader} (hregular : header.Regular (sparseHeader b).blkSz before)
    (hqueues : header.queues) (backing : Backing) (len : ℕ) :
    ∃ s', s.add backing len curBlock = .ok s' := by
  obtain ⟨-, l, -, -, hs'⟩ := hreading.exists_add (hregular.fresh hqueues) backing len
  exact ⟨_, hs'⟩

/-- One readable chunk more is read. -/
theorem ReadableImage.step (h : ReadableImage b chunks) (hregular : Regular b)
    (hchunks : chunks = before ++ c :: after) (hreading : Reading b s buf curBlock before) (n : ℕ) :
    ∃ s' rest curBlock', readChunks (sparseHeader b) (n + 1) s buf curBlock =
        readChunks (sparseHeader b) n s' rest curBlock' ∧
      Reading b s' rest curBlock' (before ++ [c]) := by
  have hvalid := h.wellFormed.header
  obtain ⟨header, extra, payload, rest, rfl, hheader, hextra, htotal, hencodes⟩ :=
    h.wellFormed.next hchunks hreading.begins
  have hlength : before.length < (sparseHeader b).totalChunks := by
    rw [← h.wellFormed.length, hchunks, List.length_append, List.length_cons]
    omega
  have hnext := hregular.of_append hreading.begins hheader hlength
  have hadd := hreading.exists_add_of_regular hnext
  have hreadable := h.chunks c (by simp [hchunks])
  rw [← hreading.blockSize] at hnext hencodes
  have hpos : 0 < s.blockSize := by
    rw [hreading.blockSize]
    exact Nat.pos_of_ne_zero hvalid.blkSz
  obtain ⟨s', hprocess⟩ : ∃ s', processChunk s (payload ++ rest) (sparseHeader b).chunkHdrSz
      (.ofBytes header) curBlock = .ok (c.blocks, s', rest) :=
    processChunk_of_encodes hencodes htotal (chunkHdrSz_lt b) hpos hreadable hnext.product hadd
  obtain ⟨c', payload', htaken⟩ := (yields_processChunk hnext (le32 header 8).isLt (chunkHdrSz_lt b)
    (payload ++ rest) hadd).of_ok hprocess
  obtain rfl := (hencodes.unique htaken.encodes htaken.buf_eq).1
  rw [hreading.blockSize] at hnext
  refine ⟨s', rest, _, ?_,
    hreading.next hvalid rfl hheader hextra hnext htaken hreadable.blocks⟩
  rw [readChunks, readChunkHeader_append hvalid.chunkHdrSz hheader hextra, ok_bind]
  dsimp only
  rw [hprocess, ok_bind]
  dsimp only
  rw [if_neg (not_le.2 hreadable.blocks)]

theorem ReadableImage.readChunks_ok (h : ReadableImage b chunks) (hregular : Regular b)
    (hchunks : chunks = before ++ after) (hreading : Reading b s buf curBlock before) :
    ∃ s', readChunks (sparseHeader b) after.length s buf curBlock =
      .ok (s', (sparseHeader b).totalBlks) := by
  induction after generalizing before s buf curBlock with
  | nil =>
    rw [List.append_nil] at hchunks
    refine ⟨s, ?_⟩
    rw [← h.wellFormed.blocks, hchunks, ← hreading.count]
    rfl
  | cons c after ih =>
    obtain ⟨s', rest, curBlock', hstep, hread⟩ := h.step hregular hchunks hreading after.length
    rw [List.length_cons, hstep]
    exact ih (by rw [hchunks, List.append_assoc]; rfl) hread

/-- All chunks that the loop has read are readable. -/
theorem Reading.readable_of_readChunks (h : Reading b s buf curBlock before)
    (hvalid : (sparseHeader b).Valid) (hregular : Regular b) (hbefore : ∀ c ∈ before, c.Readable)
    {n : ℕ} (hn : before.length + n = (sparseHeader b).totalChunks) {r : SparseFile × ℕ}
    (hok : readChunks (sparseHeader b) n s buf curBlock = .ok r) :
    ∃ chunks rest, Begins b chunks rest ∧ chunks.length = (sparseHeader b).totalChunks ∧
      ∀ c ∈ chunks, c.Readable := by
  induction n generalizing s buf curBlock before with
  | zero => exact ⟨before, buf, h.begins, hn, hbefore⟩
  | succ n ih =>
    obtain ⟨⟨_, rest⟩, hread, hchunk⟩ := bind_eq_ok_iff.1 hok
    obtain ⟨⟨blocks, s', rest'⟩, hprocess, hmore⟩ := bind_eq_ok_iff.1 hchunk
    dsimp only at hread hprocess hmore
    obtain ⟨header, extra, hparsed, hbuf, hheader, hextra⟩ :=
      (yields_readChunkHeader (sparseHeader b) hvalid.chunkHdrSz buf).of_ok hread
    dsimp only at hparsed hbuf
    obtain rfl := hparsed
    have hbegins := h.begins
    rw [hbuf] at hbegins
    have hnext := hregular.of_append hbegins hheader (by omega)
    have hadd := h.exists_add_of_regular hnext
    rw [← h.blockSize] at hnext
    obtain ⟨c, payload, htaken⟩ := (yields_processChunk hnext (le32 header 8).isLt (chunkHdrSz_lt b)
      rest hadd).of_ok hprocess
    rw [h.blockSize] at hnext
    split_ifs at hmore with hlt
    have hblocks : c.blocks < 2 ^ 31 := by
      rw [← htaken.blocks]
      exact not_le.1 hlt
    refine ih (h.next hvalid hbuf hheader hextra hnext htaken (not_le.1 hlt)) (fun d hd => ?_) ?_ hmore
    · obtain hd | hd := List.mem_append.1 hd
      · exact hbefore d hd
      · rw [List.mem_singleton.1 hd]
        exact readable_of_processChunk htaken.encodes hblocks hprocess
    · rw [List.length_append, List.length_singleton]
      omega

/-! ### The image -/

/-- An image with a valid header is imported as its chunks are read. -/
theorem sparseFileImportBuf_eq (hvalid : (sparseHeader b).Valid)
    (hle : (sparseHeader b).fileHdrSz ≤ b.length)
    (hexpansion : (sparseHeader b).totalBlks * (sparseHeader b).blkSz < 2 ^ 63) :
    sparseFileImportBuf b = readBody (sparseHeader b)
      (.new (sparseHeader b).blkSz ((sparseHeader b).totalBlks * (sparseHeader b).blkSz))
      (b.drop (sparseHeader b).fileHdrSz) := by
  have hsize := hvalid.fileHdrSz
  have htake : (b.take kSparseHeaderLen).length = kSparseHeaderLen :=
    List.length_take_of_le (hsize.trans hle)
  have hread := @readValue_append (b.take kSparseHeaderLen) (b.drop kSparseHeaderLen)
    (List.length_pos_iff.1 (by rw [htake]; decide))
  rw [htake, List.take_append_drop] at hread
  have hdrop : (b.drop kSparseHeaderLen).drop ((sparseHeader b).fileHdrSz - kSparseHeaderLen) =
      b.drop (sparseHeader b).fileHdrSz := by
    rw [List.drop_drop, Nat.add_sub_cancel' hsize]
  have hextra : ((b.drop kSparseHeaderLen).take
      ((sparseHeader b).fileHdrSz - kSparseHeaderLen)).length =
        (sparseHeader b).fileHdrSz - kSparseHeaderLen := by
    rw [List.length_take, List.length_drop]
    omega
  have hskip := @skipLonger_append ((b.drop kSparseHeaderLen).drop
    ((sparseHeader b).fileHdrSz - kSparseHeaderLen)) _ _ _ hsize hextra
  rw [List.take_append_drop, hdrop] at hskip
  have hheader : SparseHeader.ofBytes (b.take kSparseHeaderLen) = sparseHeader b := rfl
  rw [sparseFileImportBuf, hread, ok_bind]
  dsimp only
  rw [hheader, if_neg (not_not.2 hvalid.magic), if_neg (not_not.2 hvalid.majorVersion),
    if_neg (not_lt.2 hsize), if_neg (not_lt.2 hvalid.chunkHdrSz),
    if_neg (not_or.2 ⟨hvalid.blkSz, not_not.2 hvalid.aligned⟩), if_neg hvalid.totalBlks,
    signedProduct_of_lt hexpansion, ok_bind, sparseFileReadSparse, hread, ok_bind]
  dsimp only
  rw [hheader, if_neg (not_not.2 hvalid.magic), if_neg (not_not.2 hvalid.majorVersion),
    if_neg (not_lt.2 hsize), if_neg (not_lt.2 hvalid.chunkHdrSz), hskip, ok_bind]

/-- Every readable image that is regular is imported. -/
theorem ReadableImage.exists_import (h : ReadableImage b chunks) (hregular : Regular b) :
    ∃ s, sparseFileImportBuf b = .ok s := by
  have hvalid := h.wellFormed.header
  obtain ⟨_, hall⟩ := h.wellFormed.begins
  obtain ⟨s, hs⟩ := h.readChunks_ok hregular (List.nil_append _).symm
    (reading_new hall.fileHdrSz_le)
  refine ⟨s, ?_⟩
  rw [sparseFileImportBuf_eq hvalid hall.fileHdrSz_le (hregular.expansion hvalid), readBody,
    ← h.wellFormed.length, hs, ok_bind]
  dsimp only
  rw [if_neg (not_not.2 rfl)]
  rfl

/-- A regular image that is imported is readable. -/
theorem exists_readableImage (hregular : Regular b) (hok : sparseFileImportBuf b = .ok s) :
    ∃ chunks, ReadableImage b chunks := by
  obtain ⟨chunks, hwell, -⟩ := (yields_sparseFileImportBuf hregular).of_ok hok
  obtain ⟨rest, hall⟩ := hwell.begins
  rw [sparseFileImportBuf_eq hwell.header hall.fileHdrSz_le (hregular.expansion hwell.header)] at hok
  obtain ⟨r, hread, -⟩ := bind_eq_ok_iff.1 hok
  obtain ⟨chunks', rest', hall', hlength, hreadable⟩ :=
    (reading_new hall.fileHdrSz_le).readable_of_readChunks hwell.header hregular
      (fun c hc => by cases hc) (Nat.zero_add _) hread
  obtain ⟨rfl, -⟩ := hall.unique hall' (hwell.length.trans hlength.symm)
  exact ⟨chunks, hwell, hreadable⟩

end

/-! ### Images without empty fills -/

section

variable {b buf rest : List Byte} {before after chunks : List SparseChunk} {c : SparseChunk}

theorem blockCount_append (l l' : List SparseChunk) :
    blockCount (l ++ l') = blockCount l + blockCount l' := by
  simp [blockCount]

/-- No chunk with content ends where it starts. -/
def NoEmpty (chunks : List SparseChunk) : Prop := ∀ c ∈ chunks, c.backing.isSome → 0 < c.blocks

theorem lt_of_mem_starts {n start : ℕ} (hne : NoEmpty chunks) (h : n ∈ starts start chunks) :
    n < start + blockCount chunks := by
  induction chunks generalizing start with
  | nil => cases h
  | cons d chunks ih =>
    obtain ⟨hd, hne⟩ := List.forall_mem_cons.1 hne
    rw [starts] at h
    rw [blockCount_cons]
    split_ifs at h with hsome
    · obtain rfl | h := List.mem_cons.1 h
      · have := hd hsome
        omega
      · have := ih hne h
        omega
    · have := ih hne h
      omega

theorem SparseChunk.Encodes.blocks_eq {blkSz : ℕ} {header : ChunkHeader} {payload : List Byte}
    (h : c.Encodes blkSz header payload) : header.blocks = c.blocks := by
  unfold ChunkHeader.blocks
  cases h with
  | raw htype => rw [htype, if_neg (by decide), SparseChunk.blocks]
  | fill htype => rw [htype, if_neg (by decide), SparseChunk.blocks]
  | dontCare htype => rw [htype, if_neg (by decide), SparseChunk.blocks]
  | crc32 htype => rw [htype, if_pos rfl, SparseChunk.blocks]

theorem SparseChunk.Encodes.regular {blkSz : ℕ} {header : ChunkHeader} {payload : List Byte}
    (h : c.Encodes blkSz header payload) (hcount : blockCount before + c.blocks < 2 ^ 32)
    (hproduct : c.blocks * blkSz < 2 ^ 63) (hfresh : blockCount before ∉ starts 0 before) :
    header.Regular blkSz before where
  known := by
    cases h with
    | raw htype => exact .inl (.inl htype)
    | fill htype => exact .inl (.inr htype)
    | dontCare htype => exact .inr (.inl htype)
    | crc32 htype => exact .inr (.inr htype)
  count _ := by
    rw [h.blocks_eq]
    exact hcount
  product hqueues := by
    cases h with
    | raw => exact hproduct
    | fill => exact hproduct
    | dontCare => exact hproduct
    | crc32 htype =>
      obtain hraw | hfill := hqueues
      · exact absurd (htype.symm.trans hraw) (by decide)
      · exact absurd (htype.symm.trans hfill) (by decide)
  fresh _ := hfresh

/-- A readable image is no trouble if its expansion is not too long and no chunk with content is
empty. -/
theorem ReadableImage.regular (h : ReadableImage b chunks) (hne : NoEmpty chunks)
    (hexpansion : (sparseHeader b).totalBlks * (sparseHeader b).blkSz < 2 ^ 63) : Regular b := by
  refine ⟨fun _ => hexpansion, fun before buf hbegins hlength hbuf => ?_⟩
  rw [← h.wellFormed.length] at hlength
  obtain ⟨first, c, after, hchunks, hfirst⟩ :
      ∃ first c after, chunks = first ++ c :: after ∧ first.length = before.length := by
    refine ⟨chunks.take before.length, chunks.get ⟨before.length, hlength⟩,
      chunks.drop (before.length + 1), ?_, List.length_take_of_le hlength.le⟩
    simp
  obtain ⟨rest, hall⟩ := h.wellFormed.begins
  obtain rfl : before = first := by
    rw [hchunks] at hall
    obtain ⟨rest', hupto⟩ := hall.upTo
    obtain ⟨_, _, _, hbefore, -⟩ := hupto.last
    exact (hbegins.unique hbefore hfirst.symm).1
  obtain ⟨header, extra, payload, rest, rfl, hheader, -, -, hencodes⟩ :=
    h.wellFormed.next hchunks hbegins
  rw [List.append_assoc, ← hheader, List.take_left]
  have hle : blockCount before + c.blocks ≤ (sparseHeader b).totalBlks := by
    rw [← h.wellFormed.blocks, hchunks, blockCount_append, blockCount_cons]
    omega
  have hlt : (sparseHeader b).totalBlks < 2 ^ 32 := (le32 (b.take kSparseHeaderLen) 16).isLt
  refine hencodes.regular (hle.trans_lt hlt) ?_ fun hmem => ?_
  · exact lt_of_le_of_lt (Nat.mul_le_mul_right _ ((Nat.le_add_left _ _).trans hle)) hexpansion
  · have hstart := lt_of_mem_starts (fun d hd => hne d (hchunks ▸ List.mem_append_left _ hd)) hmem
    omega

/-- The image can be written, and read again. -/
structure SparseImage.Sound (image : SparseImage) : Prop extends image.Fits where
  readable : ∀ c ∈ image.chunks, c.Readable
  noEmpty : NoEmpty image.chunks
  expansion : blockCount image.chunks * image.blkSz < 2 ^ 63

theorem SparseImage.Sound.readableImage {image : SparseImage} (h : image.Sound) :
    ReadableImage image.bytes image.chunks :=
  ⟨h.wellFormed_bytes, h.readable⟩

theorem SparseImage.Sound.regular {image : SparseImage} (h : image.Sound) :
    Regular image.bytes := by
  refine h.readableImage.regular h.noEmpty ?_
  rw [h.sparseHeader_bytes]
  exact h.expansion

/-- A block that is filled, one to be left alone, and one of data. -/
def sampleImage : SparseImage where
  blkSz := 4
  chunks := [.fill 1 [1, 2, 3, 4], .dontCare 1, .raw 1 [5, 6, 7, 8]]

theorem sound_sampleImage : sampleImage.Sound where
  blkSz := by decide
  aligned := by decide
  blkSz_lt := by decide
  blocks := by decide
  blocks_lt := by decide
  chunks_lt := by decide
  chunks := by
    simp only [sampleImage, List.forall_mem_cons, List.not_mem_nil, false_imp_iff, implies_true,
      and_true]
    exact ⟨⟨by decide, by decide, by decide⟩, ⟨by decide, by decide, by decide⟩,
      ⟨by decide, by decide, by decide⟩⟩
  readable := by
    simp only [sampleImage, List.forall_mem_cons, List.not_mem_nil, false_imp_iff, implies_true,
      and_true]
    exact ⟨⟨by decide, by decide, fun _ => nofun⟩, ⟨by decide, by decide, fun _ => nofun⟩,
      ⟨by decide, by decide, fun _ => nofun⟩⟩
  noEmpty := by
    simp [NoEmpty, sampleImage, SparseChunk.blocks]
  expansion := by decide

end

end RpiFastbootd
