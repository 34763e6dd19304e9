import RpiFastbootd.Libsparse.Complete
import RpiFastbootd.Libsparse.Write

/-!
# What is written

The chunks of a file (`fileChunks`) are one for each of its blocks, and one for each gap before,
between and behind them.  `sparse_file_callback` writes the image with these chunks, and this image
gives to a device what the blocks of the file stand for (`paintChunks_fileChunks`).
-/

namespace RpiFastbootd

/-! ### The chunks of a file -/

/-- The chunk of a block. -/
def FileBlock.chunk (image : List Byte) (blockSize : ℕ) (bb : FileBlock) : SparseChunk :=
  match bb.backing with
  | .fd offset => .raw (bb.len / blockSize) (slice image offset bb.len)
  | .fill val => .fill (bb.len / blockSize) val

/-- The chunk of a gap, if there is one. -/
def gapChunk (blocks : ℕ) : List SparseChunk := if 0 < blocks then [.dontCare blocks] else []

/-- The chunks of some blocks and of the gaps before them. -/
def blockChunks (image : List Byte) (blockSize : ℕ) : ℕ → List FileBlock → List SparseChunk
  | _, [] => []
  | last, bb :: rest =>
    gapChunk (bb.block - last) ++
      bb.chunk image blockSize :: blockChunks image blockSize (bb.block + bb.len / blockSize) rest

/-- The block behind the last one. -/
def lastEnd (blockSize : ℕ) : ℕ → List FileBlock → ℕ
  | last, [] => last
  | _, bb :: rest => lastEnd blockSize (bb.block + bb.len / blockSize) rest

def fileChunks (image : List Byte) (blockSize : ℕ) (l : List FileBlock) (total : ℕ) :
    List SparseChunk :=
  blockChunks image blockSize 0 l ++ gapChunk (total - lastEnd blockSize 0 l)

section

variable {image : List Byte} {blockSize lo hi total : ℕ} {l : List FileBlock} {bb : FileBlock}
  {layer : Layer}

theorem blockCount_gapChunk (n : ℕ) : blockCount (gapChunk n) = n := by
  unfold gapChunk
  split_ifs with h
  · rfl
  · obtain rfl : n = 0 := by omega
    rfl

theorem paintChunks_append {start : ℕ} {chunks chunks' : List SparseChunk} :
    paintChunks blockSize start (chunks ++ chunks') layer =
      paintChunks blockSize (start + blockCount chunks) chunks'
        (paintChunks blockSize start chunks layer) := by
  induction chunks generalizing start layer with
  | nil => rfl
  | cons c chunks ih =>
    rw [List.cons_append, paintChunks, paintChunks, ih, blockCount_cons, Nat.add_assoc]

theorem paintChunks_gapChunk (start n : ℕ) :
    paintChunks blockSize start (gapChunk n) layer = layer := by
  unfold gapChunk
  split_ifs <;> rfl

@[simp] theorem FileBlock.blocks_chunk :
    (bb.chunk image blockSize).blocks = bb.len / blockSize := by
  unfold chunk
  cases bb.backing <;> rfl

theorem FileBlock.backing_chunk :
    (bb.chunk image blockSize).backing = some (bb.load image).backing := by
  unfold chunk load
  cases bb.backing <;> rfl

/-- The bytes of a region are in the file. -/
theorem FileBlock.length_region (h : (bb.load image).Whole blockSize) {offset : ℕ}
    (hoffset : bb.backing = .fd offset) : (slice image offset bb.len).length = bb.len :=
  h.2 _ (by simp only [load, hoffset]; rfl)

theorem Laid.lastEnd_le (h : Laid image blockSize lo l hi) : lastEnd blockSize lo l ≤ hi := by
  induction l generalizing lo with
  | nil => exact h.ordered
  | cons bb l ih =>
    obtain ⟨-, -, -, hrest⟩ := laid_cons.1 h
    exact ih hrest

theorem Laid.blockCount_blockChunks (h : Laid image blockSize lo l hi) :
    lo + blockCount (blockChunks image blockSize lo l) = lastEnd blockSize lo l := by
  induction l generalizing lo with
  | nil => rfl
  | cons bb l ih =>
    obtain ⟨hlo, -, -, hrest⟩ := laid_cons.1 h
    have hcount := ih hrest
    rw [blockChunks, lastEnd, blockCount_append, blockCount_cons, blockCount_gapChunk,
      FileBlock.blocks_chunk]
    omega

theorem Laid.blockCount_fileChunks (h : Laid image blockSize 0 l total) :
    blockCount (fileChunks image blockSize l total) = total := by
  have hcount := h.blockCount_blockChunks
  have hle := h.lastEnd_le
  rw [fileChunks, blockCount_append, blockCount_gapChunk]
  omega

theorem Laid.paintChunks_blockChunks (h : Laid image blockSize lo l hi) :
    paintChunks blockSize lo (blockChunks image blockSize lo l) layer =
      paintFile image blockSize l layer := by
  induction l generalizing lo layer with
  | nil => rfl
  | cons bb l ih =>
    obtain ⟨hlo, hwhole, -, hrest⟩ := laid_cons.1 h
    have hdvd : blockSize ∣ bb.len := hwhole.1
    rw [blockChunks, paintChunks_append, paintChunks_gapChunk, blockCount_gapChunk,
      Nat.add_sub_cancel' hlo, paintChunks, FileBlock.backing_chunk, FileBlock.blocks_chunk,
      Nat.div_mul_cancel hdvd, ih hrest]
    rfl

/-- The chunks of a file give to a device what its blocks stand for. -/
theorem Laid.paintChunks_fileChunks (h : Laid image blockSize 0 l total) :
    paintChunks blockSize 0 (fileChunks image blockSize l total) layer =
      paintFile image blockSize l layer := by
  rw [fileChunks, paintChunks_append, paintChunks_gapChunk, h.paintChunks_blockChunks]

/-- What holds of every block and of every gap holds of the chunks of the file. -/
theorem Laid.forall_fileChunks {P : SparseChunk → Prop} (h : Laid image blockSize 0 l total)
    (hblock : ∀ bb ∈ l, P (bb.chunk image blockSize))
    (hgap : ∀ n, 0 < n → n ≤ total → P (.dontCare n)) :
    ∀ c ∈ fileChunks image blockSize l total, P c := by
  have hgap' : ∀ n ≤ total, ∀ c ∈ gapChunk n, P c := by
    intro n hn c hc
    unfold gapChunk at hc
    split_ifs at hc with hpos
    · rw [List.mem_singleton.1 hc]
      exact hgap n hpos hn
    · cases hc
  have hblocks : ∀ lo, Laid image blockSize lo l total →
      ∀ c ∈ blockChunks image blockSize lo l, P c := by
    clear h
    induction l with
    | nil => exact fun _ _ c hc => by cases hc
    | cons bb l ih =>
      rw [List.forall_mem_cons] at hblock
      intro lo h c hc
      obtain ⟨hlo, -, -, hrest⟩ := laid_cons.1 h
      have hle : bb.block + bb.len / blockSize ≤ total := hrest.ordered.le
      rw [blockChunks, List.mem_append, List.mem_cons] at hc
      obtain hc | rfl | hc := hc
      · exact hgap' _ ((Nat.sub_le _ _).trans ((Nat.le_add_right _ _).trans hle)) c hc
      · exact hblock.1
      · exact ih hblock.2 _ hrest c hc
  intro c hc
  obtain hc | hc := List.mem_append.1 hc
  · exact hblocks 0 h c hc
  · exact hgap' _ (Nat.sub_le _ _) c hc

/-! ### Files that can be written -/

/-- The numbers of blocks and bytes of a file fit into the numbers that they are counted in. -/
structure Geometry (blockSize total : ℕ) : Prop where
  blockSize_pos : 0 < blockSize
  aligned : 4 ∣ blockSize
  blockSize_lt : blockSize < 2 ^ 32
  pos : 0 < total
  lt : total < 2 ^ 31
  expansion : total * blockSize < 2 ^ 63

/-- The blocks of the file lie within its length, which is a number of whole blocks, and each fits
into a chunk of an image. -/
structure FdSparseFile.Sound (image : List Byte) (s : FdSparseFile) (total : ℕ) : Prop
    extends Geometry s.blockSize total where
  laid : Laid image s.blockSize 0 s.dataBlocks total
  len : s.len = total * s.blockSize
  small : ∀ bb ∈ s.dataBlocks, ∀ offset, bb.backing = .fd offset →
    kChunkHeaderLen + bb.len < 2 ^ 32

/-- The image that is written of a file. -/
def FdSparseFile.sparseImage (image : List Byte) (s : FdSparseFile) (total : ℕ) : SparseImage where
  blkSz := s.blockSize
  chunks := fileChunks image s.blockSize s.dataBlocks total

theorem le_blockCount_of_mem {chunks : List SparseChunk} {c : SparseChunk} (h : c ∈ chunks) :
    c.blocks ≤ blockCount chunks := by
  obtain ⟨before, after, rfl⟩ := List.append_of_mem h
  rw [blockCount_append, blockCount_cons]
  omega

theorem length_le_blockCount {chunks : List SparseChunk} (h : ∀ c ∈ chunks, 0 < c.blocks) :
    chunks.length ≤ blockCount chunks := by
  induction chunks with
  | nil => exact Nat.zero_le _
  | cons c chunks ih =>
    rw [List.forall_mem_cons] at h
    have := ih h.2
    rw [blockCount_cons, List.length_cons]
    omega

end

namespace Geometry

variable {image : List Byte} {blockSize total : ℕ}

/-- The numbers of the blocks stay within 32 bits, and their lengths within 64. -/
theorem next_eq (h : Geometry blockSize total) {bb : FileBlock} {lo : ℕ} {l : List FileBlock}
    (hlaid : Laid image blockSize lo (bb :: l) total) :
    bb.next blockSize = bb.block + bb.len / blockSize ∧ bb.len + blockSize < 2 ^ 64 := by
  obtain ⟨-, hwhole, -, hrest⟩ := laid_cons.1 hlaid
  have hdvd : blockSize ∣ bb.len := hwhole.1
  have hle : bb.block + bb.len / blockSize ≤ total := hrest.ordered.le
  have hlen : bb.len ≤ total * blockSize := by
    rw [← Nat.div_mul_cancel hdvd]
    exact Nat.mul_le_mul_right _ (by omega)
  have hexpansion := h.expansion
  have hsize := h.blockSize_lt
  have hlt := h.lt
  refine ⟨?_, by omega⟩
  rw [FileBlock.next, divRoundUp_of_dvd hdvd h.blockSize_pos (by omega),
    Nat.mod_eq_of_lt (by omega)]

theorem signedProduct_eq (h : Geometry blockSize total) {n : ℕ} (hn : n ≤ total) :
    signedProduct n blockSize = .ok (n * blockSize) :=
  signedProduct_of_lt (lt_of_le_of_lt (Nat.mul_le_mul_right _ hn) h.expansion)

end Geometry

namespace FdSparseFile.Sound

variable {image : List Byte} {s : FdSparseFile} {total : ℕ}

/-- A block within the file. -/
theorem block (h : s.Sound image total) {bb : FileBlock} (hbb : bb ∈ s.dataBlocks) :
    bb.Sound ∧ (bb.load image).Whole s.blockSize ∧ bb.len / s.blockSize ≤ total := by
  obtain ⟨before, after, hl⟩ := List.append_of_mem hbb
  have hlaid := h.laid
  rw [hl] at hlaid
  obtain ⟨mid, -, hrest⟩ := laid_append.1 hlaid
  obtain ⟨-, hwhole, hsound, hafter⟩ := laid_cons.1 hrest
  have hle : bb.block + bb.len / s.blockSize ≤ total := hafter.ordered.le
  exact ⟨hsound, hwhole, by omega⟩

theorem blocks_pos (h : s.Sound image total) :
    ∀ c ∈ (s.sparseImage image total).chunks, 0 < c.blocks := by
  refine h.laid.forall_fileChunks (fun bb hbb => ?_) fun n hn _ => hn
  obtain ⟨hsound, hwhole, -⟩ := h.block hbb
  rw [FileBlock.blocks_chunk]
  exact Nat.div_pos (Nat.le_of_dvd hsound.pos hwhole.1) h.blockSize_pos

theorem fits (h : s.Sound image total) :
    ∀ c ∈ (s.sparseImage image total).chunks, c.Fits s.blockSize := by
  refine h.laid.forall_fileChunks (fun bb hbb => ?_) fun n _ hn =>
    ⟨trivial, ?_, (by decide : kChunkHeaderLen + 0 < 2 ^ 32)⟩
  · obtain ⟨hsound, hwhole, hblocks⟩ := h.block hbb
    have hdvd : s.blockSize ∣ bb.len := hwhole.1
    have hlt := h.lt
    have hsmall := h.small bb hbb
    unfold FileBlock.chunk
    split
    · rename_i offset hoffset
      refine ⟨?_, ?_, ?_⟩
      · show (slice image offset bb.len).length = bb.len / s.blockSize * s.blockSize
        rw [FileBlock.length_region hwhole hoffset, Nat.div_mul_cancel hdvd]
      · show bb.len / s.blockSize < 2 ^ 32
        omega
      · show kChunkHeaderLen + (slice image offset bb.len).length < 2 ^ 32
        rw [FileBlock.length_region hwhole hoffset]
        exact hsmall offset hoffset
    · rename_i val hval
      have hword := hsound.word val hval
      refine ⟨hword, ?_, ?_⟩
      · show bb.len / s.blockSize < 2 ^ 32
        omega
      · show kChunkHeaderLen + val.length < 2 ^ 32
        rw [hword]
        decide
  · have := h.lt
    show n < 2 ^ 32
    omega

theorem readable (h : s.Sound image total) :
    ∀ c ∈ (s.sparseImage image total).chunks, c.Readable := by
  intro c hc
  have hfits := h.fits c hc
  have htotal := hfits.total
  refine ⟨?_, by omega, fun n hn => ?_⟩
  · have hcount := h.laid.blockCount_fileChunks
    have hle : c.blocks ≤ total := by
      rw [← hcount]
      exact le_blockCount_of_mem hc
    exact hle.trans_lt h.lt
  · have hpos := h.blocks_pos c hc
    have hsized := hfits.sized
    rw [hn] at hpos hsized
    change 0 = n * s.blockSize at hsized
    change 0 < n at hpos
    have := Nat.mul_pos hpos h.blockSize_pos
    omega

/-- The image of the file can be written, and read again. -/
theorem sparseImage (h : s.Sound image total) : (s.sparseImage image total).Sound where
  blkSz := h.blockSize_pos.ne'
  aligned := Nat.mod_eq_zero_of_dvd h.aligned
  blkSz_lt := h.blockSize_lt
  blocks := by
    rw [FdSparseFile.sparseImage, h.laid.blockCount_fileChunks]
    exact h.pos.ne'
  blocks_lt := by
    have := h.lt
    rw [FdSparseFile.sparseImage, h.laid.blockCount_fileChunks]
    omega
  chunks_lt := by
    have hle := length_le_blockCount h.blocks_pos
    have := h.lt
    rw [FdSparseFile.sparseImage, h.laid.blockCount_fileChunks] at hle
    exact hle.trans_lt (by omega)
  chunks := h.fits
  readable := h.readable
  noEmpty c hc _ := h.blocks_pos c hc
  expansion := by
    rw [FdSparseFile.sparseImage, h.laid.blockCount_fileChunks]
    exact h.expansion

theorem divRoundUp_len (h : s.Sound image total) : divRoundUp s.len s.blockSize = total := by
  have hexpansion := h.expansion
  have hsize := h.blockSize_lt
  have hdvd : s.blockSize ∣ total * s.blockSize := Nat.dvd_mul_left _ _
  rw [h.len, divRoundUp_of_dvd hdvd h.blockSize_pos (by omega),
    Nat.mul_div_cancel _ h.blockSize_pos]

theorem countLoop_eq (h : s.Sound image total) {l : List FileBlock} {lo : ℕ}
    (hlaid : Laid image s.blockSize lo l total) (chunks : ℕ) :
    countLoop s.blockSize l lo chunks =
      (lastEnd s.blockSize lo l, chunks + (blockChunks image s.blockSize lo l).length) := by
  induction l generalizing lo chunks with
  | nil => rfl
  | cons bb l ih =>
    obtain ⟨hlo, -, -, hrest⟩ := laid_cons.1 hlaid
    rw [countLoop, (h.toGeometry.next_eq hlaid).1, ih hrest, lastEnd, blockChunks, gapChunk, List.length_append,
      List.length_cons]
    split_ifs with hgap hpos hpos
    · rw [List.length_singleton]
      congr 1
      omega
    · omega
    · omega
    · rw [List.length_nil]
      congr 1
      omega

/-- The header announces the blocks and the chunks of the image. -/
theorem outputHeader_eq (h : s.Sound image total) :
    outputHeader s = (s.sparseImage image total).header := by
  have hle := h.laid.lastEnd_le
  have hlength : (s.sparseImage image total).chunks.length < 2 ^ 32 := h.sparseImage.chunks_lt
  have hchunks : sparseCountChunks s = (s.sparseImage image total).chunks.length := by
    rw [sparseCountChunks, h.countLoop_eq h.laid, h.divRoundUp_len]
    dsimp only
    rw [← Nat.mod_eq_of_lt hlength]
    congr 1
    rw [FdSparseFile.sparseImage, fileChunks, List.length_append, gapChunk, Nat.zero_add]
    split_ifs with hgap hpos hpos
    · rfl
    · omega
    · omega
    · rfl
  rw [outputHeader, SparseImage.header, hchunks, h.divRoundUp_len]
  congr 1
  exact h.laid.blockCount_fileChunks.symm

end FdSparseFile.Sound

/-! ### The writer -/

/-- A callback that takes all bytes; `I` says which it has been given so far. -/
structure Collects {σ : Type} (write : σ → List Byte → Bool × σ) (I : List Byte → σ → Prop) :
    Prop where
  take : ∀ {sent st}, I sent st → ∀ bytes,
    ∃ st', write st bytes = (true, st') ∧ I (sent ++ bytes) st'

theorem flatten_mappedRanges (image : List Byte) (offset : ℕ) (lens : List ℕ) :
    (mappedRanges image offset lens).flatten = slice image offset lens.sum := by
  induction lens generalizing offset with
  | nil => rw [mappedRanges, List.sum_nil, slice, List.take_zero, List.flatten_nil]
  | cons n lens ih =>
    rw [mappedRanges, List.flatten_cons, ih, List.sum_cons]
    exact take_drop_append offset n lens.sum

section

variable {σ : Type} {write : σ → List Byte → Bool × σ} {I : List Byte → σ → Prop}
  {image sent : List Byte} {s : FdSparseFile} {total : ℕ} {st : σ}

theorem Collects.parts (h : Collects write I) (hst : I sent st) (parts : List (List Byte)) :
    ∃ st', writeParts write parts st = (true, st') ∧ I (sent ++ parts.flatten) st' := by
  induction parts generalizing sent st with
  | nil =>
    refine ⟨st, rfl, ?_⟩
    rw [List.flatten_nil, List.append_nil]
    exact hst
  | cons p parts ih =>
    obtain ⟨st₁, hwrite, hst₁⟩ := h.take hst p
    obtain ⟨st₂, hrest, hst₂⟩ := ih hst₁
    refine ⟨st₂, ?_, ?_⟩
    · rw [writeParts, hwrite]
      exact hrest
    · rw [List.flatten_cons, ← List.append_assoc]
      exact hst₂

/-- The chunk of a whole block. -/
theorem Collects.block (h : Collects write I) (hst : I sent st) {bb : FileBlock} {blockSize : ℕ}
    (hsound : bb.Sound) (hwhole : (bb.load image).Whole blockSize) (hpos : 0 < blockSize)
    (hlt : bb.len + blockSize < 2 ^ 64) :
    ∃ st', writeSparseBlock write image blockSize bb st = (true, st') ∧
      I (sent ++ (bb.chunk image blockSize).bytes) st' := by
  have hdvd : blockSize ∣ bb.len := hwhole.1
  have hrnd : wrap (blockSize * divRoundUp bb.len blockSize) = bb.len := by
    rw [divRoundUp_of_dvd hdvd hpos hlt, Nat.mul_div_cancel' hdvd, wrap_of_lt (by omega)]
  cases hbacking : bb.backing with
  | fd offset =>
    have hparts := h.parts hst (ChunkHeader.bytes ⟨kChunkTypeRaw, bb.len / blockSize,
      kChunkHeaderLen + bb.len⟩ :: (mappedRanges image offset (pieces kMaxMmapSize bb.len) ++
        (pieces kFillZeroBufSize (bb.len - bb.len)).map fun n => List.replicate n 0))
    have hzero : pieces kFillZeroBufSize (bb.len - bb.len) = [] := by
      rw [Nat.sub_self]
      rfl
    simp only [writeSparseBlock, FileBlock.chunk, hbacking]
    rw [writeSparseFdChunk, hrnd]
    simp only [hzero, List.map_nil, List.append_nil, List.flatten_cons, flatten_mappedRanges,
      sum_pieces] at hparts ⊢
    rw [SparseChunk.bytes, SparseChunk.header, SparseChunk.payload,
      FileBlock.length_region hwhole hbacking]
    exact hparts
  | fill val =>
    have hparts := h.parts hst [ChunkHeader.bytes ⟨kChunkTypeFill, bb.len / blockSize,
      kChunkHeaderLen + 4⟩, val]
    simp only [writeSparseBlock, FileBlock.chunk, hbacking]
    rw [writeSparseFillChunk, hrnd]
    simp only [List.flatten_cons, List.flatten_nil, List.append_nil] at hparts
    rw [SparseChunk.bytes, SparseChunk.header, SparseChunk.payload, hsound.word val hbacking]
    exact hparts

/-- The chunk of a gap. -/
theorem Collects.skip (h : Collects write I) (hst : I sent st) (n : ℕ) {blockSize : ℕ}
    (hpos : 0 < blockSize) :
    ∃ st', writeSparseSkipChunk write blockSize (n * blockSize) st = (true, st') ∧
      I (sent ++ (SparseChunk.dontCare n).bytes) st' := by
  have hparts := h.parts hst
    [ChunkHeader.bytes ⟨kChunkTypeDontCare, n, kChunkHeaderLen⟩]
  rw [writeSparseSkipChunk, Nat.mul_mod_left, if_neg (by simp), Nat.mul_div_cancel _ hpos]
  rw [List.flatten_cons, List.flatten_nil] at hparts
  exact hparts

theorem Collects.gap (h : Collects write I) (hsound : s.Sound image total) (hst : I sent st)
    (lastBlock : ℕ) {block : ℕ} (hle : block ≤ total) :
    ∃ st', writeSparseGap write s.blockSize lastBlock block st = .ok st' ∧
      I (sent ++ (gapChunk (block - lastBlock)).flatMap SparseChunk.bytes) st' := by
  unfold writeSparseGap gapChunk
  split_ifs with hgap hpos hpos
  · obtain ⟨st', hskip, hst'⟩ := h.skip hst (block - lastBlock) hsound.blockSize_pos
    refine ⟨st', ?_, ?_⟩
    · rw [hsound.toGeometry.signedProduct_eq ((Nat.sub_le _ _).trans hle), ok_bind, hskip]
      rfl
    · rw [List.flatMap_cons, List.flatMap_nil, List.append_nil]
      exact hst'
  · omega
  · omega
  · refine ⟨st, rfl, ?_⟩
    rw [List.flatMap_nil, List.append_nil]
    exact hst

theorem Collects.blocks (h : Collects write I) (hsound : s.Sound image total) (hst : I sent st)
    {l : List FileBlock} {lo : ℕ} (hlaid : Laid image s.blockSize lo l total) :
    ∃ st', writeSparseBlocks write image s.blockSize l lo st =
        .ok (true, st', lastEnd s.blockSize lo l) ∧
      I (sent ++ (blockChunks image s.blockSize lo l).flatMap SparseChunk.bytes) st' := by
  induction l generalizing lo sent st with
  | nil =>
    refine ⟨st, rfl, ?_⟩
    rw [blockChunks, List.flatMap_nil, List.append_nil]
    exact hst
  | cons bb l ih =>
    obtain ⟨hlo, hwhole, hbb, hrest⟩ := laid_cons.1 hlaid
    obtain ⟨hnext, hlt⟩ := hsound.toGeometry.next_eq hlaid
    have hle : bb.block ≤ total := (Nat.le_add_right _ _).trans hrest.ordered.le
    obtain ⟨st₁, hgap, hst₁⟩ := h.gap hsound hst lo hle
    obtain ⟨st₂, hblock, hst₂⟩ := h.block hst₁ hbb hwhole hsound.blockSize_pos hlt
    obtain ⟨st₃, hmore, hst₃⟩ := ih hst₂ hrest
    refine ⟨st₃, ?_, ?_⟩
    · rw [writeSparseBlocks, hgap, ok_bind, hblock]
      dsimp only
      rw [hnext]
      exact hmore
    · rw [blockChunks, List.flatMap_append, List.flatMap_cons]
      simpa only [List.append_assoc] using hst₃

/-- A callback that takes all bytes gets those of the image of the file. -/
theorem Collects.sparseFileCallback (h : Collects write I) (hsound : s.Sound image total)
    (hst : I [] st) :
    ∃ st', RpiFastbootd.sparseFileCallback write image s st = .ok (true, st') ∧
      I (s.sparseImage image total).bytes st' := by
  obtain ⟨st₁, hheader, hst₁⟩ := h.take hst (outputHeader s).bytes
  obtain ⟨st₂, hblocks, hst₂⟩ := h.blocks hsound hst₁ hsound.laid
  have hle := hsound.laid.lastEnd_le
  have hlen := hsound.len
  have hpos := hsound.blockSize_pos
  have hused : lastEnd s.blockSize 0 s.dataBlocks * s.blockSize ≤ s.len := by
    rw [hlen]
    exact Nat.mul_le_mul_right _ hle
  obtain ⟨st₃, hskip, hst₃⟩ := h.skip hst₂ (total - lastEnd s.blockSize 0 s.dataBlocks) hpos
  have hpad : s.len - lastEnd s.blockSize 0 s.dataBlocks * s.blockSize =
      (total - lastEnd s.blockSize 0 s.dataBlocks) * s.blockSize := by
    rw [hlen, Nat.sub_mul]
  have hiff : lastEnd s.blockSize 0 s.dataBlocks * s.blockSize < s.len ↔
      0 < total - lastEnd s.blockSize 0 s.dataBlocks := by
    rw [hlen, Nat.mul_lt_mul_right hpos]
    omega
  rw [RpiFastbootd.sparseFileCallback, hheader]
  dsimp only
  rw [writeAllSparse, hblocks, ok_bind]
  dsimp only
  rw [hsound.toGeometry.signedProduct_eq hle, ok_bind, if_neg (not_lt.2 hused)]
  rw [SparseImage.bytes, ← hsound.outputHeader_eq, FdSparseFile.sparseImage, fileChunks, gapChunk,
    List.flatMap_append, ← List.append_assoc]
  rw [List.nil_append] at hst₂ hst₃
  split_ifs with hend htotal htotal
  · refine ⟨st₃, ?_, ?_⟩
    · rw [hpad, hskip]
      rfl
    · rw [List.flatMap_cons, List.flatMap_nil, List.append_nil]
      exact hst₃
  · exact absurd (hiff.1 hend) htotal
  · exact absurd (hiff.2 htotal) hend
  · refine ⟨st₂, rfl, ?_⟩
    rw [List.flatMap_nil, List.append_nil]
    exact hst₂

theorem collects_countBytes :
    Collects countBytes fun sent count => count = wrap sent.length where
  take hst bytes := ⟨_, rfl, by rw [hst, wrap_wrap_add, List.length_append]⟩

/-- The length of the sparse format is the number of bytes of the image. -/
theorem FdSparseFile.Sound.sparseFileLenSparse_eq (h : s.Sound image total)
    (hlt : (s.sparseImage image total).bytes.length < 2 ^ 63) :
    sparseFileLenSparse image s = .ok ((s.sparseImage image total).bytes.length : ℤ) := by
  obtain ⟨count, hwrite, hcount⟩ :=
    collects_countBytes.sparseFileCallback h (rfl : 0 = wrap 0)
  obtain rfl := hcount
  rw [sparseFileLenSparse, hwrite, wrap_of_lt (by omega)]
  show Except.ok _ = _
  congr 1
  rw [BitVec.toInt_eq_toNat_of_lt] <;> rw [BitVec.toNat_ofNat, Nat.mod_eq_of_lt (by omega)]
  omega

theorem collects_keepBytes : Collects keepBytes fun sent kept => kept = sent where
  take hst bytes := ⟨_, rfl, by rw [hst]⟩

theorem FdSparseFile.Sound.writtenBytes_eq (h : s.Sound image total) :
    writtenBytes image s = .ok (s.sparseImage image total).bytes := by
  obtain ⟨kept, hwrite, rfl⟩ := collects_keepBytes.sparseFileCallback h (rfl : [] = [])
  rw [writtenBytes, hwrite]
  rfl

/-- A well-formed image has the chunks of one list only. -/
theorem WellFormed.unique {data : List Byte} {chunks chunks' : List SparseChunk}
    (h : WellFormed data chunks) (h' : WellFormed data chunks') : chunks = chunks' := by
  obtain ⟨rest, hall⟩ := h.begins
  obtain ⟨rest', hall'⟩ := h'.begins
  exact (hall.unique hall' (h.length.trans h'.length.symm)).1

end

/-- A file of three blocks of four bytes, of which the second one is a gap. -/
def smallFile : FdSparseFile where
  blockSize := 4
  len := 12
  dataBlocks := [⟨0, 4, .fill [1, 2, 3, 4]⟩, ⟨2, 4, .fd 1⟩]

theorem sound_smallFile : smallFile.Sound [9, 5, 6, 7, 8] 3 where
  blockSize_pos := by decide
  aligned := by decide
  blockSize_lt := by decide
  pos := by decide
  lt := by decide
  expansion := by decide
  laid := by
    refine ⟨⟨by decide, ⟨by decide, fun bytes hdata => by cases hdata⟩, by decide,
      ⟨by decide, fun bytes hdata => ?_⟩, show 3 ≤ 3 from le_rfl⟩, fun bb hbb => ?_⟩
    · cases hdata
      rfl
    · simp only [smallFile, List.mem_cons, List.not_mem_nil, or_false] at hbb
      obtain rfl | rfl := hbb
      · exact ⟨by decide, fun val hval => by cases hval; rfl⟩
      · exact ⟨by decide, fun val hval => by cases hval⟩
  len := rfl
  small := by
    intro bb hbb offset hoffset
    simp only [smallFile, List.mem_cons, List.not_mem_nil, or_false] at hbb
    obtain rfl | rfl := hbb
    · cases hoffset
    · decide

end RpiFastbootd
