import RpiFastbootd.Libsparse.Resparse

/-!
# The pieces of a file

`Moves` says what a round of the splitting does, and `Divided` into which pieces a list of blocks is
divided.  The pieces together are the blocks, some of them in two halves; each of them is short
enough; and when the blocks have gone back to where they came from, the second splitting gives the
pieces that the first one has counted (`Divided.again`), so that no place is left and no block lost.
-/

namespace RpiFastbootd

/-! ### What a block takes -/

/-- The bytes of the chunk of a block. -/
def FileBlock.size (bb : FileBlock) : ℕ :=
  match bb.backing with
  | .fd _ => kChunkHeaderLen + bb.len
  | .fill _ => kChunkHeaderLen + 4

/-- The bytes of the chunk of a block and of the gap before it. -/
def FileBlock.cost (lastBlock : ℕ) (bb : FileBlock) : ℕ :=
  (if lastBlock < bb.block then kChunkHeaderLen else 0) + bb.size

/-- The bytes of the chunks of some blocks and of the gaps before them. -/
def costFrom (blockSize : ℕ) : ℕ → List FileBlock → ℕ
  | _, [] => 0
  | lastBlock, bb :: rest =>
    bb.cost lastBlock + costFrom blockSize (bb.block + bb.len / blockSize) rest

section

variable {image : List Byte} {blockSize lo total lastBlock : ℕ} {bb : FileBlock}
  {l : List FileBlock}

theorem FileBlock.cost_le : bb.cost lastBlock ≤ kChunkHeaderLen + bb.size := by
  unfold cost
  split_ifs <;> omega

theorem FileBlock.size_le_cost : bb.size ≤ bb.cost lastBlock := Nat.le_add_left _ _

theorem FileBlock.length_chunk (hsound : bb.Sound) (hwhole : (bb.load image).Whole blockSize) :
    (bb.chunk image blockSize).bytes.length = bb.size := by
  cases hbacking : bb.backing with
  | fd offset =>
    simp only [chunk, size, hbacking]
    rw [SparseChunk.bytes, List.length_append, ChunkHeader.length_bytes, SparseChunk.payload,
      length_region hwhole hbacking]
  | fill val =>
    simp only [chunk, size, hbacking]
    rw [SparseChunk.bytes, List.length_append, ChunkHeader.length_bytes, SparseChunk.payload,
      hsound.word val hbacking]

theorem length_gapChunk (n : ℕ) :
    ((gapChunk n).flatMap SparseChunk.bytes).length = if 0 < n then kChunkHeaderLen else 0 := by
  unfold gapChunk
  split_ifs
  · simp [SparseChunk.bytes, SparseChunk.payload, ChunkHeader.length_bytes]
  · rfl

theorem Geometry.len_lt (hg : Geometry blockSize total)
    (h : Laid image blockSize lo (bb :: l) total) : bb.len < 2 ^ 63 := by
  obtain ⟨-, hwhole, -, hrest⟩ := laid_cons.1 h
  have hle : bb.block + bb.len / blockSize ≤ total := hrest.ordered.le
  calc bb.len = bb.len / blockSize * blockSize := (Nat.div_mul_cancel hwhole.1).symm
    _ ≤ total * blockSize := Nat.mul_le_mul_right _ (by omega)
    _ < 2 ^ 63 := hg.expansion

/-- What is counted for a block. -/
theorem countBlock_eq (hg : Geometry blockSize total) (h : Laid image blockSize lo (bb :: l) total) :
    countBlock image blockSize lastBlock bb = bb.cost lastBlock := by
  obtain ⟨-, hwhole, hsound, -⟩ := laid_cons.1 h
  have hlen := hg.len_lt h
  have hsize : bb.size ≤ kChunkHeaderLen + max 4 bb.len := by
    unfold FileBlock.size
    split <;> omega
  have hgap : (if lastBlock < bb.block then kChunkHeaderLen else 0) ≤ kChunkHeaderLen := by
    split_ifs <;> omega
  have hheader : kChunkHeaderLen = 12 := rfl
  generalize hn : (if lastBlock < bb.block then kChunkHeaderLen else 0) = n at hgap
  have hstart : n = wrap (List.replicate n (0 : Byte)).length := by
    rw [List.length_replicate, wrap_of_lt (by omega)]
  obtain ⟨count, hwrite, hcount⟩ := collects_countBytes.block hstart hsound hwhole
    hg.blockSize_pos (hg.next_eq h).2
  rw [countBlock, FileBlock.cost, hn, hwrite, hcount, List.length_append, List.length_replicate,
    FileBlock.length_chunk hsound hwhole, wrap_of_lt (by omega)]

theorem Laid.length_blockChunks (h : Laid image blockSize lo l total) :
    ((blockChunks image blockSize lo l).flatMap SparseChunk.bytes).length =
      costFrom blockSize lo l := by
  induction l generalizing lo with
  | nil => rfl
  | cons bb l ih =>
    obtain ⟨hlo, hwhole, hsound, hrest⟩ := laid_cons.1 h
    have hiff : 0 < bb.block - lo ↔ lo < bb.block := Nat.sub_pos_iff_lt
    rw [blockChunks, List.flatMap_append, List.length_append, length_gapChunk, List.flatMap_cons,
      List.length_append, FileBlock.length_chunk hsound hwhole, ih hrest, costFrom, FileBlock.cost,
      Nat.add_assoc]
    simp only [hiff]

end

/-! ### One round -/

/-- A piece has room for a header, a gap at its end and eight blocks. -/
structure Roomy (blockSize maxLen : ℕ) : Prop where
  lt : maxLen < 2 ^ 32
  least : kResparseOverhead + 128 ≤ maxLen
  blocks : kResparseOverhead + 8 * blockSize ≤ maxLen

/-- What a round does with the blocks behind `lastBlock`, where `fileLen` bytes are taken: the blocks
of the piece, those that are left, and whether there is another round.  `fresh` says that the piece
has no block yet. -/
inductive Moves (image : List Byte) (blockSize len : ℕ) : Bool → (lastBlock fileLen : ℕ) →
    (l piece left : List FileBlock) → Bool → Prop
  | done {fresh lastBlock fileLen} : Moves image blockSize len fresh lastBlock fileLen [] [] [] false
  | fits {fresh lastBlock fileLen bb rest piece left more} :
    fileLen + bb.cost lastBlock ≤ len →
    Moves image blockSize len false (bb.block + bb.len / blockSize)
      (fileLen + bb.cost lastBlock) rest piece left more →
    Moves image blockSize len fresh lastBlock fileLen (bb :: rest) (bb :: piece) left more
  | stops {lastBlock fileLen bb rest} :
    len < fileLen + bb.cost lastBlock → len ≤ fileLen + kChunkHeaderLen + len / 8 →
    Moves image blockSize len false lastBlock fileLen (bb :: rest) [] (bb :: rest) true
  | whole {fresh lastBlock fileLen bb rest} :
    len < fileLen + bb.cost lastBlock →
    (fresh = true ∨ fileLen + kChunkHeaderLen + len / 8 < len) →
    bb.len + (fileLen + kChunkHeaderLen) ≤ len →
    Moves image blockSize len fresh lastBlock fileLen (bb :: rest) [bb] rest true
  | splits {fresh lastBlock fileLen bb first second rest} :
    len < fileLen + bb.cost lastBlock →
    (fresh = true ∨ fileLen + kChunkHeaderLen + len / 8 < len) →
    bb.split blockSize (len - (fileLen + kChunkHeaderLen)) = (first, [second]) →
    Halves image blockSize bb first second →
    (∃ offset, bb.backing = .fd offset ∧ first.backing = .fd offset ∧
      second.backing = .fd (offset + first.len)) →
    first.len + (fileLen + kChunkHeaderLen) ≤ len →
    len < first.len + blockSize + (fileLen + kChunkHeaderLen) →
    Moves image blockSize len fresh lastBlock fileLen (bb :: rest) [first] (second :: rest) true

section

variable {image : List Byte} {blockSize len lo total lastBlock fileLen : ℕ} {fresh more : Bool}
  {bb : FileBlock} {l piece left taken : List FileBlock} {layer : Layer}

/-- A block that is split where there is some room is one of the file. -/
theorem exists_fd_of_split (hlen : 128 ≤ len) (hfresh : fresh = true → fileLen = 0)
    (hcost : len < fileLen + bb.cost lastBlock)
    (hroom : fresh = true ∨ fileLen + kChunkHeaderLen + len / 8 < len) :
    ∃ offset, bb.backing = .fd offset := by
  have hheader : kChunkHeaderLen = 12 := rfl
  have hle := @FileBlock.cost_le lastBlock bb
  cases hbacking : bb.backing with
  | fd offset => exact ⟨offset, rfl⟩
  | fill val =>
    have hsize : bb.size = kChunkHeaderLen + 4 := by simp [FileBlock.size, hbacking]
    obtain hfresh' | hroom := hroom
    · have := hfresh hfresh'
      omega
    · omega

/-- There is always something that a round does. -/
theorem exists_moves (hg : Geometry blockSize total) (hlen : 128 ≤ len) (hblocks : 8 * blockSize ≤ len)
    (h : Laid image blockSize lo l total) (fresh : Bool) (lastBlock : ℕ) {fileLen : ℕ}
    (hfresh : fresh = true → fileLen = 0) :
    ∃ piece left more, Moves image blockSize len fresh lastBlock fileLen l piece left more := by
  induction l generalizing lo fresh lastBlock fileLen with
  | nil => exact ⟨[], [], false, .done⟩
  | cons bb rest ih =>
    obtain ⟨-, -, -, hrest⟩ := laid_cons.1 h
    have hheader : kChunkHeaderLen = 12 := rfl
    by_cases hcost : fileLen + bb.cost lastBlock ≤ len
    · obtain ⟨piece, left, more, hmoves⟩ := ih hrest false (bb.block + bb.len / blockSize) (by simp)
      exact ⟨_, _, _, .fits hcost hmoves⟩
    rw [not_le] at hcost
    by_cases hroom : fresh = true ∨ fileLen + kChunkHeaderLen + len / 8 < len
    · obtain ⟨offset, hoffset⟩ := exists_fd_of_split hlen hfresh hcost hroom
      have hroom' : blockSize + (fileLen + kChunkHeaderLen) ≤ len := by
        obtain hfresh' | hroom := hroom
        · have := hfresh hfresh'
          omega
        · omega
      obtain ⟨hle, -⟩ | ⟨first, second, hsplit, hfirst, hlast, -, hfd, hhalves⟩ :=
        @split_cases image blockSize (len - (fileLen + kChunkHeaderLen)) lo total bb rest hg h
          (by omega)
      · exact ⟨_, _, _, .whole hcost hroom (by omega)⟩
      · exact ⟨_, _, _, .splits hcost hroom hsplit hhalves ⟨offset, hoffset, hfd offset hoffset⟩
          (by omega) (by omega)⟩
    · have hnot : fresh = false := by
        cases fresh
        · rfl
        · exact absurd (.inl rfl) hroom
      subst hnot
      exact ⟨_, _, _, .stops hcost (by omega)⟩

/-- The loop does what the round says. -/
theorem Moves.moveLoop_eq (h : Moves image blockSize len fresh lastBlock fileLen l piece left more)
    (hg : Geometry blockSize total) (hlen : len < 2 ^ 32) (hlaid : Laid image blockSize lo l total)
    (htaken : taken.isEmpty = fresh) :
    moveLoop image blockSize len taken lastBlock fileLen l = (taken ++ piece, left, more) := by
  induction h generalizing lo taken with
  | done => rw [moveLoop, List.append_nil]
  | fits hcost _ ih =>
    obtain ⟨-, -, -, hrest⟩ := laid_cons.1 hlaid
    rw [moveLoop, countBlock_eq hg hlaid, if_neg (by omega), (hg.next_eq hlaid).1,
      ih hrest (by simp), List.append_assoc]
    rfl
  | stops hcost hroom =>
    rw [moveLoop, countBlock_eq hg hlaid, if_pos hcost]
    rw [if_neg, List.append_nil]
    rintro (hnil | hmore)
    · simp [hnil] at htaken
    · omega
  | @whole fresh lastBlock fileLen bb rest hcost hroom hfit =>
    rw [moveLoop, countBlock_eq hg hlaid, if_pos hcost]
    dsimp only
    rw [if_pos (hroom.imp (fun hfresh => by simpa using htaken.trans hfresh) fun hmore => by omega)]
    have hnumber : (((len : ℤ) - (fileLen + kChunkHeaderLen : ℕ)) % 2 ^ 32).toNat =
        len - (fileLen + kChunkHeaderLen) := by
      omega
    have hmod := Nat.div_add_mod (len - (fileLen + kChunkHeaderLen)) blockSize
    have hwhole : blockSize ∣ bb.len := (laid_cons.1 hlaid).2.1.1
    have hdown : bb.len ≤ blockSize * ((len - (fileLen + kChunkHeaderLen)) / blockSize) := by
      obtain ⟨k, hk⟩ := hwhole
      rw [hk]
      refine Nat.mul_le_mul_left _ ((Nat.le_div_iff_mul_le hg.blockSize_pos).2 ?_)
      rw [Nat.mul_comm, ← hk]
      omega
    rw [hnumber, FileBlock.split, if_pos hdown]
    rfl
  | @splits fresh lastBlock fileLen bb first second rest hcost hroom hsplit _ _ hfit _ =>
    rw [moveLoop, countBlock_eq hg hlaid, if_pos hcost]
    dsimp only
    rw [if_pos (hroom.imp (fun hfresh => by simpa using htaken.trans hfresh) fun hmore => by omega)]
    have hnumber : (((len : ℤ) - (fileLen + kChunkHeaderLen : ℕ)) % 2 ^ 32).toNat =
        len - (fileLen + kChunkHeaderLen) := by
      omega
    rw [hnumber, hsplit]
    rfl

/-- The piece and the rest are the blocks, of which one may be in two halves. -/
theorem Moves.laid (h : Moves image blockSize len fresh lastBlock fileLen l piece left more)
    (hlaid : Laid image blockSize lo l total) : Laid image blockSize lo (piece ++ left) total := by
  induction h generalizing lo with
  | done => exact hlaid
  | fits _ _ ih =>
    obtain ⟨hlo, hwhole, hsound, hrest⟩ := laid_cons.1 hlaid
    exact laid_cons.2 ⟨hlo, hwhole, hsound, ih hrest⟩
  | stops => exact hlaid
  | whole => exact hlaid
  | splits _ _ _ hhalves => exact hhalves.laid hlaid

theorem Moves.paintFile (h : Moves image blockSize len fresh lastBlock fileLen l piece left more) :
    paintFile image blockSize (piece ++ left) layer = paintFile image blockSize l layer := by
  induction h generalizing layer with
  | done => rfl
  | fits _ _ ih => exact ih
  | stops => rfl
  | whole => rfl
  | splits _ _ _ hhalves => exact hhalves.paintFile

theorem Moves.left_eq_nil (h : Moves image blockSize len fresh lastBlock fileLen l piece left more)
    (hmore : more = false) : left = [] := by
  induction h with
  | done => rfl
  | fits _ _ ih => exact ih hmore
  | stops | whole | splits => cases hmore

/-- A piece has room for its blocks, up to a gap before the last one. -/
theorem Moves.cost_le (h : Moves image blockSize len fresh lastBlock fileLen l piece left more)
    (hlen : 128 ≤ len) (hfresh : fresh = true → fileLen = 0) (hfileLen : fileLen ≤ len) :
    fileLen + costFrom blockSize lastBlock piece ≤ len + kChunkHeaderLen := by
  induction h with
  | done => exact hfileLen.trans (Nat.le_add_right _ _)
  | fits hcost _ ih =>
    have := ih (by simp) hcost
    rw [costFrom]
    omega
  | stops => exact hfileLen.trans (Nat.le_add_right _ _)
  | @whole fresh lastBlock fileLen bb rest hcost hroom hfit =>
    obtain ⟨offset, hoffset⟩ := exists_fd_of_split hlen hfresh hcost hroom
    have hle := @FileBlock.cost_le lastBlock bb
    have hsize : bb.size = kChunkHeaderLen + bb.len := by simp [FileBlock.size, hoffset]
    rw [costFrom, costFrom]
    omega
  | @splits fresh lastBlock fileLen bb first second rest _ _ _ _ hfd hfit _ =>
    obtain ⟨offset, -, hoffset, -⟩ := hfd
    have hle := @FileBlock.cost_le lastBlock first
    have hsize : first.size = kChunkHeaderLen + first.len := by simp [FileBlock.size, hoffset]
    rw [costFrom, costFrom]
    omega

/-! ### The same round again -/

/-- Blocks that start as others do, but where the first one may have been split as it did not fit
into a piece of its own. -/
def SameHead (blockSize len : ℕ) : List FileBlock → List FileBlock → Prop
  | [], again => again = []
  | bb :: _, again => ∃ bb' rest, again = bb' :: rest ∧ bb'.block = bb.block ∧
      (bb' = bb ∨ (∃ offset, bb'.backing = .fd offset) ∧
        len < bb'.len + blockSize + kChunkHeaderLen)

/-- A block that does not fit behind some others does not when it has been split, either. -/
theorem SameHead.stops {again : List FileBlock} {rest : List FileBlock}
    (h : SameHead blockSize len (bb :: rest) again) (hblocks : 8 * blockSize ≤ len)
    (hlen : 128 ≤ len) (hcost : len < fileLen + bb.cost lastBlock)
    (hroom : len ≤ fileLen + kChunkHeaderLen + len / 8) :
    Moves image blockSize len false lastBlock fileLen again [] again true := by
  obtain ⟨bb', rest', rfl, -, rfl | ⟨⟨offset, hoffset⟩, hlong⟩⟩ := h
  · exact .stops hcost hroom
  · have hsize : bb'.size = kChunkHeaderLen + bb'.len := by simp [FileBlock.size, hoffset]
    have hle := @FileBlock.size_le_cost lastBlock bb'
    have hheader : kChunkHeaderLen = 12 := rfl
    exact .stops (by omega) hroom

/-- The round is the same when the blocks of the piece are followed by what has become of those that
were left. -/
theorem Moves.again (h : Moves image blockSize len fresh lastBlock fileLen l piece left more)
    (hblocks : 8 * blockSize ≤ len) (hlen : 128 ≤ len) {again : List FileBlock}
    (hsame : SameHead blockSize len left again)
    (hwhole : ∀ bb ∈ again, blockSize ≤ bb.len) :
    Moves image blockSize len fresh lastBlock fileLen (piece ++ again) piece again more := by
  induction h with
  | done =>
    obtain rfl := hsame
    exact .done
  | fits hcost _ ih => exact .fits hcost (ih hsame)
  | stops hcost hroom => exact hsame.stops hblocks hlen hcost hroom
  | whole hcost hroom hfit => exact .whole hcost hroom hfit
  | @splits fresh lastBlock fileLen bb first second rest hcost hroom hsplit hhalves hfd hfit hlast =>
    by_cases hfirst : fileLen + first.cost lastBlock ≤ len
    · -- the first half fits, and there is no room for what comes behind it
      obtain ⟨offset, -, hoffset, hoffset'⟩ := hfd
      have hsize : first.size = kChunkHeaderLen + first.len := by simp [FileBlock.size, hoffset]
      have hle := @FileBlock.size_le_cost lastBlock first
      have hheader : kChunkHeaderLen = 12 := rfl
      obtain ⟨bb', rest', rfl, -, hbb'⟩ := hsame
      have hlong : blockSize ≤ bb'.len := hwhole bb' (List.mem_cons_self ..)
      have hfd' : ∃ offset, bb'.backing = .fd offset := by
        obtain rfl | ⟨hfd', -⟩ := hbb'
        · exact ⟨_, hoffset'⟩
        · exact hfd'
      obtain ⟨offset', hoffset'⟩ := hfd'
      have hsize' : bb'.size = kChunkHeaderLen + bb'.len := by simp [FileBlock.size, hoffset']
      have hle' := @FileBlock.size_le_cost (first.block + first.len / blockSize) bb'
      exact .fits hfirst (.stops (by omega) (by omega))
    · exact .whole (not_le.1 hfirst) hroom hfit

/-- A round that starts with a block puts it, or a part of it, into the piece. -/
theorem Moves.sameHead (h : Moves image blockSize len true lastBlock 0 l piece left more)
    (again : List FileBlock) (hl : l ≠ []) : SameHead blockSize len l (piece ++ again) := by
  cases h with
  | done => exact absurd rfl hl
  | fits => exact ⟨_, _, rfl, rfl, .inl rfl⟩
  | whole => exact ⟨_, _, rfl, rfl, .inl rfl⟩
  | splits _ _ _ hhalves hfd _ hlast =>
    obtain ⟨offset, -, hoffset, -⟩ := hfd
    exact ⟨_, _, rfl, hhalves.block, .inr ⟨⟨offset, hoffset⟩, by omega⟩⟩

theorem Moves.piece_ne_nil (h : Moves image blockSize len true lastBlock 0 l piece left more)
    (hl : l ≠ []) : piece ≠ [] := by
  cases h with
  | done => exact absurd rfl hl
  | fits | whole | splits => simp

/-! ### All rounds -/

/-- The pieces that all rounds give. -/
inductive Divided (image : List Byte) (blockSize len : ℕ) :
    List FileBlock → List (List FileBlock) → Prop
  | last {l piece : List FileBlock} : Moves image blockSize len true 0 0 l piece [] false →
    Divided image blockSize len l [piece]
  | next {l piece left : List FileBlock} {pieces : List (List FileBlock)} : Moves image blockSize len true 0 0 l piece left true →
    Divided image blockSize len left pieces → Divided image blockSize len l (piece :: pieces)

variable {pieces : List (List FileBlock)}

theorem Laid.mono_left {lo' : ℕ} (h : Laid image blockSize lo l total) (hlo : lo' ≤ lo) :
    Laid image blockSize lo' l total := by
  cases l with
  | nil => exact ⟨hlo.trans h.ordered, h.sound⟩
  | cons bb l =>
    obtain ⟨hle, hrest⟩ := laid_cons.1 h
    exact laid_cons.2 ⟨hlo.trans hle, hrest⟩

theorem Laid.blockSize_le (h : Laid image blockSize lo l total) :
    ∀ bb ∈ l, blockSize ≤ bb.len := by
  intro bb hbb
  obtain ⟨before, after, rfl⟩ := List.append_of_mem hbb
  obtain ⟨mid, -, hrest⟩ := laid_append.1 h
  obtain ⟨-, hwhole, hsound, -⟩ := laid_cons.1 hrest
  exact Nat.le_of_dvd hsound.pos hwhole.1

/-- A piece takes at least one block. -/
theorem Laid.lt_of_ne_nil (h : Laid image blockSize lo l total) (hpos : 0 < blockSize)
    (hl : l ≠ []) : lo < total := by
  obtain ⟨bb, rest, rfl⟩ := List.exists_cons_of_ne_nil hl
  obtain ⟨hlo, hwhole, hsound, hrest⟩ := laid_cons.1 h
  have hblocks : 0 < bb.len / blockSize := Nat.div_pos (Nat.le_of_dvd hsound.pos hwhole.1) hpos
  have hle : bb.block + bb.len / blockSize ≤ total := hrest.ordered.le
  omega

/-- The rounds come to an end. -/
theorem exists_divided (hg : Geometry blockSize total) {len : ℕ} (hlen : 128 ≤ len)
    (hblocks : 8 * blockSize ≤ len) (h : Laid image blockSize lo l total) :
    ∃ pieces, Divided image blockSize len l pieces ∧ pieces.length ≤ total - lo + 1 := by
  induction hn : total - lo using Nat.strong_induction_on generalizing lo l with
  | _ n ih =>
    obtain ⟨piece, left, more, hmoves⟩ :=
      exists_moves hg hlen hblocks h true 0 fun _ => rfl
    cases more with
    | false =>
      obtain rfl := hmoves.left_eq_nil rfl
      exact ⟨[piece], .last hmoves, Nat.le_add_left _ _⟩
    | true =>
      have hne : l ≠ [] := by
        rintro rfl
        cases hmoves
      obtain ⟨mid, hpiece, hleft⟩ := laid_append.1 (hmoves.laid h)
      have hmid := hpiece.lt_of_ne_nil hg.blockSize_pos (hmoves.piece_ne_nil hne)
      have hle : mid ≤ total := hleft.ordered.le
      obtain ⟨pieces, hdivided, hcount⟩ := ih (total - mid) (by omega) hleft rfl
      exact ⟨piece :: pieces, .next hmoves hdivided, by rw [List.length_cons]; omega⟩

/-- The pieces together are the blocks. -/
theorem Divided.laid (h : Divided image blockSize len l pieces)
    (hlaid : Laid image blockSize lo l total) :
    Laid image blockSize lo pieces.flatten total := by
  induction h generalizing lo with
  | @last l piece hmoves =>
    have hpiece := hmoves.laid hlaid
    rw [List.append_nil] at hpiece
    rw [List.flatten_singleton]
    exact hpiece
  | next hmoves _ ih =>
    obtain ⟨mid, hpiece, hleft⟩ := laid_append.1 (hmoves.laid hlaid)
    exact laid_append.2 ⟨mid, hpiece, ih hleft⟩

theorem Divided.paintFile (h : Divided image blockSize len l pieces) :
    paintFile image blockSize pieces.flatten layer = paintFile image blockSize l layer := by
  induction h generalizing layer with
  | last hmoves =>
    rw [← hmoves.paintFile, List.append_nil, List.flatten_singleton]
  | next hmoves _ ih =>
    rw [← hmoves.paintFile, List.flatten_cons, paintFile_append, paintFile_append, ih]

theorem Divided.sameHead (h : Divided image blockSize len l pieces) :
    SameHead blockSize len l pieces.flatten := by
  by_cases hl : l = []
  · subst hl
    cases h with
    | last hmoves =>
      cases hmoves
      rfl
    | next hmoves _ => cases hmoves
  · cases h with
    | last hmoves => exact hmoves.sameHead _ hl
    | next hmoves _ => exact hmoves.sameHead _ hl

/-- The pieces are divided into themselves. -/
theorem Divided.again (h : Divided image blockSize len l pieces) (hblocks : 8 * blockSize ≤ len)
    (hlen : 128 ≤ len) (hlaid : Laid image blockSize lo l total) :
    Divided image blockSize len pieces.flatten pieces := by
  induction h generalizing lo with
  | last hmoves =>
    have hsame : SameHead blockSize len [] [] := rfl
    have hmoves' := hmoves.again hblocks hlen hsame fun bb hbb => by cases hbb
    exact .last hmoves'
  | next hmoves hrest ih =>
    obtain ⟨mid, -, hleft⟩ := laid_append.1 (hmoves.laid hlaid)
    exact .next (hmoves.again hblocks hlen hrest.sameHead
      (hrest.laid hleft).blockSize_le) (ih hleft)

/-! ### Both splittings -/

/-- Blocks that come behind all others are put at the end. -/
theorem backedBlockListMove_eq_append {target moved : List FileBlock}
    (h : ∀ bb ∈ target, ∀ start ∈ moved, bb.block ≤ start.block) :
    backedBlockListMove target moved = target ++ moved := by
  cases moved with
  | nil => exact (List.append_nil _).symm
  | cons start rest =>
    have hstart : ∀ bb ∈ target, bb.block ≤ start.block :=
      fun bb hbb => h bb hbb start (List.mem_cons_self ..)
    clear h
    rw [backedBlockListMove]
    induction target with
    | nil => rfl
    | cons bb target ih =>
      rw [List.forall_mem_cons] at hstart
      cases target with
      | nil => rfl
      | cons next target =>
        have hnext := hstart.2 next (List.mem_cons_self ..)
        rw [moveAfter, if_neg (by omega), ih hstart.2]
        rfl

theorem Laid.block_le_block {mid : ℕ} {r : List FileBlock} (hl : Laid image blockSize lo l mid)
    (hr : Laid image blockSize mid r total) :
    ∀ bb ∈ l, ∀ bb' ∈ r, bb.block ≤ bb'.block := by
  intro bb hbb bb' hbb'
  have hend := hl.lt_of_mem hbb
  obtain ⟨before, after, rfl⟩ := List.append_of_mem hbb'
  obtain ⟨mid', hbefore, hrest⟩ := laid_append.1 hr
  obtain ⟨hle, -⟩ := laid_cons.1 hrest
  calc bb.block ≤ bb.block + bb.len / blockSize := Nat.le_add_right _ _
    _ ≤ mid := hend
    _ ≤ mid' := hbefore.ordered.le
    _ ≤ bb'.block := hle

section

variable {maxLen fuel outCount : ℕ} {r : Resparsed}

theorem moveChunksUpToLen_eq (hg : Geometry blockSize total) (hroomy : Roomy blockSize maxLen)
    (hlaid : Laid image blockSize lo l total)
    (h : Moves image blockSize (maxLen - kResparseOverhead) true 0 0 l piece left more) :
    moveChunksUpToLen image blockSize maxLen l = (piece, left, more) := by
  have hlt := hroomy.lt
  have hleast := hroomy.least
  have hlen : (maxLen + (2 ^ 32 - kResparseOverhead)) % 2 ^ 32 = maxLen - kResparseOverhead := by
    omega
  rw [moveChunksUpToLen, hlen, h.moveLoop_eq hg (by omega) hlaid rfl]
  rfl

/-- Without places the blocks are put behind one another again. -/
theorem Divided.resparseLoop_tmp
    (h : Divided image blockSize (maxLen - kResparseOverhead) l pieces)
    (hg : Geometry blockSize total) (hroomy : Roomy blockSize maxLen)
    (htmp : Laid image blockSize 0 r.tmp lo) (hlaid : Laid image blockSize lo l total)
    (hfuel : pieces.length ≤ fuel) :
    resparseLoop image blockSize maxLen 0 fuel r l =
      some { r with c := r.c + pieces.length, tmp := r.tmp ++ pieces.flatten } := by
  induction h generalizing lo fuel r with
  | @last l piece hmoves =>
    obtain ⟨fuel, rfl⟩ : ∃ n, fuel = n + 1 := ⟨fuel - 1, (Nat.sub_add_cancel hfuel).symm⟩
    obtain ⟨mid, hpiece, -⟩ := laid_append.1 (hmoves.laid hlaid)
    rw [resparseLoop, moveChunksUpToLen_eq hg hroomy hlaid hmoves]
    simp [backedBlockListMove_eq_append (htmp.block_le_block hpiece)]
  | @next l piece left pieces hmoves _ ih =>
    rw [List.length_cons] at hfuel
    obtain ⟨fuel, rfl⟩ : ∃ n, fuel = n + 1 := ⟨fuel - 1, by omega⟩
    obtain ⟨mid, hpiece, hleft⟩ := laid_append.1 (hmoves.laid hlaid)
    have hmove := backedBlockListMove_eq_append (htmp.block_le_block hpiece)
    rw [resparseLoop, moveChunksUpToLen_eq hg hroomy hlaid hmoves]
    dsimp only
    rw [if_neg (Nat.not_lt_zero _), if_pos rfl, hmove,
      ih (laid_append.2 ⟨lo, htmp, hpiece⟩) hleft (by omega)]
    simp only [List.flatten_cons, List.append_assoc, List.length_cons, Option.some.injEq,
      Resparsed.mk.injEq, true_and, and_true]
    omega

/-- With a place for each piece no block is put back. -/
theorem Divided.resparseLoop_out
    (h : Divided image blockSize (maxLen - kResparseOverhead) l pieces)
    (hg : Geometry blockSize total) (hroomy : Roomy blockSize maxLen)
    (hlaid : Laid image blockSize lo l total) (hfuel : pieces.length ≤ fuel)
    (hplaces : r.c + pieces.length ≤ outCount) :
    resparseLoop image blockSize maxLen outCount fuel r l =
      some { r with out := r.out ++ pieces, c := r.c + pieces.length } := by
  induction h generalizing lo fuel r with
  | @last l piece hmoves =>
    obtain ⟨fuel, rfl⟩ : ∃ n, fuel = n + 1 := ⟨fuel - 1, (Nat.sub_add_cancel hfuel).symm⟩
    rw [List.length_singleton] at hplaces
    rw [resparseLoop, moveChunksUpToLen_eq hg hroomy hlaid hmoves]
    dsimp only
    rw [if_pos (show r.c < outCount by omega)]
    rfl
  | @next l piece left pieces hmoves _ ih =>
    rw [List.length_cons] at hfuel hplaces
    obtain ⟨fuel, rfl⟩ : ∃ n, fuel = n + 1 := ⟨fuel - 1, by omega⟩
    obtain ⟨mid, hpiece, hleft⟩ := laid_append.1 (hmoves.laid hlaid)
    rw [resparseLoop, moveChunksUpToLen_eq hg hroomy hlaid hmoves]
    dsimp only
    rw [if_pos (show r.c < outCount by omega), if_pos rfl,
      ih hleft (by omega) (by dsimp only; omega)]
    simp only [List.append_assoc, List.cons_append, List.nil_append, List.length_cons,
      Option.some.injEq, Resparsed.mk.injEq, true_and, and_true]
    omega

end

/-- The file with the blocks of a piece. -/
def FdSparseFile.withBlocks (s : FdSparseFile) (l : List FileBlock) : FdSparseFile :=
  { s with dataBlocks := l, lastUsed := none }

/-- The second splitting gives the pieces that the first one has counted. -/
theorem Divided.resparseFile_eq {s : FdSparseFile} {maxLen fuel : ℕ}
    (h : Divided image s.blockSize (maxLen - kResparseOverhead) s.dataBlocks pieces)
    (hg : Geometry s.blockSize total) (hroomy : Roomy s.blockSize maxLen)
    (hlaid : Laid image s.blockSize 0 s.dataBlocks total) (hfuel : pieces.length ≤ fuel) :
    resparseFile image s maxLen fuel = some (pieces.map fun l => some (s.withBlocks l)) := by
  have hleast := hroomy.least
  have hroom := hroomy.blocks
  have hempty : Laid image s.blockSize 0 [] 0 := ⟨le_rfl, fun bb hbb => by cases hbb⟩
  have hfirst := h.resparseLoop_tmp (r := {}) hg hroomy hempty hlaid hfuel
  have hagain := h.again (by omega) (by omega) hlaid
  have hplaces : ({} : Resparsed).c + pieces.length ≤ pieces.length := (Nat.zero_add _).le
  have hsecond := hagain.resparseLoop_out hg hroomy (h.laid hlaid) hfuel hplaces
  simp only [List.nil_append, Nat.zero_add] at hfirst hsecond
  rw [resparseFile, sparseFileResparse, hfirst, Option.bind_eq_bind, Option.bind_some]
  dsimp only
  rw [sparseFileResparse, hsecond, Option.bind_some, List.length_map, Nat.sub_self, List.replicate_zero, List.append_nil]
  rfl

/-! ### What a piece is -/

/-- The pieces of a file can be written, none is too long, and they give one after the other what the
file does. -/
structure PiecesOf (image : List Byte) (s : FdSparseFile) (total maxLen : ℕ)
    (pieces : List FdSparseFile) : Prop where
  blockSize : ∀ p ∈ pieces, p.blockSize = s.blockSize
  len : ∀ p ∈ pieces, p.len = s.len
  sound : ∀ p ∈ pieces, p.Sound image total
  short : ∀ p ∈ pieces, (p.sparseImage image total).bytes.length ≤ maxLen
  painted : ∀ layer, pieces.foldl
    (fun layer p => RpiFastbootd.paintFile image s.blockSize p.dataBlocks layer) layer =
      RpiFastbootd.paintFile image s.blockSize s.dataBlocks layer

theorem Divided.forall_pieces (h : Divided image blockSize len l pieces) (hlen : 128 ≤ len)
    (hlaid : Laid image blockSize lo l total) :
    ∀ p ∈ pieces, Laid image blockSize 0 p total ∧
      costFrom blockSize 0 p ≤ len + kChunkHeaderLen := by
  induction h generalizing lo with
  | @last l piece hmoves =>
    have hcost := hmoves.cost_le hlen (fun _ => rfl) (Nat.zero_le _)
    rw [Nat.zero_add] at hcost
    have hpiece := hmoves.laid hlaid
    rw [List.append_nil] at hpiece
    intro p hp
    rw [List.mem_singleton.1 hp]
    exact ⟨hpiece.mono_left (Nat.zero_le _), hcost⟩
  | @next l piece left pieces hmoves _ ih =>
    have hcost := hmoves.cost_le hlen (fun _ => rfl) (Nat.zero_le _)
    rw [Nat.zero_add] at hcost
    obtain ⟨mid, hpiece, hleft⟩ := laid_append.1 (hmoves.laid hlaid)
    rw [List.forall_mem_cons]
    refine ⟨⟨?_, hcost⟩, ih hleft⟩
    have hend : Laid image blockSize mid [] total :=
      ⟨hleft.ordered.le, fun bb hbb => by cases hbb⟩
    have hall := laid_append.2 ⟨mid, hpiece, hend⟩
    rw [List.append_nil] at hall
    exact hall.mono_left (Nat.zero_le _)

theorem size_le_costFrom (hbb : bb ∈ l) : bb.size ≤ costFrom blockSize lastBlock l := by
  induction l generalizing lastBlock with
  | nil => cases hbb
  | cons first l ih =>
    rw [costFrom]
    obtain rfl | hbb := List.mem_cons.1 hbb
    · exact FileBlock.size_le_cost.trans (Nat.le_add_right _ _)
    · exact (ih hbb).trans (Nat.le_add_left _ _)

theorem length_sparseImage (s : FdSparseFile) (h : Laid image s.blockSize 0 s.dataBlocks total) :
    (s.sparseImage image total).bytes.length ≤
      kSparseHeaderLen + costFrom s.blockSize 0 s.dataBlocks + kChunkHeaderLen := by
  rw [SparseImage.bytes, List.length_append, SparseHeader.length_bytes, FdSparseFile.sparseImage,
    fileChunks, List.flatMap_append, List.length_append, h.length_blockChunks, length_gapChunk]
  split_ifs <;> omega

/-- A file whose blocks lie within it is divided into pieces. -/
theorem exists_piecesOf {s : FdSparseFile} {maxLen fuel : ℕ} (hg : Geometry s.blockSize total)
    (hroomy : Roomy s.blockSize maxLen) (hlaid : Laid image s.blockSize 0 s.dataBlocks total)
    (hlen : s.len = total * s.blockSize) (hfuel : total + 1 ≤ fuel) :
    ∃ pieces, resparseFile image s maxLen fuel = some (pieces.map some) ∧
      PiecesOf image s total maxLen pieces := by
  have hlt := hroomy.lt
  have hleast := hroomy.least
  have hblocks := hroomy.blocks
  have hoverhead : kResparseOverhead = kSparseHeaderLen + 2 * kChunkHeaderLen + 4 := rfl
  obtain ⟨lists, hdivided, hcount⟩ :=
    exists_divided hg (by omega : 128 ≤ maxLen - kResparseOverhead) (by omega) hlaid
  have hpieces := hdivided.forall_pieces (by omega) hlaid
  refine ⟨lists.map s.withBlocks, ?_, ?_, ?_, ?_, ?_, fun layer => ?_⟩
  · rw [hdivided.resparseFile_eq hg hroomy hlaid (by omega), List.map_map]
    rfl
  · rw [List.forall_mem_map]
    exact fun _ _ => rfl
  · rw [List.forall_mem_map]
    exact fun _ _ => rfl
  · rw [List.forall_mem_map]
    intro l hl
    obtain ⟨hpiece, hcost⟩ := hpieces l hl
    refine ⟨hg, hpiece, hlen, fun bb hbb offset hoffset => ?_⟩
    have hsize : bb.size = kChunkHeaderLen + bb.len := by simp [FileBlock.size, hoffset]
    have hle := @size_le_costFrom s.blockSize 0 bb l hbb
    omega
  · rw [List.forall_mem_map]
    intro l hl
    obtain ⟨hpiece, hcost⟩ := hpieces l hl
    have hle := length_sparseImage (s.withBlocks l) hpiece
    change _ ≤ kSparseHeaderLen + costFrom s.blockSize 0 l + kChunkHeaderLen at hle
    omega
  · rw [← hdivided.paintFile, List.foldl_map]
    clear hdivided hcount hpieces
    induction lists generalizing layer with
    | nil => rfl
    | cons l lists ih =>
      rw [List.flatten_cons, paintFile_append, List.foldl_cons]
      exact ih _

end

/-- A file of 50 blocks of four bytes, and a gap before the last 48 of them. -/
def longFile : FdSparseFile where
  blockSize := 4
  len := 200
  dataBlocks := [⟨0, 4, .fill [1, 2, 3, 4]⟩, ⟨2, 192, .fd 8⟩]

theorem laid_longFile : Laid (List.replicate 200 7) 4 0 longFile.dataBlocks 50 := by
  refine ⟨⟨by decide, ⟨by decide, fun bytes hdata => by cases hdata⟩, by decide,
    ⟨by decide, fun bytes hdata => ?_⟩, show 50 ≤ 50 from le_rfl⟩, fun bb hbb => ?_⟩
  · cases hdata
    rfl
  · simp only [longFile, List.mem_cons, List.not_mem_nil, or_false] at hbb
    obtain rfl | rfl := hbb
    · exact ⟨by decide, fun val hval => by cases hval; rfl⟩
    · exact ⟨by decide, fun val hval => by cases hval⟩

end RpiFastbootd
