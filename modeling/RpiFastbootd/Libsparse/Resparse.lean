import RpiFastbootd.Libsparse.ReadNormal
import RpiFastbootd.Libsparse.Written

/-!
# Splitting a file into pieces

`sparse_file_resparse` moves the blocks of a file to new files, each as many as the sparse format of
a given length has room for; a block that does not fit is split if enough room is left for it.
`resparse_file` does so twice: first to count the pieces, with no place to put them, so that all
blocks go back to where they came from, and then to get them.
-/

namespace RpiFastbootd

/-! ### Splitting a block -/

/-- What stands behind the rest of a block. -/
def FileBacking.advance (n : ℕ) : FileBacking → FileBacking
  | fd offset => fd (offset + n)
  | fill val => fill val

/-- `backed_block_split`: the block, and the rest if it is longer than a number of whole blocks. -/
def FileBlock.split (blockSize maxLen : ℕ) (bb : FileBlock) : FileBlock × List FileBlock :=
  let cut := blockSize * (maxLen / blockSize)
  if bb.len ≤ cut then (bb, [])
  else
    ({ bb with len := cut },
      [⟨(bb.block + cut / blockSize) % 2 ^ 32, bb.len - cut, bb.backing.advance cut⟩])

/-! ### Moving blocks -/

/-- The loop behind `backed_block_list_move`, which finds the place of blocks in a list that is not
empty. -/
def moveAfter (start : FileBlock) (moved : List FileBlock) : List FileBlock → List FileBlock
  | [] => moved
  | [bb] => bb :: moved
  | bb :: next :: rest =>
    if start.block < next.block then bb :: (moved ++ next :: rest)
    else bb :: moveAfter start moved (next :: rest)

/-- `backed_block_list_move` of all blocks of a list. -/
def backedBlockListMove (target moved : List FileBlock) : List FileBlock :=
  match moved with
  | [] => target
  | start :: _ => moveAfter start moved target

/-- The header of the file, the potential skip at its end and the checksum. -/
def kResparseOverhead : ℕ := kSparseHeaderLen + 2 * kChunkHeaderLen + 4

/-- The bytes that a block takes, with the gap before it. -/
def countBlock (image : List Byte) (blockSize lastBlock : ℕ) (bb : FileBlock) : ℕ :=
  (writeSparseBlock countBytes image blockSize bb
    (if lastBlock < bb.block then kChunkHeaderLen else 0)).2

/-- The loop of `move_chunks_up_to_len`: the blocks that are moved, those that are left, and whether
it came to one that did not fit. -/
def moveLoop (image : List Byte) (blockSize len : ℕ) :
    (taken : List FileBlock) → (lastBlock fileLen : ℕ) → List FileBlock →
      List FileBlock × List FileBlock × Bool
  | taken, _, _, [] => (taken, [], false)
  | taken, lastBlock, fileLen, bb :: rest =>
    if len < fileLen + countBlock image blockSize lastBlock bb then
      let room : ℤ := len - (fileLen + kChunkHeaderLen : ℕ)
      if taken = [] ∨ (len / 8 : ℕ) < room then
        let (first, more) := bb.split blockSize (room % 2 ^ 32).toNat
        (taken ++ [first], more ++ rest, true)
      else (taken, bb :: rest, true)
    else
      moveLoop image blockSize len (taken ++ [bb]) (bb.next blockSize)
        (fileLen + countBlock image blockSize lastBlock bb) rest

/-- `move_chunks_up_to_len`. -/
def moveChunksUpToLen (image : List Byte) (blockSize maxLen : ℕ) (l : List FileBlock) :
    List FileBlock × List FileBlock × Bool :=
  moveLoop image blockSize ((maxLen + (2 ^ 32 - kResparseOverhead)) % 2 ^ 32) [] 0 0 l

/-- The files that `sparse_file_resparse` has put in the places it was given, their number with those
that had no place, and the blocks that have gone back. -/
structure Resparsed where
  out : List (List FileBlock) := []
  c : ℕ := 0
  tmp : List FileBlock := []
  deriving DecidableEq, Repr

/-- The loop of `sparse_file_resparse`, as long as there is fuel. -/
def resparseLoop (image : List Byte) (blockSize maxLen outCount : ℕ) :
    (fuel : ℕ) → Resparsed → List FileBlock → Option Resparsed
  | 0, _, _ => none
  | fuel + 1, r, l =>
    let (moved, left, more) := moveChunksUpToLen image blockSize maxLen l
    let r : Resparsed :=
      if r.c < outCount then { r with out := r.out ++ [moved], c := r.c + 1 }
      else { r with tmp := backedBlockListMove r.tmp moved, c := r.c + 1 }
    if more then resparseLoop image blockSize maxLen outCount fuel r left else some r

/-- `sparse_file_resparse`. -/
def sparseFileResparse (image : List Byte) (blockSize maxLen outCount fuel : ℕ)
    (l : List FileBlock) : Option Resparsed :=
  resparseLoop image blockSize maxLen outCount fuel {} l

/-- `resparse_file`: the pieces, with a null pointer for each place that was not filled. -/
def resparseFile (image : List Byte) (s : FdSparseFile) (maxLen fuel : ℕ) :
    Option (List (Option FdSparseFile)) := do
  let first ← sparseFileResparse image s.blockSize maxLen 0 fuel s.dataBlocks
  let second ← sparseFileResparse image s.blockSize maxLen first.c fuel first.tmp
  let files := second.out.map fun l => some { s with dataBlocks := l, lastUsed := none }
  return files ++ List.replicate (first.c - files.length) none

/-! ### What a split block stands for -/

section

variable {image : List Byte} {blockSize maxLen lo hi total : ℕ} {bb first : FileBlock}
  {more l : List FileBlock} {layer : Layer}

/-- A block has been split in two at a number of whole blocks. -/
structure Halves (image : List Byte) (blockSize : ℕ) (bb first second : FileBlock) : Prop where
  block : first.block = bb.block
  meet : second.block = first.block + first.len / blockSize
  len : bb.len = first.len + second.len
  firstSound : first.Sound
  secondSound : second.Sound
  firstWhole : (first.load image).Whole blockSize
  secondWhole : (second.load image).Whole blockSize
  painted : ∀ layer, BackedBlock.paint blockSize (BackedBlock.paint blockSize layer
    (first.load image)) (second.load image) = BackedBlock.paint blockSize layer (bb.load image)

theorem halves_split (hsound : bb.Sound) (hwhole : (bb.load image).Whole blockSize)
    (hfour : 4 ∣ blockSize) {cut : ℕ} (hcut : blockSize ∣ cut) (hpos : 0 < cut) (hlt : cut < bb.len) :
    Halves image blockSize bb { bb with len := cut }
      ⟨bb.block + cut / blockSize, bb.len - cut, bb.backing.advance cut⟩ := by
  have hdvd : blockSize ∣ bb.len - cut := Nat.dvd_sub hwhole.1 hcut
  have hmeet : bb.block * blockSize + cut = (bb.block + cut / blockSize) * blockSize := by
    rw [Nat.add_mul, Nat.div_mul_cancel hcut]
  have hsum : cut + (bb.len - cut) = bb.len := by omega
  have hrest : 0 < bb.len - cut := by omega
  cases hbacking : bb.backing with
  | fd offset =>
    have hlength := FileBlock.length_region hwhole hbacking
    rw [slice, List.length_take, List.length_drop] at hlength
    have hinside : offset + cut + (bb.len - cut) ≤ image.length := by omega
    refine ⟨rfl, rfl, hsum.symm, ⟨hpos, fun val hval => by cases hval⟩,
      ⟨hrest, fun val hval => by cases hval⟩, ⟨hcut, fun bytes hdata => ?_⟩,
      ⟨hdvd, fun bytes hdata => ?_⟩, fun layer => ?_⟩
    · cases hdata
      exact length_slice (show offset + cut ≤ image.length by omega)
    · cases hdata
      exact length_slice hinside
    · have hpaint := @paint_regions image blockSize layer bb.block (bb.block + cut / blockSize)
        offset cut (bb.len - cut) (by omega) hinside hmeet
      rw [hsum] at hpaint
      simp only [FileBlock.load, FileBacking.advance, hbacking]
      exact hpaint.symm
  | fill val =>
    have hword := hsound.word val hbacking
    refine ⟨rfl, rfl, hsum.symm, ⟨hpos, fun w hw => ?_⟩, ⟨hrest, fun w hw => ?_⟩,
      ⟨hcut, fun bytes hdata => by cases hdata⟩, ⟨hdvd, fun bytes hdata => by cases hdata⟩,
      fun layer => ?_⟩
    · cases hw
      exact hword
    · cases hw
      exact hword
    · have hpaint := @put_fill_put layer val (bb.block * blockSize) cut (bb.len - cut)
        (hfour.trans hcut)
      rw [hsum, hmeet] at hpaint
      simp only [FileBlock.load, FileBacking.advance, hbacking, BackedBlock.paint]
      exact hpaint

/-- A split leaves a block as it is, or gives its halves. -/
theorem split_cases (hg : Geometry blockSize total) (h : Laid image blockSize lo (bb :: l) total)
    (hroom : blockSize ≤ maxLen) :
    (bb.len ≤ maxLen ∧ bb.split blockSize maxLen = (bb, [])) ∨
      ∃ first second, bb.split blockSize maxLen = (first, [second]) ∧
        first.len ≤ maxLen ∧ maxLen < first.len + blockSize ∧
        (∀ val, bb.backing = .fill val → first.backing = .fill val) ∧
        (∀ offset, bb.backing = .fd offset → first.backing = .fd offset ∧
          second.backing = .fd (offset + first.len)) ∧
        Halves image blockSize bb first second := by
  obtain ⟨-, hwhole, hsound, hrest⟩ := laid_cons.1 h
  have hmod := Nat.div_add_mod maxLen blockSize
  have hmodlt := Nat.mod_lt maxLen hg.blockSize_pos
  unfold FileBlock.split
  dsimp only
  split_ifs with hle
  · exact .inl ⟨by omega, rfl⟩
  · have hcut : blockSize ∣ blockSize * (maxLen / blockSize) := Nat.dvd_mul_right _ _
    have hpos : 0 < blockSize * (maxLen / blockSize) := by omega
    have hend : bb.block + bb.len / blockSize ≤ total := hrest.ordered.le
    have hdiv : blockSize * (maxLen / blockSize) / blockSize ≤ bb.len / blockSize :=
      Nat.div_le_div_right (by omega)
    have hlt := hg.lt
    rw [Nat.mod_eq_of_lt (by omega)]
    refine .inr ⟨_, _, rfl, by dsimp only; omega, by dsimp only; omega, fun _ hval => hval,
      fun offset hoffset => ⟨hoffset, ?_⟩, halves_split hsound hwhole hg.aligned hcut hpos (by omega)⟩
    simp only [hoffset, FileBacking.advance]

/-- Halves in the place of their block. -/
theorem Halves.laid {second : FileBlock} (h : Halves image blockSize bb first second)
    (hlaid : Laid image blockSize lo (bb :: l) hi) :
    Laid image blockSize lo (first :: second :: l) hi := by
  obtain ⟨hlo, -, -, hrest⟩ := laid_cons.1 hlaid
  refine laid_cons.2 ⟨h.block ▸ hlo, h.firstWhole, h.firstSound, laid_cons.2 ⟨h.meet.ge,
    h.secondWhole, h.secondSound, ?_⟩⟩
  have hdvd : blockSize ∣ first.len := h.firstWhole.1
  rw [h.meet, h.block, Nat.add_assoc, ← Nat.add_div_of_dvd_right hdvd, ← h.len]
  exact hrest

theorem Halves.paintFile {second : FileBlock} (h : Halves image blockSize bb first second) :
    paintFile image blockSize (first :: second :: l) layer =
      paintFile image blockSize (bb :: l) layer :=
  congrArg (RpiFastbootd.paintFile image blockSize l) (h.painted layer)

end

end RpiFastbootd
