import RpiFastbootd.Libsparse.Output

/-!
# Output that finds room

A callback that fails only where its room ends writes out every file that fits into this room.
-/

namespace RpiFastbootd

/-- A callback that takes everything up to a size; `I pos st` stands for: it has come to `pos`. -/
structure Takes {σ : Type} (write : σ → OutputPiece → Code × σ) (I : ℕ → σ → Prop) (size : ℕ) :
    Prop where
  take : ∀ {pos st}, I pos st → ∀ p : OutputPiece, pos + p.length ≤ size →
    ∃ st', write st p = (.ok, st') ∧ I (pos + p.length) st'

section

variable {σ : Type} {write : σ → OutputPiece → Code × σ} {I : ℕ → σ → Prop} {size pos : ℕ} {st : σ}

theorem Takes.each (h : Takes write I size) (hst : I pos st) {l : List OutputPiece}
    (hroom : pos + (l.map OutputPiece.length).sum ≤ size) :
    ∃ st', writeEach write l st = (.ok, st') ∧ I (pos + (l.map OutputPiece.length).sum) st' := by
  induction l generalizing pos st with
  | nil => exact ⟨st, rfl, hst⟩
  | cons p l ih =>
    rw [List.map_cons, List.sum_cons, ← Nat.add_assoc] at hroom ⊢
    obtain ⟨st₁, hwrite, hst₁⟩ := h.take hst p (by omega)
    obtain ⟨st₂, hrest, hst₂⟩ := ih hst₁ hroom
    refine ⟨st₂, ?_, hst₂⟩
    rw [writeEach, hwrite]
    exact hrest

theorem Takes.callbackFileSkip (h : Takes write I size) (hst : I pos st) {off : ℕ}
    (hroom : pos + off ≤ size) :
    ∃ st', RpiFastbootd.callbackFileSkip write off st = (.ok, st') ∧ I (pos + off) st' := by
  have hsum : (((pieces kIntMax off).map OutputPiece.skip).map OutputPiece.length).sum = off := by
    rw [List.map_map]
    exact (congrArg List.sum (List.map_id _)).trans (sum_pieces _ _)
  have hskip := h.each hst (l := (pieces kIntMax off).map OutputPiece.skip) (by rw [hsum]; exact hroom)
  rw [hsum] at hskip
  exact hskip

theorem Takes.writeBlock (h : Takes write I size) (hst : I pos st) {blockSize : ℕ}
    {bb : BackedBlock} (hwhole : bb.Whole blockSize) (hpos : 0 < blockSize)
    (hlt : bb.len + blockSize < 2 ^ 64) (hroom : pos + bb.len ≤ size) :
    ∃ st', sparseFileWriteBlock write blockSize bb st = (.ok, st') ∧ I (pos + bb.len) st' := by
  unfold sparseFileWriteBlock
  cases hbacking : bb.backing with
  | data bytes =>
    have hlength : bytes.length = bb.len := hwhole.2 bytes hbacking
    obtain ⟨st', hwrite, hst'⟩ := h.take hst (.data bytes) (by rw [OutputPiece.length]; omega)
    rw [OutputPiece.length, hlength] at hst'
    refine ⟨st', ?_, hst'⟩
    dsimp only
    rw [writeNormalDataChunk, hwrite, divRoundUp_of_dvd hwhole.1 hpos hlt,
      Nat.mul_div_cancel' hwhole.1]
    exact if_neg (lt_irrefl _)
  | fill val =>
    have hsum : (((pieces kFillZeroBufSize bb.len).map fun n =>
        OutputPiece.data (fillBytes val n)).map OutputPiece.length).sum = bb.len := by
      rw [List.map_map]
      have hlength : (OutputPiece.length ∘ fun n => OutputPiece.data (fillBytes val n)) = id := by
        funext n
        simp [OutputPiece.length, fillBytes]
      rw [hlength, List.map_id, sum_pieces]
    have hfill := h.each hst (l := (pieces kFillZeroBufSize bb.len).map fun n =>
      OutputPiece.data (fillBytes val n)) (by rw [hsum]; exact hroom)
    rw [hsum] at hfill
    exact hfill

theorem Takes.skipGap (h : Takes write I size) {blockSize lastBlock block : ℕ}
    (hst : I (lastBlock * blockSize) st) (hle : lastBlock ≤ block)
    (hlt : block * blockSize < 2 ^ 63) (hroom : block * blockSize ≤ size) :
    ∃ st', RpiFastbootd.skipGap write blockSize lastBlock block st = .ok st' ∧
      I (block * blockSize) st' := by
  have hmul : lastBlock * blockSize + (block - lastBlock) * blockSize = block * blockSize := by
    rw [← Nat.add_mul, Nat.add_sub_cancel' hle]
  unfold RpiFastbootd.skipGap
  split_ifs with hgap
  · obtain ⟨st', hskip, hst'⟩ := h.callbackFileSkip hst
      (by omega : lastBlock * blockSize + (block - lastBlock) * blockSize ≤ size)
    rw [hmul] at hst'
    refine ⟨st', ?_, hst'⟩
    rw [signedProduct, if_pos (by omega)]
    show Except.ok (RpiFastbootd.callbackFileSkip write _ st).2 = _
    rw [hskip]
  · obtain rfl : lastBlock = block := by omega
    exact ⟨st, rfl, hst⟩

theorem Takes.writeBlocks (h : Takes write I size) {blockSize lastBlock hi : ℕ}
    {l : List BackedBlock} (hst : I (lastBlock * blockSize) st)
    (hord : Ordered blockSize lastBlock l hi) (hpos : 0 < blockSize) (hsize : blockSize < 2 ^ 32)
    (hhi : hi < 2 ^ 32) (hlen : hi * blockSize < 2 ^ 63) (hroom : hi * blockSize ≤ size) :
    ∃ st' last, RpiFastbootd.writeBlocks write blockSize l lastBlock st = .ok (.ok, st', last) ∧
      last ≤ hi ∧ I (last * blockSize) st' := by
  induction l generalizing lastBlock st with
  | nil => exact ⟨st, lastBlock, rfl, hord, hst⟩
  | cons bb l ih =>
    obtain ⟨hle, hwhole, hrest⟩ := hord
    have hend : bb.block + bb.len / blockSize ≤ hi := hrest.le
    have hbytes : bb.block * blockSize + bb.len = (bb.block + bb.len / blockSize) * blockSize := by
      rw [Nat.add_mul, Nat.div_mul_cancel hwhole.1]
    have hbound : bb.block * blockSize + bb.len ≤ hi * blockSize := by
      rw [hbytes]
      exact Nat.mul_le_mul_right _ hend
    obtain ⟨st₁, hskip, hst₁⟩ := h.skipGap hst hle (by omega) (by omega)
    obtain ⟨st₂, hwrite, hst₂⟩ := h.writeBlock hst₁ hwhole hpos (by omega) (by omega)
    rw [hbytes] at hst₂
    obtain ⟨st₃, last, hblocks, hdone⟩ := ih hst₂ hrest
    refine ⟨st₃, last, ?_, hdone⟩
    rw [RpiFastbootd.writeBlocks, hskip]
    simp only [bind, Except.bind]
    rw [hwrite]
    dsimp only
    rw [divRoundUp_of_dvd hwhole.1 hpos (by omega), Nat.mod_eq_of_lt (by omega)]
    exact hblocks

/-- A file that fits is written out without an error. -/
theorem Takes.writeAllBlocks (h : Takes write I size) {s : SparseFile} {total : ℕ}
    (hst : I 0 st) (hord : Ordered s.blockSize 0 s.backedBlockList.dataBlocks total)
    (hlength : s.len = total * s.blockSize) (hpos : 0 < s.blockSize) (hsize : s.blockSize < 2 ^ 32)
    (htotal : total < 2 ^ 32) (hlen : s.len < 2 ^ 63) (hroom : s.len ≤ size) :
    ∃ st', RpiFastbootd.writeAllBlocks write s st = .ok (.ok, st') ∧ I s.len st' := by
  rw [hlength] at hlen hroom
  have hst₀ : I (0 * s.blockSize) st := by
    rw [Nat.zero_mul]
    exact hst
  obtain ⟨st₁, last, hblocks, hlast, hst₁⟩ := h.writeBlocks hst₀ hord hpos hsize htotal hlen hroom
  have hle : last * s.blockSize ≤ s.len := by
    rw [hlength]
    exact Nat.mul_le_mul_right _ hlast
  unfold RpiFastbootd.writeAllBlocks
  rw [hblocks]
  simp only [bind, Except.bind]
  rw [signedProduct, if_pos (by omega)]
  dsimp only
  rw [if_neg (by omega)]
  by_cases hpad : last * s.blockSize < s.len
  · obtain ⟨st₂, hskip, hst₂⟩ := h.callbackFileSkip hst₁
      (by omega : last * s.blockSize + (s.len - last * s.blockSize) ≤ size)
    rw [Nat.add_sub_cancel' hle] at hst₂
    rw [if_pos hpad, hskip]
    exact ⟨st₂, rfl, hst₂⟩
  · have heq : last * s.blockSize = s.len := by omega
    rw [if_neg hpad, ← heq]
    exact ⟨st₁, rfl, hst₁⟩

end

end RpiFastbootd
