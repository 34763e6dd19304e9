import Mathlib.Data.List.GetD
import RpiFastbootd.Libsparse.Reader

/-!
# Blocks of an image file

Where an image file is read, its blocks are not in memory: a block is a region of the file or a
value.  `sparse_file_read_normal` makes a fill of every block whose words are all the same, and a
region of every other one; regions that meet are merged, as fills of one value are.

`Laid` says that blocks lie one after the other, and `FileBlock.paint` what they stand for.  What is
read from a file that is a number of whole blocks stands for the bytes of the file
(`sparseFileReadNormal_paints`).
-/

namespace RpiFastbootd

/-- What stands behind a block: a region of the file, or a value of four bytes. -/
inductive FileBacking
  | fd (offset : ℕ)
  | fill (val : List Byte)
  deriving DecidableEq, Repr

structure FileBlock where
  block : ℕ
  len : ℕ
  backing : FileBacking
  deriving DecidableEq, Repr

/-- A `sparse_file` with the blocks of a file, and the position of the block that was used last. -/
structure FdSparseFile where
  blockSize : ℕ
  len : ℕ
  dataBlocks : List FileBlock := []
  lastUsed : Option ℕ := none
  deriving DecidableEq, Repr

/-- `merge_bb`: nothing where its assertion fails, and no block where the two are not merged. -/
def FileBlock.merge (blockSize : ℕ) (a b : FileBlock) : Option (Option FileBlock) :=
  if ¬ a.block < b.block then none
  else if (a.block + a.len / blockSize) % 2 ^ 32 ≠ b.block then some none
  else
    match a.backing, b.backing with
    | .fill v, .fill w => some (if v = w then some { a with len := wrap (a.len + b.len) } else none)
    | .fd o, .fd o' =>
      some (if wrap (o + a.len) = o' then some { a with len := wrap (a.len + b.len) } else none)
    | _, _ => some none

/-! ### Queueing

The insertion is that of `queue_bb`, for blocks of any kind. -/

section

variable {β : Type} (place : β → ℕ) (merge : β → β → Option (Option β))

/-- A block and the blocks after it, of which the first may be merged into it. -/
def queueNext (new : β) : List β → Option (β × List β)
  | [] => some (new, [])
  | next :: rest =>
    match merge new next with
    | none => none
    | some none => some (new, next :: rest)
    | some (some merged) => some (merged, rest)

/-- The position from which the place of a block is searched. -/
def queueFrom (l : List β) (lastUsed : Option ℕ) (block : ℕ) : ℕ :=
  match lastUsed with
  | none => 0
  | some i =>
    match l[i]? with
    | none => 0
    | some used => if place used < block then i else 0

/-- The blocks with one more, and the position of the block that was used last; nothing where an
assertion fails. -/
def queue (l : List β) (lastUsed : Option ℕ) (new : β) : Option (List β × Option ℕ) :=
  match l with
  | [] => some ([new], lastUsed)
  | first :: _ =>
    if place new < place first then some (new :: l, lastUsed.map (· + 1))
    else
      let start := queueFrom place l lastUsed (place new)
      let i := start + ((l.drop (start + 1)).takeWhile (place · < place new)).length
      match l.drop i with
      | [] => some (l, lastUsed)
      | bb :: after =>
        match queueNext merge new after with
        | none => none
        | some (new, after) =>
          match merge bb new with
          | none => none
          | some none => some (l.take i ++ bb :: new :: after, some (i + 1))
          | some (some merged) => some (l.take i ++ merged :: after, some i)

variable {place merge}

theorem queueFrom_lt {l : List β} (lastUsed : Option ℕ) (block : ℕ) (h : l ≠ []) :
    queueFrom place l lastUsed block < l.length := by
  have hpos : 0 < l.length := List.length_pos_iff.2 h
  unfold queueFrom
  split
  · exact hpos
  · split
    · exact hpos
    · rename_i i _ used hused
      split_ifs
      · exact (List.getElem?_eq_some_iff.1 hused).1
      · exact hpos

/-- A block behind all others is put at the end, or merged into the last one. -/
theorem queue_of_lt {l : List β} {lastUsed : Option ℕ} {new : β}
    (h : ∀ bb ∈ l, place bb < place new) (hmerge : ∀ bb ∈ l, merge bb new ≠ none) :
    ∃ l' used, queue place merge l lastUsed new = some (l', used) ∧
      (l' = l ++ [new] ∨ ∃ init last merged, l = init ++ [last] ∧
        merge last new = some (some merged) ∧ l' = init ++ [merged]) := by
  obtain rfl | ⟨init, last, hl⟩ := List.eq_nil_or_concat l
  · exact ⟨[new], lastUsed, rfl, .inl rfl⟩
  rw [List.concat_eq_append] at hl
  have hne : l ≠ [] := by simp [hl]
  have hlength : l.length = init.length + 1 := by simp [hl]
  have hstart : queueFrom place l lastUsed (place new) < l.length :=
    queueFrom_lt lastUsed (place new) hne
  have hall : (l.drop (queueFrom place l lastUsed (place new) + 1)).takeWhile
      (place · < place new) = l.drop (queueFrom place l lastUsed (place new) + 1) :=
    List.takeWhile_eq_self_iff.2 fun bb hbb => decide_eq_true (h bb (List.mem_of_mem_drop hbb))
  have hi : queueFrom place l lastUsed (place new) +
      ((l.drop (queueFrom place l lastUsed (place new) + 1)).takeWhile
        (place · < place new)).length = init.length := by
    rw [hall, List.length_drop]
    omega
  have hdrop : l.drop init.length = [last] := by
    rw [hl, List.drop_left]
  have htake : l.take init.length = init := by
    rw [hl, List.take_left]
  unfold queue
  split
  · exact absurd rfl hne
  rename_i first rest
  have hfirst : place first < place new := h first (by simp)
  rw [if_neg (by omega)]
  dsimp only
  rw [hi, hdrop, htake]
  dsimp only [queueNext]
  split
  · rename_i hnone
    exact absurd hnone (hmerge last (by simp [hl]))
  · refine ⟨_, _, rfl, .inl ?_⟩
    rw [hl, List.append_assoc]
    rfl
  · rename_i merged hmerged
    exact ⟨_, _, rfl, .inr ⟨init, last, merged, hl, hmerged, rfl⟩⟩

end

theorem mergeNext_eq_queueNext (blockSize : ℕ) (new : BackedBlock) (l : List BackedBlock) :
    mergeNext blockSize new l = queueNext (mergeBB blockSize) new l := by
  cases l with
  | nil => rfl
  | cons next rest =>
    rw [mergeNext, queueNext]
    cases mergeBB blockSize new next with
    | none => rfl
    | some merged => cases merged <;> rfl

theorem BackedBlockList.searchFrom_eq_queueFrom (l : BackedBlockList) (block : ℕ) :
    l.searchFrom block = queueFrom BackedBlock.block l.dataBlocks l.lastUsed block := by
  unfold searchFrom queueFrom
  cases l.lastUsed with
  | none => rfl
  | some i =>
    dsimp only
    cases l.dataBlocks[i]? <;> rfl

/-- The blocks in memory are queued by the same insertion. -/
theorem BackedBlockList.queueBB_eq_queue (l : BackedBlockList) (new : BackedBlock) :
    l.queueBB new = (queue BackedBlock.block (mergeBB l.blockSize) l.dataBlocks l.lastUsed new).map
      fun r => { l with dataBlocks := r.1, lastUsed := r.2 } := by
  obtain ⟨blockSize, dataBlocks, lastUsed⟩ := l
  cases dataBlocks with
  | nil => rfl
  | cons first rest =>
    unfold queueBB queue
    dsimp only
    by_cases hfirst : new.block < first.block
    · rw [if_pos hfirst, if_pos hfirst]
      rfl
    rw [if_neg hfirst, if_neg hfirst, searchFrom_eq_queueFrom]
    dsimp only
    generalize queueFrom BackedBlock.block (first :: rest) lastUsed new.block +
      _ = i
    cases List.drop i (first :: rest) with
    | nil => rfl
    | cons bb after =>
      dsimp only
      rw [mergeNext_eq_queueNext]
      cases queueNext (mergeBB blockSize) new after with
      | none => rfl
      | some r =>
        dsimp only
        cases mergeBB blockSize bb r.1 with
        | none => rfl
        | some merged => cases merged <;> rfl

/-! ### What blocks stand for -/

namespace FileBlock

/-- The block with the bytes of the file in memory. -/
def load (image : List Byte) (bb : FileBlock) : BackedBlock where
  block := bb.block
  len := bb.len
  backing :=
    match bb.backing with
    | .fd offset => .data ((image.drop offset).take bb.len)
    | .fill val => .fill val

/-- The block is not empty, and its value has four bytes. -/
structure Sound (bb : FileBlock) : Prop where
  pos : 0 < bb.len
  word : ∀ val, bb.backing = .fill val → val.length = 4

end FileBlock

/-- The blocks lie one after the other from block `lo` to block `hi`, none is empty, and each is a
number of whole blocks that are in the file. -/
structure Laid (image : List Byte) (blockSize lo : ℕ) (l : List FileBlock) (hi : ℕ) : Prop where
  ordered : Ordered blockSize lo (l.map (FileBlock.load image)) hi
  sound : ∀ bb ∈ l, bb.Sound

/-- What blocks give to a region. -/
def paintFile (image : List Byte) (blockSize : ℕ) (l : List FileBlock) (layer : Layer) : Layer :=
  (l.map (FileBlock.load image)).foldl (BackedBlock.paint blockSize) layer

section

variable {image : List Byte} {blockSize lo hi : ℕ} {l r : List FileBlock} {layer : Layer}

theorem laid_append :
    Laid image blockSize lo (l ++ r) hi ↔
      ∃ mid, Laid image blockSize lo l mid ∧ Laid image blockSize mid r hi := by
  constructor
  · rintro ⟨hord, hsound⟩
    rw [List.map_append] at hord
    obtain ⟨mid, hl, hr⟩ := ordered_append.1 hord
    exact ⟨mid, ⟨hl, fun bb hbb => hsound bb (List.mem_append_left _ hbb)⟩,
      ⟨hr, fun bb hbb => hsound bb (List.mem_append_right _ hbb)⟩⟩
  · rintro ⟨mid, hl, hr⟩
    refine ⟨?_, fun bb hbb => ?_⟩
    · rw [List.map_append]
      exact ordered_append.2 ⟨mid, hl.ordered, hr.ordered⟩
    · obtain hbb | hbb := List.mem_append.1 hbb
      · exact hl.sound bb hbb
      · exact hr.sound bb hbb

theorem laid_cons {bb : FileBlock} :
    Laid image blockSize lo (bb :: l) hi ↔
      lo ≤ bb.block ∧ (bb.load image).Whole blockSize ∧ bb.Sound ∧
        Laid image blockSize (bb.block + bb.len / blockSize) l hi := by
  constructor
  · rintro ⟨⟨hlo, hwhole, hord⟩, hsound⟩
    rw [List.forall_mem_cons] at hsound
    exact ⟨hlo, hwhole, hsound.1, hord, hsound.2⟩
  · rintro ⟨hlo, hwhole, hbb, hord, hsound⟩
    exact ⟨⟨hlo, hwhole, hord⟩, List.forall_mem_cons.2 ⟨hbb, hsound⟩⟩

theorem paintFile_append :
    paintFile image blockSize (l ++ r) layer =
      paintFile image blockSize r (paintFile image blockSize l layer) := by
  rw [paintFile, List.map_append, List.foldl_append]
  rfl

theorem take_drop_append (offset m n : ℕ) :
    (image.drop offset).take m ++ (image.drop (offset + m)).take n =
      (image.drop offset).take (m + n) := by
  rw [List.take_add, List.drop_drop]

/-- Bytes in two parts. -/
theorem put_append (start : ℕ) (a b : List Byte) :
    (layer.put start a.length (a.getD · 0)).put (start + a.length) b.length (b.getD · 0) =
      layer.put start (a ++ b).length ((a ++ b).getD · 0) := by
  funext p
  simp only [Layer.put, List.length_append]
  by_cases hb : start + a.length ≤ p ∧ p < start + a.length + b.length
  · rw [if_pos hb, if_pos (by omega), List.getD_append_right _ _ _ _ (by omega)]
    congr 2
    omega
  · rw [if_neg hb]
    by_cases ha : start ≤ p ∧ p < start + a.length
    · rw [if_pos ha, if_pos (by omega), List.getD_append _ _ _ _ (by omega)]
    · rw [if_neg ha, if_neg (by omega)]

/-- Which blocks are merged, and to what. -/
theorem FileBlock.merge_eq_some {a b merged : FileBlock}
    (h : a.merge blockSize b = some (some merged)) :
    (a.block + a.len / blockSize) % 2 ^ 32 = b.block ∧
      merged = { a with len := wrap (a.len + b.len) } ∧
      ((∃ val, a.backing = .fill val ∧ b.backing = .fill val) ∨
        ∃ offset, a.backing = .fd offset ∧ b.backing = .fd (wrap (offset + a.len))) := by
  unfold merge at h
  split_ifs at h with hlt hmeet
  · cases h
  refine ⟨not_not.1 hmeet, ?_⟩
  split at h
  · rename_i v w hv hw
    split_ifs at h with hvw
    · cases h
      exact ⟨rfl, .inl ⟨v, hv, hvw ▸ hw⟩⟩
    · cases h
  · rename_i o o' ho ho'
    split_ifs at h with hoffset
    · cases h
      exact ⟨rfl, .inr ⟨o, ho, hoffset ▸ ho'⟩⟩
    · cases h
  · cases h

/-- Two regions of the file that meet are painted as one. -/
theorem paint_regions {block block' offset m n : ℕ} (hm : offset + m ≤ image.length)
    (hn : offset + m + n ≤ image.length) (hmeet : block * blockSize + m = block' * blockSize) :
    BackedBlock.paint blockSize layer ⟨block, m + n, .data ((image.drop offset).take (m + n))⟩ =
      BackedBlock.paint blockSize
        (BackedBlock.paint blockSize layer ⟨block, m, .data ((image.drop offset).take m)⟩)
        ⟨block', n, .data ((image.drop (offset + m)).take n)⟩ := by
  have hfirst : ((image.drop offset).take m).length = m := by
    rw [List.length_take, List.length_drop]
    omega
  have hsecond : ((image.drop (offset + m)).take n).length = n := by
    rw [List.length_take, List.length_drop]
    omega
  have hput := @put_append layer (block * blockSize) ((image.drop offset).take m)
    ((image.drop (offset + m)).take n)
  rw [take_drop_append, hfirst, hsecond, List.length_take, List.length_drop,
    min_eq_left (by omega)] at hput
  simp only [BackedBlock.paint]
  rw [← hmeet]
  exact hput.symm

/-- Two blocks have been merged to one that stands for both. -/
structure Merged (image : List Byte) (blockSize : ℕ) (a b merged : FileBlock) : Prop where
  block : merged.block = a.block
  len : merged.len = a.len + b.len
  meet : a.block + a.len / blockSize = b.block
  whole : (merged.load image).Whole blockSize
  sound : merged.Sound
  painted : ∀ layer, BackedBlock.paint blockSize layer (merged.load image) =
    BackedBlock.paint blockSize (BackedBlock.paint blockSize layer (a.load image)) (b.load image)

theorem FileBlock.merged_of_merge {a b merged : FileBlock}
    (hmerge : a.merge blockSize b = some (some merged))
    (ha : (a.load image).Whole blockSize) (hb : (b.load image).Whole blockSize)
    (hasound : a.Sound) (hfour : 4 ∣ blockSize)
    (hend : a.block + a.len / blockSize < 2 ^ 32) (h64 : a.len + b.len < 2 ^ 64)
    (himage : image.length < 2 ^ 64) : Merged image blockSize a b merged := by
  obtain ⟨hmeet, rfl, hkind⟩ := merge_eq_some hmerge
  rw [Nat.mod_eq_of_lt hend] at hmeet
  have hdiv : a.len / blockSize * blockSize = a.len := Nat.div_mul_cancel ha.1
  have hbytes : a.block * blockSize + a.len = b.block * blockSize := by
    rw [← hmeet, Nat.add_mul, hdiv]
  have hdvd : blockSize ∣ a.len + b.len := Nat.dvd_add ha.1 hb.1
  have hpos : 0 < a.len + b.len := Nat.add_pos_left hasound.pos _
  rw [wrap_of_lt h64]
  obtain ⟨val, hval, hval'⟩ | ⟨offset, hoffset, hoffset'⟩ := hkind
  · have hloaded : a.load image = ⟨a.block, a.len, .fill val⟩ := by simp [load, hval]
    have hloaded' : b.load image = ⟨b.block, b.len, .fill val⟩ := by simp [load, hval']
    have hmerged : load image { a with len := a.len + b.len } =
        ⟨a.block, a.len + b.len, .fill val⟩ := by
      simp [load, hval]
    refine ⟨rfl, rfl, hmeet, ?_, ⟨hpos, fun w hw => hasound.word w hw⟩, fun layer => ?_⟩
    · rw [hmerged]
      exact ⟨hdvd, fun bytes hdata => by cases hdata⟩
    · rw [hmerged, hloaded, hloaded']
      exact @paint_merged blockSize ⟨a.block, a.len, .fill val⟩ ⟨b.block, b.len, .fill val⟩ val
        rfl rfl (hfour.trans ha.1) hbytes layer
  · have hloaded : a.load image = ⟨a.block, a.len, .data ((image.drop offset).take a.len)⟩ := by
      simp [load, hoffset]
    have hlength := ha.2 _ (congrArg BackedBlock.backing hloaded)
    change _ = a.len at hlength
    rw [List.length_take, List.length_drop] at hlength
    have hinside : offset + a.len ≤ image.length := by
      have := hasound.pos
      omega
    rw [wrap_of_lt (by omega)] at hoffset'
    have hloaded' : b.load image =
        ⟨b.block, b.len, .data ((image.drop (offset + a.len)).take b.len)⟩ := by
      simp [load, hoffset']
    have hlength' := hb.2 _ (congrArg BackedBlock.backing hloaded')
    change _ = b.len at hlength'
    rw [List.length_take, List.length_drop] at hlength'
    have hinside' : offset + a.len + b.len ≤ image.length := by omega
    have hmerged : load image { a with len := a.len + b.len } =
        ⟨a.block, a.len + b.len, .data ((image.drop offset).take (a.len + b.len))⟩ := by
      simp [load, hoffset]
    refine ⟨rfl, rfl, hmeet, ?_, ⟨hpos, fun w hw => hasound.word w hw⟩, fun layer => ?_⟩
    · rw [hmerged]
      refine ⟨hdvd, fun bytes hdata => ?_⟩
      cases hdata
      rw [List.length_take, List.length_drop]
      exact min_eq_left (by omega)
    · rw [hmerged, hloaded, hloaded']
      exact paint_regions hinside hinside' hbytes

end

/-! ### Adding blocks behind all others -/

namespace FdSparseFile

/-- `backed_block_add_fd` and `backed_block_add_fill`. -/
def add (s : FdSparseFile) (backing : FileBacking) (len block : ℕ) : Except Fault FdSparseFile :=
  match queue FileBlock.block (FileBlock.merge s.blockSize) s.dataBlocks s.lastUsed
      ⟨block, len, backing⟩ with
  | none => .error .assertion
  | some (l, used) => .ok { s with dataBlocks := l, lastUsed := used }

end FdSparseFile

section

variable {image : List Byte} {s : FdSparseFile} {hi : ℕ} {backing : FileBacking} {len block : ℕ}

theorem Laid.lt_of_mem {blockSize lo : ℕ} {l : List FileBlock} (h : Laid image blockSize lo l hi)
    {bb : FileBlock} (hbb : bb ∈ l) : bb.block + bb.len / blockSize ≤ hi := by
  obtain ⟨before, after, rfl⟩ := List.append_of_mem hbb
  obtain ⟨mid, -, hrest⟩ := laid_append.1 h
  obtain ⟨-, -, -, hafter⟩ := laid_cons.1 hrest
  exact hafter.ordered.le

/-- A block that is added behind all others is painted last. -/
theorem FdSparseFile.add_laid (h : Laid image s.blockSize 0 s.dataBlocks hi) (hhi : hi ≤ block)
    (hsound : FileBlock.Sound ⟨block, len, backing⟩)
    (hwhole : (FileBlock.load image ⟨block, len, backing⟩).Whole s.blockSize)
    (hfour : 4 ∣ s.blockSize) (hpos : 0 < s.blockSize) (h32 : block < 2 ^ 32)
    (h64 : (block * s.blockSize) + len < 2 ^ 64) (himage : image.length < 2 ^ 64) :
    ∃ l used, s.add backing len block = .ok { s with dataBlocks := l, lastUsed := used } ∧
      Laid image s.blockSize 0 l (block + len / s.blockSize) ∧
      ∀ layer, paintFile image s.blockSize l layer =
        BackedBlock.paint s.blockSize (paintFile image s.blockSize s.dataBlocks layer)
          (FileBlock.load image ⟨block, len, backing⟩) := by
  -- blocks are not empty, so that each starts before the next one
  have hlt : ∀ bb ∈ s.dataBlocks, bb.block < (⟨block, len, backing⟩ : FileBlock).block := by
    intro bb hbb
    have hend := h.lt_of_mem hbb
    obtain ⟨before, after, hl⟩ := List.append_of_mem hbb
    rw [hl] at h
    obtain ⟨mid, -, hrest⟩ := laid_append.1 h
    obtain ⟨-, hwhole, hbbSound, -⟩ := laid_cons.1 hrest
    have hblocks : 0 < bb.len / s.blockSize :=
      Nat.div_pos (Nat.le_of_dvd hbbSound.pos hwhole.1) hpos
    show bb.block < block
    omega
  have hmerge : ∀ bb ∈ s.dataBlocks, bb.merge s.blockSize ⟨block, len, backing⟩ ≠ none := by
    intro bb hbb
    rw [FileBlock.merge, if_neg (not_not.2 (hlt bb hbb))]
    split_ifs
    · simp
    · split <;> simp
  obtain ⟨l, used, hqueue, hl⟩ :=
    @queue_of_lt _ FileBlock.block (FileBlock.merge s.blockSize) _ s.lastUsed _ hlt hmerge
  refine ⟨l, used, by rw [FdSparseFile.add, hqueue], ?_⟩
  obtain rfl | ⟨init, last, merged, hinit, hmerged, rfl⟩ := hl
  · refine ⟨laid_append.2 ⟨hi, h, laid_cons.2 ⟨hhi, hwhole, hsound, le_rfl, ?_⟩⟩, fun layer => ?_⟩
    · exact fun bb hbb => by cases hbb
    · rw [paintFile_append]
      rfl
  · rw [hinit] at h
    obtain ⟨mid, hlaid, hrest⟩ := laid_append.1 h
    obtain ⟨hmid, hlastWhole, hlastSound, hafter⟩ := laid_cons.1 hrest
    have hend : last.block + last.len / s.blockSize ≤ hi := hafter.ordered.le
    have hdvd : s.blockSize ∣ last.len := hlastWhole.1
    have hlastLen : last.block * s.blockSize + last.len ≤ block * s.blockSize := by
      rw [← Nat.div_mul_cancel hdvd, ← Nat.add_mul]
      exact Nat.mul_le_mul_right _ (hend.trans hhi)
    have hboth := FileBlock.merged_of_merge hmerged hlastWhole hwhole hlastSound hfour (by omega)
      (by dsimp only; omega) himage
    refine ⟨laid_append.2 ⟨mid, hlaid, laid_cons.2 ⟨?_, hboth.whole, hboth.sound, ?_, ?_⟩⟩,
      fun layer => ?_⟩
    · rw [hboth.block]
      exact hmid
    · have hmeet := hboth.meet
      dsimp only at hmeet
      show merged.block + merged.len / s.blockSize ≤ block + len / s.blockSize
      rw [hboth.block, hboth.len, Nat.add_div_of_dvd_right hdvd]
      dsimp only
      omega
    · exact fun bb hbb => by cases hbb
    · rw [hinit, paintFile_append, paintFile_append]
      exact hboth.painted _

end

end RpiFastbootd
