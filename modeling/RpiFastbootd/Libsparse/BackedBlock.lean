import Mathlib.Data.List.TakeWhile
import RpiFastbootd.Lib.Bytes
import RpiFastbootd.Lib.Word

/-!
# The list of backed blocks

What is read from a sparse image is queued as a list of blocks, each with the data or the fill value
behind it, in the order of their places.  `queueBB` finds the place of a new block, from the block
that was queued last or from the start, and merges it with its neighbours where both are fills of one
value and meet.

`paint` is what a block means: the bytes it gives to a region.  A block that comes after all others
is painted last (`queueBB_append`).
-/

namespace RpiFastbootd

/-- What stands behind a block: data of the image, or a value of four bytes. -/
inductive Backing
  | data (bytes : List Byte)
  | fill (val : List Byte)
  deriving DecidableEq, Repr

structure BackedBlock where
  block : ℕ
  len : ℕ
  backing : Backing
  deriving DecidableEq, Repr

/-- A `backed_block_list`, with the position of the block that was used last. -/
structure BackedBlockList where
  blockSize : ℕ
  dataBlocks : List BackedBlock := []
  lastUsed : Option ℕ := none
  deriving DecidableEq, Repr

/-- `merge_bb`: nothing where its assertion fails, and no block where the two are not merged. -/
def mergeBB (blockSize : ℕ) (a b : BackedBlock) : Option (Option BackedBlock) :=
  if ¬ a.block < b.block then none
  else
    match a.backing, b.backing with
    | .fill v, .fill w =>
      if (a.block + a.len / blockSize) % 2 ^ 32 = b.block ∧ v = w then
        some (some { a with len := wrap (a.len + b.len) })
      else some none
    | _, _ => some none

/-- A block and the blocks after it, of which the first may be merged into it. -/
def mergeNext (blockSize : ℕ) (a : BackedBlock) :
    List BackedBlock → Option (BackedBlock × List BackedBlock)
  | [] => some (a, [])
  | next :: rest =>
    match mergeBB blockSize a next with
    | none => none
    | some none => some (a, next :: rest)
    | some (some merged) => some (merged, rest)

namespace BackedBlockList

/-- The position from which the place of a block is searched. -/
def searchFrom (l : BackedBlockList) (block : ℕ) : ℕ :=
  match l.lastUsed with
  | none => 0
  | some i =>
    match l.dataBlocks[i]? with
    | none => 0
    | some used => if used.block < block then i else 0

/-- `queue_bb`: nothing where an assertion fails. -/
def queueBB (l : BackedBlockList) (new : BackedBlock) : Option BackedBlockList :=
  match l.dataBlocks with
  | [] => some { l with dataBlocks := [new] }
  | first :: _ =>
    if new.block < first.block then
      some { l with dataBlocks := new :: l.dataBlocks, lastUsed := l.lastUsed.map (· + 1) }
    else
      let start := l.searchFrom new.block
      let i := start + ((l.dataBlocks.drop (start + 1)).takeWhile (·.block < new.block)).length
      match l.dataBlocks.drop i with
      | [] => some l
      | bb :: after =>
        match mergeNext l.blockSize new after with
        | none => none
        | some (new, after) =>
          match mergeBB l.blockSize bb new with
          | none => none
          | some none =>
            some { l with
              dataBlocks := l.dataBlocks.take i ++ bb :: new :: after
              lastUsed := some (i + 1) }
          | some (some merged) =>
            some { l with
              dataBlocks := l.dataBlocks.take i ++ merged :: after
              lastUsed := some i }

end BackedBlockList

/-! ### The meaning of a block -/

/-- The bytes that a part of a device is to get. -/
abbrev Layer := ℕ → Option Byte

def Backing.byte : Backing → ℕ → Byte
  | data bytes, i => bytes.getD i 0
  | fill val, i => val.getD (i % 4) 0

/-- Bytes from a place on. -/
def Layer.put (layer : Layer) (start len : ℕ) (byte : ℕ → Byte) : Layer := fun p =>
  if start ≤ p ∧ p < start + len then some (byte (p - start)) else layer p

/-- The block has a number of whole blocks, and all their bytes. -/
def BackedBlock.Whole (blockSize : ℕ) (bb : BackedBlock) : Prop :=
  blockSize ∣ bb.len ∧ ∀ bytes, bb.backing = .data bytes → bytes.length = bb.len

def BackedBlock.paint (blockSize : ℕ) (layer : Layer) (bb : BackedBlock) : Layer :=
  layer.put (bb.block * blockSize) bb.len bb.backing.byte

/-- The blocks lie one after the other from block `lo` to block `hi`, and each is a number of whole
blocks. -/
def Ordered (blockSize : ℕ) : ℕ → List BackedBlock → ℕ → Prop
  | lo, [], hi => lo ≤ hi
  | lo, bb :: rest, hi =>
    lo ≤ bb.block ∧ bb.Whole blockSize ∧ Ordered blockSize (bb.block + bb.len / blockSize) rest hi

section

variable {blockSize lo mid hi : ℕ} {l r : List BackedBlock}

theorem ordered_append :
    Ordered blockSize lo (l ++ r) hi ↔
      ∃ mid, Ordered blockSize lo l mid ∧ Ordered blockSize mid r hi := by
  induction l generalizing lo with
  | nil =>
    constructor
    · exact fun h => ⟨lo, le_rfl, h⟩
    · rintro ⟨mid, hle, h⟩
      change lo ≤ mid at hle
      cases r with
      | nil => exact hle.trans h
      | cons bb r => exact ⟨hle.trans h.1, h.2⟩
  | cons bb l ih =>
    constructor
    · rintro ⟨hlo, hwhole, h⟩
      obtain ⟨mid, hl, hr⟩ := ih.1 h
      exact ⟨mid, ⟨hlo, hwhole, hl⟩, hr⟩
    · rintro ⟨mid, ⟨hlo, hwhole, hl⟩, hr⟩
      exact ⟨hlo, hwhole, ih.2 ⟨mid, hl, hr⟩⟩

theorem Ordered.le (h : Ordered blockSize lo l hi) : lo ≤ hi := by
  induction l generalizing lo with
  | nil => exact h
  | cons bb l ih => exact h.1.trans ((Nat.le_add_right _ _).trans (ih h.2.2))

theorem Ordered.mono {hi' : ℕ} (h : Ordered blockSize lo l hi) (hle : hi ≤ hi') :
    Ordered blockSize lo l hi' := by
  rw [← List.append_nil l]
  exact ordered_append.2 ⟨hi, h, hle⟩

end

/-! ### Queueing behind all other blocks -/

namespace BackedBlockList

variable {l : BackedBlockList} {new : BackedBlock}

theorem searchFrom_lt (block : ℕ) (h : l.dataBlocks ≠ []) :
    l.searchFrom block < l.dataBlocks.length := by
  have hpos : 0 < l.dataBlocks.length := List.length_pos_iff.2 h
  unfold searchFrom
  split
  · exact hpos
  · split
    · exact hpos
    · rename_i i _ used hused
      split_ifs
      · exact (List.getElem?_eq_some_iff.1 hused).1
      · exact hpos

/-- A block behind all others is put at the end, wherever the search starts. -/
theorem queueBB_of_lt {init : List BackedBlock} {last : BackedBlock}
    (hl : l.dataBlocks = init ++ [last]) (h : ∀ bb ∈ l.dataBlocks, bb.block < new.block) :
    l.queueBB new =
      match mergeBB l.blockSize last new with
      | none => none
      | some none =>
        some { l with
          dataBlocks := init ++ [last, new]
          lastUsed := some (init.length + 1) }
      | some (some merged) =>
        some { l with
          dataBlocks := init ++ [merged]
          lastUsed := some init.length } := by
  have hne : l.dataBlocks ≠ [] := by simp [hl]
  have hlength : l.dataBlocks.length = init.length + 1 := by simp [hl]
  have hstart := searchFrom_lt new.block hne
  have hall : (l.dataBlocks.drop (l.searchFrom new.block + 1)).takeWhile (·.block < new.block) =
      l.dataBlocks.drop (l.searchFrom new.block + 1) :=
    List.takeWhile_eq_self_iff.2 fun bb hbb => decide_eq_true (h bb (List.mem_of_mem_drop hbb))
  have hi : l.searchFrom new.block +
      ((l.dataBlocks.drop (l.searchFrom new.block + 1)).takeWhile (·.block < new.block)).length =
        init.length := by
    rw [hall, List.length_drop]
    omega
  have hdrop : l.dataBlocks.drop init.length = [last] := by
    rw [hl, List.drop_left]
  have htake : l.dataBlocks.take init.length = init := by
    rw [hl, List.take_left]
  unfold queueBB
  split
  · rename_i hnil
    exact absurd hnil hne
  · rename_i first rest hcons
    have hfirst : first.block < new.block := h first (by simp [hcons])
    rw [if_neg (by omega)]
    dsimp only
    rw [hi, hdrop, htake]
    rfl

/-- A block behind all others is put at the end, or merged into the last block, if both are fills of
one value and meet. -/
theorem queueBB_cases (h : ∀ bb ∈ l.dataBlocks, bb.block < new.block) :
    ∃ l', l.queueBB new = some l' ∧ l'.blockSize = l.blockSize ∧
      (l'.dataBlocks = l.dataBlocks ++ [new] ∨
        ∃ init last val, l.dataBlocks = init ++ [last] ∧ last.backing = .fill val ∧
          new.backing = .fill val ∧ (last.block + last.len / l.blockSize) % 2 ^ 32 = new.block ∧
          l'.dataBlocks = init ++ [{ last with len := wrap (last.len + new.len) }]) := by
  obtain hnil | ⟨init, last, hl⟩ := List.eq_nil_or_concat l.dataBlocks
  · refine ⟨{ l with dataBlocks := [new] }, ?_, rfl, .inl ?_⟩
    · unfold queueBB
      rw [hnil]
    · simp [hnil]
  rw [List.concat_eq_append] at hl
  have hlt : last.block < new.block := h last (by simp [hl])
  rw [queueBB_of_lt hl h]
  unfold mergeBB
  rw [if_neg (not_not.2 hlt)]
  have happ : init ++ [last, new] = l.dataBlocks ++ [new] := by simp [hl]
  split
  · rename_i heq
    split at heq
    · split_ifs at heq
    · cases heq
  · exact ⟨_, rfl, rfl, .inl happ⟩
  · rename_i merged heq
    split at heq
    · rename_i v w hv hw
      split_ifs at heq with hmeet
      · cases heq
        obtain ⟨hmeet, rfl⟩ := hmeet
        exact ⟨_, rfl, rfl, .inr ⟨init, last, v, hl, hv, hw, hmeet, rfl⟩⟩
      · cases heq
    · cases heq

theorem starts_queueBB {l' : BackedBlockList} (h : ∀ bb ∈ l.dataBlocks, bb.block < new.block)
    (hqueue : l.queueBB new = some l') :
    ∀ bb ∈ l'.dataBlocks, bb.block = new.block ∨ ∃ b ∈ l.dataBlocks, bb.block = b.block := by
  obtain ⟨l₁, hl₁, -, hcases⟩ := queueBB_cases h
  cases hqueue.symm.trans hl₁
  intro bb hbb
  obtain happ | ⟨init, last, _, hl, -, -, -, hmerged⟩ := hcases
  · rw [happ, List.mem_append, List.mem_singleton] at hbb
    obtain hbb | rfl := hbb
    · exact .inr ⟨bb, hbb, rfl⟩
    · exact .inl rfl
  · rw [hmerged, List.mem_append, List.mem_singleton] at hbb
    obtain hbb | rfl := hbb
    · exact .inr ⟨bb, by simp [hl, hbb], rfl⟩
    · exact .inr ⟨last, by simp [hl], rfl⟩

end BackedBlockList

/-- Two fills of one value that meet are painted as one. -/
theorem paint_merged {blockSize : ℕ} {a b : BackedBlock} {val : List Byte}
    (ha : a.backing = .fill val) (hb : b.backing = .fill val) (hfour : 4 ∣ a.len)
    (hmeet : a.block * blockSize + a.len = b.block * blockSize) (layer : Layer) :
    BackedBlock.paint blockSize layer { a with len := a.len + b.len } =
      BackedBlock.paint blockSize (BackedBlock.paint blockSize layer a) b := by
  funext p
  simp only [BackedBlock.paint, Layer.put, ha, hb]
  by_cases hin : b.block * blockSize ≤ p ∧ p < b.block * blockSize + b.len
  · rw [if_pos hin, if_pos (by omega)]
    have hmod : (p - a.block * blockSize) % 4 = (p - b.block * blockSize) % 4 := by
      obtain ⟨k, hk⟩ := hfour
      omega
    simp only [Backing.byte, hmod]
  · rw [if_neg hin]
    by_cases hfirst : a.block * blockSize ≤ p ∧ p < a.block * blockSize + a.len
    · rw [if_pos hfirst, if_pos (by omega)]
    · rw [if_neg hfirst, if_neg (by omega)]

namespace BackedBlockList

variable {l l' : BackedBlockList} {new : BackedBlock} {hi : ℕ}

/-- A block that is queued behind all others is painted last. -/
theorem ordered_queueBB (hord : Ordered l.blockSize 0 l.dataBlocks hi)
    (h : ∀ bb ∈ l.dataBlocks, bb.block < new.block) (hhi : hi ≤ new.block)
    (hwhole : new.Whole l.blockSize) (h32 : new.block < 2 ^ 32)
    (h64 : new.block * l.blockSize + new.len < 2 ^ 64) (hfour : 4 ∣ l.blockSize)
    (hqueue : l.queueBB new = some l') :
    Ordered l.blockSize 0 l'.dataBlocks (new.block + new.len / l.blockSize) ∧
      ∀ layer, l'.dataBlocks.foldl (BackedBlock.paint l.blockSize) layer =
        BackedBlock.paint l.blockSize (l.dataBlocks.foldl (BackedBlock.paint l.blockSize) layer)
          new := by
  obtain ⟨l₁, hl₁, -, hcases⟩ := queueBB_cases h
  cases hqueue.symm.trans hl₁
  obtain happ | ⟨init, last, val, hl, hlast, hnew, hmeet, hmerged⟩ := hcases
  · rw [happ]
    refine ⟨ordered_append.2 ⟨hi, hord, hhi, hwhole, le_rfl⟩, fun layer => ?_⟩
    rw [List.foldl_append]
    rfl
  · rw [hl] at hord
    obtain ⟨mid, hinit, hmid, hlastWhole, hend⟩ := ordered_append.1 hord
    change last.block + last.len / l.blockSize ≤ hi at hend
    rw [Nat.mod_eq_of_lt (by omega)] at hmeet
    -- the last block ends where the new one starts
    have hbytes : last.block * l.blockSize + last.len = new.block * l.blockSize := by
      rw [← hmeet, Nat.add_mul, Nat.div_mul_cancel hlastWhole.1]
    rw [wrap_of_lt (by omega)] at hmerged
    rw [hmerged, hl]
    constructor
    · refine ordered_append.2 ⟨mid, hinit, hmid, ⟨?_, fun bytes hdata => ?_⟩, ?_⟩
      · exact Nat.dvd_add hlastWhole.1 hwhole.1
      · rw [hlast] at hdata
        cases hdata
      · show last.block + (last.len + new.len) / l.blockSize ≤ _
        rw [Nat.add_div_of_dvd_right hlastWhole.1]
        omega
    · intro layer
      rw [List.foldl_append, List.foldl_append]
      exact paint_merged hlast hnew (hfour.trans hlastWhole.1) hbytes _

end BackedBlockList

end RpiFastbootd
