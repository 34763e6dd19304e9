import Mathlib.Algebra.Order.BigOperators.Group.List
import RpiFastbootd.Idp.Forest

/-!
# The size of an image and the size of its disk

`validateDeviceStorage` compares the capacity of the disk with the space of the layout.  Both are
64-bit numbers: the sizes of the partitions are added up modulo `2 ^ 64`, so the comparison means
what it says exactly when the space, in unbounded numbers, is below `2 ^ 64`
(`storage_check_sound_iff`).
-/

namespace RpiFastbootd

/-! ### The space of a layout -/

/-- Add the sizes of the root partitions. -/
def addRoots (all : List IDPpartition) : List IDPpartition → ℕ → Option ℕ
  | [], size => return size
  | part :: parts, size => do
    if part.parentIndex = -1 then
      addRoots all parts (wrap (size + (← part.getSize true all)))
    else addRoots all parts size

/-- All root partitions, aligned, plus the partition table; `none` when the process dies on the
way. -/
def computeImageStorageSize (image : IDPimage) (partitions : List IDPpartition) : Option ℕ := do
  let size ← addRoots partitions partitions 0
  match image.deviceStorage.ptableType with
  | .dos => return wrap (size + image.deviceStorage.ptableAlign)
  | .gpt => return wrap (size + wrap (image.deviceStorage.ptableAlign * 2))

/-- The check against a capacity, if there is one. -/
def validateDeviceStorage (image : IDPimage) (partitions : List IDPpartition)
    (capacity : Option ℕ) : Option Bool :=
  match capacity with
  | none => some false
  | some dcap => do
    let isize ← computeImageStorageSize image partitions
    return dcap ≠ 0 && !decide (isize > dcap)

/-- The space of a root partition in unbounded numbers, at the alignment `a`. -/
def requiredOf (a : ℕ) (all : List IDPpartition) (p : IDPpartition) : ℕ :=
  match p.luks with
  | none => alignUpNat p.size a
  | some l =>
    alignUpNat l.rawHeaderSize a +
      (match l.etype with
        | .partitioned => 2 * a
        | .raw => 0) +
      ((p.children all).map fun child => alignUpNat child.size a).sum

/-- The space of the layout in unbounded numbers. -/
def required (image : IDPimage) (partitions : List IDPpartition) : ℕ :=
  let a := image.deviceStorage.ptableAlign
  ((partitions.filter fun p => p.parentIndex == -1).map (requiredOf a partitions)).sum +
    match image.deviceStorage.ptableType with
    | .dos => a
    | .gpt => 2 * a

section

variable {image : IDPimage} {l : List IDPpartition}

theorem children_of_plain (h : Layout image l) {p : IDPpartition} (hp : p ∈ l)
    (hl : p.luks = none) : p.children l = [] := by
  obtain ⟨i, hi⟩ := List.getElem?_of_mem hp
  rw [IDPpartition.children, List.filter_eq_nil_iff]
  intro q hq hqp
  have hpi : q.parentIndex = i := by
    rw [← h.forest.index i p hi]
    simpa using hqp
  obtain ⟨k, hk⟩ := List.getElem?_of_mem hq
  rcases h.forest.parent k q hk with hr | ⟨j, c, -, hj, hc, hcc, -⟩
  · omega
  · obtain rfl : j = i := by omega
    rw [hi] at hc
    cases hc
    rw [IDPpartition.isCryptContainer, hl] at hcc
    cases hcc

theorem luks_of_child (h : Layout image l) {p q : IDPpartition} (hp : p ∈ l)
    (hq : q ∈ p.children l) : q ∈ l ∧ q.luks = none := by
  obtain ⟨hql, hqp⟩ := List.mem_filter.1 hq
  refine ⟨hql, ?_⟩
  obtain ⟨i, hi⟩ := List.getElem?_of_mem hp
  have hidx := h.forest.index i p hi
  cases hl : q.luks with
  | none => rfl
  | some k =>
    have := h.forest.container q hql (by simp [IDPpartition.isCryptContainer, hl])
    simp only [beq_iff_eq] at hqp
    omega

theorem alignedSize_eq (h : Layout image l) {p : IDPpartition} (hp : p ∈ l) (hl : p.luks = none) :
    p.alignedSize = alignUpNat p.size image.deviceStorage.ptableAlign ∧ p.alignedSize < 2 ^ 64 :=
  IDPstorage.alignUp_ok h.align (h.plain p hp hl).2.2

/-- A plain partition is a leaf of the recursion. -/
theorem getSizeAux_leaf (h : Layout image l) {p : IDPpartition} (hp : p ∈ l)
    (hl : p.luks = none) (aligned : Bool) (depth : ℕ) :
    IDPpartition.getSizeAux aligned l (depth + 1) p = p.ownSize aligned := by
  rw [IDPpartition.getSizeAux, children_of_plain h hp hl, IDPpartition.ownSize, hl]
  rfl

theorem getSize_plain (h : Layout image l) {p : IDPpartition} (hp : p ∈ l) (hl : p.luks = none)
    (aligned : Bool) :
    p.getSize aligned l = some (if aligned then p.alignedSize else p.size) := by
  rw [IDPpartition.getSize, getSizeAux_leaf h hp hl, IDPpartition.ownSize, hl]
  rfl

theorem getSizeAux_plain (h : Layout image l) {p : IDPpartition} (hp : p ∈ l)
    (hl : p.luks = none) (depth : ℕ) :
    IDPpartition.getSizeAux true l (depth + 1) p =
      some (alignUpNat p.size image.deviceStorage.ptableAlign) := by
  rw [getSizeAux_leaf h hp hl, IDPpartition.ownSize, hl, ← (alignedSize_eq h hp hl).1]
  rfl

/-- The alignment is no obstacle to the header size of a container. -/
def HeaderFits (image : IDPimage) : Prop :=
  0 < image.deviceStorage.ptableAlign ∧
    16 * 1024 * 1024 + image.deviceStorage.ptableAlign ≤ 2 ^ 64

theorem rawHeaderSize_eq {k : IDPluks} (hk : k.Checked) : k.rawHeaderSize = 16 * 1024 * 1024 := by
  simp [IDPluks.rawHeaderSize, hk.version, hk.headerSizeBytes]

theorem headerSize_container (h : Layout image l) (hf : HeaderFits image) {p : IDPpartition}
    (hp : p ∈ l) {k : IDPluks} (hl : p.luks = some k) :
    k.headerSize = some (alignUpNat k.rawHeaderSize image.deviceStorage.ptableAlign) ∧
      alignUpNat k.rawHeaderSize image.deviceStorage.ptableAlign < 2 ^ 64 := by
  obtain ⟨hk, ha, -⟩ := h.luks p hp k hl
  have hraw := rawHeaderSize_eq hk
  have haligned := alignUp64_eq hf.1 (by rw [hraw]; exact hf.2 :
    k.rawHeaderSize + image.deviceStorage.ptableAlign ≤ 2 ^ 64)
  constructor
  · rw [IDPluks.headerSize, ha, if_neg (by have := hf.1; omega), haligned]
  · rw [← haligned]
    exact wrap_lt _

theorem ownSize_container (h : Layout image l) (hf : HeaderFits image) {p : IDPpartition}
    (hp : p ∈ l) {k : IDPluks} (hl : p.luks = some k) :
    p.ownSize true = some (wrap (alignUpNat k.rawHeaderSize image.deviceStorage.ptableAlign +
      (match k.etype with
        | .partitioned => 2 * image.deviceStorage.ptableAlign
        | .raw => 0))) := by
  obtain ⟨hheader, hlt⟩ := headerSize_container h hf hp hl
  have ha := (h.luks p hp k hl).2.1
  rw [IDPpartition.ownSize, hl]
  simp only [hheader, Option.bind_eq_bind, Option.bind_some, pure]
  cases k.etype with
  | raw => rw [Nat.add_zero, wrap_of_lt hlt]
  | partitioned => rw [ha, wrap_add_wrap, Nat.mul_comm]

/-- The size of a root partition is its space, reduced to 64 bits. -/
theorem getSize_root (h : Layout image l) {p : IDPpartition} (hp : p ∈ l)
    (hf : p.isCryptContainer → HeaderFits image) :
    p.getSize true l = some (wrap (requiredOf image.deviceStorage.ptableAlign l p)) := by
  rw [IDPpartition.getSize]
  cases hl : p.luks with
  | none =>
    obtain ⟨heq, hlt⟩ := alignedSize_eq h hp hl
    rw [getSizeAux_plain h hp hl, requiredOf, hl, wrap_of_lt (heq ▸ hlt)]
  | some k =>
    have hown := ownSize_container h (hf (by simp [IDPpartition.isCryptContainer, hl])) hp hl
    rw [IDPpartition.getSizeAux, hown, requiredOf, hl]
    simp only [Option.bind_eq_bind, Option.bind_some]
    refine foldlM_wrap_add (fun child hc => ?_) _
    obtain ⟨hcl, hcn⟩ := luks_of_child h hp hc
    obtain ⟨n, hn⟩ : ∃ n, l.length = n + 1 :=
      ⟨l.length - 1, by have := List.length_pos_of_mem hp; omega⟩
    rw [hn]
    exact getSizeAux_plain h hcl hcn n

theorem addRoots_eq {all : List IDPpartition} {g : IDPpartition → ℕ} {parts : List IDPpartition}
    (h : ∀ p ∈ parts, p.parentIndex = -1 → p.getSize true all = some (wrap (g p))) (a : ℕ) :
    addRoots all parts (wrap a) =
      some (wrap (a + ((parts.filter fun p => p.parentIndex == -1).map g).sum)) := by
  induction parts generalizing a with
  | nil => simp [addRoots]
  | cons p parts ih =>
    rw [List.forall_mem_cons] at h
    rw [addRoots]
    split_ifs with hp
    · rw [h.1 hp, Option.bind_eq_bind, Option.bind_some, wrap_wrap_add, wrap_add_wrap, ih h.2]
      simp [hp, Nat.add_assoc]
    · rw [ih h.2]
      simp [hp]

theorem addRoots_isSome {all parts : List IDPpartition}
    (h : ∀ p ∈ parts, p.parentIndex = -1 → ∃ n, p.getSize true all = some n) (a : ℕ) :
    ∃ n, addRoots all parts a = some n := by
  induction parts generalizing a with
  | nil => exact ⟨a, rfl⟩
  | cons p parts ih =>
    rw [List.forall_mem_cons] at h
    rw [addRoots]
    split_ifs with hp
    · obtain ⟨n, hn⟩ := h.1 hp
      rw [hn]
      exact ih h.2 _
    · exact ih h.2 a

/-- The computed size is the space, reduced to 64 bits, as long as no header overflows. -/
theorem computeImageStorageSize_eq (h : Layout image l)
    (hf : ∀ p ∈ l, p.isCryptContainer → HeaderFits image) :
    computeImageStorageSize image l = some (wrap (required image l)) := by
  have hroots := addRoots_eq (fun p hp _ => getSize_root h hp (hf p hp)) 0
  rw [wrap_of_lt (by norm_num), Nat.zero_add] at hroots
  rw [computeImageStorageSize, hroots, required]
  cases image.deviceStorage.ptableType with
  | dos => simp
  | gpt => simp [Nat.mul_comm]

theorem required_of_align_zero (h : image.deviceStorage.ptableAlign = 0) :
    required image l = 0 := by
  have hn (n : ℕ) : alignUpNat n 0 = 0 := by simp [alignUpNat]
  have hr (p : IDPpartition) : requiredOf 0 l p = 0 := by
    unfold requiredOf
    cases p.luks with
    | none => exact hn _
    | some k => cases hk : k.etype <;> simp [hn, hk]
  have hfun : requiredOf 0 l = fun _ => 0 := funext hr
  cases ht : image.deviceStorage.ptableType <;> simp [required, h, hfun, ht]

/-- A container whose header overflows does not fit in 64 bits together with the table. -/
theorem le_required_of_container (h : Layout image l) {p : IDPpartition} (hp : p ∈ l)
    (hc : p.isCryptContainer) : 2 * image.deviceStorage.ptableAlign ≤ required image l := by
  obtain ⟨k, hk⟩ := Option.isSome_iff_exists.1 hc
  have hroot := h.forest.container p hp hc
  have hself : image.deviceStorage.ptableAlign ≤
      requiredOf image.deviceStorage.ptableAlign l p := by
    rw [requiredOf, hk]
    have hpos : 0 < k.rawHeaderSize := by
      rw [rawHeaderSize_eq (h.luks p hp k hk).1]
      norm_num
    have := @self_le_alignUpNat k.rawHeaderSize image.deviceStorage.ptableAlign hpos
    dsimp only
    omega
  have hsum : requiredOf image.deviceStorage.ptableAlign l p ≤
      ((l.filter fun p => p.parentIndex == -1).map
        (requiredOf image.deviceStorage.ptableAlign l)).sum :=
    List.single_le_sum (by simp) _ (List.mem_map_of_mem (List.mem_filter.2 ⟨hp, by simp [hroot]⟩))
  rw [required]
  cases image.deviceStorage.ptableType <;> dsimp only <;> omega

/-- With an alignment the size is computed, whatever it is. -/
theorem computeImageStorageSize_isSome (h : Layout image l)
    (ha : 0 < image.deviceStorage.ptableAlign) :
    ∃ n < 2 ^ 64, computeImageStorageSize image l = some n := by
  have hsize (p : IDPpartition) (hp : p ∈ l) : ∃ n, p.getSize true l = some n := by
    obtain ⟨m, hm⟩ : ∃ m, l.length = m + 1 :=
      ⟨l.length - 1, by have := List.length_pos_of_mem hp; omega⟩
    cases hl : p.luks with
    | none => exact ⟨_, getSizeAux_plain h hp hl _⟩
    | some k =>
      obtain ⟨own, hown⟩ : ∃ own, p.ownSize true = some own := by
        have hk := (h.luks p hp k hl).2.1
        cases he : k.etype <;>
          simp [IDPpartition.ownSize, hl, IDPluks.headerSize, hk, he, Nat.pos_iff_ne_zero.1 ha]
      rw [IDPpartition.getSize, IDPpartition.getSizeAux, hown, hm]
      exact foldlM_isSome (fun child hc => by
        obtain ⟨hcl, hcn⟩ := luks_of_child h hp hc
        rw [getSizeAux_plain h hcl hcn]
        simp) own
  obtain ⟨n, hn⟩ := addRoots_isSome (fun p hp _ => hsize p hp) 0
  rw [computeImageStorageSize, hn]
  cases image.deviceStorage.ptableType with
  | dos => exact ⟨_, wrap_lt _, rfl⟩
  | gpt => exact ⟨_, wrap_lt _, rfl⟩

/-- The storage check is sound for a layout exactly when the space of the layout is a 64-bit
number. -/
theorem validateDeviceStorage_sound_iff (h : Layout image l) :
    (∀ cap < 2 ^ 64, validateDeviceStorage image l (some cap) = some true →
      required image l ≤ cap) ↔ required image l < 2 ^ 64 := by
  constructor
  · intro hsound
    by_contra hge
    have ha : 0 < image.deviceStorage.ptableAlign := by
      by_contra h0
      rw [required_of_align_zero (by omega)] at hge
      exact hge (by norm_num)
    obtain ⟨n, hn, hc⟩ := computeImageStorageSize_isSome h ha
    have := hsound (2 ^ 64 - 1) (by norm_num) (by
      simp only [validateDeviceStorage, hc, Option.bind_eq_bind, Option.bind_some, pure]
      simp
      omega)
    omega
  · intro hlt cap hcap hpass
    by_cases ha : image.deviceStorage.ptableAlign = 0
    · rw [required_of_align_zero ha]
      exact Nat.zero_le cap
    have hf : ∀ p ∈ l, p.isCryptContainer → HeaderFits image := by
      intro p hp hc
      have := le_required_of_container h hp hc
      exact ⟨by omega, by omega⟩
    simp only [validateDeviceStorage, computeImageStorageSize_eq h hf, wrap_of_lt hlt,
      Option.bind_eq_bind, Option.bind_some, pure] at hpass
    simp at hpass
    omega

end

theorem layout_of_loadJSON {reader : String → Except String Json.Doc} {p p' : IDPparser}
    {text : String} (h : p.loadJSON reader text = (.ok (), p')) :
    Layout p'.image p'.partitions := by
  obtain ⟨doc, -, hl, -⟩ := IDPparser.loadJSON_ok_iff.1 h
  exact layout_of_loaded hl

/-- For an accepted description the storage check lets no oversized layout pass, on any capacity,
exactly when the space of the layout is a 64-bit number. -/
theorem storage_check_sound_iff (reader : String → Except String Json.Doc) (p p' : IDPparser)
    (text : String) (h : p.loadJSON reader text = (.ok (), p')) :
    (∀ cap < 2 ^ 64, validateDeviceStorage p'.image p'.partitions (some cap) = some true →
      required p'.image p'.partitions ≤ cap) ↔ required p'.image p'.partitions < 2 ^ 64 :=
  validateDeviceStorage_sound_iff (layout_of_loadJSON h)

/-- Two partitions of the same image size. -/
def twoPartitions (size : ℤ) : Json.Doc where
  root := describe "1M" [("a", imageNode size), ("b", imageNode size)] [plainEntry ["a", "b"]]
  sorted := by
    refine sorted_describe "1M" ?_ ?_
    · simp only [Json.Sorted, Json.SortedMembers, sorted_imageNode, List.map_cons, List.map_nil]
      decide
    · exact ⟨sorted_plainEntry _, trivial⟩

/-- Two partitions of `2 ^ 63` bytes pass on a disk of 16 GiB: their sizes add up to nothing. -/
theorem oversized_layout_passes :
    (loadDoc (twoPartitions (2 ^ 63))).1 = .ok () ∧
    validateDeviceStorage (loadDoc (twoPartitions (2 ^ 63))).2.image
      (loadDoc (twoPartitions (2 ^ 63))).2.partitions (some (16 * 2 ^ 30)) = some true ∧
    required (loadDoc (twoPartitions (2 ^ 63))).2.image
      (loadDoc (twoPartitions (2 ^ 63))).2.partitions = 2 ^ 64 + 2 * 2 ^ 20 := by
  decide +kernel

/-- Two partitions of 1 MiB that pass on a disk of 16 GiB fit on it. -/
theorem storage_check_sound_two_small :
    required (loadDoc (twoPartitions (2 ^ 20))).2.image
      (loadDoc (twoPartitions (2 ^ 20))).2.partitions ≤ 16 * 2 ^ 30 := by
  have hok : (loadDoc (twoPartitions (2 ^ 20))).1 = .ok () := by decide +kernel
  have hreq : required (loadDoc (twoPartitions (2 ^ 20))).2.image
      (loadDoc (twoPartitions (2 ^ 20))).2.partitions < 2 ^ 64 := by decide +kernel
  have hpass : validateDeviceStorage (loadDoc (twoPartitions (2 ^ 20))).2.image
      (loadDoc (twoPartitions (2 ^ 20))).2.partitions (some (16 * 2 ^ 30)) = some true := by
    decide +kernel
  generalize hd : loadDoc (twoPartitions (2 ^ 20)) = r at hok hreq hpass ⊢
  obtain ⟨r, p'⟩ := r
  obtain rfl : r = .ok () := hok
  exact (storage_check_sound_iff (fun _ => .ok (twoPartitions (2 ^ 20))) {} p' "" hd).2 hreq
    (16 * 2 ^ 30) (by norm_num) hpass

end RpiFastbootd
