import RpiFastbootd.Idp.Provision

/-!
# The partition alignment

The alignment is a text with a number and a suffix.  The product of the two is cut to 64 bits, and
only its remainder modulo 1 MiB is checked, so that it may be zero: then every size is rounded to
zero, which stands for all of the free space when a partition is created, and the header size of a
container divides by zero.  A product that is not a multiple of `2 ^ 64` rules all of that out
(`alignment_sound_iff`).
-/

namespace RpiFastbootd

/-- The number of a size times its suffix, in unbounded numbers. -/
def giProduct (str : String) : ℕ :=
  Nat.ofDigitChars 10 (str.toList.takeWhile Char.isDigit) 0 *
    (unitOf (String.ofList (str.toList.dropWhile Char.isDigit))).getD 0

/-- The alignment that a description asks for. -/
def palignProduct (root : Json) : ℕ :=
  match getJSON root ["attributes", "image-palign-bytes"] with
  | .str str => giProduct str
  | _ => 0

theorem giProduct_of_writes {str : String} {number unit : ℕ} (h : Writes str number unit) :
    giProduct str = number * unit := by
  obtain ⟨-, rfl, hunit⟩ := writes_iff.1 h
  rw [giProduct, hunit, Option.getD_some]

theorem fromGIsz_eq {str : String} {n : ℕ} (h : fromGIsz str = .ok n) :
    n = wrap (giProduct str) := by
  obtain ⟨number, unit, hw, -, rfl⟩ := fromGIsz_ok_iff.1 h
  rw [giProduct_of_writes hw]

theorem ImageAttributes.align_eq {json : Json} {a : IDPimage} (h : ImageAttributes json a) :
    a.deviceStorage.ptableAlign = wrap (palignProduct json) := by
  obtain ⟨obj, str, hobj, -, -, hstr, hsize⟩ := h.read
  rw [fromGIsz_eq hsize, palignProduct,
    getJSON_of_section hobj (JCHK.get_of_string hstr).1 rfl]

/-! ### What the writer creates -/

/-- A partition is appended with the attributes of its place in the list. -/
def Planned (image : IDPimage) (l : List IDPpartition) : Step → Prop
  | .appendPartition _ i attrs => ∃ part aligned, l[i]? = some part ∧
      tableAttributes image.deviceStorage part (part.getSize aligned l) = some attrs
  | _ => True

section

variable {env : Step → Bool} {image : IDPimage} {l : List IDPpartition}

theorem performs_failWith {P : Step → Prop} (reason : String) : Performs P (failWith reason) :=
  (performs_update _).bind fun _ => performs_pure false

theorem performs_setPartBlockDev (i : ℕ) (dev : String) :
    Performs (Planned image l) (setPartBlockDev env i dev) := by
  refine .ite (fun _ => performs_pure false) fun _ => (performs_perform trivial).check
    ((performs_perform trivial).check ?_ (performs_pure false)) (performs_pure false)
  exact (performs_update _).bind fun _ => performs_pure true

theorem performs_appendRoot {x : IDPpartition × ℕ} (hx : x ∈ l.zipIdx) :
    Performs (Planned image l) (appendRoot env image l x) := by
  refine .ite (fun _ => Performs.require fun attrs hattrs => ?_) fun _ => performs_pure true
  have hplanned : Planned image l (.appendPartition .disk x.2 attrs) :=
    ⟨x.1, true, List.mem_zipIdx_iff_getElem?.1 hx, hattrs⟩
  exact (performs_perform hplanned).check (performs_pure true) (performs_failWith _)

theorem performs_appendChild (part : IDPpartition) (i : ℕ) (luks : IDPluks)
    {x : IDPpartition × ℕ} (hx : x ∈ l.zipIdx) :
    Performs (Planned image l) (appendChild env image l part i luks x) := by
  refine .ite (fun _ => Performs.require fun attrs hattrs => ?_) fun _ => performs_pure true
  have hplanned : Planned image l (.appendPartition (.container i) x.2 attrs) :=
    ⟨x.1, false, List.mem_zipIdx_iff_getElem?.1 hx, hattrs⟩
  exact (performs_perform hplanned).check (performs_pure true) (performs_failWith _)

theorem performs_initPhysicalPartitions :
    Performs (Planned image l) (initPhysicalPartitions env image l) := by
  have hwrite : Performs (Planned image l) (writePhysicalPartitions env image l) :=
    (performs_perform trivial).check ((performs_perform trivial).check
      ((performs_allM fun _ hx => performs_appendRoot hx).check
        ((performs_perform trivial).check (performs_pure true) (performs_failWith _))
        (performs_pure false)) (performs_failWith _)) (performs_failWith _)
  refine hwrite.check ((performs_perform trivial).check (performs_allM fun x _ => ?_)
    (performs_failWith _)) (performs_pure false)
  exact .ite (fun _ => (performs_setPartBlockDev _ _).check (performs_pure true)
    (performs_failWith _)) fun _ => performs_pure true

theorem performs_initContainer (part : IDPpartition) (i : ℕ) (luks : IDPluks) :
    Performs (Planned image l) (initContainer env image l part i luks) := by
  have htable : Performs (Planned image l) (partitionContainer env image l part i luks) :=
    (performs_perform trivial).check ((performs_perform trivial).check
      ((performs_allM fun _ hx => performs_appendChild part i luks hx).check
        ((performs_perform trivial).bind fun _ => (performs_perform trivial).bind fun _ =>
          performs_pure true)
        (performs_pure true)) (performs_failWith _)) (performs_failWith _)
  have hprobe : ∀ x ∈ l.zipIdx, Performs (Planned image l) (probeChild env l part luks x) :=
    fun x _ => .ite (fun _ => (performs_setPartBlockDev _ _).check (performs_pure true)
      (performs_failWith _)) fun _ => performs_pure true
  have hchildren : Performs (Planned image l) (initChildren env image l part i luks) :=
    Performs.check (.ite (fun _ => htable) fun _ => performs_pure true)
      ((performs_allM hprobe).check (performs_pure none) (performs_pure _)) (performs_pure _)
  exact (performs_perform trivial).check ((performs_perform trivial).check
    (.ite (fun _ => hchildren) fun _ => performs_pure none)
    ((performs_failWith _).bind fun _ => performs_pure _))
    ((performs_failWith _).bind fun _ => performs_pure _)

theorem performs_initCryptLoop {xs : List (IDPpartition × ℕ)} :
    Performs (Planned image l) (initCryptLoop env image l xs) := by
  induction xs with
  | nil => exact performs_pure true
  | cons x xs ih =>
    obtain ⟨part, i⟩ := x
    rw [initCryptLoop]
    cases hl : part.luks with
    | none => exact ih
    | some luks =>
      refine (performs_initContainer part i luks).bind fun ret => ?_
      cases ret with
      | none => exact ih
      | some ret => exact performs_pure ret

theorem performs_prepareStorage : Performs (Planned image l) (prepareStorage env image l) :=
  performs_initPhysicalPartitions.check performs_initCryptLoop (performs_pure false)

end

/-! ### A usable alignment -/

/-- What the alignment is for: it rounds the size of every image up to a multiple, a partition with
an image is only created without a size when it expands, and every header has a size. -/
structure AlignmentSound (image : IDPimage) (l : List IDPpartition) : Prop where
  align : image.deviceStorage.ptableAlign ≠ 0
  rounded : ∀ p ∈ l, p.img.isSome → p.size ≤ p.alignedSize ∧
    p.alignedSize < p.size + image.deviceStorage.ptableAlign ∧
    image.deviceStorage.ptableAlign ∣ p.alignedSize
  sized : ∀ env st ok j, prepareStorage env image l ⟨st, []⟩ = some (ok, j) →
    ∀ t i attrs p, Step.appendPartition t i attrs ∈ j.log → l[i]? = some p → p.img.isSome →
      p.size ≠ 0 → p.expandToFit = false → attrs.sizeBytes ≠ 0
  header : ∀ p ∈ l, ∀ k, p.luks = some k → k.headerSize ≠ none

section

variable {image : IDPimage} {l : List IDPpartition}

theorem plain_of_img (h : Layout image l) {p : IDPpartition} (hp : p ∈ l) (hi : p.img.isSome) :
    p.luks = none := by
  cases hl : p.luks with
  | none => rfl
  | some k =>
    rw [(h.luks p hp k hl).2.2] at hi
    cases hi

theorem rounded_of_align (h : Layout image l) (ha : 0 < image.deviceStorage.ptableAlign)
    {p : IDPpartition} (hp : p ∈ l) (hi : p.img.isSome) : p.size ≤ p.alignedSize ∧
      p.alignedSize < p.size + image.deviceStorage.ptableAlign ∧
      image.deviceStorage.ptableAlign ∣ p.alignedSize := by
  rw [(alignedSize_eq h hp (plain_of_img h hp hi)).1]
  exact ⟨le_alignUpNat ha, alignUpNat_lt ha, dvd_alignUpNat _ _⟩

theorem sizeBytes_eq {storage : IDPstorage} {p : IDPpartition} {size : Option ℕ}
    {attrs : PartitionAttributes} (h : tableAttributes storage p size = some attrs)
    (hfixed : p.expandToFit = false) : size = some attrs.sizeBytes := by
  unfold tableAttributes at h
  rw [hfixed] at h
  obtain ⟨code, -, h⟩ := Option.bind_eq_some_iff.1 h
  obtain ⟨n, hn, h⟩ := Option.bind_eq_some_iff.1 h
  obtain rfl : size = some n := by simpa using hn
  cases ht : storage.ptableType <;> rw [ht] at h <;> cases h <;> rfl

/-- A partition with an image that does not expand is created with the size of its image. -/
theorem size_le_of_appended (h : Layout image l) (ha : 0 < image.deviceStorage.ptableAlign)
    {env : Step → Bool} {st : WriterState} {ok : Bool} {j : Journal Step WriterState}
    (hrun : prepareStorage env image l ⟨st, []⟩ = some (ok, j)) {t : Table} {i : ℕ}
    {attrs : PartitionAttributes} {p : IDPpartition}
    (hlog : Step.appendPartition t i attrs ∈ j.log) (hp : l[i]? = some p) (hi : p.img.isSome)
    (hfixed : p.expandToFit = false) : p.size ≤ attrs.sizeBytes := by
  have hmem := List.mem_of_getElem? hp
  rcases performs_prepareStorage _ _ _ hrun _ hlog with hnil | ⟨part, aligned, hpart, hattrs⟩
  · cases hnil
  · obtain rfl : p = part := Option.some.inj (hp.symm.trans hpart)
    have hsize := sizeBytes_eq hattrs hfixed
    have hplain := plain_of_img h hmem hi
    rw [getSize_plain h hmem hplain] at hsize
    cases aligned with
    | false => exact (Option.some.inj hsize).le
    | true =>
      rw [← Option.some.inj hsize]
      exact (rounded_of_align h ha hmem hi).1

theorem alignmentSound_iff (h : Layout image l) :
    AlignmentSound image l ↔ image.deviceStorage.ptableAlign ≠ 0 := by
  refine ⟨fun hs => hs.align, fun hne => ?_⟩
  have ha := Nat.pos_of_ne_zero hne
  refine ⟨hne, fun p hp hi => rounded_of_align h ha hp hi, ?_, fun p hp k hk => ?_⟩
  · intro env st ok j hrun t i attrs p hlog hp hi hsize hfixed
    have := size_le_of_appended h ha hrun hlog hp hi hfixed
    omega
  · rw [IDPluks.headerSize, (h.luks p hp k hk).2.1, if_neg hne]
    simp

end

/-- An accepted description gets the alignment that it denotes exactly when that has room. -/
theorem align_denoted_iff (reader : String → Except String Json.Doc) (p p' : IDPparser)
    (text : String) (h : p.loadJSON reader text = (.ok (), p')) :
    p'.image.deviceStorage.ptableAlign = palignProduct p'.root ↔ palignProduct p'.root < 2 ^ 64 := by
  obtain ⟨doc, -, ⟨pmap, gs, st, hl, -⟩, hroot, -⟩ := IDPparser.loadJSON_ok_iff.1 h
  rw [hl.header.attributes.align_eq, ← hroot]
  exact ⟨fun heq => heq ▸ wrap_lt _, wrap_of_lt⟩

/-- The alignment of an accepted description is usable exactly when the number and the suffix it is
given by do not multiply to a multiple of `2 ^ 64`. -/
theorem alignment_sound_iff (reader : String → Except String Json.Doc) (p p' : IDPparser)
    (text : String) (h : p.loadJSON reader text = (.ok (), p')) :
    AlignmentSound p'.image p'.partitions ↔ ¬ 2 ^ 64 ∣ palignProduct p'.root := by
  rw [alignmentSound_iff (layout_of_loadJSON h)]
  obtain ⟨doc, -, ⟨pmap, gs, st, hl, -⟩, hroot, -⟩ := IDPparser.loadJSON_ok_iff.1 h
  rw [hl.header.attributes.align_eq, ← hroot, wrap, Nat.dvd_iff_mod_eq_zero]

/-- One partition of 1 MiB, at an alignment. -/
def palignDoc (palign : String) : Json.Doc where
  root := describe palign [("a", imageNode (2 ^ 20))] [plainEntry ["a"]]
  sorted := by
    refine sorted_describe palign ?_ ?_
    · simp only [Json.Sorted, Json.SortedMembers, sorted_imageNode, List.map_cons, List.map_nil]
      decide
    · exact ⟨sorted_plainEntry _, trivial⟩

/-- The steps of a run in which everything succeeds. -/
def sampleLog (doc : Json.Doc) : List Step :=
  ((prepareStorage (fun _ => true) (loadDoc doc).2.image (loadDoc doc).2.partitions
    ⟨⟨(loadDoc doc).2.partitions, ""⟩, []⟩).map (·.2.log)).getD []

/-- An alignment of 16 EiB is cut to zero, and the partition is created without a size. -/
theorem wrapped_alignment_accepted :
    (loadDoc (palignDoc "17592186044416M")).1 = .ok () ∧
    (loadDoc (palignDoc "17592186044416M")).2.image.deviceStorage.ptableAlign = 0 ∧
    (loadDoc (palignDoc "17592186044416M")).2.partitions.map (fun p =>
      (p.size, p.alignedSize, p.expandToFit)) = [(2 ^ 20, 0, false)] ∧
    Step.appendPartition .disk 0 { sizeBytes := 0, typeId := "0x83" } ∈
      sampleLog (palignDoc "17592186044416M") ∧
    ¬ AlignmentSound (loadDoc (palignDoc "17592186044416M")).2.image
      (loadDoc (palignDoc "17592186044416M")).2.partitions := by
  have halign : (loadDoc (palignDoc "17592186044416M")).2.image.deviceStorage.ptableAlign = 0 := by
    decide +kernel
  exact ⟨by decide +kernel, halign, by decide +kernel, by decide +kernel, fun h => h.align halign⟩

/-- An alignment of 1 MiB is usable. -/
theorem alignment_sound_mib :
    AlignmentSound (loadDoc (palignDoc "1M")).2.image (loadDoc (palignDoc "1M")).2.partitions := by
  have hok : (loadDoc (palignDoc "1M")).1 = .ok () := by decide +kernel
  have hproduct : palignProduct (loadDoc (palignDoc "1M")).2.root = 2 ^ 20 := by decide +kernel
  generalize palignDoc "1M" = doc at hok hproduct ⊢
  have hload : loadDoc doc = (.ok (), (loadDoc doc).2) := Prod.ext hok rfl
  rw [alignment_sound_iff (fun _ => .ok doc) {} (loadDoc doc).2 "" hload, hproduct]
  norm_num

end RpiFastbootd
