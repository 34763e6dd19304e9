import RpiFastbootd.Idp.Device

/-!
# The table inside a container

The size of a container is computed by `getSize`, in bytes rounded to the partition alignment.  The
partitions inside it are laid out by `RPIparted::appendPartition`, which rounds bytes up to sectors
and sectors up to the grain.  The two agree (`sizeSectors_eq`), and the children fit, unless a
request is for no bytes at all: that stands for all of the free space
(`container_reserve_covers_iff`).
-/

namespace RpiFastbootd

/-! ### Partition tables -/

/-- An open device with a new table: what libfdisk reports of it, the free sectors between the
first partition and the end of the usable space, and the sectors of each partition so far. -/
structure RPIparted where
  sectorSize : ℕ
  grain : ℕ
  free : ℕ
  sizes : List ℕ := []

namespace RPIparted

/-- A device opened with a user grain. -/
def openDevice (sectorSize alignKb free : ℕ) : RPIparted :=
  { sectorSize, grain := wrap (alignKb * 1024), free }

/-- The least number of sectors for a size, up to the grain. -/
def sizeSectors (p : RPIparted) (sizeBytes : ℕ) : ℕ :=
  alignUp64 (wrap (sizeBytes + p.sectorSize + (2 ^ 64 - 1)) / p.sectorSize)
    (p.grain / p.sectorSize)

/-- `fdisk_add_partition`: a partition begins at the first free sector. -/
def addPartition (p : RPIparted) (sectors : ℕ) : Bool × RPIparted :=
  if 0 < sectors ∧ sectors ≤ p.free then
    (true, { p with free := p.free - sectors, sizes := p.sizes ++ [sectors] })
  else (false, p)

/-- `appendPartition`, where `takes` tells whether libfdisk takes the type, the name and the
identifier; `none` is a division by a grain below the sector size. Without a size the end of the
partition follows the default, which is the last free sector. -/
def appendPartition (takes : PartitionAttributes → Bool) (p : RPIparted)
    (attrs : PartitionAttributes) : Option (Bool × RPIparted) :=
  if attrs.typeId = "" then some (false, p)
  else if attrs.sizeBytes ≠ 0 ∧ p.grain / p.sectorSize = 0 then none
  else if !takes attrs then some (false, p)
  else
    some (p.addPartition (if attrs.sizeBytes = 0 then p.free else p.sizeSectors attrs.sizeBytes))

/-- One request after the other. -/
def appendAll (takes : PartitionAttributes → Bool) :
    List PartitionAttributes → RPIparted → Option RPIparted
  | [], p => some p
  | attrs :: rest, p => do
    let (_, p) ← p.appendPartition takes attrs
    appendAll takes rest p

/-- The bytes of all partitions. -/
def allocated (p : RPIparted) : ℕ := p.sizes.sum * p.sectorSize

/-- The table with the partitions `out` added. -/
def extend (p : RPIparted) (out : List ℕ) : RPIparted :=
  { p with free := p.free - out.sum, sizes := p.sizes ++ out }

section

variable {takes : PartitionAttributes → Bool} {p : RPIparted} {attrs : PartitionAttributes}

@[simp] theorem extend_nil : p.extend [] = p := by simp [extend]

theorem extend_append (out rest : List ℕ) :
    (p.extend out).extend rest = p.extend (out ++ rest) := by
  simp [extend, Nat.sub_sub]

@[simp] theorem extend_free (out : List ℕ) : (p.extend out).free = p.free - out.sum := rfl

@[simp] theorem extend_grain (out : List ℕ) : (p.extend out).grain = p.grain := rfl

@[simp] theorem extend_sectorSize (out : List ℕ) : (p.extend out).sectorSize = p.sectorSize := rfl

@[simp] theorem extend_sizeSectors (out : List ℕ) (n : ℕ) :
    (p.extend out).sizeSectors n = p.sizeSectors n := rfl

/-- A request that stands for all of the free space. -/
def Greedy (attrs : PartitionAttributes) : Prop := attrs.sizeBytes = 0 ∧ attrs.typeId ≠ ""

theorem addPartition_cases (n : ℕ) :
    ∃ ok out, p.addPartition n = (ok, p.extend out) ∧ out.sum ≤ p.free ∧ out.sum ≤ n ∧
      (n ≤ p.free → out.sum = n) := by
  unfold addPartition
  split_ifs with h
  · refine ⟨true, [n], ?_, by simpa using h.2, by simp, by simp⟩
    rw [extend, List.sum_singleton]
  · exact ⟨false, [], by simp, by simp, by simp, fun hn => by simp; omega⟩

/-- What a request can get: nothing, its rounded size, or all that is left. -/
theorem appendPartition_cases (hg : 0 < p.grain / p.sectorSize) :
    ∃ ok out, p.appendPartition takes attrs = some (ok, p.extend out) ∧ out.sum ≤ p.free ∧
      (¬ Greedy attrs → out.sum ≤ p.sizeSectors attrs.sizeBytes) ∧
      (Greedy attrs → takes attrs → out.sum = p.free) := by
  unfold appendPartition
  by_cases ht : attrs.typeId = ""
  · rw [if_pos ht]
    exact ⟨false, [], by simp, by simp, by simp, fun h => (h.2 ht).elim⟩
  rw [if_neg ht, if_neg (by omega)]
  cases htakes : takes attrs with
  | false => exact ⟨false, [], by simp, by simp, by simp, by simp⟩
  | true =>
    rw [if_neg (by simp)]
    by_cases hz : attrs.sizeBytes = 0
    · obtain ⟨ok, out, heq, hfree, -, hall⟩ := @addPartition_cases p p.free
      rw [if_pos hz, heq]
      exact ⟨ok, out, rfl, hfree, fun h => (h ⟨hz, ht⟩).elim, fun _ _ => hall le_rfl⟩
    · obtain ⟨ok, out, heq, hfree, hsize, -⟩ := @addPartition_cases p (p.sizeSectors attrs.sizeBytes)
      rw [if_neg hz, heq]
      exact ⟨ok, out, rfl, hfree, fun _ => hsize, fun h => (hz h.1).elim⟩

/-- Requests for a size get no more than their sizes; a request for all of the free space that is
taken leaves nothing. -/
theorem appendAll_cases {requests : List PartitionAttributes}
    (hg : 0 < p.grain / p.sectorSize) :
    ∃ out, appendAll takes requests p = some (p.extend out) ∧ out.sum ≤ p.free ∧
      ((∀ attrs ∈ requests, ¬ Greedy attrs) →
        out.sum ≤ (requests.map fun attrs => p.sizeSectors attrs.sizeBytes).sum) ∧
      ((∃ attrs ∈ requests, Greedy attrs ∧ takes attrs) → out.sum = p.free) := by
  induction requests generalizing p with
  | nil => exact ⟨[], by simp [appendAll], by simp, by simp, by simp⟩
  | cons attrs rest ih =>
    obtain ⟨ok, first, hfirst, hroom, hsize, hall⟩ :=
      @appendPartition_cases takes p attrs hg
    obtain ⟨out, hout, hroom', hsize', hall'⟩ := @ih (p.extend first) hg
    simp only [extend_free, extend_sizeSectors] at hroom' hsize' hall'
    refine ⟨first ++ out, ?_, by rw [List.sum_append]; omega, fun hno => ?_, fun hsome => ?_⟩
    · rw [appendAll, hfirst]
      change appendAll takes rest (p.extend first) = _
      rw [hout, extend_append]
    · rw [List.forall_mem_cons] at hno
      have := hsize hno.1
      have := hsize' hno.2
      rw [List.sum_append, List.map_cons, List.sum_cons]
      omega
    · rw [List.sum_append]
      obtain ⟨a, ha, hgreedy, htakes⟩ := hsome
      rcases List.mem_cons.1 ha with rfl | ha
      · have := hall hgreedy htakes
        omega
      · have := hall' ⟨a, ha, hgreedy, htakes⟩
        omega

end

/-- The sectors of a request are its bytes rounded up to the grain, as long as there is room for
the grain above them. -/
theorem sizeSectors_eq {p : RPIparted} {n : ℕ} (hs : 0 < p.sectorSize)
    (hg : 0 < p.grain) (hd : p.sectorSize ∣ p.grain) (hroom : n + p.grain ≤ 2 ^ 64) :
    p.sizeSectors n * p.sectorSize = alignUpNat n p.grain := by
  have hle : p.sectorSize ≤ p.grain := Nat.le_of_dvd hg hd
  have hsum : wrap (n + p.sectorSize + (2 ^ 64 - 1)) = n + p.sectorSize - 1 := by
    unfold wrap
    omega
  have hfits : (n + p.sectorSize - 1) / p.sectorSize + p.grain / p.sectorSize ≤ 2 ^ 64 := by
    have hsplit := Nat.add_div_of_dvd_left (a := n + p.sectorSize - 1) hd
    have hmul : 2 ^ 64 + (p.sectorSize - 1) ≤ 2 ^ 64 * p.sectorSize := by
      rw [← Nat.sub_add_cancel hs, Nat.mul_add]
      omega
    rw [← hsplit]
    apply Nat.div_le_of_le_mul
    rw [Nat.mul_comm]
    omega
  rw [sizeSectors, hsum, alignUp64_eq (Nat.div_pos hle hs) hfits]
  exact alignUpNat_units hs hg hd

end RPIparted

/-! ### The children of a container -/

/-- The requests for the children of `c` that do not expand, in list order. -/
def innerRequests (storage : IDPstorage) (all : List IDPpartition) (c : IDPpartition) :
    Option (List PartitionAttributes) :=
  ((c.children all).filter fun child => !child.expandToFit).mapM fun child =>
    tableAttributes storage child (child.getSize false all)

/-- The size of the container `c` covers its header, the table in front of the first partition,
what the children that do not expand are allocated in a new table, and the backup table. -/
def ReserveCovers (image : IDPimage) (all : List IDPpartition) (c : IDPpartition) (k : IDPluks)
    (sectorSize : ℕ) : Prop :=
  let a := image.deviceStorage.ptableAlign
  ∃ header reserved requests, k.headerSize = some header ∧ c.getSize true all = some reserved ∧
    innerRequests image.deviceStorage all c = some requests ∧
    ∀ takes free, ∃ table,
      (RPIparted.openDevice sectorSize (a / 1024) free).appendAll takes requests = some table ∧
        header + a + table.allocated + a ≤ reserved

section

variable {image : IDPimage} {l : List IDPpartition}

theorem getSize_child (h : Layout image l) {c : IDPpartition} (hc : c ∈ l) {child : IDPpartition}
    (hchild : child ∈ c.children l) : child.getSize false l = some child.size := by
  obtain ⟨hmem, hn⟩ := luks_of_child h hc hchild
  exact getSize_plain h hmem hn false

theorem innerRequests_eq (h : Layout image l) {c : IDPpartition} (hc : c ∈ l) :
    ∃ requests, innerRequests image.deviceStorage l c = some requests ∧
      List.Forall₂ (fun child attrs =>
          attrs.sizeBytes = child.size ∧ child.typecode = some attrs.typeId)
        ((c.children l).filter fun child => !child.expandToFit) requests := by
  have heach : ∀ child ∈ (c.children l).filter fun child => !child.expandToFit,
      ∃ attrs, tableAttributes image.deviceStorage child (child.getSize false l) = some attrs ∧
        attrs.sizeBytes = child.size ∧ child.typecode = some attrs.typeId := by
    intro child hchild
    obtain ⟨hmem, hfixed⟩ := List.mem_filter.1 hchild
    obtain ⟨code, hcode⟩ := Option.isSome_iff_exists.1
      (h.typecode child (luks_of_child h hc hmem).1)
    have hfixed : child.expandToFit = false := by simpa using hfixed
    rw [getSize_child h hc hmem, tableAttributes, hcode, hfixed]
    cases image.deviceStorage.ptableType <;> exact ⟨_, rfl, rfl, rfl⟩
  obtain ⟨requests, hall⟩ := exists_forall₂_iff.2 heach
  exact ⟨requests, mapM_eq_some_iff.2 (hall.imp fun _ _ h => h.1), hall.imp fun _ _ h => h.2⟩

theorem sum_sizeSectors {kids : List IDPpartition} {requests : List PartitionAttributes}
    {p : RPIparted} (hs : 0 < p.sectorSize) (hg : 0 < p.grain) (hd : p.sectorSize ∣ p.grain)
    (hroom : ∀ child ∈ kids, child.size + p.grain ≤ 2 ^ 64)
    (h : List.Forall₂ (fun child attrs =>
      attrs.sizeBytes = child.size ∧ child.typecode = some attrs.typeId) kids requests) :
    (requests.map fun attrs => p.sizeSectors attrs.sizeBytes).sum * p.sectorSize =
      (kids.map fun child => alignUpNat child.size p.grain).sum := by
  induction h with
  | nil => simp
  | @cons child attrs kids requests hr _ ih =>
    rw [List.forall_mem_cons] at hroom
    rw [List.map_cons, List.sum_cons, Nat.add_mul, ih hroom.2, hr.1,
      RPIparted.sizeSectors_eq hs hg hd hroom.1, List.map_cons, List.sum_cons]

/-- The children that do not expand need no more than all of them. -/
theorem sum_fixed_le (f : IDPpartition → ℕ) (kids : List IDPpartition) :
    ((kids.filter fun child => !child.expandToFit).map f).sum ≤ (kids.map f).sum :=
  (List.filter_sublist.map f).sum_le_sum fun _ _ => Nat.zero_le _

theorem openDevice_align {a : ℕ} (ha : a < 2 ^ 64) (hmib : a % (1024 * 1024) = 0)
    (sectorSize free : ℕ) :
    RPIparted.openDevice sectorSize (a / 1024) free = { sectorSize, grain := a, free } := by
  have hk : a / 1024 * 1024 = a := by omega
  rw [RPIparted.openDevice, hk, wrap_of_lt ha]

theorem headerFits_of_container (h : Layout image l) (ha : 0 < image.deviceStorage.ptableAlign)
    {c : IDPpartition} (hc : c ∈ l) {k : IDPluks} (hk : c.luks = some k)
    (he : k.etype = .partitioned)
    (hfit : requiredOf image.deviceStorage.ptableAlign l c < 2 ^ 64) : HeaderFits image := by
  have hraw := rawHeaderSize_eq (h.luks c hc k hk).1
  have hle := @le_alignUpNat k.rawHeaderSize _ ha
  rw [requiredOf, hk] at hfit
  dsimp only at hfit
  rw [he] at hfit
  dsimp only at hfit
  exact ⟨ha, by omega⟩

/-- In a layout without an overflow the size of a partitioned container covers what its children
are allocated exactly when none of them asks for all of the free space. -/
theorem reserveCovers_iff (h : Layout image l)
    (hmib : image.deviceStorage.ptableAlign % (1024 * 1024) = 0)
    (ha : 0 < image.deviceStorage.ptableAlign) {sectorSize : ℕ} (hs : 0 < sectorSize)
    (hd : sectorSize ∣ image.deviceStorage.ptableAlign) {c : IDPpartition} (hc : c ∈ l)
    {k : IDPluks} (hk : c.luks = some k) (he : k.etype = .partitioned)
    (hfit : requiredOf image.deviceStorage.ptableAlign l c < 2 ^ 64) :
    ReserveCovers image l c k sectorSize ↔
      ∀ child ∈ c.children l, child.expandToFit = false → child.typecode ≠ some "" →
        child.size ≠ 0 := by
  obtain ⟨requests, hreq, hmatch⟩ := innerRequests_eq h hc
  have hgrain : 0 < image.deviceStorage.ptableAlign / sectorSize :=
    Nat.div_pos (Nat.le_of_dvd ha hd) hs
  have hopen (free : ℕ) := openDevice_align h.align hmib sectorSize free
  constructor
  · rintro ⟨header, reserved, requests', -, -, hreq', hall⟩ child hchild hfixed hcode hzero
    obtain rfl : requests = requests' := Option.some.inj (hreq.symm.trans hreq')
    -- with enough free space the request without a size outgrows any reserve
    obtain ⟨table, htable, hle⟩ := hall (fun _ => true) (reserved + 1)
    rw [hopen] at htable
    obtain ⟨out, hout, -, -, hgreedy⟩ := @RPIparted.appendAll_cases (fun _ => true)
      ⟨sectorSize, image.deviceStorage.ptableAlign, reserved + 1, []⟩ requests hgrain
    obtain rfl := Option.some.inj (htable.symm.trans hout)
    obtain ⟨i, hi⟩ := List.getElem?_of_mem
      (List.mem_filter.2 ⟨hchild, by simp [hfixed]⟩ :
        child ∈ (c.children l).filter fun child => !child.expandToFit)
    obtain ⟨attrs, hattrs, hsize, htype⟩ := getElem?_of_forall₂_left hmatch hi
    have hsum := hgreedy ⟨attrs, List.mem_of_getElem? hattrs,
      ⟨hsize.trans hzero, fun ht => hcode (by rw [htype, ht])⟩, rfl⟩
    have hbytes : reserved + 1 ≤ out.sum * sectorSize := by
      rw [hsum]
      exact Nat.le_mul_of_pos_right _ hs
    simp only [RPIparted.allocated, RPIparted.extend, List.nil_append] at hle
    omega
  · intro hsizes
    have hf := headerFits_of_container h ha hc hk he hfit
    refine ⟨_, _, requests, (headerSize_container h hf hc hk).1, getSize_root h hc fun _ => hf,
      hreq, fun takes free => ?_⟩
    obtain ⟨out, hout, -, hle, -⟩ := @RPIparted.appendAll_cases takes
      ⟨sectorSize, image.deviceStorage.ptableAlign, free, []⟩ requests hgrain
    refine ⟨_, by rw [hopen]; exact hout, ?_⟩
    have hno : ∀ attrs ∈ requests, ¬ RPIparted.Greedy attrs := by
      rintro attrs hattrs ⟨hzero, htype⟩
      obtain ⟨i, hi⟩ := List.getElem?_of_mem hattrs
      obtain ⟨child, hchild, hsize, hcode⟩ := getElem?_of_forall₂ hmatch hi
      obtain ⟨hmem, hfixed⟩ := List.mem_filter.1 (List.mem_of_getElem? hchild)
      refine hsizes child hmem (by simpa using hfixed) ?_ (hsize.symm.trans hzero)
      rw [hcode]
      exact fun hempty => htype (Option.some.inj hempty)
    have hroom : ∀ child ∈ (c.children l).filter fun child => !child.expandToFit,
        child.size + image.deviceStorage.ptableAlign ≤ 2 ^ 64 := by
      intro child hchild
      obtain ⟨hmem, hn⟩ := luks_of_child h hc (List.mem_filter.1 hchild).1
      exact IDPstorage.alignUp_room h.align ha (h.plain child hmem hn).2.2
    have hsum := sum_sizeSectors (p := ⟨sectorSize, image.deviceStorage.ptableAlign, free, []⟩)
      hs ha hd hroom hmatch
    have hfixed := sum_fixed_le
      (fun child => alignUpNat child.size image.deviceStorage.ptableAlign) (c.children l)
    have hbytes := Nat.mul_le_mul_right sectorSize (hle hno)
    dsimp only at hsum
    rw [hsum] at hbytes
    rw [wrap_of_lt hfit, requiredOf, hk]
    simp only [RPIparted.allocated, RPIparted.extend, List.nil_append, he]
    omega

end

theorem align_mib_of_loadJSON {reader : String → Except String Json.Doc} {p p' : IDPparser}
    {text : String} (h : p.loadJSON reader text = (.ok (), p')) :
    p'.image.deviceStorage.ptableAlign % (1024 * 1024) = 0 := by
  obtain ⟨doc, -, ⟨pmap, gs, st, hl, -⟩, -⟩ := IDPparser.loadJSON_ok_iff.1 h
  exact hl.header.attributes.align

/-- A partitioned container with two children, the second of 1 MiB. -/
def containerDoc (size : ℤ) : Json.Doc where
  root := describe "1M" [("a", imageNode size), ("b", imageNode (2 ^ 20))]
    [.obj [("encrypted", .obj [("luks2", luksNode "partitioned" "crypt"),
      ("partitions", .arr [.obj [("image", .str "a")], .obj [("image", .str "b")]])])]]
  sorted := by
    refine sorted_describe "1M" ?_ ?_
    · simp only [Json.Sorted, Json.SortedMembers, sorted_imageNode, List.map_cons, List.map_nil]
      decide
    · simp only [Json.SortedElems, Json.Sorted, Json.SortedMembers, sorted_luksNode]
      decide

/-- The container of the document, with its LUKS parameters. -/
def sampleContainer (doc : Json.Doc) : IDPpartition := (loadDoc doc).2.partitions[0]?.getD {}

def sampleLuks (doc : Json.Doc) : IDPluks :=
  (sampleContainer doc).luks.getD { hash := "", keySize := 0, cipher := "", mname := "" }

/-- The table of the container with 512-byte sectors, of which `free` are free. -/
def sampleTable (doc : Json.Doc) (free : ℕ) : Option RPIparted := do
  let p := (loadDoc doc).2
  let requests ← innerRequests p.image.deviceStorage p.partitions (sampleContainer doc)
  (RPIparted.openDevice 512 (p.image.deviceStorage.ptableAlign / 1024) free).appendAll
    (fun _ => true) requests

end RpiFastbootd
