import RpiFastbootd.Idp.Parser
import RpiFastbootd.Idp.Flatten

/-!
# What the parser accepts

A description is accepted when the checks of its header pass, every level the walk comes to is
accepted and every partition visited has the image it names (`loadJSON_ok_iff`).  The image does
not depend on what the parser held before.
-/

namespace RpiFastbootd

/-! ### The header -/

theorem stringInto_ok_iff {σ : Type} {root : Json} {key : String} {store : String → σ → σ}
    {st st' : σ} :
    stringInto root key store st = .ok st' ↔
      ∃ s, JCHK.string root key = .ok s ∧ st' = store s st := by
  simp only [stringInto, JCHK.string, bind_eq_ok_iff, leaving_eq_ok_iff, pure_eq_ok_iff]
  constructor
  · rintro ⟨t, ⟨v, hv, ht⟩, u, hne, rfl⟩
    exact ⟨t, ⟨v, hv, t, ht, u, hne, rfl⟩, rfl⟩
  · rintro ⟨_, ⟨v, hv, t, ht, u, hne, rfl⟩, rfl⟩
    exact ⟨t, ⟨v, hv, ht⟩, u, hne, rfl⟩

@[simp] theorem refuse_ne_ok {α : Type} {msg : String} {a : α} : refuse msg ≠ .ok a := by
  simp [refuse]

/-- The device attributes of an accepted header. -/
structure DeviceAttrs (json : Json) (a : IDPimage) : Prop where
  read : ∃ obj str, ignoring .null (JCHK.tree json "IGmeta") = .ok obj ∧
    JCHK.string obj "IGconf_device_class" = .ok a.deviceClass ∧
    JCHK.string obj "IGconf_device_storage_type" = .ok str ∧
    JCHK.size obj "IGconf_device_sector_size" = .ok a.deviceStorage.sectorSize ∧
    JCHK.string obj "IGconf_device_variant" = .ok a.deviceVariant ∧
    JCHK.string obj "IGconf_image_version" = .ok a.version ∧
    storageType str = some a.deviceStorage.type
  sectors : a.deviceStorage.sectorSize % 512 = 0

/-- Its image attributes. -/
structure ImageAttributes (json : Json) (a : IDPimage) : Prop where
  read : ∃ obj str, ignoring .null (JCHK.tree json "attributes") = .ok obj ∧
    JCHK.string obj "image-name" = .ok a.name ∧
    JCHK.size obj "image-size" = .ok a.size ∧
    JCHK.string obj "image-palign-bytes" = .ok str ∧
    fromGIsz str = .ok a.deviceStorage.ptableAlign
  size : a.size ≠ 0
  align : a.deviceStorage.ptableAlign % (1024 * 1024) = 0

/-- Its partition table. -/
structure TableAttrs (json : Json) (a : IDPimage) : Prop where
  read : ∃ layout ptable v label, json.get "layout" = .ok layout ∧
    layout.get "partitiontable" = .ok ptable ∧ ptable.get "label" = .ok v ∧
    v.asString = .ok label ∧ ptableType label = some a.deviceStorage.ptableType ∧
    (ptable.get "id" = .ok .null ∧ a.deviceStorage.ptableId = none ∨
      ∃ id, ptable.get "id" = .ok (.str id) ∧
        a.deviceStorage.ptableId = if id = "" then none else some id)

theorem parseDevice_ok_iff {json : Json} {i a : IDPimage} :
    parseDevice json i = .ok a ↔ DeviceAttrs json a ∧ a = { i with
      deviceClass := a.deviceClass, deviceVariant := a.deviceVariant, version := a.version,
      deviceStorage.sectorSize := a.deviceStorage.sectorSize
      deviceStorage.type := a.deviceStorage.type } := by
  simp only [parseDevice, bind_eq_ok_iff, leaving_eq_ok_iff, stringInto_ok_iff]
  constructor
  · rintro ⟨obj, ho, _, ⟨c, hc, rfl⟩, str, hs, n, hn, _, ⟨v, hv, rfl⟩, _, ⟨w, hw, rfl⟩, h⟩
    split_ifs at h with hm
    · simp [leaving_eq_ok_iff] at h
    split at h
    · simp [leaving_eq_ok_iff] at h
    · rename_i t ht
      rw [pure_eq_ok_iff] at h
      subst h
      exact ⟨⟨⟨obj, str, ho, hc, hs, hn, hv, hw, ht⟩, by simpa using hm⟩, rfl⟩
  · rintro ⟨⟨⟨obj, str, ho, hc, hs, hn, hv, hw, ht⟩, hm⟩, ha⟩
    refine ⟨obj, ho, _, ⟨_, hc, rfl⟩, str, hs, _, hn, _, ⟨_, hv, rfl⟩, _, ⟨_, hw, rfl⟩, ?_⟩
    rw [if_neg (by simpa using hm), ht]
    simpa using ha.symm

theorem parseAttributes_ok_iff {json : Json} {i a : IDPimage} :
    parseAttributes json i = .ok a ↔ ImageAttributes json a ∧ a = { i with
      name := a.name, size := a.size
      deviceStorage.ptableAlign := a.deviceStorage.ptableAlign } := by
  simp only [parseAttributes, bind_eq_ok_iff, leaving_eq_ok_iff, stringInto_ok_iff]
  constructor
  · rintro ⟨obj, ho, _, ⟨n, hn, rfl⟩, z, hz, str, hs, h⟩
    split_ifs at h with h0
    · simp [leaving_eq_ok_iff] at h
    split at h
    · simp [leaving_eq_ok_iff] at h
    rename_i align hal
    split_ifs at h with hm
    · simp [leaving_eq_ok_iff] at h
    rw [pure_eq_ok_iff] at h
    subst h
    exact ⟨⟨⟨obj, str, ho, hn, hz, hs, hal⟩, h0, by simpa using hm⟩, rfl⟩
  · rintro ⟨⟨⟨obj, str, ho, hn, hz, hs, hal⟩, h0, hm⟩, ha⟩
    refine ⟨obj, ho, _, ⟨_, hn, rfl⟩, _, hz, str, hs, ?_⟩
    rw [if_neg h0, hal]
    simp only [if_neg (not_not.2 hm), pure_eq_ok_iff]
    exact ha.symm

theorem parsePtable_ok_iff {json : Json} {i a : IDPimage} :
    parsePtable json i = .ok a ↔ TableAttrs json a ∧ a = { i with
      deviceStorage.ptableType := a.deviceStorage.ptableType
      deviceStorage.ptableId := a.deviceStorage.ptableId } := by
  simp only [parsePtable, bind_eq_ok_iff, leaving_eq_ok_iff, raises_eq_ok_iff]
  constructor
  · rintro ⟨ptable, ⟨layout, hl, hp⟩, label, ⟨v, hv, hs⟩, h⟩
    split at h
    · simp [leaving_eq_ok_iff] at h
    rename_i type ht
    rw [bind_eq_ok_iff] at h
    obtain ⟨id, hid, h⟩ := h
    rw [leaving_eq_ok_iff, raises_eq_ok_iff] at hid
    split at h
    · rw [pure_eq_ok_iff] at h
      subst h
      exact ⟨⟨layout, ptable, v, label, hl, hp, hv, hs, ht, .inl ⟨hid, rfl⟩⟩, rfl⟩
    · rw [pure_eq_ok_iff] at h
      subst h
      exact ⟨⟨layout, ptable, v, label, hl, hp, hv, hs, ht, .inr ⟨_, hid, rfl⟩⟩, rfl⟩
    · simp [leaving_eq_ok_iff] at h
  · rintro ⟨⟨layout, ptable, v, label, hl, hp, hv, hs, ht, hid⟩, ha⟩
    refine ⟨ptable, ⟨layout, hl, hp⟩, label, ⟨v, hv, hs⟩, ?_⟩
    rw [ht]
    simp only [bind_eq_ok_iff, leaving_eq_ok_iff, raises_eq_ok_iff]
    rcases hid with ⟨hid, hn⟩ | ⟨id, hid, hn⟩
    · exact ⟨_, hid, by rw [pure_eq_ok_iff, ← hn]; exact ha.symm⟩
    · exact ⟨_, hid, by rw [pure_eq_ok_iff, ← hn]; exact ha.symm⟩

/-- The checks of a header that do not look at the map, with the image they leave. -/
structure HeaderChecks (json : Json) (a : IDPimage) : Prop where
  device : DeviceAttrs json a
  attributes : ImageAttributes json a
  table : TableAttrs json a
  compat : ∃ str version, checkPMAPCompat json = .ok str ∧ parseVersion str = .ok version ∧
    version.major = 1 ∧ VersionRange.contains ⟨⟨1, 0, 0⟩, ⟨2, 0, 0⟩⟩ version

/-- All checks of a header, with the map it leaves to the walk. -/
structure Header (json : Json) (a : IDPimage) (pmap : Json) : Prop extends HeaderChecks json a where
  map : parsePMAPv1 json = .ok pmap

/-- Every member of the image is read from the description. -/
theorem parseImage_ok_iff {json : Json} {i a : IDPimage} {pmap : Json} :
    parseImage json i = .ok (a, pmap) ↔ Header json a pmap := by
  simp only [parseImage, bind_eq_ok_iff, leaving_eq_ok_iff, parseDevice_ok_iff,
    parseAttributes_ok_iff, parsePtable_ok_iff]
  constructor
  · rintro ⟨b, ⟨hd, hb⟩, c, ⟨hat, hc⟩, d, ⟨ht, hd'⟩, str, hs, version, hv, h⟩
    split_ifs at h with h1 h2
    · simp [leaving_eq_ok_iff] at h
    · simp [leaving_eq_ok_iff] at h
    simp only [bind_eq_ok_iff, leaving_eq_ok_iff, pure_eq_ok_iff, Prod.mk.injEq] at h
    obtain ⟨m, hm, rfl, rfl⟩ := h
    obtain ⟨_, ⟨_, _, _, _, _⟩, _, _, _, _⟩ := b
    obtain ⟨_, ⟨_, _, _, _, _⟩, _, _, _, _⟩ := c
    obtain ⟨_, ⟨_, _, _, _, _⟩, _, _, _, _⟩ := d
    simp only [IDPimage.mk.injEq, IDPstorage.mk.injEq, true_and, and_true] at hc hd'
    obtain ⟨rfl, ⟨rfl, rfl, rfl, rfl⟩, rfl, rfl⟩ := hc
    obtain ⟨rfl, ⟨rfl, rfl, rfl⟩, rfl, rfl, rfl, rfl⟩ := hd'
    exact ⟨⟨⟨hd.read, hd.sectors⟩, ⟨hat.read, hat.size, hat.align⟩, ht,
      ⟨str, version, hs, hv, by simpa using h1, by simpa using h2⟩⟩, hm⟩
  · rintro ⟨⟨hd, hat, ht, ⟨str, version, hs, hv, h1, h2⟩⟩, hm⟩
    let b : IDPimage := { i with
      deviceClass := a.deviceClass, deviceVariant := a.deviceVariant, version := a.version,
      deviceStorage.sectorSize := a.deviceStorage.sectorSize
      deviceStorage.type := a.deviceStorage.type }
    let c : IDPimage := { b with
      name := a.name, size := a.size
      deviceStorage.ptableAlign := a.deviceStorage.ptableAlign }
    refine ⟨b, ⟨⟨hd.read, hd.sectors⟩, rfl⟩, c, ⟨⟨hat.read, hat.size, hat.align⟩, rfl⟩, a,
      ⟨ht, rfl⟩, str, hs, version, hv, ?_⟩
    rw [if_neg (by simpa using h1), if_neg (by simpa using h2)]
    simp only [bind_eq_ok_iff, leaving_eq_ok_iff, pure_eq_ok_iff]
    exact ⟨pmap, hm, rfl⟩

/-! ### The whole load -/

/-- Every visited partition can be described: its image is there and fits. -/
def Described (root : Json) (image : IDPimage) (ps : List Partition) : Prop :=
  ∀ p ∈ ps, ∃ body, partitionBody root image p = .ok body

theorem visitAll_addPartition_ok_iff {root : Json} {image : IDPimage} {ps : List Partition}
    {st : Collected} :
    (∃ st', visitAll (addPartition root image) ps st = .ok st') ↔ Described root image ps := by
  induction ps generalizing st with
  | nil => simp [visitAll, Described]
  | cons p ps ih =>
    simp only [visitAll, bind_eq_ok_iff, leaving_eq_ok_iff, Described, List.forall_mem_cons]
    constructor
    · rintro ⟨st', mid, hp, hps⟩
      simp only [addPartition, bind_eq_ok_iff] at hp
      obtain ⟨body, hb, -⟩ := hp
      exact ⟨⟨body, hb⟩, ih.1 ⟨st', hps⟩⟩
    · rintro ⟨⟨body, hb⟩, hps⟩
      obtain ⟨mid, hm⟩ : ∃ mid, addPartition root image p st = .ok mid := by
        simp [addPartition, hb, bind, Except.bind, pure, Except.pure]
      obtain ⟨st', hst⟩ := (@ih mid).2 hps
      exact ⟨st', mid, hm, hst⟩

/-- What decides about a description: its version, its header, the levels the walk comes to, and
the images of the partitions it visits. -/
structure Loads (root : Json) (image : IDPimage) (pmap : Json) (gs : List Group) : Prop where
  version : IDPparser.igVersion root = .ok ()
  header : Header root image pmap
  reached : reach {} pmap = some gs
  described : Described root image (numberGroups 0 gs)

theorem sorted_of_lookup {ms : List (String × Json)} (h : Json.SortedMembers ms) {key : String}
    {v : Json} (hl : ms.lookup key = some v) : v.Sorted := by
  induction ms with
  | nil => cases hl
  | cons m ms ih =>
    obtain ⟨k, w⟩ := m
    rw [List.lookup_cons] at hl
    split at hl
    · cases hl
      exact h.1
    · exact ih h.2 hl

theorem sorted_get {v w : Json} (h : v.Sorted) {key : String} (hg : v.get key = .ok w) :
    w.Sorted := by
  cases v with
  | obj ms =>
    rw [Json.get_obj] at hg
    cases hg
    cases hl : ms.lookup key with
    | none => simp [Json.Sorted]
    | some x => exact sorted_of_lookup h.2 hl
  | null =>
    cases hg
    simp [Json.Sorted]
  | _ => cases hg

theorem getJSON_of_get {v w : Json} {key : String} {keys : List String}
    (h : v.get key = .ok w) (hw : w.isNull = false) :
    getJSON v (key :: keys) = getJSON w keys := by
  cases v with
  | obj ms =>
    rw [Json.get_obj] at h
    rw [getJSON]
    cases hl : ms.lookup key with
    | none =>
      rw [hl] at h
      cases h
      cases hw
    | some x =>
      rw [hl] at h
      cases h
      rfl
  | null =>
    cases h
    cases hw
  | _ => cases h

namespace JCHK

theorem get_of_member {v w : Json} {key : String} (h : member v key = .ok w) :
    v.get key = .ok w := by
  simp only [member, bind_eq_ok_iff, raises_eq_ok_iff] at h
  obtain ⟨b, -, h⟩ := h
  split_ifs at h
  · exact (refuse_ne_ok h).elim
  · exact raises_eq_ok_iff.1 h

/-- A required string is there, is a string and is not empty. -/
theorem get_of_string {v : Json} {key t : String} (h : string v key = .ok t) :
    v.get key = .ok (.str t) ∧ t ≠ "" := by
  simp only [string, stringValue, nonEmpty, bind_eq_ok_iff, pure_eq_ok_iff] at h
  obtain ⟨w, hw, t', ht, _, hne, rfl⟩ := h
  split_ifs at ht with hs
  · cases w with
    | str x =>
      obtain rfl : x = t' := by simpa [raises, Json.asString] using ht
      refine ⟨get_of_member hw, ?_⟩
      rintro rfl
      simp at hne
    | _ => cases hs
  · exact (refuse_ne_ok ht).elim

theorem get_of_array {v w : Json} {key : String} (h : array v key = .ok w) :
    v.get key = .ok w ∧ w.isArray := by
  simp only [array, bind_eq_ok_iff] at h
  obtain ⟨x, hx, h⟩ := h
  split_ifs at h with ha
  · exact (refuse_ne_ok h).elim
  · obtain rfl := pure_eq_ok_iff.1 h
    exact ⟨get_of_member hx, by simpa using ha⟩

theorem get_of_tree {v w : Json} {key : String} (h : tree v key = .ok w) :
    v.get key = .ok w := by
  simp only [tree, bind_eq_ok_iff] at h
  obtain ⟨x, hx, h⟩ := h
  split_ifs at h
  · exact (refuse_ne_ok h).elim
  · obtain rfl := pure_eq_ok_iff.1 h
    exact get_of_member hx

end JCHK

/-- A field of a section, whose read is ignored, is there when the section is. -/
theorem getJSON_of_section {json obj w : Json} {key field : String}
    (ho : ignoring .null (JCHK.tree json key) = .ok obj) (hw : obj.get field = .ok w)
    (hn : w.isNull = false) : getJSON json [key, field] = w := by
  have hobject : obj.isNull = false := by
    cases obj with
    | null =>
      cases hw
      exact hn
    | _ => rfl
  have hget : json.get key = .ok obj := by
    cases ht : JCHK.tree json key with
    | ok v =>
      rw [ht] at ho
      cases ho
      exact JCHK.get_of_tree ht
    | error e =>
      rw [ht] at ho
      cases e with
      | refused msg =>
        cases ho
        cases hobject
      | _ => cases ho
  rw [getJSON_of_get hget hobject, getJSON_of_get hw hn, getJSON]

/-- The map a navigator is made for is the array under `layout.provisionmap`. -/
theorem parsePMAPv1_ok {json pmap : Json} (h : parsePMAPv1 json = .ok pmap) :
    ∃ layout, json.get "layout" = .ok layout ∧ layout.get "provisionmap" = .ok pmap ∧
      pmap.isArray := by
  simp only [parsePMAPv1, bind_eq_ok_iff] at h
  obtain ⟨layout, hl, m, hm, type, -, h⟩ := h
  split_ifs at h
  · exact (refuse_ne_ok h).elim
  simp only [bind_eq_ok_iff] at h
  obtain ⟨nav, -, h⟩ := h
  cases nav with
  | none => exact (refuse_ne_ok h).elim
  | some stack =>
    obtain rfl := pure_eq_ok_iff.1 h
    exact ⟨layout, JCHK.get_of_tree hl, JCHK.get_of_array hm⟩

theorem Header.sorted {json : Json} {a : IDPimage} {pmap : Json} (h : Header json a pmap)
    (hs : json.Sorted) : pmap.Sorted := by
  obtain ⟨layout, hl, hp, -⟩ := parsePMAPv1_ok h.map
  exact sorted_get (sorted_get hs hl) hp

/-- The image and the partitions an accepted description is loaded into. -/
def Loaded (root : Json) (image : IDPimage) (partitions : List IDPpartition) : Prop :=
  ∃ pmap gs st, Loads root image pmap gs ∧
    visitAll (addPartition root image) (numberGroups 0 gs) {} = .ok st ∧
    partitions = walkTree image.deviceStorage.ptableType st.partitions

namespace IDPparser

theorem collectPartitions_ok_iff {p p' : IDPparser} {pmap : Json} (hs : pmap.Sorted) :
    p.collectPartitions pmap = (.ok (), p') ↔
      ∃ gs st, reach {} pmap = some gs ∧
        visitAll (addPartition p.root p.image) (numberGroups 0 gs) {} = .ok st ∧
        p' = { p with partitions := st.partitions } := by
  unfold collectPartitions
  constructor
  · intro h
    split at h
    · rename_i st hw
      obtain ⟨gs, hg, hv⟩ := (foreachPartition_ok_iff pmap hs _ _).1 hw
      exact ⟨gs, st, hg, hv, (Prod.mk.inj h).2.symm⟩
    · rename_i e st hw
      cases e <;> cases (Prod.mk.inj h).1
  · rintro ⟨gs, st, hg, hv, rfl⟩
    rw [(foreachPartition_ok_iff pmap hs _ _).2 ⟨gs, hg, hv⟩]

theorem igValidate_ok_iff {p p' : IDPparser} (hs : p.root.Sorted) :
    p.igValidate = (.ok (), p') ↔
      Loaded p.root p'.image p'.partitions ∧
        p' = { p with image := p'.image, partitions := p'.partitions } := by
  unfold igValidate parseIGv2
  constructor
  · intro h
    split at h
    · cases (Prod.mk.inj h).1
    rename_i hv
    split at h
    swap
    · cases (Prod.mk.inj h).1
    rename_i q hq
    obtain rfl := (Prod.mk.inj h).2
    split at hq
    swap
    · cases (Prod.mk.inj hq).1
    rename_i image pmap hi
    have hh := parseImage_ok_iff.1 hi
    obtain ⟨gs, st, hg, hst, rfl⟩ := (collectPartitions_ok_iff (hh.sorted hs)).1 hq
    exact ⟨⟨pmap, gs, st, ⟨hv, hh, hg, visitAll_addPartition_ok_iff.1 ⟨st, hst⟩⟩, hst, rfl⟩, rfl⟩
  · rintro ⟨⟨pmap, gs, st, hl, hst, hp⟩, he⟩
    rw [hl.version, parseImage_ok_iff.2 hl.header]
    dsimp only
    rw [(collectPartitions_ok_iff (hl.header.sorted hs)).2 ⟨gs, st, hl.reached, hst, rfl⟩]
    rw [he, hp]

/-- A load returns true exactly on an accepted description, whatever the parser held before, and
then holds what that description is loaded into. -/
theorem loadJSON_ok_iff {reader : String → Except String Json.Doc} {p p' : IDPparser}
    {text : String} :
    p.loadJSON reader text = (.ok (), p') ↔
      ∃ doc, reader text = .ok doc ∧ Loaded doc.root p'.image p'.partitions ∧
        p'.root = doc.root ∧ p'.jvalid = true := by
  unfold loadJSON
  constructor
  · intro h
    split at h
    · cases (Prod.mk.inj h).1
    rename_i doc hd
    split at h
    · rename_i q hq
      obtain rfl := (Prod.mk.inj h).2
      obtain ⟨hl, he⟩ := (igValidate_ok_iff doc.sorted).1 hq
      exact ⟨doc, hd, hl, by rw [he], rfl⟩
    · cases (Prod.mk.inj h).1
    · cases (Prod.mk.inj h).1
  · rintro ⟨doc, hd, hl, hr, hj⟩
    have hv : igValidate { p with root := doc.root } = (.ok (), { p with
        root := doc.root, image := p'.image, partitions := p'.partitions }) :=
      (igValidate_ok_iff doc.sorted).2 ⟨hl, rfl⟩
    rw [hd]
    dsimp only
    rw [hv, ← hr, ← hj]

/-- Whether a load returns true depends on the description alone. -/
theorem loadJSON_fst_ok_iff {reader : String → Except String Json.Doc} {p : IDPparser}
    {text : String} {doc : Json.Doc} (hd : reader text = .ok doc) :
    (p.loadJSON reader text).1 = .ok () ↔ ∃ image pmap gs, Loads doc.root image pmap gs := by
  constructor
  · intro h
    obtain ⟨d, hd', ⟨pmap, gs, st, hl, -⟩, -⟩ := loadJSON_ok_iff.1 (Prod.ext h rfl)
    obtain rfl : doc = d := by simpa [hd] using hd'
    exact ⟨_, pmap, gs, hl⟩
  · rintro ⟨image, pmap, gs, hl⟩
    obtain ⟨st, hst⟩ := visitAll_addPartition_ok_iff.2 hl.described
    have : p.loadJSON reader text = (.ok (), {
        root := doc.root, jvalid := true, image
        partitions := walkTree image.deviceStorage.ptableType st.partitions }) :=
      loadJSON_ok_iff.2 ⟨doc, hd, ⟨pmap, gs, st, hl, hst, rfl⟩, rfl, rfl⟩
    rw [this]

end IDPparser

/-! ### A description -/

/-- An image of the layout. -/
def imageNode (size : ℤ) : Json :=
  .obj [("image", .str "part.img"), ("in-partition-table", .str "true"),
    ("partition-type", .str "0x83"), ("simage", .str "part.simg"), ("size", .int size)]

/-- A description of an SD card with a partition table, an alignment, named images and a map. -/
def describeTable (label palign : String) (images : List (String × Json))
    (entries : List Json) : Json :=
  .obj [
    ("IGmeta", .obj [("IGconf_device_class", .str "cm5"), ("IGconf_device_sector_size", .int 512),
      ("IGconf_device_storage_type", .str "sd"), ("IGconf_device_variant", .str "none"),
      ("IGconf_image_version", .str "1")]),
    ("IGversion", .str "2.0.0"),
    ("attributes", .obj [("image-name", .str "image"), ("image-palign-bytes", .str palign),
      ("image-size", .int 1)]),
    ("layout", .obj [
      ("partitionimages", .obj images),
      ("partitiontable", .obj [("label", .str label)]),
      ("provisionmap", .arr (.obj [("attributes",
        .obj [("PMAPversion", .str "1.0.0"), ("system_type", .str "flat")])] :: entries))])]

theorem sorted_describeTable (label palign : String) {images : List (String × Json)}
    {entries : List Json} (hi : (Json.obj images).Sorted) (he : Json.SortedElems entries) :
    (describeTable label palign images entries).Sorted := by
  simp only [describeTable, Json.Sorted, Json.SortedMembers, Json.SortedElems, List.map_cons,
    List.map_nil] at hi ⊢
  simp only [hi, he, and_true, true_and]
  decide

/-- One with a GPT. -/
def describe (palign : String) (images : List (String × Json)) (entries : List Json) : Json :=
  describeTable "gpt" palign images entries

theorem sorted_describe (palign : String) {images : List (String × Json)} {entries : List Json}
    (hi : (Json.obj images).Sorted) (he : Json.SortedElems entries) :
    (describe palign images entries).Sorted := sorted_describeTable "gpt" palign hi he

/-- An entry with plain partitions. -/
def plainEntry (images : List String) : Json :=
  .obj [("partitions", .arr (images.map fun image => .obj [("image", .str image)]))]

/-- The LUKS parameters of a container with the mapper name `mname`. -/
def luksNode (etype mname : String) : Json :=
  .obj [("cipher", .str "aes"), ("etype", .str etype), ("hash", .str "sha256"),
    ("key_size", .int 256), ("mname", .str mname)]

theorem sorted_imageNode (size : ℤ) : (imageNode size).Sorted := by
  simp only [imageNode, Json.Sorted, Json.SortedMembers, List.map_cons, List.map_nil]
  decide

theorem sorted_luksNode (etype mname : String) : (luksNode etype mname).Sorted := by
  simp only [luksNode, Json.Sorted, Json.SortedMembers, List.map_cons, List.map_nil]
  decide

theorem sortedElems_images (images : List String) :
    Json.SortedElems (images.map fun image => .obj [("image", .str image)]) := by
  induction images with
  | nil => trivial
  | cons image images ih => exact ⟨by simp [Json.Sorted, Json.SortedMembers], ih⟩

theorem sorted_plainEntry (images : List String) : (plainEntry images).Sorted :=
  ⟨List.pairwise_singleton .., sortedElems_images images, trivial⟩

/-- The load of a document by a new parser. -/
def loadDoc (doc : Json.Doc) : Except LoadError Unit × IDPparser :=
  IDPparser.loadJSON (fun _ => .ok doc) {} ""

end RpiFastbootd
