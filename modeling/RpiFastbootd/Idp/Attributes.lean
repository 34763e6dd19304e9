import RpiFastbootd.Idp.Containers

/-!
# The mandatory attributes

A field that is read with `JCHK` and whose result is looked at cannot be there with another type.
Two fields slip through.  The result for the type code of an image is dropped, so that a number or
an empty text leaves the partition with an empty type code; and a key size is only checked for its
remainder, so that zero and negative numbers pass.  Apart from these two an accepted description has
all its mandatory attributes (`mandatory_usable_iff`).
-/

namespace RpiFastbootd

/-! ### The fields of an image -/

/-- The image of a partition. -/
def imageOf (root : Json) (q : Partition) : Json :=
  getJSON root ["layout", "partitionimages", q.image]

/-- The type code of an image: the first of two members that is there. -/
def typeMember (img : Json) : Option Json :=
  (img.members.lookup "partition-type").or (img.members.lookup "partition-type-uuid")

/-- The text of a value: whatever is no text counts as empty. -/
def textOf : Json → String
  | .str s => s
  | _ => ""

/-- The type code that is read of an image. -/
def typeText (img : Json) : String := (typeMember img).elim "" textOf

/-- The fields that are looked at when an image is read. -/
structure ImageChecked (img : Json) : Prop where
  image : ∃ s, img.get "image" = .ok (.str s) ∧ s ≠ ""
  simage : ∃ s, img.get "simage" = .ok (.str s) ∧ s ≠ ""
  size : ∃ v, img.get "size" = .ok v ∧ v.isUInt64
  inTable : img.get "in-partition-table" = .ok (.str "true")

theorem refusingWith_eq_ok_iff {α : Type} {msg : String → String} {x : Except LoadError α} {a : α} :
    refusingWith msg x = .ok a ↔ x = .ok a := by
  cases x with
  | ok b => rfl
  | error e => cases e <;> simp [refusingWith, refuse]

namespace JCHK

/-- A size is a number of 64 bits: a signed number that is none is negative. -/
theorem isUInt64_of_size {v : Json} {key : String} {n : ℕ} (h : size v key = .ok n) :
    ∃ w, v.get key = .ok w ∧ w.isUInt64 := by
  simp only [size, bind_eq_ok_iff] at h
  obtain ⟨w, hw, h⟩ := h
  refine ⟨w, get_of_member hw, ?_⟩
  split_ifs at h with hu hi
  · exact hu
  · simp only [bind_eq_ok_iff, raises_eq_ok_iff] at h
    obtain ⟨z, hz, h⟩ := h
    split_ifs at h with hneg
    · exact (refuse_ne_ok h).elim
    · cases w with
      | int m =>
        simp only [Json.isInt64, Json.isIntegerIn, decide_eq_true_eq] at hi
        rw [Json.asInt64, Json.asIntegerIn, if_pos hi] at hz
        cases hz
        simp only [Json.isUInt64, Json.isIntegerIn, decide_eq_true_eq]
        omega
      | real q =>
        simp only [Json.isInt64, Json.isIntegerIn, decide_eq_true_eq] at hi
        rw [Json.asInt64, Json.asIntegerIn] at hz
        split_ifs at hz
        cases hz
        rw [hi.1] at hneg
        simp only [Json.isUInt64, Json.isIntegerIn, decide_eq_true_eq]
        simp only [Nat.cast_one, Int.tdiv_one] at hneg
        exact ⟨hi.1, by omega, by omega⟩
      | _ => cases hi
  · exact (refuse_ne_ok h).elim

/-- The result of an ignored check of a member: its text, or nothing. -/
theorem ignoring_string {ms : List (String × Json)} {key t : String} {w : Json}
    (hm : ms.lookup key = some w) (h : ignoring "" (string (.obj ms) key) = .ok t) :
    t = textOf w := by
  have hmember : member (.obj ms) key = .ok w := by
    simp [member, hm, raises]
  simp only [string, hmember, ok_bind, stringValue, nonEmpty] at h
  cases w with
  | str s =>
    simp only [Json.isString, Json.asString, raises, if_true, ok_bind] at h
    split_ifs at h with hs
    · cases h
      exact hs.symm
    · cases h
      rfl
  | _ =>
    cases h
    rfl

end JCHK

/-- What is known of an image that has been read. -/
theorem imageAttrs_ok {root : Json} {image : String} {a : ImageAttrs}
    (h : imageAttrs root image = .ok a) :
    ImageChecked (getJSON root ["layout", "partitionimages", image]) ∧
      a.pcode = typeText (getJSON root ["layout", "partitionimages", image]) := by
  unfold imageAttrs at h
  generalize getJSON root ["layout", "partitionimages", image] = img at h ⊢
  dsimp only at h
  split_ifs at h with hnull
  · exact (refuse_ne_ok h).elim
  simp only [bind_eq_ok_iff, refusingWith_eq_ok_iff, pure_eq_ok_iff] at h
  obtain ⟨_, ⟨i, hi, s, hs, n, hn, rfl⟩, t, ht, h⟩ := h
  split_ifs at h with htrue
  · exact (refuse_ne_ok h).elim
  have hobject : ∃ ms, img = .obj ms := by
    have hget := (JCHK.get_of_string hi).1
    cases img with
    | obj ms => exact ⟨ms, rfl⟩
    | _ => cases hget
  obtain ⟨ms, rfl⟩ := hobject
  have hchecked : ImageChecked (.obj ms) := by
    refine ⟨⟨i, JCHK.get_of_string hi⟩, ⟨s, JCHK.get_of_string hs⟩, JCHK.isUInt64_of_size hn, ?_⟩
    obtain rfl : t = "true" := by simpa using htrue
    cases hj : JCHK.string (.obj ms) "in-partition-table" with
    | ok u =>
      rw [hj] at ht
      cases ht
      exact (JCHK.get_of_string hj).1
    | error e =>
      rw [hj] at ht
      cases e <;> simp [ignoring] at ht
  refine ⟨hchecked, ?_⟩
  simp only [Json.isMember_obj, raises, bind_eq_ok_iff, Except.ok.injEq] at h
  obtain ⟨_, rfl, _, rfl, h⟩ := h
  rw [typeText, typeMember, Json.members]
  cases htype : ms.lookup "partition-type" with
  | some w =>
    rw [htype] at h
    simp only [Option.isSome_some, if_true, bind_eq_ok_iff] at h
    obtain ⟨pcode, hp, _, -, _, -, ha⟩ := h
    obtain rfl := pure_eq_ok_iff.1 ha
    exact JCHK.ignoring_string htype hp
  | none =>
    rw [htype] at h
    cases huuid : ms.lookup "partition-type-uuid" with
    | some w =>
      rw [huuid] at h
      simp only [Option.isSome_none, Option.isSome_some, Bool.false_eq_true, if_false, if_true,
        bind_eq_ok_iff] at h
      obtain ⟨pcode, hp, _, -, _, -, ha⟩ := h
      obtain rfl := pure_eq_ok_iff.1 ha
      exact JCHK.ignoring_string huuid hp
    | none =>
      rw [huuid] at h
      simp only [Option.isSome_none, Bool.false_eq_true, if_false, bind_eq_ok_iff] at h
      obtain ⟨_, hr, -⟩ := h
      exact (refuse_ne_ok hr).elim

/-! ### The fields of the header -/

/-- The texts that every description has to give, by their paths. -/
def headerTexts : List (List String) :=
  [["IGversion"], ["IGmeta", "IGconf_device_class"], ["IGmeta", "IGconf_device_storage_type"],
    ["IGmeta", "IGconf_device_variant"], ["IGmeta", "IGconf_image_version"],
    ["attributes", "image-name"], ["attributes", "image-palign-bytes"],
    ["layout", "partitiontable", "label"]]

/-- The numbers that every description has to give. -/
def headerSizes : List (List String) :=
  [["IGmeta", "IGconf_device_sector_size"], ["attributes", "image-size"]]

structure HeaderChecked (root : Json) : Prop where
  texts : ∀ path ∈ headerTexts, ∃ s, getJSON root path = .str s ∧ s ≠ ""
  sizes : ∀ path ∈ headerSizes, (getJSON root path).isUInt64

theorem text_of_section {json obj : Json} {key field s : String}
    (ho : ignoring .null (JCHK.tree json key) = .ok obj) (hs : JCHK.string obj field = .ok s) :
    ∃ s, getJSON json [key, field] = .str s ∧ s ≠ "" := by
  obtain ⟨hget, hne⟩ := JCHK.get_of_string hs
  exact ⟨s, getJSON_of_section ho hget rfl, hne⟩

theorem size_of_section {json obj : Json} {key field : String} {n : ℕ}
    (ho : ignoring .null (JCHK.tree json key) = .ok obj) (hs : JCHK.size obj field = .ok n) :
    (getJSON json [key, field]).isUInt64 := by
  obtain ⟨w, hget, hw⟩ := JCHK.isUInt64_of_size hs
  rw [getJSON_of_section ho hget (by cases w <;> first | rfl | cases hw)]
  exact hw

/-- The two texts that the version checks read. -/
theorem texts_of_version {root : Json} (h : IDPparser.igVersion root = .ok ()) :
    (∃ s, getJSON root ["IGversion"] = .str s ∧ s ≠ "") ∧
      ∃ s, getJSON root ["layout", "partitiontable", "label"] = .str s ∧ s ≠ "" := by
  simp only [IDPparser.igVersion, bind_eq_ok_iff, refusingWith_eq_ok_iff] at h
  obtain ⟨_, h, -⟩ := h
  simp only [checkIGCompat, bind_eq_ok_iff] at h
  obtain ⟨str, hstr, version, -, h⟩ := h
  split_ifs at h
  · exact (refuse_ne_ok h).elim
  simp only [bind_eq_ok_iff] at h
  obtain ⟨_, -, _, -, layout, hlayout, _, -, h⟩ := h
  split_ifs at h
  · exact (refuse_ne_ok h).elim
  simp only [bind_eq_ok_iff] at h
  obtain ⟨ptable, hptable, label, hlabel, -⟩ := h
  obtain ⟨hversion, hne⟩ := JCHK.get_of_string hstr
  obtain ⟨hget, hne'⟩ := JCHK.get_of_string hlabel
  have hptable' := JCHK.get_of_tree hptable
  have hnotnull {v w : Json} {key : String} (hg : v.get key = .ok w) (hw : w.isNull = false) :
      v.isNull = false := by
    cases v with
    | null =>
      cases hg
      exact hw
    | _ => rfl
  have hp := hnotnull hget rfl
  refine ⟨⟨str, ?_, hne⟩, label, ?_, hne'⟩
  · rw [getJSON_of_get hversion rfl, getJSON]
  · rw [getJSON_of_get (JCHK.get_of_tree hlayout) (hnotnull hptable' hp),
      getJSON_of_get hptable' hp, getJSON_of_get hget rfl, getJSON]

theorem headerChecked_of_loads {root : Json} {image : IDPimage} {pmap : Json} {gs : List Group}
    (h : Loads root image pmap gs) : HeaderChecked root := by
  obtain ⟨_, _, hmeta, hclass, htype, hsector, hvariant, hversion, -⟩ := h.header.device.read
  obtain ⟨_, _, hattributes, hname, hsize, halign, -⟩ := h.header.attributes.read
  obtain ⟨hig, hlabel⟩ := texts_of_version h.version
  constructor
  · simp only [headerTexts, List.forall_mem_cons, List.not_mem_nil, false_imp_iff, implies_true,
      and_true]
    exact ⟨hig, text_of_section hmeta hclass, text_of_section hmeta htype,
      text_of_section hmeta hvariant, text_of_section hmeta hversion,
      text_of_section hattributes hname, text_of_section hattributes halign, hlabel⟩
  · simp only [headerSizes, List.forall_mem_cons, List.not_mem_nil, false_imp_iff, implies_true,
      and_true]
    exact ⟨size_of_section hmeta hsector, size_of_section hattributes hsize⟩

/-! ### The visited partitions -/

/-- The partitions that the walk of a description visits. -/
def visited (root : Json) : List Partition :=
  match foreachPartition (fun q qs => .ok (qs ++ [q])) (provisionMap root) [] with
  | .ok qs => qs
  | .error _ => []

theorem visitAll_collect (qs acc : List Partition) :
    visitAll (fun q qs => .ok (qs ++ [q])) qs acc = .ok (acc ++ qs) := by
  induction qs generalizing acc with
  | nil => simp [visitAll]
  | cons q qs ih => simp [visitAll, leaving, ih]

theorem visited_eq {root : Json} {image : IDPimage} {pmap : Json} {gs : List Group}
    (hs : root.Sorted) (hh : Header root image pmap) (hr : reach {} pmap = some gs) :
    visited root = numberGroups 0 gs := by
  have hw : foreachPartition (fun q qs => .ok (qs ++ [q])) pmap [] = .ok (numberGroups 0 gs) :=
    (foreachPartition_ok_iff pmap (hh.sorted hs) _ _).2 ⟨gs, hr, visitAll_collect _ _⟩
  rw [visited, provisionMap_eq (parsePMAPv1_ok_iff.1 hh.map).1, hw]

/-- What the body of a plain partition carries over from its image. -/
theorem image_of_body {root : Json} {image : IDPimage} {q : Partition} {body : IDPpartition}
    (h : partitionBody root image q = .ok body) (hq : q.luks = none) :
    ImageChecked (imageOf root q) ∧ body.typecode = some (typeText (imageOf root q)) := by
  simp only [partitionBody, Partition.isCryptContainer, hq, Option.isSome_none, Bool.false_eq_true,
    if_false, bind_eq_ok_iff, map_eq_ok_iff] at h
  obtain ⟨_, ⟨a, ha, rfl⟩, h⟩ := h
  obtain ⟨hchecked, hcode⟩ := imageAttrs_ok ha
  split_ifs at h
  · exact (refuse_ne_ok h).elim
  · simp only [bind_eq_ok_iff, raises_eq_ok_iff, pure_eq_ok_iff] at h
    obtain ⟨n, -, rfl⟩ := h
    exact ⟨hchecked, by rw [hcode]; rfl⟩

theorem typecode_of_placed {root : Json} {image : IDPimage} {q : Partition} {e : IDPpartition}
    (h : Placed root image q e) (hq : q.luks = none) :
    e.typecode = some (typeText (imageOf root q)) := by
  obtain ⟨body, hb, hr⟩ := h.body
  have hbody : body.luks = none := by
    rcases (partitionBody_ok hb).2.2 with ⟨k, hk, -⟩ | ⟨-, hn, -⟩
    · rw [hq] at hk
      cases hk
    · exact hn
  rw [(hr.plain hbody).1]
  exact (image_of_body hb hq).2

/-! ### Usable attributes -/

/-- The key size of an encrypted node. -/
def keySizeOf (node : Json) : ℤ :=
  match (do (← (← node.get "luks2").get "key_size").asInt : Except Exn ℤ) with
  | .ok z => z
  | .error _ => 0

/-- A container has the parameters of its node: the texts are not empty, and the key size is a
positive number of bytes. -/
structure LuksUsable (node : Json) (k : IDPluks) : Prop where
  read : LuksRead node k
  positive : 0 < k.keySize
  bytes : 8 ∣ k.keySize
  size_eq : (k.keySize : ℤ) = keySizeOf node

/-- Every partition can be created with its attributes, and every mandatory field has its type. -/
structure MandatoryUsable (root : Json) (l : List IDPpartition) : Prop where
  header : HeaderChecked root
  typecode : ∀ p ∈ l, ∃ code, p.typecode = some code ∧ code ≠ ""
  luks : List.Forall₂ LuksUsable (containerNodes {} (provisionMap root)) (l.filterMap (·.luks))
  images : ∀ q ∈ visited root, q.luks = none → ImageChecked (imageOf root q) ∧
    ∃ s, typeMember (imageOf root q) = some (.str s) ∧ s ≠ ""

theorem typeText_ne_empty_iff {img : Json} :
    typeText img ≠ "" ↔ ∃ s, typeMember img = some (.str s) ∧ s ≠ "" := by
  rw [typeText]
  constructor
  · intro h
    cases ht : typeMember img with
    | none =>
      rw [ht] at h
      exact (h rfl).elim
    | some w =>
      rw [ht] at h
      cases w with
      | str s => exact ⟨s, rfl, h⟩
      | _ => exact (h rfl).elim
  · rintro ⟨s, hs, hne⟩
    rw [hs]
    exact hne

/-- With a positive key size, the container of a node is usable. -/
theorem luksUsable_iff {node : Json} {k : IDPluks} (h : LuksRead node k) :
    LuksUsable node k ↔ 0 < keySizeOf node := by
  obtain ⟨luks, z, hobj, hsize, -⟩ := h.object
  obtain ⟨v, hv, hint, hz⟩ := hobj.key
  have hkey : keySizeOf node = z := by
    simp [keySizeOf, hobj.object, hv, hz]
  have hbounds := Json.asInt_bounds hint hz
  have hbits := hobj.bits
  rw [hkey]
  constructor
  · intro hu
    have hpos := hu.positive
    have hexact := hu.size_eq
    omega
  · intro hpos
    have hk : (k.keySize : ℤ) = z := by
      rw [hsize]
      omega
    exact ⟨h, by omega, by omega, by rw [hkey, hk]⟩

theorem usable_of_container {root : Json} {image : IDPimage} {l : List IDPpartition}
    (h : Loaded root image l) :
    List.Forall₂ LuksUsable (containerNodes {} (provisionMap root)) (l.filterMap (·.luks)) ↔
      ∀ node ∈ containerNodes {} (provisionMap root), 0 < keySizeOf node := by
  have hread := containers_of_loaded h
  generalize l.filterMap (·.luks) = ks at hread ⊢
  generalize containerNodes {} (provisionMap root) = nodes at hread ⊢
  induction hread with
  | nil => simp
  | @cons node k nodes ks hk _ ih =>
    rw [List.forall₂_cons, List.forall_mem_cons]
    exact and_congr (luksUsable_iff hk) ih

theorem keySize_pos_of_usable {nodes : List Json} {ks : List IDPluks}
    (h : List.Forall₂ LuksUsable nodes ks) : ∀ z ∈ nodes.map keySizeOf, 0 < z := by
  induction h with
  | nil => simp
  | @cons node k nodes ks hk _ ih =>
    rw [List.map_cons, List.forall_mem_cons]
    exact ⟨(luksUsable_iff hk.read).1 hk, ih⟩

/-- The two checks that are missing. -/
structure FieldsSound (root : Json) : Prop where
  typecode : ∀ q ∈ visited root, q.luks = none →
    ∃ s, typeMember (imageOf root q) = some (.str s) ∧ s ≠ ""
  keySize : ∀ node ∈ containerNodes {} (provisionMap root), 0 < keySizeOf node

theorem mandatoryUsable_iff {root : Json} {image : IDPimage} {l : List IDPpartition}
    (hs : root.Sorted) (h : Loaded root image l) : MandatoryUsable root l ↔ FieldsSound root := by
  obtain ⟨pmap, gs, hl, -, hplaced⟩ := placed_of_loaded h
  have hvisited := visited_eq hs hl.header hl.reached
  rw [← hvisited] at hplaced
  constructor
  · intro hu
    exact ⟨fun q hq hn => (hu.images q hq hn).2, (usable_of_container h).1 hu.luks⟩
  · intro hf
    refine ⟨headerChecked_of_loads hl, fun e he => ?_, (usable_of_container h).2 hf.keySize,
      fun q hq hn => ?_⟩
    · obtain ⟨i, hi⟩ := List.getElem?_of_mem he
      obtain ⟨q, hq, hqe⟩ := getElem?_of_forall₂ hplaced hi
      cases hn : q.luks with
      | none =>
        exact ⟨_, typecode_of_placed hqe hn,
          typeText_ne_empty_iff.2 (hf.typecode q (List.mem_of_getElem? hq) hn)⟩
      | some k =>
        apply hqe.typecode
        rw [IDPpartition.isCryptContainer, luks_of_placed hqe, hn]
        rfl
    · obtain ⟨i, hi⟩ := List.getElem?_of_mem hq
      obtain ⟨e, -, hqe⟩ := getElem?_of_forall₂_left hplaced hi
      obtain ⟨body, hb, -⟩ := hqe.body
      exact ⟨(image_of_body hb hn).1, hf.typecode q hq hn⟩

/-- The mandatory attributes of an accepted description are usable exactly when every type code
that is read is a text that is not empty, and every key size is positive. -/
theorem mandatory_usable_iff (reader : String → Except String Json.Doc) (p p' : IDPparser)
    (text : String) (h : p.loadJSON reader text = (.ok (), p')) :
    MandatoryUsable p'.root p'.partitions ↔ FieldsSound p'.root := by
  obtain ⟨doc, -, hl, hroot, -⟩ := IDPparser.loadJSON_ok_iff.1 h
  rw [hroot]
  exact mandatoryUsable_iff doc.sorted hl

/-- A partition whose type code is a number. -/
def codeDoc (code : ℤ) : Json.Doc where
  root := describe "1M" [("a", .obj [("image", .str "part.img"),
      ("in-partition-table", .str "true"), ("partition-type", .int code),
      ("simage", .str "part.simg"), ("size", .int 1)])] [plainEntry ["a"]]
  sorted := by
    refine sorted_describe "1M" ?_ ?_
    · simp only [Json.Sorted, Json.SortedMembers, List.map_cons, List.map_nil]
      decide
    · exact ⟨sorted_plainEntry _, trivial⟩

/-- A container with this key size. -/
def keyDoc (keySize : ℤ) : Json.Doc where
  root := describe "1M" [("a", imageNode 1)] [.obj [("encrypted", .obj [
    ("luks2", .obj [("cipher", .str "aes"), ("etype", .str "raw"), ("hash", .str "sha256"),
      ("key_size", .int keySize), ("mname", .str "crypt")]),
    ("partitions", .arr [.obj [("image", .str "a")]])])]]
  sorted := by
    refine sorted_describe "1M" ?_ ?_
    · simp only [Json.Sorted, Json.SortedMembers, sorted_imageNode, List.map_cons, List.map_nil]
      decide
    · simp only [List.map_cons, List.map_nil, Json.SortedElems, Json.Sorted, Json.SortedMembers]
      decide

/-- A type code of 131, which is no text, is ignored; a key size of -256 becomes one of nearly
16 EiB, and one of 0 stays. -/
theorem unusable_attributes_accepted :
    ((loadDoc (codeDoc 131)).1 = .ok () ∧
      (loadDoc (codeDoc 131)).2.partitions.map (·.typecode) = [some ""] ∧
      ¬ MandatoryUsable (loadDoc (codeDoc 131)).2.root (loadDoc (codeDoc 131)).2.partitions) ∧
    ((loadDoc (keyDoc (-256))).1 = .ok () ∧
      (loadDoc (keyDoc (-256))).2.partitions.filterMap (fun p => p.luks.map (·.keySize)) =
        [2 ^ 64 - 256] ∧
      ¬ MandatoryUsable (loadDoc (keyDoc (-256))).2.root (loadDoc (keyDoc (-256))).2.partitions) ∧
    (loadDoc (keyDoc 0)).1 = .ok () ∧
      (loadDoc (keyDoc 0)).2.partitions.filterMap (fun p => p.luks.map (·.keySize)) = [0] ∧
      ¬ MandatoryUsable (loadDoc (keyDoc 0)).2.root (loadDoc (keyDoc 0)).2.partitions := by
  have hcodes : (loadDoc (codeDoc 131)).2.partitions.map (·.typecode) = [some ""] := by
    decide +kernel
  refine ⟨⟨by decide +kernel, hcodes, fun hu => ?_⟩,
    ⟨by decide +kernel, by decide +kernel, fun hu => ?_⟩, by decide +kernel, by decide +kernel,
    fun hu => ?_⟩
  · obtain ⟨e, he, hcode⟩ := List.mem_map.1 (hcodes ▸ List.mem_singleton.2 rfl : some "" ∈ _)
    obtain ⟨code, hsome, hne⟩ := hu.typecode e he
    rw [hcode] at hsome
    exact hne (Option.some.inj hsome).symm
  · have hpos := keySize_pos_of_usable hu.luks (-256) (by decide +kernel)
    omega
  · have hpos := keySize_pos_of_usable hu.luks 0 (by decide +kernel)
    omega

/-- A container with a key of 256 and its child have all their attributes. -/
theorem mandatory_usable_keyDoc :
    MandatoryUsable (loadDoc (keyDoc 256)).2.root (loadDoc (keyDoc 256)).2.partitions := by
  have hok : (loadDoc (keyDoc 256)).1 = .ok () := by decide +kernel
  have hkeys : (containerNodes {} (provisionMap (loadDoc (keyDoc 256)).2.root)).map keySizeOf =
      [256] := by decide +kernel
  have hcodes : ∀ q ∈ visited (loadDoc (keyDoc 256)).2.root, q.luks = none →
      typeText (imageOf (loadDoc (keyDoc 256)).2.root q) ≠ "" := by decide +kernel
  generalize keyDoc 256 = doc at hok hkeys hcodes ⊢
  have hload : loadDoc doc = (.ok (), (loadDoc doc).2) := Prod.ext hok rfl
  refine (mandatory_usable_iff (fun _ => .ok doc) {} (loadDoc doc).2 "" hload).2
    ⟨fun q hq hn => typeText_ne_empty_iff.1 (hcodes q hq hn), fun node hnode => ?_⟩
  have hmem := List.mem_map_of_mem (f := keySizeOf) hnode
  rw [hkeys, List.mem_singleton] at hmem
  omega

end RpiFastbootd
