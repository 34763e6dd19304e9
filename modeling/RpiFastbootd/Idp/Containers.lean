import RpiFastbootd.Idp.Forest
import RpiFastbootd.Idp.Malformed

/-!
# The containers of a description

`containerNodes` collects the encrypted nodes a walk comes to, in order, from the shape of the map
alone.  On a map that is accepted these are the nodes whose LUKS parameters the containers of the
partition list carry (`containers_of_loaded`), and what a node says is what its container has
(`luksNode_of_created`).
-/

namespace RpiFastbootd

/-! ### The nodes of a map -/

/-- The member `key` of a node, if there is one. -/
def memberOf (key : String) (v : Json) : List Json :=
  match v.find key with
  | .ok (some w) => [w]
  | _ => []

/-- The containers in the slots of a top-level object. -/
def slotNodes (slots : Json) : List Json := slots.elems.flatMap (memberOf "encrypted")

/-- The containers of an object at a position under a container or in a slot. -/
def levelNodes (underEncrypted inSlot : Bool) (v : Json) : List Json :=
  (if !underEncrypted && !inSlot then (memberOf "slots" v).flatMap slotNodes else []) ++
    (if !inSlot then memberOf "encrypted" v else [])

mutual
/-- The containers a walk comes to at a node and below it. -/
def containerNodes (p : Place) : Json → List Json
  | .obj ms => levelNodes p.underEncrypted p.inSlot (.obj ms) ++ containerNodesMembers p ms
  | .arr xs => containerNodesElems p xs
  | _ => []

def containerNodesMembers (p : Place) : List (String × Json) → List Json
  | [] => []
  | (key, v) :: ms =>
    if v.isObject || v.isArray then containerNodes (p.member key v) v ++ containerNodesMembers p ms
    else []

def containerNodesElems (p : Place) : List Json → List Json
  | [] => []
  | v :: xs =>
    if v.isObject || v.isArray then containerNodes p.elem v ++ containerNodesElems p xs
    else []
end

/-! ### The groups of the nodes -/

/-- The group is that of the container made from the node. -/
def Created (node : Json) (g : Group) : Prop :=
  Collect.containerOk node = .ok true ∧ createEncryptedPartition node = .ok g.head

/-- The containers of the groups are made from the nodes, in order. -/
def Creates (nodes : List Json) (gs : List Group) : Prop :=
  List.Forall₂ Created nodes (gs.filter fun g => g.head.isCryptContainer)

theorem creates_nil : Creates [] [] := .nil

theorem Creates.append {nodes nodes' : List Json} {gs gs' : List Group} (h : Creates nodes gs)
    (h' : Creates nodes' gs') : Creates (nodes ++ nodes') (gs ++ gs') := by
  rw [Creates, List.filter_append]
  exact List.rel_append h h'

theorem creates_atMember {f : Json → Option (List Group)} {nodes : Json → List Json}
    (h : ∀ w gs, f w = some gs → Creates (nodes w) gs) {v : Json} {key : String} {gs : List Group}
    (hg : Collect.atMember v key f = some gs) : Creates ((memberOf key v).flatMap nodes) gs := by
  unfold Collect.atMember at hg
  unfold memberOf
  rcases hf : v.find key with e | _ | w <;> rw [hf] at hg
  · cases hg
  · cases hg
    exact creates_nil
  · rw [List.flatMap_singleton]
    exact h w gs hg

theorem creates_concat {f : Json → Option (List Group)} {nodes : Json → List Json}
    (h : ∀ w gs, f w = some gs → Creates (nodes w) gs) {vs : List Json} {gs : List Group}
    (hg : Collect.concat f vs = some gs) : Creates (vs.flatMap nodes) gs := by
  induction vs generalizing gs with
  | nil =>
    cases hg
    exact creates_nil
  | cons v vs ih =>
    obtain ⟨a, b, ha, hb, rfl⟩ := append_eq_some_iff.1 hg
    exact (h v a ha).append (ih hb)

theorem creates_onlyIf {flag : Bool} {s : Option (List Group)} {nodes : List Json}
    (h : ∀ gs, s = some gs → Creates nodes gs) {gs : List Group}
    (hg : Collect.onlyIf flag s = some gs) : Creates (if flag then nodes else []) gs := by
  unfold Collect.onlyIf at hg
  split_ifs at hg ⊢
  · exact h gs hg
  · cases hg
    exact creates_nil

theorem creates_container {node : Json} {gs : List Group}
    (h : Collect.container node = some gs) : Creates [node] gs := by
  obtain ⟨c, ps, hok, hc, -, rfl⟩ := container_eq_some h
  have hcontainer : c.isCryptContainer := (luks_createEncryptedPartition hc).1
  have hfilter : ([⟨c, ps⟩] : List Group).filter (fun g => g.head.isCryptContainer) =
      [⟨c, ps⟩] := by simp [hcontainer]
  rw [Creates, hfilter]
  exact .cons ⟨hok, hc⟩ .nil

/-- Plain partitions are no containers. -/
theorem creates_roots {v : Json} {key : String} {gs : List Group}
    (h : Collect.atMember v key Collect.roots = some gs) : Creates [] gs := by
  have hplain : ∀ g ∈ gs, g.head.luks = none := by
    refine Collect.forall_atMember (fun w hs hw => ?_) h
    obtain ⟨ps, hps, rfl⟩ := Option.map_eq_some_iff.1 hw
    rintro g hg
    obtain ⟨p, hp, rfl⟩ := List.mem_map.1 hg
    exact luks_regulars hps p hp
  have hnone : gs.filter (fun g => g.head.isCryptContainer) = [] := by
    rw [List.filter_eq_nil_iff]
    intro g hg
    rw [Partition.isCryptContainer, hplain g hg]
    simp
  rw [Creates, hnone]
  exact .nil

theorem creates_slots {v : Json} {gs : List Group} (h : Collect.slots v = some gs) :
    Creates (slotNodes v) gs := by
  refine creates_concat (fun slot l hl => ?_) h
  obtain ⟨a, b, ha, hb, rfl⟩ := append_eq_some_iff.1 hl
  have hcontainer := creates_atMember (fun _ _ => creates_container) hb
  rw [List.flatMap_singleton'] at hcontainer
  exact (creates_roots ha).append hcontainer

theorem creates_level {u s : Bool} {v : Json} {gs : List Group}
    (h : Collect.level u s v = some gs) : Creates (levelNodes u s v) gs := by
  simp only [Collect.level, Option.bind_eq_bind, Option.bind_eq_some_iff, pure,
    Option.some.injEq] at h
  obtain ⟨a, ha, b, hb, c, hc, rfl⟩ := h
  have hroots := creates_onlyIf (fun _ => creates_roots) ha
  have hslots := creates_onlyIf (fun _ => creates_atMember fun _ _ => creates_slots) hb
  have hcontainer := creates_onlyIf (fun _ => creates_atMember fun _ _ => creates_container) hc
  rw [ite_self] at hroots
  rw [List.flatMap_singleton'] at hcontainer
  exact (hroots.append hslots).append hcontainer

mutual
theorem creates_reach {p : Place} {v : Json} {gs : List Group} (h : reach p v = some gs) :
    Creates (containerNodes p v) gs := by
  cases v with
  | obj ms =>
    obtain ⟨a, b, ha, hb, rfl⟩ := append_eq_some_iff.1 h
    rw [containerNodes]
    exact (creates_level ha).append (creates_reachMembers hb)
  | arr xs =>
    rw [containerNodes]
    exact creates_reachElems h
  | null | bool _ | int _ | real _ | str _ =>
    cases h
    simpa [containerNodes] using creates_nil

theorem creates_reachMembers {p : Place} {ms : List (String × Json)} {gs : List Group}
    (h : reachMembers p ms = some gs) : Creates (containerNodesMembers p ms) gs := by
  cases ms with
  | nil =>
    cases h
    exact creates_nil
  | cons m ms =>
    obtain ⟨key, v⟩ := m
    rw [reachMembers] at h
    rw [containerNodesMembers]
    split_ifs at h ⊢
    · obtain ⟨a, b, ha, hb, rfl⟩ := append_eq_some_iff.1 h
      exact (creates_reach ha).append (creates_reachMembers hb)
    · cases h
      exact creates_nil

theorem creates_reachElems {p : Place} {xs : List Json} {gs : List Group}
    (h : reachElems p xs = some gs) : Creates (containerNodesElems p xs) gs := by
  cases xs with
  | nil =>
    cases h
    exact creates_nil
  | cons v xs =>
    rw [reachElems] at h
    rw [containerNodesElems]
    split_ifs at h ⊢
    · obtain ⟨a, b, ha, hb, rfl⟩ := append_eq_some_iff.1 h
      exact (creates_reach ha).append (creates_reachElems hb)
    · cases h
      exact creates_nil
end

/-! ### The containers of the partition list -/

theorem filterMap_luks_numberFrom {parent : Option ℕ} {n : ℕ} {ps : List Partition}
    (h : ∀ p ∈ ps, p.luks = none) : (numberFrom parent n ps).filterMap (·.luks) = [] := by
  rw [List.filterMap_eq_nil_iff]
  exact fun p hp => luks_numberFrom h hp

theorem filterMap_luks_numberGroups {gs : List Group} (h : ∀ g ∈ gs, g.Proper) (n : ℕ) :
    (numberGroups n gs).filterMap (·.luks) = gs.filterMap (·.head.luks) := by
  induction gs generalizing n with
  | nil => rfl
  | cons g gs ih =>
    rw [List.forall_mem_cons] at h
    have hhead : (g.number n).filterMap (·.luks) = g.head.luks.toList := by
      rw [Group.number, List.filterMap_cons, filterMap_luks_numberFrom h.1.children]
      cases g.head.luks <;> rfl
    rw [numberGroups, List.filterMap_append, hhead, ih h.2, List.filterMap_cons]
    cases g.head.luks <;> rfl

theorem luksRead_of_creates {nodes : List Json} {gs : List Group} (h : Creates nodes gs) :
    List.Forall₂ LuksRead nodes (gs.filterMap (·.head.luks)) := by
  have hfilter : gs.filterMap (·.head.luks) =
      (gs.filter fun g => g.head.isCryptContainer).filterMap (·.head.luks) := by
    rw [List.filterMap_filter]
    refine List.filterMap_congr fun g _ => ?_
    rw [Partition.isCryptContainer]
    cases g.head.luks <;> rfl
  rw [hfilter]
  unfold Creates at h
  generalize gs.filter (fun g => g.head.isCryptContainer) = cs at h
  induction h with
  | nil => exact .nil
  | @cons node g nodes cs hc _ ih =>
    obtain ⟨k, hk⟩ := Option.isSome_iff_exists.1 (luks_createEncryptedPartition hc.2).1
    rw [List.filterMap_cons, hk]
    exact .cons (luksRead_createEncryptedPartition hc.1 hc.2 k hk) ih

theorem luks_of_placed {root : Json} {image : IDPimage} {q : Partition} {e : IDPpartition}
    (h : Placed root image q e) : e.luks = q.luks.map fun k => { k with
      pAlignmentBytes := image.deviceStorage.ptableAlign
      sectorSize := image.deviceStorage.sectorSize } := by
  obtain ⟨body, hb, hr⟩ := h.body
  rw [hr.eq]
  rcases (partitionBody_ok hb).2.2 with ⟨k, hk, -, hbk⟩ | ⟨hk, hbk, -⟩
  · rw [hk]
    exact hbk
  · rw [hk]
    exact hbk

theorem filterMap_luks_of_placed {root : Json} {image : IDPimage} {qs : List Partition}
    {l : List IDPpartition} (h : List.Forall₂ (Placed root image) qs l) :
    l.filterMap (·.luks) = (qs.filterMap (·.luks)).map fun k => { k with
      pAlignmentBytes := image.deviceStorage.ptableAlign
      sectorSize := image.deviceStorage.sectorSize } := by
  induction h with
  | nil => rfl
  | @cons q e qs es hqe _ ih =>
    rw [List.filterMap_cons, List.filterMap_cons, luks_of_placed hqe]
    cases q.luks <;> simp [ih]

/-- The containers of a loaded list carry the parameters of the nodes a walk comes to. -/
theorem containers_of_loaded {root : Json} {image : IDPimage} {l : List IDPpartition}
    (h : Loaded root image l) :
    List.Forall₂ LuksRead (containerNodes {} (provisionMap root)) (l.filterMap (·.luks)) := by
  obtain ⟨pmap, gs, hl, hg, hplaced⟩ := placed_of_loaded h
  rw [provisionMap_eq (parsePMAPv1_ok_iff.1 hl.header.map).1]
  have hread := luksRead_of_creates (creates_reach hl.reached)
  rw [← filterMap_luks_numberGroups hg 0] at hread
  rw [filterMap_luks_of_placed hplaced, List.forall₂_map_right_iff]
  refine hread.imp fun node k hk => ⟨?_, hk.object⟩
  exact ⟨hk.checked.cipher, hk.checked.hash, hk.checked.mname, hk.checked.version,
    hk.checked.headerSizeBytes⟩

end RpiFastbootd
