import RpiFastbootd.Idp.Accept
import RpiFastbootd.Idp.SizeText

/-!
# The partition list of an accepted description

The visited partitions become a list in which a position is the visit, the order and the index at
once, so that the parent of an element is an earlier root container (`Forest`).  `walkTree` then
numbers the roots, and the children of each container, in list order (`walkTree_spec`), and leaves
everything else of a partition alone.
-/

namespace RpiFastbootd

/-- A list of partitions as a two-level forest: an element is a root or refers to an earlier root,
which is a container. -/
structure Forest (l : List IDPpartition) : Prop where
  index : ∀ (i : ℕ) (p : IDPpartition), l[i]? = some p → p.index = i
  parent : ∀ (i : ℕ) (p : IDPpartition), l[i]? = some p → p.parentIndex = -1 ∨
    ∃ (j : ℕ) (c : IDPpartition), j < i ∧ p.parentIndex = j ∧ l[j]? = some c ∧
      c.isCryptContainer ∧ c.parentIndex = -1
  container : ∀ p ∈ l, p.isCryptContainer → p.parentIndex = -1

/-! ### From the visits to the list -/

/-- The position of the partition with a given order. -/
def parentPos : Option ℕ → ℤ
  | some q => (q : ℤ) - 1
  | none => -1

/-- The element of a visit in the list. -/
def place (p : Partition) (body : IDPpartition) : IDPpartition :=
  { body with index := (p.order : ℤ) - 1, parentIndex := parentPos p.parent }

/-- The element `e` of the list describes the visited partition `p`. -/
def Describes (root : Json) (image : IDPimage) (p : Partition) (e : IDPpartition) : Prop :=
  ∃ body, partitionBody root image p = .ok body ∧ e = place p body

/-- Orders run on from `n`, and a parent has been visited before its child. -/
structure Numbered (n : ℕ) (ps : List Partition) : Prop where
  order : ∀ (k : ℕ) (p : Partition), ps[k]? = some p → p.order = n + k + 1
  parent : ∀ (k q : ℕ) (p : Partition), ps[k]? = some p → p.parent = some q → 1 ≤ q ∧ q ≤ n + k

theorem numbered_numberGroups (gs : List Group) : Numbered 0 (numberGroups 0 gs) where
  order k p h := order_numberGroups h
  parent k q p h hq := by
    obtain ⟨j, hj, rfl, -⟩ := parent_numberGroups h hq
    omega

theorem Numbered.tail {n : ℕ} {p : Partition} {ps : List Partition} (h : Numbered n (p :: ps)) :
    Numbered (n + 1) ps where
  order k q hk := by
    have := h.order (k + 1) q hk
    omega
  parent k q r hk hq := by
    have := h.parent (k + 1) q r hk hq
    omega

/-- The orders visited so far are the positions of the list, shifted by one. -/
structure Indexed (st : Collected) : Prop where
  lookup : ∀ q, 1 ≤ q → q ≤ st.partitions.length → st.p2i.lookup q = some ((q : ℤ) - 1)

theorem visitAll_addPartition {root : Json} {image : IDPimage} {ps : List Partition}
    {st st' : Collected} (hi : Indexed st) (hn : Numbered st.partitions.length ps)
    (h : visitAll (addPartition root image) ps st = .ok st') :
    ∃ out, List.Forall₂ (Describes root image) ps out ∧ st'.partitions = st.partitions ++ out := by
  induction ps generalizing st with
  | nil =>
    cases h
    exact ⟨[], .nil, by simp⟩
  | cons p ps ih =>
    simp only [visitAll, bind_eq_ok_iff, leaving_eq_ok_iff] at h
    obtain ⟨mid, hp, hps⟩ := h
    simp only [addPartition, bind_eq_ok_iff, pure_eq_ok_iff] at hp
    obtain ⟨body, hb, rfl⟩ := hp
    have ho : p.order = st.partitions.length + 1 := by simpa using hn.order 0 p rfl
    have hpar : st.indexOf p.parent = parentPos p.parent := by
      cases hq : p.parent with
      | none => rfl
      | some q =>
        have := hn.parent 0 q p rfl hq
        simp [Collected.indexOf, parentPos, hi.lookup q this.1 (by omega)]
    have hplace : { body with
        index := (st.partitions.length : ℤ), parentIndex := st.indexOf p.parent } =
        place p body := by
      rw [hpar, place, ho]
      simp
    rw [hplace] at hps
    have hi' : Indexed ⟨st.partitions ++ [place p body],
        (p.order, (st.partitions.length : ℤ)) :: st.p2i⟩ := by
      refine ⟨fun q h1 h2 => ?_⟩
      simp only [List.length_append, List.length_singleton] at h2
      rw [List.lookup_cons]
      by_cases hq : q = p.order
      · rw [hq, beq_self_eq_true, ho]
        simp
      · rw [beq_false_of_ne hq]
        exact hi.lookup q h1 (by omega)
    obtain ⟨out, hout, heq⟩ := ih hi' (by simpa using hn.tail) hps
    refine ⟨place p body :: out, .cons ⟨body, hb, rfl⟩ hout, ?_⟩
    simpa using heq

/-- The list of a description before its tree is numbered. -/
theorem describes_of_loads {root : Json} {image : IDPimage} {gs : List Group} {st : Collected}
    (h : visitAll (addPartition root image) (numberGroups 0 gs) {} = .ok st) :
    List.Forall₂ (Describes root image) (numberGroups 0 gs) st.partitions := by
  have hi : Indexed {} := ⟨fun q h1 h2 => by simp at h2; omega⟩
  obtain ⟨out, hout, heq⟩ := visitAll_addPartition hi (numbered_numberGroups gs) h
  simpa [heq] using hout

/-! ### What a body carries over -/

/-- A container keeps its LUKS parameters up to alignment and sector size and has no image; any
other partition has an image, with its size rounded up to the alignment. -/
theorem partitionBody_ok {root : Json} {image : IDPimage} {p : Partition} {body : IDPpartition}
    (h : partitionBody root image p = .ok body) :
    body.num = 0 ∧ body.blkdev = none ∧
    ((∃ l, p.luks = some l ∧ body.img = none ∧ body.luks = some { l with
        pAlignmentBytes := image.deviceStorage.ptableAlign
        sectorSize := image.deviceStorage.sectorSize }) ∨
      p.luks = none ∧ body.luks = none ∧ body.img.isSome ∧ body.simg.isSome ∧
        body.typecode.isSome ∧
        image.deviceStorage.alignUp body.size = .ok body.alignedSize) := by
  cases hl : p.luks with
  | some l =>
    simp only [partitionBody, Partition.isCryptContainer, hl, Option.isSome_some, if_true,
      pure_bind] at h
    split_ifs at h
    · exact (refuse_ne_ok h).elim
    · obtain rfl := pure_eq_ok_iff.1 h
      exact ⟨rfl, rfl, .inl ⟨l, rfl, rfl, rfl⟩⟩
  | none =>
    simp only [partitionBody, Partition.isCryptContainer, hl, Option.isSome_none, Bool.false_eq_true,
      if_false, bind_eq_ok_iff, map_eq_ok_iff] at h
    obtain ⟨_, ⟨a, -, rfl⟩, h⟩ := h
    split_ifs at h
    · exact (refuse_ne_ok h).elim
    · simp only [bind_eq_ok_iff, raises_eq_ok_iff, pure_eq_ok_iff] at h
      obtain ⟨n, hn, rfl⟩ := h
      exact ⟨rfl, rfl, .inr ⟨rfl, rfl, rfl, rfl, rfl, hn⟩⟩

theorem getElem?_of_forall₂ {α β : Type} {R : α → β → Prop} {as : List α} {bs : List β}
    (h : List.Forall₂ R as bs) {i : ℕ} {b : β} (hb : bs[i]? = some b) :
    ∃ a, as[i]? = some a ∧ R a b := by
  induction h generalizing i with
  | nil => simp at hb
  | @cons x y _ _ hr _ ih =>
    cases i with
    | zero =>
      obtain rfl : y = b := by simpa using hb
      exact ⟨x, rfl, hr⟩
    | succ i => exact ih hb

theorem getElem?_of_forall₂_left {α β : Type} {R : α → β → Prop} {as : List α} {bs : List β}
    (h : List.Forall₂ R as bs) {i : ℕ} {a : α} (ha : as[i]? = some a) :
    ∃ b, bs[i]? = some b ∧ R a b := getElem?_of_forall₂ h.flip ha

theorem isCryptContainer_of_describes {root : Json} {image : IDPimage} {p : Partition}
    {e : IDPpartition} (h : Describes root image p e) :
    e.isCryptContainer = p.isCryptContainer := by
  obtain ⟨body, hb, rfl⟩ := h
  rcases (partitionBody_ok hb).2.2 with ⟨l, hl, -, hl'⟩ | ⟨hl, hl', -⟩ <;>
    simp [place, IDPpartition.isCryptContainer, Partition.isCryptContainer, hl, hl']

theorem forest_of_describes {root : Json} {image : IDPimage} {gs : List Group}
    {l : List IDPpartition} (hg : ∀ g ∈ gs, g.Proper)
    (h : List.Forall₂ (Describes root image) (numberGroups 0 gs) l) : Forest l where
  index i e hi := by
    obtain ⟨p, hp, body, -, rfl⟩ := getElem?_of_forall₂ h hi
    simp [place, order_numberGroups hp]
  parent i e hi := by
    obtain ⟨p, hp, body, -, rfl⟩ := getElem?_of_forall₂ h hi
    cases hq : p.parent with
    | none => exact .inl (by simp [place, parentPos, hq])
    | some q =>
      obtain ⟨j, hj, rfl, g, hgs, hne, hget⟩ := parent_numberGroups hp hq
      obtain ⟨c, hc, hdesc⟩ := getElem?_of_forall₂_left h hget
      refine .inr ⟨j, c, hj, by simp [place, parentPos, hq], hc, ?_, ?_⟩
      · rw [isCryptContainer_of_describes hdesc]
        exact (hg g hgs).head hne
      · obtain ⟨b, -, rfl⟩ := hdesc
        rfl
  container e he hc := by
    obtain ⟨i, hi⟩ := List.getElem?_of_mem he
    obtain ⟨p, hp, hdesc⟩ := getElem?_of_forall₂ h hi
    rw [isCryptContainer_of_describes hdesc] at hc
    obtain ⟨body, -, rfl⟩ := hdesc
    by_contra hne
    have hpar : p.parent ≠ none := by
      intro hn
      simp [place, parentPos, hn] at hne
    simp [Partition.isCryptContainer, luks_numberGroups hg (List.mem_of_getElem? hp) hpar] at hc

/-! ### Numbering the tree -/

/-- The parents of a list, position by position. -/
abbrev parents (l : List IDPpartition) : List ℤ := l.map (·.parentIndex)

/-- The number of an element among those with its parent. -/
def numberAt (l : List IDPpartition) (i : ℕ) (p : IDPpartition) : ℕ :=
  ((parents l).take i).count p.parentIndex + 1

/-- The partition has a type code to be created with. -/
def IDPpartition.Coded (p : IDPpartition) : Prop := ∃ code, p.typecode = some code ∧ code ≠ ""

/-- Numbering changes the number, and the table attributes of a container. -/
structure Renumbered (p p' : IDPpartition) : Prop where
  eq : p' = { p with num := p'.num, typecode := p'.typecode, gptlabel := p'.gptlabel }
  plain : p.luks = none → p'.typecode = p.typecode ∧ p'.gptlabel = p.gptlabel

theorem Renumbered.refl (p : IDPpartition) : Renumbered p p := ⟨rfl, fun _ => ⟨rfl, rfl⟩⟩

theorem Renumbered.setNum {p p' : IDPpartition} (h : Renumbered p p') (n : ℕ) :
    Renumbered p { p' with num := n } := by
  refine ⟨?_, h.plain⟩
  rw [h.eq]

theorem getElem?_numberChildren (q : ℤ) (n : ℕ) (l : List IDPpartition) (i : ℕ) :
    (numberChildren q n l)[i]? = l[i]?.map fun p =>
      if p.parentIndex = q then { p with num := n + ((parents l).take i).count q } else p := by
  induction l generalizing n i with
  | nil => simp [numberChildren]
  | cons x l ih =>
    rw [numberChildren]
    split_ifs with hx
    · cases i with
      | zero => simp [hx]
      | succ i =>
        rw [List.getElem?_cons_succ, ih, List.getElem?_cons_succ]
        simp [hx, Nat.add_assoc, Nat.add_comm 1]
    · cases i with
      | zero => simp [hx]
      | succ i =>
        rw [List.getElem?_cons_succ, ih, List.getElem?_cons_succ]
        simp [hx]

theorem parents_numberChildren (q : ℤ) (n : ℕ) (l : List IDPpartition) :
    parents (numberChildren q n l) = parents l := by
  induction l generalizing n with
  | nil => rfl
  | cons x l ih =>
    rw [numberChildren]
    split_ifs <;> simp [ih]

theorem labelContainer_renumbered {ptable : IDPptableType} {st : TreeState} {p p' : IDPpartition}
    (h : Renumbered p p') : Renumbered p (labelContainer ptable st p').2 ∧
      (labelContainer ptable st p').2.num = p'.num ∧
      (p.luks.isSome → (labelContainer ptable st p').2.Coded) := by
  have hl : p'.luks = p.luks := by rw [h.eq]
  unfold labelContainer
  split
  · rename_i heq
    exact ⟨h, rfl, fun hs => by simp [← hl, heq] at hs⟩
  · rename_i luks heq
    have hne : p.luks ≠ none := by rw [← hl, heq]; simp
    split
    · exact ⟨⟨by rw [h.eq], fun hn => (hne hn).elim⟩, rfl, fun _ => ⟨_, rfl, by decide⟩⟩
    · exact ⟨⟨by rw [h.eq], fun hn => (hne hn).elim⟩, rfl, fun _ => ⟨_, rfl, by decide⟩⟩
  · rename_i luks heq
    have hne : p.luks ≠ none := by rw [← hl, heq]; simp
    exact ⟨⟨by rw [h.eq], fun hn => (hne hn).elim⟩, rfl, fun _ => ⟨_, rfl, by decide⟩⟩

/-- The state of the numbering of `l` after its first `k` elements: the roots among these, and the
children of these, have their numbers, and the containers among these a type code. -/
structure TreeInv (l : List IDPpartition) (k : ℕ) (st : TreeState) : Prop where
  parents : parents st.partitions = parents l
  rootNum : st.rootNum = ((RpiFastbootd.parents l).take k).count (-1) + 1
  elem : ∀ (i : ℕ) (p : IDPpartition), l[i]? = some p →
    ∃ p', st.partitions[i]? = some p' ∧ Renumbered p p' ∧
      (p.parentIndex = -1 ∧ i < k ∨ (∃ j < k, p.parentIndex = (j : ℤ)) →
        p'.num = numberAt l i p) ∧
      (p.isCryptContainer → i < k → p'.Coded)

theorem count_take_succ {l : List IDPpartition} {k : ℕ} {p : IDPpartition} (h : l[k]? = some p)
    (q : ℤ) : ((parents l).take (k + 1)).count q =
      ((parents l).take k).count q + if p.parentIndex = q then 1 else 0 := by
  rw [List.take_add_one, List.count_append]
  simp [h, List.count_singleton]

theorem walkTreeStep_inv {l : List IDPpartition} (hf : Forest l) {ptable : IDPptableType} {k : ℕ}
    (hk : k < l.length) {st : TreeState} (h : TreeInv l k st) :
    TreeInv l (k + 1) (walkTreeStep ptable st k) := by
  obtain ⟨part, hpart⟩ : ∃ part, l[k]? = some part := ⟨l[k], by simp [hk]⟩
  obtain ⟨part', hget, hren, -, -⟩ := h.elem k part hpart
  have hpi : part'.parentIndex = part.parentIndex := by rw [hren.eq]
  have hidx : part'.index = k := by
    rw [← hf.index k part hpart, hren.eq]
  rw [walkTreeStep, hget]
  dsimp only
  by_cases hroot : part.parentIndex = -1
  · rw [if_pos (hpi.trans hroot)]
    obtain ⟨hlab, hnumk, hcode⟩ :=
      @labelContainer_renumbered ptable st _ _ (hren.setNum st.rootNum)
    generalize (labelContainer ptable st { part' with num := st.rootNum }).1 = cryptNum
    generalize (labelContainer ptable st { part' with num := st.rootNum }).2 = root
      at hlab hnumk hcode ⊢
    have hri : root.index = k := by rw [← hf.index k part hpart, hlab.eq]
    have hrp : root.parentIndex = -1 := by rw [← hroot, hlab.eq]
    have hpar : parents (st.partitions.set k root) = parents l := by
      have hv : (parents l)[k]? = some (-1) := by simp [hpart, hroot]
      obtain ⟨hlt, hv⟩ := List.getElem?_eq_some_iff.1 hv
      rw [parents, List.map_set, ← parents, h.parents, hrp, ← hv, List.set_getElem_self]
    refine ⟨by rw [parents_numberChildren, hpar], ?_, fun i p hi => ?_⟩
    · rw [h.rootNum, count_take_succ hpart, if_pos hroot]
    rw [getElem?_numberChildren, hri, hpar]
    by_cases hik : k = i
    · subst hik
      obtain rfl : part = p := by simpa [hpart] using hi
      refine ⟨root, ?_, hlab, fun _ => ?_, fun hc _ => hcode hc⟩
      · have hlen : k < st.partitions.length := (List.getElem?_eq_some_iff.1 hget).1
        have hne : ¬ root.parentIndex = (k : ℤ) := by omega
        simp [hlen, hne]
      · rw [hnumk, h.rootNum, numberAt, hroot]
    · obtain ⟨p', hp', hr, hnum, hcode'⟩ := h.elem i p hi
      have hpp : p'.parentIndex = p.parentIndex := by rw [hr.eq]
      have hcode' (hc : p.isCryptContainer) (hlt : i < k + 1) : p'.Coded :=
        hcode' hc (lt_of_le_of_ne (Nat.lt_succ_iff.1 hlt) (Ne.symm hik))
      rw [List.getElem?_set_ne hik, hp', Option.map_some]
      by_cases hchild : p.parentIndex = (k : ℤ)
      · rw [if_pos (hpp.trans hchild)]
        refine ⟨_, rfl, hr.setNum _, fun _ => ?_, hcode'⟩
        simp [numberAt, hchild, Nat.add_comm]
      · rw [if_neg (hpp.symm ▸ hchild)]
        refine ⟨p', rfl, hr, fun hdone => hnum ?_, hcode'⟩
        rcases hdone with ⟨hp, hlt⟩ | ⟨j, hj, hp⟩
        · exact .inl ⟨hp, by omega⟩
        · refine .inr ⟨j, lt_of_le_of_ne (Nat.lt_succ_iff.1 hj) ?_, hp⟩
          rintro rfl
          exact hchild hp
  · rw [if_neg (hpi.symm ▸ hroot)]
    -- a child is passed over: its parent came before it
    refine ⟨h.parents, ?_, fun i p hi => ?_⟩
    · rw [h.rootNum, count_take_succ hpart, if_neg hroot, Nat.add_zero]
    · obtain ⟨p', hp', hr, hnum, hcode⟩ := h.elem i p hi
      refine ⟨p', hp', hr, fun hdone => hnum ?_, fun hc hlt => hcode hc ?_⟩
      · rcases hdone with ⟨hp, hlt⟩ | ⟨j, hj, hp⟩
        · refine .inl ⟨hp, lt_of_le_of_ne (Nat.lt_succ_iff.1 hlt) ?_⟩
          rintro rfl
          rw [hpart] at hi
          cases hi
          exact hroot hp
        · refine .inr ⟨j, lt_of_le_of_ne (Nat.lt_succ_iff.1 hj) ?_, hp⟩
          rintro rfl
          rcases hf.parent i p hi with hn | ⟨m, c, -, hm, hc, -, hcr⟩
          · omega
          · obtain rfl : j = m := by omega
            rw [hpart] at hc
            cases hc
            exact hroot hcr
      · refine lt_of_le_of_ne (Nat.lt_succ_iff.1 hlt) ?_
        rintro rfl
        rw [hpart] at hi
        cases hi
        exact hroot (hf.container part (List.mem_of_getElem? hpart) hc)

theorem walkTree_inv {l : List IDPpartition} (hf : Forest l) (ptable : IDPptableType) :
    TreeInv l l.length
      ((List.range l.length).foldl (walkTreeStep ptable) { partitions := l }) := by
  have hinv : ∀ k ≤ l.length,
      TreeInv l k ((List.range k).foldl (walkTreeStep ptable) { partitions := l }) := by
    intro k
    induction k with
    | zero =>
      intro _
      refine ⟨rfl, rfl, fun i p hi => ⟨p, hi, .refl p, ?_, fun _ hlt => by omega⟩⟩
      rintro (⟨-, hlt⟩ | ⟨j, hlt, -⟩) <;> omega
    | succ k ih =>
      intro hk
      rw [List.range_succ, List.foldl_append]
      exact walkTreeStep_inv hf (by omega) (ih (by omega))
  exact hinv l.length le_rfl

theorem parents_walkTree {l : List IDPpartition} (hf : Forest l) (ptable : IDPptableType) :
    parents (walkTree ptable l) = parents l := (walkTree_inv hf ptable).parents

/-- After the walk every root and every child has its number in list order, and nothing else of a
partition has changed but the table attributes of the containers. -/
theorem walkTree_spec {l : List IDPpartition} (hf : Forest l) (ptable : IDPptableType) {i : ℕ}
    {p : IDPpartition} (h : l[i]? = some p) :
    ∃ p', (walkTree ptable l)[i]? = some p' ∧ Renumbered p p' ∧ p'.num = numberAt l i p ∧
      (p.isCryptContainer → p'.Coded) := by
  obtain ⟨p', hp', hr, hnum, hcode⟩ := (walkTree_inv hf ptable).elem i p h
  have hi : i < l.length := (List.getElem?_eq_some_iff.1 h).1
  refine ⟨p', hp', hr, hnum ?_, fun hc => hcode hc hi⟩
  rcases hf.parent i p h with hroot | ⟨j, c, hj, hp, -⟩
  · exact .inl ⟨hroot, hi⟩
  · exact .inr ⟨j, by omega, hp⟩

/-! ### The list of an accepted description -/

/-- What is known of the partitions an accepted description is loaded into. -/
structure Layout (image : IDPimage) (l : List IDPpartition) : Prop where
  forest : Forest l
  num : ∀ (i : ℕ) (p : IDPpartition), l[i]? = some p → p.num = numberAt l i p
  luks : ∀ p ∈ l, ∀ k, p.luks = some k → k.Checked ∧
    k.pAlignmentBytes = image.deviceStorage.ptableAlign ∧ p.img = none
  plain : ∀ p ∈ l, p.luks = none → p.img.isSome ∧ p.simg.isSome ∧
    image.deviceStorage.alignUp p.size = .ok p.alignedSize
  typecode : ∀ p ∈ l, p.typecode.isSome
  blkdev : ∀ p ∈ l, p.blkdev = none
  align : image.deviceStorage.ptableAlign < 2 ^ 64

theorem mem_walkTree {l : List IDPpartition} (hf : Forest l) {ptable : IDPptableType} {i : ℕ}
    {p' : IDPpartition} (h : (walkTree ptable l)[i]? = some p') :
    ∃ p, l[i]? = some p ∧ Renumbered p p' ∧ p'.num = numberAt l i p ∧
      (p.isCryptContainer → p'.Coded) := by
  have hlen : (walkTree ptable l).length = l.length := by
    simpa using congrArg List.length (parents_walkTree hf ptable)
  have hi : i < l.length := hlen ▸ (List.getElem?_eq_some_iff.1 h).1
  obtain ⟨q, hq, hr, hn, hcode⟩ := walkTree_spec hf ptable (List.getElem?_eq_getElem hi)
  obtain rfl : q = p' := by simpa [h] using hq.symm
  exact ⟨l[i], List.getElem?_eq_getElem hi, hr, hn, hcode⟩

theorem forest_walkTree {l : List IDPpartition} (hf : Forest l) (ptable : IDPptableType) :
    Forest (walkTree ptable l) where
  index i p' h := by
    obtain ⟨p, hp, hr, -, -⟩ := mem_walkTree hf h
    rw [hr.eq]
    exact hf.index i p hp
  parent i p' h := by
    obtain ⟨p, hp, hr, -, -⟩ := mem_walkTree hf h
    have he : p'.parentIndex = p.parentIndex := by rw [hr.eq]
    rw [he]
    refine (hf.parent i p hp).imp_right ?_
    rintro ⟨j, c, hj, hpj, hc, hcc, hcr⟩
    obtain ⟨c', hc', hrc, -, -⟩ := walkTree_spec hf ptable hc
    exact ⟨j, c', hj, hpj, hc', by rw [hrc.eq]; exact hcc, by rw [hrc.eq]; exact hcr⟩
  container p' h hc := by
    obtain ⟨i, hi⟩ := List.getElem?_of_mem h
    obtain ⟨p, hp, hr, -, -⟩ := mem_walkTree hf hi
    rw [hr.eq] at hc ⊢
    exact hf.container p (List.mem_of_getElem? hp) hc

/-- The element `e` of a loaded list comes from the visited partition `q`. -/
structure Placed (root : Json) (image : IDPimage) (q : Partition) (e : IDPpartition) : Prop where
  body : ∃ body, partitionBody root image q = .ok body ∧ Renumbered (place q body) e
  typecode : e.isCryptContainer → e.Coded

theorem forall₂_of_getElem? {α β : Type} {R : α → β → Prop} {as : List α} {bs : List β}
    (hlen : as.length = bs.length)
    (h : ∀ (i : ℕ) (a : α) (b : β), as[i]? = some a → bs[i]? = some b → R a b) :
    List.Forall₂ R as bs := by
  rw [List.forall₂_iff_get]
  refine ⟨hlen, fun i ha hb => h i _ _ ?_ ?_⟩
  · exact List.getElem?_eq_getElem ha
  · exact List.getElem?_eq_getElem hb

/-- A loaded list is that of the visited partitions, one by one. -/
theorem placed_of_loaded {root : Json} {image : IDPimage} {l : List IDPpartition}
    (h : Loaded root image l) : ∃ pmap gs, Loads root image pmap gs ∧ (∀ g ∈ gs, g.Proper) ∧
      List.Forall₂ (Placed root image) (numberGroups 0 gs) l := by
  obtain ⟨pmap, gs, st, hl, hst, rfl⟩ := h
  have hg := proper_reach hl.reached
  have hd := describes_of_loads hst
  have hf := forest_of_describes hg hd
  refine ⟨pmap, gs, hl, hg, forall₂_of_getElem? ?_ fun i q e hq he => ?_⟩
  · rw [hd.length_eq]
    simpa using (congrArg List.length (parents_walkTree hf image.deviceStorage.ptableType)).symm
  · obtain ⟨p, hp, hr, -, hcode⟩ := mem_walkTree hf he
    obtain ⟨q', hq', body, hb, rfl⟩ := getElem?_of_forall₂ hd hp
    obtain rfl : q = q' := Option.some.inj (hq.symm.trans hq')
    refine ⟨⟨body, hb, hr⟩, fun hc => hcode ?_⟩
    rw [hr.eq] at hc
    exact hc

theorem layout_of_loaded {root : Json} {image : IDPimage} {l : List IDPpartition}
    (h : Loaded root image l) : Layout image l := by
  obtain ⟨_, gs, -, hg, hplaced⟩ := placed_of_loaded h
  -- an element of the list is a renumbered description of a visited partition
  have helem {e : IDPpartition} (he : e ∈ l) :
      ∃ q ∈ numberGroups 0 gs, Placed root image q e := by
    obtain ⟨i, hi⟩ := List.getElem?_of_mem he
    obtain ⟨q, hq, hqe⟩ := getElem?_of_forall₂ hplaced hi
    exact ⟨q, List.mem_of_getElem? hq, hqe⟩
  obtain ⟨pmap, gs', st, hl, hst, rfl⟩ := h
  have hf := forest_of_describes (proper_reach hl.reached) (describes_of_loads hst)
  obtain ⟨_, _, -, -, -, -, halign⟩ := hl.header.attributes.read
  refine ⟨forest_walkTree hf _, fun i p' hi => ?_, fun p' hp k hk => ?_, fun p' hp hk => ?_,
    fun p' hp => ?_, fun p' hp => ?_, fromGIsz_lt halign⟩
  · obtain ⟨p, hp, hr, hn, -⟩ := mem_walkTree hf hi
    have he : p'.parentIndex = p.parentIndex := by rw [hr.eq]
    rw [hn, numberAt, numberAt, parents_walkTree hf, he]
  · obtain ⟨q, hq, ⟨body, hb, hr⟩, -⟩ := helem hp
    have hbk : body.luks = some k := by rw [← hk, hr.eq]; rfl
    rcases (partitionBody_ok hb).2.2 with ⟨m, hm, himg, hm'⟩ | ⟨-, hn, -⟩
    · obtain rfl := Option.some.inj (hm'.symm.trans hbk)
      have hc := checked_numberGroups hg hq hm
      refine ⟨⟨hc.cipher, hc.hash, hc.mname, hc.version, hc.headerSizeBytes⟩, rfl, ?_⟩
      rw [hr.eq]
      exact himg
    · rw [hn] at hbk
      cases hbk
  · obtain ⟨q, hq, ⟨body, hb, hr⟩, -⟩ := helem hp
    have hbk : body.luks = none := by rw [← hk, hr.eq]; rfl
    rcases (partitionBody_ok hb).2.2 with ⟨m, -, -, hm'⟩ | ⟨-, -, himg, hsimg, -, ha⟩
    · rw [hm'] at hbk
      cases hbk
    · rw [hr.eq]
      exact ⟨himg, hsimg, ha⟩
  · obtain ⟨q, -, ⟨body, hb, hr⟩, hcode⟩ := helem hp
    rcases (partitionBody_ok hb).2.2 with ⟨m, -, -, hm⟩ | ⟨-, hn, -, -, hc, -⟩
    · have hc : p'.isCryptContainer := by
        rw [hr.eq]
        simp [place, IDPpartition.isCryptContainer, hm]
      obtain ⟨code, hcode, -⟩ := hcode hc
      exact Option.isSome_of_eq_some hcode
    · rw [(hr.plain hn).1]
      exact hc
  · obtain ⟨q, -, ⟨body, hb, hr⟩, -⟩ := helem hp
    rw [hr.eq]
    exact (partitionBody_ok hb).2.1

end RpiFastbootd
