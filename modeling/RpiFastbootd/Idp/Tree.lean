import RpiFastbootd.Idp.Provision

/-!
# The partition tree

The three readers of the parent links agree on an accepted description: a partition is encrypted
when it has a parent, and has children when it is the parent of some partition.  The partitions of
one table, the roots or the children of a container, are numbered from one in list order, which is
the order in which the writer appends them (`partition_tree_sound`).
-/

namespace RpiFastbootd

/-- The root partitions, in list order. -/
def roots (l : List IDPpartition) : List IDPpartition := l.filter fun p => p.parentIndex == -1

/-- The partition that a step appends to the table `t`. -/
def appendedTo (l : List IDPpartition) (t : Table) : Step → Option IDPpartition
  | .appendPartition t' i _ => if t' = t then l[i]? else none
  | _ => none

section

variable {image : IDPimage} {l : List IDPpartition}

/-! ### The parent links -/

theorem isEncrypted_iff (h : Layout image l) {p : IDPpartition} (hp : p ∈ l) :
    p.isEncrypted l ↔ p.parentIndex ≠ -1 := by
  obtain ⟨i, hi⟩ := List.getElem?_of_mem hp
  rcases h.forest.parent i p hi with hroot | ⟨j, c, hj, hpj, hc, hcc, -⟩
  · rw [IDPpartition.isEncrypted, if_pos (Or.inl (by omega))]
    simp [hroot]
  · have hlen : j < l.length := (List.getElem?_eq_some_iff.1 hc).1
    rw [IDPpartition.isEncrypted, if_neg (by omega), hpj, Int.toNat_natCast, hc]
    simp only [hcc, true_iff]
    omega

theorem mem_children_iff {c p : IDPpartition} :
    p ∈ c.children l ↔ p ∈ l ∧ p.parentIndex = c.index := by
  rw [IDPpartition.children, List.mem_filter, beq_iff_eq]

theorem hasChildren_iff {c : IDPpartition} : c.hasChildren l ↔ c.children l ≠ [] := by
  rw [IDPpartition.hasChildren, IDPpartition.children, List.any_eq_true, ne_eq,
    List.filter_eq_nil_iff]
  simp

theorem container_of_child (h : Layout image l) {c p : IDPpartition} (hc : c ∈ l)
    (hp : p ∈ c.children l) : c.isCryptContainer := by
  by_contra hn
  rw [children_of_plain h hc (by simpa [IDPpartition.isCryptContainer] using hn)] at hp
  cases hp

theorem childOf_iff (h : Layout image l) {c p : IDPpartition} (hc : c ∈ l) (hp : p ∈ l) :
    childOf l c p ↔ p ∈ c.children l := by
  obtain ⟨i, hi⟩ := List.getElem?_of_mem hc
  have hindex := h.forest.index i c hi
  rw [childOf, Bool.and_eq_true, beq_iff_eq, mem_children_iff, isEncrypted_iff h hp]
  constructor
  · rintro ⟨hpar, -⟩
    exact ⟨hp, hpar⟩
  · rintro ⟨-, hpar⟩
    exact ⟨hpar, by omega⟩

/-! ### The recursion of `getSize` -/

/-- Two levels are all there are: a larger depth computes the same. -/
theorem getSizeAux_depth (h : Layout image l) {p : IDPpartition} (hp : p ∈ l) (aligned : Bool)
    (depth : ℕ) : IDPpartition.getSizeAux aligned l (depth + 2) p =
      IDPpartition.getSizeAux aligned l 2 p := by
  have hbody : ∀ (kids : List IDPpartition), (∀ child ∈ kids, child ∈ p.children l) →
      ∀ own : ℕ,
      kids.foldlM (fun total child => do
        return wrap (total + (← IDPpartition.getSizeAux aligned l (depth + 1) child))) own =
      kids.foldlM (fun total child => do
        return wrap (total + (← IDPpartition.getSizeAux aligned l 1 child))) own := by
    intro kids hkids
    induction kids with
    | nil => exact fun _ => rfl
    | cons child kids ih =>
      intro own
      rw [List.forall_mem_cons] at hkids
      obtain ⟨hmem, hn⟩ := luks_of_child h hp hkids.1
      rw [List.foldlM_cons, List.foldlM_cons, getSizeAux_leaf h hmem hn,
        getSizeAux_leaf h hmem hn aligned 0]
      congr 1
      funext total
      exact ih hkids.2 total
  rw [IDPpartition.getSizeAux, IDPpartition.getSizeAux]
  congr 1
  funext own
  exact hbody _ (fun _ hc => hc) own

/-- Past its header a size is always computed. -/
theorem getSize_isSome (h : Layout image l) {p : IDPpartition} (hp : p ∈ l) (aligned : Bool)
    (hheader : ∀ k, p.luks = some k → k.headerSize ≠ none) :
    (p.getSize aligned l).isSome := by
  have hown : ∃ own, p.ownSize aligned = some own := by
    cases hl : p.luks with
    | none => simp [IDPpartition.ownSize, hl]
    | some k =>
      obtain ⟨n, hn⟩ := Option.ne_none_iff_exists'.1 (hheader k hl)
      rw [IDPpartition.ownSize, hl]
      cases he : k.etype <;> simp [hn, he]
  obtain ⟨own, hown⟩ := hown
  obtain ⟨n, hlen⟩ : ∃ n, l.length = n + 1 :=
    ⟨l.length - 1, by have := List.length_pos_of_mem hp; omega⟩
  rw [IDPpartition.getSize, IDPpartition.getSizeAux, hown, hlen]
  have hchild : ∀ child ∈ p.children l,
      (IDPpartition.getSizeAux aligned l (n + 1) child).isSome := by
    intro child hc
    obtain ⟨hmem, hn⟩ := luks_of_child h hp hc
    rw [getSizeAux_leaf h hmem hn, IDPpartition.ownSize, hn]
    rfl
  obtain ⟨total, htotal⟩ := foldlM_isSome hchild own
  exact Option.isSome_of_eq_some htotal

/-! ### The numbers -/

/-- Elements numbered by the count of those before them with the same parent are numbered in
order. -/
theorem nums_of_parent {q : ℤ} {l : List IDPpartition} {n : ℕ}
    (h : ∀ (i : ℕ) (p : IDPpartition), l[i]? = some p → p.parentIndex = q →
      p.num = n + ((parents l).take i).count q) :
    (l.filter fun p => p.parentIndex == q).map (·.num) =
      List.range' n (l.filter fun p => p.parentIndex == q).length := by
  induction l generalizing n with
  | nil => rfl
  | cons x l ih =>
    by_cases hx : x.parentIndex = q
    · have hnum : x.num = n := by simpa using h 0 x rfl hx
      have hrest := @ih (n + 1) fun i p hi hp => by
        rw [h (i + 1) p hi hp]
        simp [hx, Nat.add_assoc, Nat.add_comm 1]
      rw [List.filter_cons_of_pos (by simp [hx]), List.map_cons, hrest, hnum, List.length_cons,
        List.range'_succ]
    · have hrest := @ih n fun i p hi hp => by
        rw [h (i + 1) p hi hp]
        simp [hx]
      rw [List.filter_cons_of_neg (by simp [hx]), hrest]

/-- The members of a table are numbered from one. -/
theorem nums_eq (h : Layout image l) (q : ℤ) :
    (l.filter fun p => p.parentIndex == q).map (·.num) =
      List.range' 1 (l.filter fun p => p.parentIndex == q).length := by
  apply nums_of_parent
  intro i p hi hp
  rw [h.num i p hi, numberAt, hp, Nat.add_comm]

/-! ### The order of the writer -/

theorem reports_failWith (reason : String) : Reports (failWith reason) := by
  rintro j ok j' h
  cases h
  exact ⟨rfl, rfl⟩

variable {env : Step → Bool}

theorem inOrder_appendRoot {x : IDPpartition × ℕ} (hx : x ∈ l.zipIdx) :
    InOrder (appendedTo l .disk) ([x.1].filter fun p => p.parentIndex == -1)
      (appendRoot env image l x) := by
  obtain ⟨part, i⟩ := x
  have hi : l[i]? = some part := List.mem_zipIdx_iff_getElem?.1 hx
  rw [appendRoot]
  dsimp only
  by_cases hroot : part.parentIndex = -1
  · rw [if_pos hroot, List.filter_cons_of_pos (by simp [hroot]), List.filter_nil]
    refine InOrder.require fun attrs _ => ?_
    have hstep := @inOrder_perform _ WriterState _ env (appendedTo l .disk)
      (.appendPartition .disk i attrs)
    have hsel : appendedTo l .disk (.appendPartition .disk i attrs) = some part := by
      rw [appendedTo, if_pos rfl, hi]
    rw [hsel] at hstep
    exact hstep.check (inOrder_pure true) (reports_failWith _)
  · rw [if_neg hroot, List.filter_cons_of_neg (by simp [hroot]), List.filter_nil]
    exact inOrder_pure true

/-- The loop over the partitions appends the roots. -/
theorem flatMap_zipIdx_filter (P : IDPpartition → Bool) (l : List IDPpartition) (n : ℕ) :
    ((l.zipIdx n).flatMap fun x => [x.1].filter P) = l.filter P := by
  induction l generalizing n with
  | nil => rfl
  | cons p l ih =>
    rw [List.zipIdx_cons, List.flatMap_cons, ih, List.filter_cons]
    cases hp : P p <;> simp [hp]

/-- The writer appends the root partitions to the disk in list order. -/
theorem inOrder_writePhysicalPartitions (env : Step → Bool) (image : IDPimage)
    (l : List IDPpartition) :
    InOrder (appendedTo l .disk) (roots l) (writePhysicalPartitions env image l) := by
  have hloop : InOrder (appendedTo l .disk) (roots l) (l.zipIdx.allM (appendRoot env image l)) := by
    rw [roots, ← flatMap_zipIdx_filter _ l 0]
    exact inOrder_allM fun x hx => inOrder_appendRoot hx
  have hquiet (s : Step) (hs : appendedTo l .disk s = none) :
      InOrder (appendedTo l .disk) [] (perform env s : WriterM Bool) := by
    simpa [hs] using @inOrder_perform _ WriterState _ env (appendedTo l .disk) s
  have hcommit := (hquiet (.commit .disk) rfl).check (inOrder_pure true)
    (reports_failWith ("parted: failed to commit partition table on " ++
      image.deviceStorage.blockDev none))
  have htable := (hloop.check hcommit reports_false)
  rw [List.append_nil, List.append_nil] at htable
  exact (hquiet _ rfl).check ((hquiet _ rfl).check htable (reports_failWith _))
    (reports_failWith _)

end

/-! ### An accepted description -/

/-- The order in which a run of the writer appends to the disk. -/
def diskOrder (l : List IDPpartition) (log : List Step) : List IDPpartition :=
  log.filterMap (appendedTo l .disk)

/-- For an accepted description the partitions are a two-level forest, whose links are read the
same way everywhere; those of a table are numbered from one in list order, which is the order of
the table; and the recursion of `getSize` ends at its second level. -/
theorem partition_tree_sound (reader : String → Except String Json.Doc) (p p' : IDPparser)
    (text : String) (h : p.loadJSON reader text = (.ok (), p')) :
    let l := p'.partitions
    (∀ (i : ℕ) (q : IDPpartition), l[i]? = some q → q.index = i ∧
      (q.parentIndex = -1 ∨ ∃ (j : ℕ) (c : IDPpartition), j < i ∧ q.parentIndex = j ∧
        l[j]? = some c ∧ c.isCryptContainer ∧ c.parentIndex = -1)) ∧
    (∀ q ∈ l, (q.isEncrypted l ↔ q.parentIndex ≠ -1) ∧
      (q.hasChildren l ↔ q.children l ≠ []) ∧
      ∀ child, child ∈ q.children l ↔
        child ∈ l ∧ child.parentIndex = q.index ∧ child.isEncrypted l ∧ q.isCryptContainer) ∧
    (roots l).map (·.num) = List.range' 1 (roots l).length ∧
    (∀ c ∈ l, (c.children l).map (·.num) = List.range' 1 (c.children l).length) ∧
    (∀ env st ok j, writePhysicalPartitions env p'.image l ⟨st, []⟩ = some (ok, j) →
      diskOrder l j.log <+: roots l ∧ (ok = true → diskOrder l j.log = roots l) ∧
      (diskOrder l j.log).map (·.num) = List.range' 1 (diskOrder l j.log).length) ∧
    ∀ q ∈ l, ∀ aligned,
      (∀ depth, IDPpartition.getSizeAux aligned l (depth + 2) q = q.getSize aligned l) ∧
      ((∀ k, q.luks = some k → k.headerSize ≠ none) → (q.getSize aligned l).isSome) := by
  have hl := layout_of_loadJSON h
  generalize p'.partitions = l at hl ⊢
  dsimp only
  refine ⟨fun i q hi => ⟨hl.forest.index i q hi, hl.forest.parent i q hi⟩,
    fun q hq => ⟨isEncrypted_iff hl hq, hasChildren_iff, fun child => ?_⟩,
    nums_eq hl (-1), fun c _ => nums_eq hl c.index, fun env st ok j hj => ?_,
    fun q hq aligned => ⟨fun depth => ?_, getSize_isSome hl hq aligned⟩⟩
  · constructor
    · intro hchild
      obtain ⟨hmem, hpar⟩ := mem_children_iff.1 hchild
      have hof := (childOf_iff hl hq hmem).2 hchild
      rw [childOf, Bool.and_eq_true] at hof
      exact ⟨hmem, hpar, hof.2, container_of_child hl hq hchild⟩
    · rintro ⟨hmem, hpar, -⟩
      exact mem_children_iff.2 ⟨hmem, hpar⟩
  · obtain ⟨done, hpre, hall, hlog⟩ := inOrder_writePhysicalPartitions env p'.image l _ _ _ hj
    have horder : diskOrder l j.log = done := by simpa [diskOrder] using hlog
    rw [horder]
    refine ⟨hpre, hall, ?_⟩
    obtain ⟨rest, hrest⟩ := hpre
    have hnums := nums_eq hl (-1)
    rw [← roots, ← hrest, List.map_append, List.length_append, ← List.range'_append_1] at hnums
    exact (List.append_inj hnums (by simp)).1
  · obtain ⟨n, hlen⟩ : ∃ n, l.length + 1 = n + 2 :=
      ⟨l.length - 1, by have := List.length_pos_of_mem hq; omega⟩
    rw [IDPpartition.getSize, hlen, getSizeAux_depth hl hq, getSizeAux_depth hl hq aligned n]

/-- The container and the plain partition behind it are partitions 1 and 2 of the disk. -/
theorem partition_tree_cryptDoc :
    (roots (loadDoc cryptDoc).2.partitions).map (·.num) = [1, 2] := by
  have hok : (loadDoc cryptDoc).1 = .ok () := by decide +kernel
  have hlen : (roots (loadDoc cryptDoc).2.partitions).length = 2 := by decide +kernel
  generalize cryptDoc = doc at hok hlen ⊢
  have hload : loadDoc doc = (.ok (), (loadDoc doc).2) := Prod.ext hok rfl
  have hnums := (partition_tree_sound (fun _ => .ok doc) {} (loadDoc doc).2 "" hload).2.2.1
  rw [hlen] at hnums
  exact hnums

end RpiFastbootd
