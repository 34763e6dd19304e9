import RpiFastbootd.Idp.Provision
import RpiFastbootd.Lib.Text

/-!
# Whether two images can share a block device

A root partition is named by its number on the disk, a child by the mapper name of its container,
followed by its number where the container is partitioned.  In every run a partition has either no
device or that one (`assigned_of_run`).  Two images share a device exactly when the mapper names of
the description collide (`blockDevices_distinct_iff`): several children in a raw container, or two
containers whose names differ only in digits that the numbers supply.
-/

namespace RpiFastbootd

/-! ### The devices of a run -/

/-- The partitions are those of `l`, with the device of the assignment or none. -/
def Assigned (image : IDPimage) (l : List IDPpartition) (st : WriterState) : Prop :=
  ∀ (i : ℕ) (q : IDPpartition), st.partitions[i]? = some q →
    ∃ p, l[i]? = some p ∧ q = { p with blkdev := q.blkdev } ∧
      ∀ dev, q.blkdev = some dev → (i, dev) ∈ assignment image l

section

variable {env : Step → Bool} {image : IDPimage} {l : List IDPpartition}

theorem preserves_failWith (reason : String) :
    Preserves (Assigned image l) (failWith reason) := by
  refine Preserves.bind (preserves_update ?_) fun _ => preserves_pure false
  exact fun _ h => h

theorem preserves_setPartBlockDev {i : ℕ} {dev : String} (h : (i, dev) ∈ assignment image l) :
    Preserves (Assigned image l) (setPartBlockDev env i dev) := by
  refine .ite (fun _ => preserves_pure false) fun _ => (preserves_perform _).check
    ((preserves_perform _).check ?_ (preserves_pure false)) (preserves_pure false)
  refine (preserves_update fun st hst k q hq => ?_).bind fun _ => preserves_pure true
  rw [List.getElem?_modify] at hq
  obtain ⟨p, hp, rfl⟩ := Option.map_eq_some_iff.1 hq
  obtain ⟨p₀, hp₀, heq, hdev⟩ := hst k p hp
  refine ⟨p₀, hp₀, ?_⟩
  split_ifs with hk
  · subst hk
    refine ⟨by rw [heq, IDPpartition.setBlockDev], fun dev' h' => ?_⟩
    cases h'
    exact h
  · exact ⟨heq, hdev⟩

theorem preserves_appendRoot (x : IDPpartition × ℕ) :
    Preserves (Assigned image l) (appendRoot env image l x) :=
  .ite (fun _ => (preserves_require _).bind fun _ =>
    (preserves_perform _).check (preserves_pure true) (preserves_failWith _))
    fun _ => preserves_pure true

theorem preserves_appendChild (part : IDPpartition) (i : ℕ) (luks : IDPluks)
    (x : IDPpartition × ℕ) :
    Preserves (Assigned image l) (appendChild env image l part i luks x) :=
  .ite (fun _ => (preserves_require _).bind fun _ =>
    (preserves_perform _).check (preserves_pure true) (preserves_failWith _))
    fun _ => preserves_pure true

theorem preserves_initPhysicalPartitions :
    Preserves (Assigned image l) (initPhysicalPartitions env image l) := by
  have hwrite : Preserves (Assigned image l) (writePhysicalPartitions env image l) :=
    (preserves_perform _).check ((preserves_perform _).check
      ((preserves_allM fun x _ => preserves_appendRoot x).check
        ((preserves_perform _).check (preserves_pure true) (preserves_failWith _))
        (preserves_pure false)) (preserves_failWith _)) (preserves_failWith _)
  refine hwrite.check ((preserves_perform _).check (preserves_allM fun x hx => ?_)
    (preserves_failWith _)) (preserves_pure false)
  refine .ite (fun hroot => (preserves_setPartBlockDev ?_).check (preserves_pure true)
    (preserves_failWith _)) fun _ => preserves_pure true
  exact List.mem_append_left _ (mem_rootAssign_iff.2
    ⟨x.1, List.mem_zipIdx_iff_getElem?.1 hx, hroot, rfl⟩)

theorem preserves_initContainer {part : IDPpartition} (hpart : part ∈ l) (i : ℕ) {luks : IDPluks}
    (hl : part.luks = some luks) :
    Preserves (Assigned image l) (initContainer env image l part i luks) := by
  have htable : Preserves (Assigned image l) (partitionContainer env image l part i luks) :=
    (preserves_perform _).check ((preserves_perform _).check
      ((preserves_allM fun x _ => preserves_appendChild part i luks x).check
        ((preserves_perform _).bind fun _ => (preserves_perform _).bind fun _ =>
          preserves_pure true)
        (preserves_pure true)) (preserves_failWith _)) (preserves_failWith _)
  have hprobe : ∀ x ∈ l.zipIdx, Preserves (Assigned image l) (probeChild env l part luks x) :=
    fun x hx => .ite (fun hc => (preserves_setPartBlockDev (List.mem_append_right _
      (mem_cryptAssign_iff.2 ⟨part, hpart, luks, x.1, hl, List.mem_zipIdx_iff_getElem?.1 hx, hc,
        rfl⟩))).check (preserves_pure true) (preserves_failWith _)) fun _ => preserves_pure true
  have hchildren : Preserves (Assigned image l) (initChildren env image l part i luks) :=
    Preserves.check (.ite (fun _ => htable) fun _ => preserves_pure true)
      ((preserves_allM hprobe).check (preserves_pure none) (preserves_pure _)) (preserves_pure _)
  exact (preserves_perform _).check ((preserves_perform _).check
    (.ite (fun _ => hchildren) fun _ => preserves_pure none)
    ((preserves_failWith _).bind fun _ => preserves_pure _))
    ((preserves_failWith _).bind fun _ => preserves_pure _)

theorem preserves_initCryptLoop {xs : List (IDPpartition × ℕ)} (hxs : ∀ x ∈ xs, x.1 ∈ l) :
    Preserves (Assigned image l) (initCryptLoop env image l xs) := by
  induction xs with
  | nil => exact preserves_pure true
  | cons x xs ih =>
    rw [List.forall_mem_cons] at hxs
    obtain ⟨part, i⟩ := x
    rw [initCryptLoop]
    cases hl : part.luks with
    | none => exact ih hxs.2
    | some luks =>
      refine (preserves_initContainer hxs.1 i hl).bind fun ret => ?_
      cases ret with
      | none => exact ih hxs.2
      | some ret => exact preserves_pure ret

theorem preserves_prepareStorage :
    Preserves (Assigned image l) (prepareStorage env image l) :=
  preserves_initPhysicalPartitions.check (preserves_initCryptLoop fun _ hx =>
    List.mem_of_getElem? (List.mem_zipIdx_iff_getElem?.1 hx)) (preserves_pure false)

end

/-! ### Numbers of siblings -/

theorem exists_count_take {l : List ℤ} {a : ℤ} {k : ℕ} (h : k < l.count a) :
    ∃ i, l[i]? = some a ∧ (l.take i).count a = k := by
  induction l generalizing k with
  | nil => simp at h
  | cons b l ih =>
    by_cases hb : b = a
    · subst hb
      cases k with
      | zero => exact ⟨0, rfl, rfl⟩
      | succ k =>
        rw [List.count_cons_self] at h
        obtain ⟨i, hi, hk⟩ := ih (Nat.lt_of_succ_lt_succ h)
        exact ⟨i + 1, hi, by rw [List.take_succ_cons, List.count_cons_self, hk]⟩
    · rw [List.count_cons_of_ne hb] at h
      obtain ⟨i, hi, hk⟩ := ih h
      exact ⟨i + 1, hi, by rw [List.take_succ_cons, List.count_cons_of_ne hb, hk]⟩

theorem numberAt_lt_of_lt {l : List IDPpartition} {i j : ℕ} {p q : IDPpartition}
    (hi : l[i]? = some p) (hpar : p.parentIndex = q.parentIndex) (hij : i < j) :
    numberAt l i p < numberAt l j q := by
  have hsucc := count_take_succ hi p.parentIndex
  rw [if_pos rfl] at hsucc
  have hle : ((parents l).take (i + 1)).count p.parentIndex ≤
      ((parents l).take j).count p.parentIndex :=
    (List.take_sublist_take_left (by omega)).count_le _
  rw [numberAt, numberAt, ← hpar]
  omega

section

variable {image : IDPimage} {l : List IDPpartition}

/-- Two siblings have different numbers. -/
theorem num_ne_of_siblings (h : Layout image l) {i j : ℕ} {p q : IDPpartition}
    (hi : l[i]? = some p) (hj : l[j]? = some q) (hij : i ≠ j)
    (hpar : p.parentIndex = q.parentIndex) : p.num ≠ q.num := by
  rw [h.num i p hi, h.num j q hj]
  rcases Nat.lt_or_gt_of_ne hij with hlt | hlt
  · exact (numberAt_lt_of_lt hi hpar hlt).ne
  · exact (numberAt_lt_of_lt hj hpar.symm hlt).ne'

theorem length_children (c : IDPpartition) : (c.children l).length = (parents l).count c.index := by
  rw [IDPpartition.children, ← List.countP_eq_length_filter, List.count, List.countP_map]
  rfl

/-- The children of a container are numbered from one on, without a gap. -/
theorem exists_child_iff (h : Layout image l) {c : IDPpartition} {n : ℕ} :
    (∃ p ∈ c.children l, p.num = n) ↔ 1 ≤ n ∧ n ≤ (c.children l).length := by
  rw [length_children]
  constructor
  · rintro ⟨p, hp, rfl⟩
    obtain ⟨hp, hpar⟩ := List.mem_filter.1 hp
    rw [beq_iff_eq] at hpar
    obtain ⟨i, hi⟩ := List.getElem?_of_mem hp
    have hsucc := count_take_succ hi c.index
    have hle : ((parents l).take (i + 1)).count c.index ≤ (parents l).count c.index :=
      (List.take_sublist _ _).count_le _
    rw [h.num i p hi, numberAt, hpar]
    rw [if_pos hpar] at hsucc
    omega
  · rintro ⟨h1, hn⟩
    obtain ⟨i, hi, hk⟩ := exists_count_take (show n - 1 < (parents l).count c.index by omega)
    rw [List.getElem?_map] at hi
    obtain ⟨p, hp, hpar⟩ := Option.map_eq_some_iff.1 hi
    refine ⟨p, List.mem_filter.2 ⟨List.mem_of_getElem? hp, by simp [hpar]⟩, ?_⟩
    rw [h.num i p hp, numberAt, hpar]
    omega

end

/-! ### Names -/

/-- What the number of a child adds to the mapper name. -/
def IDPluks.suffix (k : IDPluks) (n : ℕ) : String :=
  match k.etype with
  | .raw => ""
  | .partitioned => toString n

theorem IDPluks.blockDev_eq {k : IDPluks} (hm : k.mname ≠ "") {n : ℕ} (hn : 1 ≤ n) :
    k.blockDev (some n) = "/dev/mapper/" ++ (k.mname ++ k.suffix n) := by
  have hbase : "/dev/mapper" ++ ("/" ++ k.mname) = "/dev/mapper/" ++ k.mname := by
    rw [← String.append_assoc]
    rfl
  rw [IDPluks.blockDev, if_neg hm, IDPluks.suffix, hbase]
  cases k.etype with
  | raw => simp
  | partitioned => simp only [if_pos hn, String.append_assoc]

theorem disk_ne_mapper (s : IDPstorage) (n : Option ℕ) (x : String) :
    s.blockDev n ≠ "/dev/mapper/" ++ x := by
  intro h
  have hhead := congrArg (fun t => t.toList.take 7) h
  revert hhead
  cases hs : s.type <;> cases n <;> simp only [IDPstorage.blockDev, hs] <;> (try split_ifs) <;>
    simp

theorem disk_injective (s : IDPstorage) {m n : ℕ} (hm : 1 ≤ m) (hn : 1 ≤ n)
    (h : s.blockDev (some m) = s.blockDev (some n)) : m = n := by
  simp only [IDPstorage.blockDev, if_pos hm, if_pos hn] at h
  have := congrArg String.toList h
  simp only [String.toList_append, List.append_cancel_left_eq] at this
  exact repr_injective (String.toList_injective this)

/-- The mapper names of a description do not collide: a raw container has at most one child, and
the names that two containers give to their children are different. -/
structure NamesApart (l : List IDPpartition) : Prop where
  raw : ∀ c ∈ l, ∀ k, c.luks = some k → k.etype = .raw → (c.children l).length ≤ 1
  apart : ∀ c ∈ l, ∀ c' ∈ l, c.index ≠ c'.index →
    ∀ k k', c.luks = some k → c'.luks = some k' →
    ∀ m n, 1 ≤ m → m ≤ (c.children l).length → 1 ≤ n → n ≤ (c'.children l).length →
      k.mname ++ k.suffix m ≠ k'.mname ++ k'.suffix n

section

variable {image : IDPimage} {l : List IDPpartition}

theorem deviceOf_child (h : Layout image l) {c p : IDPpartition} {k : IDPluks} (hc : c ∈ l)
    (hk : c.luks = some k) (hp : p ∈ c.children l) :
    deviceOf image l p = "/dev/mapper/" ++ (k.mname ++ k.suffix p.num) := by
  obtain ⟨j, hj⟩ := List.getElem?_of_mem hc
  have hnum := (exists_child_iff h).1 ⟨p, hp, rfl⟩
  obtain ⟨-, hpar⟩ := List.mem_filter.1 hp
  rw [beq_iff_eq, h.forest.index j c hj] at hpar
  rw [deviceOf, if_neg (by omega), hpar, Int.toNat_natCast, hj, Option.bind_some, hk]
  exact IDPluks.blockDev_eq (h.luks c hc k hk).1.mname hnum.1

theorem root_or_child (h : Layout image l) {i : ℕ} {p : IDPpartition} (hp : l[i]? = some p) :
    p.parentIndex = -1 ∨ ∃ c ∈ l, ∃ k, c.luks = some k ∧ p ∈ c.children l := by
  refine (h.forest.parent i p hp).imp_right ?_
  rintro ⟨j, c, -, hpar, hj, hcc, -⟩
  obtain ⟨k, hk⟩ := Option.isSome_iff_exists.1 hcc
  exact ⟨c, List.mem_of_getElem? hj, k, hk, List.mem_filter.2
    ⟨List.mem_of_getElem? hp, by rw [hpar, h.forest.index j c hj, beq_self_eq_true]⟩⟩

theorem img_of_child (h : Layout image l) {c p : IDPpartition} (hc : c ∈ l)
    (hp : p ∈ c.children l) : p.img.isSome := by
  obtain ⟨hpl, hl⟩ := luks_of_child h hc hp
  exact (h.plain p hpl hl).1

theorem parentIndex_of_child {c p : IDPpartition} (hp : p ∈ c.children l) :
    p.parentIndex = c.index := by
  simpa using (List.mem_filter.1 hp).2

/-- Two images of the layout have different devices. -/
def DevicesApart (image : IDPimage) (l : List IDPpartition) : Prop :=
  ∀ (i j : ℕ) (p q : IDPpartition), i ≠ j → l[i]? = some p → l[j]? = some q →
    p.img.isSome → q.img.isSome → deviceOf image l p ≠ deviceOf image l q

theorem DevicesApart.children (hd : DevicesApart image l) (h : Layout image l)
    {c c' p q : IDPpartition} (hc : c ∈ l) (hc' : c' ∈ l) (hp : p ∈ c.children l)
    (hq : q ∈ c'.children l) (hne : p ≠ q) : deviceOf image l p ≠ deviceOf image l q := by
  obtain ⟨i, hi⟩ := List.getElem?_of_mem (List.mem_filter.1 hp).1
  obtain ⟨j, hj⟩ := List.getElem?_of_mem (List.mem_filter.1 hq).1
  have hij : i ≠ j := by
    rintro rfl
    exact hne (Option.some.inj (hi.symm.trans hj))
  exact hd i j p q hij hi hj (img_of_child h hc hp) (img_of_child h hc' hq)

theorem namesApart_of_devicesApart (h : Layout image l) (hd : DevicesApart image l) :
    NamesApart l where
  raw c hc k hk hraw := by
    by_contra hlen
    obtain ⟨p, hp, hpn⟩ := (exists_child_iff h).2 (show 1 ≤ 1 ∧ 1 ≤ (c.children l).length by omega)
    obtain ⟨q, hq, hqn⟩ := (exists_child_iff h).2 (show 1 ≤ 2 ∧ 2 ≤ (c.children l).length by omega)
    have hpq : p ≠ q := by
      rintro rfl
      omega
    refine hd.children h hc hc hp hq hpq ?_
    rw [deviceOf_child h hc hk hp, deviceOf_child h hc hk hq, IDPluks.suffix, IDPluks.suffix, hraw]
  apart c hc c' hc' hne k k' hk hk' m n hm hm' hn hn' heq := by
    obtain ⟨p, hp, rfl⟩ := (exists_child_iff h).2 ⟨hm, hm'⟩
    obtain ⟨q, hq, rfl⟩ := (exists_child_iff h).2 ⟨hn, hn'⟩
    have hpq : p ≠ q := by
      rintro rfl
      exact hne ((parentIndex_of_child hp).symm.trans (parentIndex_of_child hq))
    refine hd.children h hc hc' hp hq hpq ?_
    rw [deviceOf_child h hc hk hp, deviceOf_child h hc' hk' hq, heq]

theorem mapper_injective {x y : String} (h : "/dev/mapper/" ++ x = "/dev/mapper/" ++ y) : x = y := by
  have := congrArg String.toList h
  rw [String.toList_append, String.toList_append, List.append_cancel_left_eq] at this
  exact String.toList_injective this

theorem devicesApart_of_namesApart (h : Layout image l) (hn : NamesApart l) :
    DevicesApart image l := by
  intro i j p q hij hi hj hpi hqi heq
  have hnum {i : ℕ} {p : IDPpartition} (hi : l[i]? = some p) : 1 ≤ p.num := by
    rw [h.num i p hi, numberAt]
    omega
  rcases root_or_child h hi with hp | ⟨c, hc, k, hk, hp⟩ <;>
    rcases root_or_child h hj with hq | ⟨c', hc', k', hk', hq⟩
  · rw [deviceOf, deviceOf, if_pos hp, if_pos hq] at heq
    exact num_ne_of_siblings h hi hj hij (hp.trans hq.symm)
      (disk_injective _ (hnum hi) (hnum hj) heq)
  · rw [deviceOf, if_pos hp, deviceOf_child h hc' hk' hq] at heq
    exact disk_ne_mapper _ _ _ heq
  · rw [deviceOf_child h hc hk hp, deviceOf, if_pos hq] at heq
    exact disk_ne_mapper _ _ _ heq.symm
  · rw [deviceOf_child h hc hk hp, deviceOf_child h hc' hk' hq] at heq
    have hname := mapper_injective heq
    have hpn := (exists_child_iff h).1 ⟨p, hp, rfl⟩
    have hqn := (exists_child_iff h).1 ⟨q, hq, rfl⟩
    by_cases hcc : c.index = c'.index
    · have hpar : p.parentIndex = q.parentIndex := by
        rw [parentIndex_of_child hp, parentIndex_of_child hq, hcc]
      have hne := num_ne_of_siblings h hi hj hij hpar
      obtain ⟨a, ha⟩ := List.getElem?_of_mem hc
      obtain ⟨b, hb⟩ := List.getElem?_of_mem hc'
      have hab : a = b := by
        have h1 := h.forest.index a c ha
        have h2 := h.forest.index b c' hb
        omega
      rw [hab, hb] at ha
      cases ha
      rw [hk] at hk'
      cases hk'
      cases he : k.etype with
      | raw =>
        have := hn.raw c hc k hk he
        omega
      | partitioned =>
        simp only [IDPluks.suffix, he] at hname
        have := congrArg String.toList hname
        simp only [String.toList_append, List.append_cancel_left_eq] at this
        exact hne (repr_injective (String.toList_injective this))
    · exact hn.apart c hc c' hc' hcc k k' hk hk' p.num q.num hpn.1 hpn.2 hqn.1 hqn.2 hname

end

/-! ### Every run -/

/-- In every run a partition has the device of the layout, or none. -/
theorem assigned_of_run {d : IDPdevice} (h : Layout d.image d.partitions) (hstate : d.state = .ready)
    {env : Step → Bool} {reason : String} {r : Provision}
    (hr : d.startProvision env reason = some r) {i : ℕ} {q : IDPpartition}
    (hq : r.device.partitions[i]? = some q) :
    ∃ p, d.partitions[i]? = some p ∧ q.img = p.img ∧
      ∀ dev, q.blkdev = some dev → dev = deviceOf d.image d.partitions p := by
  rw [IDPdevice.startProvision, if_neg (not_not.2 hstate)] at hr
  obtain ⟨⟨ok, j⟩, hrun, hr⟩ := Option.bind_eq_some_iff.1 hr
  cases hr
  have hstart : Assigned d.image d.partitions ⟨d.partitions, reason⟩ := fun k p hp =>
    ⟨p, hp, rfl, fun dev hdev => by
      rw [h.blkdev p (List.mem_of_getElem? hp)] at hdev
      cases hdev⟩
  obtain ⟨p, hp, heq, hdev⟩ := preserves_prepareStorage _ ok j hrun hstart i q hq
  refine ⟨p, hp, by rw [heq], fun dev hd => ?_⟩
  obtain ⟨p', hp', hdev'⟩ := (mem_assignment_iff h).1 (hdev dev hd)
  dsimp only at hp' hdev'
  rw [hp] at hp'
  cases hp'
  exact hdev'

/-- For an accepted description no run gives two images the same block device, exactly when the
mapper names of the description do not collide. -/
theorem blockDevices_distinct_iff (reader : String → Except String Json.Doc) (text : String)
    (d₀ d₁ d : IDPdevice) (m : Machine) (hinit : d₀.initialise reader text = (.ok (), d₁))
    (hready : d₁.canProvision m = some (.ok (), d)) :
    (∀ env reason r, d.startProvision env reason = some r →
      ∀ (i j : ℕ) (p q : IDPpartition), i ≠ j → r.device.partitions[i]? = some p →
        r.device.partitions[j]? = some q → p.img.isSome → q.img.isSome →
        ∀ dev, p.blkdev = some dev → q.blkdev ≠ some dev) ↔ NamesApart d.partitions := by
  obtain ⟨hstate, hlayout, hwritable⟩ := ready_of_accepted hinit hready
  constructor
  · intro h
    refine namesApart_of_devicesApart hlayout fun i j p q hij hi hj hpi hqi heq => ?_
    -- the run in which no step fails
    obtain ⟨log, hrun, -, hdone⟩ := @follows_prepareStorage (fun _ => true) _ _ hwritable
      ⟨⟨d.partitions, ""⟩, []⟩
    have hparts := (hdone (by simp)).2
    obtain ⟨r, hr, hlog⟩ : ∃ r, d.startProvision (fun _ => true) "" = some r ∧
        r.device.partitions = log.state.partitions := by
      rw [IDPdevice.startProvision, if_neg (not_not.2 hstate), hrun]
      exact ⟨_, rfl, rfl⟩
    have hpos {k : ℕ} {x : IDPpartition} (hk : d.partitions[k]? = some x) :
        r.device.partitions[k]? = some (x.setBlockDev (deviceOf d.image d.partitions x)) := by
      rw [hlog, hparts, partitions_attachAll hlayout, List.getElem?_map, hk, Option.map_some]
    refine h _ _ r hr i j _ _ hij (hpos hi) (hpos hj) hpi hqi _ rfl ?_
    rw [heq]
    rfl
  · intro hn env reason r hr i j p q hij hi hj hpi hqi dev hp hq
    obtain ⟨p₀, hp₀, hpimg, hpdev⟩ := assigned_of_run hlayout hstate hr hi
    obtain ⟨q₀, hq₀, hqimg, hqdev⟩ := assigned_of_run hlayout hstate hr hj
    refine devicesApart_of_namesApart hlayout hn i j p₀ q₀ hij hp₀ hq₀ (hpimg ▸ hpi) (hqimg ▸ hqi) ?_
    rw [← hpdev dev hp, ← hqdev dev hq]

/-- A raw container with two children. -/
def rawPairDoc : Json.Doc where
  root := describe "1M" [("data", imageNode 1), ("root", imageNode 1)]
    [.obj [("encrypted", .obj [("luks2", luksNode "raw" "crypt"),
      ("partitions", .arr [.obj [("image", .str "root")], .obj [("image", .str "data")]])])]]
  sorted := by
    refine sorted_describe "1M" ?_ ?_
    · simp only [Json.Sorted, Json.SortedMembers, sorted_imageNode, List.map_cons, List.map_nil]
      decide
    · simp only [Json.SortedElems, Json.Sorted, Json.SortedMembers, sorted_luksNode]
      decide

/-- A raw container `crypt1` and a partitioned container `crypt`, with a child each. -/
def digitPairDoc : Json.Doc where
  root := describe "1M" [("data", imageNode 1), ("root", imageNode 1)]
    [.obj [("encrypted", .obj [("luks2", luksNode "raw" "crypt1"),
      ("partitions", .arr [.obj [("image", .str "root")]])])],
    .obj [("encrypted", .obj [("luks2", luksNode "partitioned" "crypt"),
      ("partitions", .arr [.obj [("image", .str "data")]])])]]
  sorted := by
    refine sorted_describe "1M" ?_ ?_
    · simp only [Json.Sorted, Json.SortedMembers, sorted_imageNode, List.map_cons, List.map_nil]
      decide
    · simp only [Json.SortedElems, Json.Sorted, Json.SortedMembers, sorted_luksNode]
      decide

/-- The devices of the images after a run in which no step fails. -/
def imageDevices (doc : Json.Doc) : Option (List String) :=
  ((ready doc).startProvision (fun _ => true) "").map fun r =>
    (r.device.partitions.filter (·.img.isSome)).map (·.getBlockDev)

/-- Two accepted descriptions in which both images are written to the same device. -/
theorem images_share_device :
    ((accept rawPairDoc).1 = .ok () ∧
      ((accept rawPairDoc).2.canProvision sampleMachine).map (·.1) = some (.ok ()) ∧
      imageDevices rawPairDoc = some ["/dev/mapper/crypt", "/dev/mapper/crypt"]) ∧
    (accept digitPairDoc).1 = .ok () ∧
      ((accept digitPairDoc).2.canProvision sampleMachine).map (·.1) = some (.ok ()) ∧
      imageDevices digitPairDoc = some ["/dev/mapper/crypt1", "/dev/mapper/crypt1"] := by
  decide +kernel

/-- The two images of `cryptDoc` get different devices. -/
theorem blockDevices_cryptDoc :
    ∃ r, (ready cryptDoc).startProvision (fun _ => true) "" = some r ∧
      r.device.partitions[1]?.bind (·.blkdev) ≠ r.device.partitions[2]?.bind (·.blkdev) := by
  have hrun : ((ready cryptDoc).startProvision (fun _ => true) "").map (fun r =>
      r.device.partitions.map fun p => (p.img.isSome, p.blkdev)) =
      some [(false, some "/dev/mmcblk0p1"), (true, some "/dev/mapper/crypt1"),
        (true, some "/dev/mmcblk0p2")] := by decide +kernel
  have hinit : (accept cryptDoc).1 = .ok () := by decide +kernel
  have hready : ((accept cryptDoc).2.canProvision sampleMachine).map (·.1) = some (.ok ()) := by
    decide +kernel
  have hcontainer : ∀ c ∈ (ready cryptDoc).partitions, c.luks.isSome → c.index = 0 := by
    decide +kernel
  have hchildren : ∀ c ∈ (ready cryptDoc).partitions,
      (c.children (ready cryptDoc).partitions).length ≤ 1 ∨ c.luks = none := by
    decide +kernel
  have hapart : NamesApart (ready cryptDoc).partitions := by
    refine ⟨fun c hc k hk _ => ?_, fun c hc c' hc' hne k k' hk hk' => ?_⟩
    · exact (hchildren c hc).resolve_right (by simp [hk])
    · exact (hne ((hcontainer c hc (Option.isSome_of_eq_some hk)).trans
        (hcontainer c' hc' (Option.isSome_of_eq_some hk')).symm)).elim
  clear hcontainer hchildren
  unfold ready at hapart hrun ⊢
  generalize hd : accept cryptDoc = c at hinit hready hapart hrun ⊢
  obtain ⟨_, d₁⟩ := c
  obtain rfl : _ = _ := hinit
  dsimp only at hready hapart hrun ⊢
  generalize hc : d₁.canProvision sampleMachine = c at hready hapart hrun ⊢
  obtain ⟨⟨_, d⟩, rfl, rfl⟩ := Option.map_eq_some_iff.1 hready
  obtain ⟨r, hr, hparts⟩ := Option.map_eq_some_iff.1 hrun
  have hapart := (blockDevices_distinct_iff (fun _ => .ok cryptDoc) "json" _ d₁ d sampleMachine hd
    hc).2 hapart _ _ r hr
  obtain ⟨p₀, p₁, p₂, hp⟩ : ∃ p₀ p₁ p₂, r.device.partitions = [p₀, p₁, p₂] :=
    List.length_eq_three.1 (by simpa using congrArg List.length hparts)
  rw [hp] at hparts hapart
  simp only [List.map_cons, List.map_nil, List.cons.injEq, Prod.mk.injEq] at hparts
  exact ⟨r, hr, by
    rw [hp]
    have hne := hapart 1 2 p₁ p₂ (by decide) rfl rfl hparts.2.1.1 hparts.2.2.1.1 _ hparts.2.1.2
    simpa [hparts.2.1.2] using Ne.symm hne⟩

end RpiFastbootd
