import RpiFastbootd.Idp.Accept
import RpiFastbootd.Lib.Runs

/-!
# A parser that is used again

A parser keeps its members between loads.  What a load makes of a text does not depend on them: the
outcome is that of a new parser, and so are the image and the partitions it accepts.  What is left
of an earlier description after a load that fails is another matter, since only a validation that
returns writes the validity flag: a text the reader has no document for, or a validation that
raises, leaves it as it was.
-/

namespace RpiFastbootd

/-- The reader gives a document or its report on a text, or raises itself. -/
abbrev JsonReader := String → Except Exn (Except String Json.Doc)

/-- A call of a user of the parser. -/
inductive LoadCall
  | loadJSON (text : String)
  | loadData (data : List Char) (length : ℕ)

/-- The text a call loads. -/
def LoadCall.text : LoadCall → String
  | .loadJSON text => text
  | .loadData data length => String.ofList (data.take length)

namespace IDPparser

/-- `loadJSON` with a reader that may raise. -/
def load (reader : JsonReader) (p : IDPparser) (text : String) :
    Except LoadError Unit × IDPparser :=
  match reader text with
  | .error what => (.error (.threw what), p)
  | .ok read => p.loadJSON (fun _ => read) text

def loadData (reader : JsonReader) (p : IDPparser) (data : List Char) (length : ℕ) :
    Except LoadError Unit × IDPparser :=
  p.load reader (String.ofList (data.take length))

def getPartitions (p : IDPparser) : List IDPpartition := p.partitions

/-- One call on a parser. -/
def call (reader : JsonReader) (p : IDPparser) :
    LoadCall → Option (Except LoadError Unit × IDPparser)
  | .loadJSON text => some (p.load reader text)
  | .loadData data length => some (p.loadData reader data length)

theorem call_eq (reader : JsonReader) (p : IDPparser) (c : LoadCall) :
    p.call reader c = some (p.load reader c.text) := by
  cases c <;> rfl

end IDPparser

/-! ### The outcome of a load -/

section

variable {σ α β : Type} {R : α → β → Prop}

theorem alike_leaving {x : Except LoadError σ} {s t : α} :
    Alike (fun a b => a = b) (leaving s x) (leaving t x) := by
  cases x with
  | ok a => exact .ok rfl
  | error e => exact .error e s t

theorem alike_stringInto {root : Json} {key : String} {store : String → σ → σ} {s t : σ} :
    Alike (fun _ _ => True) (stringInto root key store s) (stringInto root key store t) := by
  apply alike_leaving.bind
  rintro a _ rfl
  apply alike_leaving.bind
  rintro _ _ -
  exact .ok trivial

end

theorem alike_parseDevice (json : Json) (i j : IDPimage) :
    Alike (fun _ _ => True) (parseDevice json i) (parseDevice json j) := by
  apply alike_leaving.bind
  rintro obj _ rfl
  apply alike_stringInto.bind
  rintro i j -
  apply alike_leaving.bind
  rintro str _ rfl
  apply alike_leaving.bind
  rintro sectors _ rfl
  apply alike_stringInto.bind
  rintro i j -
  apply alike_stringInto.bind
  rintro i j -
  split_ifs
  · exact .error _ i j
  · split
    · exact .error _ _ _
    · exact .ok trivial

theorem alike_parseAttributes (json : Json) (i j : IDPimage) :
    Alike (fun _ _ => True) (parseAttributes json i) (parseAttributes json j) := by
  apply alike_leaving.bind
  rintro obj _ rfl
  apply alike_stringInto.bind
  rintro i j -
  apply alike_leaving.bind
  rintro size _ rfl
  apply alike_leaving.bind
  rintro str _ rfl
  split_ifs
  · exact .error _ _ _
  · split
    · exact .error _ _ _
    · split_ifs
      · exact .error _ _ _
      · exact .ok trivial

theorem alike_parsePtable (json : Json) (i j : IDPimage) :
    Alike (fun _ _ => True) (parsePtable json i) (parsePtable json j) := by
  apply alike_leaving.bind
  rintro ptable _ rfl
  apply alike_leaving.bind
  rintro label _ rfl
  split
  · exact .error _ i j
  · apply alike_leaving.bind
    rintro id _ rfl
    split
    · exact .ok trivial
    · exact .ok trivial
    · exact .error _ _ _

/-- The image a parser holds has no say in how the header is refused. -/
theorem alike_parseImage (json : Json) (i j : IDPimage) :
    Alike (fun _ _ => True) (parseImage json i) (parseImage json j) := by
  apply (alike_parseDevice json i j).bind
  rintro i j -
  apply (alike_parseAttributes json i j).bind
  rintro i j -
  apply (alike_parsePtable json i j).bind
  rintro i j -
  apply alike_leaving.bind
  rintro str _ rfl
  apply alike_leaving.bind
  rintro version _ rfl
  split_ifs
  · exact .error _ i j
  · exact .error _ i j
  · apply alike_leaving.bind
    rintro pmap _ rfl
    exact .ok trivial

namespace IDPparser

/-- The navigator visits what it visits, whatever the parser has collected before. -/
theorem collectPartitions_fst {p q : IDPparser} (hr : p.root = q.root) (hi : p.image = q.image)
    (pmap : Json) : (p.collectPartitions pmap).1 = (q.collectPartitions pmap).1 := by
  unfold collectPartitions
  rw [hr, hi]
  split <;> rfl

theorem parseIGv2_fst {p q : IDPparser} (hr : p.root = q.root) :
    p.parseIGv2.1 = q.parseIGv2.1 := by
  unfold parseIGv2
  conv_lhs => rw [hr]
  cases hp : parseImage q.root p.image with
  | ok r =>
    obtain ⟨image, pmap⟩ := r
    rw [parseImage_ok_iff.2 (parseImage_ok_iff.1 hp)]
    exact @collectPartitions_fst { p with root := q.root, image } { q with image } rfl rfl pmap
  | error r =>
    obtain ⟨e, s⟩ := r
    obtain ⟨t, ht⟩ := ((alike_parseImage q.root p.image q.image).error_iff e).1 ⟨s, hp⟩
    rw [ht]

/-- How the validation ends depends on the document alone. -/
theorem igValidate_fst {p q : IDPparser} (hr : p.root = q.root) :
    p.igValidate.1 = q.igValidate.1 := by
  have hparse := parseIGv2_fst hr
  unfold igValidate
  rw [hr]
  cases igVersion q.root with
  | error e => rfl
  | ok _ =>
    generalize p.parseIGv2 = x at hparse ⊢
    generalize q.parseIGv2 = y at hparse ⊢
    obtain ⟨outcome, p'⟩ := x
    obtain ⟨_, q'⟩ := y
    obtain rfl := hparse
    cases outcome <;> rfl

theorem igValidate_jvalid (p : IDPparser) : p.igValidate.2.jvalid = p.jvalid := by
  unfold igValidate
  split
  · rfl
  · have hparse : p.parseIGv2.2.jvalid = p.jvalid := by
      unfold parseIGv2
      split
      · unfold collectPartitions
        split <;> rfl
      · rfl
    split
    · rename_i heq
      rw [heq] at hparse
      exact hparse
    · rename_i heq
      rw [heq] at hparse
      exact hparse

/-- A load that returns true leaves what it leaves a new parser with. -/
theorem load_of_ok {reader : JsonReader} {p p' : IDPparser} {text : String}
    (h : p.load reader text = (.ok (), p')) (q : IDPparser) :
    q.load reader text = (.ok (), p') ∧ p'.jvalid = true := by
  unfold load at h ⊢
  cases hr : reader text with
  | error what =>
    rw [hr] at h
    cases (Prod.mk.inj h).1
  | ok read =>
    rw [hr] at h
    obtain ⟨doc, hd, hl, hroot, hv⟩ := loadJSON_ok_iff.1 h
    exact ⟨loadJSON_ok_iff.2 ⟨doc, hd, hl, hroot, hv⟩, hv⟩

end IDPparser

/-- The text is read as a document on which the validation returns, with true or with false. -/
def Validates (reader : JsonReader) (text : String) : Prop :=
  ∃ doc, reader text = .ok (.ok doc) ∧
    ((IDPparser.igValidate { root := doc.root }).1 = .ok () ∨
      ∃ msg, (IDPparser.igValidate { root := doc.root }).1 = refuse msg)

namespace IDPparser

theorem getImage_eq_none {p : IDPparser} : p.getImage = none ↔ p.jvalid = false := by
  unfold getImage
  split_ifs with h <;> simp [h]

/-- A validation that raises is none that returns. -/
theorem not_validates {reader : JsonReader} {text : String} {doc : Json.Doc} {e : LoadError}
    (hr : reader text = .ok (.ok doc))
    (he : (igValidate { root := doc.root }).1 = .error e) (hne : ∀ msg, e ≠ .refused msg) :
    ¬ Validates reader text := by
  rintro ⟨d, hd, h⟩
  obtain rfl : doc = d := by simpa [hr] using hd
  rw [he] at h
  rcases h with h | ⟨msg, h⟩
  · cases h
  · exact hne msg (Except.error.inj h)

/-- After a load that fails nothing is reported as valid exactly when the validation has returned
or nothing was before. -/
theorem getImage_of_failed {reader : JsonReader} {p : IDPparser} {text : String}
    (h : (p.load reader text).1 ≠ .ok ()) :
    (p.load reader text).2.getImage = none ↔ (p.jvalid = true → Validates reader text) := by
  rw [getImage_eq_none]
  -- a load that leaves the flag as it was needs a flag that was not set
  have hkept (q : IDPparser) (hflag : q.jvalid = p.jvalid) (hno : ¬ Validates reader text) :
      q.jvalid = false ↔ (p.jvalid = true → Validates reader text) := by
    rw [hflag]
    cases p.jvalid <;> simp [hno]
  unfold load at h ⊢
  cases hr : reader text with
  | error what => exact hkept p rfl (by simp [Validates, hr])
  | ok read =>
    rw [hr] at h
    unfold loadJSON at h ⊢
    cases read with
    | error report => exact hkept p rfl (by simp [Validates, hr])
    | ok doc =>
      have hfst : (igValidate { p with root := doc.root }).1 =
          (igValidate { root := doc.root }).1 := igValidate_fst rfl
      have hflag := igValidate_jvalid { p with root := doc.root }
      dsimp only at h ⊢
      generalize igValidate { p with root := doc.root } = x at h hfst hflag ⊢
      obtain ⟨outcome, q⟩ := x
      cases outcome with
      | ok _ => exact (h rfl).elim
      | error e =>
        cases e with
        | refused msg => exact iff_of_true rfl fun _ => ⟨doc, hr, .inr ⟨msg, hfst.symm⟩⟩
        | threw what => exact hkept q hflag (not_validates hr hfst.symm (by simp))
        | outOfFuel => exact hkept q hflag (not_validates hr hfst.symm (by simp))

theorem validates_of_ok {reader : JsonReader} {p : IDPparser} {text : String}
    (h : (p.load reader text).1 = .ok ()) : Validates reader text := by
  have hload : p.load reader text = (.ok (), (p.load reader text).2) := Prod.ext h rfl
  generalize (p.load reader text).2 = p' at hload
  unfold load at hload
  cases hr : reader text with
  | error what =>
    rw [hr] at hload
    cases (Prod.mk.inj hload).1
  | ok read =>
    rw [hr] at hload
    obtain ⟨doc, rfl, hl, -, -⟩ := loadJSON_ok_iff.1 hload
    have hok : igValidate { root := doc.root } = (.ok (), {
        root := doc.root, image := p'.image, partitions := p'.partitions }) :=
      (igValidate_ok_iff doc.sorted).2 ⟨hl, rfl⟩
    exact ⟨doc, hr, .inl (by rw [hok])⟩

end IDPparser

/-! ### Runs of calls -/

/-- The calls on a new parser, in order. -/
abbrev callRun (reader : JsonReader) (calls : List LoadCall) :
    List (Event IDPparser LoadCall (Except LoadError Unit)) :=
  runs (IDPparser.call reader) {} calls

/-- After the call the parser reports what a new one does after the same text, or nothing. -/
structure ReportsLast (reader : JsonReader)
    (e : Event IDPparser LoadCall (Except LoadError Unit)) : Prop where
  accepted : e.output = .ok () → e.after.getImage.isSome ∧
    (IDPparser.load reader {} e.input.text).1 = .ok () ∧
    e.after.getImage = (IDPparser.load reader {} e.input.text).2.getImage ∧
    e.after.getPartitions = (IDPparser.load reader {} e.input.text).2.getPartitions
  rejected : e.output ≠ .ok () → e.after.getImage = none

/-- While a description is held as valid, the validation of the next one returns. -/
def Clears (reader : JsonReader) (e : Event IDPparser LoadCall (Except LoadError Unit)) : Prop :=
  e.before.jvalid = true → Validates reader e.input.text

theorem reportsLast_iff {reader : JsonReader} {p : IDPparser} {c : LoadCall} :
    ReportsLast reader ⟨p, c, (p.load reader c.text).1, (p.load reader c.text).2⟩ ↔
      Clears reader ⟨p, c, (p.load reader c.text).1, (p.load reader c.text).2⟩ := by
  by_cases hok : (p.load reader c.text).1 = .ok ()
  · obtain ⟨hnew, hv⟩ := IDPparser.load_of_ok (Prod.ext hok rfl) {}
    refine iff_of_true ⟨fun _ => ?_, fun hne => (hne hok).elim⟩
      fun _ => IDPparser.validates_of_ok hok
    rw [hnew]
    exact ⟨by simp [IDPparser.getImage, hv], rfl, rfl, rfl⟩
  · unfold Clears
    rw [← IDPparser.getImage_of_failed hok]
    exact ⟨fun h => h.rejected hok, fun h => ⟨fun heq => (hok heq).elim, fun _ => h⟩⟩

theorem event_of_call {reader : JsonReader} {calls : List LoadCall}
    {e : Event IDPparser LoadCall (Except LoadError Unit)} (he : e ∈ callRun reader calls) :
    e = ⟨e.before, e.input, (e.before.load reader e.input.text).1,
      (e.before.load reader e.input.text).2⟩ := by
  obtain ⟨h, rest, hrun⟩ := List.append_of_mem he
  have hstep := (runs_invariant (fun _ _ _ _ _ _ _ => trivial) trivial hrun
    (I := fun _ _ => True)).2
  rw [IDPparser.call_eq] at hstep
  have hload : e.before.load reader e.input.text = (e.output, e.after) := Option.some.inj hstep
  rw [hload]

/-- The calls of a run all report on their own text alone exactly when none that the validation
does not return on comes while a description is held as valid. -/
theorem reuse_sound_iff (reader : JsonReader) (calls : List LoadCall) :
    (∀ e ∈ callRun reader calls, ReportsLast reader e) ↔
      ∀ e ∈ callRun reader calls, Clears reader e := by
  apply forall₂_congr
  intro e he
  rw [event_of_call he]
  exact reportsLast_iff

/-! ### A history -/

mutual
/-- The text of a value without characters to escape. -/
def Json.text : Json → String
  | .null => "null"
  | .bool b => if b then "true" else "false"
  | .int z => toString z
  | .real q => toString q
  | .str s => "\"" ++ s ++ "\""
  | .arr xs => "[" ++ ",".intercalate (elemTexts xs) ++ "]"
  | .obj ms => "\x7b" ++ ",".intercalate (memberTexts ms) ++ "\x7d"

def Json.elemTexts : List Json → List String
  | [] => []
  | v :: xs => v.text :: elemTexts xs

def Json.memberTexts : List (String × Json) → List String
  | [] => []
  | (key, v) :: ms => ("\"" ++ key ++ "\":" ++ v.text) :: memberTexts ms
end

/-- A reader on the texts of these documents; it has an error to report on any other text. -/
def readerOf (docs : List Json.Doc) : JsonReader := fun text =>
  match docs.find? fun doc => doc.root.text == text with
  | some doc => .ok (.ok doc)
  | none => .ok (.error "* Line 1, Column 1\n  Syntax error")

/-- A description that is accepted. -/
def soundDoc : Json.Doc where
  root := describe "1M" [("a", imageNode 1)] [plainEntry ["a"]]
  sorted := by
    refine sorted_describe "1M" ?_ ?_
    · simp only [Json.Sorted, Json.SortedMembers, sorted_imageNode, List.map_cons, List.map_nil]
      decide
    · exact ⟨sorted_plainEntry _, trivial⟩

/-- One whose layout is an array, which has no members to ask for. -/
def arrayDoc : Json.Doc where
  root := .obj [("IGmeta", .obj []), ("IGversion", .str "2.0.0"), ("attributes", .obj []),
    ("layout", .arr [])]
  sorted := by
    simp only [Json.Sorted, Json.SortedMembers, Json.SortedElems, List.map_cons, List.map_nil]
    decide

/-- A description that is accepted, a text that is none, and one on which the validation raises. -/
def staleCalls : List LoadCall :=
  [.loadJSON soundDoc.root.text, .loadJSON "", .loadJSON arrayDoc.root.text]

/-- The first description is still reported as valid after the other two. -/
theorem earlier_description_reported :
    (callRun (readerOf [soundDoc, arrayDoc]) staleCalls).map
        (fun e => (e.output, e.after.getImage.isSome)) =
      [(.ok (), true),
        (refuse "not valid JSON: * Line 1, Column 1   Syntax error", true),
        (.error (.threw "in Json::Value::find(begin, end): requires objectValue or nullValue"),
          true)] ∧
      ¬ ∀ e ∈ callRun (readerOf [soundDoc, arrayDoc]) staleCalls,
        ReportsLast (readerOf [soundDoc, arrayDoc]) e := by
  have hrun : (callRun (readerOf [soundDoc, arrayDoc]) staleCalls).map
      (fun e => (e.output, e.after.getImage.isSome)) =
    [(.ok (), true),
      (refuse "not valid JSON: * Line 1, Column 1   Syntax error", true),
      (.error (.threw "in Json::Value::find(begin, end): requires objectValue or nullValue"),
        true)] := by
    decide +kernel
  refine ⟨hrun, fun h => ?_⟩
  obtain ⟨e, he, heq⟩ := List.mem_map.1 (hrun ▸ List.mem_cons_of_mem _ List.mem_cons_self)
  obtain ⟨hout, hafter⟩ := Prod.mk.inj heq
  rw [(h e he).rejected (by rw [hout]; simp [refuse])] at hafter
  cases hafter

end RpiFastbootd
