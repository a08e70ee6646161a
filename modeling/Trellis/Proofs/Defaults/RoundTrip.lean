import Trellis.Proofs.Defaults.Basic
import Trellis.Proofs.Toml.Lines

/-!
# A table is read back from its file

The values of a table in range are written as runs that the reader takes as one value each, and each
of them is read as itself.  So the file has one statement for each section and each field, and these
build the table they were written from.
-/

namespace Trellis

open Toml

namespace Toml

/-! ## Values of fields -/

theorem ends_of_isDigit {c : Char} (h : c.isDigit = true) : Scan.ends c = false := by
  have other : ∀ d : Char, d.isDigit = false → c ≠ d := by
    intro d hd same
    rw [same, hd] at h
    cases h
  have single : Token.single? c = none := by
    unfold Token.single?
    split
    all_goals first | rfl | cases h
  simp only [Scan.ends, single, Token.isBlank, other ' ' rfl, other '\t' rfl, other '\n' rfl,
    other '\r' rfl, other '#' rfl, other '"' rfl, other '\x27' rfl]
  rfl

theorem isRun_of_isDigit {ds : List Char} (ne : ds ≠ []) (h : ∀ c ∈ ds, c.isDigit = true) :
    IsRun ds :=
  ⟨ne, fun c hc => ends_of_isDigit (h c hc)⟩

theorem isValue_boolText (b : Bool) : IsValue (Defaults.boolText b) := by
  cases b with
  | false => exact .run ⟨by decide, isPlain_of_all rfl⟩
  | true => exact .run ⟨by decide, isPlain_of_all rfl⟩

theorem isValue_wordText (w : UInt32) : IsValue (Defaults.wordText w) :=
  .run (isRun_of_isDigit (Layout.digits_ne_nil _) fun _ => Layout.isDigit_of_mem_digits)

theorem item?_wordText (w : UInt32) :
    Scalar.item? (Defaults.wordText w) = some (.integer w.toNat) := by
  apply Scalar.item?_digits
  calc w.toNat < twoTo 32 := w.toNat_lt
    _ ≤ twoTo 127 := twoTo_le (by decide)

theorem isValue_floatText {x : Float} (finite : x.isFinite = true) :
    IsValue (Defaults.layout.floatText x) := by
  obtain ⟨whole, places, spells, text⟩ := Scalar.floatText_spells finite
  have front : IsRun (Scalar.withSign (Decimal.ofFloat x).negative whole) := by
    have some : whole ≠ [] := by
      intro none
      have led := spells.led
      rw [none] at led
      cases led
    have unsigned : IsRun whole := isRun_of_isDigit some spells.front
    cases (Decimal.ofFloat x).negative with
    | true => exact ⟨by simp [Scalar.withSign], List.forall_mem_cons.2 ⟨rfl, unsigned.plain⟩⟩
    | false => exact unsigned
  have split : Defaults.layout.floatText x
      = Scalar.withSign (Decimal.ofFloat x).negative whole ++ '.' :: places := by
    rw [text]
    cases (Decimal.ofFloat x).negative with
    | true => rfl
    | false => rfl
  rw [split]
  exact .pointed front (isRun_of_isDigit spells.nonempty spells.back)

end Toml

namespace Defaults

/-! ## Fields and sections -/

/-- The fields of each section as they are read. -/
def toSections (d : Defaults) : List (Kind × Entries) :=
  [(.text, [("evaluate", .bool d.text.evaluate)]),
    (.choose, [("threshold", .float d.choose.threshold), ("width", .integer d.choose.width.toNat)]),
    (.complete,
      [("threshold", .float d.complete.threshold), ("width", .integer d.complete.width.toNat),
        ("beams", .integer d.complete.beams.toNat), ("ahead", .integer d.complete.ahead.toNat),
        ("diversity", .float d.complete.diversity), ("repetition", .float d.complete.repetition)])]

/-- The entries of a file with these sections. -/
def toEntries (d : Defaults) : Entries :=
  d.toSections.map fun (kind, fields) => (kind.tag, .table .header fields)

/-- The statements of a file with these sections. -/
def toStatements (d : Defaults) : List Statement :=
  d.toSections.flatMap fun (kind, fields) =>
    .openTable [] kind.tag :: fields.map fun (key, item) => .assign [] key item

theorem addAll_toStatements (d : Defaults) :
    (Draft.addAll {} d.toStatements).map Draft.entries = some d.toEntries := rfl

theorem readWord?_integer (w : UInt32) : readWord? (.integer w.toNat) = some w := by
  have range : (0 : Int) ≤ w.toNat ∧ (w.toNat : Int) < 0x100000000 := by
    have := w.toNat_lt
    omega
  rw [readWord?, if_pos range, Int.toNat_natCast, UInt32.ofNat_toNat]

/-- A field that is there is read. -/
theorem Section.get?_of_lookup {α : Type} {fields : Entries} {key : String} {item : Item}
    (h : fields.lookup key = some item) (absent : α) (read : Item → Option α) :
    Section.get? ⟨Entries.find? fields⟩ key absent read = read item := by
  rw [Section.get?]
  dsimp only
  rw [Entries.find?, h]

/-- The section of a kind has the fields that were written for it. -/
theorem section?_toEntries (d : Defaults) {kind : Kind} {fields : Entries}
    (h : (kind, fields) ∈ d.toSections) : section? d.toEntries kind
      = some ⟨Entries.find? fields⟩ := by
  rcases List.mem_cons.1 h with h | h
  · cases h
    rfl
  · rcases List.mem_cons.1 h with h | h
    · cases h
      rfl
    · cases List.mem_singleton.1 h
      rfl

theorem ofEntries?_of_sections {entries : Entries} {text choose complete : Section}
    (ofText : section? entries .text = some text) (ofChoose : section? entries .choose = some choose)
    (ofComplete : section? entries .complete = some complete)
    (others : othersHaveValue (Kind.all.map Kind.tag) entries = true) :
    ofEntries? entries = ofSections? text choose complete := by
  rw [ofEntries?, ofText, ofChoose, ofComplete]
  exact if_pos others

theorem ofEntries?_toEntries (d : Defaults) : ofEntries? d.toEntries = some d := by
  have others : othersHaveValue (Kind.all.map Kind.tag) d.toEntries = true := rfl
  rw [ofEntries?_of_sections (section?_toEntries d List.mem_cons_self)
    (section?_toEntries d (List.mem_cons_of_mem _ List.mem_cons_self))
    (section?_toEntries d (List.mem_cons_of_mem _ (List.mem_cons_of_mem _ List.mem_cons_self)))
    others]
  unfold ofSections?
  extract_lets
  -- one field after the other
  repeat rw [Section.get?_of_lookup rfl]
  repeat rw [readWord?_integer]
  rfl

/-! ## The file of a table -/

/-- A line of a field is read as the assignment of its item. -/
theorem linesFrom_field {kind : Kind} {key : String} (known : key ∈ fieldKeys kind)
    {value : List Char} (written : IsValue value) {item : Item}
    (read : Scalar.item? value = some item) (rest : List Char) :
    linesFrom (fieldLine key value ++ rest) = (linesFrom rest).map (.assign [] key item :: ·) := by
  have named : ∀ kind, ∀ key ∈ fieldKeys kind,
      (key.toList ≠ [] ∧ (key.toList.all fun c => !Scan.ends c) = true)
        ∧ State.part? (.atom key.toList) = some key := by
    intro kind
    cases kind <;> decide
  obtain ⟨⟨ne, plain⟩, part⟩ := named kind key known
  exact linesFrom_fieldLine ⟨ne, isPlain_of_all plain⟩ part written read rest

theorem statements?_toToml {d : Defaults} (h : d.InRange) :
    statements? d.toToml = some d.toStatements := by
  have file : statements? d.toToml = linesFrom d.toToml := rfl
  have bool (kind key) (known : key ∈ fieldKeys kind) (b : Bool) :=
    linesFrom_field known (isValue_boolText b) (Scalar.item?_boolText b)
  have word (kind key) (known : key ∈ fieldKeys kind) (w : UInt32) :=
    linesFrom_field known (isValue_wordText w) (item?_wordText w)
  have float (kind key) (known : key ∈ fieldKeys kind) (x : Float) (finite : x.isFinite = true) :=
    linesFrom_field known (isValue_floatText finite) (Scalar.item?_floatText finite)
  rw [file, toToml]
  simp only [List.append_assoc, List.cons_append]
  rw [linesFrom_headerLine, bool .text "evaluate" (by decide), linesFrom_newline,
    linesFrom_headerLine, float .choose "threshold" (by decide) _ h.chooseThreshold.isFinite,
    word .choose "width" (by decide), linesFrom_newline,
    linesFrom_headerLine, float .complete "threshold" (by decide) _ h.completeThreshold.isFinite,
    word .complete "width" (by decide), word .complete "beams" (by decide),
    word .complete "ahead" (by decide), float .complete "diversity" (by decide) _ h.diversity,
    float .complete "repetition" (by decide) _ h.repetition, linesFrom_newline, linesFrom_nil]
  rfl

/-- **The table of a file that was written from a table in range is that table.** -/
theorem ofToml?_toToml {d : Defaults} (h : d.InRange) : ofToml? d.toToml = some d := by
  have entries : read? d.toToml = some d.toEntries := by
    rw [read?, statements?_toToml h, Option.bind_some]
    exact addAll_toStatements d
  rw [ofToml?, entries, Option.bind_some, ofEntries?_toEntries]

end Defaults

end Trellis
