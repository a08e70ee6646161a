import Trellis.Proofs.Wire.Schema

/-!
# Reloading a wire graph

A wire graph is written, read back as the same value, judged by the schema, decoded and validated.
The value is the same because it fits five levels; the decoding gives back the graph because what
the schema admits is finite.  So the schema's bounds come first, and behind them the validation
alone decides.
-/

namespace Trellis.Wire

open Json Value

/-! ## What is written fits -/

theorem fits_tokensValue (tokens : List TokenId) : (tokensValue tokens).Fits 1 :=
  fits_map fits_ofWord tokens

theorem Task.fits_members (task : Task) : ∀ m ∈ task.members, m.2.Fits 2 := by
  cases task
  all_goals
    simp only [members, List.forall_mem_cons, List.not_mem_nil, false_implies, implies_true,
      and_true]
  case text =>
    exact ⟨fits_bool _, (fits_tokensValue _).mono (by decide)⟩
  case choose =>
    exact ⟨fits_map fits_tokensValue _, fits_ofFloat _, fits_ofWord _⟩
  case complete =>
    exact ⟨fits_ofWord _, (fits_tokensValue _).mono (by decide), fits_map fits_bool _,
      fits_ofFloat _, fits_ofWord _, fits_ofWord _, fits_ofWord _, fits_ofFloat _, fits_ofFloat _⟩

theorem Record.fits_toValue (r : Record) : r.toValue.Fits 3 := by
  refine fits_object fun m hm => ?_
  simp only [List.mem_cons] at hm
  rcases hm with rfl | rfl | rfl | hm
  · exact fits_string _
  · exact fits_map fits_string _
  · exact fits_string _
  · exact r.task.fits_members m hm

theorem fits_toValue (w : Wire) : w.toValue.Fits 5 := by
  refine fits_object fun m hm => ?_
  rw [List.mem_singleton.1 hm]
  exact fits_map Record.fits_toValue _

theorem read?_toJson {w : Wire} (doubles : w.toValue.DoublesReadBack) :
    read? w.toJson = some w.toValue :=
  read?_pretty_of_fits (w.fits_toValue.mono (by decide)) doubles (by simp [Token.isBlank])

/-! ## What is written is decoded -/

theorem tokensOf?_tokensValue (tokens : List TokenId) :
    Task.tokensOf? (tokensValue tokens) = some tokens := asList?_map fun _ _ => asWord?_ofWord _

/-- The members of a record describe its task when its doubles are finite. -/
theorem Task.ofMembers?_toValue {r : Record} (h : r.task.InRange) :
    Task.ofMembers? r.toValue r.kind = some r.task := by
  obtain ⟨uid, successors, task⟩ := r
  cases task with
  | text evaluate tokens =>
    simp [Record.kind, kind, ofMembers?, field?, Record.toValue, members, lookup, Kind.key,
      tokensOf?_tokensValue, asBool?]
  | choose choices threshold width =>
    have lists : asList? tokensOf? (.array (choices.map tokensValue)) = some choices :=
      asList?_map fun _ _ => tokensOf?_tokensValue _
    simp [Record.kind, kind, ofMembers?, field?, Record.toValue, members, lookup, Kind.key,
      lists, asFloat?_ofFloat h.1.isFinite]
  | complete c =>
    have bits : asList? asBool? (.array (c.vocab.bits.map .bool)) = some c.vocab.bits :=
      asList?_map fun _ _ => rfl
    simp [Record.kind, kind, ofMembers?, field?, Record.toValue, members, lookup, Kind.key,
      tokensOf?_tokensValue, bits, asFloat?_ofFloat h.threshold.isFinite,
      asFloat?_ofFloat h.diversity, asFloat?_ofFloat h.repetition]

theorem Record.ofValue?_toValue {r : Record} (h : r.task.InRange) :
    ofValue? r.toValue = some r := by
  have uid : r.toValue.field? "uid" asString? = some r.uid := by rw [field?, get?_uid]; rfl
  have successors : r.toValue.field? "successors" (asList? asString?) = some r.successors := by
    rw [field?, get?_successors]
    exact asList?_ofStrings _
  have kind : r.toValue.field? Kind.key Kind.ofValue? = some r.kind := by
    rw [field?, get?_key]
    exact Kind.ofValue?_tag _
  simp [ofValue?, uid, successors, kind, Task.ofMembers?_toValue h]

theorem ofValue?_toValue {w : Wire} (h : ∀ r ∈ w.records, r.task.InRange) :
    ofValue? w.toValue = some w := by
  have records : asList? Record.ofValue? (.array (w.records.map Record.toValue))
      = some w.records := asList?_map fun r hr => Record.ofValue?_toValue (h r hr)
  simp [ofValue?, toValue, soleField?, field?, lookup, records]

/-! ## Reloading -/

section Reload

variable {w : Wire} (doubles : w.toValue.DoublesReadBack)

include doubles

/-- Within the bounds of the schema, the validation decides. -/
theorem reload_of_meetsSchema (meets : w.MeetsSchema) (vocabSize : Nat) :
    ofJson w.toJson vocabSize = match w.validate vocabSize with
      | .ok () => .ok w
      | .error d => .error (.defect d) := by
  have decoded := ofValue?_toValue fun r hr => (meets r hr).2
  simp only [ofJson, read?_toJson doubles, ofValue, Schema.isDocument_toValue.2 meets, if_true,
    decoded]
  cases w.validate vocabSize <;> rfl

/-- Outside of the bounds nothing else is looked at. -/
theorem reload_of_not_meetsSchema (fails : ¬ w.MeetsSchema) (vocabSize : Nat) :
    ofJson w.toJson vocabSize = .error .schema := by
  have refused : ¬ Schema.isDocument w.toValue = true := fun h =>
    fails (Schema.isDocument_toValue.1 h)
  simp only [ofJson, read?_toJson doubles, ofValue]
  rw [if_neg refused]

end Reload

/-- **A wire graph that is written and reloaded.**  An empty uid or an option out of range is
refused by the schema, whatever else is wrong; otherwise the outcome is that of the validation, with
the same defect, and what is loaded is the graph that was written. -/
theorem ofJson_toJson (w : Wire) (doubles : w.toValue.DoublesReadBack) (vocabSize : Nat) :
    ((∃ r ∈ w.records, r.uid = "" ∨ ¬ r.task.InRange) →
      ofJson w.toJson vocabSize = .error .schema)
    ∧ (¬ (∃ r ∈ w.records, r.uid = "" ∨ ¬ r.task.InRange) →
      (∀ d, w.validate vocabSize = .error d → ofJson w.toJson vocabSize = .error (.defect d))
      ∧ (w.validate vocabSize = .ok () → ofJson w.toJson vocabSize = .ok w)) := by
  rw [← not_meetsSchema_iff, Decidable.not_not]
  refine ⟨fun fails => reload_of_not_meetsSchema doubles fails vocabSize, fun meets => ?_⟩
  rw [reload_of_meetsSchema doubles meets]
  exact ⟨fun d h => by rw [h], fun h => by rw [h]⟩

/-- A choice between two literals, each of which goes on to a completion. -/
def sample : Wire where
  records :=
    [{ uid := "pick", successors := ["fill", "fill"], task := .choose [[0, 1], [2]] 0.5 2 },
      { uid := "fill", successors := [],
        task := .complete
          { length := 4, stop := [3], vocab := ⟨[true, true, false, true]⟩, threshold := 0.25,
            width := 1, beams := 1, ahead := 0, diversity := 1.0, repetition := 0.5 } }]

/-- For its own vocabulary the sample is loaded, for a smaller one its mask is refused. -/
theorem ofJson_toJson_sample :
    sample.toValue.DoublesReadBack
    ∧ ofJson sample.toJson 4 = .ok sample
    ∧ ofJson sample.toJson 3 = .error (.defect (.maskLength "fill" 3 4)) := by
  have doubles : sample.toValue.DoublesReadBack := by decide +kernel
  have meets : sample.MeetsSchema := by decide +kernel
  have bounds := mt not_meetsSchema_iff.2 (not_not_intro meets)
  refine ⟨doubles, ?_, ?_⟩
  · exact ((ofJson_toJson sample doubles 4).2 bounds).2 rfl
  · exact ((ofJson_toJson sample doubles 3).2 bounds).1 _ rfl

end Trellis.Wire
