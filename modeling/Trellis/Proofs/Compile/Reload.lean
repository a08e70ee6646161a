import Trellis.Proofs.Compile.Validation
import Trellis.Proofs.Wire.Document

/-!
# Compiled graphs are reloaded

A compiled graph is within the bounds of the schema but for its uids, which are those of the graph:
an empty uid passes the validation of graphs, and the schema refuses it.  So a graph without an
empty uid survives being written and read back, provided that its literals stay in the vocabulary,
and any other one does not.
-/

namespace Trellis

open Asking

section Compiled

variable {g : Graph} {d : Defaults} {mask : Mask} {t : Tokenizer ρ} {w : Wire}

/-- The literals of a graph are tokenized within the vocabulary. -/
def Graph.Inside (t : Tokenizer ρ) (g : Graph) : Prop :=
  ∀ a ∈ g.actions, ∀ literal ∈ a.task.literals, ∀ tokens,
    t.tokenize literal false false = .ok tokens → ∀ token ∈ tokens, token.toNat < t.vocabSize

theorem spelled_of_compile (h : outcome (compile g d mask t) = .ok w) (inside : g.Inside t) :
    ∀ r ∈ w.records, r.Spelled t.vocabSize := by
  intro r hr token htoken
  rw [← Wire.Record.flatten_sequences] at htoken
  obtain ⟨tokens, hs, htoken⟩ := List.mem_flatten.1 htoken
  obtain ⟨a, ha, record⟩ := exists_recordOf h hr
  obtain ⟨literal, hl, spelled⟩ := Compile.exists_left_of_forall₂ record.task.sequences hs
  exact inside a ha literal hl tokens spelled token htoken

/-- The schema has nothing but an empty uid to refuse. -/
theorem meetsSchema_iff_of_compile (h : outcome (compile g d mask t) = .ok w) :
    w.MeetsSchema ↔ ∀ a ∈ g.actions, a.uid ≠ "" := by
  have uids : (∀ u ∈ w.uids, u ≠ "") ↔ ∀ u ∈ g.uids, u ≠ "" := by rw [uids_of_compile h]
  rw [Wire.uids, Graph.uids, List.forall_mem_map, List.forall_mem_map] at uids
  rw [← uids]
  exact ⟨fun meets r hr => (meets r hr).1,
    fun named r hr => ⟨named r hr, inRange_of_compile h r hr⟩⟩

/-- **When a compiled graph is reloaded.**  Where the literals stay in the vocabulary, a compiled
graph that is written and read back is the same graph, exactly when no uid is empty; an empty uid is
refused by the schema. -/
theorem reload_of_compile (h : outcome (compile g d mask t) = .ok w) (inside : g.Inside t)
    (doubles : w.toValue.DoublesReadBack) :
    ((∀ a ∈ g.actions, a.uid ≠ "") → Wire.ofJson w.toJson t.vocabSize = .ok w)
    ∧ ((∃ a ∈ g.actions, a.uid = "") → Wire.ofJson w.toJson t.vocabSize = .error .schema) := by
  have meets := meetsSchema_iff_of_compile h
  constructor
  · intro named
    have valid := (shaped_of_compile h).validate_eq_ok_iff.2 (spelled_of_compile h inside)
    rw [Wire.reload_of_meetsSchema doubles (meets.2 named), valid]
  · rintro ⟨a, ha, unnamed⟩
    exact Wire.reload_of_not_meetsSchema doubles (fun all => meets.1 all a ha unnamed) _

end Compiled

/-- No token of the sample's tokenizer lies beyond seven. -/
theorem inside_sampleTokenizer (g : Graph) : g.Inside (sampleTokenizer 7) := by
  intro a _ literal _ tokens spelled token htoken
  cases spelled
  obtain ⟨c, _, rfl⟩ := List.mem_map.1 htoken
  have small : c.toNat % 7 < 7 := Nat.mod_lt _ (by decide)
  rwa [UInt32.toNat_ofNat_of_lt' (Nat.lt_trans small (by decide))]

/-- The sample survives being written and read back. -/
theorem reload_of_compile_sample :
    sampleGraph.Inside (sampleTokenizer 7)
    ∧ Wire.ofJson (sampleWire 7).toJson 7 = .ok (sampleWire 7) := by
  have compiled : outcome (compile sampleGraph {} (.allowAll 7) (sampleTokenizer 7))
      = .ok (sampleWire 7) := rfl
  have inside := inside_sampleTokenizer sampleGraph
  have doubles : (sampleWire 7).toValue.DoublesReadBack := by decide +kernel
  exact ⟨inside, (reload_of_compile compiled inside doubles).1 (by decide)⟩

/-- A graph of one action, which has no name. -/
def unnamedGraph : Graph := .ofActions
  [{ uid := "", successors := [], task := .text "a" none }]

/-- A graph may pass every check before the compilation and not be reloaded: its uid is empty. -/
theorem not_reload_of_compile :
    ¬ ∀ (g : Graph) (d : Defaults) (mask : Mask) (t : Tokenizer) (w : Wire),
      outcome (compile g d mask t) = .ok w → g.Inside t → w.toValue.DoublesReadBack →
        Wire.ofJson w.toJson t.vocabSize = .ok w := by
  intro all
  have compiled : outcome (compile unnamedGraph {} (.allowAll 7) (sampleTokenizer 7))
      = .ok ⟨[{ uid := "", successors := [], task := .text true [6] }]⟩ := rfl
  have loaded := all _ _ _ _ _ compiled (inside_sampleTokenizer _) (by decide +kernel)
  rw [Wire.reload_of_not_meetsSchema (by decide +kernel) (by decide +kernel)] at loaded
  cases loaded

end Trellis
