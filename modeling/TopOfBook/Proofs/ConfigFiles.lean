import TopOfBook.Json.Writer
import TopOfBook.Proofs.EventText
import TopOfBook.Proofs.OmittedFields
import TopOfBook.Proofs.TextLines

/-! Configurations that are written whole. Whatever its values, valid or not, a configuration reads
back from its text as it was. A file that holds the text is loaded when the configuration passes its
checks, and otherwise it is refused for what the checks find, never for its form. -/

namespace TopOfBook

namespace Json

/-- How a written value is laid out: on one line, or spread over indented lines. -/
inductive Layout
  | compact
  | indented
deriving DecidableEq, Repr

def Layout.write : Layout → Json → String
  | compact, v => v.compact
  | indented, v => v.indented

theorem Layout.read?_write (layout : Layout) {v : Json} (h : Plain v) :
    read? (layout.write v) = some v := by
  cases layout with
  | compact => exact read?_compact h
  | indented => exact read?_indented h

end Json

namespace EngineConfig

/-- With nothing left out the configuration is as it is written. -/
theorem partialJson_empty (c : EngineConfig) : c.partialJson ⟨∅, ∅, ∅⟩ = c.toJson := by
  rw [partialJson_eq, Json.without_record, Json.remaining_empty, StatisticsConfig.toJson,
    StatisticsConfig.toJson, Json.without_record, Json.without_record, Json.remaining_empty,
    Json.remaining_empty]
  rfl

theorem withDefaults_empty (c : EngineConfig) (inner : StatisticsConfig) :
    c.withDefaults ⟨∅, ∅, ∅⟩ inner = c := rfl

theorem ofJson?_toJson (c : EngineConfig) : ofJson? c.toJson = some c := by
  rw [← partialJson_empty, ofJson?_partialJson, withDefaults_empty]

/-- A file is read as the text that it was written from. -/
theorem load_toUTF8 (text : String) : load (some text.toUTF8) = ofText text := by
  have hbytes : String.fromUTF8? text.toUTF8 = some text := Text.fromUTF8?_bytes text
  rw [load, Option.bind_some, hbytes]

/-- The checks alone decide whether a text that reads as a configuration is accepted. -/
theorem ofText_of_read {text : String} {c : EngineConfig}
    (h : (Json.read? text).bind ofJson? = some c) :
    ofText text = match c.validate with
      | .error fault => .error (.invalid fault)
      | .ok () => .ok c := by
  cases hvalid : c.validate <;> simp only [ofText, h, hvalid]

/-- A configuration reads back from its text, in either layout. A file with that text is loaded, as
the same configuration, if and only if the checks pass, and is refused with a fault if and only if
the checks find it. -/
theorem load_toJson (c : EngineConfig) (layout : Json.Layout) :
    (Json.read? (layout.write c.toJson)).bind ofJson? = some c ∧
    (load (some (layout.write c.toJson).toUTF8) = .ok c ↔ c.validate = .ok ()) ∧
    ∀ fault, load (some (layout.write c.toJson).toUTF8) = .error (.invalid fault) ↔
      c.validate = .error fault := by
  have hread : (Json.read? (layout.write c.toJson)).bind ofJson? = some c := by
    rw [layout.read?_write c.plain_toJson, Option.bind_some, ofJson?_toJson]
  refine ⟨hread, ?_⟩
  rw [load_toUTF8, ofText_of_read hread]
  cases c.validate with
  | ok _ => simp
  | error found => simp

end EngineConfig
end TopOfBook
