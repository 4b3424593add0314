import TreeDrawing.Dot.Error
import TreeDrawing.Proofs.Json.Member

/-!
# Which documents hold a configuration

A document says of a palette which colours it has, and of a configuration which names, which label
and which palette. Both are records, so what is said comes under keys in any order or in the places
of the fields. This module adds how each single thing is said and what it sets.

## Main results

* `Palette.meets_reader` and `Config.meets_reader`: the readers take exactly the pieces of text that
  describe a palette or a configuration.
* `Palette.whole_reader` and `Config.whole_fields`: they stop where the value ends that they are
  given.
-/

namespace TreeDrawing.Dot

open Json

/-! ## Palettes -/

namespace Palette

/-- The colours that a palette has. -/
inductive Field where
  | interiorFill
  | interiorFont
  | leafFill
  | leafFont
  deriving DecidableEq

/-- The key under which a colour is given. -/
def Field.key : Field → String
  | interiorFill => "interior_fill"
  | interiorFont => "interior_font"
  | leafFill => "leaf_fill"
  | leafFont => "leaf_font"

/-- The colours, in the order in which they may be left out. -/
def Field.all : List Field := [.interiorFill, .interiorFont, .leafFill, .leafFont]

def keys : List String := Field.all.map Field.key

theorem nodup_keys : keys.Nodup := by decide

theorem Field.mem_all (f : Field) : f ∈ all := by cases f <;> decide

theorem Field.key_inj {f g : Field} : f.key = g.key ↔ f = g := by
  cases f <;> cases g <;> decide

/-- A colour by its field. -/
def get (p : Palette) : Field → String
  | .interiorFill => p.interiorFill
  | .interiorFont => p.interiorFont
  | .leafFill => p.leafFill
  | .leafFont => p.leafFont

/-- The palette with one colour changed. -/
def set (p : Palette) (t : String) : Field → Palette
  | .interiorFill => { p with interiorFill := t }
  | .interiorFont => { p with interiorFont := t }
  | .leafFill => { p with leafFill := t }
  | .leafFont => { p with leafFont := t }

theorem get_set (p : Palette) (t : String) (f g : Field) :
    (p.set t f).get g = if g = f then t else p.get g := by
  cases f <;> cases g <;> rfl

theorem ext_get {p q : Palette} (h : ∀ f, p.get f = q.get f) : p = q := by
  obtain ⟨a, b, c, d⟩ := p
  obtain ⟨a', b', c', d'⟩ := q
  rw [mk.injEq]
  exact ⟨h .interiorFill, h .interiorFont, h .leafFill, h .leafFont⟩

/-- What is said about a palette: a colour for one of its fields. -/
structure Setting where
  field : Field
  colour : String

namespace Setting

/-- The key under which it is said. -/
def key (a : Setting) : String := a.field.key

/-- How it is said. -/
def Text : Lang Setting := fun w a ↦ TextLiteral w a.colour

/-- What it changes. -/
def change (a : Setting) (p : Palette) : Palette := p.set a.colour a.field

theorem text_key_iff {w : List Char} {a : Setting} (f : Field) :
    Text w a ∧ a.key = f.key ↔ ∃ t, TextLiteral w t ∧ mk f t = a := by
  obtain ⟨g, t⟩ := a
  simp [Text, key, Field.key_inj, eq_comm, and_comm]

end Setting

theorem fields_eq_map :
    fields = Field.all.map fun f ↦ ⟨f.key, Reader.text.map fun t p ↦ p.set t f⟩ := rfl

/-- The fields of a palette read settings. -/
theorem describes : Describes fields Setting.key Setting.Text Setting.change where
  mem_keys a := List.mem_map_of_mem (Field.mem_all a.field)
  meets field hfield := by
    rw [fields_eq_map] at hfield
    obtain ⟨f, -, rfl⟩ := List.mem_map.1 hfield
    exact Reader.meets_text.field Setting.Text Setting.change (Setting.text_key_iff f)

/-- The pieces of text that describe a palette. -/
def Text : Lang Palette := fun w p ↦
  ∃ as, RecordText keys Setting.key Setting.Text w as ∧ p = changed Setting.change {} as

theorem meets_reader (room : ℕ) : (reader (room + 1)).Meets Text :=
  Reader.Meets.record describes "struct Palette" {}

/-- A reader of palettes stops where the value ends that it is given. -/
theorem whole_reader (room : ℕ) : (reader (room + 1)).Whole :=
  (meets_reader room).whole_record TextLiteral.valueText

theorem whole_fields : ∀ field ∈ fields, field.value.Whole := by
  intro field hfield
  rw [fields_eq_map] at hfield
  obtain ⟨f, -, rfl⟩ := List.mem_map.1 hfield
  exact Reader.whole_text.map fun t (p : Palette) ↦ p.set t f

end Palette

/-! ## Configurations -/

namespace Config

/-- What can be chosen about a drawing. -/
inductive Field where
  | toolName
  | graphName
  | missingLabel
  | palette
  deriving DecidableEq

/-- The key under which it is given. -/
def Field.key : Field → String
  | toolName => "tool_name"
  | graphName => "graph_name"
  | missingLabel => "missing_label"
  | palette => "palette"

/-- The choices, in the order in which they may be left out. -/
def Field.all : List Field := [.toolName, .graphName, .missingLabel, .palette]

def keys : List String := Field.all.map Field.key

theorem Field.mem_all (f : Field) : f ∈ all := by cases f <;> decide

/-- What is said about a configuration. -/
inductive Setting where
  | toolName (t : String)
  | graphName (t : String)
  | missingLabel (t : String)
  | palette (p : Palette)

namespace Setting

/-- What it is about. -/
def field : Setting → Field
  | toolName _ => .toolName
  | graphName _ => .graphName
  | missingLabel _ => .missingLabel
  | palette _ => .palette

/-- The key under which it is said. -/
def key (a : Setting) : String := a.field.key

/-- How it is said. -/
def Text : Lang Setting
  | w, toolName t => TextLiteral w t
  | w, graphName t => TextLiteral w t
  | w, missingLabel t => TextLiteral w t
  | w, palette p => Palette.Text w p

/-- What it changes. -/
def change : Setting → Config → Config
  | toolName t, c => { c with toolName := t }
  | graphName t, c => { c with graphName := t }
  | missingLabel t, c => { c with missingLabel := t }
  | palette p, c => { c with palette := p }

section

variable {w : List Char} {a : Setting}

theorem text_toolName_iff :
    Text w a ∧ a.key = "tool_name" ↔ ∃ t, TextLiteral w t ∧ toolName t = a := by
  cases a <;> simp [Text, key, field, Field.key]

theorem text_graphName_iff :
    Text w a ∧ a.key = "graph_name" ↔ ∃ t, TextLiteral w t ∧ graphName t = a := by
  cases a <;> simp [Text, key, field, Field.key]

theorem text_missingLabel_iff :
    Text w a ∧ a.key = "missing_label" ↔ ∃ t, TextLiteral w t ∧ missingLabel t = a := by
  cases a <;> simp [Text, key, field, Field.key]

theorem text_palette_iff :
    Text w a ∧ a.key = "palette" ↔ ∃ p, Palette.Text w p ∧ palette p = a := by
  cases a <;> simp [Text, key, field, Field.key]

end

end Setting

theorem nodup_keys : keys.Nodup := by decide

/-- The fields of a configuration read settings. -/
theorem describes (room : ℕ) :
    Describes (fields (room + 1)) Setting.key Setting.Text Setting.change where
  mem_keys a := List.mem_map_of_mem (Field.mem_all a.field)
  meets field hfield := by
    simp only [fields, List.mem_cons, List.not_mem_nil, or_false] at hfield
    obtain rfl | rfl | rfl | rfl := hfield
    · exact Reader.meets_text.field Setting.Text Setting.change Setting.text_toolName_iff
    · exact Reader.meets_text.field Setting.Text Setting.change Setting.text_graphName_iff
    · exact Reader.meets_text.field Setting.Text Setting.change Setting.text_missingLabel_iff
    · exact (Palette.meets_reader room).field Setting.Text Setting.change Setting.text_palette_iff

/-- The pieces of text that describe a configuration. -/
def Text : Lang Config := fun w c ↦
  ∃ as, RecordText keys Setting.key Setting.Text w as ∧ c = changed Setting.change {} as

theorem meets_reader (room : ℕ) : (reader (room + 2)).Meets Text :=
  Reader.Meets.record (describes room) "struct GraphvizConfig" {}

theorem whole_fields (room : ℕ) : ∀ field ∈ fields (room + 1), field.value.Whole := by
  intro field hfield
  simp only [fields, List.mem_cons, List.not_mem_nil, or_false] at hfield
  obtain rfl | rfl | rfl | rfl := hfield
  · exact Reader.whole_text.map fun t (c : Config) ↦ { c with toolName := t }
  · exact Reader.whole_text.map fun t (c : Config) ↦ { c with graphName := t }
  · exact Reader.whole_text.map fun t (c : Config) ↦ { c with missingLabel := t }
  · exact (Palette.whole_reader room).map fun p (c : Config) ↦ { c with palette := p }

theorem ofJson_eq_ok_iff_document {text : String} {c : Config} :
    ofJson text = .ok c ↔ (reader maxNesting).document text = .ok c := by
  unfold ofJson
  -- A failure is only wrapped.
  split
  · next h => rw [h, Except.ok.injEq, Except.ok.injEq]
  · next h => simp [h]

/-- A text is read as a configuration if and only if it is a document that describes it. -/
theorem ofJson_eq_ok_iff_text {text : String} {c : Config} :
    ofJson text = .ok c ↔ DocumentText Text text.toList c :=
  ofJson_eq_ok_iff_document.trans (meets_reader 125).document_eq_ok_iff

end Config

end TreeDrawing.Dot
