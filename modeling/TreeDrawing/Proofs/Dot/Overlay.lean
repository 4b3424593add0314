import TreeDrawing.Proofs.Dot.Setting
import TreeDrawing.Proofs.Json.Writing

/-!
# A document replaces defaults

A document gives some of the fields of a configuration and, of its palette, some of the colours.
What it does not give is as in the default configuration or, inside a palette, as in the default
palette. The order of the fields, whatever stands under keys that are not known, and the form of
either record, an object or a list, make no difference. Only a known key that is used again does:
then nothing is read, so there is no question of which value counts.

## Main definitions

* `Palette.overlay` and `Config.overlay`: the defaults with some fields replaced.
* `Palette.Given` and `Config.Given`: the pieces of text that give these fields.
* `Config.RepeatText`: the objects and lists in which a known key is used again.

## Main results

* `ofJson_overlays_defaults`: what is read from them.
-/

namespace TreeDrawing.Dot

open Json

/-! ## Palettes -/

namespace Palette

/-- The default palette with the colours `fs` replaced by those of `p`. -/
def overlay (p : Palette) (fs : List Field) : Palette where
  interiorFill := if .interiorFill ∈ fs then p.interiorFill else ({} : Palette).interiorFill
  interiorFont := if .interiorFont ∈ fs then p.interiorFont else ({} : Palette).interiorFont
  leafFill := if .leafFill ∈ fs then p.leafFill else ({} : Palette).leafFill
  leafFont := if .leafFont ∈ fs then p.leafFont else ({} : Palette).leafFont

theorem get_overlay (p : Palette) (fs : List Field) (f : Field) :
    (p.overlay fs).get f = if f ∈ fs then p.get f else ({} : Palette).get f := by
  cases f <;> rfl

theorem overlay_all (p : Palette) : p.overlay Field.all = p := by
  refine ext_get fun f ↦ ?_
  rw [get_overlay, if_pos f.mem_all]

/-- What is said to give one colour as it is in `p`. -/
def setting (p : Palette) (f : Field) : Setting := ⟨f, p.get f⟩

/-- The pieces of text that give the colours `fs` as they are in `p`. -/
def Given (p : Palette) : Lang (List Field) :=
  RecordText keys Field.key fun w f ↦ TextLiteral w (p.get f)

theorem get_change (p q : Palette) (f g : Field) :
    ((p.setting f).change q).get g = if g = f then p.get g else q.get g := by
  rw [setting, Setting.change, get_set]
  by_cases h : g = f
  · rw [if_pos h, if_pos h, h]
  · rw [if_neg h, if_neg h]

theorem changed_settings (p : Palette) (fs : List Field) :
    changed Setting.change {} (fs.map p.setting) = p.overlay fs := by
  refine ext_get fun g ↦ ?_
  rw [get_overlay]
  exact get_changed_map p.get_change {} fs g

theorem Given.text {p : Palette} {w : List Char} {fs : List Field} (h : p.Given w fs) :
    Text w (p.overlay fs) := by
  refine ⟨fs.map p.setting, ?_, (p.changed_settings fs).symm⟩
  exact RecordText.map (f := p.setting) (fun _ ↦ rfl) (fun _ _ hw ↦ hw) h

end Palette

/-! ## Configurations -/

namespace Config

/-- The default configuration with the fields `fs` replaced by those of `c`, except that only the
colours `ps` of the palette are. -/
def overlay (c : Config) (fs : List Field) (ps : List Palette.Field) : Config where
  toolName := if .toolName ∈ fs then c.toolName else ({} : Config).toolName
  graphName := if .graphName ∈ fs then c.graphName else ({} : Config).graphName
  missingLabel := if .missingLabel ∈ fs then c.missingLabel else ({} : Config).missingLabel
  palette := if .palette ∈ fs then c.palette.overlay ps else ({} : Config).palette

/-- The pieces of text that give one field as it is in `c`, or only the colours `ps` of the
palette. -/
def FieldText (c : Config) (ps : List Palette.Field) : Lang Field
  | w, .toolName => TextLiteral w c.toolName
  | w, .graphName => TextLiteral w c.graphName
  | w, .missingLabel => TextLiteral w c.missingLabel
  | w, .palette => c.palette.Given w ps

/-- The pieces of text that give the fields `fs` as they are in `c`, but only the colours `ps` of
the palette if that is among them. -/
def Given (c : Config) (ps : List Palette.Field) : Lang (List Field) :=
  RecordText keys Field.key (c.FieldText ps)

/-- What is said to give one field as it is in `c`. -/
def setting (c : Config) : Field → Setting
  | .toolName => .toolName c.toolName
  | .graphName => .graphName c.graphName
  | .missingLabel => .missingLabel c.missingLabel
  | .palette => .palette c.palette

theorem key_setting (c : Config) (f : Field) : (c.setting f).key = f.key := by
  cases f <;> rfl

theorem ext_setting {c d : Config} (h : ∀ f, c.setting f = d.setting f) : c = d := by
  obtain ⟨a, b, m, p⟩ := c
  obtain ⟨a', b', m', p'⟩ := d
  rw [mk.injEq]
  exact ⟨Setting.toolName.inj (h .toolName), Setting.graphName.inj (h .graphName),
    Setting.missingLabel.inj (h .missingLabel), Setting.palette.inj (h .palette)⟩

theorem setting_change (c d : Config) (f g : Field) :
    ((c.setting f).change d).setting g = if g = f then c.setting g else d.setting g := by
  cases f <;> cases g <;> rfl

/-- Of the palette, only the chosen colours are given. -/
theorem setting_overlay (c : Config) (fs : List Field) (ps : List Palette.Field) (f : Field) :
    (c.overlay fs ps).setting f =
      if f ∈ fs then { c with palette := c.palette.overlay ps }.setting f
      else ({} : Config).setting f := by
  cases f <;> exact apply_ite _ _ _ _

theorem changed_settings (c : Config) (fs : List Field) (ps : List Palette.Field) :
    changed Setting.change {} (fs.map { c with palette := c.palette.overlay ps }.setting) =
      c.overlay fs ps := by
  refine ext_setting fun g ↦ ?_
  rw [setting_overlay]
  exact get_changed_map (setting_change _) {} fs g

theorem Given.text {c : Config} {ps : List Palette.Field} {w : List Char} {fs : List Field}
    (h : c.Given ps w fs) : Text w (c.overlay fs ps) := by
  refine ⟨_, h.map (key_setting _) fun w f hw ↦ ?_, (c.changed_settings fs ps).symm⟩
  cases f with
  | toolName | graphName | missingLabel => exact hw
  | palette => exact Palette.Given.text hw

/-- What a document gives replaces the defaults. -/
theorem ofJson_of_given {c : Config} {text : String} {fs : List Field} {ps : List Palette.Field}
    (h : DocumentText (c.Given ps) text.toList fs) : ofJson text = .ok (c.overlay fs ps) := by
  obtain ⟨g, w, s, hs, hg, hw, hs'⟩ := h
  exact ofJson_eq_ok_iff_text.2 ⟨g, w, s, hs, hg, hw.text, hs'⟩

end Config

/-! ## Keys that are used again -/

/-- The objects in which a known key stands before two members. -/
def RepeatedKey (keys : List String) : Lang String := fun w k ↦
  k ∈ keys ∧ ∃ ms, ObjectText w ms ∧ (ms.map Prod.fst).Duplicate k

/-- The objects and lists in which a known key is used again: one of a configuration, or one of a
palette where that of a configuration is expected. -/
inductive Config.RepeatText : Lang String
  | own {w : List Char} {k : String} (h : RepeatedKey keys w k) : RepeatText w k
  | inObject {w v : List Char} {k : String} {ms : List (String × List Char)}
      (hw : ObjectText w ms) (hv : ("palette", v) ∈ ms) (h : RepeatedKey Palette.keys v k) :
    RepeatText w k
  | inList {w v : List Char} {k : String} {vs : List (List Char)} (hw : ListText w vs)
      (hv : vs[3]? = some v) (h : RepeatedKey Palette.keys v k) : RepeatText w k

/-- A value in which a colour is given again is none that a field takes for a palette. -/
theorem Palette.not_takes_of_repeated {room : ℕ} {v : List Char} {key k : String}
    {f : Palette → Config → Config} (h : RepeatedKey keys v k) :
    ¬ RecordField.Takes ⟨key, (reader (room + 1)).map f⟩ v := by
  rintro ⟨g, s, _, hg, hread⟩
  obtain ⟨hk, ms, hv, hdup⟩ := h
  obtain ⟨⟨p, rest⟩, hp, -⟩ := map_eq_ok_iff.1 hread
  exact (Reader.record_admits whole_fields hg hv hp).distinct k hk hdup

namespace Config

/-- A piece in which a known key is used again is not read, whatever follows it. -/
theorem read_ne_ok_of_repeat {room : ℕ} {g w s rest : List Char} {k : String} {c : Config}
    (hg : Blank g) (h : RepeatText w k) :
    (reader (room + 2)).read (g ++ (w ++ s)) ≠ .ok (c, rest) := by
  intro hread
  cases h with
  | own h =>
    obtain ⟨hk, ms, hw, hdup⟩ := h
    exact (Reader.record_admits (whole_fields room) hg hw hread).distinct k hk hdup
  | inObject hw hv h =>
    have hadmits := Reader.record_admits (whole_fields room) hg hw hread
    exact Palette.not_takes_of_repeated h (hadmits.takes _ hv _ rfl)
  | inList hw hv h =>
    exact Palette.not_takes_of_repeated h
      (Reader.record_takes (whole_fields room) hg hw hread (i := 3) rfl hv)

/-- What is wrong with a document that is not read is that it is no configuration. -/
theorem exists_error_of_repeat {text : String} {k : String}
    (h : DocumentText RepeatText text.toList k) :
    ∃ e, ofJson text = .error (.config "Failed to parse Graphviz config" e) := by
  unfold ofJson
  split
  · next c hc =>
    obtain ⟨g, w, s, rest, hg, hw, hread⟩ := Reader.exists_read_of_document hc h
    exact absurd hread (read_ne_ok_of_repeat hg hw)
  · next e _ => exact ⟨e, rfl⟩

end Config

/-! ## Documents that are written -/

/-- The characters of a written palette. -/
def Palette.chars (p : Palette) : List Char :=
  '\x7b' :: entriesChars (fun f ↦ entryChars f.key (textChars (p.get f))) true Field.all

theorem Palette.toList_write (p : Palette) (out : String) :
    (p.write out).toList = out.toList ++ p.chars := by
  simp only [write, String.toList_push, toList_writeEntry, chars, Field.all, entriesChars, get,
    Field.key, List.append_assoc, List.cons_append, List.nil_append]

theorem Palette.given_chars (p : Palette) : p.Given p.chars Field.all := by
  refine RecordText.of_entries (Entries.written (fun f ↦ ?_) true _) nodup_keys
  exact textLiteral_textChars (p.get f)

namespace Config

/-- The characters of a written field. -/
def fieldChars (c : Config) : Field → List Char
  | .toolName => textChars c.toolName
  | .graphName => textChars c.graphName
  | .missingLabel => textChars c.missingLabel
  | .palette => c.palette.chars

/-- The characters of a written configuration. -/
def chars (c : Config) : List Char :=
  '\x7b' :: entriesChars (fun f ↦ entryChars f.key (c.fieldChars f)) true Field.all

theorem toList_toJson (c : Config) : c.toJson.toList = c.chars := by
  simp only [toJson, write, String.toList_push, Palette.toList_write, toList_writeKey,
    toList_writeEntry, chars, fieldChars, Field.all, entriesChars, entryChars, Field.key,
    List.append_assoc, List.cons_append, List.nil_append]
  rfl

theorem given_chars (c : Config) : c.Given Palette.Field.all c.chars Field.all := by
  refine RecordText.of_entries (Entries.written (fun f ↦ ?_) true _) nodup_keys
  cases f with
  | toolName | graphName | missingLabel => exact textLiteral_textChars _
  | palette => exact c.palette.given_chars

theorem overlay_all (c : Config) : c.overlay Field.all Palette.Field.all = c := by
  refine ext_setting fun f ↦ ?_
  rw [setting_overlay, if_pos f.mem_all, Palette.overlay_all]

/-- A configuration is read back as it was written. -/
theorem ofJson_toJson (c : Config) : ofJson c.toJson = .ok c := by
  have hgiven : DocumentText (c.Given Palette.Field.all) c.toJson.toList Field.all := by
    rw [c.toList_toJson]
    exact ⟨[], c.chars, [], (List.append_nil _).symm, blank_nil, c.given_chars, blank_nil⟩
  rw [ofJson_of_given hgiven, c.overlay_all]

end Config

/-- **A document replaces defaults.** If a text gives some fields of a configuration and some
colours of its palette, in any order and form and among anything under other keys, then what is read
is the default configuration with just these replaced. If a known key is used again, it is not read.
And a configuration is read back as it was written. -/
theorem ofJson_overlays_defaults (text : String) :
    (∀ (c : Config) (fs : List Config.Field) (ps : List Palette.Field),
        DocumentText (c.Given ps) text.toList fs →
          Config.ofJson text = .ok (c.overlay fs ps)) ∧
      (∀ k, DocumentText Config.RepeatText text.toList k →
        ∃ e, Config.ofJson text = .error (.config "Failed to parse Graphviz config" e)) ∧
      ∀ c : Config, Config.ofJson c.toJson = .ok c :=
  ⟨fun _ _ _ h ↦ Config.ofJson_of_given h, fun _ h ↦ Config.exists_error_of_repeat h,
    Config.ofJson_toJson⟩

/-- A palette in the form of a list, behind a key that is not known; and a key that is used
again. -/
theorem ofJson_overlays_defaults_red :
    Config.ofJson "\x7b\"x\":null,\"palette\":[\"red\"]\x7d" =
        .ok { palette := { interiorFill := "red" } } ∧
      ∃ e, Config.ofJson "\x7b\"tool_name\":\"a\",\"tool_name\":\"b\"\x7d" =
        .error (.config "Failed to parse Graphviz config" e) := by
  constructor
  · let c : Config := { palette := { interiorFill := "red" } }
    have hpalette : c.FieldText [.interiorFill] ('[' :: (textChars "red" ++ [']'])) .palette :=
      .listed ⟨_, rfl, .first (textLiteral_textChars "red") .done⟩ (by decide)
    have hunknown : EntryText Config.keys Config.Field.key (c.FieldText [.interiorFill])
        (entryChars "x" ['n', 'u', 'l', 'l']) none :=
      .unknown (c := [':']) (g := []) (textLiteral_textChars "x") (by decide) (Sign.self ':')
        blank_nil (.scalar .null)
    have hgiven : c.Given [.interiorFill] _ [.palette] :=
      .named ⟨_, rfl, .first hunknown (.further (EntryText.written hpalette) .done)⟩ (by decide)
    exact (ofJson_overlays_defaults _).1 c [.palette] [.interiorFill]
      ⟨[], _, [], by decide, blank_nil, hgiven, blank_nil⟩
  · have hmember : ∀ t, MemberText (entryChars "tool_name" (textChars t))
        ("tool_name", textChars t) := by
      intro t
      exact .mk (c := [':']) (g := []) (textLiteral_textChars "tool_name") (Sign.self ':')
        blank_nil (textLiteral_textChars t).valueText
    have hobject : ObjectText _ [("tool_name", textChars "a"), ("tool_name", textChars "b")] :=
      ⟨_, rfl, .first (hmember "a") (.further (hmember "b") .done)⟩
    have hrepeat : Config.RepeatText _ "tool_name" := .own ⟨by decide, _, hobject, by decide⟩
    exact (ofJson_overlays_defaults _).2.1 "tool_name"
      ⟨[], _, [], by decide, blank_nil, hrepeat, blank_nil⟩

end TreeDrawing.Dot
