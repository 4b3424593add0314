import Mathlib.Data.List.Duplicate
import TreeDrawing.Proofs.Json.Record

/-!
# Objects member by member

The grammar of records looks at an object with certain keys in mind. Without any in mind, an object
is a list of members, each a key and a value that only has to be well formed, and a list is a list
of values. This module asks what can be said about such an object or list if it could be read as a
record: no key of the record stands before two members, and every value in the place of a field is
one that the field reads.

What makes this more than a reading of definitions is that the value of a member ends where the
grammar says, while a reader stops where it sees fit. `Reader.Whole` is the law that a reader stops
where the value ends that it has been given, and it holds of every reader of texts or records.

## Main definitions

* `ObjectText` and `ListText`: objects and lists of any values.
* `Reader.Whole`: what is read is a whole value.
* `Admits`: what fields allow the members of an object to be.

## Main results

* `Reader.record_admits` and `Reader.record_takes`: what can be read as a record.
-/

namespace TreeDrawing.Json

variable {α β ι σ : Type}

/-! ## Objects and lists of any values -/

/-- A member of an object: a key, and the text of a value. -/
inductive MemberText : Lang (String × List Char)
  | mk {w c g v : List Char} {k : String} (hw : TextLiteral w k) (hc : Sign ':' c) (hg : Blank g)
      (hv : ValueText v) : MemberText (w ++ (c ++ (g ++ v))) (k, v)

/-- An object, given by its members. -/
def ObjectText : Lang (List (String × List Char)) := Enclosed '\x7b' '\x7d' MemberText

/-- A value, given by its text. -/
def ItemText : Lang (List Char) := fun w v ↦ ValueText w ∧ w = v

/-- A list, given by the texts of its items. -/
def ListText : Lang (List (List Char)) := Enclosed '[' ']' ItemText

theorem ObjectText.begins {w : List Char} {ms : List (String × List Char)}
    (h : ObjectText w ms) : Begins w := by
  obtain ⟨v, rfl, -⟩ := h
  exact ⟨'\x7b', v, rfl, by decide, by decide⟩

theorem ListText.begins {w : List Char} {vs : List (List Char)} (h : ListText w vs) :
    Begins w := by
  obtain ⟨v, rfl, -⟩ := h
  exact ⟨'[', v, rfl, by decide, by decide⟩

/-! ## Texts and records are values -/

theorem TextTail.looseTail {w : List Char} {cs : List Char} (h : TextTail w cs) :
    LooseTail w := by
  induction h with
  | close => exact .close
  | char hw _ ih => exact .char hw ih

theorem TextLiteral.valueText {w : List Char} {t : String} (h : TextLiteral w t) :
    ValueText w := by
  obtain ⟨v, rfl, hv⟩ := h
  exact .scalar (.text hv.looseTail)

/-- Items make well-formed entries if each of them is a value behind what must stand before it. -/
theorem Entries.valueEntries {b : Bracket} {L : Lang α} {first : Bool} {w : List Char}
    {as : List α} (h : Entries b.close L first w as)
    (hL : ∀ {g w a}, Blank g → L w a →
      ∃ k g' v, g ++ w = k ++ (g' ++ v) ∧ LooseKey b k ∧ Blank g' ∧ ValueText v) :
    ValueEntries b first w := by
  induction h with
  | close hw => exact .close hw
  | @entry first c g w v a as hc hg hw _ ih =>
    obtain ⟨k, g', x, heq, hk, hg', hx⟩ := hL hg hw
    have hshape : c ++ (g ++ (w ++ v)) = c ++ (k ++ (g' ++ (x ++ v))) := by
      rw [← List.append_assoc g, heq]
      simp only [List.append_assoc]
    rw [hshape]
    exact .entry hc hk hg' hx ih

section

variable {keys : List String} {key : ι → String} {item : Lang ι}

/-- An entry is a value behind its key. -/
theorem EntryText.exists_value (hitem : ∀ {v a}, item v a → ValueText v) {g w : List Char}
    {e : Option ι} (hg : Blank g) (h : EntryText keys key item w e) :
    ∃ k g' v, g ++ w = k ++ (g' ++ v) ∧ LooseKey .object k ∧ Blank g' ∧ ValueText v := by
  have hkey : ∀ {u c : List Char} {k : String}, TextLiteral u k → Sign ':' c →
      LooseKey .object (g ++ (u ++ c)) := by
    rintro u c k ⟨u, rfl, hu⟩ hc
    exact ⟨g, u, c, hg, hu.looseTail, hc, rfl⟩
  cases h with
  | known hw hc hg' hv => exact ⟨_, _, _, by simp, hkey hw hc, hg', hitem hv⟩
  | unknown hw _ hc hg' hv => exact ⟨_, _, _, by simp, hkey hw hc, hg', hv⟩

/-- A record is a bracket with well-formed entries if everything said in it is a value. -/
theorem RecordText.exists_entries {w : List Char} {as : List ι}
    (h : RecordText keys key item w as) (hitem : ∀ {v a}, item v a → ValueText v) :
    ∃ (b : Bracket) (u : List Char), w = b.opening :: u ∧ ValueEntries b true u := by
  cases h with
  | named hw =>
    obtain ⟨u, rfl, hu⟩ := hw
    refine ⟨.object, u, rfl, Entries.valueEntries hu ?_⟩
    exact fun hg hw ↦ hw.exists_value hitem hg
  | listed hw =>
    obtain ⟨u, rfl, hu⟩ := hw
    refine ⟨.list, u, rfl, Entries.valueEntries hu ?_⟩
    exact fun hg hw ↦ ⟨[], _, _, rfl, rfl, hg, hitem hw⟩

end

/-! ## Where a value ends -/

/-- What is read is a whole value: passing over it leads to the same place. -/
def Reader.Whole (r : Reader α) : Prop :=
  ∀ ⦃s : List Char⦄ ⦃a : α⦄ ⦃rest : List Char⦄, r.read s = .ok (a, rest) → skipValue s = .ok rest

theorem Reader.Whole.map {r : Reader α} (h : r.Whole) (f : α → β) : (r.map f).Whole := by
  intro s b rest hb
  obtain ⟨⟨a, rest'⟩, ha, heq⟩ := map_eq_ok_iff.1 hb
  rw [Prod.mk.injEq] at heq
  exact heq.2 ▸ h ha

/-- A reader stops where the value ends that it is given. -/
theorem Reader.Whole.rest_eq {r : Reader α} (h : r.Whole) {g v s rest : List Char} {a : α}
    (hg : Blank g) (hv : ValueText v) (hs : EndsNumber s)
    (ha : r.read (g ++ (v ++ s)) = .ok (a, rest)) : rest = s :=
  Except.ok.inj ((h ha).symm.trans (skipValue_append hg hv hs))

/-- Between quotes, a value ends of itself. -/
theorem skipValue_quoted {g v : List Char} (hg : Blank g) (hv : LooseTail v) (s : List Char) :
    skipValue (g ++ ('"' :: v ++ s)) = .ok s := by
  have hskip := (ScalarText.text hv).begins.skipBlanks_append hg s
  have hbeginning : readBeginning (g ++ ('"' :: v ++ s)) = .ok (.scalar s) := by
    unfold readBeginning
    rw [hskip]
    exact map_scalar_eq_ok_iff.2 (skipText_eq_ok_iff.2 ⟨v, rfl, hv⟩)
  rw [skipValue, skipFrom_of_scalar hbeginning, skipFrom_between_nil]

/-- And so it does between brackets. -/
theorem skipValue_enclosed {b : Bracket} {g v : List Char} (hg : Blank g)
    (hv : ValueEntries b true v) (s : List Char) :
    skipValue (g ++ (b.opening :: v ++ s)) = .ok s := by
  have hskip := (ValueText.enclosed hv).begins.skipBlanks_append hg s
  rw [skipValue, skipFrom_of_bracket (readBeginning_bracket_iff.2 hskip)]
  exact (hv.passes [] s).trans skipFrom_between_nil

theorem Reader.whole_text : Reader.text.Whole := by
  intro s t rest ht
  obtain ⟨g, w, rfl, hg, v, rfl, hv⟩ := meets_text.read_eq_ok_iff.1 ht
  exact skipValue_quoted hg hv.looseTail rest

/-- A reader of records reads whole values, if there are only values to be read in them. -/
theorem Reader.Meets.whole_record {r : Reader σ} {keys : List String} {key : ι → String}
    {item : Lang ι} {f : List ι → σ}
    (h : r.Meets fun w x ↦ ∃ as, RecordText keys key item w as ∧ x = f as)
    (hitem : ∀ {v a}, item v a → ValueText v) : r.Whole := by
  intro s x rest hx
  obtain ⟨g, w, rfl, hg, as, hw, -⟩ := h.read_eq_ok_iff.1 hx
  obtain ⟨b, u, rfl, hu⟩ := hw.exists_entries hitem
  exact skipValue_enclosed hg hu rest

/-! ## What fields take -/

section Fields

variable {fields : List (RecordField σ)}

/-- The field reads the value with this text, in some place. -/
def RecordField.Takes (field : RecordField σ) (v : List Char) : Prop :=
  ∃ g s f, Blank g ∧ field.value.read (g ++ (v ++ s)) = .ok (f, s)

/-- What fields allow the members of an object to be, when some keys have been given before. -/
structure Admits (fields : List (RecordField σ)) (given : List String)
    (ms : List (String × List Char)) : Prop where
  fresh : ∀ k ∈ fields.map (·.key), k ∈ given → k ∉ ms.map Prod.fst
  distinct : ∀ k ∈ fields.map (·.key), ¬ (ms.map Prod.fst).Duplicate k
  takes : ∀ m ∈ ms, ∀ field ∈ fields.find? (·.key = m.1), field.Takes m.2

theorem admits_nil (given : List String) : Admits fields given [] where
  fresh _ _ _ := List.not_mem_nil
  distinct _ _ := List.not_duplicate_nil _
  takes _ hm := absurd hm List.not_mem_nil

/-- A member may stand before others if its key is none of a field. -/
theorem Admits.cons_unknown {given : List String} {m : String × List Char}
    {ms : List (String × List Char)} (h : Admits fields given ms)
    (hm : fields.find? (·.key = m.1) = none) : Admits fields given (m :: ms) := by
  have hne : ∀ k ∈ fields.map (·.key), k ≠ m.1 := by
    rintro k hk rfl
    obtain ⟨field, hf, hkey⟩ := List.mem_map.1 hk
    exact List.find?_eq_none.1 hm field hf (by simpa using hkey)
  constructor
  · intro k hk hgiven hmem
    obtain heq | hmem := List.mem_cons.1 hmem
    · exact hne k hk heq
    · exact h.fresh k hk hgiven hmem
  · intro k hk hdup
    obtain ⟨heq, -⟩ | hdup := List.duplicate_cons_iff.1 hdup
    · exact hne k hk heq.symm
    · exact h.distinct k hk hdup
  · rintro m' hm' field hfield
    obtain rfl | hm' := List.mem_cons.1 hm'
    · exact nomatch hm.symm.trans hfield
    · exact h.takes m' hm' field hfield

/-- A member may stand before others if its key is that of a field that takes its value, and has
not been given before, and if the others can do with its having been given. -/
theorem Admits.cons_known {given : List String} {m : String × List Char}
    {ms : List (String × List Char)} (h : Admits fields (m.1 :: given) ms)
    (hm : m.1 ∉ given) {field : RecordField σ} (hfield : fields.find? (·.key = m.1) = some field)
    (htakes : field.Takes m.2) : Admits fields given (m :: ms) := by
  constructor
  · intro k hk hgiven hmem
    obtain rfl | hmem := List.mem_cons.1 hmem
    · exact hm hgiven
    · exact h.fresh k hk (List.mem_cons_of_mem _ hgiven) hmem
  · intro k hk hdup
    obtain ⟨rfl, hmem⟩ | hdup := List.duplicate_cons_iff.1 hdup
    · exact h.fresh _ hk List.mem_cons_self hmem
    · exact h.distinct k hk hdup
  · rintro m' hm' field' hfield'
    obtain rfl | hm' := List.mem_cons.1 hm'
    · obtain rfl : field = field' := Option.some.inj (hfield.symm.trans hfield')
      exact htakes
    · exact h.takes m' hm' field' hfield'

/-! ## Objects that are read -/

/-- One member: its key is passed over or given for the first time, and then its field takes its
value. Either way, the member is read to its end. -/
theorem readMember_member (hfields : ∀ field ∈ fields, field.value.Whole) {p q : Progress σ}
    {w c g v s rest : List Char} {k : String} (hw : TextLiteral ('"' :: w) k) (hc : Sign ':' c)
    (hg : Blank g) (hv : ValueText v) (hs : EndsNumber s)
    (h : readMember fields p (w ++ (c ++ (g ++ (v ++ s)))) = .ok (q, rest)) :
    rest = s ∧ ((fields.find? (·.key = k) = none ∧ q.given = p.given) ∨
      ∃ field, fields.find? (·.key = k) = some field ∧ k ∉ p.given ∧ q.given = k :: p.given ∧
        field.Takes v) := by
  obtain ⟨⟨k', s₁⟩, hkey, h₁⟩ := bind_eq_ok_iff.1 h
  obtain ⟨rfl, rfl⟩ := ok_inj (hkey.symm.trans (readText_nil_eq_ok_iff.2 ⟨w, rfl, hw⟩))
  have hcolon : colon (c ++ (g ++ (v ++ s))) = .ok (g ++ (v ++ s)) :=
    colon_eq_ok_iff.2 ⟨c, rfl, hc⟩
  dsimp only at h₁
  split at h₁
  · next hfind =>
    obtain ⟨s₂, h₂, hs₂⟩ := bind_eq_ok_iff.1 h₁
    obtain rfl := Except.ok.inj (h₂.symm.trans hcolon)
    obtain ⟨s₃, h₃, hs₃⟩ := bind_eq_ok_iff.1 hs₂
    obtain rfl := Except.ok.inj (h₃.symm.trans (skipValue_append hg hv hs))
    obtain ⟨rfl, rfl⟩ := ok_inj hs₃
    exact ⟨rfl, .inl ⟨hfind, rfl⟩⟩
  · next field hfind =>
    split at h₁
    · simp at h₁
    · next hgiven =>
      obtain ⟨s₂, h₂, hs₂⟩ := bind_eq_ok_iff.1 h₁
      obtain rfl := Except.ok.inj (h₂.symm.trans hcolon)
      obtain ⟨⟨f, s₃⟩, h₃, hs₃⟩ := bind_eq_ok_iff.1 hs₂
      obtain rfl := (hfields field (List.mem_of_find?_eq_some hfind)).rest_eq hg hv hs h₃
      obtain ⟨rfl, rfl⟩ := ok_inj hs₃
      exact ⟨rfl, .inr ⟨field, hfind, hgiven, rfl, g, _, f, hg, h₃⟩⟩

theorem readMembers_admits (hfields : ∀ field ∈ fields, field.value.Whole) {first : Bool}
    {w : List Char} {ms : List (String × List Char)}
    (hw : Entries '\x7d' MemberText first w ms) {p : Progress σ} {x : σ} {s rest : List Char}
    (h : readMembers fields p first (w ++ s) = .ok (x, rest)) : Admits fields p.given ms := by
  induction hw generalizing p with
  | close => exact admits_nil _
  | @entry first c g _ v m ms hc hg hm hv ih =>
    have hs : EndsNumber (v ++ s) := Entries.endsNumber (b := .object) hv s
    obtain ⟨hk, hc', hg', hx⟩ := hm
    obtain ⟨u, rfl, -⟩ := id hk
    rw [readMembers_eq_bind] at h
    simp only [List.append_assoc, List.cons_append] at h
    obtain ⟨following, hf, h₁⟩ := bind_eq_ok_iff.1 h
    obtain rfl := Except.ok.inj (hf.symm.trans (readKey_append hc hg _))
    obtain ⟨⟨q, r⟩, hq, hr⟩ := bind_eq_ok_iff.1 h₁
    obtain ⟨rfl, ⟨hfind, hgiven⟩ | ⟨field, hfind, hfresh, hgiven, htakes⟩⟩ :=
      readMember_member hfields hk hc' hg' hx hs hq
    · exact (hgiven ▸ ih hr).cons_unknown hfind
    · exact (hgiven ▸ ih hr).cons_known hfresh hfind htakes

/-- Fields take the items of a list one by one. -/
theorem readFields_takes (hfields : ∀ field ∈ fields, field.value.Whole) {first : Bool}
    {w : List Char} {vs : List (List Char)} (hw : Entries ']' ItemText first w vs) {x y : σ}
    {s rest : List Char} (h : readFields x first (w ++ s) fields = .ok (y, rest)) {i : ℕ}
    {field : RecordField σ} (hfield : field ∈ fields[i]?) {v : List Char} (hv : v ∈ vs[i]?) :
    field.Takes v := by
  induction hw generalizing x fields i with
  | close => simp at hv
  | @entry first c g w u v' vs hc hg hw hu ih =>
    obtain ⟨hw, rfl⟩ := hw
    cases fields with
    | nil => simp at hfield
    | cons field' fields =>
      have hs : EndsNumber (u ++ s) := Entries.endsNumber (b := .list) hu s
      simp only [List.append_assoc] at h
      obtain ⟨following, hf, h₁⟩ := bind_eq_ok_iff.1 h
      obtain rfl := Except.ok.inj (hf.symm.trans (readItem_append hc hg hw.begins _))
      obtain ⟨⟨f, r⟩, hr, h₂⟩ := bind_eq_ok_iff.1 h₁
      obtain ⟨hwhole, hwholes⟩ := List.forall_mem_cons.1 hfields
      obtain rfl := hwhole.rest_eq blank_nil hw hs hr
      cases i with
      | zero =>
        obtain rfl : field' = field := by simpa using hfield
        obtain rfl : w = v := by simpa using hv
        exact ⟨[], _, f, blank_nil, hr⟩
      | succ i => exact ih hwholes h₂ (by simpa using hfield) (by simpa using hv)

/-! ## Records that are read -/

/-- An object that can be read as a record is one that its fields admit. -/
theorem Reader.record_admits (hfields : ∀ field ∈ fields, field.value.Whole) {wanted : String}
    {blank x : σ} {g w s rest : List Char} {ms : List (String × List Char)} (hg : Blank g)
    (hw : ObjectText w ms)
    (h : (Reader.record wanted blank (some fields)).read (g ++ (w ++ s)) = .ok (x, rest)) :
    Admits fields [] ms := by
  have hskip := hw.begins.skipBlanks_append hg s
  obtain ⟨v, rfl, hv⟩ := hw
  unfold Reader.record at h
  dsimp only at h
  rw [hskip] at h
  exact readMembers_admits hfields hv h

/-- In a list that can be read as a record, every item is one that the field in its place takes. -/
theorem Reader.record_takes (hfields : ∀ field ∈ fields, field.value.Whole) {wanted : String}
    {blank x : σ} {g w s rest : List Char} {vs : List (List Char)} (hg : Blank g)
    (hw : ListText w vs)
    (h : (Reader.record wanted blank (some fields)).read (g ++ (w ++ s)) = .ok (x, rest)) {i : ℕ}
    {field : RecordField σ} (hfield : field ∈ fields[i]?) {v : List Char} (hv : v ∈ vs[i]?) :
    field.Takes v := by
  have hskip := hw.begins.skipBlanks_append hg s
  obtain ⟨u, rfl, hu⟩ := hw
  unfold Reader.record at h
  dsimp only at h
  rw [hskip] at h
  exact readFields_takes hfields hu h hfield hv

end Fields

/-! ## Whole documents -/

/-- If a document can be read, then the piece that it is can be read where it stands. -/
theorem Reader.exists_read_of_document {r : Reader α} {L : Lang β} {text : String} {a : α} {b : β}
    (h : r.document text = .ok a) (hb : DocumentText L text.toList b) :
    ∃ g w s rest, Blank g ∧ L w b ∧ r.read (g ++ (w ++ s)) = .ok (a, rest) := by
  obtain ⟨g, w, s, hs, hg, hw, -⟩ := hb
  unfold Reader.document at h
  dsimp only at h
  split at h
  · simp at h
  · next a' rest ha =>
    split at h
    · obtain rfl := Except.ok.inj h
      exact ⟨g, w, s, rest, hg, hw, hs ▸ ha⟩
    · simp at h

end TreeDrawing.Json
