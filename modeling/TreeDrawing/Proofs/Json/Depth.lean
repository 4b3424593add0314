import TreeDrawing.Proofs.Json.Record

/-!
# The bound on nested lists and records

Readers of nested values count the levels that may still be opened. This module says that the bound
does nothing else: a reader that allows for fewer levels does the same as one that allows for more,
on every text, until it comes to a bracket it has no room for, and then it fails because of that.

The law passes from the parts of a reader to the whole like `Reader.Meets` does. It is about all
texts, not only those that can be read, so that a reader with more room settles what one with less
room does to a text: if it succeeds there, there is only one way left to fail.

## Main definitions

* `UpToDepth`: one outcome is another, or a failure for the depth.
* `Reader.Shallower`: the outcomes of one reader are those of another, up to depth.
-/

namespace TreeDrawing.Json

variable {α β σ : Type}

/-! ## Outcomes -/

/-- Something is nested too deeply. -/
def TooDeep (x : Except Fault α) : Prop := ∃ f : Fault, x = .error f ∧ f.cause = .nestedTooDeeply

/-- The first outcome is the second, unless something is nested too deeply for it. -/
def UpToDepth (x y : Except Fault α) : Prop := x = y ∨ TooDeep x

theorem TooDeep.bind {x : Except Fault α} (h : TooDeep x) (f : α → Except Fault β) :
    TooDeep (x >>= f) := by
  obtain ⟨e, rfl, he⟩ := h
  exact ⟨e, rfl, he⟩

/-- Two steps agree up to depth if the first do, and if the second do behind whatever the first has
given. -/
theorem UpToDepth.bind {x y : Except Fault α} {f g : α → Except Fault β} (h : UpToDepth x y)
    (hfg : ∀ a, x = .ok a → UpToDepth (f a) (g a)) : UpToDepth (x >>= f) (y >>= g) := by
  obtain rfl | hdeep := h
  · cases x with
    | error e => exact .inl rfl
    | ok a => exact hfg a rfl
  · exact .inr (hdeep.bind f)

theorem UpToDepth.map {x y : Except Fault α} (h : UpToDepth x y) (f : α → β) :
    UpToDepth (x.map f) (y.map f) := by
  obtain rfl | ⟨e, rfl, he⟩ := h
  · exact .inl rfl
  · exact .inr ⟨e, rfl, he⟩

/-! ## Readers -/

namespace Reader

/-- The reader does what the other does, except that it may find the text nested too deeply. -/
def Shallower (r r' : Reader α) : Prop := ∀ s, UpToDepth (r.read s) (r'.read s)

theorem Shallower.refl (r : Reader α) : r.Shallower r := fun _ ↦ .inl rfl

theorem Shallower.map {r r' : Reader α} (h : r.Shallower r') (f : α → β) :
    (r.map f).Shallower (r'.map f) := fun s ↦ (h s).map _

end Reader

/-! ## Lists -/

section Lists

variable {item item' : Reader α}

theorem Reader.Shallower.readItems (h : item.Shallower item') (out : List α) (first : Bool)
    (s : List Char) :
    UpToDepth (Json.readItems item out first s) (Json.readItems item' out first s) := by
  rw [readItems_eq_bind item, readItems_eq_bind item']
  refine UpToDepth.bind (.inl rfl) fun following hs ↦ ?_
  cases following with
  | closed rest => exact .inl rfl
  | entry r =>
    refine (h r).bind fun ⟨a, rest⟩ ha ↦ ?_
    exact h.readItems (a :: out) false rest
termination_by s.length
decreasing_by exact Nat.lt_of_lt_of_le (item.shortens ha) (readItem_length_le hs)

theorem Reader.Shallower.list (h : item.Shallower item') :
    (Reader.list (some item)).Shallower (Reader.list (some item')) := by
  intro s
  unfold Reader.list
  dsimp only
  split
  · exact h.readItems [] true _
  · exact .inl rfl

/-- Where no list may be opened, it is only an opening bracket that is treated differently. -/
theorem Reader.list_none_shallower (item? : Option (Reader α)) :
    (Reader.list none).Shallower (Reader.list item?) := by
  intro s
  unfold Reader.list
  dsimp only
  split
  · exact .inr ⟨_, rfl, rfl⟩
  · exact .inl rfl

end Lists

/-! ## Records -/

section Records

variable {fields fields' : List (RecordField σ)}

/-- The fields have the same key, and the reader of the first is the shallower one. -/
def RecordField.Shallower (f f' : RecordField σ) : Prop :=
  f.key = f'.key ∧ f.value.Shallower f'.value

theorem RecordField.shallower_mk {r r' : Reader (σ → σ)} (h : r.Shallower r') (key : String) :
    RecordField.Shallower ⟨key, r⟩ ⟨key, r'⟩ := ⟨rfl, h⟩

/-- A key that is looked for is found among both lists of fields or among neither. -/
theorem find?_key (h : List.Forall₂ RecordField.Shallower fields fields') (key : String) :
    Option.Rel RecordField.Shallower (fields.find? (·.key = key))
      (fields'.find? (·.key = key)) := by
  induction h with
  | nil => exact .none
  | @cons f f' fs fs' hf _ ih =>
    by_cases hkey : f.key = key
    · rw [List.find?_cons_of_pos (by simpa using hkey),
        List.find?_cons_of_pos (by simpa using hf.1 ▸ hkey)]
      exact .some hf
    · rw [List.find?_cons_of_neg (by simpa using hkey),
        List.find?_cons_of_neg (by simpa using hf.1 ▸ hkey)]
      exact ih

theorem readMember_upToDepth (h : List.Forall₂ RecordField.Shallower fields fields')
    (p : Progress σ) (s : List Char) :
    UpToDepth (readMember fields p s) (readMember fields' p s) := by
  refine UpToDepth.bind (.inl rfl) fun ⟨key, s'⟩ _ ↦ ?_
  have hfind := find?_key h key
  dsimp only
  generalize fields.find? (·.key = key) = field? at hfind ⊢
  generalize fields'.find? (·.key = key) = field?' at hfind ⊢
  cases hfind with
  | none => exact .inl rfl
  | some hfield =>
    dsimp only
    split
    · exact .inl rfl
    · refine UpToDepth.bind (.inl rfl) fun s'' _ ↦ ?_
      exact (hfield.2 s'').bind fun _ _ ↦ .inl rfl

theorem readMembers_upToDepth (h : List.Forall₂ RecordField.Shallower fields fields')
    (p : Progress σ) (first : Bool) (s : List Char) :
    UpToDepth (readMembers fields p first s) (readMembers fields' p first s) := by
  rw [readMembers_eq_bind fields, readMembers_eq_bind fields']
  refine UpToDepth.bind (.inl rfl) fun following hs ↦ ?_
  cases following with
  | closed rest => exact .inl rfl
  | entry r =>
    refine (readMember_upToDepth h p r).bind fun ⟨q, rest⟩ hq ↦ ?_
    exact readMembers_upToDepth h q false rest
termination_by s.length
decreasing_by exact Nat.lt_trans (readMember_length_lt hq) (readKey_length_lt hs)

theorem readFields_upToDepth (h : List.Forall₂ RecordField.Shallower fields fields') (x : σ)
    (first : Bool) (s : List Char) :
    UpToDepth (readFields x first s fields) (readFields x first s fields') := by
  induction h generalizing x first s with
  | nil => exact .inl rfl
  | @cons f f' fs fs' hf _ ih =>
    refine UpToDepth.bind (.inl rfl) fun following _ ↦ ?_
    cases following with
    | closed rest => exact .inl rfl
    | entry rest => exact (hf.2 rest).bind fun ⟨change, rest'⟩ _ ↦ ih (change x) false rest'

theorem Reader.record_shallower (h : List.Forall₂ RecordField.Shallower fields fields')
    (wanted : String) (blank : σ) :
    (Reader.record wanted blank (some fields)).Shallower
      (Reader.record wanted blank (some fields')) := by
  intro s
  unfold Reader.record
  dsimp only
  split
  · exact readMembers_upToDepth h _ true _
  · exact readFields_upToDepth h blank true _
  · exact .inl rfl

theorem Reader.record_none_shallower (wanted : String) (blank : σ)
    (fields? : Option (List (RecordField σ))) :
    (Reader.record wanted blank none).Shallower (Reader.record wanted blank fields?) := by
  intro s
  unfold Reader.record
  dsimp only
  split
  · exact .inr ⟨_, rfl, rfl⟩
  · exact .inr ⟨_, rfl, rfl⟩
  · exact .inl rfl

end Records

/-! ## Whole documents -/

/-- A document that can be read with more room is refused with less room only for its depth. -/
theorem Reader.Shallower.document {r r' : Reader α} (h : r.Shallower r') {text : String} {a : α}
    (ha : r'.document text = .ok a) :
    r.document text = .ok a ∨ ∃ p, r.document text = .error ⟨.nestedTooDeeply, p⟩ := by
  unfold Reader.document at ha ⊢
  dsimp only at ha ⊢
  obtain heq | ⟨f, hf, hdeep⟩ := h text.toList
  · rw [heq]
    exact .inl ha
  · rw [hf]
    refine .inr ⟨(f.inText text.toList).position, ?_⟩
    rw [← hdeep]
    rfl

end TreeDrawing.Json
