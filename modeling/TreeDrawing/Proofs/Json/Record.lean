import TreeDrawing.Json.Record
import TreeDrawing.Proofs.Json.Skip

/-!
# Lists and records are read as the grammar says

The reader of a list meets the language of its items between square brackets, once the reader of
the items meets theirs. For a record the parts are the readers of its fields, and what one of them
reads is a change to the record; the grammar speaks of what is said about a field instead.
`Describes` connects the two.

## Main definitions

* `Describes`: what is said under the keys of some fields, and how it changes the record.
* `Reader.Meets.list` and `Reader.Meets.record`: the law passes from the parts to the whole.
-/

namespace TreeDrawing.Json

/-! ## Steps between items -/

theorem readItem_closed_iff {first : Bool} {s rest : List Char} :
    readItem first s = .ok (.closed rest) ↔ ∃ w, s = w ++ rest ∧ Sign ']' w := by
  rw [← skipBlanks_eq_cons_iff (by decide)]
  unfold readItem
  split
  · next h => simp [h]
  · next h => simp [h]
  · next c r hne h =>
    have hc : skipBlanks s ≠ ']' :: rest := by
      rw [h]
      intro hcr
      exact hne (List.cons.inj hcr).1
    split
    · simp [hc]
    · split
      · split <;> simp [hc]
      · simp [hc]

theorem readItem_entry_sound {first : Bool} {s rest : List Char}
    (h : readItem first s = .ok (.entry rest)) :
    ∃ c g, s = c ++ (g ++ rest) ∧ Separator first c ∧ Blank g := by
  unfold readItem at h
  split at h
  · simp at h
  · simp at h
  · next c r _ hs =>
    split at h
    · next hf =>
      cases h
      obtain ⟨g, hg, hs'⟩ := exists_blank_append_skipBlanks s
      subst hf
      exact ⟨[], g, hs ▸ hs', rfl, hg⟩
    · next hf =>
      obtain rfl : first = false := Bool.eq_false_iff.2 hf
      split at h
      · next hc =>
        obtain ⟨w, rfl, hw⟩ := (skipBlanks_eq_cons_iff (by decide)).1 (hc ▸ hs)
        split at h
        · simp at h
        · simp at h
        · cases h
          obtain ⟨g, hg, hr⟩ := exists_blank_append_skipBlanks r
          exact ⟨w, g, by rw [← hr], hw, hg⟩
      · simp at h

theorem readItem_append {first : Bool} {c g w : List Char} (hc : Separator first c) (hg : Blank g)
    (hw : Begins w) (s : List Char) :
    readItem first (c ++ (g ++ (w ++ s))) = .ok (.entry (w ++ s)) := by
  have hs := hw.skipBlanks_append hg s
  obtain ⟨d, v, rfl, -, hd⟩ := hw
  cases first with
  | true =>
    obtain rfl : c = [] := hc
    unfold readItem
    rw [List.nil_append, hs]
    split
    · simp_all
    · simp_all
    · simp_all
  | false =>
    have hcomma : skipBlanks (c ++ (g ++ (d :: v ++ s))) = ',' :: (g ++ (d :: v ++ s)) :=
      (skipBlanks_eq_cons_iff (by decide)).2 ⟨c, rfl, hc⟩
    unfold readItem
    rw [hcomma]
    split
    · simp_all
    · simp_all
    · next heq =>
      obtain ⟨rfl, rfl⟩ := List.cons.inj heq
      rw [if_neg (by decide), if_pos rfl, hs]
      split
      · simp_all
      · simp_all
      · rfl

/-! ## Lists -/

section Lists

variable {α : Type} {item : Reader α} {L : Lang α}

theorem readItems_sound (h : item.Meets L) {out as : List α} {first : Bool} {s rest : List Char}
    (hs : readItems item out first s = .ok (as, rest)) :
    ∃ w bs, s = w ++ rest ∧ Entries ']' L first w bs ∧ as = out.reverse ++ bs := by
  fun_induction readItems item out first s with
  | case1 => simp at hs
  | case2 out first s r hr =>
    obtain ⟨rfl, rfl⟩ := ok_inj hs
    obtain ⟨w, rfl, hw⟩ := readItem_closed_iff.1 hr
    exact ⟨w, [], rfl, .close hw, by simp⟩
  | case3 => simp at hs
  | case4 out first s r hr a r' ha ih =>
    obtain ⟨v, bs, rfl, hv, rfl⟩ := ih hs
    obtain ⟨g', w, rfl, hg', hw⟩ := h.read_eq_ok_iff.1 ha
    obtain ⟨c, g, rfl, hc, hg⟩ := readItem_entry_sound hr
    -- The step to the item passes over blanks, and the reader of the item may find further ones.
    exact ⟨c ++ ((g ++ g') ++ (w ++ v)), a :: bs, by simp, .entry hc (hg.append hg') hw hv,
      by simp⟩

/-- Items are read one after the other: the step to an item, the item, and then the others. -/
theorem readItems_eq_bind (item : Reader α) (out : List α) (first : Bool) (s : List Char) :
    readItems item out first s =
      readItem first s >>= fun
        | .closed rest => .ok (out.reverse, rest)
        | .entry rest =>
          item.read rest >>= fun (a, rest) ↦ readItems item (a :: out) false rest := by
  conv_lhs => rw [readItems]
  split
  · next h => rw [h]; rfl
  · next h => rw [h]; rfl
  · next rest h =>
    rw [h]
    change _ = item.read rest >>= _
    split
    · next h' => rw [h']; rfl
    · next h' => rw [h']; rfl

theorem readItems_of_closed {out : List α} {first : Bool} {s rest : List Char}
    (h : readItem first s = .ok (.closed rest)) :
    readItems item out first s = .ok (out.reverse, rest) := by
  rw [readItems_eq_bind, h]
  rfl

theorem readItems_of_entry {out : List α} {a : α} {first : Bool} {s r rest : List Char}
    (h : readItem first s = .ok (.entry r)) (ha : item.read r = .ok (a, rest)) :
    readItems item out first s = readItems item (a :: out) false rest := by
  rw [readItems_eq_bind, h]
  change item.read r >>= _ = _
  rw [ha]
  rfl

theorem readItems_append (h : item.Meets L) {bs : List α} {first : Bool} {w : List Char}
    (hw : Entries ']' L first w bs) (out : List α) (s : List Char) :
    readItems item out first (w ++ s) = .ok (out.reverse ++ bs, s) := by
  induction hw generalizing out with
  | close hw => rw [readItems_of_closed (readItem_closed_iff.2 ⟨_, rfl, hw⟩), List.append_nil]
  | @entry first c g w v a as hc hg hw hv ih =>
    have hr : item.read (w ++ (v ++ s)) = .ok (a, v ++ s) :=
      h.read_eq_ok_iff.2 ⟨[], w, rfl, blank_nil, hw⟩
    simp only [List.append_assoc]
    rw [readItems_of_entry (readItem_append hc hg (h.begins hw) (v ++ s)) hr, ih]
    rw [List.reverse_cons, List.append_assoc, List.singleton_append]

/-- Between its brackets, a list is what its items are. -/
theorem Reader.Meets.list (h : item.Meets L) :
    (Reader.list (some item)).Meets (Enclosed '[' ']' L) where
  begins := by
    rintro w as ⟨v, rfl, -⟩
    exact ⟨'[', v, rfl, by decide, by decide⟩
  read_eq_ok_iff {s rest as} := by
    unfold Reader.list
    constructor
    · intro hs
      dsimp only at hs
      split at hs
      · next r hr =>
        obtain ⟨g, hg, hs'⟩ := exists_blank_append_skipBlanks s
        obtain ⟨v, as, rfl, hv, rfl⟩ := readItems_sound h hs
        exact ⟨g, '[' :: v, by rw [hs', hr, List.cons_append], hg, v, rfl, hv⟩
      · simp at hs
    · rintro ⟨g, _, rfl, hg, v, rfl, hv⟩
      dsimp only
      rw [skipBlanks_append hg, List.cons_append, skipBlanks_cons (by decide)]
      exact readItems_append h hv [] rest

theorem Reader.meets_list_none :
    (Reader.list (none : Option (Reader α))).Meets fun _ _ ↦ False where
  begins h := h.elim
  read_eq_ok_iff {s rest as} := by
    unfold Reader.list
    constructor
    · intro hs
      dsimp only at hs
      split at hs <;> simp at hs
    · rintro ⟨g, w, -, -, h⟩
      exact h.elim

end Lists

/-! ## Steps between fields -/

theorem readListEnd_eq_ok_iff {s rest : List Char} :
    readListEnd s = .ok rest ↔ ∃ w, s = w ++ rest ∧ Sign ']' w := by
  rw [← skipBlanks_eq_cons_iff (by decide)]
  unfold readListEnd
  split
  · next h => simp [h]
  · next h => simp [h]
  · next h =>
    split <;> simp [h]
  · next h => simp_all

theorem readKey_closed_iff {first : Bool} {s rest : List Char} :
    readKey first s = .ok (.closed rest) ↔ ∃ w, s = w ++ rest ∧ Sign '\x7d' w := by
  rw [← skipBlanks_eq_cons_iff (by decide)]
  unfold readKey
  split
  · next h => simp [h]
  · next h => simp [h]
  · next c r hne h =>
    have hc : skipBlanks s ≠ '\x7d' :: rest := by
      rw [h]
      intro hcr
      exact hne (List.cons.inj hcr).1
    split
    · split <;> simp [hc]
    · split
      · split <;> simp [hc]
      · simp [hc]

theorem readKey_entry_sound {first : Bool} {s rest : List Char}
    (h : readKey first s = .ok (.entry rest)) :
    ∃ c g, s = c ++ (g ++ '"' :: rest) ∧ Separator first c ∧ Blank g := by
  unfold readKey at h
  split at h
  · simp at h
  · simp at h
  · next c r _ hs =>
    split at h
    · next hf =>
      split at h
      · next hc =>
        cases h
        obtain ⟨g, hg, hs'⟩ := exists_blank_append_skipBlanks s
        subst hf hc
        exact ⟨[], g, hs ▸ hs', rfl, hg⟩
      · simp at h
    · next hf =>
      obtain rfl : first = false := Bool.eq_false_iff.2 hf
      split at h
      · next hc =>
        obtain ⟨w, rfl, hw⟩ := (skipBlanks_eq_cons_iff (by decide)).1 (hc ▸ hs)
        split at h
        · simp at h
        · next hr =>
          cases h
          obtain ⟨g, hg, hr'⟩ := exists_blank_append_skipBlanks r
          exact ⟨w, g, by rw [← hr, ← hr'], hw, hg⟩
        · simp at h
        · simp at h
      · simp at h

theorem readKey_append {first : Bool} {c g : List Char} (hc : Separator first c) (hg : Blank g)
    (s : List Char) : readKey first (c ++ (g ++ '"' :: s)) = .ok (.entry s) := by
  have hs : skipBlanks (g ++ '"' :: s) = '"' :: s := by
    rw [skipBlanks_append hg, skipBlanks_cons (by decide)]
  cases first with
  | true =>
    obtain rfl : c = [] := hc
    unfold readKey
    rw [List.nil_append, hs]
    rfl
  | false =>
    have hcomma : skipBlanks (c ++ (g ++ '"' :: s)) = ',' :: (g ++ '"' :: s) :=
      (skipBlanks_eq_cons_iff (by decide)).2 ⟨c, rfl, hc⟩
    unfold readKey
    rw [hcomma]
    split
    · simp_all
    · simp_all
    · next heq =>
      obtain ⟨rfl, rfl⟩ := List.cons.inj heq
      rw [if_neg (by decide), if_pos rfl, hs]
      rfl

/-! ## Records -/

section Records

variable {ι σ : Type} {fields : List (RecordField σ)} {key : ι → String} {item : Lang ι}
  {change : ι → σ → σ}

/-- Every field reads what can be said under its key, as a change to the record. -/
def FieldsMeet (fields : List (RecordField σ)) (key : ι → String) (item : Lang ι)
    (change : ι → σ → σ) : Prop :=
  ∀ field ∈ fields, field.value.Meets fun w f ↦ ∃ a, item w a ∧ key a = field.key ∧ change a = f

/-- The fields read what is said, and there is a field for everything that can be said. -/
structure Describes (fields : List (RecordField σ)) (key : ι → String) (item : Lang ι)
    (change : ι → σ → σ) : Prop where
  mem_keys : ∀ a, key a ∈ fields.map (·.key)
  meets : FieldsMeet fields key item change

/-- A field reads what is said under its key, if its reader reads what that is made from. -/
theorem Reader.Meets.field {β : Type} {r : Reader β} {L : Lang β} (h : r.Meets L) (item : Lang ι)
    (change : ι → σ → σ) {say : β → ι} {k : String}
    (hk : ∀ {w a}, item w a ∧ key a = k ↔ ∃ b, L w b ∧ say b = a) :
    (r.map fun b ↦ change (say b)).Meets fun w f ↦
      ∃ a, item w a ∧ key a = k ∧ change a = f := by
  refine (h.map _).of_iff fun w f ↦ ⟨?_, ?_⟩
  · rintro ⟨b, hw, rfl⟩
    obtain ⟨ha, hkey⟩ := hk.2 ⟨b, hw, rfl⟩
    exact ⟨say b, ha, hkey, rfl⟩
  · rintro ⟨a, ha, hkey, rfl⟩
    obtain ⟨b, hw, rfl⟩ := hk.1 ⟨ha, hkey⟩
    exact ⟨b, hw, rfl⟩

theorem FieldsMeet.of_cons {field : RecordField σ} {fields' : List (RecordField σ)}
    (h : FieldsMeet (field :: fields') key item change) : FieldsMeet fields' key item change :=
  fun field' hf ↦ h field' (List.mem_cons_of_mem _ hf)

/-- A record after everything has been said about it, in order. -/
def changed (change : ι → σ → σ) (x : σ) (as : List ι) : σ := as.foldl (fun x a ↦ change a x) x

/-- Where every single thing that is said sets one part of a record and leaves the others alone,
all of them together set the parts that they are about. -/
theorem get_changed_map {φ τ : Type} [DecidableEq φ] {say : φ → ι} {get : σ → φ → τ} {said : φ → τ}
    (h : ∀ x f g, get (change (say f) x) g = if g = f then said g else get x g) (x : σ)
    (fs : List φ) (g : φ) :
    get (changed change x (fs.map say)) g = if g ∈ fs then said g else get x g := by
  induction fs generalizing x with
  | nil => rfl
  | cons f fs ih =>
    have hstep : changed change x ((f :: fs).map say) = changed change (change (say f) x)
        (fs.map say) := rfl
    rw [hstep, ih, h]
    by_cases hg : g ∈ fs
    · rw [if_pos hg, if_pos (List.mem_cons_of_mem _ hg)]
    · rw [if_neg hg]
      simp only [List.mem_cons, hg, or_false]

theorem readFields_sound (h : FieldsMeet fields key item change) {x y : σ} {first : Bool}
    {s rest : List Char} (hs : readFields x first s fields = .ok (y, rest)) :
    ∃ w as, s = w ++ rest ∧ Entries ']' item first w as ∧
      as.map key <+: fields.map (·.key) ∧ y = changed change x as := by
  induction fields generalizing x first s with
  | nil =>
    obtain ⟨r, hr, hy⟩ := map_eq_ok_iff.1 hs
    rw [Prod.mk.injEq] at hy
    obtain ⟨rfl, rfl⟩ := hy
    obtain ⟨w, rfl, hw⟩ := readListEnd_eq_ok_iff.1 hr
    exact ⟨w, [], rfl, .close hw, List.nil_prefix, rfl⟩
  | cons field fields ih =>
    obtain ⟨f, hf, hs'⟩ := bind_eq_ok_iff.1 hs
    cases f with
    | closed r =>
      obtain ⟨rfl, rfl⟩ := ok_inj hs'
      obtain ⟨w, rfl, hw⟩ := readItem_closed_iff.1 hf
      exact ⟨w, [], rfl, .close hw, List.nil_prefix, rfl⟩
    | entry r =>
      obtain ⟨⟨f, r'⟩, hr, hs'⟩ := bind_eq_ok_iff.1 hs'
      obtain ⟨v, as, rfl, hv, hkeys, rfl⟩ := ih h.of_cons hs'
      obtain ⟨g', w, rfl, hg', a, hw, hkey, rfl⟩ :=
        (h field List.mem_cons_self).read_eq_ok_iff.1 hr
      obtain ⟨c, g, rfl, hc, hg⟩ := readItem_entry_sound hf
      refine ⟨c ++ ((g ++ g') ++ (w ++ v)), a :: as, by simp,
        .entry hc (hg.append hg') hw hv, ?_, rfl⟩
      rw [List.map_cons, List.map_cons, hkey, List.prefix_cons_inj]
      exact hkeys

theorem readFields_append (h : FieldsMeet fields key item change) {as : List ι} {first : Bool}
    {w : List Char} (hw : Entries ']' item first w as)
    (has : as.map key <+: fields.map (·.key)) (x : σ) (s : List Char) :
    readFields x first (w ++ s) fields = .ok (changed change x as, s) := by
  induction fields generalizing x first w as with
  | nil =>
    obtain rfl : as = [] := List.map_eq_nil_iff.1 (List.prefix_nil.1 has)
    cases hw with
    | close hw => exact map_eq_ok_iff.2 ⟨s, readListEnd_eq_ok_iff.2 ⟨w, rfl, hw⟩, rfl⟩
  | cons field fields ih =>
    cases hw with
    | close hw => exact bind_eq_ok_iff.2 ⟨_, readItem_closed_iff.2 ⟨w, rfl, hw⟩, rfl⟩
    | @entry _ c g w v a as hc hg hw hv =>
      rw [List.map_cons, List.map_cons, List.cons_prefix_cons] at has
      obtain ⟨hkey, has⟩ := has
      have hfield := h field List.mem_cons_self
      have hr : field.value.read (w ++ (v ++ s)) = .ok (change a, v ++ s) :=
        hfield.read_eq_ok_iff.2 ⟨[], w, rfl, blank_nil, a, hw, hkey, rfl⟩
      simp only [List.append_assoc]
      refine bind_eq_ok_iff.2 ⟨_, readItem_append hc hg (hfield.begins ⟨a, hw, hkey, rfl⟩) _, ?_⟩
      refine bind_eq_ok_iff.2 ⟨_, hr, ?_⟩
      exact ih h.of_cons hv has (change a x)

/-- Adds what an entry says, if it says anything. -/
def Progress.add (key : ι → String) (change : ι → σ → σ) (p : Progress σ) :
    Option ι → Progress σ
  | none => p
  | some a => { record := change a p.record, given := key a :: p.given }

theorem readMember_sound (h : Describes fields key item change) {p q : Progress σ}
    {s rest : List Char} (hs : readMember fields p s = .ok (q, rest)) :
    ∃ w e, s = w ++ rest ∧ EntryText (fields.map (·.key)) key item ('"' :: w) e ∧
      (∀ a ∈ e, key a ∉ p.given) ∧ q = p.add key change e := by
  obtain ⟨⟨k, s₁⟩, hk, hs₁⟩ := bind_eq_ok_iff.1 hs
  obtain ⟨w, rfl, hw⟩ := readText_nil_eq_ok_iff.1 hk
  dsimp only at hs₁
  split at hs₁
  · next hfind =>
    obtain ⟨s₂, h₂, hs₂⟩ := bind_eq_ok_iff.1 hs₁
    obtain ⟨s₃, h₃, hs₃⟩ := bind_eq_ok_iff.1 hs₂
    obtain ⟨rfl, rfl⟩ := ok_inj hs₃
    obtain ⟨c, rfl, hc⟩ := colon_eq_ok_iff.1 h₂
    obtain ⟨g, v, rfl, hg, hv⟩ := skipValue_sound h₃
    -- A key for which no field is found is the key of none.
    have hk' : k ∉ fields.map (·.key) := by
      rintro hmem
      obtain ⟨field, hf, hkey⟩ := List.mem_map.1 hmem
      exact List.find?_eq_none.1 hfind field hf (by simpa using hkey)
    refine ⟨w ++ (c ++ (g ++ v)), none, by simp, ?_, by simp, rfl⟩
    exact .unknown hw hk' hc hg hv
  · next field hfind =>
    split at hs₁
    · simp at hs₁
    · next hgiven =>
      obtain ⟨s₂, h₂, hs₂⟩ := bind_eq_ok_iff.1 hs₁
      obtain ⟨⟨f, s₃⟩, h₃, hs₃⟩ := bind_eq_ok_iff.1 hs₂
      obtain ⟨rfl, rfl⟩ := ok_inj hs₃
      obtain ⟨c, rfl, hc⟩ := colon_eq_ok_iff.1 h₂
      obtain ⟨g, v, rfl, hg, a, hv, hkey, rfl⟩ :=
        (h.meets field (List.mem_of_find?_eq_some hfind)).read_eq_ok_iff.1 h₃
      obtain rfl : key a = k := by
        rw [hkey]
        simpa using List.find?_some hfind
      refine ⟨w ++ (c ++ (g ++ v)), some a, by simp, .known hw hc hg hv, ?_, rfl⟩
      rintro b ⟨⟩
      exact hgiven

theorem readMember_append (h : Describes fields key item change) {p : Progress σ}
    {w : List Char} {e : Option ι}
    (hw : EntryText (fields.map (·.key)) key item ('"' :: w) e)
    (he : ∀ a ∈ e, key a ∉ p.given) {s : List Char} (hs : EndsNumber s) :
    readMember fields p (w ++ s) = .ok (p.add key change e, s) := by
  generalize hx : '"' :: w = x at hw
  cases hw with
  | @known k c g v a hk hc hg hv =>
    obtain ⟨u, rfl, -⟩ := id hk
    rw [List.cons_append, List.cons.injEq] at hx
    obtain ⟨-, rfl⟩ := hx
    simp only [List.append_assoc]
    refine bind_eq_ok_iff.2 ⟨_, readText_nil_eq_ok_iff.2 ⟨u, rfl, hk⟩, ?_⟩
    dsimp only
    split
    · next hfind =>
      obtain ⟨field, hf, hkey⟩ := List.mem_map.1 (h.mem_keys a)
      exact absurd (by simpa using hkey) (List.find?_eq_none.1 hfind field hf)
    · next field hfind =>
      have hkey : field.key = key a := by simpa using List.find?_some hfind
      have hr : field.value.read (g ++ (v ++ s)) = .ok (change a, s) :=
        (h.meets field (List.mem_of_find?_eq_some hfind)).read_eq_ok_iff.2
          ⟨g, v, rfl, hg, a, hv, hkey.symm, rfl⟩
      rw [if_neg (he a rfl)]
      refine bind_eq_ok_iff.2 ⟨_, colon_eq_ok_iff.2 ⟨c, rfl, hc⟩, ?_⟩
      exact bind_eq_ok_iff.2 ⟨_, hr, rfl⟩
  | @unknown k c g v name hk hname hc hg hv =>
    obtain ⟨u, rfl, -⟩ := id hk
    rw [List.cons_append, List.cons.injEq] at hx
    obtain ⟨-, rfl⟩ := hx
    simp only [List.append_assoc]
    refine bind_eq_ok_iff.2 ⟨_, readText_nil_eq_ok_iff.2 ⟨u, rfl, hk⟩, ?_⟩
    dsimp only
    split
    · refine bind_eq_ok_iff.2 ⟨_, colon_eq_ok_iff.2 ⟨c, rfl, hc⟩, ?_⟩
      exact bind_eq_ok_iff.2 ⟨_, skipValue_append hg hv hs, rfl⟩
    · next field hfind =>
      have hkey : field.key = name := by simpa using List.find?_some hfind
      exact absurd (List.mem_map.2 ⟨field, List.mem_of_find?_eq_some hfind, hkey⟩) hname

/-- Entries are read one after the other: the step to a key, the entry, and then the others. -/
theorem readMembers_eq_bind (fields : List (RecordField σ)) (p : Progress σ) (first : Bool)
    (s : List Char) :
    readMembers fields p first s =
      readKey first s >>= fun
        | .closed rest => .ok (p.record, rest)
        | .entry rest =>
          readMember fields p rest >>= fun (p, rest) ↦ readMembers fields p false rest := by
  conv_lhs => rw [readMembers]
  split
  · next h => rw [h]; rfl
  · next h => rw [h]; rfl
  · next rest h =>
    rw [h]
    change _ = readMember fields p rest >>= _
    split
    · next h' => rw [h']; rfl
    · next h' => rw [h']; rfl

theorem readMembers_of_closed {p : Progress σ} {first : Bool} {s rest : List Char}
    (h : readKey first s = .ok (.closed rest)) :
    readMembers fields p first s = .ok (p.record, rest) := by
  rw [readMembers_eq_bind, h]
  rfl

theorem readMembers_of_entry {p q : Progress σ} {first : Bool} {s r rest : List Char}
    (h : readKey first s = .ok (.entry r)) (hm : readMember fields p r = .ok (q, rest)) :
    readMembers fields p first s = readMembers fields q false rest := by
  rw [readMembers_eq_bind, h]
  change readMember fields p r >>= _ = _
  rw [hm]
  rfl

theorem EntryText.eq_cons {keys : List String} {w : List Char} {e : Option ι}
    (h : EntryText keys key item w e) : ∃ v, w = '"' :: v := by
  cases h with
  | known hw =>
    obtain ⟨v, rfl, -⟩ := hw
    exact ⟨_, rfl⟩
  | unknown hw =>
    obtain ⟨v, rfl, -⟩ := hw
    exact ⟨_, rfl⟩

/-- What stands behind an entry does not continue a number. -/
theorem Entries.endsNumber {α : Type} {b : Bracket} {L : Lang α} {v : List Char} {as : List α}
    (h : Entries b.close L false v as) (s : List Char) : EndsNumber (v ++ s) := by
  cases h with
  | close hw => exact hw.endsNumber b.close_endsNumber s
  | entry hc hg hw hv =>
    rw [List.append_assoc]
    exact Sign.endsNumber hc (by decide) _

theorem readMembers_sound (h : Describes fields key item change) {p : Progress σ} {x : σ}
    {first : Bool} {s rest : List Char}
    (hs : readMembers fields p first s = .ok (x, rest)) :
    ∃ w es, s = w ++ rest ∧
      Entries '\x7d' (EntryText (fields.map (·.key)) key item) first w es ∧
      (es.reduceOption.map key).Nodup ∧ (∀ a ∈ es.reduceOption, key a ∉ p.given) ∧
      x = changed change p.record es.reduceOption := by
  fun_induction readMembers fields p first s with
  | case1 => simp at hs
  | case2 p first s r hr =>
    obtain ⟨rfl, rfl⟩ := ok_inj hs
    obtain ⟨w, rfl, hw⟩ := readKey_closed_iff.1 hr
    exact ⟨w, [], rfl, .close hw, List.nodup_nil, by simp, rfl⟩
  | case3 => simp at hs
  | case4 p first s r hr q r' hm ih =>
    obtain ⟨v, es, rfl, hv, hnodup, hfresh, rfl⟩ := ih hs
    obtain ⟨w, e, rfl, hw, he, rfl⟩ := readMember_sound h hm
    obtain ⟨c, g, rfl, hc, hg⟩ := readKey_entry_sound hr
    refine ⟨c ++ (g ++ (('"' :: w) ++ v)), e :: es, by simp, .entry hc hg hw hv, ?_⟩
    cases e with
    | none => exact ⟨hnodup, hfresh, rfl⟩
    | some a =>
      rw [List.reduceOption_cons_of_some]
      refine ⟨?_, ?_, rfl⟩
      -- The later keys are none of those given by then, and this one is among them.
      · rw [List.map_cons, List.nodup_cons]
        refine ⟨?_, hnodup⟩
        rintro hmem
        obtain ⟨b, hb, hkey⟩ := List.mem_map.1 hmem
        exact hfresh b hb (hkey ▸ List.mem_cons_self)
      · rintro b hb
        obtain rfl | hb := List.mem_cons.1 hb
        · exact he b rfl
        · exact fun hgiven ↦ hfresh b hb (List.mem_cons_of_mem _ hgiven)

theorem readMembers_append (h : Describes fields key item change) {es : List (Option ι)}
    {first : Bool} {w : List Char}
    (hw : Entries '\x7d' (EntryText (fields.map (·.key)) key item) first w es)
    (hnodup : (es.reduceOption.map key).Nodup) {p : Progress σ}
    (hfresh : ∀ a ∈ es.reduceOption, key a ∉ p.given) (s : List Char) :
    readMembers fields p first (w ++ s) = .ok (changed change p.record es.reduceOption, s) := by
  induction hw generalizing p with
  | close hw => exact readMembers_of_closed (readKey_closed_iff.2 ⟨_, rfl, hw⟩)
  | @entry first c g w v e es hc hg hw hv ih =>
    obtain ⟨w, rfl⟩ := hw.eq_cons
    -- An unknown value may end with a number, but inside brackets nothing continues it.
    have hs : EndsNumber (v ++ s) := Entries.endsNumber (b := .object) hv s
    have hkey := readKey_append hc hg (w ++ (v ++ s))
    have he : ∀ a ∈ e, key a ∉ p.given := by
      rintro a rfl
      exact hfresh a (by simp)
    simp only [List.append_assoc, List.cons_append]
    rw [readMembers_of_entry hkey (readMember_append h hw he hs)]
    cases e with
    | none => exact ih hnodup hfresh
    | some a =>
      rw [List.reduceOption_cons_of_some] at hnodup hfresh ⊢
      rw [List.map_cons, List.nodup_cons] at hnodup
      refine ih hnodup.2 ?_
      intro b hb hgiven
      obtain hba | hgiven := List.mem_cons.1 hgiven
      · exact hnodup.1 (hba ▸ List.mem_map_of_mem hb)
      · exact hfresh b (List.mem_cons_of_mem _ hb) hgiven

/-- Nothing is said twice in a record. -/
theorem RecordText.nodup {keys : List String} {w : List Char} {as : List ι}
    (h : RecordText keys key item w as) (hkeys : keys.Nodup) : (as.map key).Nodup := by
  cases h with
  | named hw hes => exact hes
  | listed hw has => exact hkeys.sublist has.sublist

section Map

variable {ι' : Type} {keys : List String} {key' : ι' → String} {item' : Lang ι'} {f : ι → ι'}
  {w : List Char}

/-- Items remain items when what they stand for is seen as something else. -/
theorem Entries.map {α β : Type} {close : Char} {L : Lang α} {L' : Lang β} {f : α → β}
    (hL : ∀ w a, L w a → L' w (f a)) {first : Bool} {as : List α}
    (h : Entries close L first w as) : Entries close L' first w (as.map f) := by
  induction h with
  | close hw => exact .close hw
  | entry hc hg hw _ ih => exact .entry hc hg (hL _ _ hw) ih

theorem EntryText.map (hkey : ∀ a, key' (f a) = key a) (hitem : ∀ w a, item w a → item' w (f a))
    {e : Option ι} (h : EntryText keys key item w e) : EntryText keys key' item' w (e.map f) := by
  cases h with
  | known hw hc hg hv => exact .known (hkey _ ▸ hw) hc hg (hitem _ _ hv)
  | unknown hw hk hc hg hv => exact .unknown hw hk hc hg hv

/-- A record remains a record when what is said in it, under the same keys, is seen as something
else. -/
theorem RecordText.map (hkey : ∀ a, key' (f a) = key a)
    (hitem : ∀ w a, item w a → item' w (f a)) {as : List ι} (h : RecordText keys key item w as) :
    RecordText keys key' item' w (as.map f) := by
  have hkeys : ∀ as : List ι, (as.map f).map key' = as.map key := by
    intro as
    rw [List.map_map]
    exact List.map_congr_left fun a _ ↦ hkey a
  cases h with
  | named hw hes =>
    obtain ⟨v, rfl, hv⟩ := hw
    rw [← List.reduceOption_map]
    refine .named ⟨v, rfl, hv.map fun w e he ↦ he.map hkey hitem⟩ ?_
    rw [List.reduceOption_map, hkeys]
    exact hes
  | listed hw has =>
    obtain ⟨v, rfl, hv⟩ := hw
    exact .listed ⟨v, rfl, hv.map hitem⟩ (hkeys _ ▸ has)

end Map

/-- Every item between brackets has a text. -/
theorem Entries.exists_text {α : Type} {close : Char} {L : Lang α} {first : Bool} {w : List Char}
    {as : List α} (h : Entries close L first w as) : ∀ a ∈ as, ∃ v, L v a := by
  induction h with
  | close => simp
  | entry _ _ hw _ ih => exact List.forall_mem_cons.2 ⟨⟨_, hw⟩, ih⟩

/-- Everything that is said in a record has a text, however the record is given. -/
theorem RecordText.exists_text {keys : List String} {w : List Char} {as : List ι}
    (h : RecordText keys key item w as) : ∀ a ∈ as, ∃ v, item v a := by
  cases h with
  | named hw =>
    obtain ⟨v, -, hv⟩ := hw
    intro a ha
    obtain ⟨u, hu⟩ := hv.exists_text (some a) (List.reduceOption_mem_iff.1 ha)
    cases hu with
    | known _ _ _ hitem => exact ⟨_, hitem⟩
  | listed hw =>
    obtain ⟨v, -, hv⟩ := hw
    exact hv.exists_text

/-- A record is what is said in it, if the readers of its fields read what is said. -/
theorem Reader.Meets.record (h : Describes fields key item change) (wanted : String) (blank : σ) :
    (Reader.record wanted blank (some fields)).Meets fun w x ↦
      ∃ as, RecordText (fields.map (·.key)) key item w as ∧ x = changed change blank as where
  begins := by
    rintro w x ⟨as, hw, -⟩
    cases hw with
    | named hw =>
      obtain ⟨v, rfl, -⟩ := hw
      exact ⟨'\x7b', v, rfl, by decide, by decide⟩
    | listed hw =>
      obtain ⟨v, rfl, -⟩ := hw
      exact ⟨'[', v, rfl, by decide, by decide⟩
  read_eq_ok_iff {s rest x} := by
    unfold Reader.record
    constructor
    · intro hs
      obtain ⟨g, hg, hs'⟩ := exists_blank_append_skipBlanks s
      dsimp only at hs
      split at hs
      · next r hr =>
        obtain ⟨v, es, rfl, hv, hnodup, -, rfl⟩ := readMembers_sound h hs
        refine ⟨g, '\x7b' :: v, by rw [hs', hr, List.cons_append], hg, es.reduceOption, ?_, rfl⟩
        exact .named ⟨v, rfl, hv⟩ hnodup
      · next r hr =>
        obtain ⟨v, as, rfl, hv, hkeys, rfl⟩ := readFields_sound h.meets hs
        refine ⟨g, '[' :: v, by rw [hs', hr, List.cons_append], hg, as, ?_, rfl⟩
        exact .listed ⟨v, rfl, hv⟩ hkeys
      · simp at hs
    · rintro ⟨g, w, rfl, hg, as, hw, rfl⟩
      dsimp only
      rw [skipBlanks_append hg]
      cases hw with
      | named hw hnodup =>
        obtain ⟨v, rfl, hv⟩ := hw
        rw [List.cons_append, skipBlanks_cons (by decide)]
        exact readMembers_append h hv hnodup (by simp) rest
      | listed hw hkeys =>
        obtain ⟨v, rfl, hv⟩ := hw
        rw [List.cons_append, skipBlanks_cons (by decide)]
        exact readFields_append h.meets hv hkeys blank rest

theorem Reader.meets_record_none (wanted : String) (blank : σ) :
    (Reader.record wanted blank none).Meets fun _ _ ↦ False where
  begins h := h.elim
  read_eq_ok_iff {s rest x} := by
    unfold Reader.record
    constructor
    · intro hs
      dsimp only at hs
      split at hs <;> simp at hs
    · rintro ⟨g, w, -, -, h⟩
      exact h.elim

end Records

end TreeDrawing.Json
