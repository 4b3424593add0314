import TreeDrawing.Proofs.Json.Reader

/-!
# What is written is in the grammar

Texts are written by appending to what is there already, and with as few characters as possible:
there are no blanks, and only what must be escaped is escaped. This module gives the characters
that are appended, and finds them in the grammar.

## Main results

* `textLiteral_textChars`: a text is written as a literal of itself, whatever characters it has.
* `Entries.first` and `Entries.further`: items that are written without blanks.
-/

namespace TreeDrawing.Json

/-! ## What is appended -/

/-- The characters of a written text. -/
def textChars (s : String) : List Char :=
  '"' :: (s.toList.flatMap (fun c ↦ (escaped c).toList) ++ ['"'])

private theorem toList_foldl_escaped (cs : List Char) (out : String) :
    (cs.foldl (fun out c ↦ out ++ escaped c) out).toList =
      out.toList ++ cs.flatMap fun c ↦ (escaped c).toList := by
  induction cs generalizing out with
  | nil => rw [List.foldl_nil, List.flatMap_nil, List.append_nil]
  | cons c cs ih =>
    rw [List.foldl_cons, ih, String.toList_append, List.flatMap_cons, List.append_assoc]

theorem toList_writeText (s out : String) :
    (writeText s out).toList = out.toList ++ textChars s := by
  rw [writeText, String.toList_push, String.foldl_eq_foldl_toList, toList_foldl_escaped,
    String.toList_push, textChars, List.append_assoc, List.append_assoc, List.singleton_append]

theorem toList_writeKey (key out : String) :
    (writeKey key out).toList = out.toList ++ (textChars key ++ [':']) := by
  rw [writeKey, String.toList_push, toList_writeText, List.append_assoc]

/-- The characters of an entry, given those of its value. -/
def entryChars (key : String) (value : List Char) : List Char := textChars key ++ ':' :: value

theorem toList_writeEntry (key s out : String) :
    (writeEntry key s out).toList = out.toList ++ entryChars key (textChars s) := by
  rw [writeEntry, toList_writeText, toList_writeKey, entryChars]
  simp only [List.append_assoc, List.singleton_append]

/-! ## Texts -/

theorem hexDigit_digitChar {n : Nat} (h : n < 16) : HexDigit n.digitChar n := ⟨h, .inl rfl⟩

/-- A control character is written by its number, which has two digits. -/
theorem charText_hexPair {c : Char} (h : isControl c = true) :
    CharText ("\\u00" ++ hexPair c.toNat).toList c := by
  have hc : c.toNat < 0x20 := by rwa [isControl, decide_eq_true_eq] at h
  have hunit := UnitText.digits (hexDigit_digitChar (n := 0) (by decide))
    (hexDigit_digitChar (n := 0) (by decide))
    (hexDigit_digitChar (n := c.toNat / 16) (by omega))
    (hexDigit_digitChar (n := c.toNat % 16) (by omega))
  rw [show 0x1000 * 0 + 0x100 * 0 + 0x10 * (c.toNat / 16) + c.toNat % 16 = c.toNat by omega]
    at hunit
  have hchar := CharText.number hunit (.inl (by omega))
  rw [Char.ofNat_toNat] at hchar
  rw [String.toList_append, hexPair, String.toList_ofList, String.toList_ofList]
  exact hchar

/-- Every character is written as the grammar wants it. -/
theorem charText_escaped (c : Char) : CharText (escaped c).toList c := by
  unfold escaped
  split
  · exact .letter (by decide)
  · exact .letter (by decide)
  · exact .letter (by decide)
  · exact .letter (by decide)
  · exact .letter (by decide)
  · exact .letter (by decide)
  · exact .letter (by decide)
  · next hquote hbackslash _ _ _ _ _ =>
    split
    · next h => exact charText_hexPair h
    · next h =>
      rw [show c.toString.toList = [c] from String.toList_singleton c]
      exact .plain hquote hbackslash (not_isControl_iff.1 h)

theorem textTail_escaped (cs : List Char) :
    TextTail (cs.flatMap (fun c ↦ (escaped c).toList) ++ ['"']) cs := by
  induction cs with
  | nil => exact .close
  | cons c cs ih =>
    rw [List.flatMap_cons, List.append_assoc]
    exact .char (charText_escaped c) ih

/-- A text is written as a literal of itself, whatever characters it has. -/
theorem textLiteral_textChars (s : String) : TextLiteral (textChars s) s :=
  ⟨_, rfl, textTail_escaped s.toList⟩

/-! ## Signs, items and entries -/

theorem Sign.self (c : Char) : Sign c [c] := ⟨[], blank_nil, rfl⟩

section

variable {α : Type} {close : Char} {item : Lang α} {w v : List Char} {a : α} {as : List α}

/-- The first item stands directly behind the opening bracket. -/
theorem Entries.first (hw : item w a) (hv : Entries close item false v as) :
    Entries close item true (w ++ v) (a :: as) := by
  have hc : Separator true [] := rfl
  exact .entry hc blank_nil hw hv

/-- A further item stands directly behind its comma. -/
theorem Entries.further (hw : item w a) (hv : Entries close item false v as) :
    Entries close item false (',' :: (w ++ v)) (a :: as) := by
  have hc : Separator false [','] := Sign.self ','
  exact .entry hc blank_nil hw hv

theorem Entries.done {first : Bool} : Entries close item first [close] [] :=
  .close (Sign.self close)

end

/-- What is said under a key stands directly behind its colon. -/
theorem EntryText.written {ι : Type} {keys : List String} {key : ι → String} {item : Lang ι}
    {a : ι} {v : List Char} (hv : item v a) :
    EntryText keys key item (entryChars (key a) v) (some a) :=
  .known (c := [':']) (g := []) (textLiteral_textChars (key a)) (Sign.self ':') blank_nil hv

/-- The characters of an object behind its opening bracket or behind an entry, given those of its
entries. -/
def entriesChars {ι : Type} (entry : ι → List Char) : Bool → List ι → List Char
  | _, [] => ['\x7d']
  | true, a :: as => entry a ++ entriesChars entry false as
  | false, a :: as => ',' :: (entry a ++ entriesChars entry false as)

theorem Entries.written {ι : Type} {keys : List String} {key : ι → String} {item : Lang ι}
    {value : ι → List Char} (h : ∀ a, item (value a) a) (first : Bool) (as : List ι) :
    Entries '\x7d' (EntryText keys key item) first
      (entriesChars (fun a ↦ entryChars (key a) (value a)) first as) (as.map some) := by
  induction as generalizing first with
  | nil =>
    rw [entriesChars]
    exact .done
  | cons a as ih =>
    cases first with
    | true => exact .first (EntryText.written (h a)) (ih false)
    | false => exact .further (EntryText.written (h a)) (ih false)

/-- An object is a record if its keys are known and different. -/
theorem RecordText.of_entries {ι : Type} {keys : List String} {key : ι → String} {item : Lang ι}
    {w : List Char} {as : List ι}
    (hw : Entries '\x7d' (EntryText keys key item) true w (as.map some))
    (has : (as.map key).Nodup) : RecordText keys key item ('\x7b' :: w) as := by
  have hsome : (as.map some).reduceOption = as := by
    rw [List.reduceOption, List.filterMap_map, Function.id_comp, List.filterMap_some]
  have hrecord := RecordText.named ⟨w, rfl, hw⟩ (hsome.symm ▸ has)
  rwa [hsome] at hrecord

end TreeDrawing.Json
