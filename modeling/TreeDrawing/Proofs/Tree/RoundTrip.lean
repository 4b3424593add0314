import TreeDrawing.Proofs.Json.Writing
import TreeDrawing.Proofs.Tree.Depth

/-!
# Trees are read back as they were written

A tree is written as an object that says of each node only what there is to say. Read with enough
room, the object says everything about the tree: what is left out is what a node without anything
has. Texts come back character by character, so an empty text is still a text.

Room is the only thing that can be missing. A written tree opens as few brackets as a description
of it can, and so the bound on nesting turns into an exact bound on levels, above which reading
fails for the depth and for nothing else.

## Main results

* `Tree.treeText_chars`: with enough room, the text of a tree describes the tree.
* `ofJson_toJson_iff`: which trees are read back from their documents.
* `rewritten_idempotent`: reading and writing again changes nothing the second time.
-/

namespace TreeDrawing

open Json

/-! ## What is written -/

/-- The characters of a further entry and the comma before it, if its text is there. -/
def furtherChars (key : String) : Option String → List Char
  | none => []
  | some s => ',' :: entryChars key (textChars s)

/-- The characters of what a node carries. -/
def Node.chars (n : Node) : List Char :=
  entryChars "kind" (textChars n.kind.name) ++
    (furtherChars "value" n.value? ++ furtherChars "token" n.token?)

mutual

/-- The characters of a written tree. -/
def Tree.chars : Tree → List Char
  | .node n [] => '\x7b' :: (n.chars ++ ['\x7d'])
  | .node n (c :: cs) =>
    '\x7b' :: (n.chars ++ ',' ::
      (entryChars "children" ('[' :: (c.chars ++ (Forest.restChars cs ++ [']']))) ++ ['\x7d']))

/-- The characters of trees that are each written behind a comma. -/
def Forest.restChars : Forest → List Char
  | [] => []
  | t :: ts => ',' :: (t.chars ++ Forest.restChars ts)

end

theorem toList_writeFurther (key : String) (text? : Option String) (out : String) :
    (writeFurther key text? out).toList = out.toList ++ furtherChars key text? := by
  cases text? with
  | none => rw [writeFurther, furtherChars, List.append_nil]
  | some s =>
    rw [writeFurther, toList_writeEntry, String.toList_push, furtherChars, List.append_assoc,
      List.singleton_append]

theorem Node.toList_write (n : Node) (out : String) :
    (n.write out).toList = out.toList ++ n.chars := by
  rw [Node.write, toList_writeFurther, toList_writeFurther, toList_writeEntry, Node.chars]
  simp only [List.append_assoc]

mutual

theorem Tree.toList_write : ∀ (t : Tree) (out : String),
    (t.write out).toList = out.toList ++ t.chars
  | .node n [], out => by
    rw [Tree.write, String.toList_push, Node.toList_write, String.toList_push, Tree.chars]
    simp only [List.append_assoc, List.cons_append, List.nil_append]
  | .node n (c :: cs), out => by
    rw [Tree.write, String.toList_push, String.toList_push, Forest.toList_writeRest cs,
      Tree.toList_write c, String.toList_push, toList_writeKey, String.toList_push,
      Node.toList_write, String.toList_push, Tree.chars, entryChars]
    simp only [List.append_assoc, List.cons_append, List.nil_append]

theorem Forest.toList_writeRest : ∀ (f : Forest) (out : String),
    (Forest.writeRest f out).toList = out.toList ++ Forest.restChars f
  | [], out => by rw [Forest.writeRest, Forest.restChars, List.append_nil]
  | t :: ts, out => by
    rw [Forest.writeRest, Forest.toList_writeRest ts, Tree.toList_write t, String.toList_push,
      Forest.restChars]
    simp only [List.append_assoc, List.cons_append, List.nil_append]

end

theorem Tree.toList_toJson (t : Tree) : t.toJson.toList = t.chars := t.toList_write ""

/-! ## What it says -/

/-- What is said about what a node carries. -/
def Node.clauses (n : Node) : List Clause :=
  .kind n.kind :: (n.value?.toList.map (fun s ↦ .value (some s)) ++
    n.token?.toList.map fun s ↦ .token (some s))

/-- What is said about a tree. -/
def Tree.clauses : Tree → List Clause
  | .node n [] => n.clauses
  | .node n (c :: cs) => n.clauses ++ [.children (c :: cs)]

theorem Tree.tree_clauses (t : Tree) : Clause.tree t.clauses = t := by
  rcases t with ⟨⟨kind, value?, token?⟩, _ | ⟨c, cs⟩⟩ <;> cases value? <;> cases token? <;> rfl

theorem Tree.nodup_clauses (t : Tree) : (t.clauses.map Clause.key).Nodup := by
  rcases t with ⟨⟨kind, value?, token?⟩, _ | ⟨c, cs⟩⟩ <;> cases value? <;> cases token? <;>
    simp [Tree.clauses, Node.clauses, Clause.key]

/-- What follows inside the record of a node, if every key is known. -/
def ClauseEntries (room : Nat) (first : Bool) : Lang (List Clause) := fun w as ↦
  Entries '\x7d' (EntryText Clause.keys Clause.key (ClauseText (KindText room) (ForestText room)))
    first w (as.map some)

namespace ClauseEntries

variable {room : Nat} {w v : List Char} {as : List Clause} {a : Clause}

theorem done {first : Bool} : ClauseEntries room first ['\x7d'] [] := Entries.done

theorem first (ha : ClauseText (KindText room) (ForestText room) v a)
    (hw : ClauseEntries room false w as) :
    ClauseEntries room true (entryChars a.key v ++ w) (a :: as) :=
  Entries.first (EntryText.written ha) hw

theorem further (ha : ClauseText (KindText room) (ForestText room) v a)
    (hw : ClauseEntries room false w as) :
    ClauseEntries room false (',' :: (entryChars a.key v ++ w)) (a :: as) :=
  Entries.further (EntryText.written ha) hw

/-- A text that may be missing is said under its key if it is there. -/
theorem furtherText {clause : Option String → Clause} {k : String}
    (hk : ∀ {w a}, ClauseText (KindText room) (ForestText room) w a ∧ a.key = k ↔
      ∃ v, OptionalText w v ∧ clause v = a)
    (hw : ClauseEntries room false w as) (text? : Option String) :
    ClauseEntries room false (furtherChars k text? ++ w)
      (text?.toList.map (fun s ↦ clause (some s)) ++ as) := by
  cases text? with
  | none => exact hw
  | some s =>
    obtain ⟨ha, hkey⟩ := hk.2 ⟨some s, .text (textLiteral_textChars s), rfl⟩
    have hentry := further ha hw
    rw [hkey] at hentry
    exact hentry

/-- The text of what a node carries says just that, whatever follows. -/
theorem node (hw : ClauseEntries room false w as) (n : Node) :
    ClauseEntries room true (n.chars ++ w) (n.clauses ++ as) := by
  have hkind : KindText room (textChars n.kind.name) n.kind :=
    .name (kindLiteral_iff.2 (textLiteral_textChars n.kind.name))
  have htoken := furtherText Clause.clauseText_token_iff hw n.token?
  have hvalue := furtherText Clause.clauseText_value_iff htoken n.value?
  rw [Node.chars, Node.clauses]
  simp only [List.append_assoc, List.cons_append]
  exact first (a := .kind n.kind) hkind hvalue

/-- The children come last, as a list. -/
theorem children {cs : Forest} (hv : Entries ']' (TreeText room) true v cs) :
    ClauseEntries (room + 1) false (',' :: (entryChars "children" ('[' :: v) ++ ['\x7d']))
      [.children cs] :=
  further (a := .children cs) ⟨v, rfl, hv⟩ done

/-- The entries between brackets describe the tree of which they say everything. -/
theorem treeText {t : Tree} (hw : ClauseEntries room true w t.clauses) :
    TreeText (room + 1) ('\x7b' :: w) t :=
  ⟨t.clauses, RecordText.of_entries hw t.nodup_clauses, t.tree_clauses.symm⟩

end ClauseEntries

mutual

/-- With enough room, the text of a tree describes the tree. -/
theorem Tree.treeText_chars : ∀ (t : Tree) (room : Nat), 2 * t.levels ≤ room + 1 →
    TreeText room t.chars t
  | .node n [], room, h => by
    rw [Tree.levels] at h
    obtain ⟨room, rfl⟩ : ∃ r, room = r + 1 := ⟨room - 1, by omega⟩
    have hnode : ClauseEntries room true (n.chars ++ ['\x7d']) (n.clauses ++ []) :=
      ClauseEntries.done.node n
    rw [List.append_nil] at hnode
    exact hnode.treeText
  | .node n (c :: cs), room, h => by
    rw [Tree.levels, Forest.levels] at h
    have hpos := c.levels_pos
    -- One level is taken by the record of the node, and one by the list of its children.
    obtain ⟨room, rfl⟩ : ∃ r, room = r + 2 := ⟨room - 2, by omega⟩
    have hc := Tree.treeText_chars c room (by omega)
    have hcs := Forest.entries_restChars cs room (by omega)
    have hchildren := ClauseEntries.children (Entries.first hc hcs)
    exact (hchildren.node n).treeText

theorem Forest.entries_restChars : ∀ (f : Forest) (room : Nat), 2 * Forest.levels f ≤ room + 1 →
    Entries ']' (TreeText room) false (Forest.restChars f ++ [']']) f
  | [], _, _ => Entries.done
  | t :: ts, room, h => by
    rw [Forest.levels] at h
    have ht := Tree.treeText_chars t room (by omega)
    have hts := Forest.entries_restChars ts room (by omega)
    rw [Forest.restChars, List.cons_append, List.append_assoc]
    exact Entries.further ht hts

end

/-! ## Reading it back -/

/-- With enough room, a tree is read back. -/
theorem Tree.document_toJson (t : Tree) (room : Nat) (h : 2 * t.levels ≤ room + 1) :
    (Tree.reader room).document t.toJson = .ok t := by
  rw [(Tree.meets_reader room).1.document_eq_ok_iff, t.toList_toJson]
  exact ⟨[], t.chars, [], (List.append_nil _).symm, blank_nil, t.treeText_chars room h, blank_nil⟩

/-- Without, it is nested too deeply. -/
theorem Tree.document_toJson_of_lt (t : Tree) (room : Nat) (h : room + 1 < 2 * t.levels) :
    ∃ p, (Tree.reader room).document t.toJson = .error ⟨.nestedTooDeeply, p⟩ := by
  have hdeeper : (Tree.reader room).Shallower (Tree.reader (2 * t.levels)) :=
    (Tree.reader_shallower (by omega)).1
  obtain hok | herror := hdeeper.document (t.document_toJson _ (Nat.le_succ _))
  · obtain ⟨_, w, _, -, -, hw, -⟩ := (Tree.meets_reader room).1.document_eq_ok_iff.1 hok
    have hlevels := hw.levels_le
    omega
  · exact herror

theorem Tree.ofJson_eq_error_iff {text : String} {e : Json.Error} :
    Tree.ofJson text = .error ⟨e⟩ ↔ (Tree.reader maxNesting).document text = .error e := by
  unfold Tree.ofJson
  split
  · next h => simp [h]
  · next h => simp [h]

/-- **Trees are read back as they were written.** The document of a tree is read as that tree if
the tree has at most 64 levels, and is refused for its depth if it has more. -/
theorem ofJson_toJson_iff (t : Tree) :
    (Tree.ofJson t.toJson = .ok t ↔ t.levels ≤ 64) ∧
      ((∃ p, Tree.ofJson t.toJson = .error ⟨⟨.nestedTooDeeply, p⟩⟩) ↔ 65 ≤ t.levels) := by
  simp only [Tree.ofJson_eq_ok_iff_document, Tree.ofJson_eq_error_iff]
  have hread : t.levels ≤ 64 → (Tree.reader maxNesting).document t.toJson = .ok t := by
    intro h
    exact t.document_toJson maxNesting (by rw [maxNesting]; omega)
  have hdeep : 65 ≤ t.levels →
      ∃ p, (Tree.reader maxNesting).document t.toJson = .error ⟨.nestedTooDeeply, p⟩ := by
    intro h
    exact t.document_toJson_of_lt maxNesting (by rw [maxNesting]; omega)
  constructor
  · refine ⟨fun hok ↦ ?_, hread⟩
    by_contra hlt
    obtain ⟨p, hp⟩ := hdeep (by omega)
    exact nomatch hok.symm.trans hp
  · refine ⟨?_, hdeep⟩
    rintro ⟨p, hp⟩
    by_contra hlt
    exact nomatch (hread (by omega)).symm.trans hp

/-! ## Rewriting -/

/-- The document that says what a text says in the way trees are written, if the text can be
read. -/
def Tree.rewritten (text : String) : Except Unreadable String := (Tree.ofJson text).map Tree.toJson

/-- Whatever can be read has at most 64 levels, however it is given. -/
theorem Tree.levels_le_of_ofJson {text : String} {t : Tree} (h : Tree.ofJson text = .ok t) :
    t.levels ≤ 64 := by
  rw [Tree.ofJson_eq_ok_iff_document, (Tree.meets_reader maxNesting).1.document_eq_ok_iff] at h
  obtain ⟨_, w, _, -, -, hw, -⟩ := h
  have hlevels := hw.levels_le
  rw [maxNesting] at hlevels
  omega

/-- Written in the way of trees, it can be read again. -/
theorem Tree.ofJson_toJson_of_ofJson {text : String} {t : Tree} (h : Tree.ofJson text = .ok t) :
    Tree.ofJson t.toJson = .ok t := by
  have hlevels := Tree.levels_le_of_ofJson h
  rw [Tree.ofJson_eq_ok_iff_document]
  exact t.document_toJson maxNesting (by rw [maxNesting]; omega)

/-- **Rewriting a document.** A tree that is read from a text has at most 64 levels, and is read
back from its own document. So rewriting a document a second time changes nothing, and a text that
can be read is never turned into one that cannot. -/
theorem rewritten_idempotent (text : String) :
    (∀ t : Tree, Tree.ofJson text = .ok t → t.levels ≤ 64 ∧ Tree.ofJson t.toJson = .ok t) ∧
      (Tree.rewritten text >>= Tree.rewritten) = Tree.rewritten text := by
  refine ⟨fun t h ↦ ⟨Tree.levels_le_of_ofJson h, Tree.ofJson_toJson_of_ofJson h⟩, ?_⟩
  unfold Tree.rewritten
  cases h : Tree.ofJson text with
  | error u => rfl
  | ok t =>
    change (Tree.ofJson t.toJson).map Tree.toJson = _
    rw [Tree.ofJson_toJson_of_ofJson h]

/-- A node given by position, its kind as an object. -/
theorem rewritten_idempotent_listed :
    let t : Tree := .single { kind := .capture, value? := some "x" }
    Tree.ofJson "[\x7b\"capture\":null\x7d,\"x\"]" = .ok t ∧ t.levels ≤ 64 ∧
      Tree.ofJson t.toJson = .ok t := by
  intro t
  have hkind : KindText 126 _ .capture :=
    .tagged (g := []) (c := [':']) (by decide) blank_nil (textLiteral_textChars "capture")
      (Sign.self ':') blank_nil (Sign.self '\x7d')
  have hentries : Entries ']' (ClauseText (KindText 126) (ForestText 126)) true _
      [.kind .capture, .value (some "x")] :=
    .first hkind (.further (.text (textLiteral_textChars "x")) .done)
  have htree : TreeText 127 _ t :=
    ⟨[.kind .capture, .value (some "x")], .listed ⟨_, rfl, hentries⟩ (by decide), rfl⟩
  have hread : Tree.ofJson "[\x7b\"capture\":null\x7d,\"x\"]" = .ok t := by
    rw [Tree.ofJson_eq_ok_iff_document, (Tree.meets_reader maxNesting).1.document_eq_ok_iff]
    exact ⟨[], _, [], by decide, blank_nil, htree, blank_nil⟩
  exact ⟨hread, (rewritten_idempotent _).1 t hread⟩

end TreeDrawing
