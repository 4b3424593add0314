import TreeDrawing.Proofs.Json.Record
import TreeDrawing.Tree.Json

/-!
# Which documents hold a tree

A document speaks about a node in up to four *clauses*, one for its kind, its value, its token and
its children. Whatever is not mentioned is as in the node without anything: an ordinary one, with
neither value nor token nor children. How clauses are written down as a record is the grammar's
business; this module adds how each of them is written, and what they say together.

## Depth

Lists, records and kinds written as objects count towards the number of levels that may be open at
once, and values that are passed over do not. A language of trees therefore has a room, like the
reader it is the language of: the number of levels that may still be opened.

## Main results

* `TreeText`: the pieces of text that describe a tree.
* `Tree.meets_reader`: the reader of trees takes exactly these pieces. A text is therefore read as a
  tree if and only if it is a document that describes the tree.
-/

namespace TreeDrawing

open Json

/-! ## Clauses -/

/-- Something that is said about a node. -/
inductive Clause where
  | kind (k : Kind)
  | value (v : Option String)
  | token (v : Option String)
  | children (cs : Forest)

namespace Clause

/-- The key under which it is said. -/
def key : Clause → String
  | kind _ => "kind"
  | value _ => "value"
  | token _ => "token"
  | children _ => "children"

/-- The keys, in the order in which they may be left out. -/
def keys : List String := ["kind", "value", "token", "children"]

/-- The kind, if this is about the kind. -/
def kind? : Clause → Option Kind
  | kind k => some k
  | _ => none

/-- What is said about the value, if anything. -/
def value? : Clause → Option (Option String)
  | value v => some v
  | _ => none

/-- What is said about the token, if anything. -/
def token? : Clause → Option (Option String)
  | token v => some v
  | _ => none

/-- The children, if this is about them. -/
def children? : Clause → Option Forest
  | children cs => some cs
  | _ => none

/-- The tree that differs from `t` as far as something is said about it. -/
def amend (t : Tree) (as : List Clause) : Tree :=
  .node
    { kind := (as.findSome? kind?).getD t.root.kind
      value? := (as.findSome? value?).getD t.root.value?
      token? := (as.findSome? token?).getD t.root.token? }
    ((as.findSome? children?).getD t.children)

/-- The tree that is described. -/
def tree (as : List Clause) : Tree := amend (.single {}) as

end Clause

/-! ## The grammar -/

/-- The name of a kind. -/
def KindLiteral : Lang Kind
  | w, .ordinary => TextLiteral w "ordinary"
  | w, .capture => TextLiteral w "capture"

/-- A kind is given by its name, or by an object whose only key is its name. -/
inductive KindText (room : Nat) : Lang Kind
  | name {w : List Char} {k : Kind} (hw : KindLiteral w k) : KindText room w k
  | tagged {g w c g' e : List Char} {k : Kind} (hroom : 0 < room) (hg : Blank g)
      (hw : KindLiteral w k) (hc : Sign ':' c) (hg' : Blank g') (he : Sign '\x7d' e) :
    KindText room ('\x7b' :: (g ++ (w ++ (c ++ (g' ++ (['n', 'u', 'l', 'l'] ++ e)))))) k

/-- What is said under each of the keys, given the languages of kinds and of lists of trees. -/
def ClauseText (kind : Lang Kind) (forest : Lang Forest) : Lang Clause
  | w, .kind k => kind w k
  | w, .value v => OptionalText w v
  | w, .token v => OptionalText w v
  | w, .children cs => forest w cs

mutual

/-- A tree, in a text that opens at most `room` levels. -/
def TreeText : Nat → Lang Tree
  | 0 => fun _ _ ↦ False
  | room + 1 => fun w t ↦
    ∃ as, RecordText Clause.keys Clause.key (ClauseText (KindText room) (ForestText room)) w as ∧
      t = Clause.tree as

/-- A list of trees, in a text that opens at most `room` levels. -/
def ForestText : Nat → Lang Forest
  | 0 => fun _ _ ↦ False
  | room + 1 => Enclosed '[' ']' (TreeText room)

end

/-! ## Kinds -/

theorem kindLiteral_iff {w : List Char} {k : Kind} : KindLiteral w k ↔ TextLiteral w k.name := by
  cases k <;> rfl

theorem Kind.ofName?_eq_some_iff {name : String} {k : Kind} :
    Kind.ofName? name = some k ↔ name = k.name := by
  unfold Kind.ofName?
  by_cases ho : name = Kind.ordinary.name
  · rw [if_pos ho, ho]
    cases k <;> simp [Kind.name]
  · rw [if_neg ho]
    by_cases hc : name = Kind.capture.name
    · rw [if_pos hc, hc]
      cases k <;> simp [Kind.name]
    · rw [if_neg hc]
      cases k <;> simp [ho, hc]

theorem Kind.readName_eq_ok_iff {s rest : List Char} {k : Kind} :
    Kind.readName s = .ok (k, rest) ↔ ∃ w, s = w ++ rest ∧ TextLiteral ('"' :: w) k.name := by
  constructor
  · intro h
    obtain ⟨⟨name, r⟩, hname, hk⟩ := bind_eq_ok_iff.1 h
    obtain ⟨w, rfl, hw⟩ := readText_nil_eq_ok_iff.1 hname
    dsimp only at hk
    split at hk
    · next k' hk' =>
      obtain ⟨rfl, rfl⟩ := ok_inj hk
      exact ⟨w, rfl, Kind.ofName?_eq_some_iff.1 hk' ▸ hw⟩
    · simp at hk
  · rintro ⟨w, rfl, hw⟩
    refine bind_eq_ok_iff.2 ⟨_, readText_nil_eq_ok_iff.2 ⟨w, rfl, hw⟩, ?_⟩
    dsimp only
    rw [Kind.ofName?_eq_some_iff.2 rfl]

theorem Kind.readTagged_sound {s rest : List Char} {k : Kind}
    (h : Kind.readTagged s = .ok (k, rest)) :
    ∃ g w c g' e, s = g ++ (w ++ (c ++ (g' ++ (['n', 'u', 'l', 'l'] ++ (e ++ rest))))) ∧
      Blank g ∧ TextLiteral w k.name ∧ Sign ':' c ∧ Blank g' ∧ Sign '\x7d' e := by
  obtain ⟨g, hg, hs⟩ := exists_blank_append_skipBlanks s
  unfold Kind.readTagged at h
  split at h
  · simp at h
  · next r hr =>
    obtain ⟨⟨k', r₁⟩, h₁, hr₁⟩ := bind_eq_ok_iff.1 h
    obtain ⟨r₂, h₂, hr₂⟩ := bind_eq_ok_iff.1 hr₁
    obtain ⟨w, hw', hw⟩ := Kind.readName_eq_ok_iff.1 h₁
    obtain ⟨c, hc', hc⟩ := colon_eq_ok_iff.1 h₂
    obtain ⟨g', hg', hs'⟩ := exists_blank_append_skipBlanks r₂
    split at hr₂
    · next r₃ hr₃ =>
      obtain ⟨r₄, h₄, hr₄⟩ := bind_eq_ok_iff.1 hr₂
      rw [spell_eq_ok_iff] at h₄
      split at hr₄
      · simp at hr₄
      · next r₅ hr₅ =>
        obtain ⟨rfl, rfl⟩ := ok_inj hr₄
        obtain ⟨e, rfl, he⟩ := (skipBlanks_eq_cons_iff (by decide)).1 hr₅
        refine ⟨g, '"' :: w, c, g', e, ?_, hg, hw, hc, hg', he⟩
        rw [hs, hr, hw', hc', hs', hr₃, h₄]
        rfl
      · simp at hr₄
    · simp at hr₂
  · simp at h
  · simp at h

theorem Kind.readTagged_append {g w c g' e : List Char} {k : Kind} (hg : Blank g)
    (hw : TextLiteral w k.name) (hc : Sign ':' c) (hg' : Blank g') (he : Sign '\x7d' e)
    (s : List Char) :
    Kind.readTagged (g ++ (w ++ (c ++ (g' ++ (['n', 'u', 'l', 'l'] ++ (e ++ s)))))) =
      .ok (k, s) := by
  have hnull : Begins ['n', 'u', 'l', 'l'] := ⟨'n', _, rfl, by decide, by decide⟩
  have hskip := hw.begins.skipBlanks_append hg (c ++ (g' ++ (['n', 'u', 'l', 'l'] ++ (e ++ s))))
  have hskip' := hnull.skipBlanks_append hg' (e ++ s)
  have hskip'' : skipBlanks (e ++ s) = '\x7d' :: s :=
    (skipBlanks_eq_cons_iff (by decide)).2 ⟨e, rfl, he⟩
  obtain ⟨v, rfl, -⟩ := id hw
  unfold Kind.readTagged
  rw [hskip]
  refine bind_eq_ok_iff.2 ⟨_, Kind.readName_eq_ok_iff.2 ⟨v, rfl, hw⟩, ?_⟩
  refine bind_eq_ok_iff.2 ⟨_, colon_eq_ok_iff.2 ⟨c, rfl, hc⟩, ?_⟩
  rw [hskip']
  refine bind_eq_ok_iff.2 ⟨_, spell_eq_ok_iff.2 rfl, ?_⟩
  rw [hskip'']
  rfl

theorem Kind.meets_reader (room : Nat) : (Kind.reader room).Meets (KindText room) where
  begins h := by
    cases h with
    | name hw => exact (kindLiteral_iff.1 hw).begins
    | tagged => exact ⟨'\x7b', _, rfl, by decide, by decide⟩
  read_eq_ok_iff {s rest k} := by
    unfold Kind.reader
    constructor
    · intro h
      obtain ⟨g, hg, hs⟩ := exists_blank_append_skipBlanks s
      dsimp only at h
      split at h
      · simp at h
      · next r hr =>
        obtain ⟨w, rfl, hw⟩ := Kind.readName_eq_ok_iff.1 h
        exact ⟨g, '"' :: w, by rw [hs, hr, List.cons_append], hg, .name (kindLiteral_iff.2 hw)⟩
      · next r hr =>
        split at h
        · simp at h
        · next hroom =>
          obtain ⟨g₁, w, c, g₂, e, rfl, hg₁, hw, hc, hg₂, he⟩ := Kind.readTagged_sound h
          refine ⟨g, _, ?_, hg,
            .tagged (Nat.pos_of_ne_zero hroom) hg₁ (kindLiteral_iff.2 hw) hc hg₂ he⟩
          rw [hs, hr]
          simp only [List.append_assoc, List.cons_append]
      · simp at h
    · rintro ⟨g, w, rfl, hg, hw⟩
      dsimp only
      cases hw with
      | name hname =>
        have hw := kindLiteral_iff.1 hname
        rw [hw.begins.skipBlanks_append hg]
        obtain ⟨v, rfl, -⟩ := id hw
        exact Kind.readName_eq_ok_iff.2 ⟨v, rfl, hw⟩
      | tagged hroom hg₁ hw hc hg₂ he =>
        rw [skipBlanks_append hg, List.cons_append, skipBlanks_cons (by decide)]
        simp only [List.append_assoc]
        refine (if_neg (Nat.ne_of_gt hroom)).trans ?_
        exact Kind.readTagged_append hg₁ (kindLiteral_iff.1 hw) hc hg₂ he rest

/-! ## What clauses say together -/

namespace Clause

/-- The change to a tree that a clause asks for. -/
def change : Clause → Tree → Tree
  | kind k => Tree.mapRoot fun n ↦ { n with kind := k }
  | value v => Tree.mapRoot fun n ↦ { n with value? := v }
  | token v => Tree.mapRoot fun n ↦ { n with token? := v }
  | children cs => fun t ↦ t.withChildren cs

/-- Nothing is said about what no clause has the key of. -/
theorem findSome?_eq_none {β : Type} {f : Clause → Option β} {k : String} {as : List Clause}
    (hf : ∀ a, a.key ≠ k → f a = none) (hk : k ∉ as.map key) : as.findSome? f = none := by
  rw [List.findSome?_eq_none_iff]
  intro a ha
  exact hf a fun hak ↦ hk (List.mem_map.2 ⟨a, ha, hak⟩)

theorem kind?_eq_none {a : Clause} (h : a.key ≠ "kind") : a.kind? = none := by
  cases a <;> first | rfl | exact absurd rfl h

theorem value?_eq_none {a : Clause} (h : a.key ≠ "value") : a.value? = none := by
  cases a <;> first | rfl | exact absurd rfl h

theorem token?_eq_none {a : Clause} (h : a.key ≠ "token") : a.token? = none := by
  cases a <;> first | rfl | exact absurd rfl h

theorem children?_eq_none {a : Clause} (h : a.key ≠ "children") : a.children? = none := by
  cases a <;> first | rfl | exact absurd rfl h

/-- What a clause says is what is looked up, if no later clause says it again. -/
theorem amend_change {a : Clause} {as : List Clause} (ha : a.key ∉ as.map key) (t : Tree) :
    amend (a.change t) as = amend t (a :: as) := by
  rcases t with ⟨n, cs⟩
  cases a with
  | kind k =>
    have hnone := findSome?_eq_none (fun _ ↦ kind?_eq_none) ha
    simp [amend, change, Tree.mapRoot, hnone, List.findSome?_cons, kind?, value?, token?,
      children?]
  | value v =>
    have hnone := findSome?_eq_none (fun _ ↦ value?_eq_none) ha
    simp [amend, change, Tree.mapRoot, hnone, List.findSome?_cons, kind?, value?, token?,
      children?]
  | token v =>
    have hnone := findSome?_eq_none (fun _ ↦ token?_eq_none) ha
    simp [amend, change, Tree.mapRoot, hnone, List.findSome?_cons, kind?, value?, token?,
      children?]
  | children cs =>
    have hnone := findSome?_eq_none (fun _ ↦ children?_eq_none) ha
    simp [amend, change, Tree.withChildren, hnone, List.findSome?_cons, kind?, value?, token?,
      children?]

/-- If no key is used twice, it makes no difference whether the tree is changed by one clause after
another or looked up in all of them. -/
theorem changed_eq_amend {as : List Clause} (h : (as.map key).Nodup) (t : Tree) :
    changed change t as = amend t as := by
  induction as generalizing t with
  | nil =>
    rcases t with ⟨n, cs⟩
    rfl
  | cons a as ih =>
    rw [List.map_cons, List.nodup_cons] at h
    obtain ⟨ha, has⟩ := h
    have hstep : changed change t (a :: as) = amend (a.change t) as := ih has _
    rw [hstep, amend_change ha]

variable {kindReader : Reader Kind} {forestReader : Reader Forest} {K : Lang Kind}
  {F : Lang Forest}

theorem mem_keys (a : Clause) : a.key ∈ keys := by
  cases a <;> simp [key, keys]

theorem nodup_keys : keys.Nodup := by decide

section

variable {w : List Char} {a : Clause}

theorem clauseText_kind_iff :
    ClauseText K F w a ∧ a.key = "kind" ↔ ∃ k, K w k ∧ kind k = a := by
  cases a <;> simp [ClauseText, key]

theorem clauseText_value_iff :
    ClauseText K F w a ∧ a.key = "value" ↔ ∃ v, OptionalText w v ∧ value v = a := by
  cases a <;> simp [ClauseText, key]

theorem clauseText_token_iff :
    ClauseText K F w a ∧ a.key = "token" ↔ ∃ v, OptionalText w v ∧ token v = a := by
  cases a <;> simp [ClauseText, key]

theorem clauseText_children_iff :
    ClauseText K F w a ∧ a.key = "children" ↔ ∃ cs, F w cs ∧ children cs = a := by
  cases a <;> simp [ClauseText, key]

end

/-- The fields of a tree read clauses. -/
theorem describes (hk : kindReader.Meets K) (hf : forestReader.Meets F) :
    Describes (Tree.fields kindReader forestReader) key (ClauseText K F) change where
  mem_keys := mem_keys
  meets field hfield := by
    simp only [Tree.fields, List.mem_cons, List.not_mem_nil, or_false] at hfield
    obtain rfl | rfl | rfl | rfl := hfield
    · exact hk.field (ClauseText K F) change clauseText_kind_iff
    · exact Reader.meets_optionalText.field (ClauseText K F) change clauseText_value_iff
    · exact Reader.meets_optionalText.field (ClauseText K F) change clauseText_token_iff
    · exact hf.field (ClauseText K F) change clauseText_children_iff

end Clause

/-! ## Trees -/

theorem Tree.meets_reader_succ {room : Nat} (h : (Forest.reader room).Meets (ForestText room)) :
    (Tree.reader (room + 1)).Meets (TreeText (room + 1)) := by
  have hrecord := Reader.Meets.record (Clause.describes (Kind.meets_reader room) h)
    "struct TreeNode" default
  refine hrecord.of_iff fun w t ↦ exists_congr fun as ↦ and_congr_right fun hw ↦ ?_
  rw [Clause.changed_eq_amend (hw.nodup Clause.nodup_keys)]
  rfl

/-- With the same room, the readers and the languages of trees and of lists of trees agree. -/
theorem Tree.meets_reader (room : Nat) :
    (Tree.reader room).Meets (TreeText room) ∧ (Forest.reader room).Meets (ForestText room) := by
  induction room with
  | zero => exact ⟨Reader.meets_record_none _ default, Reader.meets_list_none⟩
  | succ room ih => exact ⟨Tree.meets_reader_succ ih.2, ih.1.list⟩

theorem Tree.ofJson_eq_ok_iff_document {text : String} {t : Tree} :
    Tree.ofJson text = .ok t ↔ (Tree.reader maxNesting).document text = .ok t := by
  unfold Tree.ofJson
  -- A failure is only wrapped.
  split
  · next h => rw [h, Except.ok.injEq, Except.ok.injEq]
  · next h => simp [h]

/-- **The documents of trees.** A text is read as a tree if and only if it is a document that
describes the tree. -/
theorem ofJson_eq_ok_iff (text : String) (t : Tree) :
    Tree.ofJson text = .ok t ↔ DocumentText (TreeText 127) text.toList t :=
  Tree.ofJson_eq_ok_iff_document.trans (Tree.meets_reader 127).1.document_eq_ok_iff

end TreeDrawing
