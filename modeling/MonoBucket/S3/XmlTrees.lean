/-
Documents of any depth

The calls of a writer describe a tree: an element with text is a leaf of it, and what is
written between an open and its close is a branch. Whatever the calls, the writer's document
is the text of the tree, each element on a line of its own; and within the limits of the
reader, and with names and text it takes, the tree is what is read back.
-/

import MonoBucket.S3.XmlBounds
import MonoBucket.S3.XmlPositions

namespace MonoBucket.S3.Xml

/-! ### Trees -/

/-- What a document holds, below any white space. -/
inductive Tree
  | leaf (name text : Bytes)
  | branch (name : Bytes) (children : List Tree)

/-- The line break and the blanks in front of what stands at a level. -/
def gap (level : Nat) : Bytes := [0x0A] ++ List.replicate (level * 2) 0x20

theorem blank_gap (level : Nat) : Blank (gap level) := by
  intro byte hbyte
  rcases List.mem_append.mp hbyte with hbreak | hblank
  · rw [List.mem_singleton.mp hbreak]
    decide
  · rw [List.eq_of_mem_replicate hblank]
    decide

mutual

/-- A tree as it is written at a level. -/
def Tree.text : Nat → Tree → Bytes
  | _, .leaf name text => startTag name [] ++ (xmlEscape text ++ endTag name)
  | level, .branch name children =>
    startTag name [] ++ (Tree.texts (level + 1) children ++ (gap level ++ endTag name))

def Tree.texts : Nat → List Tree → Bytes
  | _, [] => []
  | level, tree :: trees => gap level ++ (Tree.text level tree ++ Tree.texts level trees)

end

mutual

/-- What is read of a tree at a level: a branch that holds nothing but white space keeps it. -/
def Tree.node : Nat → Tree → XmlNode
  | _, .leaf name text => .element name text []
  | level, .branch name children =>
    .element name (if children.isEmpty then gap level else []) (Tree.nodes (level + 1) children)

def Tree.nodes : Nat → List Tree → List XmlNode
  | _, [] => []
  | level, tree :: trees => Tree.node level tree :: Tree.nodes level trees

end

mutual

/-- How many elements a tree has. -/
def Tree.size : Tree → Nat
  | .leaf _ _ => 1
  | .branch _ children => 1 + Tree.sizes children

def Tree.sizes : List Tree → Nat
  | [] => 0
  | tree :: trees => Tree.size tree + Tree.sizes trees

end

mutual

/-- How many levels a tree has. -/
def Tree.depth : Tree → Nat
  | .leaf _ _ => 1
  | .branch _ children => 1 + Tree.depths children

def Tree.depths : List Tree → Nat
  | [] => 0
  | tree :: trees => max (Tree.depth tree) (Tree.depths trees)

end

mutual

/-- Names the reader takes, and text it can carry. -/
def Tree.Legible : Tree → Prop
  | .leaf name text => isName name ∧ ∀ byte ∈ text, isCarried byte
  | .branch name children => isName name ∧ Tree.AllLegible children

def Tree.AllLegible : List Tree → Prop
  | [] => True
  | tree :: trees => Tree.Legible tree ∧ Tree.AllLegible trees

end

mutual

/-- The node has the names of the tree, in order, and the texts of its leaves. -/
def Tree.Shows : Tree → XmlNode → Prop
  | .leaf name text, node => node = .element name text []
  | .branch name children, node => node.name = name ∧ Tree.AllShow children node.children

def Tree.AllShow : List Tree → List XmlNode → Prop
  | [], nodes => nodes = []
  | tree :: trees, nodes => ∃ node others, nodes = node :: others ∧ Tree.Shows tree node ∧
      Tree.AllShow trees others

end

theorem isEmpty_nodes (level : Nat) (trees : List Tree) :
    (Tree.nodes level trees).isEmpty = trees.isEmpty := by
  cases trees <;> rfl

mutual

theorem Tree.shows_node (level : Nat) : ∀ tree : Tree, tree.Shows (tree.node level)
  | .leaf _ _ => rfl
  | .branch _ children => ⟨rfl, Tree.allShow_nodes (level + 1) children⟩

theorem Tree.allShow_nodes (level : Nat) :
    ∀ trees : List Tree, Tree.AllShow trees (Tree.nodes level trees)
  | [] => rfl
  | tree :: trees => ⟨_, _, rfl, Tree.shows_node level tree, Tree.allShow_nodes level trees⟩

end

/-! ### Reading a tree -/

mutual

/-- A tree is read wherever it stands, when there are levels left for it. -/
theorem Tree.reads (level levels : Nat) : ∀ tree : Tree, tree.Legible → tree.depth ≤ levels →
    Reads levels (tree.node level) tree.size (tree.text level)
  | .leaf name text, hlegible, hdepth => by
      obtain ⟨levels, rfl⟩ := Nat.exists_eq_add_of_le hdepth
      rw [Tree.depth, Nat.add_comm]
      exact Reads.leaf hlegible.1 hlegible.2
  | .branch name children, hlegible, hdepth => by
      rw [Tree.depth] at hdepth
      obtain ⟨levels, rfl⟩ : ∃ below, levels = below + 1 := ⟨levels - 1, by omega⟩
      have hchildren := Tree.readsAll (level + 1) levels children hlegible.2 (by omega)
      have hread := @Reads.parent levels name [] _ _ _ _ hlegible.1 (by decide) hchildren
        (blank_gap level)
      rw [isEmpty_nodes] at hread
      exact hread

theorem Tree.readsAll (level levels : Nat) :
    ∀ trees : List Tree, Tree.AllLegible trees → Tree.depths trees ≤ levels →
      ReadsAll levels (Tree.nodes level trees) (Tree.sizes trees) (Tree.texts level trees)
  | [], _, _ => .nil
  | tree :: trees, hlegible, hdepth =>
      .cons (blank_gap level)
        (Tree.reads level levels tree hlegible.1 ((le_max_left _ _).trans hdepth))
        (Tree.readsAll level levels trees hlegible.2 ((le_max_right _ _).trans hdepth))

end

/-! ### What the calls describe -/

/-- A call of the writer. -/
inductive WriterCall
  | openElement (name : Bytes)
  | element (name text : Bytes)
  | close

/-- An element that is still open, with what it holds so far. -/
structure Frame where
  name : Bytes
  children : List Tree := []

def Frame.add (frame : Frame) (tree : Tree) : Frame :=
  { frame with children := frame.children ++ [tree] }

def Frame.tree (frame : Frame) : Tree := .branch frame.name frame.children

/-- The open elements of a document, the innermost first. One is always open. -/
structure Draft where
  current : Frame
  outer : List Frame := []

namespace Draft

def take (draft : Draft) : WriterCall → Draft
  | .openElement name => ⟨⟨name, []⟩, draft.current :: draft.outer⟩
  | .element name text => { draft with current := draft.current.add (.leaf name text) }
  | .close =>
    match draft.outer with
    | parent :: outer => ⟨parent.add draft.current.tree, outer⟩
    | [] => draft

/-- Every open element closed. -/
def treeOf : Frame → List Frame → Tree
  | current, [] => current.tree
  | current, parent :: outer => treeOf (parent.add current.tree) outer

def tree (draft : Draft) : Tree := treeOf draft.current draft.outer

end Draft

/-- The tree that calls on a writer of a root describe. -/
def described (root : Bytes) (calls : List WriterCall) : Tree :=
  (calls.foldl Draft.take ⟨⟨root, []⟩, []⟩).tree

def perform (writer : XmlWriter) : WriterCall → XmlWriter
  | .openElement name => writer.openElement name
  | .element name text => writer.element name text
  | .close => writer.close

/-- The document the calls write. -/
def written (root xmlns : Bytes) (calls : List WriterCall) : Bytes :=
  (calls.foldl perform (XmlWriter.start root xmlns)).finish

/-! ### The writer writes the tree -/

theorem Tree.texts_append (level : Nat) (trees : List Tree) (tree : Tree) :
    Tree.texts level (trees ++ [tree]) = Tree.texts level trees ++ (gap level ++ tree.text level) := by
  induction trees with
  | nil =>
      rw [List.nil_append, Tree.texts, Tree.texts, Tree.texts, List.append_nil, List.nil_append]
  | cons first trees ih =>
      rw [List.cons_append, Tree.texts, Tree.texts, ih]
      simp only [List.append_assoc]

/-- The text of the open elements. -/
def openText (xmlns : Bytes) : Frame → List Frame → Bytes
  | current, [] => startTag current.name (attributeText xmlns) ++ Tree.texts 1 current.children
  | current, parent :: outer =>
    openText xmlns parent outer ++ (gap (outer.length + 1) ++ (startTag current.name [] ++
      Tree.texts (outer.length + 2) current.children))

theorem openText_add (xmlns : Bytes) (current : Frame) (outer : List Frame) (tree : Tree) :
    openText xmlns (current.add tree) outer =
      openText xmlns current outer ++ (gap (outer.length + 1) ++ tree.text (outer.length + 1)) := by
  cases outer with
  | nil =>
      rw [openText, openText, Frame.add, Tree.texts_append]
      simp only [List.append_assoc, List.length_nil]
  | cons parent outer =>
      rw [openText, openText, Frame.add, Tree.texts_append]
      simp only [List.append_assoc, List.length_cons]

/-- The writer has written the open elements, and what they hold, and ended the line. -/
structure Writes (xmlns : Bytes) (draft : Draft) (writer : XmlWriter) : Prop where
  out : writer.out = writerLayout.declaration ++ ([0x0A] ++
    (openText xmlns draft.current draft.outer ++ [0x0A]))
  stack : writer.stack = (draft.current :: draft.outer).map Frame.name

theorem writes_start (root xmlns : Bytes) :
    Writes xmlns ⟨⟨root, []⟩, []⟩ (XmlWriter.start root xmlns) where
  out := by
    simp [XmlWriter.start, writerLayout, Layout.declaration, openText, Tree.texts, startTag,
      attributeText, ascii]
  stack := rfl

section Writing

variable {xmlns : Bytes} {draft : Draft} {writer : XmlWriter}

theorem Writes.indent (h : Writes xmlns draft writer) :
    writer.indent.out = writerLayout.declaration ++ ([0x0A] ++
      (openText xmlns draft.current draft.outer ++ gap (draft.outer.length + 1))) := by
  rw [XmlWriter.indent, h.out, h.stack, List.length_map, List.length_cons, gap]
  simp only [List.append_assoc]

theorem Writes.element (h : Writes xmlns draft writer) (name text : Bytes) :
    Writes xmlns (draft.take (.element name text)) (writer.element name text) where
  out := by
    rw [Draft.take, openText_add, XmlWriter.element, h.indent, Tree.text]
    simp only [startTag, endTag, List.append_assoc, List.append_nil]
  stack := h.stack

theorem Writes.openElement (h : Writes xmlns draft writer) (name : Bytes) :
    Writes xmlns (draft.take (.openElement name)) (writer.openElement name) where
  out := by
    rw [Draft.take, openText, XmlWriter.openElement, h.indent, Tree.texts]
    simp only [startTag, List.append_assoc, List.append_nil]
  stack := by
    show name :: writer.stack = _
    rw [h.stack]
    rfl

theorem Writes.close (h : Writes xmlns draft writer) :
    Writes xmlns (draft.take .close) writer.close := by
  obtain ⟨current, outer⟩ := draft
  have hstack := h.stack
  cases outer with
  | nil =>
      have hsame : writer.close = writer := by
        rw [XmlWriter.close, hstack]
        rfl
      rw [hsame]
      exact h
  | cons parent outer =>
      have hout : writer.close.out = (writer.out ++
          List.replicate ((outer.length + 1) * 2) 0x20) ++ ascii "</" ++ current.name ++ ascii ">" ++
            [0x0A] := by
        rw [XmlWriter.close, hstack]
        simp only [List.map_cons, XmlWriter.indent, List.length_cons, List.length_map]
      constructor
      · rw [hout, h.out]
        simp only [Draft.take, openText_add, openText, Frame.tree, Tree.text, gap, endTag,
          List.append_assoc]
      · rw [XmlWriter.close, hstack]
        rfl

theorem Writes.perform (h : Writes xmlns draft writer) (call : WriterCall) :
    Writes xmlns (draft.take call) (perform writer call) := by
  cases call with
  | openElement name => exact h.openElement name
  | element name text => exact h.element name text
  | close => exact h.close

theorem Writes.foldl (h : Writes xmlns draft writer) (calls : List WriterCall) :
    Writes xmlns (calls.foldl Draft.take draft) (calls.foldl Xml.perform writer) := by
  induction calls generalizing draft writer with
  | nil => exact h
  | cons call calls ih => exact ih (h.perform call)

/-- Closing every open element leaves the root, which then stands for the whole tree. -/
theorem Writes.closeAll {current : Frame} {outer : List Frame}
    (h : Writes xmlns ⟨current, outer⟩ writer) :
    ∃ root, Writes xmlns ⟨root, []⟩ (XmlWriter.closeAll writer (outer.map Frame.name)) ∧
      root.tree = Draft.treeOf current outer := by
  induction outer generalizing current writer with
  | nil => exact ⟨current, h, rfl⟩
  | cons parent outer ih => exact ih h.close

end Writing

/-- The text of a root that is closed. -/
def rootText (xmlns : Bytes) (root : Frame) : Bytes :=
  startTag root.name (attributeText xmlns) ++ (Tree.texts 1 root.children ++
    (gap 0 ++ endTag root.name))

/-- The writer's document is the tree's text, in the layout of the writer. -/
theorem written_eq (root xmlns : Bytes) (calls : List WriterCall) :
    ∃ frame : Frame, described root calls = frame.tree ∧
      written root xmlns calls = writerLayout.declaration ++ (writerLayout.front ++
        (rootText xmlns frame ++ writerLayout.trailing)) := by
  have hwrites := (writes_start root xmlns).foldl calls
  obtain ⟨frame, hclosed, htree⟩ := hwrites.closeAll
  refine ⟨frame, htree.symm, ?_⟩
  have htail : (calls.foldl perform (XmlWriter.start root xmlns)).stack.tail =
      (calls.foldl Draft.take ⟨⟨root, []⟩, []⟩).outer.map Frame.name := by
    rw [hwrites.stack]
    rfl
  rw [written, XmlWriter.finish, htail, hclosed.stack, hclosed.out]
  simp only [List.map_cons, openText, rootText, writerLayout, gap, endTag, Nat.zero_mul,
    List.replicate_zero, List.append_nil, List.append_assoc]

/-! ### Names and text of a tree -/

/-- The name is one the reader takes, and the text holds no control characters but white
space. -/
def WriterCall.Legible : WriterCall → Prop
  | .openElement name => isName name
  | .element name text => isName name ∧ ∀ byte ∈ text, isCarried byte
  | .close => True

instance : DecidablePred WriterCall.Legible
  | .openElement name => inferInstanceAs (Decidable (isName name))
  | .element name text => inferInstanceAs (Decidable (isName name ∧ ∀ byte ∈ text, isCarried byte))
  | .close => inferInstanceAs (Decidable True)

theorem Tree.allLegible_append (trees : List Tree) (tree : Tree) :
    Tree.AllLegible (trees ++ [tree]) ↔ Tree.AllLegible trees ∧ tree.Legible := by
  induction trees with
  | nil => simp [Tree.AllLegible]
  | cons first trees ih =>
      rw [List.cons_append, Tree.AllLegible, Tree.AllLegible, ih, and_assoc]

def Draft.Legible (draft : Draft) : Prop :=
  draft.current.tree.Legible ∧ ∀ frame ∈ draft.outer, frame.tree.Legible

theorem Frame.legible_add {frame : Frame} {tree : Tree} (hframe : frame.tree.Legible)
    (htree : tree.Legible) : (frame.add tree).tree.Legible :=
  ⟨hframe.1, (Tree.allLegible_append _ _).mpr ⟨hframe.2, htree⟩⟩

theorem Draft.Legible.take {draft : Draft} (h : draft.Legible) {call : WriterCall}
    (hcall : call.Legible) : (draft.take call).Legible := by
  cases call with
  | openElement name =>
      refine ⟨⟨hcall, trivial⟩, fun frame hframe => ?_⟩
      rcases List.mem_cons.mp hframe with rfl | hframe
      · exact h.1
      · exact h.2 frame hframe
  | element name text => exact ⟨Frame.legible_add h.1 hcall, h.2⟩
  | close =>
      obtain ⟨current, outer⟩ := draft
      cases outer with
      | nil => exact h
      | cons parent outer =>
          obtain ⟨hparent, houter⟩ := List.forall_mem_cons.mp h.2
          exact ⟨Frame.legible_add hparent h.1, houter⟩

theorem Draft.Legible.foldl {draft : Draft} (h : draft.Legible) {calls : List WriterCall}
    (hcalls : ∀ call ∈ calls, call.Legible) : (calls.foldl Draft.take draft).Legible := by
  induction calls generalizing draft with
  | nil => exact h
  | cons call calls ih =>
      obtain ⟨hcall, hcalls⟩ := List.forall_mem_cons.mp hcalls
      exact ih (h.take hcall) hcalls

theorem Draft.legible_treeOf {current : Frame} {outer : List Frame}
    (h : Draft.Legible ⟨current, outer⟩) : (Draft.treeOf current outer).Legible := by
  induction outer generalizing current with
  | nil => exact h.1
  | cons parent outer ih =>
      obtain ⟨hparent, houter⟩ := List.forall_mem_cons.mp h.2
      exact ih ⟨Frame.legible_add hparent h.1, houter⟩

theorem legible_described {root : Bytes} (hroot : isName root) {calls : List WriterCall}
    (hcalls : ∀ call ∈ calls, call.Legible) : (described root calls).Legible := by
  have hstart : Draft.Legible ⟨⟨root, []⟩, []⟩ := ⟨⟨hroot, trivial⟩, fun _ h => (nomatch h)⟩
  exact Draft.legible_treeOf (hstart.foldl hcalls)

/-! ### What is written is read back -/

theorem reads_rootText {xmlns : Bytes} (hquote : letter '"' ∉ xmlns) {frame : Frame}
    (hlegible : frame.tree.Legible) (hdepth : frame.tree.depth ≤ kMaxXmlDepth) :
    Reads kMaxXmlDepth (frame.tree.node 0) frame.tree.size (rootText xmlns frame) := by
  have hchildren := Tree.readsAll 1 15 frame.children hlegible.2 (by
    rw [Frame.tree, Tree.depth, kMaxXmlDepth] at hdepth
    omega)
  have hread := Reads.parent hlegible.1 hquote hchildren (blank_gap 0)
  rw [isEmpty_nodes] at hread
  exact hread

theorem parseXml_written {root xmlns : Bytes} {calls : List WriterCall} (hroot : isName root)
    (hquote : letter '"' ∉ xmlns) (hcalls : ∀ call ∈ calls, call.Legible)
    (hdepth : (described root calls).depth ≤ kMaxXmlDepth)
    (hsize : (described root calls).size ≤ kMaxXmlElements)
    (hlength : (written root xmlns calls).length ≤ kMaxXmlBytes) :
    parseXml (written root xmlns calls) = .ok ((described root calls).node 0) := by
  have hlegible := legible_described hroot hcalls
  obtain ⟨frame, htree, hwritten⟩ := written_eq root xmlns calls
  rw [htree] at hlegible hdepth hsize ⊢
  rw [hwritten] at hlength ⊢
  exact parseXml_of_reads writerLayout (reads_rootText hquote hlegible hdepth) hsize hlength

/-- What is written within the limits is read back: the names in order, and the leaves with
their texts. Any document at all is read to a tree within the depth allowed or refused as
malformed, and no step looks outside of it. -/
theorem written_is_read_back :
    (∀ (root xmlns : Bytes) (calls : List WriterCall), isName root → letter '"' ∉ xmlns →
      (∀ call ∈ calls, call.Legible) → (described root calls).depth ≤ kMaxXmlDepth →
      (described root calls).size ≤ kMaxXmlElements →
      (written root xmlns calls).length ≤ kMaxXmlBytes →
      ∃ node, Parser.parseXml (written root xmlns calls) = .ok node ∧
        (described root calls).Shows node) ∧
    ∀ document : Bytes,
      (∃ node, Parser.parseXml document = .ok node ∧ depth node ≤ kMaxXmlDepth) ∨
        ∃ what, Parser.parseXml document = .error (.failed (.parseError what)) := by
  constructor
  · intro root xmlns calls hroot hquote hcalls hdepth hsize hlength
    refine ⟨(described root calls).node 0, ?_, Tree.shows_node 0 _⟩
    rw [Parser.parseXml_eq, parseXml_written hroot hquote hcalls hdepth hsize hlength]
    rfl
  · intro document
    have hends := parseXml_ends document
    rw [Parser.parseXml_eq]
    cases hresult : parseXml document with
    | ok node =>
        rw [hresult] at hends
        exact .inl ⟨node, rfl, hends.1⟩
    | error stop =>
        rw [hresult] at hends
        cases stop with
        | parseError what => exact .inr ⟨what, rfl⟩
        | outOfFuel => exact absurd rfl hends

/-- A rule with two leaves, one of them with a line break and a bracket in its text. -/
def sampleCalls : List WriterCall :=
  [.openElement (ascii "Rule"), .element (ascii "ID") (ascii "a<b" ++ [0x0A]), .close,
    .element (ascii "Owner") []]

theorem written_is_read_back_sample :
    ∃ node, Parser.parseXml (written (ascii "Root") XmlWriter.kS3Namespace sampleCalls) = .ok node ∧
      (described (ascii "Root") sampleCalls).Shows node :=
  written_is_read_back.1 (ascii "Root") XmlWriter.kS3Namespace sampleCalls (by decide) (by decide)
    (by decide) (by decide +kernel) (by decide +kernel) (by decide +kernel)

end MonoBucket.S3.Xml
