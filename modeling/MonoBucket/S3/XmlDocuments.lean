/-
Documents a handler writes

A handler writes an element and what it holds, in order, so its calls are those of a list of
trees. Whatever the texts are, the reader takes the document: it gives back the trees without
the bytes XML cannot carry.
-/

import MonoBucket.S3.CorsRoundTrip
import MonoBucket.S3.XmlTrees

namespace MonoBucket.S3.Xml

/-! ### The calls of a tree -/

mutual

/-- The calls that write a tree. -/
def Tree.calls : Tree → List WriterCall
  | .leaf name text => [.element name text]
  | .branch name children => .openElement name :: (Tree.allCalls children ++ [.close])

def Tree.allCalls : List Tree → List WriterCall
  | [] => []
  | tree :: trees => Tree.calls tree ++ Tree.allCalls trees

end

mutual

/-- The tree without the bytes XML cannot carry. -/
def Tree.carried : Tree → Tree
  | .leaf name text => .leaf name (carriedPart text)
  | .branch name children => .branch name (Tree.allCarried children)

def Tree.allCarried : List Tree → List Tree
  | [] => []
  | tree :: trees => Tree.carried tree :: Tree.allCarried trees

end

mutual

/-- Names the reader takes. -/
def Tree.named : Tree → Bool
  | .leaf name _ => isName name
  | .branch name children => isName name && Tree.allNamed children

def Tree.allNamed : List Tree → Bool
  | [] => true
  | tree :: trees => Tree.named tree && Tree.allNamed trees

end

mutual

theorem Tree.foldl_calls : ∀ (tree : Tree) (draft : Draft),
    tree.calls.foldl Draft.take draft = { draft with current := draft.current.add tree }
  | .leaf _ _, _ => rfl
  | .branch name children, draft => by
      rw [Tree.calls, List.foldl_cons, List.foldl_append, Tree.foldl_allCalls children]
      rfl

theorem Tree.foldl_allCalls : ∀ (trees : List Tree) (draft : Draft),
    (Tree.allCalls trees).foldl Draft.take draft =
      { draft with current := ⟨draft.current.name, draft.current.children ++ trees⟩ }
  | [], draft => by
      rw [Tree.allCalls, List.foldl_nil, List.append_nil]
  | tree :: trees, draft => by
      rw [Tree.allCalls, List.foldl_append, Tree.foldl_calls tree, Tree.foldl_allCalls trees,
        Frame.add, List.append_assoc]
      rfl

end

/-- The calls of trees describe the root with the trees in it. -/
theorem described_allCalls (root : Bytes) (trees : List Tree) :
    described root (Tree.allCalls trees) = .branch root trees := by
  rw [described, Tree.foldl_allCalls]
  rfl

/-! ### What XML carries of them -/

mutual

/-- The writer drops what XML cannot carry, so it writes the same without it. -/
theorem Tree.perform_carried : ∀ (tree : Tree) (writer : XmlWriter),
    tree.carried.calls.foldl perform writer = tree.calls.foldl perform writer
  | .leaf name text, writer => by
      show writer.element name (carriedPart text) = writer.element name text
      rw [XmlWriter.element, XmlWriter.element, xmlEscape_carriedPart]
  | .branch name children, writer => by
      rw [Tree.carried, Tree.calls, Tree.calls, List.foldl_cons, List.foldl_cons, List.foldl_append,
        List.foldl_append, Tree.perform_allCarried children]

theorem Tree.perform_allCarried : ∀ (trees : List Tree) (writer : XmlWriter),
    (Tree.allCalls (Tree.allCarried trees)).foldl perform writer =
      (Tree.allCalls trees).foldl perform writer
  | [], _ => rfl
  | tree :: trees, writer => by
      rw [Tree.allCarried, Tree.allCalls, Tree.allCalls, List.foldl_append, List.foldl_append,
        Tree.perform_carried tree, Tree.perform_allCarried trees]

end

theorem written_allCarried (root xmlns : Bytes) (trees : List Tree) :
    written root xmlns (Tree.allCalls (Tree.allCarried trees)) =
      written root xmlns (Tree.allCalls trees) := by
  rw [written, written, Tree.perform_allCarried]

mutual

theorem Tree.legible_carried : ∀ tree : Tree, tree.named → tree.carried.Legible
  | .leaf _ _, h => ⟨h, isCarried_of_mem_carriedPart⟩
  | .branch _ children, h =>
      have hboth := Bool.and_eq_true_iff.mp h
      ⟨hboth.1, Tree.legible_allCarried children hboth.2⟩

theorem Tree.legible_allCarried :
    ∀ trees : List Tree, Tree.allNamed trees → Tree.AllLegible (Tree.allCarried trees)
  | [], _ => trivial
  | tree :: trees, h =>
      have hboth := Bool.and_eq_true_iff.mp h
      ⟨Tree.legible_carried tree hboth.1, Tree.legible_allCarried trees hboth.2⟩

end

mutual

theorem Tree.depth_carried : ∀ tree : Tree, tree.carried.depth = tree.depth
  | .leaf _ _ => rfl
  | .branch _ children => by rw [Tree.carried, Tree.depth, Tree.depth, Tree.depths_allCarried children]

theorem Tree.depths_allCarried :
    ∀ trees : List Tree, Tree.depths (Tree.allCarried trees) = Tree.depths trees
  | [] => rfl
  | tree :: trees => by
      rw [Tree.allCarried, Tree.depths, Tree.depths, Tree.depth_carried tree,
        Tree.depths_allCarried trees]

end

mutual

theorem Tree.size_carried : ∀ tree : Tree, tree.carried.size = tree.size
  | .leaf _ _ => rfl
  | .branch _ children => by rw [Tree.carried, Tree.size, Tree.size, Tree.sizes_allCarried children]

theorem Tree.sizes_allCarried :
    ∀ trees : List Tree, Tree.sizes (Tree.allCarried trees) = Tree.sizes trees
  | [] => rfl
  | tree :: trees => by
      rw [Tree.allCarried, Tree.sizes, Tree.sizes, Tree.size_carried tree,
        Tree.sizes_allCarried trees]

end

/-! ### Reading a document -/

/-- A document of trees is read, when they are not too deep and not too many elements. -/
theorem parseDocument_written {root xmlns : Bytes} {trees : List Tree} (hroot : isName root)
    (hquote : letter '"' ∉ xmlns) (hnamed : Tree.allNamed trees)
    (hdepth : Tree.depths trees < kMaxXmlDepth) (hsize : Tree.sizes trees < kMaxXmlElements) :
    parseDocument (written root xmlns (Tree.allCalls trees)) =
      .ok ((Tree.branch root (Tree.allCarried trees)).node 0) := by
  obtain ⟨frame, htree, hwritten⟩ := written_eq root xmlns (Tree.allCalls (Tree.allCarried trees))
  rw [described_allCalls] at htree
  have hlegible : frame.tree.Legible := by
    rw [← htree]
    exact ⟨hroot, Tree.legible_allCarried trees hnamed⟩
  have hlevels : frame.tree.depth ≤ kMaxXmlDepth := by
    rw [← htree, Tree.depth, Tree.depths_allCarried]
    omega
  have hcount : frame.tree.size ≤ kMaxXmlElements := by
    rw [← htree, Tree.size, Tree.sizes_allCarried]
    omega
  rw [← written_allCarried, hwritten, htree]
  exact parseDocument_of_reads writerLayout (reads_rootText hquote hlegible hlevels) hcount

/-! ### Lists of trees -/

theorem Tree.nodes_eq_map (level : Nat) (trees : List Tree) :
    Tree.nodes level trees = trees.map (Tree.node level) := by
  induction trees with
  | nil => rfl
  | cons tree trees ih => rw [Tree.nodes, ih, List.map_cons]

theorem Tree.allCarried_eq_map (trees : List Tree) : Tree.allCarried trees = trees.map Tree.carried := by
  induction trees with
  | nil => rfl
  | cons tree trees ih => rw [Tree.allCarried, ih, List.map_cons]

theorem Tree.allNamed_iff {trees : List Tree} : Tree.allNamed trees ↔ ∀ tree ∈ trees, tree.named := by
  induction trees with
  | nil => simp [Tree.allNamed]
  | cons tree trees ih => rw [Tree.allNamed, Bool.and_eq_true, ih, List.forall_mem_cons]

theorem Tree.depths_le {trees : List Tree} {bound : Nat} (h : ∀ tree ∈ trees, tree.depth ≤ bound) :
    Tree.depths trees ≤ bound := by
  induction trees with
  | nil => exact Nat.zero_le _
  | cons tree trees ih =>
      obtain ⟨htree, htrees⟩ := List.forall_mem_cons.mp h
      exact max_le htree (ih htrees)

theorem Tree.sizes_eq_sum (trees : List Tree) : Tree.sizes trees = (trees.map Tree.size).sum := by
  induction trees with
  | nil => rfl
  | cons tree trees ih => rw [Tree.sizes, ih, List.map_cons, List.sum_cons]

theorem Tree.allCalls_append (front back : List Tree) :
    Tree.allCalls (front ++ back) = Tree.allCalls front ++ Tree.allCalls back := by
  induction front with
  | nil => rfl
  | cons tree front ih => rw [List.cons_append, Tree.allCalls, Tree.allCalls, ih, List.append_assoc]

end MonoBucket.S3.Xml
