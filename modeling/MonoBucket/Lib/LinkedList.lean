/-
Doubly linked lists

Nodes are addresses with a predecessor and a successor each, and a list is known by its
two ends. `Spells` says which addresses it consists of from the head to the tail, and
back. Taking a node out and putting one in front are what they are on lists.
-/

import Mathlib.Data.List.Nodup
import Mathlib.Logic.Function.Basic

namespace MonoBucket

/-- The links of nodes, and the ends of a list. -/
structure Links (ι : Type) where
  prev : ι → Option ι
  next : ι → Option ι
  head : Option ι
  tail : Option ι

namespace Links

variable {ι : Type}

/-- No node is linked. -/
def empty : Links ι := ⟨fun _ => none, fun _ => none, none, none⟩

/-- The addresses met from one on, along the links, in so many steps. -/
def walk (follow : ι → Option ι) : Nat → Option ι → List ι
  | 0, _ => []
  | _ + 1, none => []
  | steps + 1, some node => node :: walk follow steps (follow node)

section Operations

variable [DecidableEq ι]

/-- The link of a node, if there is one, set anew. -/
def relink (follow : ι → Option ι) (node : Option ι) (link : Option ι) : ι → Option ι :=
  match node with
  | some node => Function.update follow node link
  | none => follow

/-- The node taken out from between its neighbours. -/
def unlink (links : Links ι) (node : ι) : Links ι :=
  let next := relink links.next (links.prev node) (links.next node)
  let prev := relink links.prev (next node) (links.prev node)
  { prev := Function.update prev node none
    next := Function.update next node none
    head := if links.head = some node then next node else links.head
    tail := if links.tail = some node then prev node else links.tail }

/-- The node put in front of the head. -/
def pushFront (links : Links ι) (node : ι) : Links ι where
  prev := relink (Function.update links.prev node none) links.head (some node)
  next := Function.update links.next node links.head
  head := some node
  tail := if links.tail = none then some node else links.tail

theorem relink_self (follow : ι → Option ι) (node : ι) (link : Option ι) :
    relink follow (some node) link node = link := Function.update_self ..

theorem relink_of_ne {follow : ι → Option ι} {node : Option ι} {link : Option ι} {other : ι}
    (h : node ≠ some other) : relink follow node link other = follow other := by
  cases node with
  | none => rfl
  | some node => exact Function.update_of_ne (fun heq => h (congrArg some heq.symm)) ..

end Operations

/-! ### Paths -/

/-- The links lead from one address over a list of them to another. -/
def Path (follow : ι → Option ι) : Option ι → List ι → Option ι → Prop
  | start, [], stop => start = stop
  | start, node :: rest, stop => start = some node ∧ Path follow (follow node) rest stop

section Paths

variable {follow other : ι → Option ι} {start stop : Option ι} {node : ι} {ids front back : List ι}

theorem path_append : Path follow start (front ++ back) stop ↔
    ∃ middle, Path follow start front middle ∧ Path follow middle back stop := by
  induction front generalizing start with
  | nil => exact ⟨fun h => ⟨start, rfl, h⟩, fun ⟨_, hstart, h⟩ => hstart ▸ h⟩
  | cons first front ih =>
      simp only [List.cons_append, Path, ih]
      exact ⟨fun ⟨hfirst, middle, hfront, hback⟩ => ⟨middle, ⟨hfirst, hfront⟩, hback⟩,
        fun ⟨middle, ⟨hfirst, hfront⟩, hback⟩ => ⟨hfirst, middle, hfront, hback⟩⟩

/-- Only the links of the nodes on the path matter. -/
theorem Path.congr (h : Path follow start ids stop) (hsame : ∀ node ∈ ids, other node = follow node) :
    Path other start ids stop := by
  induction ids generalizing start with
  | nil => exact h
  | cons first rest ih =>
      refine ⟨h.1, ?_⟩
      rw [hsame first List.mem_cons_self]
      exact ih h.2 fun node hnode => hsame node (List.mem_cons_of_mem _ hnode)

theorem Path.start_eq (h : Path follow start ids none) : start = ids.head? := by
  cases ids with
  | nil => exact h
  | cons first rest => exact h.1

theorem Path.head?_eq (h : Path follow start (front ++ [node]) stop) :
    start = (front ++ [node]).head? := by
  cases front with
  | nil => exact h.1
  | cons first rest => exact h.1

/-- Walking a path in enough steps meets all of it. -/
theorem Path.walk_eq (h : Path follow start ids none) {steps : Nat} (hsteps : ids.length ≤ steps) :
    walk follow steps start = ids := by
  induction ids generalizing start steps with
  | nil =>
      rw [Path] at h
      subst h
      cases steps <;> rfl
  | cons first rest ih =>
      rw [List.length_cons] at hsteps
      obtain ⟨more, rfl⟩ : ∃ more, steps = more + 1 := ⟨steps - 1, by omega⟩
      rw [h.1, walk, ih h.2 (by omega)]

/-- A path without one of its nodes, which the node before it is led past. -/
theorem Path.cut [DecidableEq ι] (h : Path follow start (front ++ node :: back) none)
    (hnodup : (front ++ node :: back).Nodup) :
    Path (relink follow front.getLast? (follow node))
      (if start = some node then follow node else start) (front ++ back) none := by
  obtain ⟨middle, hfront, rfl, hback⟩ := path_append.mp h
  obtain ⟨hfrontNodup, -, hapart⟩ := List.nodup_append.mp hnodup
  cases hlast : front.getLast? with
  | none =>
      obtain rfl := List.getLast?_eq_none_iff.mp hlast
      obtain rfl : start = some node := hfront
      rw [if_pos rfl]
      exact hback
  | some before =>
      obtain ⟨rest, rfl⟩ := List.getLast?_eq_some_iff.mp hlast
      obtain ⟨middle, hrest, rfl, -⟩ := path_append.mp hfront
      have hstart : start ≠ some node := by
        intro hstart
        have hmem : node ∈ rest ++ [before] := by
          rw [hfront.head?_eq] at hstart
          exact List.mem_of_head? hstart
        exact hapart node hmem node List.mem_cons_self rfl
      have hnotRest : ∀ other ∈ rest, (some before : Option ι) ≠ some other := by
        rintro other hother hsame
        exact (List.nodup_append.mp hfrontNodup).2.2 other hother before (by simp)
          (Option.some.inj hsame).symm
      have hnotBack : ∀ other ∈ back, (some before : Option ι) ≠ some other := by
        rintro other hother hsame
        exact hapart before (by simp) other (List.mem_cons_of_mem _ hother) (Option.some.inj hsame)
      rw [if_neg hstart]
      have hbefore : Path (relink follow (some before) (follow node)) (some before) [before]
          (follow node) := ⟨rfl, relink_self ..⟩
      exact path_append.mpr ⟨follow node,
        path_append.mpr ⟨some before, hrest.congr fun other hother => relink_of_ne (hnotRest other hother),
          hbefore⟩,
        hback.congr fun other hother => relink_of_ne (hnotBack other hother)⟩

end Paths

/-! ### Lists -/

/-- From the head to the tail, and back, the links lead over these nodes. -/
structure Spells (links : Links ι) (ids : List ι) : Prop where
  nodup : ids.Nodup
  forth : Path links.next links.head ids none
  back : Path links.prev links.tail ids.reverse none

section Lists

variable {links : Links ι} {ids : List ι} {node : ι}

theorem spells_empty : Spells (empty : Links ι) [] := ⟨List.nodup_nil, rfl, rfl⟩

theorem Spells.tail_eq (h : Spells links ids) : links.tail = ids.getLast? := by
  rw [h.back.start_eq, List.head?_reverse]

/-- A node's neighbours are those it has in the list. -/
theorem Spells.neighbours {front back : List ι} (h : Spells links (front ++ node :: back)) :
    links.prev node = front.getLast? ∧ links.next node = back.head? := by
  constructor
  · have hback := h.back
    rw [List.reverse_append, List.reverse_cons, List.append_assoc, List.singleton_append] at hback
    obtain ⟨middle, -, -, hfront⟩ := path_append.mp hback
    rw [hfront.start_eq, List.head?_reverse]
  · obtain ⟨middle, -, -, hback⟩ := path_append.mp h.forth
    exact hback.start_eq

/-- Walking from either end meets every node once. -/
theorem Spells.walk_eq (h : Spells links ids) {steps : Nat} (hsteps : ids.length ≤ steps) :
    walk links.next steps links.head = ids ∧ walk links.prev steps links.tail = ids.reverse :=
  ⟨h.forth.walk_eq hsteps, h.back.walk_eq (by rwa [List.length_reverse])⟩

variable [DecidableEq ι]

theorem Spells.unlink {front back : List ι} (h : Spells links (front ++ node :: back)) :
    Spells (links.unlink node) (front ++ back) := by
  obtain ⟨hprev, hnext⟩ := h.neighbours
  obtain ⟨hfront, hnode, hapart⟩ := List.nodup_append.mp h.nodup
  have hnotFront : node ∉ front := fun hmem => hapart node hmem node List.mem_cons_self rfl
  obtain ⟨hnotBack, hback⟩ := List.nodup_cons.mp hnode
  have hprevNe : links.prev node ≠ some node := by
    rw [hprev]
    exact fun hlast => hnotFront (List.mem_of_getLast? hlast)
  have hnextNe : links.next node ≠ some node := by
    rw [hnext]
    exact fun hfirst => hnotBack (List.mem_of_head? hfirst)
  have hkept : relink links.next (links.prev node) (links.next node) node = links.next node :=
    relink_of_ne hprevNe
  have hkeptPrev : relink links.prev (links.next node) (links.prev node) node = links.prev node :=
    relink_of_ne hnextNe
  refine ⟨List.nodup_append.mpr ⟨hfront, hback, fun other hother => ?_⟩, ?_, ?_⟩
  · exact fun behind hbehind => hapart other hother behind (List.mem_cons_of_mem _ hbehind)
  · have hcut := h.forth.cut h.nodup
    rw [← hprev, ← hkept] at hcut
    rw [hkept] at hcut
    simp only [Links.unlink, hkept]
    refine hcut.congr fun other hother => Function.update_of_ne ?_ ..
    rintro rfl
    exact (List.mem_append.mp hother).elim hnotFront hnotBack
  · have hreverse : (front ++ node :: back).reverse = back.reverse ++ node :: front.reverse := by
      rw [List.reverse_append, List.reverse_cons, List.append_assoc, List.singleton_append]
    have hpath := h.back
    rw [hreverse] at hpath
    have hcut := hpath.cut (hreverse ▸ List.nodup_reverse.mpr h.nodup)
    rw [List.getLast?_reverse, ← hnext, ← List.reverse_append] at hcut
    simp only [Links.unlink, hkept, hkeptPrev]
    refine hcut.congr fun other hother => Function.update_of_ne ?_ ..
    rintro rfl
    exact (List.mem_append.mp (List.mem_reverse.mp hother)).elim hnotFront hnotBack

theorem Spells.pushFront (h : Spells links ids) (hnode : node ∉ ids) :
    Spells (links.pushFront node) (node :: ids) := by
  refine ⟨List.nodup_cons.mpr ⟨hnode, h.nodup⟩, ⟨rfl, ?_⟩, ?_⟩
  · simp only [Links.pushFront, Function.update_self]
    refine h.forth.congr fun other hother => Function.update_of_ne ?_ ..
    rintro rfl
    exact hnode hother
  · have hback := h.back
    rw [List.reverse_cons]
    cases ids with
    | nil =>
        have hhead : links.head = none := h.forth
        have htail : links.tail = none := hback
        simp only [Links.pushFront, hhead, htail, if_true]
        exact ⟨rfl, Function.update_self ..⟩
    | cons first rest =>
        have hhead : links.head = some first := h.forth.1
        obtain ⟨hne, hnotRest⟩ := not_or.mp (mt List.mem_cons.mpr hnode)
        have hfirst := (List.nodup_cons.mp h.nodup).1
        rw [List.reverse_cons] at hback ⊢
        obtain ⟨middle, hrest, rfl, -⟩ := path_append.mp hback
        have htail : links.tail ≠ none := by
          rw [h.tail_eq]
          simp
        simp only [Links.pushFront, hhead, if_neg htail]
        refine path_append.mpr ⟨some node, path_append.mpr ⟨some first, ?_, rfl, ?_⟩, rfl, ?_⟩
        · refine hrest.congr fun other hother => ?_
          have hother := List.mem_reverse.mp hother
          have hne' : first ≠ other := fun hsame => hfirst (by rw [hsame]; exact hother)
          rw [relink_of_ne fun hsame => hne' (Option.some.inj hsame)]
          exact Function.update_of_ne (fun hsame => hnotRest (by rw [← hsame]; exact hother)) ..
        · exact relink_self ..
        · rw [Path, relink_of_ne fun hsame => hne (Option.some.inj hsame).symm]
          exact Function.update_self ..

end Lists

end Links

end MonoBucket
