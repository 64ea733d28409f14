/-
The XML reader ends

Every turn of a loop of the reader consumes a byte at least, so no loop runs out of its fuel
of a turn a byte; every level of the tree is a level of the recursion, which ends at the
depth allowed; and every element of it is counted. A document is read to a tree within that
depth and that number of elements or refused as malformed.
-/

import MonoBucket.Lib.Checked
import MonoBucket.S3.Xml

namespace MonoBucket.S3.Xml

mutual

/-- How many levels a node has. -/
def depth : XmlNode → Nat
  | .element _ _ children => 1 + depths children

def depths : List XmlNode → Nat
  | [] => 0
  | node :: nodes => max (depth node) (depths nodes)

end

mutual

/-- How many elements a node is made of. -/
def nodeCount : XmlNode → Nat
  | .element _ _ children => 1 + nodeCounts children

def nodeCounts : List XmlNode → Nat
  | [] => 0
  | node :: nodes => nodeCount node + nodeCounts nodes

end

theorem depths_append (nodes : List XmlNode) (node : XmlNode) :
    depths (nodes ++ [node]) = max (depths nodes) (depth node) := by
  induction nodes with
  | nil => simp [depths]
  | cons first nodes ih => rw [List.cons_append, depths, depths, ih, max_assoc]

theorem nodeCounts_append (nodes : List XmlNode) (node : XmlNode) :
    nodeCounts (nodes ++ [node]) = nodeCounts nodes + nodeCount node := by
  induction nodes with
  | nil => simp [nodeCounts]
  | cons first nodes ih => rw [List.cons_append, nodeCounts, nodeCounts, ih, Nat.add_assoc]

/-- Not stopped for want of fuel. -/
def Fueled (stop : XmlStop) : Prop := stop ≠ .outOfFuel

/-- What is left behind a step is shorter. -/
def Shorter {α : Type} (rest : Bytes) (result : α × Bytes) : Prop := result.2.length < rest.length

section Steps

theorem ends_fail {α : Type} {post : α → Prop} (what : String) :
    (fail what : Except XmlStop α).Ends Fueled post := fun h => nomatch h

theorem length_skipSpace_le (rest : Bytes) : (skipSpace rest).length ≤ rest.length :=
  (List.dropWhile_sublist _).length_le

theorem length_le_of_skipPast {literal rest next : Bytes} (h : skipPast literal rest = some next) :
    next.length ≤ rest.length := by
  obtain ⟨index, -, rfl⟩ := Option.map_eq_some_iff.mp h
  rw [List.length_drop]
  omega

theorem skipMisc_ends (fuel : Nat) (rest : Bytes) (hfuel : rest.length < fuel) :
    (skipMisc fuel rest).Ends Fueled fun next => next.length ≤ rest.length := by
  induction fuel generalizing rest with
  | zero => exact absurd hfuel (Nat.not_lt_zero _)
  | succ fuel ih =>
      have hspace := length_skipSpace_le rest
      rw [skipMisc]
      split_ifs with hcomment
      · have hfour := (List.isPrefixOf_iff_prefix.mp hcomment).length_le
        have hliteral : (ascii "<!--").length = 4 := rfl
        cases hpast : skipPast (ascii "-->") ((skipSpace rest).drop 4) with
        | none => exact ends_fail _
        | some next =>
            have hnext := length_le_of_skipPast hpast
            rw [List.length_drop] at hnext
            exact (ih next (by omega)).mono fun value hvalue => by omega
      · exact hspace

theorem skipDeclaration_ends (rest : Bytes) :
    (skipDeclaration rest).Ends Fueled fun next => next.length ≤ rest.length := by
  rw [skipDeclaration]
  split_ifs
  · cases hpast : skipPast (ascii "?>") rest with
    | none => exact ends_fail _
    | some next => exact length_le_of_skipPast hpast
  · exact le_rfl (a := rest.length)

theorem skipProlog_ends (rest : Bytes) :
    (skipProlog rest).Ends Fueled fun next => next.length ≤ rest.length := by
  have hspace := length_skipSpace_le rest
  refine (skipDeclaration_ends _).bind fun declared hdeclared => ?_
  refine (skipMisc_ends _ declared (Nat.lt_succ_self _)).bind fun next hnext => ?_
  split_ifs
  · exact ends_fail _
  · show next.length ≤ rest.length
    omega

theorem parseName_ends (rest : Bytes) : (parseName rest).Ends Fueled (Shorter rest) := by
  cases rest with
  | nil => exact ends_fail _
  | cons first rest =>
      rw [parseName]
      split_ifs with hfirst
      · have hchar : isNameChar first = true := by
          simp only [isNameStart, isAlpha, decide_eq_true_eq, Bool.decide_or, Bool.or_eq_true] at hfirst
          simp only [isNameChar, isAlnum, decide_eq_true_eq, Bool.decide_or, Bool.or_eq_true]
          tauto
        show ((first :: rest).dropWhile isNameChar).length < (first :: rest).length
        rw [List.dropWhile_cons_of_pos hchar, List.length_cons]
        exact Nat.lt_succ_of_le (List.dropWhile_sublist _).length_le
      · exact ends_fail _

theorem length_lt_of_splitAtFirst {separator : UInt8} {text front rest : Bytes}
    (h : splitAtFirst separator text = some (front, rest)) : rest.length < text.length := by
  have hdrop := (List.dropWhile_sublist (l := text) (· ≠ separator)).length_le
  rw [splitAtFirst] at h
  split at h
  · cases h
  · rename_i hrest
    obtain ⟨-, rfl⟩ := Prod.mk.inj (Option.some.inj h)
    rw [hrest, List.length_cons] at hdrop
    omega

theorem skipAttributeValue_ends (rest : Bytes) :
    (skipAttributeValue rest).Ends Fueled fun next => next.length ≤ rest.length := by
  have hspace := length_skipSpace_le rest
  rw [skipAttributeValue]
  cases hrest : skipSpace rest with
  | nil => exact ends_fail _
  | cons equals more =>
      rw [hrest, List.length_cons] at hspace
      have hmore := length_skipSpace_le more
      dsimp only
      split_ifs
      · cases hquoted : skipSpace more with
        | nil => exact ends_fail _
        | cons quote value =>
            rw [hquoted, List.length_cons] at hmore
            dsimp only
            split_ifs
            · cases hsplit : splitAtFirst quote value with
              | none => exact ends_fail _
              | some parts =>
                  have hshorter := length_lt_of_splitAtFirst hsplit
                  show parts.2.length ≤ rest.length
                  omega
            · exact ends_fail _
      · exact ends_fail _

theorem skipAttributes_ends (fuel : Nat) (rest : Bytes) (hfuel : rest.length < fuel) :
    (skipAttributes fuel rest).Ends Fueled (Shorter rest) := by
  induction fuel generalizing rest with
  | zero => exact absurd hfuel (Nat.not_lt_zero _)
  | succ fuel ih =>
      have hspace := length_skipSpace_le rest
      rw [skipAttributes]
      cases hrest : skipSpace rest with
      | nil => exact ends_fail _
      | cons byte more =>
          rw [hrest, List.length_cons] at hspace
          dsimp only
          split_ifs
          · exact Nat.lt_of_succ_le hspace
          · show (more.drop 1).length < rest.length
            rw [List.length_drop]
            omega
          · refine (parseName_ends _).bind fun named hnamed => ?_
            refine (skipAttributeValue_ends _).bind fun next hnext => ?_
            have hshorter : named.2.length < more.length + 1 := hnamed
            refine (ih next (by omega)).mono fun result hresult => ?_
            have hlast : result.2.length < next.length := hresult
            show result.2.length < rest.length
            omega

theorem characterCode_ends (hex : Bool) (code : Nat) (digits : Bytes) :
    (characterCode hex code digits).Ends Fueled fun _ => True := by
  induction digits generalizing code with
  | nil => exact trivial
  | cons digit digits ih =>
      rw [characterCode]
      cases digitValue hex digit with
      | none => exact ends_fail _
      | some value =>
          dsimp only
          split_ifs
          all_goals first | exact ends_fail _ | exact ih _

theorem entityText_ends (name : Bytes) : (entityText name).Ends Fueled fun _ => True := by
  have hreference : ∀ rest, (characterReference rest).Ends Fueled fun _ => True := by
    intro rest
    unfold characterReference
    dsimp only
    split_ifs
    all_goals first
      | exact ends_fail _
      | exact (characterCode_ends _ _ _).bind fun _ _ => trivial
  unfold entityText
  split_ifs
  iterate 5 exact trivial
  cases name with
  | nil => exact ends_fail _
  | cons first rest =>
      dsimp only
      split_ifs
      · exact hreference rest
      · exact ends_fail _

theorem appendEntity_ends (rest : Bytes) : (appendEntity rest).Ends Fueled (Shorter rest) := by
  rw [appendEntity]
  cases hsplit : splitAtFirst (letter ';') rest with
  | none => exact ends_fail _
  | some parts =>
      have hshorter := length_lt_of_splitAtFirst hsplit
      dsimp only
      split_ifs
      · exact ends_fail _
      · exact (entityText_ends _).bind fun _ _ => hshorter

end Steps

/-! ### Elements -/

/-- A node within its levels, its elements counted on from those met before it, and less left
behind it. -/
structure Within (levels met : Nat) (rest : Bytes) (result : XmlNode × Nat × Bytes) : Prop where
  depth : depth result.1 ≤ levels
  counted : result.2.1 = met + nodeCount result.1
  few : result.2.1 ≤ kMaxXmlElements
  shorter : result.2.2.length < rest.length

theorem Within.of_le {levels met : Nat} {next rest : Bytes} {result : XmlNode × Nat × Bytes}
    (h : Within levels met next result) (hle : next.length ≤ rest.length) :
    Within levels met rest result :=
  { h with shorter := h.shorter.trans_le hle }

section Content

variable {levels met elements : Nat} {children : List XmlNode}

theorem closeElement_ends (name text : Bytes) (hchildren : depths children ≤ levels)
    (hcounted : elements = met + 1 + nodeCounts children) (hfew : elements ≤ kMaxXmlElements)
    (rest : Bytes) :
    (closeElement name text children elements rest).Ends Fueled (Within (levels + 1) met rest) := by
  rw [closeElement]
  refine (parseName_ends rest).bind fun named hnamed => ?_
  have hshorter : named.2.length < rest.length := hnamed
  have hspace := length_skipSpace_le named.2
  have hclosed : ∀ (text : Bytes) (more : Bytes), more.length < rest.length →
      Within (levels + 1) met rest (.element name text children, elements, more) := by
    intro text more hmore
    refine ⟨?_, ?_, hfew, hmore⟩
    · rw [depth]
      omega
    · show elements = met + nodeCount (.element name text children)
      rw [nodeCount]
      omega
  dsimp only
  split_ifs
  all_goals first | exact ends_fail _ | skip
  all_goals
    cases hrest : skipSpace named.2 with
    | nil => exact ends_fail _
    | cons byte more =>
        rw [hrest, List.length_cons] at hspace
        dsimp only
        split_ifs
        all_goals first | exact ends_fail _ | exact hclosed _ more (by omega)

theorem parseContent_ends {parseChild : ElementParser} (name : Bytes)
    (hchild : ∀ elements rest, (parseChild elements rest).Ends Fueled (Within levels elements rest))
    (fuel : Nat) (text : Bytes) (children : List XmlNode) (elements : Nat) (rest : Bytes)
    (hchildren : depths children ≤ levels) (hcounted : elements = met + 1 + nodeCounts children)
    (hfew : elements ≤ kMaxXmlElements) (hfuel : rest.length < fuel) :
    (parseContent parseChild name fuel text children elements rest).Ends Fueled
      (Within (levels + 1) met rest) := by
  induction fuel generalizing text children elements rest with
  | zero => exact absurd hfuel (Nat.not_lt_zero _)
  | succ fuel ih =>
      cases rest with
      | nil => exact ends_fail _
      | cons byte rest =>
          rw [List.length_cons] at hfuel
          -- what is read from a shorter rest is within this one
          have hfurther : ∀ (text next : Bytes), next.length ≤ rest.length →
              (parseContent parseChild name fuel text children elements next).Ends Fueled
                (Within (levels + 1) met (byte :: rest)) := by
            intro text next hnext
            refine (ih text children elements next hchildren hcounted hfew (by omega)).mono ?_
            intro result hresult
            refine hresult.of_le ?_
            rw [List.length_cons]
            omega
          rw [parseContent]
          split_ifs
          · refine (closeElement_ends name text hchildren hcounted hfew _).mono fun result hresult =>
              hresult.of_le ?_
            rw [List.length_drop, List.length_cons]
            omega
          · cases hpast : skipPast (ascii "-->") (rest.drop 3) with
            | none => exact ends_fail _
            | some next =>
                have hnext := length_le_of_skipPast hpast
                rw [List.length_drop] at hnext
                exact hfurther _ next (by omega)
          · cases RollUp.indexOfPattern (ascii "]]>") (rest.drop 8) with
            | none => exact ends_fail _
            | some index =>
                refine hfurther _ _ ?_
                rw [List.length_drop, List.length_drop]
                omega
          · exact ends_fail _
          · refine (hchild elements _).bind fun result hresult => ?_
            have hshorter := hresult.shorter
            have hmet := hresult.counted
            rw [List.length_cons] at hshorter
            refine (ih text (children ++ [result.1]) result.2.1 result.2.2 ?_ ?_ hresult.few
              (by omega)).mono fun last hlast => hlast.of_le ?_
            · rw [depths_append]
              exact max_le hchildren hresult.depth
            · rw [nodeCounts_append]
              omega
            · rw [List.length_cons]
              omega
          · refine (appendEntity_ends _).bind fun result hresult => ?_
            exact hfurther _ _ (Nat.le_of_lt_succ hresult)
          · exact hfurther _ _ le_rfl

end Content

theorem parseElement_ends (levels elements : Nat) (rest : Bytes) :
    (parseElement levels elements rest).Ends Fueled (Within levels elements rest) := by
  induction levels generalizing elements rest with
  | zero => exact ends_fail _
  | succ levels ih =>
      cases rest with
      | nil =>
          rw [parseElement]
          split_ifs
          all_goals exact ends_fail _
      | cons byte rest =>
          rw [parseElement]
          dsimp only
          split_ifs with hmany
          · exact ends_fail _
          · refine (parseName_ends rest).bind fun named hnamed => ?_
            have hname : named.2.length < rest.length := hnamed
            refine (skipAttributes_ends _ named.2 (Nat.lt_succ_self _)).bind fun result hresult => ?_
            have hattributes : result.2.length < named.2.length := hresult
            split_ifs
            · refine ⟨?_, rfl, not_lt.mp hmany, ?_⟩
              · rw [depth, depths]
                omega
              · show result.2.length < (byte :: rest).length
                rw [List.length_cons]
                omega
            · refine (parseContent_ends named.1 ih _ [] [] (elements + 1) result.2 (Nat.zero_le _) rfl
                (not_lt.mp hmany) (Nat.lt_succ_self _)).mono fun last hlast => hlast.of_le ?_
              rw [List.length_cons]
              omega
          · exact ends_fail _

/-- Every document is read to a tree within the depth and the elements allowed, or refused. -/
theorem parseXml_ends (document : Bytes) :
    (parseXml document).Ends Fueled fun node =>
      depth node ≤ kMaxXmlDepth ∧ nodeCount node ≤ kMaxXmlElements := by
  rw [parseXml]
  split_ifs
  · exact ends_fail _
  · exact ends_fail _
  · rw [parseDocument]
    refine (skipProlog_ends document).bind fun rest _ => ?_
    refine (parseElement_ends kMaxXmlDepth 0 rest).bind fun result hresult => ?_
    refine (skipMisc_ends _ result.2.2 (Nat.lt_succ_self _)).bind fun last _ => ?_
    have hcounted := hresult.counted
    have hfew := hresult.few
    split_ifs
    · exact ⟨hresult.depth, by omega⟩
    · exact ends_fail _

end MonoBucket.S3.Xml
