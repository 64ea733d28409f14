/-
The canonical query string

What a signature covers of a query is this text. It does not depend on the
order the parameters arrived in, it reads back as them, and it tells apart any
two lists that hold different ones. The order it puts them in is the order of
their encoded forms, which is total and antisymmetric, so the list in that
order is the only one.
-/

import MonoBucket.S3.UriRoundTrip

namespace MonoBucket.S3

/-! ### The order -/

theorem fieldBefore_total (first second : Bytes × Bytes) :
    fieldBefore first second ∨ fieldBefore second first := by
  rcases lt_trichotomy first.1 second.1 with hname | hname | hname
  · exact Or.inl (Or.inl hname)
  · rcases le_total first.2 second.2 with hvalue | hvalue
    · exact Or.inl (Or.inr ⟨hname, hvalue⟩)
    · exact Or.inr (Or.inr ⟨hname.symm, hvalue⟩)
  · exact Or.inr (Or.inl hname)

theorem fieldBefore_trans {first second third : Bytes × Bytes} (h : fieldBefore first second)
    (hnext : fieldBefore second third) : fieldBefore first third := by
  rcases h with hname | ⟨hname, hvalue⟩
  · rcases hnext with hnextName | ⟨hnextName, -⟩
    · exact Or.inl (hname.trans hnextName)
    · exact Or.inl (hnextName ▸ hname)
  · rcases hnext with hnextName | ⟨hnextName, hnextValue⟩
    · exact Or.inl (hname ▸ hnextName)
    · exact Or.inr ⟨hname.trans hnextName, hvalue.trans hnextValue⟩

theorem fieldBefore_antisymm {first second : Bytes × Bytes} (h : fieldBefore first second)
    (hback : fieldBefore second first) : first = second := by
  rcases h with hname | ⟨hname, hvalue⟩
  · rcases hback with hbackName | ⟨hbackName, -⟩
    · exact absurd (hname.trans hbackName) (lt_irrefl _)
    · exact absurd hname (hbackName ▸ lt_irrefl _)
  · rcases hback with hbackName | ⟨-, hbackValue⟩
    · exact absurd hbackName (hname ▸ lt_irrefl _)
    · exact Prod.ext hname (le_antisymm hvalue hbackValue)

instance : Std.Total fieldBefore := ⟨fieldBefore_total⟩

instance : IsTrans (Bytes × Bytes) fieldBefore := ⟨fun _ _ _ => fieldBefore_trans⟩

instance : Std.Antisymm fieldBefore := ⟨fun _ _ => fieldBefore_antisymm⟩

/-! ### The parameters it stands for -/

/-- What the canonical query string keeps of a parameter: not whether an equals
sign stood behind its name. -/
def QueryParam.pair (param : QueryParam) : Bytes × Bytes := (param.name, param.value)

/-- The sorted fields are a list's encoded parameters and nothing else. -/
theorem canonicalFields_perm (params : List QueryParam) :
    (canonicalFields params []).Perm (params.map encodedField) := by
  rw [canonicalFields, List.filter_eq_self.mpr fun param _ => decide_eq_true (Or.inl rfl)]
  exact List.perm_insertionSort ..

theorem canonicalFields_pairwise (params : List QueryParam) (omitted : Bytes) :
    (canonicalFields params omitted).Pairwise fieldBefore :=
  List.pairwise_insertionSort ..

/-- Lists with the same encoded parameters have the same sorted fields. -/
theorem canonicalFields_eq_of_perm {first second : List QueryParam}
    (h : (first.map encodedField).Perm (second.map encodedField)) :
    canonicalFields first [] = canonicalFields second [] := by
  have hfields : (canonicalFields first []).Perm (canonicalFields second []) :=
    (canonicalFields_perm first).trans (h.trans (canonicalFields_perm second).symm)
  exact hfields.eq_of_pairwise' (canonicalFields_pairwise first [])
    (canonicalFields_pairwise second [])

theorem map_encodedField (params : List QueryParam) :
    params.map encodedField =
      (params.map QueryParam.pair).map fun pair => (uriEncode pair.1 true, uriEncode pair.2 true) := by
  rw [List.map_map]
  rfl

/-- The string is decided by the names and values a list holds, each as often as
it holds it. -/
theorem canonicalQueryString_eq_of_perm {first second : List QueryParam}
    (h : (first.map QueryParam.pair).Perm (second.map QueryParam.pair)) :
    canonicalQueryString first [] = canonicalQueryString second [] := by
  have hfields : (first.map encodedField).Perm (second.map encodedField) := by
    rw [map_encodedField, map_encodedField]
    exact h.map _
  rw [canonicalQueryString_eq, canonicalQueryString_eq, canonicalFields_eq_of_perm hfields]

/-- And it reads back as exactly those. -/
theorem pairs_parseQuery (params : List QueryParam) :
    ((parseQuery (canonicalQueryString params [])).map QueryParam.pair).Perm
      (params.map QueryParam.pair) := by
  have hread : (parseQuery (canonicalQueryString params [])).Perm
      ((params.map encodedField).map decodedField) := by
    rw [parseQuery_canonicalQueryString]
    exact (canonicalFields_perm params).map decodedField
  have hpair : ∀ param, (decodedField (encodedField param)).pair = param.pair := by
    intro param
    rw [decodedField_encodedField]
    rfl
  have hpairs := hread.map QueryParam.pair
  rw [List.map_map, List.map_map] at hpairs
  exact hpairs.trans (List.Perm.of_eq (List.map_congr_left fun param _ => hpair param))

/-- Encoded text decodes to what it was. A canonical query string is the same for
every order of its parameters, it reads back as them and is its own canonical
form, and lists that have it in common hold the same names and values. -/
theorem canonical_query_is_faithful :
    (∀ (text : Bytes) (encodeSlash : Bool), uriDecode (uriEncode text encodeSlash) = text) ∧
      (∀ first second : List QueryParam, first.Perm second →
        canonicalQueryString first [] = canonicalQueryString second []) ∧
      (∀ params : List QueryParam,
        ((parseQuery (canonicalQueryString params [])).map QueryParam.pair).Perm
            (params.map QueryParam.pair) ∧
          canonicalQueryString (parseQuery (canonicalQueryString params [])) [] =
            canonicalQueryString params []) ∧
      ∀ first second : List QueryParam,
        canonicalQueryString first [] = canonicalQueryString second [] →
          (first.map QueryParam.pair).Perm (second.map QueryParam.pair) := by
  refine ⟨uriDecode_uriEncode, ?_, ?_, ?_⟩
  · intro first second h
    exact canonicalQueryString_eq_of_perm (h.map QueryParam.pair)
  · intro params
    have hpairs := pairs_parseQuery params
    exact ⟨hpairs, canonicalQueryString_eq_of_perm hpairs⟩
  · intro first second h
    have hfirst := pairs_parseQuery first
    rw [h] at hfirst
    exact hfirst.symm.trans (pairs_parseQuery second)

end MonoBucket.S3
