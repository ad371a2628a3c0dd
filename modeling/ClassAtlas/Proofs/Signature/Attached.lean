import ClassAtlas.Proofs.Signature.Attaching
import Mathlib.Logic.Relation

namespace ClassAtlas

open Relation

/-!
# Annotations attached one after the other

Whoever holds a tree can attach to any type inside it, be the attachment refused or not.

* `JavaType.Attached`, `TypeParameter.Attached`, `MethodSignature.Attached`,
  `ClassSignature.Attached` — a tree before and after one attachment;
* `TypeParameter.reflGen_attach`, `MethodSignature.reflGen_attach`,
  `ClassSignature.reflGen_attach` — attaching at a place in a declaration is one, if there is such a
  place.
-/

variable {α : Type} [ToString α]

/-! ### Trees before and after -/

/-- A type after one attachment, refused or not, to it or to a type inside it. -/
inductive JavaType.Attached : JavaType α → JavaType α → Prop
  | here (note : α) (path : TypePath) (type : JavaType α) :
    Attached type (type.attach note path).tree
  | bound (side : BoundSide) (annotations : List α) {bound bound' : JavaType α}
    (h : Attached bound bound') :
    Attached (.bounded side bound annotations) (.bounded side bound' annotations)
  | element (dimensions : List (List α)) {element element' : JavaType α}
    (h : Attached element element') :
    Attached (.array element dimensions) (.array element' dimensions)
  | argument (outer : ClassType α) (name : String) (before after : List (JavaType α))
    (annotations : List α) (inner : ClassType α) {argument argument' : JavaType α}
    (h : Attached argument argument') :
    Attached (.ofClass (outer ++ ⟨name, before ++ argument :: after, annotations⟩ :: inner))
      (.ofClass (outer ++ ⟨name, before ++ argument' :: after, annotations⟩ :: inner))

/-- A declared type variable after one attachment, to it or to a type inside a bound. -/
inductive TypeParameter.Attached : TypeParameter α → TypeParameter α → Prop
  | declaration (note : α) (parameter : TypeParameter α) :
    Attached parameter { parameter with annotations := parameter.annotations ++ [note] }
  | classBound {parameter : TypeParameter α} {bound bound' : JavaType α}
    (hbound : parameter.classBound = some bound) (h : bound.Attached bound') :
    Attached parameter { parameter with classBound := some bound' }
  | interfaceBound {parameter : TypeParameter α} {before after : List (JavaType α)}
    {bound bound' : JavaType α} (hbounds : parameter.interfaceBounds = before ++ bound :: after)
    (h : bound.Attached bound') :
    Attached parameter { parameter with interfaceBounds := before ++ bound' :: after }

/-- A method's types after one attachment to a type inside.  A receiver that is not there yet may
    be made for it. -/
inductive MethodSignature.Attached : MethodSignature α → MethodSignature α → Prop
  | typeParameter {signature : MethodSignature α} {before after : List (TypeParameter α)}
    {parameter parameter' : TypeParameter α}
    (hparameters : signature.typeParameters = before ++ parameter :: after)
    (h : parameter.Attached parameter') :
    Attached signature { signature with typeParameters := before ++ parameter' :: after }
  | parameter {signature : MethodSignature α} {before after : List (JavaType α)}
    {type type' : JavaType α} (htypes : signature.parameters = before ++ type :: after)
    (h : type.Attached type') :
    Attached signature { signature with parameters := before ++ type' :: after }
  | result {signature : MethodSignature α} {type' : JavaType α}
    (h : signature.result.Attached type') : Attached signature { signature with result := type' }
  | thrown {signature : MethodSignature α} {before after : List (JavaType α)}
    {type type' : JavaType α} (htypes : signature.throws = before ++ type :: after)
    (h : type.Attached type') :
    Attached signature { signature with throws := before ++ type' :: after }
  | receiver {signature : MethodSignature α} (made : JavaType α) {type' : JavaType α}
    (h : (signature.receiver.getD made).Attached type') :
    Attached signature { signature with receiver := some type' }

/-- A class's type variables and supertypes after one attachment to a type inside. -/
inductive ClassSignature.Attached : ClassSignature α → ClassSignature α → Prop
  | typeParameter {signature : ClassSignature α} {before after : List (TypeParameter α)}
    {parameter parameter' : TypeParameter α}
    (hparameters : signature.typeParameters = before ++ parameter :: after)
    (h : parameter.Attached parameter') :
    Attached signature { signature with typeParameters := before ++ parameter' :: after }
  | superclass {signature : ClassSignature α} {type type' : ClassType α}
    (htype : signature.superclass = some type)
    (h : (JavaType.ofClass type).Attached (.ofClass type')) :
    Attached signature { signature with superclass := some type' }
  | implemented {signature : ClassSignature α} {before after : List (ClassType α)}
    {type type' : ClassType α} (htypes : signature.interfaces = before ++ type :: after)
    (h : (JavaType.ofClass type).Attached (.ofClass type')) :
    Attached signature { signature with interfaces := before ++ type' :: after }

/-! ### At a place in a declaration -/

theorem attachInTypes_cases (note : α) (path : TypePath) (index : Nat)
    (types : List (JavaType α)) : (attachInTypes note path index types).tree = types
      ∨ ∃ before type after type', types = before ++ type :: after ∧ type.Attached type'
        ∧ (attachInTypes note path index types).tree = before ++ type' :: after := by
  rw [attachInTypes]
  split
  · exact .inl rfl
  · rename_i type htype
    obtain ⟨before, after, htypes, hset⟩ := exists_set_eq htype
    exact .inr ⟨before, type, after, _, htypes, .here note path type, hset _⟩

theorem TypeParameter.reflGen_attach (note : α) (path : TypePath) (place : VariablePlace)
    (parameter : TypeParameter α) :
    ReflGen Attached parameter (parameter.attach note path place).tree := by
  cases place with
  | declaration => exact .single (.declaration note parameter)
  | bound index =>
    cases index with
    | zero =>
      cases hbound : parameter.classBound with
      | none =>
        obtain ⟨name, classBound, interfaceBounds, annotations⟩ := parameter
        subst hbound
        exact .refl
      | some bound =>
        rw [TypeParameter.attach, hbound]
        exact .single (.classBound hbound (.here note path bound))
    | succ index =>
      rw [TypeParameter.attach, Edit.tree_map]
      rcases attachInTypes_cases note path index parameter.interfaceBounds with
        hsame | ⟨before, bound, after, bound', hbounds, hattached, htree⟩
      · rw [hsame]
      · rw [htree]
        exact .single (.interfaceBound hbounds hattached)

theorem attachInVariables_cases (note : α) (path : TypePath) (index : Nat) (place : VariablePlace)
    (parameters : List (TypeParameter α)) :
    (attachInVariables note path index place parameters).tree = parameters
      ∨ ∃ before parameter after parameter', parameters = before ++ parameter :: after
        ∧ parameter.Attached parameter'
        ∧ (attachInVariables note path index place parameters).tree
          = before ++ parameter' :: after := by
  rw [attachInVariables]
  split
  · exact .inl rfl
  · rename_i parameter hparameter
    obtain ⟨before, after, hparameters, hset⟩ := exists_set_eq hparameter
    rw [Edit.tree_map, hset]
    rcases (reflGen_iff _ _ _).mp (parameter.reflGen_attach note path place) with hsame | hattached
    · refine .inl ?_
      rw [hsame]
      exact hparameters.symm
    · exact .inr ⟨before, parameter, after, _, hparameters, hattached, rfl⟩

theorem MethodSignature.reflGen_attach (note : α) (path : TypePath) (place : MethodPlace)
    (signature : MethodSignature α) :
    ReflGen Attached signature (signature.attach note path place).tree := by
  cases place with
  | typeParameter index place =>
    rw [MethodSignature.attach, Edit.tree_map]
    rcases attachInVariables_cases note path index place signature.typeParameters with
      hsame | ⟨before, parameter, after, parameter', hparameters, hattached, htree⟩
    · rw [hsame]
    · rw [htree]
      exact .single (.typeParameter hparameters hattached)
  | parameter index =>
    rw [MethodSignature.attach, Edit.tree_map]
    rcases attachInTypes_cases note path index signature.parameters with
      hsame | ⟨before, type, after, type', htypes, hattached, htree⟩
    · rw [hsame]
    · rw [htree]
      exact .single (.parameter htypes hattached)
  | result => exact .single (.result (.here note path signature.result))
  | thrown index =>
    rw [MethodSignature.attach, Edit.tree_map]
    rcases attachInTypes_cases note path index signature.throws with
      hsame | ⟨before, type, after, type', htypes, hattached, htree⟩
    · rw [hsame]
    · rw [htree]
      exact .single (.thrown htypes hattached)
  | receiver className =>
    exact .single (.receiver (.ofClass (ClassType.ofName className)) (.here note path _))

theorem JavaType.Attached.ofClass (note : α) (path : TypePath) (segments : ClassType α) :
    (JavaType.ofClass segments).Attached (.ofClass (ClassType.attach note path segments).tree) := by
  have hhere := Attached.here note path (.ofClass segments)
  rwa [JavaType.attach, Edit.tree_map] at hhere

theorem ClassSignature.reflGen_attach (note : α) (path : TypePath) (place : ClassPlace)
    (signature : ClassSignature α) :
    ReflGen Attached signature (signature.attach note path place).tree := by
  cases place with
  | typeParameter index place =>
    rw [ClassSignature.attach, Edit.tree_map]
    rcases attachInVariables_cases note path index place signature.typeParameters with
      hsame | ⟨before, parameter, after, parameter', hparameters, hattached, htree⟩
    · rw [hsame]
    · rw [htree]
      exact .single (.typeParameter hparameters hattached)
  | superclass =>
    rw [ClassSignature.attach]
    split
    · exact .refl
    · rename_i segments hsuperclass
      exact .single (.superclass hsuperclass (.ofClass note path segments))
  | implemented index =>
    rw [ClassSignature.attach]
    split
    · exact .refl
    · rename_i segments hsegments
      obtain ⟨before, after, hinterfaces, hset⟩ := exists_set_eq hsegments
      rw [Edit.tree_map, hset]
      exact .single (.implemented hinterfaces (.ofClass note path segments))

end ClassAtlas
