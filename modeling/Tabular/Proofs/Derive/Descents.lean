import Mathlib.Tactic.Common
import Tabular.Proofs.Derive.FirmKeys

/-!
# Descents into the properties behind a column

The derivation of columns and keys goes down from property to property. A chain is such a descent
that has arrived at a property with a column of its own. This file describes the descents that may
still be under way, and what lies on them.

## Main definitions

* `Model.Step`, `Model.Descends`: single steps of the derivation, and descents.
* `Query.IsOf`: what is asked for belongs to the model.

## Main results

* `Model.Chain.declares`: the properties of a chain are declared by entities of the model.
-/

namespace Tabular

/-! ### Descents -/

/-- A step of the derivation, with the properties that it passes. -/
inductive Model.Step (m : Model) : Query → List Hop → Query → Prop
  | composite {d part : Declaration} {e : Entity}
      (hrule : d.property.kind.columnRule = .composite) (hsingle : d.property.isCollection = false)
      (he : m.referencedEntity d.owner d.property = .ok e) (hpart : part ∈ e.declarations)
      (hpartSingle : part.property.isCollection = false) :
      m.Step (.columns d) [.column d] (.columns part)
  | reference {d : Declaration} {e : Entity}
      (hrule : d.property.kind.columnRule = .reference) (hsingle : d.property.isCollection = false)
      (he : m.referencedEntity d.owner d.property = .ok e) :
      m.Step (.columns d) [.column d] (.keys e)
  | inherits {e : Entity} (hkind : e.kind.isSubclass = true) : m.Step (.keys e) [] (.inherited e)
  | adds {e : Entity} {d : Declaration} (hd : d ∈ e.addedIdentity) :
      m.Step (.keys e) [] (.columns d)
  | inlines {e f : Entity} {d : Declaration} (hd : d ∈ e.inlineCommons)
      (hf : m.referencedEntity e d.property = .ok f) : m.Step (.keys e) [.inlined d] (.keys f)
  | baseInherits {e b : Entity} (hb : m.baseEntity e = .ok b) (hkind : b.kind.isSubclass = true) :
      m.Step (.inherited e) [] (.inherited b)
  | baseAdds {e b : Entity} {d : Declaration} (hb : m.baseEntity e = .ok b)
      (hd : d ∈ b.addedIdentity) :
      m.Step (.inherited e) [] (.columns (renamedBy e.identityRename? d))
  | baseInlines {e b f : Entity} {d : Declaration} (hb : m.baseEntity e = .ok b)
      (hd : d ∈ b.inlineCommons) (hf : m.referencedEntity b d.property = .ok f) :
      m.Step (.inherited e) [.inlined d] (.keys f)

/-- Any number of steps of the derivation, with the properties that they pass. -/
inductive Model.Descends (m : Model) : Query → List Hop → Query → Prop
  | refl {q : Query} : m.Descends q [] q
  | step {q q' q'' : Query} {hops rest : List Hop} (first : m.Step q hops q')
      (next : m.Descends q' rest q'') : m.Descends q (hops ++ rest) q''

variable {m : Model} {q q' : Query} {hops ch : List Hop}

/-- A chain is a property with a column of its own, or a step and a chain from there. -/
theorem Model.Chain.induction_steps {motive : Query → List Hop → Prop}
    (leaf : ∀ d : Declaration, d.property.kind.columnRule.isLeaf = true →
      motive (.columns d) [.column d])
    (step : ∀ q hops q' rest, m.Step q hops q' → m.Chain q' rest → motive q' rest →
      motive q (hops ++ rest))
    (h : m.Chain q ch) : motive q ch := by
  induction h with
  | leaf hrule => exact leaf _ hrule
  | composite hrule hsingle he hpart hpartSingle next ih =>
    exact step _ _ _ _ (.composite hrule hsingle he hpart hpartSingle) next ih
  | reference hrule hsingle he next ih => exact step _ _ _ _ (.reference hrule hsingle he) next ih
  | inherits hkind next ih => exact step _ _ _ _ (.inherits hkind) next ih
  | adds hd next ih => exact step _ _ _ _ (.adds hd) next ih
  | inlines hd hf next ih => exact step _ _ _ _ (.inlines hd hf) next ih
  | baseInherits hb hkind next ih => exact step _ _ _ _ (.baseInherits hb hkind) next ih
  | baseAdds hb hd next ih => exact step _ _ _ _ (.baseAdds hb hd) next ih
  | baseInlines hb hd hf next ih => exact step _ _ _ _ (.baseInlines hb hd hf) next ih

/-! ### What lies on a descent -/

/-- What is asked for belongs to the model. -/
def Query.IsOf (m : Model) : Query → Prop
  | .columns d => m.Declares d
  | .keys e => e ∈ m.entities
  | .inherited e => e ∈ m.entities

/-- A key property of the base stands for itself unless the rename of the subclass names it. -/
theorem renamedBy_cases (e : Entity) (d : Declaration) :
    renamedBy e.identityRename? d = d ∨
      ∃ r ∈ e.plainIdentity, renamedBy e.identityRename? d = r := by
  cases hrename : e.identityRename? with
  | none => exact Or.inl rfl
  | some r =>
    rw [renamedBy]
    split_ifs
    · exact Or.inr ⟨r, List.mem_of_find?_eq_some hrename, rfl⟩
    · exact Or.inl rfl

/-- The property that stands for a key property of the base is declared by the base or by the
subclass. -/
theorem declares_renamedBy {e b : Entity} {d : Declaration} (he : e ∈ m.entities)
    (hb : b ∈ m.entities) (hd : d ∈ b.declarations) :
    m.Declares (renamedBy e.identityRename? d) := by
  rcases renamedBy_cases e d with hsame | ⟨r, hr, hrename⟩
  · rw [hsame]
    exact Model.declares_of_mem hb hd
  · rw [hrename]
    exact Model.declares_of_mem he (Entity.mem_plainIdentity_iff.mp hr).1

/-- A step stays in the model. -/
theorem Model.Step.isOf (h : m.Step q hops q') (hq : q.IsOf m) :
    q'.IsOf m ∧ ∀ hop ∈ hops, m.Declares hop.declaration := by
  cases h with
  | composite _ _ he hpart =>
    exact ⟨declares_of_mem (mem_entities_of_referencedEntity he) hpart,
      List.forall_mem_singleton.mpr hq⟩
  | reference _ _ he =>
    exact ⟨mem_entities_of_referencedEntity he, List.forall_mem_singleton.mpr hq⟩
  | inherits => exact ⟨hq, by simp⟩
  | adds hd =>
    have hdeclared := (Entity.mem_plainIdentity_iff.mp (Entity.mem_addedIdentity_iff.mp hd).1).1
    exact ⟨declares_of_mem hq hdeclared, by simp⟩
  | inlines hd hf =>
    have hdeclares := declares_of_mem hq (Entity.mem_inlineCommons_iff.mp hd).1
    exact ⟨mem_entities_of_referencedEntity hf, List.forall_mem_singleton.mpr hdeclares⟩
  | baseInherits hb => exact ⟨mem_entities_of_baseEntity hb, by simp⟩
  | baseAdds hb hd =>
    have hdeclared := (Entity.mem_plainIdentity_iff.mp (Entity.mem_addedIdentity_iff.mp hd).1).1
    exact ⟨declares_renamedBy hq (mem_entities_of_baseEntity hb) hdeclared, by simp⟩
  | baseInlines hb hd hf =>
    have hdeclares :=
      declares_of_mem (mem_entities_of_baseEntity hb) (Entity.mem_inlineCommons_iff.mp hd).1
    exact ⟨mem_entities_of_referencedEntity hf, List.forall_mem_singleton.mpr hdeclares⟩

/-- The properties of a chain are declared by entities of the model. -/
theorem Model.Chain.declares (h : m.Chain q ch) (hq : q.IsOf m) :
    ∀ hop ∈ ch, m.Declares hop.declaration := by
  refine induction_steps (motive := fun q ch => q.IsOf m → ∀ hop ∈ ch, m.Declares hop.declaration)
    ?_ ?_ h hq
  · intro d _ hd
    exact List.forall_mem_singleton.mpr hd
  · intro q hops q' rest first _ ih hq hop hhop
    obtain ⟨hq', hhops⟩ := first.isOf hq
    rcases List.mem_append.mp hhop with hhop | hhop
    · exact hhops hop hhop
    · exact ih hq' hop hhop

end Tabular
