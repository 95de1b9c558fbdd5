import Mathlib.Tactic.Common
import Tabular.Proofs.Derive.Descents

/-!
# What columns and keys depend on

The columns of a property and the key of an entity are put together from what lies one step of the
derivation further on. So they depend only on the links that the derivation follows: a model that
follows the links of another model's entities in the same way gives them the same columns and keys.

## Main definitions

* `Model.KeepsLinks`: a model follows the links of another model's entities in the same way.

## Main results

* `KeyDerivation.ask_step_eq`: a derivation reads of the next one what is one step further on.
* `Model.KeepsLinks.ask_within`: columns and keys in a model that keeps links.
-/

namespace Tabular

/-- The model `m'` follows the links of the entities of `m` in the same way as `m`. -/
structure Model.KeepsLinks (m m' : Model) : Prop where
  base : ∀ e ∈ m.entities, m'.baseEntity e = m.baseEntity e
  reference : ∀ e ∈ m.entities, ∀ p ∈ e.properties,
    m'.referencedEntity e p = m.referencedEntity e p

theorem Model.KeepsLinks.refl (m : Model) : m.KeepsLinks m :=
  ⟨fun _ _ => rfl, fun _ _ _ _ => rfl⟩

theorem Model.KeepsLinks.referencedEntity {m m' : Model} (hm : m.KeepsLinks m') {d : Declaration}
    (hd : m.Declares d) :
    m'.referencedEntity d.owner d.property = m.referencedEntity d.owner d.property :=
  hm.reference d.owner hd.1 d.property (Entity.property_mem_of_mem_declarations hd.2)

namespace KeyDerivation

variable {m m' : Model} {k k' : KeyDerivation} {d : Declaration} {e : Entity} {s : Strategy}

theorem compositeColumns_eq (hm : m.KeepsLinks m') (hd : m.Declares d)
    (hrule : d.property.kind.columnRule = .composite)
    (h : ∀ hops q, m.Step (.columns d) hops q → ∀ s, k'.ask s q = k.ask s q) (s : Strategy) :
    compositeColumns m' k' d s = compositeColumns m k d s := by
  unfold compositeColumns
  simp only [hm.referencedEntity hd]
  split_ifs with hcollection
  · rfl
  · cases he : m.referencedEntity d.owner d.property with
    | error err => rfl
    | ok composite =>
      have hparts : collect (fun q => k'.columns q (compositeStrategy d.property s))
          (composite.declarations.filter fun q => !q.property.isCollection) =
            collect (fun q => k.columns q (compositeStrategy d.property s))
              (composite.declarations.filter fun q => !q.property.isCollection) := by
        refine collect_congr fun part hpart => ?_
        obtain ⟨hmem, hsingle⟩ := List.mem_filter.mp hpart
        exact h _ (.columns part) (.composite hrule (by simpa using hcollection) he hmem
          (by simpa using hsingle)) _
      simp only [bind, Except.bind, hparts]

theorem referenceColumns_eq (hm : m.KeepsLinks m') (hd : m.Declares d)
    (hrule : d.property.kind.columnRule = .reference)
    (h : ∀ hops q, m.Step (.columns d) hops q → ∀ s, k'.ask s q = k.ask s q) (s : Strategy) :
    referenceColumns m' k' d s = referenceColumns m k d s := by
  unfold referenceColumns
  simp only [hm.referencedEntity hd]
  split_ifs with hcollection
  · rfl
  · cases he : m.referencedEntity d.owner d.property with
    | error err => rfl
    | ok referenced =>
      have hkeys : k'.keys referenced ((s.merging d.property).append d.property) =
          k.keys referenced ((s.merging d.property).append d.property) :=
        h _ (.keys referenced) (.reference hrule (by simpa using hcollection) he) _
      simp only [bind, Except.bind, hkeys]

theorem columnsBy_eq (hm : m.KeepsLinks m') (hd : m.Declares d)
    (h : ∀ hops q, m.Step (.columns d) hops q → ∀ s, k'.ask s q = k.ask s q) (s : Strategy) :
    columnsBy m' k' d.property.kind.columnRule d s =
      columnsBy m k d.property.kind.columnRule d s := by
  cases hrule : d.property.kind.columnRule with
  | scalar | descriptor | enumeration | schoolYear => rfl
  | composite => simp only [columnsBy, compositeColumns_eq hm hd hrule h]
  | reference => simp only [columnsBy, referenceColumns_eq hm hd hrule h]

/-- The keys of the inline commons of an entity, if the keys behind them agree. -/
theorem inlineKeys_eq (hm : m.KeepsLinks m') (he : e ∈ m.entities)
    (h : ∀ d ∈ e.inlineCommons, ∀ f, m.referencedEntity e d.property = .ok f →
      ∀ s, k'.keys f s = k.keys f s) (s : Strategy) :
    inlineKeys m' k' e s = inlineKeys m k e s := by
  refine collect_congr fun d hd => ?_
  have hmem := (Entity.mem_inlineCommons_iff.mp hd).1
  rw [hm.reference e he d.property (Entity.property_mem_of_mem_declarations hmem)]
  cases hf : m.referencedEntity e d.property with
  | error err => rfl
  | ok f => simp only [bind, Except.bind, h d hd f hf]

theorem keysOf_eq (hm : m.KeepsLinks m') (he : e ∈ m.entities)
    (h : ∀ hops q, m.Step (.keys e) hops q → ∀ s, k'.ask s q = k.ask s q) (s : Strategy) :
    keysOf m' k' e s = keysOf m k e s := by
  have hadded : collect (fun d => k'.columns d s) e.addedIdentity =
      collect (fun d => k.columns d s) e.addedIdentity :=
    collect_congr fun d hd => h _ (.columns d) (.adds hd) s
  have hinlined := inlineKeys_eq hm he (fun d hd f hf => h _ (.keys f) (.inlines hd hf)) s
  unfold keysOf
  rw [hadded, hinlined]
  split_ifs with hkind
  · rw [show k'.inheritedKeys e s = k.inheritedKeys e s from h _ (.inherited e) (.inherits hkind) s]
  · rfl

theorem inheritedKeysOf_eq (hm : m.KeepsLinks m') (he : e ∈ m.entities)
    (h : ∀ hops q, m.Step (.inherited e) hops q → ∀ s, k'.ask s q = k.ask s q) (s : Strategy) :
    inheritedKeysOf m' k' e s = inheritedKeysOf m k e s := by
  unfold inheritedKeysOf
  rw [hm.base e he]
  cases hb : m.baseEntity e with
  | error err => rfl
  | ok b =>
    have hadded : collect (fun d => k'.columns (renamedBy e.identityRename? d) s) b.addedIdentity =
        collect (fun d => k.columns (renamedBy e.identityRename? d) s) b.addedIdentity :=
      collect_congr fun d hd => h _ (.columns _) (.baseAdds hb hd) s
    have hinlined := inlineKeys_eq hm (Model.mem_entities_of_baseEntity hb)
      (fun d hd f hf => h _ (.keys f) (.baseInlines hb hd hf)) s
    simp only [bind, Except.bind, hadded, hinlined]
    split_ifs with hkind
    · rw [show k'.inheritedKeys b s = k.inheritedKeys b s from
        h _ (.inherited b) (.baseInherits hb hkind) s]
    · rfl

/-- A derivation reads of the next one only what is one step further on. -/
theorem ask_step_eq (hm : m.KeepsLinks m') {q : Query} (hq : q.IsOf m)
    (h : ∀ hops q', m.Step q hops q' → ∀ s, k'.ask s q' = k.ask s q') (s : Strategy) :
    (step m' k').ask s q = (step m k).ask s q := by
  cases q with
  | columns d => exact columnsBy_eq hm hq h s
  | keys e => exact keysOf_eq hm hq h s
  | inherited e => exact inheritedKeysOf_eq hm hq h s

end KeyDerivation

/-- Columns and keys of the entities of a model are the same in a model that keeps their links. -/
theorem Model.KeepsLinks.ask_within {m m' : Model} (hm : m.KeepsLinks m') (n : Nat) {q : Query}
    (hq : q.IsOf m) (s : Strategy) :
    (KeyDerivation.within m' n).ask s q = (KeyDerivation.within m n).ask s q := by
  induction n generalizing q s with
  | zero => rfl
  | succ n ih => exact KeyDerivation.ask_step_eq hm hq (fun _ _ hstep => ih (hstep.isOf hq).1) s

end Tabular
