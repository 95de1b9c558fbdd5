import Mathlib.Tactic.Common
import Tabular.Proofs.Derive.FirmKeys

/-!
# The parts of a key

The key of an entity is put together from parts: properties with their columns, and inline commons
with their keys. An entity that is no subclass has its own parts only. A subclass starts with those
of its base, in which its identity rename stands in for properties that the base adds itself. What
the base has taken over from a base of its own is passed on as it is.

## Main definitions

* `Entity.ownParts`, `Model.KeyParts`: the parts of a key in order.
* `Model.partColumns`: the columns of a part.

## Main results

* `KeyDerivation.within_mono`: further steps keep what the derivation has found.
* `Model.KeyParts.unique`: the parts of a key are determined.
* `Model.exists_keyParts`: a key consists of the columns of its parts in order.
-/

namespace Tabular

/-! ### The number of steps -/

namespace KeyDerivation

variable {m : Model} {inner inner' : KeyDerivation}

section Answers

variable {e : Entity} {s : Strategy} {cs : List Column}

theorem keysOf_eq_ok_iff : keysOf m inner e s = .ok cs ↔ ∃ inherited added inlined,
    (if e.kind.isSubclass then inner.inheritedKeys e s else .ok []) = .ok inherited ∧
    collect (fun d => inner.columns d s) e.addedIdentity = .ok added ∧
    inlineKeys m inner e s = .ok inlined ∧ cs = inherited ++ (added ++ inlined) := by
  unfold keysOf
  split_ifs <;>
    simp only [bind_eq_ok_iff, pure_eq_ok_iff, List.append_assoc, exists_and_left, Except.ok.injEq,
      eq_comm (b := cs)]

theorem inheritedKeysOf_eq_ok_iff : inheritedKeysOf m inner e s = .ok cs ↔
    ∃ b, m.baseEntity e = .ok b ∧ ∃ inherited added inlined,
      (if b.kind.isSubclass then inner.inheritedKeys b s else .ok []) = .ok inherited ∧
      collect (fun d => inner.columns (renamedBy e.identityRename? d) s) b.addedIdentity =
        .ok added ∧
      inlineKeys m inner b s = .ok inlined ∧ cs = inherited ++ (added ++ inlined) := by
  rw [inheritedKeysOf, bind_eq_ok_iff]
  refine exists_congr fun b => and_congr_right fun _ => ?_
  split_ifs <;>
    simp only [bind_eq_ok_iff, pure_eq_ok_iff, List.append_assoc, exists_and_left, Except.ok.injEq,
      eq_comm (b := cs)]

end Answers

/-- What the first derivation finds is found by the second as well. -/
def IsBelow (inner inner' : KeyDerivation) : Prop :=
  ∀ q s cs, inner.ask s q = .ok cs → inner'.ask s q = .ok cs

private theorem IsBelow.inlineKeys (h : inner.IsBelow inner') {e : Entity} {s : Strategy}
    {cs : List Column} (hcs : inlineKeys m inner e s = .ok cs) :
    KeyDerivation.inlineKeys m inner' e s = .ok cs := by
  refine collect_eq_ok_of_forall (fun d _ zs hzs => ?_) hcs
  simp only [bind_eq_ok_iff, pure_eq_ok_iff] at hzs ⊢
  obtain ⟨f, hf, keys, hkeys, rfl⟩ := hzs
  exact ⟨f, hf, keys, h (.keys f) _ keys hkeys, rfl⟩

private theorem IsBelow.columns (h : inner.IsBelow inner') {f : Declaration → Declaration}
    {ds : List Declaration} {s : Strategy} {cs : List Column}
    (hcs : collect (fun d => inner.columns (f d) s) ds = .ok cs) :
    collect (fun d => inner'.columns (f d) s) ds = .ok cs :=
  collect_eq_ok_of_forall (fun d _ zs hzs => h (.columns (f d)) s zs hzs) hcs

private theorem IsBelow.columnsBy (h : inner.IsBelow inner') {rule : ColumnRule} {d : Declaration}
    {s : Strategy} {cs : List Column} (hcs : columnsBy m inner rule d s = .ok cs) :
    KeyDerivation.columnsBy m inner' rule d s = .ok cs := by
  cases rule with
  | scalar | descriptor | enumeration | schoolYear => exact hcs
  | composite =>
    simp only [KeyDerivation.columnsBy, compositeColumns] at hcs ⊢
    split_ifs at hcs ⊢
    · exact hcs
    · exact hcs
    · simp only [bind_eq_ok_iff, pure_eq_ok_iff] at hcs ⊢
      obtain ⟨e, he, parts, hparts, rfl⟩ := hcs
      exact ⟨e, he, parts, h.columns (f := fun q => q) hparts, rfl⟩
  | reference =>
    simp only [KeyDerivation.columnsBy, referenceColumns] at hcs ⊢
    split_ifs at hcs ⊢
    · exact hcs
    · exact hcs
    · simp only [bind_eq_ok_iff, pure_eq_ok_iff] at hcs ⊢
      obtain ⟨e, he, keys, hkeys, rfl⟩ := hcs
      exact ⟨e, he, keys, h (.keys e) _ keys hkeys, rfl⟩

theorem IsBelow.step (h : inner.IsBelow inner') : (step m inner).IsBelow (step m inner') := by
  intro q s cs hcs
  cases q with
  | columns d => exact h.columnsBy hcs
  | keys e =>
    obtain ⟨inherited, added, inlined, hinherited, hadded, hinlined, rfl⟩ :=
      keysOf_eq_ok_iff.mp hcs
    refine keysOf_eq_ok_iff.mpr ⟨inherited, added, inlined, ?_, h.columns (f := fun d => d) hadded,
      h.inlineKeys hinlined, rfl⟩
    split_ifs at hinherited ⊢
    · exact h (.inherited e) s inherited hinherited
    · exact hinherited
  | inherited e =>
    obtain ⟨b, hb, inherited, added, inlined, hinherited, hadded, hinlined, rfl⟩ :=
      inheritedKeysOf_eq_ok_iff.mp hcs
    refine inheritedKeysOf_eq_ok_iff.mpr ⟨b, hb, inherited, added, inlined, ?_, h.columns hadded,
      h.inlineKeys hinlined, rfl⟩
    split_ifs at hinherited ⊢
    · exact h (.inherited b) s inherited hinherited
    · exact hinherited

/-- Further steps keep what the derivation has found. -/
theorem within_mono (m : Model) {n k : Nat} (hnk : n ≤ k) : (within m n).IsBelow (within m k) := by
  induction n generalizing k with
  | zero =>
    intro q s cs h
    cases q <;> simp [within, ask, exhausted] at h
  | succ n ih =>
    obtain ⟨k, rfl⟩ : ∃ k', k = k' + 1 := ⟨k - 1, by omega⟩
    exact (ih (by omega)).step

end KeyDerivation

/-! ### Parts -/

/-- The part of a key that stands for a part of the key of the base. -/
def Hop.renamedBy (rename : Option Declaration) : Hop → Hop
  | .column d => .column (Tabular.renamedBy rename d)
  | .inlined d => .inlined d

/-- The parts that an entity adds to its key itself. -/
def Entity.ownParts (e : Entity) : List Hop :=
  e.addedIdentity.map Hop.column ++ e.inlineCommons.map Hop.inlined

/-- The parts of the key of an entity, and of the key that a subclass takes over. -/
inductive Model.KeyParts (m : Model) : Query → List Hop → Prop
  | root {e : Entity} (hkind : e.kind.isSubclass = false) : m.KeyParts (.keys e) e.ownParts
  | subclass {e : Entity} {parts : List Hop} (hkind : e.kind.isSubclass = true)
      (inherited : m.KeyParts (.inherited e) parts) : m.KeyParts (.keys e) (parts ++ e.ownParts)
  | ofRoot {e b : Entity} (hb : m.baseEntity e = .ok b) (hkind : b.kind.isSubclass = false) :
      m.KeyParts (.inherited e) (b.ownParts.map (Hop.renamedBy e.identityRename?))
  | ofSubclass {e b : Entity} {parts : List Hop} (hb : m.baseEntity e = .ok b)
      (hkind : b.kind.isSubclass = true) (inherited : m.KeyParts (.inherited b) parts) :
      m.KeyParts (.inherited e) (parts ++ b.ownParts.map (Hop.renamedBy e.identityRename?))

namespace Model

variable {m : Model} {q : Query} {e b : Entity} {parts parts' : List Hop} {s : Strategy}
  {ks : List Column}

/-- The parts of a key are determined. -/
theorem KeyParts.unique (h : m.KeyParts q parts) (h' : m.KeyParts q parts') : parts = parts' := by
  induction h generalizing parts' with
  | root hkind =>
    cases h' with
    | root => rfl
    | subclass hkind' => simp [hkind] at hkind'
  | subclass hkind _ ih =>
    cases h' with
    | root hkind' => simp [hkind] at hkind'
    | subclass _ inherited => rw [ih inherited]
  | ofRoot hb hkind =>
    cases h' with
    | ofRoot hb' =>
      obtain rfl := Except.ok.inj (hb.symm.trans hb')
      rfl
    | ofSubclass hb' hkind' =>
      obtain rfl := Except.ok.inj (hb.symm.trans hb')
      simp [hkind] at hkind'
  | ofSubclass hb hkind _ ih =>
    cases h' with
    | ofRoot hb' hkind' =>
      obtain rfl := Except.ok.inj (hb.symm.trans hb')
      simp [hkind] at hkind'
    | ofSubclass hb' _ inherited =>
      obtain rfl := Except.ok.inj (hb.symm.trans hb')
      rw [ih inherited]

/-- The parts of the key of the base are those it takes over and its own. A subclass takes over the
former as they are. -/
theorem KeyParts.exists_inherited (h : m.KeyParts (.keys b) parts) :
    ∃ inherited, parts = inherited ++ b.ownParts ∧ ∀ e, m.baseEntity e = .ok b →
      m.KeyParts (.inherited e)
        (inherited ++ b.ownParts.map (Hop.renamedBy e.identityRename?)) := by
  cases h with
  | root hkind => exact ⟨[], rfl, fun e hb => .ofRoot hb hkind⟩
  | subclass hkind inherited => exact ⟨_, rfl, fun e hb => .ofSubclass hb hkind inherited⟩

/-- The columns of a part. -/
def partColumns (m : Model) (s : Strategy) : Hop → BuildResult (List Column)
  | .column d => m.columns d s
  | .inlined d => do
    let inlined ← m.referencedEntity d.owner d.property
    let keys ← m.keys inlined (s.append d.property)
    return prefixColumns d.property.fullName keys

/-- The parts that an entity adds, possibly renamed, in a derivation that has found their columns. -/
private theorem collect_ownParts {n : Nat} (hn : n ≤ m.depthLimit) {f : Declaration → Declaration}
    {added inlined : List Column}
    (hadded : collect (fun d => (KeyDerivation.within m n).columns (f d) s) e.addedIdentity =
      .ok added)
    (hinlined : KeyDerivation.inlineKeys m (.within m n) e s = .ok inlined) :
    collect (m.partColumns s) (e.addedIdentity.map (fun d => .column (f d)) ++
      e.inlineCommons.map Hop.inlined) = .ok (added ++ inlined) := by
  have hbelow := KeyDerivation.within_mono m hn
  refine collect_append_eq_ok_iff.mpr ⟨added, inlined, ?_, ?_, rfl⟩
  · rw [collect_map]
    exact collect_eq_ok_of_forall (fun d _ zs hzs => hbelow (.columns (f d)) s zs hzs) hadded
  · rw [collect_map]
    refine collect_eq_ok_of_forall (fun d hd zs hzs => ?_) hinlined
    have howner : d.owner = e :=
      Entity.owner_of_mem_declarations (Entity.mem_inlineCommons_iff.mp hd).1
    simp only [partColumns, howner, bind_eq_ok_iff, pure_eq_ok_iff] at hzs ⊢
    obtain ⟨i, hi, keys, hkeys, rfl⟩ := hzs
    exact ⟨i, hi, keys, hbelow (.keys i) _ keys hkeys, rfl⟩

private theorem map_renamedBy_ownParts (b : Entity) (rename : Option Declaration) :
    b.ownParts.map (Hop.renamedBy rename) =
      b.addedIdentity.map (fun d => .column (Tabular.renamedBy rename d)) ++
        b.inlineCommons.map Hop.inlined := by
  simp [Entity.ownParts, Hop.renamedBy, Function.comp_def]

/-- The key a subclass takes over consists of the columns of its parts, however many steps the
derivation needs. -/
private theorem exists_parts_of_inherited {n : Nat} (hn : n ≤ m.depthLimit)
    (h : (KeyDerivation.within m n).inheritedKeys e s = .ok ks) :
    ∃ parts, m.KeyParts (.inherited e) parts ∧ collect (m.partColumns s) parts = .ok ks := by
  induction n generalizing e ks with
  | zero => simp [KeyDerivation.within, KeyDerivation.exhausted] at h
  | succ n ih =>
    obtain ⟨b, hb, inherited, added, inlined, hinherited, hadded, hinlined, rfl⟩ :=
      KeyDerivation.inheritedKeysOf_eq_ok_iff.mp h
    have hown := collect_ownParts (by omega) hadded hinlined
    rw [← map_renamedBy_ownParts] at hown
    cases hkind : b.kind.isSubclass with
    | true =>
      rw [if_pos hkind] at hinherited
      obtain ⟨parts, hparts, hcollect⟩ := ih (by omega) hinherited
      exact ⟨_, .ofSubclass hb hkind hparts,
        collect_append_eq_ok_iff.mpr ⟨_, _, hcollect, hown, rfl⟩⟩
    | false =>
      rw [if_neg (by simp [hkind]), Except.ok.injEq] at hinherited
      subst hinherited
      exact ⟨_, .ofRoot hb hkind, hown⟩

/-- A key consists of the columns of its parts in order. -/
theorem exists_keyParts (h : m.keys e s = .ok ks) :
    ∃ parts, m.KeyParts (.keys e) parts ∧ collect (m.partColumns s) parts = .ok ks := by
  obtain ⟨n, hn⟩ : ∃ n, m.depthLimit = n + 1 := ⟨4 * m.entities.length + 3, rfl⟩
  rw [keys, derivation, hn] at h
  obtain ⟨inherited, added, inlined, hinherited, hadded, hinlined, rfl⟩ :=
    KeyDerivation.keysOf_eq_ok_iff.mp h
  have hown := collect_ownParts (by omega) (f := fun d => d) hadded hinlined
  cases hkind : e.kind.isSubclass with
  | true =>
    rw [if_pos hkind] at hinherited
    obtain ⟨parts, hparts, hcollect⟩ := exists_parts_of_inherited (by omega) hinherited
    exact ⟨_, .subclass hkind hparts,
      collect_append_eq_ok_iff.mpr ⟨_, _, hcollect, hown, rfl⟩⟩
  | false =>
    rw [if_neg (by simp [hkind]), Except.ok.injEq] at hinherited
    subst hinherited
    exact ⟨_, .root hkind, hown⟩

end Model

end Tabular
