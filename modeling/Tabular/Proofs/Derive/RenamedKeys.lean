import Mathlib.Tactic.Common
import Tabular.Proofs.Derive.KeyParts

/-!
# Renamed keys

An identity rename of a subclass names a key property of the base and should stand in for it: the key
of the subclass is the key of the base with the column of the rename in the place of the named one,
followed by what the subclass adds. This is so if the named property is one that the base adds to its
key itself. A property that the base has taken over from a base of its own, or its own identity
rename, stays in the key, and the rename of the subclass is missing from it.

## Main definitions

* `Entity.identityRenames`: the identity renames of an entity.
* `Hop.isNamedBy`: a part of the base's key is named by a rename.
* `Model.StandsIn`: a column takes the place of another one in the key of the base.

## Main results

* `keys_standIn_iff`: when the rename of a subclass stands in for the property it names.
-/

namespace Tabular

/-- The identity properties of an entity that rename key properties of its base. -/
def Entity.identityRenames (e : Entity) : List Declaration :=
  e.plainIdentity.filter fun d => d.property.isIdentityRename

/-- Whether a part of a key is the column of a scalar property that the rename names. -/
def Hop.isNamedBy (r : Declaration) : Hop → Bool
  | .column d =>
    d.property.kind.columnRule = .scalar && d.property.fullName = r.property.baseKeyName
  | .inlined _ => false

/-- The second key is the first one, which consists of the given parts, with the column of `r` in the
place of the column of `k`, followed by further columns. -/
def Model.StandsIn (m : Model) (r k : Declaration) (parts : List Hop) (kb ks own : List Column) :
    Prop :=
  ∃ front back before after ck cr, parts = front ++ .column k :: back ∧
    collect (m.partColumns .root) front = .ok before ∧
    collect (m.partColumns .root) back = .ok after ∧
    m.columns k .root = .ok [ck] ∧ m.columns r .root = .ok [cr] ∧
    kb = before ++ ck :: after ∧ ks = before ++ cr :: (after ++ own)

variable {m : Model} {e b : Entity} {r k d : Declaration} {parts : List Hop} {ks kb : List Column}

theorem Entity.identityRename?_of_identityRenames (h : e.identityRenames = [r]) :
    e.identityRename? = some r := by
  rw [identityRename?, ← List.head?_filter]
  exact congrArg List.head? h

/-- A scalar or lookup property has one column. -/
theorem KeyDerivation.exists_columns_of_isLeaf (m : Model) (n : Nat)
    (hleaf : d.property.kind.columnRule.isLeaf = true) :
    ∃ c, (within m (n + 1)).columns d .root = .ok [c] := by
  obtain ⟨c, hc⟩ := leafColumn?_isSome hleaf .root
  have hbuilds := Strategy.buildsColumns_of_skips_eq_nil (s := .root) rfl d.property
  exact ⟨c, columnsBy_leaf hbuilds hc⟩

theorem Model.exists_columns_of_scalar (m : Model) (hrule : d.property.kind.columnRule = .scalar) :
    ∃ c, m.columns d .root = .ok [c] :=
  KeyDerivation.exists_columns_of_isLeaf m _ (by simp [hrule, ColumnRule.isLeaf])

theorem map_renamedBy_of_forall_ne {ds : List Declaration}
    (h : ∀ d ∈ ds, d.property.fullName ≠ r.property.baseKeyName) :
    ds.map (renamedBy (some r)) = ds := by
  refine (List.map_congr_left fun d hd => ?_).trans (List.map_id ds)
  exact if_neg (Ne.symm (h d hd))

/-- A subclass takes over the parts of its base as they are, if the base adds no property that the
rename names. -/
theorem Entity.map_renamedBy_ownParts (h : ∀ d ∈ b.addedIdentity,
    d.property.fullName ≠ r.property.baseKeyName) :
    b.ownParts.map (Hop.renamedBy (some r)) = b.ownParts := by
  have hadded := congrArg (List.map Hop.column) (map_renamedBy_of_forall_ne h)
  rw [List.map_map] at hadded
  simpa [ownParts, Hop.renamedBy, Function.comp_def] using hadded

/-- If the rename names exactly one of the scalars in the key of the base, the base adds that one,
and no other property that the base adds has its name, then the rename takes its place. -/
theorem Entity.exists_split_ownParts {inherited : List Hop}
    (hnamed : (inherited ++ b.ownParts).filter (Hop.isNamedBy r) = [.column k])
    (hk : k ∈ b.addedIdentity)
    (hunique : ∀ d ∈ b.addedIdentity, d.property.fullName = r.property.baseKeyName → d = k) :
    ∃ front back, b.ownParts = front ++ .column k :: back ∧
      b.ownParts.map (Hop.renamedBy (some r)) = front ++ .column r :: back := by
  have hkey : Hop.isNamedBy r (.column k) = true :=
    (List.mem_filter.mp (hnamed ▸ List.mem_singleton_self _)).2
  have hname : r.property.baseKeyName = k.property.fullName := by
    simp only [Hop.isNamedBy, Bool.and_eq_true, decide_eq_true_eq] at hkey
    exact hkey.2.symm
  obtain ⟨first, last, hsplit⟩ := List.append_of_mem hk
  -- a second occurrence of the property would be a second part that the rename names
  have hcount : (((first ++ last).map Hop.column).filter (Hop.isNamedBy r)).length = 0 := by
    have hone := congrArg List.length hnamed
    simp only [ownParts, hsplit, List.map_append, List.map_cons, List.filter_append,
      List.filter_cons_of_pos hkey, List.length_append, List.length_cons, List.length_nil] at hone ⊢
    omega
  have hothers : ∀ d ∈ first ++ last, d.property.fullName ≠ r.property.baseKeyName := by
    intro d hd heq
    have hmem : d ∈ b.addedIdentity := by
      rw [hsplit]
      simp only [List.mem_append, List.mem_cons] at hd ⊢
      tauto
    obtain rfl := hunique d hmem heq
    have hin := List.mem_filter.mpr ⟨List.mem_map_of_mem hd, hkey⟩
    rw [List.length_eq_zero_iff.mp hcount] at hin
    exact List.not_mem_nil hin
  refine ⟨first.map Hop.column, last.map Hop.column ++ b.inlineCommons.map Hop.inlined, ?_, ?_⟩
  · simp [ownParts, hsplit]
  · have hfirst := map_renamedBy_of_forall_ne fun d hd => hothers d (List.mem_append_left last hd)
    have hlast := map_renamedBy_of_forall_ne fun d hd => hothers d (List.mem_append_right first hd)
    have hself : renamedBy (some r) k = r := if_pos hname
    have hadded : b.addedIdentity.map (renamedBy (some r)) = first ++ r :: last := by
      rw [hsplit, List.map_append, List.map_cons, hfirst, hlast, hself]
    have hcolumns := congrArg (List.map Hop.column) hadded
    rw [List.map_map] at hcolumns
    simp only [ownParts, List.map_append, List.map_map, Hop.renamedBy, Function.comp_def,
      List.map_cons] at hcolumns ⊢
    rw [hcolumns]
    simp

/-- The key of the base and the key of a subclass, part by part. -/
theorem Model.exists_keys_of_base (hkind : e.kind.isSubclass = true) (hb : m.baseEntity e = .ok b)
    (hr : e.identityRenames = [r]) (hparts : m.KeyParts (.keys b) parts)
    (hkb : m.keys b .root = .ok kb) (hks : m.keys e .root = .ok ks) :
    ∃ taken inherited own, parts = taken ++ b.ownParts ∧
      collect (m.partColumns .root) (taken ++ b.ownParts) = .ok kb ∧
      collect (m.partColumns .root) (taken ++ b.ownParts.map (Hop.renamedBy (some r))) =
        .ok inherited ∧
      collect (m.partColumns .root) e.ownParts = .ok own ∧ ks = inherited ++ own := by
  obtain ⟨taken, rfl, htaken⟩ := hparts.exists_inherited
  have hinherited := htaken e hb
  rw [Entity.identityRename?_of_identityRenames hr] at hinherited
  obtain ⟨baseParts, hbaseParts, hbase⟩ := exists_keyParts hkb
  obtain rfl := hbaseParts.unique hparts
  obtain ⟨allParts, hallParts, hall⟩ := exists_keyParts hks
  obtain rfl := hallParts.unique (.subclass hkind hinherited)
  obtain ⟨inherited, own, hrenamed, hown, rfl⟩ := collect_append_eq_ok_iff.mp hall
  exact ⟨taken, inherited, own, rfl, hbase, hrenamed, hown, rfl⟩

/-- The columns before and after a part with a single column. -/
theorem Model.exists_split_of_collect {front back : List Hop} {c : Column} {cs : List Column}
    (hc : m.columns d .root = .ok [c])
    (h : collect (m.partColumns .root) (front ++ .column d :: back) = .ok cs) :
    ∃ before after, collect (m.partColumns .root) front = .ok before ∧
      collect (m.partColumns .root) back = .ok after ∧ cs = before ++ c :: after := by
  obtain ⟨before, rest, hbefore, hrest, rfl⟩ := collect_append_eq_ok_iff.mp h
  simp only [collect, partColumns, hc, bind_eq_ok_iff, pure_eq_ok_iff, Except.ok.injEq,
    exists_eq_left'] at hrest
  obtain ⟨after, hafter, rfl⟩ := hrest
  exact ⟨before, after, hbefore, hafter, rfl⟩

/-- The key of a subclass consists of the key it takes over and of what it adds. What it takes over
are the parts of the key of the base, with the rename in the place of every property that the base
itself adds under the name that the rename gives, be it the named one or a further one that is no
scalar. If the base adds no property of that name, then this is the whole key of the base. If the
base adds none besides the named one, then the rename stands in for it exactly if the base adds it
itself (or both have the same column). -/
theorem keys_standIn_iff (hkind : e.kind.isSubclass = true) (hb : m.baseEntity e = .ok b)
    (hr : e.identityRenames = [r]) (hscalar : r.property.kind.columnRule = .scalar)
    (hparts : m.KeyParts (.keys b) parts) (hk : parts.filter (Hop.isNamedBy r) = [.column k])
    (hkb : m.keys b .root = .ok kb) (hks : m.keys e .root = .ok ks) :
    ∃ taken inherited own, collect (m.partColumns .root) e.ownParts = .ok own ∧
      ks = inherited ++ own ∧ parts = taken ++ b.ownParts ∧
      collect (m.partColumns .root) (taken ++ b.ownParts.map (Hop.renamedBy (some r))) =
        .ok inherited ∧
      ((∀ d ∈ b.addedIdentity, d.property.fullName ≠ r.property.baseKeyName) → inherited = kb) ∧
      ((∀ d ∈ b.addedIdentity, d.property.fullName = r.property.baseKeyName → d = k) →
        (m.StandsIn r k parts kb ks own ↔
          k ∈ b.addedIdentity ∨ m.columns k .root = m.columns r .root)) := by
  obtain ⟨taken, inherited, own, rfl, hbase, hrenamed, hown, rfl⟩ :=
    Model.exists_keys_of_base hkind hb hr hparts hkb hks
  have hsame (h : ∀ d ∈ b.addedIdentity, d.property.fullName ≠ r.property.baseKeyName) :
      inherited = kb := by
    rw [Entity.map_renamedBy_ownParts h, hbase] at hrenamed
    exact (Except.ok.inj hrenamed).symm
  refine ⟨taken, inherited, own, hown, rfl, rfl, hrenamed, hsame, fun hunique => ?_⟩
  have hnone (hk : k ∉ b.addedIdentity) :
      ∀ d ∈ b.addedIdentity, d.property.fullName ≠ r.property.baseKeyName := fun d hd heq =>
    hk (hunique d hd heq ▸ hd)
  obtain ⟨hmem, hnamed⟩ : Hop.column k ∈ taken ++ b.ownParts ∧
      Hop.isNamedBy r (.column k) = true :=
    List.mem_filter.mp (hk ▸ List.mem_singleton_self _)
  simp only [Hop.isNamedBy, Bool.and_eq_true, decide_eq_true_eq] at hnamed
  obtain ⟨cr, hcr⟩ := m.exists_columns_of_scalar hscalar
  obtain ⟨ck, hck⟩ := m.exists_columns_of_scalar hnamed.1
  constructor
  · rintro ⟨front, back, before, after, ck', cr', -, -, -, hck', hcr', hkb', hks'⟩
    by_cases hadded : k ∈ b.addedIdentity
    · exact Or.inl hadded
    · -- nothing is renamed, so the two keys agree at the place in question
      rw [hsame (hnone hadded), hkb', List.append_assoc, List.append_cancel_left_eq,
        List.cons_append, List.cons.injEq] at hks'
      exact Or.inr (by rw [hck', hcr', hks'.1])
  · intro hcases
    by_cases hadded : k ∈ b.addedIdentity
    · obtain ⟨front, back, hsplit, hsplit'⟩ := Entity.exists_split_ownParts hk hadded hunique
      rw [hsplit, ← List.append_assoc] at hbase
      rw [hsplit', ← List.append_assoc] at hrenamed
      obtain ⟨before, after, hbefore, hafter, rfl⟩ := Model.exists_split_of_collect hck hbase
      obtain ⟨before', after', hbefore', hafter', rfl⟩ :=
        Model.exists_split_of_collect hcr hrenamed
      obtain rfl : before = before' := Except.ok.inj (hbefore.symm.trans hbefore')
      obtain rfl : after = after' := Except.ok.inj (hafter.symm.trans hafter')
      exact ⟨taken ++ front, back, before, after, ck, cr, by rw [hsplit, List.append_assoc],
        hbefore, hafter, hck, hcr, rfl, by simp⟩
    · have hcolumn : ck = cr := by
        have heq := hcases.resolve_left hadded
        rw [hck, hcr] at heq
        simpa using heq
      obtain ⟨front, back, hsplit⟩ := List.append_of_mem hmem
      rw [hsplit] at hbase
      obtain ⟨before, after, hbefore, hafter, rfl⟩ := Model.exists_split_of_collect hck hbase
      refine ⟨front, back, before, after, ck, cr, hsplit, hbefore, hafter, hck, hcr, rfl, ?_⟩
      rw [hsame (hnone hadded), hcolumn, List.append_assoc, List.cons_append]

/-! ### A rename of a rename

Education organizations have an identifier, which schools rename, and charter schools rename the
identifier of schools in turn. The second rename does not take effect.
-/

namespace CharterSchools

/-- An identity property that renames a key property of the base. -/
def rename (name base : String) : Property :=
  { (Property.ofKind name (.scalar .integer)).identity with
    isIdentityRename := true, baseKeyName := base }

/-- A subclass at a position. -/
def subclass (id : EntityId) (name : String) (base : EntityId) (properties : List Property) :
    Entity :=
  { Entity.ofKind .domainEntitySubclass "EdFi" name with
    id := id, baseEntity := some base, properties := properties }

def organization : Entity :=
  { Entity.ofKind .domainEntity "EdFi" "EducationOrganization" with
    id := 0
    properties := [(Property.ofKind "EducationOrganizationId" (.scalar .integer)).identity] }

def school : Entity :=
  subclass 1 "School" 0 [rename "SchoolId" "EducationOrganizationId"]

def charterSchool : Entity :=
  subclass 2 "CharterSchool" 1 [rename "CharterSchoolId" "SchoolId"]

def model : Model :=
  ⟨[.core "EdFi"], [organization, school, charterSchool]⟩

/-- The identifier of schools, which charter schools rename. -/
def schoolId : Declaration :=
  ⟨school, 0, rename "SchoolId" "EducationOrganizationId"⟩

def charterSchoolId : Declaration :=
  ⟨charterSchool, 0, rename "CharterSchoolId" "SchoolId"⟩

theorem keyParts_school : model.KeyParts (.keys school) [.column schoolId] :=
  have hbase : model.baseEntity school = .ok organization := rfl
  .subclass rfl (.ofRoot hbase rfl)

end CharterSchools

/-- The key of charter schools is that of schools, and no rename stands in for it. -/
theorem keys_standIn_iff_charterSchools :
    CharterSchools.charterSchool.identityRenames = [CharterSchools.charterSchoolId] ∧
      CharterSchools.model.KeyParts (.keys CharterSchools.school)
        [.column CharterSchools.schoolId] ∧
      Hop.isNamedBy CharterSchools.charterSchoolId (.column CharterSchools.schoolId) = true ∧
      ∃ kb ks own, CharterSchools.model.keys CharterSchools.school .root = .ok kb ∧
        CharterSchools.model.keys CharterSchools.charterSchool .root = .ok ks ∧
        kb.map Column.id = ["SchoolId"] ∧ ks = kb ++ own ∧
        ¬CharterSchools.model.StandsIn CharterSchools.charterSchoolId CharterSchools.schoolId
          [.column CharterSchools.schoolId] kb ks own := by
  have hbase : (CharterSchools.model.keys CharterSchools.school .root).toOption.any
      (fun kb => kb.map Column.id = ["SchoolId"]) = true := by decide +kernel
  have hrun : (CharterSchools.model.keys CharterSchools.charterSchool .root).toOption.any
      (fun _ => true) = true := by decide +kernel
  obtain ⟨kb, hkb, hids⟩ := exists_eq_ok_of_any hbase
  obtain ⟨ks, hks, -⟩ := exists_eq_ok_of_any hrun
  have hadded : CharterSchools.school.addedIdentity = [] := by decide +kernel
  have hdiffer : CharterSchools.model.columns CharterSchools.schoolId .root ≠
      CharterSchools.model.columns CharterSchools.charterSchoolId .root := by decide +kernel
  obtain ⟨-, inherited, own, -, rfl, -, -, hsame, hiff⟩ :=
    keys_standIn_iff (m := CharterSchools.model) (e := CharterSchools.charterSchool)
      (k := CharterSchools.schoolId) rfl rfl rfl rfl CharterSchools.keyParts_school rfl hkb hks
  obtain rfl : inherited = kb := hsame (by simp [hadded])
  refine ⟨rfl, CharterSchools.keyParts_school, rfl, inherited, _, own, hkb, hks, by simpa using hids,
    rfl, fun hstands => ?_⟩
  rcases (hiff (by simp [hadded])).mp hstands with hmem | heq
  · simp [hadded] at hmem
  · exact hdiffer heq

end Tabular
