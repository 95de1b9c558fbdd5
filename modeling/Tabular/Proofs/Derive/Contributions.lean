import Mathlib.Tactic.Common
import Tabular.Proofs.Derive.Links
import Tabular.Proofs.Derive.Paths
import Tabular.Proofs.Schema.Carrying

/-!
# What properties contribute to the table of their owner

Building the properties of an entity in a scope changes one of the tables that are there, the one
of the scope. It receives the columns of the scalars, lookups and references among the properties,
and those of the properties of choices and inline commons. Commons and collections write into
further tables.

## Main definitions

* `Model.Contributes`: the columns that properties contribute, by their names and by the texts of
  the chains that produce them.
* `Table.Receives`: a table has received the contributions of properties and nothing else.

## Main results

* `TableContext.Built.get?_eq_some`: building leaves the tables outside its scope alone.
* `TableContext.Built.exists_receives`: the table of the scope receives the contributions.
-/

namespace Tabular

/-! ### Rules for columns and rules for tables -/

namespace PropertyKind

theorem columnRule_eq_reference_iff (k : PropertyKind) :
    k.columnRule = .reference ↔ k.tableRule = .reference := by
  cases k <;> simp [columnRule, tableRule]

theorem columnRule_eq_composite_iff (k : PropertyKind) :
    k.columnRule = .composite ↔
      k.tableRule = .common ∨ k.tableRule = .choice ∨ k.tableRule = .inlineCommon := by
  cases k <;> simp [columnRule, tableRule]

end PropertyKind

/-! ### Columns on their way into a table -/

namespace ColumnTransform

variable (f : ColumnTransform) (c : Column)

@[simp] theorem id_apply : (f.apply c).id = c.id := by
  induction f with
  | makeNull inner ih => exact ih
  | _ => rfl

@[simp] theorem referenceContext_apply : (f.apply c).referenceContext = c.referenceContext := by
  induction f with
  | makeNull inner ih => exact ih
  | _ => rfl

@[simp] theorem mergedReferenceContexts_apply :
    (f.apply c).mergedReferenceContexts = c.mergedReferenceContexts := by
  induction f with
  | makeNull inner ih => exact ih
  | _ => rfl

end ColumnTransform

namespace Scope

variable (scope : Scope) (c : Column)

@[simp] theorem id_place : (scope.place c).id = c.id := by
  unfold place
  induction scope.path with
  | nil => rfl
  | cons name rest ih => exact ih

@[simp] theorem referenceContext_place :
    (scope.place c).referenceContext = Text.concat scope.path ++ c.referenceContext := by
  unfold place
  induction scope.path with
  | nil => simp
  | cons name rest ih => simp [Column.prefixedBy, ih, String.append_assoc]

@[simp] theorem mergedReferenceContexts_place : (scope.place c).mergedReferenceContexts =
    c.mergedReferenceContexts.map (Text.concat scope.path ++ ·) := by
  unfold place
  induction scope.path with
  | nil => simp
  | cons name rest ih =>
    simp [Column.prefixedBy, ih, Function.comp_def, String.append_assoc]

end Scope

/-- What columns of chains add to the columns of a table when they are placed in it. -/
theorem carries_foldl_place_iff {m : Model} {q : Query} {s : Strategy} {v : Version}
    {scope : Scope} {f : ColumnTransform} {cs columns : List Column} {id context : String}
    (hcolumns : ∀ c, c ∈ columns ↔ m.Yields q s c) :
    Carries ((columns.map fun c => scope.place (f.apply c)).foldl (mergeColumn v) cs) id context ↔
      Carries cs id context ∨ ∃ c, m.Yields q s c ∧ c.id = id ∧
        Text.concat scope.path ++ c.referenceContext = context := by
  rw [carries_foldl_mergeColumn_iff]
  · simp [hcolumns]
  · intro k hk
    obtain ⟨c, hc, rfl⟩ := List.mem_map.mp hk
    obtain ⟨ch, -, -, hch⟩ := (hcolumns c).mp hc
    simp [(Strategy.referenceContext_of_columnOf? hch).2]

/-! ### Contributions -/

/-- The properties write a column of the given name into the table of their scope, and the chain of
properties that produces it is spelled by the given text. -/
inductive Model.Contributes (m : Model) :
    List Declaration → Strategy → String → String → Prop
  | own {ds : List Declaration} {d : Declaration} {s : Strategy} {c : Column} (hd : d ∈ ds)
      (hrule : d.property.kind.columnRule ≠ .composite) (hsingle : d.property.isCollection = false)
      (hc : m.Yields (.columns d) s c) : m.Contributes ds s c.id c.referenceContext
  | choice {ds : List Declaration} {d : Declaration} {s : Strategy} {e : Entity}
      {id context : String} (hd : d ∈ ds) (hrule : d.property.kind.tableRule = .choice)
      (he : m.referencedEntity d.owner d.property = .ok e)
      (inner : m.Contributes e.declarations s.leafNullable id context) :
      m.Contributes ds s id (d.property.fullName ++ context)
  | inlineCommon {ds : List Declaration} {d : Declaration} {s : Strategy} {e : Entity}
      {id context : String} (hd : d ∈ ds) (hrule : d.property.kind.tableRule = .inlineCommon)
      (he : m.referencedEntity d.owner d.property = .ok e)
      (inner : m.Contributes e.declarations (TableContext.inlineStrategy d.property s) id
        context) :
      m.Contributes ds s id (d.property.fullName ++ context)

namespace Model

variable {m : Model} {ds : List Declaration} {d : Declaration} {s : Strategy}
  {id context : String}

/-- Every contribution is the contribution of one property. -/
theorem contributes_iff : m.Contributes ds s id context ↔
    ∃ d ∈ ds, m.Contributes [d] s id context := by
  have hself {d : Declaration} : d ∈ [d] := List.mem_singleton.mpr rfl
  constructor
  · intro h
    cases h with
    | own hd hrule hsingle hc => exact ⟨_, hd, .own hself hrule hsingle hc⟩
    | choice hd hrule he inner => exact ⟨_, hd, .choice hself hrule he inner⟩
    | inlineCommon hd hrule he inner => exact ⟨_, hd, .inlineCommon hself hrule he inner⟩
  · rintro ⟨d, hd, h⟩
    cases h with
    | own hmem hrule hsingle hc =>
      exact .own (List.mem_singleton.mp hmem ▸ hd) hrule hsingle hc
    | choice hmem hrule he inner =>
      exact .choice (List.mem_singleton.mp hmem ▸ hd) hrule he inner
    | inlineCommon hmem hrule he inner =>
      exact .inlineCommon (List.mem_singleton.mp hmem ▸ hd) hrule he inner

theorem not_contributes_nil : ¬m.Contributes [] s id context := by
  rw [contributes_iff]
  simp

theorem contributes_cons_iff {rest : List Declaration} :
    m.Contributes (d :: rest) s id context ↔
      m.Contributes [d] s id context ∨ m.Contributes rest s id context := by
  have hrest := @contributes_iff m rest s id context
  rw [contributes_iff, hrest]
  simp

/-- A scalar, lookup or reference contributes its columns unless it is a collection. -/
theorem contributes_own_iff (hrule : d.property.kind.columnRule ≠ .composite) :
    m.Contributes [d] s id context ↔ d.property.isCollection = false ∧
      ∃ c, m.Yields (.columns d) s c ∧ c.id = id ∧ c.referenceContext = context := by
  constructor
  · intro h
    cases h with
    | own hd _ hsingle hc =>
      rw [List.mem_singleton.mp hd] at hsingle hc
      exact ⟨hsingle, _, hc, rfl, rfl⟩
    | choice hd hchoice =>
      rw [List.mem_singleton.mp hd] at hchoice
      exact absurd ((PropertyKind.columnRule_eq_composite_iff _).mpr (by simp [hchoice])) hrule
    | inlineCommon hd hinline =>
      rw [List.mem_singleton.mp hd] at hinline
      exact absurd ((PropertyKind.columnRule_eq_composite_iff _).mpr (by simp [hinline])) hrule
  · rintro ⟨hsingle, c, hc, rfl, rfl⟩
    exact .own (List.mem_singleton.mpr rfl) hrule hsingle hc

/-- A composite contributes what its properties contribute, unless it is a common. -/
theorem contributes_composite_iff (hrule : d.property.kind.columnRule = .composite) :
    m.Contributes [d] s id context ↔
      ∃ e text, m.referencedEntity d.owner d.property = .ok e ∧
        context = d.property.fullName ++ text ∧
        ((d.property.kind.tableRule = .choice ∧
          m.Contributes e.declarations s.leafNullable id text) ∨
        (d.property.kind.tableRule = .inlineCommon ∧
          m.Contributes e.declarations (TableContext.inlineStrategy d.property s) id text)) := by
  constructor
  · intro h
    cases h with
    | own hd hleaf =>
      rw [List.mem_singleton.mp hd] at hleaf
      exact absurd hrule hleaf
    | choice hd hchoice he inner =>
      rw [List.mem_singleton.mp hd] at hchoice he ⊢
      exact ⟨_, _, he, rfl, Or.inl ⟨hchoice, inner⟩⟩
    | inlineCommon hd hinline he inner =>
      rw [List.mem_singleton.mp hd] at hinline he inner ⊢
      exact ⟨_, _, he, rfl, Or.inr ⟨hinline, inner⟩⟩
  · rintro ⟨e, text, he, rfl, ⟨hchoice, inner⟩ | ⟨hinline, inner⟩⟩
    · exact .choice (List.mem_singleton.mpr rfl) hchoice he inner
    · exact .inlineCommon (List.mem_singleton.mpr rfl) hinline he inner

end Model

/-! ### Tables outside the scope -/

namespace TableContext

variable {ctx : TableContext} {ds : List Declaration} {scope : Scope} {s : Strategy}
  {set next : TableSet}

theorem get?_linkOrDiscard (i j : Nat) (key : TableKey) (r : ForeignKeyReason) :
    (linkOrDiscard j key r set).get? i = set.get? i := by
  rw [TableSet.get?, tables_linkOrDiscard, TableSet.get?]

theorem get?_commonClosed {i j : Nat} (hne : i ≠ j) :
    (ctx.commonClosed scope j set).get? i = set.get? i := by
  unfold commonClosed
  split_ifs
  · rfl
  · exact TableSet.get?_modify_of_ne _ hne

/-- Building changes no table that is there but the one of its scope. -/
theorem Built.get?_eq_some (h : ctx.Built ds scope s set next) {i : Nat} {t : Table}
    (ht : set.get? i = some t) (hne : i ≠ scope.table) : next.get? i = some t := by
  induction h with
  | nil | lookupSkipped | referenceSkipped => exact ht
  | cons _ _ ihhead ihtail => exact ihtail (ihhead ht hne) hne
  | column => exact (TableSet.get?_modify_of_ne _ hne).trans ht
  | lookup | reference =>
    rw [TableSet.get?_modify_of_ne _ hne]
    exact (TableSet.get?_modify_of_ne _ hne).trans ht
  | collection | referenceCollection => exact TableSet.get?_push ht
  | common _ _ _ _ ih =>
    have hnew := Nat.ne_of_lt (TableSet.lt_next_of_get? ht)
    exact (get?_commonClosed hnew).trans (ih (TableSet.get?_push ht) hnew)
  | commonExtension _ _ _ _ ih =>
    have hnew := Nat.ne_of_lt (TableSet.lt_next_of_get? ht)
    rw [get?_linkOrDiscard]
    exact ih (TableSet.get?_push ht) hnew
  | choice _ _ _ ih | inlineCommon _ _ _ ih => exact ih ht hne

end TableContext

/-! ### The table of the scope -/

/-- The second table is the first one after it has received the contributions of properties that
stand at the end of a path: it carries nothing else, and it knows the references among them. -/
structure Table.Receives (m : Model) (ds : List Declaration) (path : List String) (s : Strategy)
    (t t' : Table) : Prop where
  key : t'.key = t.key
  distinct : (t.columns.map Column.id).Nodup → (t'.columns.map Column.id).Nodup
  carries : ∀ id context, Carries t'.columns id context ↔ Carries t.columns id context ∨
    ∃ text, context = Text.concat path ++ text ∧ m.Contributes ds s id text
  sources : ∀ r ∈ t.referenceSources, r ∈ t'.referenceSources
  recorded : ∀ d ∈ ds, d.property.kind.tableRule = .reference → d.property.isCollection = false →
    s.buildsColumns d.property = true → ∃ e cs, m.referencedEntity d.owner d.property = .ok e ∧
      m.columns d s = .ok cs ∧ ⟨path, d.id, e.id⟩ ∈ t'.referenceSources

namespace Table.Receives

variable {m : Model} {ds : List Declaration} {d : Declaration} {path : List String} {s : Strategy}
  {t t' t'' : Table}

/-- Properties that write into other tables leave a table as it is. -/
theorem of_not_contributes (hnone : ∀ id text, ¬m.Contributes ds s id text)
    (hrecorded : ∀ d ∈ ds, d.property.kind.tableRule = .reference →
      d.property.isCollection = false → s.buildsColumns d.property = false) :
    Receives m ds path s t t where
  key := rfl
  distinct hdistinct := hdistinct
  carries id context := by simp [hnone]
  sources _ hr := hr
  recorded d hd hrule hsingle hbuilds := by simp [hrecorded d hd hrule hsingle] at hbuilds

theorem nil : Receives m [] path s t t :=
  of_not_contributes (fun _ _ => Model.not_contributes_nil) (by simp)

/-- One property after the other. -/
theorem cons {rest : List Declaration} (head : Receives m [d] path s t t')
    (tail : Receives m rest path s t' t'') : Receives m (d :: rest) path s t t'' where
  key := tail.key.trans head.key
  distinct hdistinct := tail.distinct (head.distinct hdistinct)
  carries id context := by
    rw [tail.carries, head.carries, or_assoc, ← exists_or]
    refine or_congr Iff.rfl (exists_congr fun text => ?_)
    rw [← and_or_left]
    exact and_congr_right fun _ => Model.contributes_cons_iff.symm
  sources r hr := tail.sources r (head.sources r hr)
  recorded k hk hrule hsingle hbuilds := by
    rcases List.mem_cons.mp hk with rfl | hk
    · obtain ⟨e, cs, he, hcs, hsource⟩ :=
        head.recorded k (List.mem_singleton.mpr rfl) hrule hsingle hbuilds
      exact ⟨e, cs, he, hcs, tail.sources _ hsource⟩
    · exact tail.recorded k hk hrule hsingle hbuilds

/-- A scalar, lookup or reference adds its columns. -/
theorem of_columns {scope : Scope} {v : Version} {f : ColumnTransform} {columns : List Column}
    (hrule : d.property.kind.columnRule ≠ .composite) (hsingle : d.property.isCollection = false)
    (hcolumns : m.columns d s = .ok columns)
    (hkey : t'.key = t.key)
    (htable : t'.columns =
      (columns.map fun c => scope.place (f.apply c)).foldl (mergeColumn v) t.columns)
    (hsources : ∀ r ∈ t.referenceSources, r ∈ t'.referenceSources)
    (hrecorded : d.property.kind.tableRule = .reference → s.buildsColumns d.property = true →
      ∃ e, m.referencedEntity d.owner d.property = .ok e ∧
        ⟨scope.path, d.id, e.id⟩ ∈ t'.referenceSources) :
    Receives m [d] scope.path s t t' where
  key := hkey
  distinct hdistinct := by
    rw [htable]
    exact nodup_foldl_mergeColumn hdistinct
  carries id context := by
    rw [htable, carries_foldl_place_iff fun c => Model.mem_columns_iff hcolumns]
    refine or_congr Iff.rfl ?_
    simp only [Model.contributes_own_iff hrule, hsingle, true_and]
    constructor
    · rintro ⟨c, hc, hid, rfl⟩
      exact ⟨_, rfl, c, hc, hid, rfl⟩
    · rintro ⟨_, rfl, c, hc, hid, rfl⟩
      exact ⟨c, hc, hid, rfl⟩
  sources := hsources
  recorded k hk hreference _ hbuilds := by
    obtain rfl := List.mem_singleton.mp hk
    obtain ⟨e, he, hsource⟩ := hrecorded hreference hbuilds
    exact ⟨e, columns, he, hcolumns, hsource⟩

/-- A choice or inline common adds what its properties contribute. -/
theorem of_composite {e : Entity} {s' : Strategy}
    (hrule : d.property.kind.tableRule = .choice ∧ s' = s.leafNullable ∨
      d.property.kind.tableRule = .inlineCommon ∧ s' = TableContext.inlineStrategy d.property s)
    (he : m.referencedEntity d.owner d.property = .ok e)
    (inner : Receives m e.declarations (path ++ [d.property.fullName]) s' t t') :
    Receives m [d] path s t t' where
  key := inner.key
  distinct := inner.distinct
  carries id context := by
    have hcomposite : d.property.kind.columnRule = .composite :=
      (PropertyKind.columnRule_eq_composite_iff _).mpr (Or.inr (hrule.imp And.left And.left))
    rw [inner.carries]
    simp only [Model.contributes_composite_iff hcomposite, he, Except.ok.injEq, exists_and_left,
      exists_eq_left', Text.concat_append, Text.concat_cons, Text.concat_nil, String.append_empty,
      String.append_assoc]
    refine or_congr Iff.rfl ?_
    constructor
    · rintro ⟨text, rfl, h⟩
      refine ⟨_, rfl, text, rfl, ?_⟩
      rcases hrule with ⟨hrule, rfl⟩ | ⟨hrule, rfl⟩
      · exact Or.inl ⟨hrule, h⟩
      · exact Or.inr ⟨hrule, h⟩
    · rintro ⟨_, rfl, text, rfl, h⟩
      refine ⟨text, rfl, ?_⟩
      rcases hrule with ⟨hrule, rfl⟩ | ⟨hrule, rfl⟩
      · simpa [hrule] using h
      · simpa [hrule] using h
  sources := inner.sources
  recorded k hk hreference := by
    rw [List.mem_singleton.mp hk] at hreference
    rcases hrule with ⟨hrule, -⟩ | ⟨hrule, -⟩ <;> simp [hrule] at hreference

end Table.Receives

namespace TableContext

variable {ctx : TableContext} {ds : List Declaration} {scope : Scope} {s : Strategy}
  {set next : TableSet}

/-- Scalars, lookups and references have columns of their own or those of a key. -/
theorem columnRule_of_tableRule {d : Declaration}
    (h : d.property.kind.tableRule = .scalar ∨ d.property.kind.tableRule = .lookup ∨
      d.property.kind.tableRule = .reference) : d.property.kind.columnRule ≠ .composite := by
  rw [ne_eq, PropertyKind.columnRule_eq_composite_iff]
  rcases h with h | h | h <;> simp [h]

private theorem not_contributes_collection {d : Declaration}
    (hcollection : d.property.isCollection = true)
    (hrule : d.property.kind.columnRule ≠ .composite) (id text : String) :
    ¬ctx.model.Contributes [d] s id text := by
  rw [Model.contributes_own_iff hrule, hcollection]
  simp

private theorem not_contributes_common {d : Declaration}
    (hrule : d.property.kind.tableRule = .common) (id text : String) :
    ¬ctx.model.Contributes [d] s id text := by
  have hcomposite : d.property.kind.columnRule = .composite :=
    (PropertyKind.columnRule_eq_composite_iff _).mpr (Or.inl hrule)
  rw [Model.contributes_composite_iff hcomposite, hrule]
  simp

/-- Building gives the table of its scope what the properties contribute. -/
theorem Built.exists_receives (h : ctx.Built ds scope s set next) {t : Table}
    (ht : set.get? scope.table = some t) :
    ∃ t', next.get? scope.table = some t' ∧ t.Receives ctx.model ds scope.path s t' := by
  induction h generalizing t with
  | nil => exact ⟨t, ht, .nil⟩
  | cons _ _ ihhead ihtail =>
    obtain ⟨t', ht', hhead⟩ := ihhead ht
    obtain ⟨t'', ht'', htail⟩ := ihtail ht'
    exact ⟨t'', ht'', hhead.cons htail⟩
  | column hrule hsingle hcolumns =>
    refine ⟨_, TableSet.get?_modify_self _ ht, .of_columns
      (columnRule_of_tableRule (Or.inl hrule)) hsingle hcolumns (Table.key_addColumns _ _ _)
      (Table.columns_addColumns _ _ _) (fun r hr => ?_) (by simp [hrule])⟩
    rwa [Table.referenceSources_addColumns]
  | lookup hrule hsingle htarget hcolumns =>
    refine ⟨_, TableSet.get?_modify_self _ (TableSet.get?_modify_self _ ht), .of_columns
      (columnRule_of_tableRule (Or.inr (Or.inl hrule))) hsingle hcolumns ?_
      ((Table.columns_addForeignKey _ _).trans (Table.columns_addColumns _ _ _))
      (fun r hr => ?_) (by simp [hrule])⟩
    · rw [Table.key_addForeignKey, Table.key_addColumns]
    · rwa [Table.referenceSources_addForeignKey, Table.referenceSources_addColumns]
  | @lookupSkipped d _ s _ hrule hsingle hcolumns =>
    refine ⟨t, ht, .of_not_contributes (fun id text => ?_) (by simp [hrule])⟩
    rw [Model.contributes_own_iff (columnRule_of_tableRule (Or.inr (Or.inl hrule)))]
    rintro ⟨-, c, hc, -⟩
    simpa using (Model.mem_columns_iff hcolumns).mpr hc
  | collection hcollection hrule =>
    have hleaf := columnRule_of_tableRule (hrule.imp_right Or.inl)
    exact ⟨t, TableSet.get?_push ht, .of_not_contributes
      (not_contributes_collection hcollection hleaf) (by simp [hcollection])⟩
  | reference hrule hsingle hreferenced hbuilds hcolumns =>
    refine ⟨_, TableSet.get?_modify_self _ (TableSet.get?_modify_self _ ht), .of_columns
      (columnRule_of_tableRule (Or.inr (Or.inr hrule))) hsingle hcolumns ?_
      ((Table.columns_addReferenceSource _ _).trans (Table.columns_addColumns _ _ _))
      (fun r hr => ?_) (fun _ _ => ⟨_, hreferenced, ?_⟩)⟩
    · rw [Table.key_addReferenceSource, Table.key_addColumns]
    · rw [Table.mem_referenceSources_addReferenceSource, Table.referenceSources_addColumns]
      exact Or.inl hr
    · rw [Table.mem_referenceSources_addReferenceSource]
      exact Or.inr rfl
  | @referenceSkipped d _ s _ hrule hskips =>
    refine ⟨t, ht, .of_not_contributes (fun id text => ?_) (by simp [hskips])⟩
    have hreference : d.property.kind.columnRule = .reference :=
      (PropertyKind.columnRule_eq_reference_iff _).mpr hrule
    rw [Model.contributes_own_iff (by simp [hreference])]
    rintro ⟨-, c, hc, -⟩
    rw [Model.yields_reference_iff hreference, hskips] at hc
    simp at hc
  | referenceCollection hrule hcollection =>
    have hreference := columnRule_of_tableRule (Or.inr (Or.inr hrule))
    exact ⟨t, TableSet.get?_push ht, .of_not_contributes
      (not_contributes_collection hcollection hreference) (by simp [hcollection])⟩
  | common hrule _ _ inner =>
    have hnew := Nat.ne_of_lt (TableSet.lt_next_of_get? ht)
    exact ⟨t, (get?_commonClosed hnew).trans (inner.get?_eq_some (TableSet.get?_push ht) hnew),
      .of_not_contributes (not_contributes_common hrule) (by simp [hrule])⟩
  | commonExtension hrule _ _ inner =>
    have hnew := Nat.ne_of_lt (TableSet.lt_next_of_get? ht)
    refine ⟨t, ?_, .of_not_contributes (not_contributes_common hrule) (by simp [hrule])⟩
    rw [get?_linkOrDiscard]
    exact inner.get?_eq_some (TableSet.get?_push ht) hnew
  | choice hrule hreferenced _ ih =>
    obtain ⟨t', ht', hinner⟩ := ih ht
    exact ⟨t', ht', .of_composite (Or.inl ⟨hrule, rfl⟩) hreferenced hinner⟩
  | inlineCommon hrule hreferenced _ ih =>
    obtain ⟨t', ht', hinner⟩ := ih ht
    exact ⟨t', ht', .of_composite (Or.inr ⟨hrule, rfl⟩) hreferenced hinner⟩

end TableContext

end Tabular
