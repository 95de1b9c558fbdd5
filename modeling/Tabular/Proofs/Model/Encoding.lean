import Mathlib.Data.List.Basic
import Mathlib.Tactic.Common
import Tabular.Model.Load
import Tabular.Proofs.Json.RoundTrip

/-!
# The JSON form of models reads back

A decoder returns the record whose encoding it reads, provided that the numbers in the record have
the widths of the format: 32 bits for the parameters of scalar types, 64 bits for positions. The
decoder of property kinds returns nothing else.

## Main definitions

* `PropertyKind.InRange`, `Entity.InRange`: records whose numbers have the widths of the format.

## Main results

* `PropertyKind.inRange_of_decode?`, `Model.inRange_kind_of_decode?`: the property kinds of a model
  that was read are in range.
* `Model.decode?_encode`: the encoding of a model is read as the model.
* `Model.isPlain_encode`, `Model.all_fits_writtenKinds`: the encoding keeps to the limits of the
  format.
-/

namespace Tabular

/-! ### Values of one type -/

namespace Json

variable {α : Type} {encode : α → Json} {decode : Json → Option α}

theorem natBelow?_nat {bound n : Nat} (h : n < bound) : natBelow? bound (.nat n) = some n :=
  if_pos h

theorem lt_of_natBelow? {bound n : Nat} {v : Json} (h : natBelow? bound v = some n) :
    n < bound := by
  unfold natBelow? at h
  split at h
  · split_ifs at h with hlt
    cases h
    exact hlt
  · cases h

theorem listOf?_list {items : List α} (h : ∀ a ∈ items, decode (encode a) = some a) :
    listOf? decode (.list encode items) = some items := by
  change (items.map encode).mapM decode = some items
  induction items with
  | nil => rfl
  | cons a rest ih => simp [h a (by simp), ih fun b hb => h b (by simp [hb])]

theorem exists_of_listOf? {items : List α} {v : Json} (h : listOf? decode v = some items) :
    ∀ a ∈ items, ∃ w, decode w = some a := by
  have hmapM : ∀ (vs : List Json) (items : List α), vs.mapM decode = some items →
      ∀ a ∈ items, ∃ w, decode w = some a := by
    intro vs
    induction vs with
    | nil => simp
    | cons w rest ih =>
      intro items hitems a ha
      simp only [List.mapM_cons, Option.bind_eq_bind, Option.bind_eq_some_iff, Option.pure_def,
        Option.some.injEq] at hitems
      obtain ⟨b, hb, others, hothers, rfl⟩ := hitems
      rcases List.mem_cons.mp ha with rfl | ha
      · exact ⟨w, hb⟩
      · exact ih others hothers a ha
  cases v with
  | arr vs => exact hmapM vs items h
  | _ => cases h

theorem nullable?_ofOption_nat {bound : Nat} {value : Option Nat} (h : ∀ n ∈ value, n < bound) :
    nullable? (natBelow? bound) (.ofOption .nat value) = some value := by
  cases value with
  | none => rfl
  | some n =>
    change (natBelow? bound (.nat n)).map some = _
    rw [natBelow?_nat (h n rfl)]
    rfl

theorem lt_of_nullable? {bound : Nat} {value : Option Nat} {v : Json}
    (h : nullable? (natBelow? bound) v = some value) : ∀ n ∈ value, n < bound := by
  unfold nullable? at h
  split at h
  · cases h
    simp
  · obtain ⟨n, hn, rfl⟩ := Option.map_eq_some_iff.mp h
    simpa using lt_of_natBelow? hn

end Json

/-! ### Members of records -/

namespace Record

variable {V α : Type} {r : Record V} {name : String} {decode : V → Option α} {a : α}

theorem exists_of_required? (h : r.required? name decode = some a) : ∃ v, decode v = some a := by
  unfold required? at h
  split at h
  · exact ⟨_, h⟩
  · cases h

theorem eq_or_exists_of_optional? {default : α} (h : r.optional? name default decode = some a) :
    a = default ∨ ∃ v, decode v = some a := by
  unfold optional? at h
  split at h
  · exact .inl (Option.some.inj h).symm
  · exact .inr ⟨_, h⟩
  · cases h

end Record

/-! ### Property kinds -/

/-- The parameters of the type have 32 bits. -/
def ScalarType.InRange : ScalarType → Prop
  | .decimal precision scale => precision < 0x100000000 ∧ scale < 0x100000000
  | .string minLength maxLength =>
    (∀ n ∈ minLength, n < 0x100000000) ∧ maxLength < 0x100000000
  | _ => True

theorem ScalarType.inRange_of_ofFields? {name : String} {parameters : Json} {t : ScalarType}
    (h : ofFields? name parameters = some t) : t.InRange := by
  unfold ofFields? at h
  split_ifs at h with hdecimal hstring
  · simp only [Option.bind_eq_bind, Option.bind_eq_some_iff, Option.pure_def,
      Option.some.injEq] at h
    obtain ⟨fields, -, precision, hprecision, scale, hscale, rfl⟩ := h
    obtain ⟨_, hprecision⟩ := Record.exists_of_required? hprecision
    obtain ⟨_, hscale⟩ := Record.exists_of_required? hscale
    exact ⟨Json.lt_of_natBelow? hprecision, Json.lt_of_natBelow? hscale⟩
  · simp only [Option.bind_eq_bind, Option.bind_eq_some_iff, Option.pure_def,
      Option.some.injEq] at h
    obtain ⟨fields, -, minLength, hmin, maxLength, hmax, rfl⟩ := h
    obtain ⟨_, hmax⟩ := Record.exists_of_required? hmax
    refine ⟨?_, Json.lt_of_natBelow? hmax⟩
    rcases Record.eq_or_exists_of_optional? hmin with rfl | ⟨_, hmin⟩
    · simp
    · exact Json.lt_of_nullable? hmin
  · have hplain : ∀ t ∈ plain, t.InRange := by simp [plain, InRange]
    obtain ⟨fields, -, h⟩ := Option.bind_eq_some_iff.mp h
    exact hplain t (List.mem_of_find?_eq_some h)

namespace PropertyKind

/-- The parameters of the kind have 32 bits. -/
def InRange : PropertyKind → Prop
  | .scalar type => type.InRange
  | _ => True

theorem inRange_of_decode? {v : Json} {k : PropertyKind} (h : decode? v = some k) :
    k.InRange := by
  obtain ⟨⟨name, parameters⟩, -, h⟩ := Option.bind_eq_some_iff.mp h
  cases hfind : links.find? fun k => k.name = name with
  | some link =>
    simp only [hfind] at h
    obtain ⟨fields, -, rfl⟩ := Option.map_eq_some_iff.mp h
    have hlinks : ∀ k ∈ links, k.InRange := by simp [links, InRange]
    exact hlinks link (List.mem_of_find?_eq_some hfind)
  | none =>
    simp only [hfind] at h
    obtain ⟨t, ht, rfl⟩ := Option.map_eq_some_iff.mp h
    exact ScalarType.inRange_of_ofFields? ht

theorem decode?_encode {k : PropertyKind} (h : k.InRange) : decode? k.encode = some k := by
  cases k with
  | scalar type =>
    cases type with
    | decimal precision scale =>
      have hread : decode? (scalar (.decimal precision scale)).encode =
          ((Json.nat32? (.nat precision)).bind fun precision =>
            (Json.nat32? (.nat scale)).bind fun scale =>
              some (.decimal precision scale)).map scalar := rfl
      rw [hread, Json.nat32?, Json.natBelow?_nat h.1, Option.bind_some, Json.natBelow?_nat h.2]
      rfl
    | string minLength maxLength =>
      have hread : decode? (scalar (.string minLength maxLength)).encode =
          ((Json.nullable? Json.nat32? (.ofOption .nat minLength)).bind fun minLength =>
            (Json.nat32? (.nat maxLength)).bind fun maxLength =>
              some (.string minLength maxLength)).map scalar := rfl
      rw [hread, Json.nat32?, Json.nullable?_ofOption_nat h.1, Option.bind_some,
        Json.natBelow?_nat h.2]
      rfl
    | _ => rfl
  | _ => rfl

end PropertyKind

/-! ### Properties, entities and namespaces -/

theorem MergeDirective.decode?_encode (d : MergeDirective) : decode? d.encode = some d := by
  have hread : decode? d.encode =
      (Json.listOf? Json.string? (.strings d.source)).bind fun source =>
        (Json.listOf? Json.string? (.strings d.target)).bind fun target =>
          some ⟨source, target⟩ := rfl
  have hstrings : ∀ path, Json.listOf? Json.string? (.strings path) = some path :=
    fun path => @Json.listOf?_list _ .str _ path fun _ _ => rfl
  rw [hread, hstrings, Option.bind_some, hstrings, Option.bind_some]

namespace Property

/-- The parameters of the kind have 32 bits, and the link of the property has 64 bits. -/
structure InRange (p : Property) : Prop where
  kind : p.kind.InRange
  link_lt : ∀ link ∈ p.referencedEntity, link < 0x10000000000000000

theorem decode?_encode {p : Property} (h : p.InRange) : decode? p.encode = some p := by
  have hread : decode? p.encode =
      (PropertyKind.decode? p.kind.encode).bind fun kind =>
        (Json.listOf? MergeDirective.decode?
          (.list MergeDirective.encode p.mergeDirectives)).bind fun mergeDirectives =>
            (Json.nullable? Json.nat64? (.ofOption .nat p.referencedEntity)).bind fun link =>
              some { p with kind, mergeDirectives, referencedEntity := link } := by
    rfl
  rw [hread, PropertyKind.decode?_encode h.kind, Option.bind_some,
    Json.listOf?_list fun d _ => MergeDirective.decode?_encode d, Option.bind_some, Json.nat64?,
    Json.nullable?_ofOption_nat h.link_lt, Option.bind_some]

theorem inRange_kind_of_decode? {v : Json} {p : Property} (h : decode? v = some p) :
    p.kind.InRange := by
  obtain ⟨fields, -, h⟩ := Option.bind_eq_some_iff.mp h
  obtain ⟨name, -, h⟩ := Option.bind_eq_some_iff.mp h
  obtain ⟨kind, hkind, h⟩ := Option.bind_eq_some_iff.mp h
  -- The members after the kind do not change it.
  iterate 15 obtain ⟨_, -, h⟩ := Option.bind_eq_some_iff.mp h
  obtain rfl := Option.some.inj h
  obtain ⟨w, hw⟩ := Record.exists_of_required? hkind
  exact PropertyKind.inRange_of_decode? hw

end Property

namespace Entity

/-- The parameters of all kinds have 32 bits, and all positions have 64 bits. -/
structure InRange (e : Entity) : Prop where
  id_lt : e.id < 0x10000000000000000
  property : ∀ p ∈ e.properties, p.InRange
  baseEntity_lt : ∀ link ∈ e.baseEntity, link < 0x10000000000000000
  mapType_lt : ∀ link ∈ e.mapType, link < 0x10000000000000000

theorem decode?_encode {e : Entity} (h : e.InRange) : decode? e.encode = some e := by
  have hread : decode? e.encode =
      (Json.nat64? (.nat e.id)).bind fun id =>
        (EntityKind.decode? e.kind.encode).bind fun kind =>
          (Json.listOf? Property.decode?
            (.list Property.encode e.properties)).bind fun properties =>
            (Json.nullable? Json.nat64? (.ofOption .nat e.baseEntity)).bind fun baseEntity =>
              (Json.nullable? Json.nat64? (.ofOption .nat e.mapType)).bind fun mapType =>
                some { e with id, kind, properties, baseEntity, mapType } := by
    rfl
  have hkind : EntityKind.decode? e.kind.encode = some e.kind := by
    cases e.kind <;> rfl
  rw [hread, Json.nat64?, Json.natBelow?_nat h.id_lt, Option.bind_some, hkind, Option.bind_some,
    Json.listOf?_list fun p hp => Property.decode?_encode (h.property p hp), Option.bind_some,
    Json.nullable?_ofOption_nat h.baseEntity_lt, Option.bind_some,
    Json.nullable?_ofOption_nat h.mapType_lt, Option.bind_some]

theorem inRange_kind_of_decode? {v : Json} {e : Entity} (h : decode? v = some e) :
    ∀ p ∈ e.properties, p.kind.InRange := by
  obtain ⟨fields, -, h⟩ := Option.bind_eq_some_iff.mp h
  iterate 5 obtain ⟨_, -, h⟩ := Option.bind_eq_some_iff.mp h
  obtain ⟨properties, hproperties, h⟩ := Option.bind_eq_some_iff.mp h
  iterate 4 obtain ⟨_, -, h⟩ := Option.bind_eq_some_iff.mp h
  obtain rfl := Option.some.inj h
  rcases Record.eq_or_exists_of_optional? hproperties with rfl | ⟨w, hw⟩
  · simp
  · intro p hp
    obtain ⟨u, hu⟩ := Json.exists_of_listOf? hw p hp
    exact Property.inRange_kind_of_decode? hu

end Entity

theorem Namespace.decode?_encode (n : Namespace) : decode? n.encode = some n :=
  rfl

/-! ### Models -/

namespace Model

/-- The encoding of a model is read as the model. -/
theorem decode?_encode {m : Model} (h : ∀ e ∈ m.entities, e.InRange) :
    decode? m.encode = some m := by
  have hread : decode? m.encode =
      (Json.listOf? Namespace.decode? (.list Namespace.encode m.namespaces)).bind fun namespaces =>
        (Json.listOf? Entity.decode? (.list Entity.encode m.entities)).bind fun entities =>
          some ⟨namespaces, entities⟩ := by
    rfl
  rw [hread, Json.listOf?_list fun n _ => n.decode?_encode, Option.bind_some,
    Json.listOf?_list fun e he => Entity.decode?_encode (h e he), Option.bind_some]

/-- The property kinds of a model that was read are in range. -/
theorem inRange_kind_of_decode? {v : Json} {m : Model} (h : decode? v = some m) :
    ∀ e ∈ m.entities, ∀ p ∈ e.properties, p.kind.InRange := by
  obtain ⟨fields, -, h⟩ := Option.bind_eq_some_iff.mp h
  obtain ⟨namespaces, -, h⟩ := Option.bind_eq_some_iff.mp h
  obtain ⟨entities, hentities, h⟩ := Option.bind_eq_some_iff.mp h
  obtain rfl := Option.some.inj h
  rcases Record.eq_or_exists_of_optional? hentities with rfl | ⟨w, hw⟩
  · simp
  · intro e he
    obtain ⟨u, hu⟩ := Json.exists_of_listOf? hw e he
    exact Entity.inRange_kind_of_decode? hu

end Model

/-! ### The limits of the format -/

theorem Json.isPlain_list {α : Type} {encode : α → Json} (h : ∀ a, (encode a).IsPlain)
    (items : List α) : (Json.list encode items).IsPlain := by
  refine .arr fun v hv => ?_
  obtain ⟨a, -, rfl⟩ := List.mem_map.mp hv
  exact h a

theorem Json.isPlain_ofOption_nat (value : Option Nat) : (Json.ofOption .nat value).IsPlain := by
  cases value with
  | none => exact .null
  | some n => exact .int n

theorem Json.IsPlain.obj_of_forall {members : List (String × Json)}
    (h : members.Forall fun m => m.2.IsPlain) : (Json.obj members).IsPlain :=
  .obj (List.forall_iff_forall_mem.mp h)

theorem PropertyKind.isPlain_encode (k : PropertyKind) : k.encode.IsPlain := by
  refine .obj_of_forall ?_
  cases k with
  | scalar type =>
    cases type with
    | decimal precision scale => exact ⟨.str _, .int _, .int _⟩
    | string minLength maxLength => exact ⟨.str _, Json.isPlain_ofOption_nat _, .int _⟩
    | _ => exact .str _
  | _ => exact .str _

theorem MergeDirective.isPlain_encode (d : MergeDirective) : d.encode.IsPlain :=
  .obj_of_forall ⟨Json.isPlain_list .str _, Json.isPlain_list .str _⟩

theorem Property.isPlain_encode (p : Property) : p.encode.IsPlain :=
  .obj_of_forall ⟨.str _, p.kind.isPlain_encode, .str _, .str _, .str _, .bool _, .bool _, .bool _,
    .bool _, .bool _, .bool _, .str _, .bool _, .bool _, .bool _,
    Json.isPlain_list MergeDirective.isPlain_encode _, Json.isPlain_ofOption_nat _⟩

theorem Entity.isPlain_encode (e : Entity) : e.encode.IsPlain :=
  .obj_of_forall ⟨.int _, .str _, .str _, .str _, .str _,
    Json.isPlain_list Property.isPlain_encode _, Json.isPlain_ofOption_nat _, .bool _, .bool _,
    Json.isPlain_ofOption_nat _⟩

theorem Namespace.isPlain_encode (n : Namespace) : n.encode.IsPlain :=
  .obj_of_forall ⟨.str _, .bool _, .str _⟩

/-- The encoding of a model can be written as a text. -/
theorem Model.isPlain_encode (m : Model) : m.encode.IsPlain :=
  .obj_of_forall
    ⟨Json.isPlain_list Namespace.isPlain_encode _, Json.isPlain_list Entity.isPlain_encode _⟩

theorem Json.fits_nat {depth n : Nat} (h : n < 0x100000000) : fits depth (.nat n) = true := by
  have hsmall : n ≤ maxSignificand := Nat.le_trans (Nat.le_of_lt h) (by decide)
  simp [fits, Json.nat, hsmall]

theorem PropertyKind.fits_encode {k : PropertyKind} (h : k.InRange) :
    Json.fits Model.kindDepth k.encode = true := by
  cases k with
  | scalar type =>
    cases type with
    | decimal precision scale =>
      simp [encode, Json.fits, Json.membersFit, Model.kindDepth, Json.fits_nat h.1,
        Json.fits_nat h.2]
    | string minLength maxLength =>
      cases minLength with
      | none =>
        simp [encode, Json.fits, Json.membersFit, Model.kindDepth, Json.ofOption,
          Json.fits_nat h.2]
      | some n =>
        simp [encode, Json.fits, Json.membersFit, Model.kindDepth, Json.ofOption,
          Json.fits_nat (h.1 n rfl), Json.fits_nat h.2]
    | _ => rfl
  | _ => rfl

/-- The kinds that the encoding of a model writes are those of its properties. -/
theorem Model.exists_of_mem_writtenKinds {m : Model} {v : Json} (h : v ∈ writtenKinds m.encode) :
    ∃ e ∈ m.entities, ∃ p ∈ e.properties, v = p.kind.encode := by
  have hkind : ∀ p : Property, Json.valuesOf Property.members "kind" p.encode = [p.kind.encode] :=
    fun _ => rfl
  have hproperties : ∀ e : Entity, Json.valuesOf Entity.members "properties" e.encode =
      [.list Property.encode e.properties] := fun _ => rfl
  have hentities : Json.valuesOf members "entities" m.encode =
      [.list Entity.encode m.entities] := rfl
  have hitems : ∀ {α : Type} (encode : α → Json) (items : List α),
      (Json.list encode items).items = items.map encode := fun _ _ => rfl
  simp only [writtenKinds, hentities, List.flatMap_singleton, hitems, List.flatMap_map, hproperties,
    List.mem_flatMap, List.mem_singleton] at h
  obtain ⟨w, ⟨_, ⟨e, he, rfl⟩, hw⟩, hv⟩ := h
  rw [hitems, List.mem_map] at hw
  obtain ⟨p, hp, rfl⟩ := hw
  rw [hkind, List.mem_singleton] at hv
  exact ⟨e, he, p, hp, hv⟩

/-- The kinds that the encoding of a model writes keep to the limits of the format. -/
theorem Model.all_fits_writtenKinds {m : Model}
    (h : ∀ e ∈ m.entities, ∀ p ∈ e.properties, p.kind.InRange) :
    (writtenKinds m.encode).all (Json.fits kindDepth) = true := by
  refine List.all_eq_true.mpr fun v hv => ?_
  obtain ⟨e, he, p, hp, rfl⟩ := exists_of_mem_writtenKinds hv
  exact PropertyKind.fits_encode (h e he p hp)

end Tabular
