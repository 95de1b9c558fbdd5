import Mathlib.Tactic.Common
import Tabular.Proofs.Derive.LargerModels
import Tabular.Proofs.FirstOccurrences
import Tabular.Proofs.Model.Encoding

/-!
# Loading normalises a model once

A text that is well-formed writes a model. Loading rejects it for its first link that leads nowhere,
in the order of entities and, within an entity, of properties, base and map type. Otherwise it gives
every entity its position and adds the namespaces that only entities name. The result is a normal
form: written as a text and loaded again it comes back unchanged.

## Main definitions

* `Model.written?`: the model that a text writes.
* `Model.BreaksAt`: the first link that leads beyond the last entity.
* `Model.IsNormal`: models that loading leaves alone.

## Main results

* `Model.ofText_eq_ok_iff`, `Model.ofText_eq_error_iff`: the outcomes of loading.
* `Model.missingNamespaces_eq`: the namespaces that are added.
* `Model.isNormal_reindex`, `Model.IsNormal.reindex_eq`: normal forms.
* `Model.ofText_normalises`: loading as a whole.
-/

namespace Tabular.Model

variable {m : Model}

/-- The model that a text writes, none if the text or some record in it is malformed. -/
def written? (text : String) : Option Model :=
  (Json.parse? text).bind fun v =>
    if (writtenKinds v).all (Json.fits kindDepth) then decode? v else none

theorem ofText_eq (text : String) : ofText text =
    match written? text with
    | none => .error .malformed
    | some m =>
      match m.firstBrokenLink? with
      | some (e, link) => .error (.brokenLink e.namespaceName e.name link m.entities.length)
      | none => .ok m.reindex := by
  unfold ofText written?
  cases Json.parse? text with
  | none => rfl
  | some v =>
    by_cases hkinds : (writtenKinds v).all (Json.fits kindDepth) = true
    · cases hm : decode? v with
      | none => simp only [Option.bind_some, if_pos hkinds, ofJson, hm]
      | some m =>
        cases hbroken : m.firstBrokenLink? <;>
          simp only [Option.bind_some, if_pos hkinds, ofJson, hm, hbroken]
    · simp only [Option.bind_some, if_neg hkinds]

/-! ### Broken links -/

/-- The link is the first one of the model that leads beyond the last entity, and `e` has it. -/
structure BreaksAt (m : Model) (e : Entity) (link : EntityId) : Prop where
  exists_entities : ∃ before after, m.entities = before ++ e :: after ∧
    ∀ other ∈ before, ∀ link ∈ other.links, link < m.entities.length
  exists_links : ∃ before after, e.links = before ++ link :: after ∧
    ∀ other ∈ before, other < m.entities.length
  length_le : m.entities.length ≤ link

theorem firstBrokenLink?_eq_some_iff {e : Entity} {link : EntityId} :
    m.firstBrokenLink? = some (e, link) ↔ m.BreaksAt e link := by
  simp only [firstBrokenLink?, List.findSome?_eq_some_iff, Option.map_eq_some_iff,
    Prod.mk.injEq, Option.map_eq_none_iff, List.find?_eq_some_iff_append, List.find?_eq_none,
    decide_eq_true_eq, Bool.not_eq_true', decide_eq_false_iff_not, Nat.not_le]
  constructor
  · rintro ⟨before, _, after, hentities, ⟨_, ⟨hle, hlinks⟩, rfl, rfl⟩, hbefore⟩
    exact ⟨⟨before, after, hentities, hbefore⟩, hlinks, hle⟩
  · rintro ⟨⟨before, after, hentities, hbefore⟩, hlinks, hle⟩
    exact ⟨before, e, after, hentities, ⟨link, ⟨hle, hlinks⟩, rfl, rfl⟩, hbefore⟩

theorem isLinked_iff :
    m.IsLinked ↔ ∀ e ∈ m.entities, ∀ link ∈ e.links, link < m.entities.length := by
  refine forall₂_congr fun e _ => ?_
  simp only [Entity.links, List.mem_append, List.mem_filterMap, Option.mem_toList, Option.mem_def]
  constructor
  · rintro ⟨hbase, hmap, hproperties⟩ link ((⟨p, hp, hlink⟩ | hlink) | hlink)
    exacts [hproperties p hp link hlink, hbase link hlink, hmap link hlink]
  · intro h
    exact ⟨fun link hlink => h link (.inl (.inr hlink)), fun link hlink => h link (.inr hlink),
      fun p hp link hlink => h link (.inl (.inl ⟨p, hp, hlink⟩))⟩

theorem firstBrokenLink?_eq_none_iff : m.firstBrokenLink? = none ↔ m.IsLinked := by
  simp [firstBrokenLink?, isLinked_iff, List.findSome?_eq_none_iff]

/-! ### Added namespaces -/

/-- The names that are added are those of entities that no namespace has, in the order of first
use. -/
theorem missingNamespaces_eq (m : Model) : m.missingNamespaces =
    ((m.entities.map Entity.namespaceName).filter fun name =>
      ∀ n ∈ m.namespaces, n.name ≠ name).eraseDups := by
  have hlisted : ∀ name,
      (m.namespace? name).isSome = true ↔ ¬∀ n ∈ m.namespaces, n.name ≠ name := by
    simp [namespace?]
  rw [missingNamespaces]
  -- The namespaces of the model stay as they are while its entities are gone through.
  generalize m.entities = es
  induction es using List.reverseRecOn with
  | nil => rfl
  | append_singleton es e ih =>
    rw [List.foldl_append, List.foldl_cons, List.foldl_nil, ih, List.map_append, List.filter_append]
    by_cases hname : ∀ n ∈ m.namespaces, n.name ≠ e.namespaceName
    · have hnone : (m.namespace? e.namespaceName).isSome = false := by
        simpa using mt (hlisted _).mp (not_not_intro hname)
      have hlast : ([e].map Entity.namespaceName).filter (fun name =>
          ∀ n ∈ m.namespaces, n.name ≠ name) = [e.namespaceName] := by
        simpa using hname
      rw [hlast, eraseDups_concat, hnone]
      simp
    · have hsome : (m.namespace? e.namespaceName).isSome = true := (hlisted _).mpr hname
      have hlast : ([e].map Entity.namespaceName).filter (fun name =>
          ∀ n ∈ m.namespaces, n.name ≠ name) = [] := by
        simpa using hname
      rw [hlast, List.append_nil, hsome]
      simp

/-! ### Normal forms -/

/-- Entities carry their positions, links lead to entities, and all namespaces are listed. -/
structure IsNormal (m : Model) : Prop where
  indexed : m.IsIndexed
  linked : m.IsLinked
  listed : ∀ e ∈ m.entities, ∃ n ∈ m.namespaces, n.name = e.namespaceName

theorem exists_of_mem_reindex {e : Entity} (h : e ∈ m.reindex.entities) :
    ∃ e' ∈ m.entities, ∃ i, e = { e' with id := i } := by
  obtain ⟨i, hi, rfl⟩ := List.mem_mapIdx.mp h
  exact ⟨m.entities[i], List.getElem_mem hi, i, rfl⟩

theorem length_reindex (m : Model) : m.reindex.entities.length = m.entities.length :=
  List.length_mapIdx

theorem isNormal_reindex (h : m.IsLinked) : m.reindex.IsNormal where
  indexed := by
    refine List.ext_getElem (by simp) fun i _ _ => ?_
    simp [reindex]
  linked := by
    rw [isLinked_iff, length_reindex]
    intro e he
    obtain ⟨e', he', i, rfl⟩ := exists_of_mem_reindex he
    exact isLinked_iff.mp h e' he'
  listed := by
    intro e he
    obtain ⟨e', he', i, rfl⟩ := exists_of_mem_reindex he
    by_cases hname : ∀ n ∈ m.namespaces, n.name ≠ e'.namespaceName
    · have hmissing : e'.namespaceName ∈ m.missingNamespaces := by
        rw [missingNamespaces_eq, List.mem_eraseDups, List.mem_filter]
        exact ⟨List.mem_map_of_mem he', by simpa using hname⟩
      exact ⟨.core e'.namespaceName,
        List.mem_append_right _ (List.mem_map_of_mem hmissing), rfl⟩
    · push Not at hname
      obtain ⟨n, hn, heq⟩ := hname
      exact ⟨n, List.mem_append_left _ hn, heq⟩

/-- A model in normal form has nothing to be assigned or added. -/
theorem IsNormal.reindex_eq (h : m.IsNormal) : m.reindex = m := by
  have hmissing : m.missingNamespaces = [] := by
    have hfilter : (m.entities.map Entity.namespaceName).filter (fun name =>
        ∀ n ∈ m.namespaces, n.name ≠ name) = [] := by
      refine List.filter_eq_nil_iff.mpr fun name hname hnone => ?_
      obtain ⟨e, he, rfl⟩ := List.mem_map.mp hname
      obtain ⟨n, hn, heq⟩ := h.listed e he
      exact of_decide_eq_true hnone n hn heq
    rw [missingNamespaces_eq, hfilter, List.eraseDups_nil]
  have hentities : m.entities.mapIdx (fun i e => { e with id := i }) = m.entities := by
    refine List.ext_getElem? fun i => ?_
    rw [List.getElem?_mapIdx]
    cases he : m.entities[i]? with
    | none => rfl
    | some e =>
      have hid : e.id = i := h.indexed.id_of_entity? he
      rw [Option.map_some, ← hid]
  rw [reindex, hmissing, hentities, List.map_nil, List.append_nil]

/-! ### Loading -/

theorem IsNormal.entity_inRange (h : m.IsNormal)
    (hkinds : ∀ e ∈ m.entities, ∀ p ∈ e.properties, p.kind.InRange)
    (hcount : m.entities.length ≤ 0x10000000000000000) : ∀ e ∈ m.entities, e.InRange := by
  intro e he
  obtain ⟨hbase, hmap, hproperties⟩ := h.linked e he
  have hid : e.id < m.entities.length := by
    obtain ⟨hlt, -⟩ := List.getElem?_eq_some_iff.mp (h.indexed.entity?_id he)
    exact hlt
  exact {
    id_lt := hid.trans_le hcount
    property := fun p hp => ⟨hkinds e he p hp, fun link hlink =>
      (hproperties p hp link hlink).trans_le hcount⟩
    baseEntity_lt := fun link hlink => (hbase link hlink).trans_le hcount
    mapType_lt := fun link hlink => (hmap link hlink).trans_le hcount }

/-- The text of a model writes the model. -/
theorem written?_render_encode (h : ∀ e ∈ m.entities, e.InRange) :
    written? m.encode.render = some m := by
  have hkinds := all_fits_writtenKinds fun e he p hp => ((h e he).property p hp).kind
  rw [written?, m.isPlain_encode.parse?_render, Option.bind_some, if_pos hkinds, decode?_encode h]

theorem inRange_kind_of_written? {text : String} (h : written? text = some m) :
    ∀ e ∈ m.entities, ∀ p ∈ e.properties, p.kind.InRange := by
  obtain ⟨v, -, hv⟩ := Option.bind_eq_some_iff.mp h
  split_ifs at hv
  exact inRange_kind_of_decode? hv

theorem ofText_eq_ok_iff {text : String} {r : Model} (h : written? text = some m) :
    ofText text = .ok r ↔ m.IsLinked ∧ r = m.reindex := by
  simp only [ofText_eq, h, ← firstBrokenLink?_eq_none_iff]
  cases m.firstBrokenLink? <;> simp [eq_comm]

theorem ofText_eq_error_iff {text : String} {cause : LoadError} (h : written? text = some m) :
    ofText text = .error cause ↔ ∃ e link, m.BreaksAt e link ∧
      cause = .brokenLink e.namespaceName e.name link m.entities.length := by
  simp only [ofText_eq, h, ← firstBrokenLink?_eq_some_iff]
  cases m.firstBrokenLink? with
  | none => simp
  | some broken =>
    obtain ⟨e, link⟩ := broken
    constructor
    · intro hcause
      exact ⟨e, link, rfl, (Except.error.inj hcause).symm⟩
    · rintro ⟨_, _, hbroken, rfl⟩
      cases hbroken
      rfl

theorem ofText_eq_malformed_iff (text : String) :
    ofText text = .error .malformed ↔ written? text = none := by
  cases hm : written? text with
  | none => simp [ofText_eq, hm]
  | some m => simp [ofText_eq_error_iff hm]

/-- A model in normal form comes back from its text. -/
theorem IsNormal.ofText_render_encode (h : m.IsNormal) (hrange : ∀ e ∈ m.entities, e.InRange) :
    ofText m.encode.render = .ok m :=
  (ofText_eq_ok_iff (written?_render_encode hrange)).mpr ⟨h.linked, h.reindex_eq.symm⟩

/-- A text that is no model is malformed. If a text writes a model `m`, loading it fails exactly for
the first link of `m` that leads beyond the last entity, and names this link and its owner. If all
links of `m` lead to entities, loading succeeds. In the result, entities carry their positions,
links lead to entities, and the namespaces of all entities are listed. The result differs from `m`
only by the positions and by core namespaces at the end, once each for the names that entities use
and `m` does not list, in the order of first use. Written as a text and loaded again it comes back,
as long as positions have 64 bits. -/
theorem ofText_normalises (text : String) :
    (ofText text = .error .malformed ↔ written? text = none) ∧
    ∀ m, written? text = some m →
      (∀ cause, ofText text = .error cause ↔ ∃ e link, m.BreaksAt e link ∧
        cause = .brokenLink e.namespaceName e.name link m.entities.length) ∧
      ((∃ r, ofText text = .ok r) ↔ m.IsLinked) ∧
      ∀ r, ofText text = .ok r →
        r.IsIndexed ∧ r.IsLinked ∧
        (∀ e ∈ r.entities, ∃ n ∈ r.namespaces, n.name = e.namespaceName) ∧
        r.entities.map (fun e => { e with id := 0 }) =
          m.entities.map (fun e => { e with id := 0 }) ∧
        r.namespaces = m.namespaces ++
          (((m.entities.map Entity.namespaceName).filter fun name =>
            ∀ n ∈ m.namespaces, n.name ≠ name).eraseDups.map .core) ∧
        (r.entities.length ≤ 0x10000000000000000 → ofText r.encode.render = .ok r) := by
  refine ⟨ofText_eq_malformed_iff text, fun m hm =>
    ⟨fun cause => ofText_eq_error_iff hm, ?_, fun r hr => ?_⟩⟩
  · simp only [ofText_eq_ok_iff hm, exists_and_left, exists_eq, and_true]
  · obtain ⟨hlinked, rfl⟩ := (ofText_eq_ok_iff hm).mp hr
    have hnormal := isNormal_reindex hlinked
    have hkinds : ∀ e ∈ m.reindex.entities, ∀ p ∈ e.properties, p.kind.InRange := by
      intro e he
      obtain ⟨e', he', i, rfl⟩ := exists_of_mem_reindex he
      exact inRange_kind_of_written? hm e' he'
    refine ⟨hnormal.indexed, hnormal.linked, hnormal.listed, ?_, ?_, fun hcount => ?_⟩
    · refine List.ext_getElem (by simp [length_reindex]) fun i _ _ => ?_
      simp [reindex]
    · rw [← missingNamespaces_eq]
      rfl
    · exact hnormal.ofText_render_encode (hnormal.entity_inRange hkinds hcount)

/-- An entity at a position that is not its own, in a namespace that is not listed. -/
def periodText : String :=
  "\x7b\"entities\":[\x7b\"id\":7,\"kind\":\"common\",\"metaEdName\":\"Period\"," ++
    "\"namespace\":\"EdFi\"\x7d]\x7d"

/-- The same entity, with the members of all records by position. -/
def periodRow : String :=
  "[[],[[7,\"common\",\"Period\",\"EdFi\"]]]"

theorem ofText_normalises_period : ∃ m r, written? periodText = some m ∧
    written? periodRow = some m ∧ m.entities.map Entity.id = [7] ∧ m.namespaces = [] ∧
    ofText periodText = .ok r ∧ r.entities.map Entity.id = [0] ∧ r.namespaces = [.core "EdFi"] ∧
    ofText periodRow = .ok r ∧ ofText r.encode.render = .ok r := by
  have hwritten : (written? periodText).any (fun m => m.IsLinked ∧ written? periodRow = some m ∧
      m.entities.map Entity.id = [7] ∧ m.namespaces = [] ∧
      m.entities.map Entity.namespaceName = ["EdFi"]) = true := by
    decide +kernel
  obtain ⟨m, hm, hfacts⟩ := (Option.any_eq_true _ _).mp hwritten
  obtain ⟨hlinked, hrow, hids, hnone, hnames⟩ := of_decide_eq_true hfacts
  obtain ⟨-, hok, hresult⟩ := (ofText_normalises periodText).2 m hm
  obtain ⟨r, hr⟩ := hok.mpr hlinked
  obtain ⟨hindexed, -, -, hsame, hnamespaces, hagain⟩ := hresult r hr
  have hcount : r.entities.length = 1 := by
    have hsize := congrArg List.length hsame
    have hone := congrArg List.length hids
    rw [List.length_map, List.length_map] at hsize
    rw [List.length_map] at hone
    exact hsize.trans hone
  have hrowOk : ofText periodRow = .ok r := by rw [ofText_eq, hrow, ← hm, ← ofText_eq, hr]
  refine ⟨m, r, hm, hrow, hids, hnone, hr, ?_, ?_, hrowOk, hagain (by omega)⟩
  · rw [hindexed, hcount]
    rfl
  · rw [hnamespaces, hnames, hnone]
    decide

end Tabular.Model
