import Mathlib.Tactic.Common
import Tabular.Proofs.Derive.Paths

/-!
# Scopes of merge directives

A reference that carries merge directives opens a scope: the source paths of the directives, and the
names of the properties passed since. Scopes are nested. Only the innermost one takes note of the
properties that are passed, and commons and choices are not noted at all; a scope that no path leads
through any more is closed, and the one around it takes effect again with the names it had noted
before. A property is left out where a path of the innermost scope ends.

This file shows that strategies behave in exactly this way, and says when merge directives remove
nothing but merged paths.

## Main definitions

* `MergeScope`, `MergeScope.keeps`: nested scopes along a chain.
* `isMerged`: a chain that a merge directive replaces, read from the property that declares it.
* `Undisturbed`: a chain on which no scope meets another one, a common or a choice.

## Main results

* `Strategy.Follows.admits`: strategies let pass the chains that scopes keep.
* `MergeScope.keeps_of_not_isMerged`: on an undisturbed chain only merged paths are left out.
* `removesOnlyMerged_iff`: when merge directives remove nothing but merged paths.
-/

namespace Tabular

/-- The source paths of the merge directives of a reference. -/
def Hop.scopePaths : Hop → List (List String)
  | .column d => if d.property.kind.columnRule = .reference then d.property.mergedPaths else []
  | .inlined _ => []

/-- Whether scopes note the property: commons and choices are not noted. -/
def Hop.isNoted : Hop → Bool
  | .column d => d.property.kind ≠ .common && d.property.kind ≠ .choice
  | .inlined _ => true

/-- The scope of the merge directives of a reference: their source paths, and the names noted since
the scope was opened, that of the reference included. -/
structure MergeScope where
  paths : List (List String)
  seen : List String
  deriving DecidableEq

namespace MergeScope

/-- Whether a path of the scope leads through a property of the given name. -/
def leadsThrough (scope : MergeScope) (name : String) : Bool :=
  scope.paths.any fun path => scope.seen ++ [name] <+: path

/-- Whether a path of the scope ends at a property of the given name and none leads beyond it. -/
def endsAt (scope : MergeScope) (name : String) : Bool :=
  scope.leadsThrough name &&
    scope.paths.all fun path => !(scope.seen ++ [name] <+: path) || path = scope.seen ++ [name]

/-- The scopes beyond a property of the given name. The innermost scope notes the name, or is closed
if no path leads through the property. -/
def note (name : String) : List MergeScope → List MergeScope
  | [] => []
  | scope :: outer =>
    if scope.leadsThrough name then { scope with seen := scope.seen ++ [name] } :: outer else outer

/-- The scopes beyond a property. -/
def enter (scopes : List MergeScope) (h : Hop) : List MergeScope :=
  if h.isNoted then
    note h.name (if h.scopePaths.isEmpty then scopes else ⟨h.scopePaths, []⟩ :: scopes)
  else scopes

/-- Whether a property is not left out. -/
def spares (scopes : List MergeScope) : Hop → Bool
  | .inlined _ => true
  | h@(.column _) => !scopes.head?.any fun scope => scope.endsAt h.name

/-- Whether no property of a chain is left out. -/
def keeps : List MergeScope → List Hop → Bool
  | _, [] => true
  | scopes, h :: rest => spares scopes h && keeps (enter scopes h) rest

/-! ### Scopes and skip layers -/

/-- What remains of the paths of a scope that start with the names noted. -/
def remaining (scope : MergeScope) : List (List String) :=
  (scope.paths.filter fun path => scope.seen <+: path).map (List.drop scope.seen.length)

theorem remaining_of_seen_nil (paths : List (List String)) : remaining ⟨paths, []⟩ = paths := by
  have hdrop : (List.drop 0 : List String → List String) = id := funext fun _ => List.drop_zero
  simp [remaining, hdrop]

theorem append_singleton_isPrefix_iff {seen path : List String} {name : String} :
    seen ++ [name] <+: path ↔ seen <+: path ∧ (path.drop seen.length).head? = some name := by
  constructor
  · rintro ⟨rest, rfl⟩
    exact ⟨⟨name :: rest, by simp⟩, by simp⟩
  · rintro ⟨⟨rest, rfl⟩, hhead⟩
    rw [List.drop_left] at hhead
    obtain ⟨tail, rfl⟩ := List.head?_eq_some_iff.mp hhead
    exact ⟨tail, by simp⟩

/-- The remaining paths through a property. -/
theorem filter_remaining (scope : MergeScope) (name : String) :
    (scope.remaining.filter fun path => path.head? = some name) =
      (scope.paths.filter fun path => scope.seen ++ [name] <+: path).map
        (List.drop scope.seen.length) := by
  rw [remaining, List.filter_map, List.filter_filter]
  congr 2
  funext path
  simp [append_singleton_isPrefix_iff, Bool.and_comm]

/-- The remaining paths through a property, seen from it. -/
theorem tails_remaining (scope : MergeScope) (name : String) :
    (scope.remaining.filter fun path => path.head? = some name).map List.tail =
      remaining { scope with seen := scope.seen ++ [name] } := by
  rw [filter_remaining, remaining, List.map_map]
  refine List.map_congr_left fun path _ => ?_
  simp [List.tail_drop]

theorem remaining_eq_nil_iff (scope : MergeScope) (name : String) :
    remaining { scope with seen := scope.seen ++ [name] } = [] ↔
      scope.leadsThrough name = false := by
  simp [remaining, leadsThrough, List.filter_eq_nil_iff]

theorem rerootPaths_remaining (name : String) (scopes : List MergeScope) :
    Strategy.rerootPaths name (scopes.map remaining) = (note name scopes).map remaining := by
  cases scopes with
  | nil => rfl
  | cons scope outer =>
    rw [List.map_cons, Strategy.rerootPaths, tails_remaining, note]
    cases hthrough : scope.leadsThrough name with
    | false =>
      rw [(remaining_eq_nil_iff scope name).mpr hthrough]
      rfl
    | true =>
      have hne : remaining { scope with seen := scope.seen ++ [name] } ≠ [] := by
        rw [Ne, remaining_eq_nil_iff, hthrough]
        exact Bool.noConfusion
      split
      · contradiction
      · rfl

private theorem one_lt_length_drop_iff {seen path : List String} {name : String}
    (h : seen ++ [name] <+: path) :
    1 < (path.drop seen.length).length ↔ path ≠ seen ++ [name] := by
  obtain ⟨rest, rfl⟩ := h
  cases rest <;> simp

/-- The rule for skipped properties in terms of scopes. -/
theorem through_remaining (scope : MergeScope) (name : String) :
    ((scope.remaining.filter fun path => path.head? = some name).isEmpty ||
      (scope.remaining.filter fun path => path.head? = some name).any fun path =>
        1 < path.length) = !scope.endsAt name := by
  rw [filter_remaining, Bool.eq_iff_iff]
  simp only [endsAt, leadsThrough, Bool.or_eq_true, List.isEmpty_iff, List.map_eq_nil_iff,
    List.filter_eq_nil_iff, List.any_map, List.any_eq_true, List.mem_filter, Function.comp_apply,
    decide_eq_true_eq, Bool.not_eq_true', Bool.and_eq_false_iff, List.any_eq_false,
    List.all_eq_false, decide_eq_false_iff_not, not_or, not_not]
  refine or_congr Iff.rfl (exists_congr fun path => ?_)
  constructor
  · rintro ⟨⟨hmem, hpath⟩, hlong⟩
    exact ⟨hmem, hpath, (one_lt_length_drop_iff hpath).mp hlong⟩
  · rintro ⟨hmem, hpath, hne⟩
    exact ⟨⟨hmem, hpath⟩, (one_lt_length_drop_iff hpath).mpr hne⟩

end MergeScope

namespace Strategy

variable {s : Strategy} {scopes : List MergeScope}

/-- The skip layers of a strategy are what remains of nested scopes, and none of them is the latest
layer. -/
structure Follows (s : Strategy) (scopes : List MergeScope) : Prop where
  skips : s.skips = scopes.map MergeScope.remaining
  latest : dropLeadingSkip s.layers = s.layers

theorem follows_root : root.Follows [] :=
  ⟨rfl, rfl⟩

theorem Follows.append (h : s.Follows scopes) (p : Property) :
    (s.append p).Follows (MergeScope.note p.fullName scopes) where
  skips := by rw [skips_append, h.skips, MergeScope.rerootPaths_remaining]
  latest := rfl

theorem Follows.suppressKeys (h : s.Follows scopes) : s.suppressKeys.Follows scopes :=
  ⟨h.skips, rfl⟩

private theorem Follows.push (h : s.Follows scopes) (paths : List (List String)) :
    (s.skipPaths paths).skips = (⟨paths, []⟩ :: scopes).map MergeScope.remaining := by
  rw [List.map_cons, MergeScope.remaining_of_seen_nil, ← h.skips]
  change paths :: (dropLeadingSkip s.layers).filterMap Layer.skip? = _
  rw [h.latest]
  rfl

/-- A reference opens a scope if it carries merge directives, and is noted. -/
private theorem Follows.merging_append (h : s.Follows scopes) (p : Property) :
    ((s.merging p).append p).Follows (MergeScope.note p.fullName
      (if p.mergedPaths.isEmpty then scopes else ⟨p.mergedPaths, []⟩ :: scopes)) := by
  refine ⟨?_, rfl⟩
  rw [skips_append, ← MergeScope.rerootPaths_remaining]
  congr 1
  have hempty : p.mergedPaths.isEmpty = p.mergeDirectives.isEmpty := by
    simp [Property.mergedPaths]
  rw [hempty, merging]
  split_ifs
  · exact h.skips
  · exact h.push p.mergedPaths

theorem Follows.inside (h : s.Follows scopes) (hop : Hop) :
    (s.inside hop).Follows (MergeScope.enter scopes hop) := by
  cases hop with
  | inlined d => exact h.append d.property
  | column d =>
    cases hkind : d.property.kind with
    | association | domainEntity =>
      simpa [Strategy.inside, MergeScope.enter, Hop.isNoted, Hop.scopePaths, Hop.name,
        Hop.declaration, hkind, PropertyKind.columnRule] using h.merging_append d.property
    | common | choice =>
      cases hoptional : d.property.isOptional with
      | true =>
        simpa [Strategy.inside, MergeScope.enter, Hop.isNoted, hkind, PropertyKind.columnRule,
          KeyDerivation.compositeStrategy, hoptional] using h.suppressKeys
      | false =>
        simpa [Strategy.inside, MergeScope.enter, Hop.isNoted, hkind, PropertyKind.columnRule,
          KeyDerivation.compositeStrategy, hoptional] using h
    | inlineCommon =>
      have happend := h.append d.property
      cases hoptional : d.property.isOptional with
      | true =>
        simpa [Strategy.inside, MergeScope.enter, Hop.isNoted, Hop.scopePaths, Hop.name,
          Hop.declaration, hkind, PropertyKind.columnRule, KeyDerivation.compositeStrategy,
          hoptional] using happend.suppressKeys
      | false =>
        simpa [Strategy.inside, MergeScope.enter, Hop.isNoted, Hop.scopePaths, Hop.name,
          Hop.declaration, hkind, PropertyKind.columnRule, KeyDerivation.compositeStrategy,
          hoptional] using happend
    | scalar | descriptor | enumeration | schoolYearEnumeration =>
      simpa [Strategy.inside, MergeScope.enter, Hop.isNoted, Hop.scopePaths, Hop.name,
        Hop.declaration, hkind, PropertyKind.columnRule] using h.append d.property

theorem Follows.passes (h : s.Follows scopes) (hop : Hop) :
    s.passes hop = MergeScope.spares scopes hop := by
  cases hop with
  | inlined d => rfl
  | column d =>
    cases scopes with
    | nil => exact buildsColumns_of_skips_eq_nil h.skips d.property
    | cons scope outer =>
      have hpaths : s.skippedPaths? = some scope.remaining := by
        rw [skippedPaths?_eq, h.skips]
        rfl
      simp only [Strategy.passes, MergeScope.spares, buildsColumns, hpaths, List.head?_cons,
        Option.any_some]
      exact scope.through_remaining d.property.fullName

/-- Strategies let pass the chains that scopes keep. -/
theorem Follows.admits (h : s.Follows scopes) (ch : List Hop) :
    s.admits ch = MergeScope.keeps scopes ch := by
  induction ch generalizing s scopes with
  | nil => rfl
  | cons hop rest ih => rw [Strategy.admits, MergeScope.keeps, h.passes hop, ih (h.inside hop)]

end Strategy

/-! ### Merged paths -/

/-- Whether the chain, read from some property on it, starts with the source path of a merge
directive of that property. -/
def isMerged : List Hop → Bool
  | [] => false
  | h :: rest =>
    (h.scopePaths.any fun path => path <+: (h :: rest).map Hop.name) || isMerged rest

/-- No property with merge directives lies further out than another one, or than a common or
choice. -/
def Undisturbed (ch : List Hop) : Prop :=
  ch.Pairwise fun h k => h.scopePaths ≠ [] → k.scopePaths = [] ∧ k.isNoted = true

namespace MergeScope

private theorem spares_nil (h : Hop) : spares [] h = true := by
  cases h <;> rfl

private theorem enter_nil {h : Hop} (hpaths : h.scopePaths = []) : enter [] h = [] := by
  simp [enter, hpaths, note]

/-- Without scopes and without properties that open one, a chain is kept. -/
theorem keeps_nil {ch : List Hop} (hpaths : ∀ h ∈ ch, h.scopePaths = []) : keeps [] ch = true := by
  induction ch with
  | nil => rfl
  | cons h rest ih =>
    rw [List.forall_mem_cons] at hpaths
    rw [keeps, spares_nil, enter_nil hpaths.1, Bool.true_and]
    exact ih hpaths.2

/-- Where a scope leaves out a property, one of its paths has been passed. -/
private theorem mem_paths_of_not_spares {scope : MergeScope} {outer : List MergeScope} {h : Hop}
    (hspares : spares (scope :: outer) h = false) : scope.seen ++ [h.name] ∈ scope.paths := by
  cases h with
  | inlined d => simp [spares] at hspares
  | column d =>
    have hends : scope.endsAt (Hop.column d).name = true := by
      simpa [spares] using hspares
    simp only [endsAt, leadsThrough, Bool.and_eq_true, List.any_eq_true, List.all_eq_true,
      decide_eq_true_eq, Bool.or_eq_true, Bool.not_eq_true', decide_eq_false_iff_not] at hends
    obtain ⟨⟨path, hmem, hpath⟩, hall⟩ := hends
    rcases hall path hmem with hnot | heq
    · exact absurd hpath hnot
    · exact heq ▸ hmem

/-- A scope that is not disturbed leaves out nothing but the paths that start with one of its
own. -/
theorem keeps_singleton {scope : MergeScope} {ch : List Hop}
    (hundisturbed : ∀ h ∈ ch, h.scopePaths = [] ∧ h.isNoted = true)
    (hpaths : ∀ path ∈ scope.paths, ¬path <+: scope.seen ++ ch.map Hop.name) :
    keeps [scope] ch = true := by
  induction ch generalizing scope with
  | nil => rfl
  | cons h rest ih =>
    rw [List.forall_mem_cons] at hundisturbed
    obtain ⟨⟨hopens, hnoted⟩, hrest⟩ := hundisturbed
    have hspares : spares [scope] h = true := by
      by_contra hspares
      have hmem := mem_paths_of_not_spares (Bool.eq_false_iff.mpr hspares)
      exact hpaths _ hmem ⟨rest.map Hop.name, by simp⟩
    have henter : enter [scope] h = note h.name [scope] := by simp [enter, hopens, hnoted]
    rw [keeps, hspares, Bool.true_and, henter, note]
    split_ifs
    · refine ih hrest fun path hmem hprefix => hpaths path hmem ?_
      simpa using hprefix
    · exact keeps_nil fun k hk => (hrest k hk).1

/-- On an undisturbed chain merge directives leave out nothing but merged paths. -/
theorem keeps_of_not_isMerged {ch : List Hop} (hundisturbed : Undisturbed ch)
    (hmerged : isMerged ch = false) : keeps [] ch = true := by
  induction ch with
  | nil => rfl
  | cons h rest ih =>
    rw [Undisturbed, List.pairwise_cons] at hundisturbed
    rw [isMerged, Bool.or_eq_false_iff] at hmerged
    by_cases hopens : h.scopePaths = []
    · rw [keeps, spares_nil, enter_nil hopens, Bool.true_and]
      exact ih hundisturbed.2 hmerged.2
    · -- the scope of the first property is the only one
      have hpaths : ∀ path ∈ h.scopePaths, ¬path <+: [h.name] ++ rest.map Hop.name := by
        intro path hmem hprefix
        have hnot := List.any_eq_false.mp hmerged.1 path hmem
        exact hnot (by simpa using hprefix)
      have hnext : ∀ k ∈ rest, k.scopePaths = [] ∧ k.isNoted = true := fun k hk =>
        hundisturbed.1 k hk hopens
      rw [keeps, spares_nil, Bool.true_and, enter]
      split_ifs with hnoted hempty
      · exact absurd (List.isEmpty_iff.mp hempty) hopens
      · rw [note]
        split_ifs
        · exact keeps_singleton hnext hpaths
        · exact keeps_nil fun k hk => (hnext k hk).1
      · exact keeps_nil fun k hk => (hnext k hk).1

end MergeScope

/-! ### The columns that merge directives leave -/

/-- Merge directives remove from the columns of a property nothing but merged paths: every chain of
the property that is not merged ends in a column with the name and path of one that is left. -/
def Model.RemovesOnlyMerged (m : Model) (d : Declaration) (left : List Column) : Prop :=
  ∀ ch u, m.Chain (.columns d) ch → Strategy.root.columnOf? ch = some u → isMerged ch = false →
    ∃ c ∈ left, c.id = u.id ∧ c.propertyPath = u.propertyPath

variable {m : Model} {d : Declaration} {us cs : List Column}

/-- The columns of a property without merge directives are those of all chains. -/
theorem mem_columns_withoutMerges_iff
    (h : m.withoutMerges.columns d.withoutMerges .root = .ok us) {u : Column} :
    u ∈ us ↔ ∃ ch, m.Chain (.columns d) ch ∧ Strategy.root.columnOf? ch = some u := by
  rw [Model.mem_columns_iff h]
  constructor
  · rintro ⟨ch₀, hch₀, -, hu⟩
    obtain ⟨ch, hch, rfl⟩ := (Model.chain_withoutMerges_iff (q := .columns d)).mp hch₀
    exact ⟨ch, hch, (Strategy.columnOf?_map_withoutMerges _ ch).symm.trans hu⟩
  · rintro ⟨ch, hch, hu⟩
    refine ⟨ch.map Hop.withoutMerges, hch.withoutMerges, ?_, ?_⟩
    · refine Strategy.admits_of_mergeFree rfl fun h hh => ?_
      obtain ⟨k, -, rfl⟩ := List.mem_map.mp hh
      cases k <;> rfl
    · rw [Strategy.columnOf?_map_withoutMerges, hu]

/-- The columns of a property are those of the chains that scopes keep. -/
theorem mem_columns_root_iff (h : m.columns d .root = .ok cs) {c : Column} :
    c ∈ cs ↔ ∃ ch, m.Chain (.columns d) ch ∧ MergeScope.keeps [] ch = true ∧
      Strategy.root.columnOf? ch = some c := by
  rw [Model.mem_columns_iff h]
  simp only [Model.Yields, Strategy.follows_root.admits]

/-- If the columns of a property can be derived without merge directives, they can be derived with
them. Merge directives then remove nothing but merged paths exactly if every chain that is not
merged shares its name and path with one that scopes keep; chains on which no scope is disturbed
are kept unless they are merged. -/
theorem removesOnlyMerged_iff (m : Model) (d : Declaration) {us : List Column}
    (hplain : m.withoutMerges.columns d.withoutMerges .root = .ok us) :
    ∃ cs, m.columns d .root = .ok cs ∧
      (∀ u, u ∈ us ↔ ∃ ch, m.Chain (.columns d) ch ∧ Strategy.root.columnOf? ch = some u) ∧
      (m.RemovesOnlyMerged d cs ↔
        ∀ ch u, m.Chain (.columns d) ch → Strategy.root.columnOf? ch = some u →
          isMerged ch = false →
          ∃ ch' u', m.Chain (.columns d) ch' ∧ MergeScope.keeps [] ch' = true ∧
            Strategy.root.columnOf? ch' = some u' ∧ u'.id = u.id ∧
            u'.propertyPath = u.propertyPath) ∧
      (∀ ch u, m.Chain (.columns d) ch → Strategy.root.columnOf? ch = some u →
        isMerged ch = false → Undisturbed ch → u ∈ cs) ∧
      ∀ ch u, m.Chain (.columns d) ch → Strategy.root.columnOf? ch = some u →
        (∀ h ∈ ch, h.name ≠ "" ∧ '.' ∉ h.name.toList) →
        Text.segments u.propertyPath = ch.map Hop.name := by
  obtain ⟨cs, hcs⟩ : ∃ cs, m.columns d .root = .ok cs := by
    refine KeyDerivation.exists_ask_of_withoutMerges m m.depthLimit (.columns d) .root .root rfl
      ⟨us, ?_⟩
    rw [← m.depthLimit_withoutMerges]
    exact hplain
  refine ⟨cs, hcs, fun u => mem_columns_withoutMerges_iff hplain, ?_, ?_, ?_⟩
  · refine forall_congr' fun ch => forall_congr' fun u => imp_congr_right fun _ =>
      imp_congr_right fun _ => imp_congr_right fun _ => ?_
    constructor
    · rintro ⟨c, hc, hid, hpath⟩
      obtain ⟨ch', hch', hkeeps, hcolumn⟩ := (mem_columns_root_iff hcs).mp hc
      exact ⟨ch', c, hch', hkeeps, hcolumn, hid, hpath⟩
    · rintro ⟨ch', c, hch', hkeeps, hcolumn, hid, hpath⟩
      exact ⟨c, (mem_columns_root_iff hcs).mpr ⟨ch', hch', hkeeps, hcolumn⟩, hid, hpath⟩
  · intro ch u hch hu hmerged hundisturbed
    have hkeeps := MergeScope.keeps_of_not_isMerged hundisturbed hmerged
    exact (mem_columns_root_iff hcs).mpr ⟨ch, hch, hkeeps, hu⟩
  · intro ch u _ hu hnames
    exact Strategy.segments_propertyPath_of_columnOf? hu hnames

/-! ### A scope that takes effect too deep

Sections refer to offerings and merge the school of the offering. An offering refers to a session and
merges its term. Beyond the session the inner scope is closed at the calendar, and the outer one,
which has noted nothing since the offering, takes the school of the calendar for the one it merges.
-/

namespace Offerings

/-- A domain entity at a position. -/
def entity (id : EntityId) (name : String) (properties : List Property) : Entity :=
  { Entity.ofKind .domainEntity "EdFi" name with id := id, properties := properties }

/-- An identity property that holds a number. -/
def number (name : String) : Property :=
  (Property.ofKind name (.scalar .integer)).identity

/-- An identity property that refers to the entity at a position. -/
def reference (name : String) (id : EntityId) : Property :=
  { (Property.ofKind name .domainEntity).identity with referencedEntity := some id }

def school : Entity :=
  entity 0 "School" [number "SchoolId"]

def term : Entity :=
  entity 1 "Term" [number "TermId"]

def calendar : Entity :=
  entity 2 "Calendar" [reference "School" 0]

def session : Entity :=
  entity 3 "Session" [reference "Calendar" 2, reference "Term" 1]

/-- The session of an offering, whose term is merged. -/
def offeredSession : Property :=
  { reference "Session" 3 with
    roleName := "S"
    mergeDirectives := [⟨["SSession", "Term"], ["Term"]⟩] }

def offering : Entity :=
  entity 4 "Offering" [reference "School" 0, offeredSession]

/-- The offering of a section, whose school is merged. -/
def sectionOffering : Property :=
  { (reference "Offering" 4).required with
    mergeDirectives := [⟨["Offering", "School"], ["School"]⟩] }

def courseSection : Entity :=
  entity 5 "Section" [number "SectionId", sectionOffering]

def model : Model :=
  ⟨[.core "EdFi"], [school, term, calendar, session, offering, courseSection]⟩

def declaration : Declaration :=
  ⟨courseSection, 1, sectionOffering⟩

/-- The chain to the school of the calendar, which no directive merges. -/
def chain : List Hop :=
  [.column declaration, .column ⟨offering, 1, offeredSession⟩,
    .column ⟨session, 0, reference "Calendar" 2⟩, .column ⟨calendar, 0, reference "School" 0⟩,
    .column ⟨school, 0, number "SchoolId"⟩]

theorem chain_declaration : model.Chain (.columns declaration) chain :=
  have hschool : model.Chain (.keys school) [.column ⟨school, 0, number "SchoolId"⟩] :=
    .adds (.head _) (.leaf rfl)
  have hcalendar : model.Chain (.keys calendar) (chain.drop 3) :=
    .adds (.head _) (.reference rfl rfl rfl hschool)
  have hsession : model.Chain (.keys session) (chain.drop 2) :=
    .adds (.head _) (.reference rfl rfl rfl hcalendar)
  have hoffering : model.Chain (.keys offering) (chain.drop 1) :=
    .adds (.tail _ (.head _)) (.reference rfl rfl rfl hsession)
  .reference rfl rfl rfl hoffering

end Offerings

/-- For sections merge directives remove more than merged paths: nothing is left of three columns,
although the chain to the school of the calendar is not merged. -/
theorem removesOnlyMerged_iff_offerings :
    ∃ us, Offerings.model.withoutMerges.columns Offerings.declaration.withoutMerges .root = .ok us ∧
      us.map Column.id = ["SchoolId", "SSchoolId", "STermId"] ∧
      Offerings.model.columns Offerings.declaration .root = .ok [] ∧
      isMerged Offerings.chain = false ∧ MergeScope.keeps [] Offerings.chain = false ∧
      ¬Offerings.model.RemovesOnlyMerged Offerings.declaration [] := by
  have hrun : (Offerings.model.withoutMerges.columns Offerings.declaration.withoutMerges
      .root).toOption.any (fun us => us.map Column.id = ["SchoolId", "SSchoolId", "STermId"]) =
        true := by decide +kernel
  obtain ⟨us, hus, hids⟩ := exists_eq_ok_of_any hrun
  obtain ⟨cs, hcs, -⟩ := removesOnlyMerged_iff Offerings.model Offerings.declaration hus
  have hnone : Offerings.model.columns Offerings.declaration .root = .ok [] := by decide +kernel
  obtain rfl : cs = [] := Except.ok.inj (hcs.symm.trans hnone)
  refine ⟨us, hus, by simpa using hids, hnone, by decide, by decide, fun honly => ?_⟩
  obtain ⟨u, hu⟩ := Offerings.chain_declaration.exists_columnOf? .root
  obtain ⟨c, hc, -⟩ := honly Offerings.chain u Offerings.chain_declaration hu (by decide)
  simp at hc

end Tabular
