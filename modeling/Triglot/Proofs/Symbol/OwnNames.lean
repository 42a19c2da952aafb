import Triglot.Proofs.Entries
import Triglot.Proofs.Symbol.Conflict

/-! Whose name a declaration is written under. Other names are kept by qualified name alone, so two
declarations can have one entry between them, whatever their kinds and wherever their namespaces end.
They would then be written alike, and that is a conflict. So without conflicts each declaration is
written under its own name. -/
namespace Triglot

structure Heading where
  ns : String
  name : String
  annotations : Annotations

namespace Heading

def qualified (d : Heading) : String := qualify d.ns d.name

/-- The name of a declaration for a target: the other name that it has there itself, if that is not
blank, or else the one it is declared with. -/
def ownName (t : Target) (d : Heading) : String := (d.annotations.nameFor t).getD d.name

end Heading

def Model.headings (m : Model) : List Heading :=
  (m.enums.map fun e => ⟨e.ns, e.name, e.annotations⟩) ++
    (m.types.map fun t => ⟨t.ns, t.name, t.annotations⟩) ++
    (m.unions.map fun u => ⟨u.ns, u.name, u.annotations⟩)

theorem Model.writtenNames_eq_map (m : Model) (names : NameTable) :
    m.writtenNames names = m.headings.map fun d => names.declaredName d.ns d.name := by
  simp only [writtenNames, perDeclaration, headings, List.map_append, List.map_map]
  rfl

namespace NameTable

variable {m : Model} {t : Target}

theorem mem_build_overrides {q renamed : String} :
    (q, renamed) ∈ (build m t).overrides ↔
      ∃ d ∈ m.headings, d.qualified = q ∧ d.annotations.nameFor t = some renamed := by
  have hbuild : (build m t).overrides =
      m.headings.filterMap fun d => override? t d.ns d.name d.annotations := by
    simp only [build, Model.headings, List.filterMap_append, List.filterMap_map]
    rfl
  have hoverride (d : Heading) : override? t d.ns d.name d.annotations = some (q, renamed) ↔
      d.qualified = q ∧ d.annotations.nameFor t = some renamed := by
    simp only [override?, Option.map_eq_some_iff, Prod.mk.injEq]
    constructor
    · rintro ⟨_, hname, hq, rfl⟩
      exact ⟨hq, hname⟩
    · rintro ⟨hq, hname⟩
      exact ⟨renamed, hname, hq, rfl⟩
  rw [hbuild, List.mem_filterMap]
  simp only [hoverride]

/-- A declaration takes the name that the table has for its qualified name. If no other one is written
alike, then that name was put there by the declaration itself. -/
theorem declaredName_eq_ownName {d : Heading} (hd : d ∈ m.headings)
    (halone : ∀ d' ∈ m.headings,
      (build m t).declaredName d'.ns d'.name = (build m t).declaredName d.ns d.name → d' = d) :
    (build m t).declaredName d.ns d.name = d.ownName t := by
  cases hfound : (build m t).overrides.reverse.lookup d.qualified with
  | some renamed =>
    have hmem : (d.qualified, renamed) ∈ (build m t).overrides :=
      List.mem_reverse.mp (mem_of_lookup hfound)
    obtain ⟨d', hd', hq, hname⟩ := mem_build_overrides.mp hmem
    -- Whoever put the name there has the same qualified name, and so is written alike.
    have hwritten {x : Heading} (hx : x.qualified = d.qualified) :
        (build m t).declaredName x.ns x.name = renamed := by
      have hlookup : (build m t).overrides.reverse.lookup (qualify x.ns x.name) = some renamed := by
        rw [← hfound, ← hx]
        rfl
      rw [declaredName, emittedName, hlookup, Option.getD_some]
    have hsame : d' = d := halone d' hd' ((hwritten hq).trans (hwritten rfl).symm)
    rw [hsame] at hname
    rw [hwritten rfl, Heading.ownName, hname, Option.getD_some]
  | none =>
    have hnone : d.annotations.nameFor t = none := by
      rw [Option.eq_none_iff_forall_ne_some]
      intro renamed hname
      have hmem := mem_build_overrides.mpr ⟨d, hd, rfl, hname⟩
      have hne := List.lookup_eq_none_iff.mp hfound _ (List.mem_reverse.mpr hmem)
      exact absurd rfl (bne_iff_ne.mp hne)
    have hlookup : (build m t).overrides.reverse.lookup (qualify d.ns d.name) = none := hfound
    rw [declaredName, emittedName, hlookup, Heading.ownName, hnone]

/-- No two declarations are in conflict without namespaces exactly if each is written under its own
name and these are distinct. -/
theorem flatConflicts_eq_nil_iff_ownNames (m : Model) (t : Target) :
    (build m t).flatConflicts (.of m) = [] ↔
      (∀ d ∈ m.headings, (build m t).declaredName d.ns d.name = d.ownName t) ∧
        (m.headings.map (Heading.ownName t)).Nodup := by
  rw [flatConflicts_of_eq_nil_iff, Model.writtenNames_eq_map]
  constructor
  · intro hnodup
    have hown : ∀ d ∈ m.headings, (build m t).declaredName d.ns d.name = d.ownName t := by
      intro d hd
      apply declaredName_eq_ownName hd
      intro d' hd' hsame
      exact List.inj_on_of_nodup_map hnodup hd' hd hsame
    refine ⟨hown, ?_⟩
    rwa [List.map_congr_left hown] at hnodup
  · rintro ⟨hown, hnodup⟩
    rwa [List.map_congr_left hown]

end NameTable

def fleets : Model :=
  -- Two types have one qualified name, as the point of it stands in a namespace or in a name. Of
  -- two types of one name, one is renamed.
  { types :=
      [{ name := "yard.Crane", ns := "port" }, { name := "Crane", ns := "port.yard" },
        { name := "Berth", ns := "port" },
        { name := "Berth", ns := "rail"
          annotations := { Annotations.none with graphql := { name := some "Platform" } } }] }

theorem flatConflicts_fleets :
    (NameTable.build fleets .graphql).flatConflicts (.of fleets) = [] ∧
      (NameTable.build fleets .graphql).declaredName "port.yard" "Crane" = "Crane" ∧
      (NameTable.build fleets .graphql).declaredName "port" "yard.Crane" = "yard.Crane" ∧
      (NameTable.build fleets .graphql).declaredName "rail" "Berth" = "Platform" := by
  have h : (NameTable.build fleets .graphql).flatConflicts (.of fleets) = [] := by decide +kernel
  obtain ⟨hown, _⟩ := (NameTable.flatConflicts_eq_nil_iff_ownNames fleets .graphql).mp h
  simp only [Model.headings, fleets, List.map_nil, List.nil_append, List.append_nil, List.map_cons,
    List.forall_mem_cons] at hown
  obtain ⟨hyard, hcrane, _, hrail, _⟩ := hown
  exact ⟨h, hcrane.trans (by decide +kernel), hyard.trans (by decide +kernel),
    hrail.trans (by decide +kernel)⟩

end Triglot
