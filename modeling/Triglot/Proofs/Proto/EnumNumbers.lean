import Triglot.Proofs.Numbering
import Triglot.Proofs.Validation
import Triglot.Proto.Build

/-! Numbers of enumeration values as they are written. The check compares declared numbers only, and
the next number looks back only, so a value can declare what an earlier one already got. -/
namespace Triglot

namespace Validation

theorem code_of_mem_repeatedNumbers {enum path : String} {seen : List (Int32 × String)}
    {ms : List EnumMember} {d : Diagnostic} (h : d ∈ repeatedNumbers enum path seen ms) :
    d.code = Code.numberingCollision := by
  induction ms generalizing seen with
  | nil => cases h
  | cons m ms ih =>
    unfold repeatedNumbers at h
    cases hm : m.number with
    | none =>
      rw [hm] at h
      exact ih h
    | some n =>
      rw [hm] at h
      dsimp only at h
      split at h
      · exact ih h
      · rcases List.mem_cons.mp h with rfl | h
        · rfl
        · exact ih h

/-- Without a finding, declared numbers differ from each other and from those seen before. -/
theorem nodup_of_repeatedNumbers {enum path : String} {seen : List (Int32 × String)}
    {ms : List EnumMember} (h : repeatedNumbers enum path seen ms = []) :
    (ms.filterMap (·.number)).Nodup ∧
      ∀ n ∈ ms.filterMap (·.number), n ∉ seen.map Prod.fst := by
  induction ms generalizing seen with
  | nil => exact ⟨List.nodup_nil, fun n hn => nomatch hn⟩
  | cons m ms ih =>
    unfold repeatedNumbers at h
    cases hm : m.number with
    | none =>
      rw [hm] at h
      rw [List.filterMap_cons_none hm]
      exact ih h
    | some n =>
      rw [hm] at h
      rw [List.filterMap_cons_some hm]
      dsimp only at h
      split at h
      · rename_i hseen
        have hn : n ∉ seen.map Prod.fst := by
          intro hmem
          obtain ⟨p, hp, rfl⟩ := List.mem_map.mp hmem
          exact absurd rfl (bne_iff_ne.mp (List.lookup_eq_none_iff.mp hseen p hp))
        exact nodup_cons_of_fresh (ih h) hn
      · cases h

theorem memberNumbers_subset_entries (m : Model) (o : Options) :
    memberNumbers m ⊆ (validate m o).entries := by
  intro d hd
  rw [validate_entries]
  refine List.mem_append_left _ (List.mem_append_left _ (List.mem_append_right _ ?_))
  exact List.mem_append_right _ hd

/-- A report that tells no collision of numbers leaves every enumeration with distinct declared
numbers. -/
theorem declaredNumbers_nodup {m : Model} {o : Options}
    (h : ∀ d ∈ (validate m o).entries, d.code ≠ Code.numberingCollision) {e : EnumType}
    (he : e ∈ m.enums) : (e.members.filterMap (·.number)).Nodup := by
  obtain ⟨i, hi, rfl⟩ := List.getElem_of_mem he
  have hnil : repeatedNumbers m.enums[i].name s!"$.enums[{i}].values" [] m.enums[i].members = [] := by
    apply List.eq_nil_iff_forall_not_mem.mpr
    intro d hd
    refine h d (memberNumbers_subset_entries m o ?_) (code_of_mem_repeatedNumbers hd)
    exact List.mem_flatten.mpr ⟨_, List.mem_mapIdx.mpr ⟨i, hi, rfl⟩, hd⟩
  exact (nodup_of_repeatedNumbers hnil).1

end Validation

namespace Proto

def DeclaresAfresh (e : EnumType) : Prop :=
  (numberMembers e).Pairwise fun p q => p.1.number = none → q.1.number ≠ some p.2

instance (e : EnumType) : Decidable (DeclaresAfresh e) :=
  inferInstanceAs (Decidable ((numberMembers e).Pairwise
    fun p q => p.1.number = none → q.1.number ≠ some p.2))

section

variable {e : EnumType}

theorem enumBlock_numbers (scope : Scope) (e : EnumType) :
    (enumBlock scope e).lines.map (·.number) =
      ((sentinel e).map fun _ => 0).toList ++ (numberMembers e).map fun p => p.2.toInt := by
  simp only [enumBlock, List.map_append, List.map_map]
  cases sentinel e <;> rfl

theorem zero_not_mem_of_sentinel (hend : EndsBelow (numberMembers e)) {s : String}
    (hs : sentinel e = some s) : 0 ∉ (numberMembers e).map fun p => p.2.toInt := by
  intro hzero
  obtain ⟨p, hp, hp0⟩ := List.mem_map.mp hzero
  have hmember : p.1 ∈ e.members := by
    rw [← numberMembersFrom_members 1 e.members]
    exact List.mem_map_of_mem hp
  rcases numberMembers_cases hend hp with hnumber | ⟨_, hpos⟩
  · have hdeclares : e.members.any (·.number == some 0) = true := by
      refine List.any_eq_true.mpr ⟨p.1, hmember, ?_⟩
      rw [hnumber, Int32.toInt_inj.mp (show p.2.toInt = (0 : Int32).toInt from hp0)]
      rfl
    rw [sentinel, if_pos hdeclares] at hs
    cases hs
  · omega

/-- Of two equal numbers the later one is declared, since the next number is above all before it; and
the earlier one is not, if declared numbers are distinct. -/
theorem memberNumbers_nodup_iff (hend : EndsBelow (numberMembers e))
    (hdeclared : (e.members.filterMap (·.number)).Nodup) :
    ((numberMembers e).map fun p => p.2.toInt).Nodup ↔ DeclaresAfresh e := by
  have happart : (numberMembers e).Pairwise
      fun p q => ∀ n, p.1.number = some n → ∀ k, q.1.number = some k → n ≠ k := by
    have hmembers : (numberMembers e).map Prod.fst = e.members := numberMembersFrom_members 1 _
    rw [← hmembers, List.filterMap_map, List.Nodup, List.pairwise_filterMap] at hdeclared
    exact hdeclared
  rw [List.Nodup, List.pairwise_map]
  constructor
  · intro hne
    refine hne.imp_of_mem fun {p q} _ hq hpq _ hdeclares => hpq ?_
    rcases numberMembers_cases hend hq with hnumber | ⟨hnone, _⟩
    · rw [hnumber] at hdeclares
      rw [Option.some.inj hdeclares]
    · rw [hnone] at hdeclares
      cases hdeclares
  · intro hafresh
    -- Which of the two declares its number decides which of the three facts keeps them apart.
    have hall := (hafresh.and (numberMembers_above hend)).and happart
    refine hall.imp_of_mem fun {p q} hp hq ⟨⟨hlater, habove⟩, hboth⟩ he => ?_
    have he := Int32.toInt_inj.mp he
    rcases numberMembers_cases hend hq with hqn | ⟨hqn, _⟩
    · rcases numberMembers_cases hend hp with hpn | ⟨hpn, _⟩
      · exact hboth p.2 hpn q.2 hqn he
      · exact hlater hpn (he ▸ hqn)
    · exact habove hqn he

end

/-- If the report tells no collision, the numbers that are written for an enumeration, with the zero of
the value that stands for it, are distinct exactly if no value declares a number that was given to an
earlier one. This supposes that the next number stays in its range. -/
theorem enumNumbers_nodup_iff (m : Model) (o : Validation.Options)
    (h : ∀ d ∈ (validate m o).entries, d.code ≠ Code.numberingCollision)
    (e : EnumType) (he : e ∈ m.enums) (hend : EndsBelow (numberMembers e)) (scope : Scope) :
    ((enumBlock scope e).lines.map (·.number)).Nodup ↔ DeclaresAfresh e := by
  rw [enumBlock_numbers, ← memberNumbers_nodup_iff hend (Validation.declaredNumbers_nodup h he)]
  cases hs : sentinel e with
  | none => rfl
  | some s =>
    have hzero := zero_not_mem_of_sentinel hend hs
    exact List.nodup_cons.trans (and_iff_right hzero)

def scales : Model :=
  -- Declared numbers below zero, at zero and below what was given before, among values that declare
  -- none.
  { ns := "shop"
    enums :=
      [{ name := "Grade", ns := "shop"
         members :=
          [{ name := "LOW" }, { name := "DEBT", number := some (-3) }, { name := "MID" },
           { name := "TOP", number := some 7 }, { name := "LAST" },
           { name := "NEAR", number := some 5 }] },
       { name := "Switch", ns := "shop"
         members := [{ name := "ON" }, { name := "OFF", number := some 0 }] }] }

theorem enumNumbers_nodup_scales :
    (∀ d ∈ (validate scales {}).entries, d.code ≠ Code.numberingCollision) ∧
      scales.enums.map (fun e => (enumBlock (.flat scales (.of scales) .proto) e).lines.map (·.number)) =
        [[0, 1, -3, 2, 7, 8, 5], [1, 0]] ∧
      ∀ e ∈ scales.enums, ∀ scope, ((enumBlock scope e).lines.map (·.number)).Nodup := by
  have hreport : ∀ d ∈ (validate scales {}).entries, d.code ≠ Code.numberingCollision := by
    decide +kernel
  have hend : ∀ e ∈ scales.enums, EndsBelow (numberMembers e) := by
    unfold EndsBelow
    decide +kernel
  have hafresh : ∀ e ∈ scales.enums, DeclaresAfresh e := by decide +kernel
  refine ⟨hreport, by decide +kernel, fun e he scope => ?_⟩
  exact (enumNumbers_nodup_iff scales {} hreport e he (hend e he) scope).mpr (hafresh e he)

def levels : Model :=
  -- The first value is given the number that the second declares.
  { ns := "shop"
    enums :=
      [{ name := "Level", ns := "shop"
         members := [{ name := "LOW" }, { name := "HIGH", number := some 1 }] }] }

/-- The report has no entry at all, and a number is written twice. -/
theorem enumNumbers_levels :
    (validate levels { targets := [.proto] }).entries = [] ∧
      ∃ e ∈ levels.enums, ∀ scope, ¬((enumBlock scope e).lines.map (·.number)).Nodup := by
  refine ⟨by decide +kernel, _, List.mem_cons_self, fun scope hnodup => ?_⟩
  rw [enumBlock_numbers] at hnodup
  exact absurd hnodup (by decide +kernel)

end Proto

end Triglot
