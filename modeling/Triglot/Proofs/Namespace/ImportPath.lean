import Triglot.Proofs.Namespace.Partition

/-! The paths of files by namespace. Points become slashes character by character, so a path is as long as
its namespace, and only a slash in a namespace can make two paths equal. -/
namespace Triglot

def slashed (c : Char) : Char := if c = '.' then '/' else c

theorem replaceChar_toList (s : String) :
    (Text.replaceChar '.' "/" s).toList = s.toList.map slashed := by
  rw [Text.replaceChar, String.toList_ofList, ← List.flatMap_singleton' (s.toList.map slashed),
    List.flatMap_map]
  congr 1
  funext c
  unfold slashed
  split <;> rfl

theorem importPath_toList (ns extension : String) :
    (importPath ns extension).toList =
      (effectiveNamespace ns).toList.map slashed ++ '.' :: extension.toList := by
  rw [importPath, String.toList_append, String.toList_append, replaceChar_toList,
    List.append_assoc]
  rfl

/-- Equal paths come from namespaces that are equal once points are slashes. -/
theorem map_slashed_of_importPath_eq {a b extension : String}
    (h : importPath a extension = importPath b extension) :
    (effectiveNamespace a).toList.map slashed = (effectiveNamespace b).toList.map slashed := by
  have hchars := congrArg String.toList h
  rw [importPath_toList, importPath_toList] at hchars
  exact List.append_cancel_right hchars

theorem length_eq_of_importPath_eq {a b extension : String}
    (h : importPath a extension = importPath b extension) :
    (effectiveNamespace a).toList.length = (effectiveNamespace b).toList.length := by
  simpa using congrArg List.length (map_slashed_of_importPath_eq h)

/-- Namespaces without a slash have different paths. -/
theorem effectiveNamespace_eq_of_importPath_eq {a b extension : String}
    (h : importPath a extension = importPath b extension)
    (ha : '/' ∉ (effectiveNamespace a).toList) (hb : '/' ∉ (effectiveNamespace b).toList) :
    effectiveNamespace a = effectiveNamespace b := by
  -- Without slashes, the points can be put back.
  have hback {cs : List Char} (hcs : '/' ∉ cs) :
      (cs.map slashed).map (fun c => if c = '/' then '.' else c) = cs := by
    rw [List.map_map]
    refine (List.map_congr_left fun c hc => ?_).trans (List.map_id cs)
    have hne : c ≠ '/' := fun he => hcs (he ▸ hc)
    by_cases hpoint : c = '.' <;> simp [slashed, hpoint, hne]
  have hchars := congrArg (List.map fun c => if c = '/' then '.' else c)
    (map_slashed_of_importPath_eq h)
  rw [hback ha, hback hb] at hchars
  exact String.toList_inj.mp hchars

end Triglot
