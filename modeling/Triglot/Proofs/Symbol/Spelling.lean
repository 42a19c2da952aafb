import Triglot.Proofs.Symbol.Registration

/-! How a symbol can be written. There are at most two names for it, a bare one and its qualified one,
and which of the two a name is shows in the name itself. -/
namespace Triglot

theorem isQualified_iff (name : String) : isQualified name = true ↔ '.' ∈ name.toList := by
  rw [isQualified, List.contains_iff_mem]

/-- What follows the last separator is the same in equal lists. -/
theorem eq_of_append_cons_eq {α : Type} {x : α} {as bs cs ds : List α} (hb : x ∉ bs) (hd : x ∉ ds)
    (h : as ++ x :: bs = cs ++ x :: ds) : bs = ds := by
  rcases List.append_eq_append_iff.mp h with ⟨es, _, he⟩ | ⟨es, _, he⟩
  · cases es with
    | nil => exact (List.cons.inj he).2
    | cons e es =>
      have hbs : bs = es ++ x :: ds := (List.cons.inj he).2
      exact absurd (by simp [hbs]) hb
  · cases es with
    | nil => exact (List.cons.inj he).2.symm
    | cons e es =>
      have hds : ds = es ++ x :: bs := (List.cons.inj he).2
      exact absurd (by simp [hds]) hd

theorem eq_of_qualify_eq {ns ns' a b : String} (ha : isQualified a = false)
    (hb : isQualified b = false) (h : qualify ns a = qualify ns' b) : a = b := by
  have hbare {c : String} (hc : isQualified c = false) : '.' ∉ c.toList := by
    intro hmem
    rw [(isQualified_iff c).mpr hmem] at hc
    cases hc
  have hlist : ns.toList ++ '.' :: a.toList = ns'.toList ++ '.' :: b.toList := by
    have ht := congrArg String.toList h
    simpa [qualify] using ht
  exact String.toList_inj.mp (eq_of_append_cons_eq (hbare ha) (hbare hb) hlist)

namespace SymbolTable

variable {t : SymbolTable} {name ns a b : String} {s : Symbol}

theorem Coherent.qualified_of_lookup (ht : t.Coherent) {q : String} (h : t.lookup q = some s) :
    s.qualified = q := by
  rw [lookup, Option.or_eq_some_iff, Option.or_eq_some_iff] at h
  rcases h with (h | ⟨_, h⟩) | ⟨_, h⟩ <;> exact ht.qualified_of_lookupKind h

theorem Coherent.eq_qualified_of_resolve (ht : t.Coherent) (hq : isQualified name = true)
    (h : t.resolve name ns = .ok s) : name = s.qualified := by
  rcases resolve_eq_ok h with ⟨_, hl⟩ | ⟨hb, _⟩ | ⟨hb, _⟩
  · exact (ht.qualified_of_lookup hl).symm
  · rw [hq] at hb
    cases hb
  · rw [hq] at hb
    cases hb

/-- A bare name is the end of the qualified name of what it finds. -/
theorem Coherent.exists_qualify_of_resolve (ht : t.Coherent) (hb : isQualified name = false)
    (h : t.resolve name ns = .ok s) : ∃ p, s.qualified = qualify p name := by
  rcases resolve_eq_ok h with ⟨hq, _⟩ | ⟨_, hl⟩ | ⟨_, _, hf⟩
  · rw [hb] at hq
    cases hq
  · exact ⟨ns, ht.qualified_of_lookup hl⟩
  · have hs : s ∈ t.entries.filter (·.name == name) := by
      rw [hf]
      exact List.mem_singleton_self s
    have hname : s.name = name := beq_iff_eq.mp (List.mem_filter.mp hs).2
    exact ⟨s.ns, hname ▸ ht.qualified s (List.mem_of_mem_filter hs)⟩

/-- Names that find one symbol are equal if both are bare or both qualified, wherever they are
written. -/
theorem Coherent.eq_of_resolve_eq (ht : t.Coherent) {ns' : String} (ha : t.resolve a ns = .ok s)
    (hb : t.resolve b ns' = .ok s) (hq : isQualified a = isQualified b) : a = b := by
  cases hqa : isQualified a with
  | true =>
    have hea := ht.eq_qualified_of_resolve hqa ha
    have heb := ht.eq_qualified_of_resolve (hq ▸ hqa) hb
    exact hea.trans heb.symm
  | false =>
    have hqb : isQualified b = false := hq ▸ hqa
    obtain ⟨p, hp⟩ := ht.exists_qualify_of_resolve hqa ha
    obtain ⟨p', hp'⟩ := ht.exists_qualify_of_resolve hqb hb
    exact eq_of_qualify_eq hqa hqb (hp.symm.trans hp')

end SymbolTable

end Triglot
