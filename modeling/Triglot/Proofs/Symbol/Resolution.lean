import Triglot.Proofs.Symbol.Sorted
import Triglot.Proofs.Symbol.Spelling

/-! What a name means. Resolution answers with the one declaration that a name can mean, or tells why
there is none, and the qualified name of an answer leads back to it from every namespace. -/
namespace Triglot

def SymbolKind.rank : SymbolKind → Nat
  -- The place of a kind where declarations of several kinds have one qualified name.
  | .type => 0
  | .enum => 1
  | .union => 2

theorem SymbolKind.rank_injective : Function.Injective rank := by
  intro a b h
  cases a <;> cases b <;> simp_all [rank]

def Symbol.key (s : Symbol) : SymbolKind × String := (s.kind, s.qualified)

theorem isQualified_qualify (ns name : String) : isQualified (qualify ns name) = true := by
  simp [isQualified_iff, qualify]

namespace SymbolTable

variable {t : SymbolTable} {ds : List Declaration} {fs : List Diagnostic} {q name ns : String}
  {s : Symbol}

theorem mem_entries_iff : s ∈ t.entries ↔ ∃ kind, s ∈ t.ofKind kind := by
  constructor
  · intro hs
    simp only [entries, List.mem_append] at hs
    rcases hs with (hs | hs) | hs
    · exact ⟨.enum, hs⟩
    · exact ⟨.type, hs⟩
    · exact ⟨.union, hs⟩
  · rintro ⟨kind, hs⟩
    exact t.ofKind_subset_entries kind hs

theorem Coherent.lookup_eq_none_iff (ht : t.Coherent) :
    t.lookup q = none ↔ ∀ e ∈ t.entries, e.qualified ≠ q := by
  have hkind (kind : SymbolKind) :
      t.lookupKind kind q = none ↔ ∀ e ∈ t.ofKind kind, e.qualified ≠ q := by
    rw [lookupKind, lookup_eq_none_iff_key, ofKind]
    constructor
    · rintro hnone e he rfl
      obtain ⟨p, hp, rfl⟩ := List.mem_map.mp he
      exact hnone (List.mem_map.mpr ⟨p, hp, ht.key kind p hp⟩)
    · intro hne hmem
      obtain ⟨p, hp, rfl⟩ := List.mem_map.mp hmem
      exact hne p.2 (List.mem_map_of_mem hp) (ht.key kind p hp).symm
  simp only [lookup, Option.or_eq_none_iff, hkind, mem_entries_iff]
  constructor
  · rintro ⟨⟨htype, henum⟩, hunion⟩ e ⟨kind, he⟩
    cases kind with
    | type => exact htype e he
    | enum => exact henum e he
    | union => exact hunion e he
  · intro h
    exact ⟨⟨fun e he => h e ⟨_, he⟩, fun e he => h e ⟨_, he⟩⟩, fun e he => h e ⟨_, he⟩⟩

/-- The declaration that a qualified name stands for: a type if there is one, otherwise an enumeration,
otherwise a union. -/
structure StandsFor (t : SymbolTable) (q : String) (s : Symbol) : Prop where
  mem : s ∈ t.entries
  qualified : s.qualified = q
  first : ∀ e ∈ t.entries, e.qualified = q → s.kind.rank ≤ e.kind.rank

/-- What a name means where it is written. With a point it is qualified. Without one it means the
declaration of its namespace, and if there is none the only declaration of that name. -/
inductive Meaning (t : SymbolTable) (name ns : String) : Except ResolveError Symbol → Prop where
  | qualified {s : Symbol} (hpoint : '.' ∈ name.toList) (hs : t.StandsFor name s) :
    Meaning t name ns (.ok s)
  | undeclared (hpoint : '.' ∈ name.toList) (hnone : ∀ e ∈ t.entries, e.qualified ≠ name) :
    Meaning t name ns (.error (.unresolvedQualified name))
  | here {s : Symbol} (hbare : '.' ∉ name.toList) (hs : t.StandsFor (qualify ns name) s) :
    Meaning t name ns (.ok s)
  | only {s : Symbol} (hbare : '.' ∉ name.toList)
    (haway : ∀ e ∈ t.entries, e.qualified ≠ qualify ns name) (hs : s ∈ t.entries)
    (hname : s.name = name) (hone : ∀ e ∈ t.entries, e.name = name → e = s) :
    Meaning t name ns (.ok s)
  | unknown (hbare : '.' ∉ name.toList) (haway : ∀ e ∈ t.entries, e.qualified ≠ qualify ns name)
    (hnone : ∀ e ∈ t.entries, e.name ≠ name) : Meaning t name ns (.error (.unknown name ns))
  | ambiguous {a b : Symbol} {candidates : List String} (hbare : '.' ∉ name.toList)
    (haway : ∀ e ∈ t.entries, e.qualified ≠ qualify ns name) (ha : a ∈ t.entries)
    (hb : b ∈ t.entries) (hname : a.name = name ∧ b.name = name) (hne : a ≠ b)
    (hsorted : candidates.Pairwise (· < ·))
    (hcandidates : ∀ q, q ∈ candidates ↔ ∃ e ∈ t.entries, e.name = name ∧ e.qualified = q) :
    Meaning t name ns (.error (.ambiguous name candidates))

namespace Registered

/-- Kind and qualified name tell the symbols of a table apart. -/
theorem keys_nodup (h : Registered ds t fs) : (t.entries.map Symbol.key).Nodup := by
  have hkind (kind : SymbolKind) : ((t.ofKind kind).map Symbol.key).Nodup := by
    apply List.Nodup.of_map Prod.snd
    rw [List.map_map]
    exact h.qualified_nodup kind
  have hne (k l : SymbolKind) (hkl : k ≠ l) :
      ∀ a ∈ (t.ofKind k).map Symbol.key, ∀ b ∈ (t.ofKind l).map Symbol.key, a ≠ b := by
    intro a ha b hb hab
    obtain ⟨x, hx, rfl⟩ := List.mem_map.mp ha
    obtain ⟨y, hy, rfl⟩ := List.mem_map.mp hb
    have hkinds : x.kind = y.kind := congrArg Prod.fst hab
    rw [h.kinds k x hx, h.kinds l y hy] at hkinds
    exact hkl hkinds
  rw [entries, List.map_append, List.map_append, List.nodup_append, List.nodup_append]
  refine ⟨⟨hkind .enum, hkind .type, hne .enum .type (by decide)⟩, hkind .union, fun a ha => ?_⟩
  rcases List.mem_append.mp ha with ha | ha
  · exact hne .enum .union (by decide) a ha
  · exact hne .type .union (by decide) a ha

theorem eq_of_key (h : Registered ds t fs) {a b : Symbol} (ha : a ∈ t.entries) (hb : b ∈ t.entries)
    (hkey : a.key = b.key) : a = b :=
  List.inj_on_of_nodup_map h.keys_nodup ha hb hkey

theorem standsFor_unique (h : Registered ds t fs) {a b : Symbol} (ha : t.StandsFor q a)
    (hb : t.StandsFor q b) : a = b := by
  have hrank : a.kind.rank = b.kind.rank :=
    Nat.le_antisymm (ha.first b hb.mem hb.qualified) (hb.first a ha.mem ha.qualified)
  exact h.eq_of_key ha.mem hb.mem
    (Prod.ext (SymbolKind.rank_injective hrank) (ha.qualified.trans hb.qualified.symm))

theorem standsFor_of_lookup (h : Registered ds t fs) (hl : t.lookup q = some s) :
    t.StandsFor q s := by
  refine ⟨mem_entries_of_lookup hl, h.coherent.qualified_of_lookup hl, fun e he hq => ?_⟩
  obtain ⟨kind, he⟩ := mem_entries_iff.mp he
  have hek : e.kind = kind := h.kinds kind e he
  have hfound : t.lookupKind kind q ≠ none := by
    rw [h.lookupKind_iff.mpr ⟨he, hq⟩]
    exact Option.some_ne_none e
  -- A kind that is looked at before that of `s` has nothing of the name.
  have hskind {k : SymbolKind} (hk : t.lookupKind k q = some s) : s.kind = k :=
    h.kinds k s (h.lookupKind_iff.mp hk).1
  rw [lookup, Option.or_eq_some_iff, Option.or_eq_some_iff] at hl
  rw [hek]
  rcases hl with (hl | ⟨htype, hl⟩) | ⟨hboth, hl⟩
  · rw [hskind hl]
    exact Nat.zero_le _
  · rw [hskind hl]
    cases kind with
    | type => exact absurd htype hfound
    | enum => exact Nat.le_refl _
    | union => decide
  · rw [hskind hl]
    obtain ⟨htype, henum⟩ := Option.or_eq_none_iff.mp hboth
    cases kind with
    | type => exact absurd htype hfound
    | enum => exact absurd henum hfound
    | union => exact Nat.le_refl _

/-- A look-up finds the declaration that a qualified name stands for. -/
theorem lookup_eq_some_iff (h : Registered ds t fs) : t.lookup q = some s ↔ t.StandsFor q s := by
  refine ⟨h.standsFor_of_lookup, fun hs => ?_⟩
  cases hl : t.lookup q with
  | none => exact absurd hs.qualified (h.coherent.lookup_eq_none_iff.mp hl s hs.mem)
  | some a => rw [h.standsFor_unique (h.standsFor_of_lookup hl) hs]

/-- The symbols of a name, each once. -/
theorem filter_name_nodup (h : Registered ds t fs) (name : String) :
    (t.entries.filter (·.name == name)).Nodup :=
  (List.Nodup.of_map _ h.keys_nodup).filter _

/-- Every answer of a resolution is what the name means. -/
theorem meaning_resolve (h : Registered ds t fs) (name ns : String) :
    t.Meaning name ns (t.resolve name ns) := by
  unfold resolve
  split
  · rename_i hq
    have hpoint := (isQualified_iff name).mp hq
    cases hl : t.lookup name with
    | some s => exact .qualified hpoint (h.standsFor_of_lookup hl)
    | none => exact .undeclared hpoint (h.coherent.lookup_eq_none_iff.mp hl)
  · rename_i hq
    have hbare : '.' ∉ name.toList := fun hp => hq ((isQualified_iff name).mpr hp)
    cases hl : t.lookup (qualify ns name) with
    | some s => exact .here hbare (h.standsFor_of_lookup hl)
    | none =>
      have haway := h.coherent.lookup_eq_none_iff.mp hl
      have hmem (e : Symbol) : e ∈ t.entries.filter (·.name == name) ↔
          e ∈ t.entries ∧ e.name = name := by simp
      have hnodup := h.filter_name_nodup name
      generalize t.entries.filter (·.name == name) = found at hmem hnodup
      match found with
      | [] => exact .unknown hbare haway fun e he hn => List.not_mem_nil ((hmem e).mpr ⟨he, hn⟩)
      | [s] =>
        obtain ⟨hs, hn⟩ := (hmem s).mp (List.mem_singleton_self s)
        exact .only hbare haway hs hn fun e he hn => List.mem_singleton.mp ((hmem e).mpr ⟨he, hn⟩)
      | a :: b :: rest =>
        obtain ⟨ha, han⟩ := (hmem a).mp List.mem_cons_self
        obtain ⟨hb, hbn⟩ := (hmem b).mp (List.mem_cons_of_mem a List.mem_cons_self)
        have hne : a ≠ b := fun hab => (List.nodup_cons.mp hnodup).1 (hab ▸ List.mem_cons_self)
        refine .ambiguous hbare haway ha hb ⟨han, hbn⟩ hne (sortedTexts_increasing _) fun q => ?_
        simp only [mem_sortedTexts, List.mem_map, hmem, and_assoc]

/-- A name means nothing but the answer. -/
theorem resolve_eq_of_meaning (h : Registered ds t fs) {r : Except ResolveError Symbol}
    (hm : t.Meaning name ns r) : t.resolve name ns = r := by
  have hpoint := isQualified_iff name
  unfold resolve
  cases hm with
  | qualified hp hs => rw [if_pos (hpoint.mpr hp), h.lookup_eq_some_iff.mpr hs]
  | undeclared hp hnone =>
    rw [if_pos (hpoint.mpr hp), h.coherent.lookup_eq_none_iff.mpr hnone]
  | here hbare hs => rw [if_neg (mt hpoint.mp hbare), h.lookup_eq_some_iff.mpr hs]
  | @only s hbare haway hs hn hone =>
    have hfound : t.entries.filter (·.name == name) = [s] := by
      refine List.perm_singleton.mp ((List.perm_ext_iff_of_nodup (h.filter_name_nodup name)
        (List.nodup_singleton s)).mpr fun e => ?_)
      rw [List.mem_filter, beq_iff_eq, List.mem_singleton]
      exact ⟨fun he => hone e he.1 he.2, fun he => he ▸ ⟨hs, hn⟩⟩
    rw [if_neg (mt hpoint.mp hbare), h.coherent.lookup_eq_none_iff.mpr haway, hfound]
  | unknown hbare haway hnone =>
    have hfound : t.entries.filter (·.name == name) = [] :=
      List.filter_eq_nil_iff.mpr fun e he hn => hnone e he (beq_iff_eq.mp hn)
    rw [if_neg (mt hpoint.mp hbare), h.coherent.lookup_eq_none_iff.mpr haway, hfound]
  | @ambiguous a b candidates hbare haway ha hb hn hne hsorted hc =>
    have hmem (e : Symbol) (he : e ∈ t.entries) (hn : e.name = name) :
        e ∈ t.entries.filter (·.name == name) := List.mem_filter.mpr ⟨he, beq_iff_eq.mpr hn⟩
    have hcandidates : sortedTexts ((t.entries.filter (·.name == name)).map Symbol.qualified) =
        candidates := strictlyOrders_texts.sortedSet_eq (hsorted.imp decide_eq_true) fun q => by
        simp only [hc, List.mem_map, List.mem_filter, beq_iff_eq, and_assoc]
    have ha := hmem a ha hn.1
    have hb := hmem b hb hn.2
    rw [if_neg (mt hpoint.mp hbare), h.coherent.lookup_eq_none_iff.mpr haway]
    -- Two symbols are found, so the list has neither none nor one.
    generalize t.entries.filter (·.name == name) = found at ha hb hcandidates
    match found with
    | [] => exact absurd ha List.not_mem_nil
    | [s] => exact absurd ((List.mem_singleton.mp ha).trans (List.mem_singleton.mp hb).symm) hne
    | _ :: _ :: _ => rw [← hcandidates]

end Registered

/-- The qualified name of a symbol of the table leads to a symbol of that name from everywhere. -/
theorem Coherent.exists_resolve_qualified (ht : t.Coherent) (hs : s ∈ t.entries) (ns : String) :
    ∃ a, t.resolve s.qualified ns = .ok a ∧ a.qualified = s.qualified := by
  cases hl : t.lookup s.qualified with
  | none => exact absurd rfl (ht.lookup_eq_none_iff.mp hl s hs)
  | some a =>
    have hpoint : isQualified s.qualified = true := by
      rw [ht.qualified s hs]
      exact isQualified_qualify s.ns s.name
    refine ⟨a, ?_, ht.qualified_of_lookup hl⟩
    rw [resolve, if_pos hpoint, hl]

/-- After any run of registrations, the answer of a resolution is the one meaning of the name. What it
finds, and each candidate that it tells, is found again from every namespace by its qualified name. -/
theorem resolve_exact (ds : List Declaration) (name ns : String) :
    (∀ r, (registerAll {} ds).1.resolve name ns = r ↔ (registerAll {} ds).1.Meaning name ns r) ∧
    (∀ s, (registerAll {} ds).1.resolve name ns = .ok s → ∀ ns', ∃ a,
      (registerAll {} ds).1.resolve s.qualified ns' = .ok a ∧ a.qualified = s.qualified) ∧
    ∀ asked candidates, (registerAll {} ds).1.resolve name ns = .error (.ambiguous asked candidates) →
      ∀ q ∈ candidates, ∀ ns', ∃ a,
        (registerAll {} ds).1.resolve q ns' = .ok a ∧ a.qualified = q := by
  have h := registered_registerAll ds
  refine ⟨fun r => ?_, fun s hs ns' => ?_, fun asked candidates ha q hq ns' => ?_⟩
  · exact ⟨fun hr => hr ▸ h.meaning_resolve name ns, h.resolve_eq_of_meaning⟩
  · exact h.coherent.exists_resolve_qualified (mem_entries_of_resolve hs) ns'
  · have hm := h.meaning_resolve name ns
    rw [ha] at hm
    cases hm with
    | ambiguous _ _ _ _ _ _ _ hc =>
      obtain ⟨e, he, _, rfl⟩ := (hc q).mp hq
      exact h.coherent.exists_resolve_qualified he ns'

def statuses : List Declaration :=
  -- Three declarations of one name, two of them in one namespace.
  [⟨"users", "Status", .enum, "$.enums[0]"⟩, ⟨"orders", "Status", .type, "$.types[0]"⟩,
    ⟨"users", "Status", .union, "$.unions[0]"⟩]

theorem resolve_statuses :
    (registerAll {} statuses).1.resolve "Status" "billing" =
      .error (.ambiguous "Status" ["orders.Status", "users.Status"]) ∧
    ∀ ns', ∃ a, (registerAll {} statuses).1.resolve "users.Status" ns' = .ok a ∧
      a.qualified = "users.Status" := by
  have h : (registerAll {} statuses).1.resolve "Status" "billing" =
      .error (.ambiguous "Status" ["orders.Status", "users.Status"]) := by decide +kernel
  exact ⟨h, fun ns' => (resolve_exact statuses "Status" "billing").2.2 _ _ h _ (by simp) ns'⟩

end SymbolTable

end Triglot
