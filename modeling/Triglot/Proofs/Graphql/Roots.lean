import Triglot.Proofs.Graphql.Success
import Triglot.Proofs.Union.Rendering

/-! The fields of the roots of a GraphQL document. The methods of all services meet in three roots under
their names with a small first letter, and nothing compares these names. So a root has a field twice
exactly if two methods of its kind, of whatever services, share a name up to that letter. -/
namespace Triglot

def Method.SharesRootField (a b : Method) : Prop :=
  a.rootKind = b.rootKind ∧ Text.lowerFirst a.name = Text.lowerFirst b.name

instance (a b : Method) : Decidable (a.SharesRootField b) :=
  inferInstanceAs (Decidable (a.rootKind = b.rootKind ∧ Text.lowerFirst a.name = Text.lowerFirst b.name))

def Model.methods (m : Model) : List Method := m.services.flatMap (·.methods)

def Model.RootFieldsApart (m : Model) : Prop :=
  m.methods.Pairwise fun a b => ¬a.SharesRootField b

instance (m : Model) : Decidable m.RootFieldsApart :=
  inferInstanceAs (Decidable (m.methods.Pairwise fun a b => ¬a.SharesRootField b))

namespace Graphql

def rootNames (m : Model) : List (String × List String) :=
  (RootKind.all.filter fun k => m.methods.any (·.rootKind == k)).map fun k =>
    (rootName k, (m.methods.filter (·.rootKind == k)).map fun a => Text.lowerFirst a.name)

/-- Each method is one field of its root, in order. -/
theorem rootFields_labels {scope : Scope} {usage : UsageMap} {services : List Service}
    {fields : List (RootKind × FieldDef)} (h : rootFields scope usage services = .ok fields) :
    fields.map (fun f => (f.1, f.2.name)) =
      (services.flatMap (·.methods)).map fun a => (a.rootKind, Text.lowerFirst a.name) := by
  have hlabels : fields.map (fun f => (f.1, f.2.name)) =
      (services.flatMap fun s => s.methods.map fun a => (s.ns, a)).map
        fun p => (p.2.rootKind, Text.lowerFirst p.2.name) := by
    apply map_eq_of_mapM h
    intro p _ f hf
    obtain ⟨def', hdef, hf⟩ := bind_eq_ok hf
    obtain ⟨input, _, hdef⟩ := bind_eq_ok hdef
    obtain ⟨output, _, hdef⟩ := bind_eq_ok hdef
    cases hdef
    cases hf
    rfl
  rw [hlabels, List.map_flatMap, List.map_flatMap]
  apply List.flatMap_congr
  intro s _
  rw [List.map_map]
  rfl

theorem filterMap_ite {α β : Type} (p : α → Bool) (f : α → β) (xs : List α) :
    (xs.filterMap fun x => if p x then some (f x) else none) = (xs.filter p).map f := by
  induction xs with
  | nil => rfl
  | cons x xs ih => cases hx : p x <;> simp [hx, ih]

/-- The roots that are written, with the names of their fields. -/
theorem rootDefs_labels (fields : List (RootKind × FieldDef)) :
    (rootDefs fields).map (fun d => (d.name, d.fields.map (·.name))) =
      (RootKind.all.filter fun k => fields.any (·.1 == k)).map fun k =>
        (rootName k, (fields.filter (·.1 == k)).map (·.2.name)) := by
  rw [← filterMap_ite]
  unfold rootDefs
  rw [List.map_filterMap]
  apply List.filterMap_congr
  intro k _
  cases hany : fields.any (·.1 == k) with
  | false =>
    have hnil : fields.filter (·.1 == k) = [] :=
      List.filter_eq_nil_iff.mpr (List.any_eq_false.mp hany)
    rw [hnil]
    rfl
  | true =>
    obtain ⟨f, hf, hk⟩ := List.any_eq_true.mp hany
    have hmem : f ∈ fields.filter (·.1 == k) := List.mem_filter.mpr ⟨hf, hk⟩
    obtain ⟨g, gs, hcons⟩ := List.exists_cons_of_ne_nil (List.ne_nil_of_mem hmem)
    rw [hcons]
    simp [Definition.name, Definition.fields]

/-- In each group names are distinct exactly if no two items share both group and name. -/
theorem nodup_groups_iff {α κ : Type} [DecidableEq κ] (kind : α → κ) (name : α → String)
    (xs : List α) : (∀ k, ((xs.filter (kind · == k)).map name).Nodup) ↔
      xs.Pairwise fun a b => ¬(kind a = kind b ∧ name a = name b) := by
  have hgroup (k : κ) : ((xs.filter (kind · == k)).map name).Nodup ↔
      xs.Pairwise fun a b => kind a = k → kind b = k → name a ≠ name b := by
    simp only [List.Nodup, List.pairwise_map, List.pairwise_filter, beq_iff_eq]
  simp only [hgroup, List.pairwise_iff_forall_sublist]
  constructor
  · rintro h a b hab ⟨hkind, hname⟩
    exact h (kind b) hab hkind rfl hname
  · intro h k a b hab ha hb hname
    exact h hab ⟨ha.trans hb.symm, hname⟩

theorem Parts.Of.rootDefs_names {m : Model} {table : SymbolTable} {p : Parts} (h : p.Of m table) :
    (rootDefs p.roots).map (fun d => (d.name, d.fields.map (·.name))) = rootNames m := by
  have hlabels := rootFields_labels h.roots
  have hany (k : RootKind) : p.roots.any (·.1 == k) = m.methods.any (·.rootKind == k) := by
    have hmap := congrArg (fun l : List (RootKind × String) => l.any (·.1 == k)) hlabels
    simpa [List.any_map, Model.methods, Function.comp_def] using hmap
  have hnames (k : RootKind) : (p.roots.filter (·.1 == k)).map (·.2.name) =
      (m.methods.filter (·.rootKind == k)).map fun a => Text.lowerFirst a.name := by
    have hmap := congrArg (fun l : List (RootKind × String) => (l.filter (·.1 == k)).map Prod.snd) hlabels
    simpa [List.filter_map, Model.methods, Function.comp_def] using hmap
  rw [rootDefs_labels, rootNames]
  simp only [hany, hnames]

/-- A root that is not written has no fields to compare. -/
theorem rootNames_nodup_iff (m : Model) : (∀ q ∈ rootNames m, q.2.Nodup) ↔ m.RootFieldsApart := by
  have hkinds : (∀ q ∈ rootNames m, q.2.Nodup) ↔ ∀ k : RootKind,
      ((m.methods.filter (·.rootKind == k)).map fun a => Text.lowerFirst a.name).Nodup := by
    rw [rootNames, List.forall_mem_map]
    constructor
    · intro h k
      cases hany : m.methods.any (·.rootKind == k) with
      | true => exact h k (List.mem_filter.mpr ⟨by cases k <;> decide, hany⟩)
      | false =>
        rw [List.filter_eq_nil_iff.mpr (List.any_eq_false.mp hany)]
        exact List.nodup_nil
    · exact fun h k _ => h k
  exact hkinds.trans (nodup_groups_iff Method.rootKind (fun a => Text.lowerFirst a.name) m.methods)

/-- The roots of a document have, for each kind that a method has, one field for each method of this
kind, in order. The fields of every root are distinct exactly if no two methods of the model, in
whatever services, have one kind and one name with a small first letter. -/
theorem render_rootFields_nodup_iff (m : Model) (r : Rendered) (h : render m (.of m) = .ok r) :
    ∃ p : Parts, p.Of m (.of m) ∧
      r.document.definitions = p.definitions m (.flat m (.of m) .graphql) ∧
      (rootDefs p.roots).map (fun d => (d.name, d.fields.map (·.name))) = rootNames m ∧
      ((∀ d ∈ rootDefs p.roots, (d.fields.map (·.name)).Nodup) ↔ m.RootFieldsApart) := by
  obtain ⟨_, p, hp, _, hdefs⟩ := render_eq_ok h
  have hroots := hp.rootDefs_names
  refine ⟨p, hp, hdefs, hroots, ?_⟩
  rw [← rootNames_nodup_iff, ← hroots, List.forall_mem_map]

def bulletin : Model :=
  -- Methods of one name that are of different kinds, and one whose name differs behind the first
  -- letter.
  let post : Method := { name := "GetPost", input := "Post", output := "Post" }
  { ns := "news"
    types := [{ name := "Post", ns := "news"
                fields := [{ name := "text", type := .named "string" false }] }]
    services :=
      [{ name := "Reader", ns := "news", methods := [post, { post with name := "GetPosts" }] },
       { name := "Ticker", ns := "live"
         methods := [{ post with serverStreaming := true }, { post with root := some .mutation },
           { post with name := "getpost", root := some .query }] }] }

theorem render_rootFields_bulletin :
    ∃ r, render bulletin (.of bulletin) = .ok r ∧
      ∃ p : Parts, r.document.definitions =
          p.definitions bulletin (.flat bulletin (.of bulletin) .graphql) ∧
        (rootDefs p.roots).map (fun d => (d.name, d.fields.map (·.name))) =
          [("Query", ["getPost", "getPosts", "getpost"]), ("Mutation", ["getPost"]),
            ("Subscription", ["getPost"])] ∧
        ∀ d ∈ rootDefs p.roots, (d.fields.map (·.name)).Nodup := by
  have hok : Succeeds (render bulletin (.of bulletin)) := by decide +kernel
  obtain ⟨r, hr⟩ := hok
  obtain ⟨p, _, hdefs, hroots, hiff⟩ := render_rootFields_nodup_iff bulletin r hr
  have hapart : bulletin.RootFieldsApart := by decide +kernel
  exact ⟨r, hr, p, hdefs, hroots.trans (by decide +kernel), hiff.mpr hapart⟩

def warehouses : Model :=
  -- Two services of different namespaces with a method of the same name.
  let get : Method := { name := "GetItem", input := "Item", output := "Item" }
  { ns := "shop"
    types := [{ name := "Item", ns := "shop"
                fields := [{ name := "code", type := .named "string" false }] }]
    services :=
      [{ name := "Shop", ns := "shop", methods := [get] },
       { name := "Depot", ns := "depot", methods := [get] }] }

/-- The report has no entry at all, nothing is told while the document is made, and a root has one field
twice. -/
theorem render_rootFields_warehouses :
    (validate warehouses {}).entries = [] ∧
      ∃ r, render warehouses (.of warehouses) = .ok r ∧ r.warnings = [] ∧
        ∃ d ∈ r.document.definitions, d.name = "Query" ∧ ¬(d.fields.map (·.name)).Nodup := by
  have hdefs : (render warehouses (.of warehouses)).toOption.map
      (fun r => (r.warnings, r.document.definitions.map fun d => (d.name, d.fields.map (·.name)))) =
      some ([], [("Item", ["code"]), ("ItemInput", ["code"]), ("Query", ["getItem", "getItem"])]) := by
    decide +kernel
  obtain ⟨r, hr, hlist⟩ := exists_ok_of_toOption hdefs
  obtain ⟨hwarnings, hlist⟩ := Prod.mk.inj hlist
  have hquery : ("Query", ["getItem", "getItem"]) ∈
      r.document.definitions.map fun d => (d.name, d.fields.map (·.name)) := by
    rw [hlist]
    decide
  obtain ⟨d, hd, hd'⟩ := List.mem_map.mp hquery
  obtain ⟨hname, hfields⟩ := Prod.mk.inj hd'
  refine ⟨by decide +kernel, r, hr, hwarnings, d, hd, hname, ?_⟩
  rw [hfields]
  decide

end Graphql

end Triglot
