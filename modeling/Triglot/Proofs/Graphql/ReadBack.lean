import Triglot.Proofs.Graphql.Names
import Triglot.Proofs.Graphql.Sharing
import Triglot.Proofs.Graphql.Trace
import Triglot.Proofs.Model.Signature

/-! Maps read back from a document: from the entry that a field names, through the wrappers of nested
maps, to the end. What comes out is the declared shape exactly if nested maps that share a wrapper
declare the same shape, and no map ends in the name of a wrapper. -/
namespace Triglot.Graphql

/-- What a value in an arena leads to: a wrapper leads on through its entry, all else is an end. -/
inductive Arena.Reads (a : Arena) : String → MapShape → Prop where
  | leaf (text : String) (h : text ∉ a.wrappers.map Wrapper.name) : Reads a text (.leaf text)
  | wrapper (w : Wrapper) (hw : w ∈ a.wrappers) (e : EntryType) (he : e ∈ a.entries)
      (hname : e.name = w.entry) (s : MapShape) (hs : Reads a e.value.text s) :
      Reads a w.name (.map e.key s)

section Reads

variable {a : Arena}

theorem Arena.Reads.leafText_not_mem {text : String} {s : MapShape} (h : a.Reads text s) :
    s.leafText ∉ a.wrappers.map Wrapper.name := by
  induction h with
  | leaf text h => exact h
  | wrapper w hw e he hname s hs ih => exact ih

theorem Arena.Reads.mem_of_map {text key : String} {s : MapShape} (h : a.Reads text (.map key s)) :
    text ∈ a.wrappers.map Wrapper.name := by
  cases h with
  | wrapper w hw e he hname s hs => exact List.mem_map_of_mem hw

/-- A wrapper leads to its own entry only. -/
theorem Arena.WellNamed.reads_wrapper (h : a.WellNamed) {w : Wrapper} (hw : w ∈ a.wrappers)
    {e : EntryType} (he : e ∈ a.entries) (hname : e.name = w.entry) {s : MapShape}
    (hs : a.Reads w.name s) : ∃ v, s = .map e.key v ∧ a.Reads e.value.text v := by
  generalize htext : w.name = text at hs
  cases hs with
  | leaf _ hnot => exact absurd (List.mem_map_of_mem hw) (htext ▸ hnot)
  | wrapper w' hw' e' he' hname' v hv =>
    have hsame : w = w' := List.inj_on_of_nodup_map h.wrappers.nodup hw hw' htext
    have hentry : e = e' :=
      List.inj_on_of_nodup_map h.distinct he he' (hname.trans (hsame ▸ hname'.symm))
    exact ⟨v, by rw [hentry], hentry ▸ hv⟩

/-- A text reads back as one shape only, since no two wrappers or entries share a name. -/
theorem Arena.WellNamed.reads_unique (h : a.WellNamed) {text : String} {s t : MapShape}
    (hs : a.Reads text s) (ht : a.Reads text t) : s = t := by
  induction hs generalizing t with
  | leaf text hnot =>
    cases ht with
    | leaf => rfl
    | wrapper w hw => exact absurd (List.mem_map_of_mem hw) hnot
  | wrapper w hw e he hname s _ ih =>
    obtain ⟨v, rfl, hv⟩ := h.reads_wrapper hw he hname ht
    rw [ih hv]

end Reads

/-- Every map in an included field is written as the name of an entry from which the declared shape
reads back, in each direction in which its type is written. -/
def Parts.ReadsBack (m : Model) (p : Parts) : Prop :=
  ∀ t ∈ m.types, ∀ d, Directed (.classify m (.of m) .graphql) t d →
    ∃ o, .object o ∈ p.objects ∧
      o.name = d.name ((NameTable.build m .graphql).declaredName t.ns t.name) ∧ o.direction = d ∧
      List.Forall₂ (fun f fd => ∀ key value, f.type.outerMap? = some (key, value) →
          ∃ e ∈ p.arena.entries, fd.type.base = d.name e.name ∧ e.key = keyText key ∧
            p.arena.Reads e.value.text (declaredShape m t.ns value))
        (t.includedFields .graphql) o.fields

def Parts.LeavesClear (m : Model) (p : Parts) : Prop :=
  ∀ x ∈ m.fieldMaps .graphql,
    (declaredShape m x.1 x.2.2).leafText ∉ p.arena.wrappers.map Wrapper.name

section Written

variable {m : Model} {p : Parts}

/-- Each field that is a map names an entry that the last arena has for it. -/
theorem ObjectMade.fieldsWritten {a : Arena} (ha : a.Indexed) (hcoherent : a.Coherent)
    {t : ObjectType} {d : Direction} {o : ObjectDef}
    (h : ObjectMade (.flat m (.of m) .graphql) (Arena.Follows m) a p.arena t d o) :
    List.Forall₂ (fun f fd => ∀ key value, f.type.outerMap? = some (key, value) →
        ∃ e : EntryType, fd.type.base = d.name e.name ∧
          e.WrittenFor p.arena m (t.ns, key, value))
      (t.includedFields .graphql) o.fields := by
  refine h.2.2.imp fun f fd hf key value hmap => ?_
  obtain ⟨_, _, c, c', type, hbefore, he, hafter, hbase⟩ := hf
  obtain ⟨htype, rfl⟩ := typeRef_of_map hmap he
  obtain ⟨hc, hcoherent, _⟩ := hbefore ha hcoherent
  obtain ⟨e, hentry, hwritten⟩ := exists_synthesizeMap (m := m) t.ns key value hc hcoherent
  obtain ⟨_, _, hgrows⟩ := hafter (Arena.indexed_steps.synthesizeMap _ key value c hc)
    (Arena.coherent_steps.synthesizeMap _ key value c hcoherent)
  exact ⟨e, by rw [hbase, htype, hentry], hwritten.mono hgrows.entries hgrows.keeps⟩

theorem signature_length_lt (q : String × TypeExpr) :
    q.2.signature.length < (sharedSignature q).length := by
  have hlength : (sharedSignature q).length =
      ("map<" ++ q.1 ++ "," ++ q.2.signature ++ ">").length := rfl
  simp only [hlength, String.length_append]
  have hopen : "map<".length = 4 := rfl
  omega

/-- A value that an arena writes reads back as it was declared. -/
theorem Parts.Of.reads (h : p.Of m (.of m)) (hshares : SharesShapes m) {ns text : String}
    {value : TypeExpr} (hnested : ∀ q ∈ value.nestedMaps, (ns, q) ∈ m.nestings .graphql)
    (hclear : (declaredShape m ns value).leafText ∉ p.arena.wrappers.map Wrapper.name)
    (hw : p.arena.written? m ns value = some text) :
    p.arena.Reads text (declaredShape m ns value) := by
  -- The wrapper of a nested map may serve another one. Its value is no part of the first, but has a
  -- shorter signature all the same.
  induction hlength : value.signature.length using Nat.strongRecOn generalizing ns text value with
  | ind length ih =>
    cases value with
    | named name o =>
      cases hw
      exact .leaf _ hclear
    | array items o =>
      have hleaf : declaredShape m ns (.array items o) =
          .leaf (declaredShape m ns (.array items o)).leafText := by
        cases items <;> rfl
      cases hw
      rw [hleaf]
      exact .leaf _ hclear
    | map key value o =>
      obtain ⟨hself, _⟩ := List.forall_mem_cons.mp hnested
      obtain ⟨⟨ns', q⟩, hx, hσ, w, hwrapper, rfl, e, hname, he, hkey, hvalue⟩ := h.serves hw
      have hshape : declaredShape m ns (.map key value o) = nestedShape m (ns', q) :=
        hshares (ns, key, value) hself (ns', q) hx hσ.symm
      have hshorter : q.2.signature.length < length := by
        have hlt := signature_length_lt q
        rw [hσ] at hlt
        exact hlength ▸ hlt
      rw [hshape] at hclear ⊢
      have hread := ih _ hshorter (Model.nestings_closed hx) hclear hvalue rfl
      rw [nestedShape, ← hkey]
      exact .wrapper w hwrapper e he hname _ hread

theorem Parts.Of.objectsFollow (h : p.Of m (.of m)) :
    ObjectsMade (.flat m (.of m) .graphql) (Arena.Follows m)
      { usage := .classify m (.of m) .graphql } p.arena m.types p.objects :=
  allObjectDefs_made (follows_run m) (fun _ ht _ hf => Model.includes_of_mem ht hf) h.objects

theorem Parts.Of.readsBack (h : p.Of m (.of m)) (hshares : SharesShapes m)
    (hclear : p.LeavesClear m) : p.ReadsBack m := by
  intro t ht d hd
  obtain ⟨o, ho, hmade⟩ := h.objectsFollow.complete t ht d hd
  refine ⟨o, ho, hmade.1, hmade.2.1, ?_⟩
  have hfields := (List.forall₂_and_left _ _).mpr
    ⟨fun f hf => hf, hmade.fieldsWritten (Arena.indexed_start _) (Arena.coherent_start _)⟩
  refine hfields.imp fun f fd ⟨hf, hwritten⟩ key value hmap => ?_
  obtain ⟨e, hbase, he, hkey, hvalue⟩ := hwritten key value hmap
  have hx : (t.ns, key, value) ∈ m.fieldMaps .graphql :=
    Model.mem_fieldMaps.mpr ⟨f.type, Model.includes_of_mem ht hf, hmap⟩
  refine ⟨e, he, hbase, hkey, h.reads hshares (fun q hq => ?_) (hclear _ hx) hvalue⟩
  exact Model.mem_nestings.mpr ⟨_, hx, hq⟩

theorem Parts.Of.fieldMap_reads (h : p.Of m (.of m))
    (hnames : (m.writtenNames (.build m .graphql)).Nodup) (hback : p.ReadsBack m) {ns key : String}
    {value : TypeExpr} (hx : (ns, key, value) ∈ m.fieldMaps .graphql) :
    ∃ text, p.arena.written? m ns value = some text ∧
      p.arena.Reads text (declaredShape m ns value) := by
  obtain ⟨type, ⟨t, ht, rfl, f, hf, rfl⟩, hmap⟩ := Model.mem_fieldMaps.mp hx
  obtain ⟨o, ho, hname, hdir, hreads⟩ := hback t ht .output (.inl rfl)
  -- No other type is written under the name of this one, so the object was made of it.
  obtain ⟨u, hu, d, _, o', heq, hmade⟩ := h.objectsFollow.sound (.object o) ho
  cases heq
  cases hmade.2.1.symm.trans hdir
  have htypes : (m.types.map fun t => (NameTable.build m .graphql).declaredName t.ns t.name).Nodup :=
    (List.nodup_append.mp (List.nodup_append.mp hnames).1).2.1
  have hsame : u = t := List.inj_on_of_nodup_map htypes hu ht (hmade.1.symm.trans hname)
  subst hsame
  obtain ⟨fd, _, hread, hwritten⟩ := exists_of_mem_forall₂
    (forall₂_and hreads (hmade.fieldsWritten (Arena.indexed_start _) (Arena.coherent_start _))) hf
  obtain ⟨e, he, hbase, _, hread⟩ := hread key value hmap
  obtain ⟨e', hbase', he', _, hvalue⟩ := hwritten key value hmap
  have hentry : e = e' :=
    List.inj_on_of_nodup_map h.wellNamed.distinct he he' (hbase.symm.trans hbase')
  exact ⟨e.value.text, hentry ▸ hvalue, hread⟩

end Written

section Necessity

variable {m : Model} {p : Parts}

/-- A signature tells the signature of the value, if keys have no comma in them. -/
theorem signature_eq_of_shared {q k : String × TypeExpr} (hq : ',' ∉ q.1.toList)
    (hk : ',' ∉ k.1.toList) (h : sharedSignature q = sharedSignature k) :
    q.2.signature = k.2.signature := by
  have hends {x : String} (hx : ',' ∉ x.toList) : ∀ c ∈ x.toList, c ≠ ',' :=
    fun c hc he => hx (he ▸ hc)
  have hlists : (sharedSignature q).toList ++ [] = (sharedSignature k).toList ++ [] := by rw [h]
  simp only [sharedSignature, TypeExpr.signature_map_append] at hlists
  have hinner := (List.cons.inj (List.append_cancel_left hlists)).2
  obtain ⟨-, hvalues⟩ := Text.append_delimited_inj (hends hq) (hends hk) (by simp) (by simp) hinner
  exact String.toList_inj.mp (List.append_cancel_right (List.cons.inj hvalues).2)

theorem leafText_of_mem_nestedMaps (m : Model) (ns : String) {value : TypeExpr}
    {q : String × TypeExpr} (h : q ∈ value.nestedMaps) :
    (declaredShape m ns q.2).leafText = (declaredShape m ns value).leafText := by
  induction value with
  | named name o => cases h
  | array items o => cases h
  | map key value o ih =>
    rcases List.mem_cons.mp h with rfl | h
    · rfl
    · exact ih h

theorem Parts.LeavesClear.nested (h : p.LeavesClear m) {ns : String} {q : String × TypeExpr}
    (hq : (ns, q) ∈ m.nestings .graphql) :
    (declaredShape m ns q.2).leafText ∉ p.arena.wrappers.map Wrapper.name := by
  obtain ⟨k, hk, hq⟩ := Model.mem_nestings.mp hq
  rw [leafText_of_mem_nestedMaps m ns hq]
  exact h (ns, k) hk

/-- The wrapper of a nested map holds its value as the arena writes it, though it may serve another
map of the same signature. -/
theorem Parts.LeavesClear.written_of_reads (hclear : p.LeavesClear m) {ns ns' : String}
    {value : TypeExpr} {q : String × TypeExpr} (hq : (ns', q) ∈ m.nestings .graphql)
    (hsame : q.2.signature = value.signature) {k : String × TypeExpr} (hk : k ∈ value.nestedMaps)
    {text : String} (hread : p.arena.Reads text (declaredShape m ns value))
    (hw : p.arena.written? m ns' q.2 = some text) :
    p.arena.written? m ns value = some text := by
  cases value with
  | named name o => cases hk
  | array items o => cases hk
  | map key value o =>
    have hwrapper := hread.mem_of_map
    have hleaf := hclear.nested hq
    obtain ⟨key', value'⟩ := q
    cases value' with
    | named name o =>
      cases hw
      exact absurd hwrapper hleaf
    | array items o =>
      cases hw
      exact absurd hwrapper hleaf
    | map key' value' o' =>
      have hsignature : sharedSignature (key', value') = sharedSignature (key, value) := hsame
      simp only [Arena.written?] at hw ⊢
      rwa [← hsignature]

/-- If a value reads back, so does each map nested in it, from the wrapper of its signature. -/
theorem Parts.Of.nested_reads (h : p.Of m (.of m)) (hclear : p.LeavesClear m)
    (hkeys : ∀ x ∈ m.nestings .graphql, ',' ∉ x.2.1.toList) {ns text : String} {value : TypeExpr}
    (hnested : ∀ q ∈ value.nestedMaps, (ns, q) ∈ m.nestings .graphql)
    (hw : p.arena.written? m ns value = some text)
    (hread : p.arena.Reads text (declaredShape m ns value)) :
    ∀ q ∈ value.nestedMaps, ∃ name, p.arena.wrapperFor (sharedSignature q) = some name ∧
      p.arena.Reads name (nestedShape m (ns, q)) := by
  induction value generalizing text with
  | named name o => exact fun q hq => by cases hq
  | array items o => exact fun q hq => by cases hq
  | map key value o ih =>
    obtain ⟨hself, hinner⟩ := List.forall_mem_cons.mp hnested
    intro q hq
    rcases List.mem_cons.mp hq with rfl | hq
    · exact ⟨text, hw, hread⟩
    · obtain ⟨⟨ns', k⟩, hx, hσ, w, hwrapper, rfl, e, hname, he, _, hvalue⟩ := h.serves hw
      obtain ⟨v, hv, hrest⟩ := h.wellNamed.reads_wrapper hwrapper he hname hread
      -- Whichever map the wrapper serves, its value has the signature of this one.
      obtain ⟨_, rfl⟩ := MapShape.map.inj hv
      have hsame := signature_eq_of_shared (hkeys _ hx) (hkeys _ hself) hσ
      exact ih hinner (hclear.written_of_reads hx hsame hq hrest hvalue) hrest q hq

/-- If all maps read back, nested maps of one signature have one shape, and no map ends in the name
of a wrapper. -/
theorem Parts.Of.sharing_of_readsBack (h : p.Of m (.of m))
    (hnames : (m.writtenNames (.build m .graphql)).Nodup)
    (hkeys : ∀ x ∈ m.nestings .graphql, ',' ∉ x.2.1.toList) (hback : p.ReadsBack m) :
    SharesShapes m ∧ p.LeavesClear m := by
  have hclear : p.LeavesClear m := by
    rintro ⟨ns, key, value⟩ hx
    obtain ⟨text, _, hread⟩ := h.fieldMap_reads hnames hback hx
    exact hread.leafText_not_mem
  have hnested : ∀ x ∈ m.nestings .graphql, ∃ name,
      p.arena.wrapperFor (sharedSignature x.2) = some name ∧
        p.arena.Reads name (nestedShape m x) := by
    rintro ⟨ns, q⟩ hq
    obtain ⟨⟨key, value⟩, hx, hq⟩ := Model.mem_nestings.mp hq
    obtain ⟨text, hw, hread⟩ := h.fieldMap_reads hnames hback hx
    refine h.nested_reads hclear hkeys (fun k hk => ?_) hw hread q hq
    exact Model.mem_nestings.mpr ⟨_, hx, hk⟩
  -- Both shapes are read from the one wrapper of the signature.
  refine ⟨fun x hx y hy hσ => ?_, hclear⟩
  obtain ⟨n, hn, hread⟩ := hnested x hx
  obtain ⟨k, hk, hread'⟩ := hnested y hy
  rw [hσ, hk] at hn
  cases hn
  exact h.wellNamed.reads_unique hread hread'

end Necessity

/-- Maps read back as they were declared if nested maps that share a wrapper declare the same shape
and no map ends in the name of a wrapper. For keys without commas, nothing less is enough. -/
theorem render_readsBack_iff (m : Model) (r : Rendered) (h : render m (.of m) = .ok r) :
    ∃ p : Parts, p.Of m (.of m) ∧
      r.document.definitions = p.definitions m (.flat m (.of m) .graphql) ∧
      (SharesShapes m ∧ p.LeavesClear m → p.ReadsBack m) ∧
      ((∀ x ∈ m.nestings .graphql, ',' ∉ x.2.1.toList) → p.ReadsBack m →
        SharesShapes m ∧ p.LeavesClear m) := by
  obtain ⟨hconflicts, p, hp, _, hdefs⟩ := render_eq_ok h
  have hnames := (flatConflicts_of_eq_nil_iff m (.build m .graphql)).mp hconflicts
  exact ⟨p, hp, hdefs, fun hsound => hp.readsBack hsound.1 hsound.2,
    hp.sharing_of_readsBack hnames⟩

def depots (ns : String) : Model :=
  -- Two types of one name, and two maps that are written alike; the second stands in a namespace of
  -- choice.
  let stock : Field :=
    { name := "stock"
      type := .map "string" (.map "string" (.named "Item" false) false) false }
  { ns := "north"
    types :=
      [{ name := "Item", ns := "north"
         fields := [{ name := "code", type := .named "string" false }] },
       { name := "Item", ns := "south", annotations := .replicate { name := some "SouthItem" }
         fields := [{ name := "weight", type := .named "int32" false }] },
       { name := "Depot", ns := "north", fields := [stock] },
       { name := "Store", ns, fields := [stock] }] }

theorem render_readsBack_depots :
    ∃ r, render (depots "north") (.of (depots "north")) = .ok r ∧
      SharesShapes (depots "north") ∧
      ∃ p : Parts, p.Of (depots "north") (.of (depots "north")) ∧
        p.LeavesClear (depots "north") ∧ p.ReadsBack (depots "north") := by
  have hnames : (render (depots "north") (.of (depots "north"))).toOption.map
      (fun r => r.document.definitions.length) = some 10 := by decide +kernel
  have hshares : SharesShapes (depots "north") := by decide +kernel
  have hleaves : ∀ x ∈ (depots "north").fieldMaps .graphql,
      opening (declaredShape (depots "north") x.1 x.2.2).leafText ≠ ['M', 'a'] := by decide +kernel
  obtain ⟨r, hr, _⟩ := exists_ok_of_toOption hnames
  obtain ⟨p, hp, _, hback, _⟩ := render_readsBack_iff (depots "north") r hr
  have hclear : p.LeavesClear (depots "north") := by
    intro x hx hmem
    obtain ⟨i, hi⟩ := hp.wellNamed.wrappers.exists_of_mem hmem
    exact hleaves x hx (hi ▸ wrapperName_opening i)
  exact ⟨r, hr, hshares, p, hp, hclear, hback ⟨hshares, hclear⟩⟩

/-- A model without findings whose second map leads to the item of the first, so that nothing uses
its own. -/
theorem render_misread_depots :
    (validate (depots "south") {}).entries = [] ∧
      ∃ r, render (depots "south") (.of (depots "south")) = .ok r ∧
        (r.document.definitions.map Definition.name).Nodup ∧
        (∃ x ∈ (depots "south").fieldMaps .graphql,
          declaredShape (depots "south") x.1 x.2.2 = .map "String" (.leaf "SouthItem")) ∧
        (∀ d ∈ r.document.definitions, "SouthItem" ∉ d.usedNames) ∧
        ∀ p : Parts, p.Of (depots "south") (.of (depots "south")) →
          ¬p.ReadsBack (depots "south") := by
  have hdocument : (render (depots "south") (.of (depots "south"))).toOption.map
      (fun r => decide ((r.document.definitions.map Definition.name).Nodup ∧
        ∀ d ∈ r.document.definitions, "SouthItem" ∉ d.usedNames)) = some true := by
    decide +kernel
  have hkeys : ∀ x ∈ (depots "south").nestings .graphql, ',' ∉ x.2.1.toList := by decide +kernel
  have hshares : ¬SharesShapes (depots "south") := by decide +kernel
  obtain ⟨r, hr, hboth⟩ := exists_ok_of_toOption hdocument
  obtain ⟨hnodup, hunused⟩ := of_decide_eq_true hboth
  obtain ⟨hconflicts, _⟩ := render_eq_ok hr
  have hnames := (flatConflicts_of_eq_nil_iff _ (.build (depots "south") .graphql)).mp hconflicts
  refine ⟨by decide +kernel, r, hr, hnodup, by decide +kernel, hunused, fun p hp hback => ?_⟩
  exact hshares (hp.sharing_of_readsBack hnames hkeys hback).1

end Triglot.Graphql
