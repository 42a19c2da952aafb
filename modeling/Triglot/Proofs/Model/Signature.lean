import Triglot.Model.Basic

/-! What a signature tells about a type. Brackets and commas are put around names and keys without
escaping them, so a name that has one of these characters can look like another type. Where none does,
a signature tells the type up to what is optional: a name ends at the first delimiter, and an opening
one behind it tells a map or an array apart from a name. -/
namespace Triglot

/-- A text that has none of certain characters ends at the first of them. -/
theorem Text.append_delimited_inj {ends : Char → Prop} {as bs rest rest' : List Char}
    (ha : ∀ c ∈ as, ¬ ends c) (hb : ∀ c ∈ bs, ¬ ends c) (hrest : ∀ c ∈ rest.head?, ends c)
    (hrest' : ∀ c ∈ rest'.head?, ends c) (h : as ++ rest = bs ++ rest') :
    as = bs ∧ rest = rest' := by
  -- A first character by which one text is longer ends it, since the other has ended there.
  rcases List.append_eq_append_iff.mp h with ⟨more, rfl, rfl⟩ | ⟨more, rfl, rfl⟩
  · cases more with
    | nil => exact ⟨(List.append_nil as).symm, rfl⟩
    | cons c more => exact absurd (hrest c rfl) (hb c (by simp))
  · cases more with
    | nil => exact ⟨List.append_nil bs, rfl⟩
    | cons c more => exact absurd (hrest' c rfl) (ha c (by simp))

namespace TypeExpr

def delimiters : List Char := ['<', '>', '[', ']', ',']

def texts : TypeExpr → List String
  | .named n _ => [n]
  | .array items _ => items.texts
  | .map key value _ => key :: value.texts

def Plain (t : TypeExpr) : Prop := ∀ text ∈ t.texts, ∀ c ∈ text.toList, c ∉ delimiters

instance : DecidablePred Plain := fun t =>
  decidable_of_iff (t.texts.all fun text => text.toList.all fun c => !delimiters.contains c)
    (by simp [Plain])

theorem Plain.key {key : String} {value : TypeExpr} {o : Bool} (h : (map key value o).Plain) :
    ∀ c ∈ key.toList, c ∉ delimiters :=
  h key List.mem_cons_self

theorem Plain.value {key : String} {value : TypeExpr} {o : Bool} (h : (map key value o).Plain) :
    value.Plain :=
  fun text htext => h text (List.mem_cons_of_mem key htext)

def clearOptional : TypeExpr → TypeExpr
  | .named n _ => .named n false
  | .array items _ => .array items.clearOptional false
  | .map key value _ => .map key value.clearOptional false

theorem signature_clearOptional (t : TypeExpr) : t.clearOptional.signature = t.signature := by
  induction t with
  | named n o => rfl
  | array items o ih => simp only [clearOptional, signature, ih]
  | map key value o ih => simp only [clearOptional, signature, ih]

theorem signature_array_append (items : TypeExpr) (o : Bool) (rest : List Char) :
    (array items o).signature.toList ++ rest = '[' :: (items.signature.toList ++ ']' :: rest) := by
  simp [signature, String.toList_append]

/-- The signature of a map has its key and its value between delimiters, whatever follows it. -/
theorem signature_map_append (key : String) (value : TypeExpr) (o : Bool) (rest : List Char) :
    (map key value o).signature.toList ++ rest =
      "map".toList ++ '<' :: (key.toList ++ ',' :: (value.signature.toList ++ '>' :: rest)) := by
  simp [signature, String.toList_append]

def Closes (rest : List Char) : Prop := ∀ c ∈ rest.head?, c = '>' ∨ c = ']'

theorem closes_nil : Closes [] := fun _ h => absurd h (by simp)

theorem closes_cons {bracket : Char} (h : bracket = '>' ∨ bracket = ']') (rest : List Char) :
    Closes (bracket :: rest) := by
  rintro c ⟨⟩
  exact h

theorem Closes.delimited {rest : List Char} (h : Closes rest) : ∀ c ∈ rest.head?, c ∈ delimiters := by
  intro c hc
  rcases h c hc with rfl | rfl <;> decide

/-- A name is told apart from a map or an array by the bracket that opens in these. -/
theorem name_append_ne {n : String} (hn : ∀ c ∈ n.toList, c ∉ delimiters) {rest : List Char}
    (hrest : Closes rest) (front : List Char) (hfront : ∀ c ∈ front, c ∉ delimiters) {bracket : Char}
    (hbracket : bracket = '[' ∨ bracket = '<') (inner : List Char) :
    n.toList ++ rest ≠ front ++ bracket :: inner := by
  intro h
  have hopens : ∀ c ∈ (bracket :: inner).head?, c ∈ delimiters := by
    rintro c ⟨⟩
    rcases hbracket with rfl | rfl <;> decide
  obtain ⟨-, rfl⟩ := Text.append_delimited_inj hn hfront hrest.delimited hopens h
  rcases hrest bracket rfl with rfl | rfl <;> simp at hbracket

/-- Signatures that begin one text, and end before a closing bracket or with the text, are of the same
type up to what is optional. -/
theorem signature_append_inj {s t : TypeExpr} (hs : s.Plain) (ht : t.Plain) {rest rest' : List Char}
    (hrest : Closes rest) (hrest' : Closes rest')
    (h : s.signature.toList ++ rest = t.signature.toList ++ rest') :
    s.clearOptional = t.clearOptional ∧ rest = rest' := by
  have hmap : ∀ c ∈ "map".toList, c ∉ delimiters := by simp [delimiters]
  -- The rest is left open, since the bracket that closes a type belongs to the rest of what is in it.
  induction s generalizing t rest rest' with
  | named n o =>
    have hn : ∀ c ∈ n.toList, c ∉ delimiters := hs n List.mem_cons_self
    cases t with
    | named n' o' =>
      obtain ⟨hname, hr⟩ := Text.append_delimited_inj hn (ht n' List.mem_cons_self) hrest.delimited
        hrest'.delimited h
      exact ⟨by rw [clearOptional, clearOptional, String.toList_inj.mp hname], hr⟩
    | array items' o' =>
      rw [signature_array_append] at h
      exact absurd h (name_append_ne hn hrest [] (by simp) (.inl rfl) _)
    | map key' value' o' =>
      rw [signature_map_append] at h
      exact absurd h (name_append_ne hn hrest _ hmap (.inr rfl) _)
  | array items o ih =>
    rw [signature_array_append] at h
    cases t with
    | named n' o' =>
      exact absurd h.symm (name_append_ne (ht n' List.mem_cons_self) hrest' [] (by simp) (.inl rfl) _)
    | array items' o' =>
      rw [signature_array_append] at h
      obtain ⟨hitems, hr⟩ := ih (t := items') hs ht (closes_cons (.inr rfl) rest)
        (closes_cons (.inr rfl) rest') (List.cons.inj h).2
      exact ⟨by rw [clearOptional, clearOptional, hitems], (List.cons.inj hr).2⟩
    | map key' value' o' =>
      rw [signature_map_append] at h
      simp at h
  | map key value o ih =>
    rw [signature_map_append] at h
    cases t with
    | named n' o' =>
      exact absurd h.symm (name_append_ne (ht n' List.mem_cons_self) hrest' _ hmap (.inr rfl) _)
    | array items' o' =>
      rw [signature_array_append] at h
      simp at h
    | map key' value' o' =>
      rw [signature_map_append] at h
      -- The key ends at its comma, and the value at the bracket that closes the map.
      obtain ⟨hkey, hinner⟩ := Text.append_delimited_inj hs.key ht.key (by simp [delimiters])
        (by simp [delimiters]) (List.cons.inj (List.append_cancel_left h)).2
      obtain ⟨hvalue, hr⟩ := ih hs.value ht.value (closes_cons (.inl rfl) rest)
        (closes_cons (.inl rfl) rest') (List.cons.inj hinner).2
      exact ⟨by rw [clearOptional, clearOptional, String.toList_inj.mp hkey, hvalue],
        (List.cons.inj hr).2⟩

/-- Types without delimiters in their names and keys have the same signature exactly if they are the
same type up to what is optional. -/
theorem signature_eq_iff (s t : TypeExpr) (hs : s.Plain) (ht : t.Plain) :
    s.signature = t.signature ↔ s.clearOptional = t.clearOptional := by
  constructor
  · intro h
    have hlists : s.signature.toList ++ [] = t.signature.toList ++ [] := by rw [h]
    exact (signature_append_inj hs ht closes_nil closes_nil hlists).1
  · intro h
    rw [← signature_clearOptional s, ← signature_clearOptional t, h]

/-- A name with brackets in it has the signature of an array. -/
example : (named "[Item]" false).signature = (array (named "Item" false) false).signature := by
  decide

/-- A map of lists of maps, with other parts optional in the second type, and with a list at the end of
the third. -/
theorem signature_eq_iff_stock :
    let s := map "string" (.array (.map "int32" (.named "Item" true) false) true) false
    let t := map "string" (.array (.map "int32" (.named "Item" false) true) false) true
    let u := map "string" (.array (.map "int32" (.array (.named "Item" true) false) false) true) false
    (s.Plain ∧ t.Plain ∧ u.Plain) ∧ (s ≠ t ∧ s.signature = t.signature) ∧
      s.signature ≠ u.signature := by
  intro s t u
  have hs : s.Plain := by decide +kernel
  have ht : t.Plain := by decide +kernel
  have hu : u.Plain := by decide +kernel
  refine ⟨⟨hs, ht, hu⟩, ⟨by decide, ?_⟩, fun h => ?_⟩
  · exact (signature_eq_iff s t hs ht).mpr rfl
  · exact absurd ((signature_eq_iff s u hs hu).mp h) (by decide)

end TypeExpr

end Triglot
