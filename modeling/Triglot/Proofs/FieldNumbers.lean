import Mathlib.Data.List.Nodup
import Mathlib.Logic.Relation
import Triglot.Proofs.Numbering

/-! Numbers of the fields of a type. As long as the counter has room, a field without a number of its
own is above all earlier ones, so that two fields collide only where a later one declares the number of
an earlier one. What a target leaves out, and what is added at the end, changes no number. -/
namespace Triglot

theorem toNat_numberAfter {n : UInt32} (h : n.toNat + 1 < UInt32.size) :
    (numberAfter n).toNat = n.toNat + 1 := by
  have hsize : UInt32.size = 4294967296 := rfl
  have hne : n ≠ 4294967295 := by
    intro he
    have hlast : n.toNat = 4294967295 := congrArg UInt32.toNat he
    omega
  have hone : (1 : UInt32).toNat = 1 := rfl
  rw [numberAfter, if_neg hne, UInt32.toNat_add, hone]
  omega

theorem toNat_max (a b : UInt32) : (max a b).toNat = max a.toNat b.toNat := by
  change (if a ≤ b then b else a).toNat = _
  split
  · rename_i h
    have hle := UInt32.le_iff_toNat_le.mp h
    omega
  · rename_i h
    have hlt : ¬ a.toNat ≤ b.toNat := fun hle => h (UInt32.le_iff_toNat_le.mpr hle)
    omega

def counterAfter (next : UInt32) (f : Field) : UInt32 :=
  match f.number with
  | some n => max next (numberAfter n)
  | none => next + 1

theorem numberFrom_cons (next : UInt32) (f : Field) (fs : List Field) :
    numberFrom next (f :: fs) = (f, f.number.getD next) :: numberFrom (counterAfter next f) fs := by
  rw [numberFrom, counterAfter]
  cases f.number <;> rfl

theorem numberFrom_fields (next : UInt32) (fs : List Field) :
    (numberFrom next fs).map Prod.fst = fs := by
  induction fs generalizing next with
  | nil => rfl
  | cons f fs ih => rw [numberFrom_cons, List.map_cons, ih]

/-- Numbers depend on what comes before, and only on the counter that it leaves. -/
theorem numberFrom_append (next : UInt32) (fs new : List Field) :
    numberFrom next (fs ++ new) = numberFrom next fs ++ numberFrom (fs.foldl counterAfter next) new := by
  induction fs generalizing next with
  | nil => rfl
  | cons f fs ih =>
    rw [List.cons_append, numberFrom_cons, numberFrom_cons, ih, List.foldl_cons, List.cons_append]

def Field.declared (f : Field) : Option Int := f.number.map fun n => (n.toNat : Int)

/-- Fields follow the count without end while there is room. The bound holds for the counter and for
all declared numbers, and grows by one with each field. -/
theorem numberFrom_eq_countFrom {next : UInt32} {bound : Nat} {fs : List Field}
    (hnext : next.toNat ≤ bound)
    (hdeclared : ∀ f ∈ fs, ∀ n, f.number = some n → n.toNat < bound)
    (hroom : bound + fs.length < UInt32.size) :
    (numberFrom next fs).map (fun p => (p.1, (p.2.toNat : Int))) =
      countFrom Field.declared next.toNat fs := by
  induction fs generalizing next bound with
  | nil => rfl
  | cons f fs ih =>
    rw [List.length_cons] at hroom
    have hrest : ∀ g ∈ fs, ∀ n, g.number = some n → n.toNat < bound + 1 := by
      intro g hg n hn
      have hlt := hdeclared g (List.mem_cons_of_mem f hg) n hn
      omega
    unfold numberFrom countFrom Field.declared
    cases hf : f.number with
    | some n =>
      have hn : n.toNat < bound := hdeclared f List.mem_cons_self n hf
      have hafter : (max next (numberAfter n)).toNat = max next.toNat (n.toNat + 1) := by
        rw [toNat_max, toNat_numberAfter (by omega)]
      have hle : (max next (numberAfter n)).toNat ≤ bound + 1 := by omega
      have htail := ih hle hrest (by omega)
      have hcount : ((max next (numberAfter n)).toNat : Int) = max (next.toNat : Int) (n.toNat + 1) := by
        omega
      rw [hcount] at htail
      exact congrArg ((f, (n.toNat : Int)) :: ·) htail
    | none =>
      have hone : (1 : UInt32).toNat = 1 := rfl
      have hsize : UInt32.size = 4294967296 := rfl
      have hafter : (next + 1).toNat = next.toNat + 1 := by
        rw [UInt32.toNat_add, hone]
        omega
      have hle : (next + 1).toNat ≤ bound + 1 := by omega
      have htail := ih hle hrest (by omega)
      rw [hafter] at htail
      exact congrArg ((f, (next.toNat : Int)) :: ·) htail

def largestNumber (fs : List Field) : Nat :=
  (fs.filterMap (·.number)).foldr (fun n largest => max n.toNat largest) 0

theorem le_largestNumber {fs : List Field} {f : Field} (hf : f ∈ fs) {n : UInt32}
    (hn : f.number = some n) : n.toNat ≤ largestNumber fs := by
  have hmem : n ∈ fs.filterMap (·.number) := List.mem_filterMap.mpr ⟨f, hf, hn⟩
  unfold largestNumber
  generalize fs.filterMap (·.number) = numbers at hmem ⊢
  induction numbers with
  | nil => cases hmem
  | cons k ks ih =>
    rw [List.foldr_cons]
    rcases List.mem_cons.mp hmem with rfl | hmem
    · omega
    · have hle := ih hmem
      omega

section Room

variable {t : ObjectType} {target : Target}

/-- The counter stays in its range whatever the order of declared and other fields is. -/
def HasRoom (t : ObjectType) (target : Target) : Prop :=
  largestNumber (t.includedFields target) + (t.includedFields target).length + 1 < UInt32.size

theorem HasRoom.eq_countFrom (h : HasRoom t target) :
    (numberFields t target).map (fun p => (p.1, (p.2.toNat : Int))) =
      countFrom Field.declared 1 (t.includedFields target) := by
  unfold HasRoom at h
  have hnext : (1 : UInt32).toNat ≤ largestNumber (t.includedFields target) + 1 := by
    change 1 ≤ _
    omega
  refine numberFrom_eq_countFrom hnext ?_ (by omega)
  intro f hf n hn
  have hle := le_largestNumber hf hn
  omega

/-- A field has the number that it declares, or a positive one. -/
theorem HasRoom.cases (h : HasRoom t target) {p : Field × UInt32} (hp : p ∈ numberFields t target) :
    p.1.number = some p.2 ∨ p.1.number = none ∧ 1 ≤ p.2 := by
  have hmem : (p.1, (p.2.toNat : Int)) ∈ countFrom Field.declared 1 (t.includedFields target) := by
    rw [← h.eq_countFrom]
    exact List.mem_map_of_mem hp
  rcases countFrom_cases hmem with hsome | ⟨hnone, hle⟩
  · obtain ⟨n, hn, he⟩ := Option.map_eq_some_iff.mp hsome
    have hnat : n.toNat = p.2.toNat := by omega
    rw [hn, UInt32.toNat_inj.mp hnat]
    exact .inl rfl
  · refine .inr ⟨Option.map_eq_none_iff.mp hnone, ?_⟩
    apply UInt32.le_iff_toNat_le.mpr
    change 1 ≤ p.2.toNat
    dsimp only at hle
    omega

/-- Where there is room, a number that is given is above all before it. -/
theorem HasRoom.above (h : HasRoom t target) :
    (numberFields t target).Pairwise fun p q => q.1.number = none → p.2 < q.2 := by
  have hcount := countFrom_above Field.declared 1 (t.includedFields target)
  rw [← h.eq_countFrom, List.pairwise_map] at hcount
  refine hcount.imp fun hlt hnone => ?_
  have hless := hlt (Option.map_eq_none_iff.mpr hnone)
  apply UInt32.lt_iff_toNat_lt.mpr
  dsimp only at hless
  omega

theorem HasRoom.above_of_cut (h : HasRoom t target) {earlier later : List (Field × UInt32)}
    {p : Field × UInt32} (hcut : numberFields t target = earlier ++ p :: later)
    (hnone : p.1.number = none) : 1 ≤ p.2 ∧ ∀ q ∈ earlier, q.2 < p.2 := by
  have hp : p ∈ numberFields t target := hcut ▸ List.mem_append_cons_self
  constructor
  · rcases h.cases hp with hsome | ⟨_, hpositive⟩
    · rw [hnone] at hsome
      cases hsome
    · exact hpositive
  · intro q hq
    have hpairs := h.above
    rw [hcut, List.pairwise_append] at hpairs
    exact hpairs.2.2 q hq p List.mem_cons_self hnone

/-- A field that repeats a number cannot have taken it from the counter. -/
theorem HasRoom.declares_of_repeat (h : HasRoom t target) {earlier later : List (Field × UInt32)}
    {p q : Field × UInt32} (hcut : numberFields t target = earlier ++ p :: later) (hq : q ∈ earlier)
    (he : q.2 = p.2) : p.1.number = some p.2 := by
  have hp : p ∈ numberFields t target := hcut ▸ List.mem_append_cons_self
  rcases h.cases hp with hsome | ⟨hnone, _⟩
  · exact hsome
  · have hlt := (h.above_of_cut hcut hnone).2 q hq
    rw [he] at hlt
    exact absurd hlt (UInt32.lt_irrefl _)

end Room

section Collision

/-- Numbered fields are cut at the first one that has the number of an earlier one. The numbers before
it are distinct, so that only one field before it has its number. -/
structure CutAtRepeat (numbered earlier later : List (Field × UInt32)) (first second : Field)
    (n : UInt32) : Prop where
  cut : numbered = earlier ++ (second, n) :: later
  distinct : (earlier.map Prod.snd).Nodup
  holder : (first, n) ∈ earlier

theorem CutAtRepeat.only {numbered earlier later : List (Field × UInt32)} {first second : Field}
    {n : UInt32} (h : CutAtRepeat numbered earlier later first second n) :
    ∀ p ∈ earlier, p.2 = n → p = (first, n) := by
  intro p hp he
  exact List.inj_on_of_nodup_map h.distinct hp h.holder he

/-- A scan goes on while the numbers are distinct, and it ends with the first repetition. Those that it
has seen are kept in reverse. -/
theorem collisionAfter_cases (name : String) (seen rest : List (Field × UInt32))
    (hseen : (seen.reverse.map Prod.snd).Nodup) :
    (collisionAfter name seen rest = none ∧ ((seen.reverse ++ rest).map Prod.snd).Nodup) ∨
      ∃ earlier later first second n, CutAtRepeat (seen.reverse ++ rest) earlier later first second n ∧
        collisionAfter name seen rest = some ⟨name, n, first.name, second.name⟩ := by
  induction rest generalizing seen with
  | nil => exact .inl ⟨rfl, by rwa [List.append_nil]⟩
  | cons p rest ih =>
    unfold collisionAfter
    cases hfind : seen.find? (·.2 == p.2) with
    | some q =>
      have hsame := List.find?_some hfind
      have hnumber : q.2 = p.2 := beq_iff_eq.mp hsame
      have hholder : (q.1, p.2) ∈ seen.reverse := by
        rw [← hnumber]
        exact List.mem_reverse.mpr (List.mem_of_find?_eq_some hfind)
      exact .inr ⟨seen.reverse, rest, q.1, p.1, p.2, ⟨rfl, hseen, hholder⟩, rfl⟩
    | none =>
      have hfresh : p.2 ∉ seen.reverse.map Prod.snd := by
        intro hmem
        obtain ⟨q, hq, he⟩ := List.mem_map.mp hmem
        have hdiffers := List.find?_eq_none.mp hfind q (List.mem_reverse.mp hq)
        exact hdiffers (beq_iff_eq.mpr he)
      have hnext : ((p :: seen).reverse.map Prod.snd).Nodup := by
        rw [List.reverse_cons, List.map_append, List.nodup_append]
        refine ⟨hseen, List.nodup_singleton _, ?_⟩
        rintro a ha b hb rfl
        rw [List.map_singleton, List.mem_singleton] at hb
        exact hfresh (hb ▸ ha)
      have hmove : seen.reverse ++ p :: rest = (p :: seen).reverse ++ rest := by
        rw [List.reverse_cons, List.append_assoc]
        rfl
      rw [hmove]
      exact ih (p :: seen) hnext

/-- Either the numbers are distinct, or the first repetition is told with the field that it repeats.
-/
theorem collision?_cases (name : String) (numbered : List (Field × UInt32)) :
    (collision? name numbered = none ∧ (numbered.map Prod.snd).Nodup) ∨
      ∃ earlier later first second n, CutAtRepeat numbered earlier later first second n ∧
        collision? name numbered = some ⟨name, n, first.name, second.name⟩ :=
  collisionAfter_cases name [] numbered List.nodup_nil

/-- Numbers collide exactly where one of them is repeated. -/
theorem collision?_isSome_iff (name : String) (numbered : List (Field × UInt32)) :
    (collision? name numbered).isSome = true ↔
      ∃ earlier p later, numbered = earlier ++ p :: later ∧ ∃ q ∈ earlier, q.2 = p.2 := by
  rcases collision?_cases name numbered with ⟨hnone, hnodup⟩ | ⟨earlier, later, first, second, n, h, hsome⟩
  · rw [hnone]
    refine ⟨nofun, ?_⟩
    rintro ⟨earlier, p, later, rfl, q, hq, he⟩
    rw [List.map_append, List.nodup_append] at hnodup
    obtain ⟨_, _, hapart⟩ := hnodup
    exact absurd he (hapart q.2 (List.mem_map_of_mem hq) p.2 List.mem_cons_self)
  · rw [hsome]
    exact ⟨fun _ => ⟨earlier, (second, n), later, h.cut, (first, n), h.holder, rfl⟩, fun _ => rfl⟩

end Collision

/-- While the counter has room, a target's fields are numbered in the order of their declarations: a
declared number is kept, and any other is positive and above all earlier ones. So a collision is told
exactly if a field declares the number of an earlier one, and it tells of the first such field and of
the only earlier field with its number. -/
theorem numberFields_ordered (t : ObjectType) (target : Target)
    (hroom : largestNumber (t.includedFields target) + (t.includedFields target).length + 1 <
      UInt32.size) :
    (numberFields t target).map Prod.fst = t.fields.filter (·.includes target) ∧
      (∀ p ∈ numberFields t target, ∀ n, p.1.number = some n → p.2 = n) ∧
      (∀ earlier p later, numberFields t target = earlier ++ p :: later → p.1.number = none →
        1 ≤ p.2 ∧ ∀ q ∈ earlier, q.2 < p.2) ∧
      ∀ name,
        ((collision? name (numberFields t target)).isSome = true ↔
          ∃ earlier p later, numberFields t target = earlier ++ p :: later ∧
            p.1.number.isSome = true ∧ ∃ q ∈ earlier, q.2 = p.2) ∧
        ∀ c, collision? name (numberFields t target) = some c →
          ∃ earlier later first second,
            numberFields t target = earlier ++ (second, c.number) :: later ∧
            second.number = some c.number ∧ (earlier.map Prod.snd).Nodup ∧
            (first, c.number) ∈ earlier ∧ (∀ q ∈ earlier, q.2 = c.number → q = (first, c.number)) ∧
            c = ⟨name, c.number, first.name, second.name⟩ := by
  have hfits : HasRoom t target := hroom
  refine ⟨numberFrom_fields 1 _, ?_, fun _ _ _ => hfits.above_of_cut, fun name => ⟨?_, ?_⟩⟩
  · intro p hp n hn
    rcases hfits.cases hp with hsome | ⟨hnone, _⟩
    · exact Option.some.inj (hsome.symm.trans hn)
    · rw [hnone] at hn
      cases hn
  · rw [collision?_isSome_iff]
    constructor
    · rintro ⟨earlier, p, later, hcut, q, hq, he⟩
      have hdeclared := hfits.declares_of_repeat hcut hq he
      exact ⟨earlier, p, later, hcut, Option.isSome_of_eq_some hdeclared, q, hq, he⟩
    · rintro ⟨earlier, p, later, hcut, _, hrepeats⟩
      exact ⟨earlier, p, later, hcut, hrepeats⟩
  · intro c hc
    rcases collision?_cases name (numberFields t target) with
      ⟨hnone, _⟩ | ⟨earlier, later, first, second, n, h, hsome⟩
    · rw [hnone] at hc
      cases hc
    · rw [hsome] at hc
      cases hc
      have hdeclared := hfits.declares_of_repeat h.cut h.holder rfl
      exact ⟨earlier, later, first, second, h.cut, hdeclared, h.distinct, h.holder, h.only, rfl⟩

def invoice : ObjectType :=
  -- Declared and other numbers in turn, one field that the target leaves out, and a repetition.
  { name := "Invoice"
    fields :=
      [{ name := "id", type := .named "string" false },
       { name := "total", type := .named "int64" false, number := some 10 },
       { name := "note", type := .named "string" false, number := some 3, excludeFrom := [.proto] },
       { name := "payer", type := .named "string" false },
       { name := "lines", type := .named "int32" false, number := some 4 },
       { name := "due", type := .named "timestamp" false },
       { name := "tax", type := .named "int64" false, number := some 11 },
       { name := "paid", type := .named "bool" false, number := some 4 }] }

theorem numberFields_ordered_invoice :
    largestNumber (invoice.includedFields .proto) + (invoice.includedFields .proto).length + 1 <
        UInt32.size ∧
      (numberFields invoice .proto).map (fun p => (p.1.name, p.2)) =
        [("id", 1), ("total", 10), ("payer", 11), ("lines", 4), ("due", 12), ("tax", 11), ("paid", 4)] ∧
      collision? "Invoice" (numberFields invoice .proto) = some ⟨"Invoice", 11, "payer", "tax"⟩ ∧
      ∃ earlier later first second,
        numberFields invoice .proto = earlier ++ (second, 11) :: later ∧
          second.number = some 11 ∧ (earlier.map Prod.snd).Nodup ∧ (first, 11) ∈ earlier ∧
          first.name = "payer" ∧ second.name = "tax" := by
  have hroom : largestNumber (invoice.includedFields .proto) +
      (invoice.includedFields .proto).length + 1 < UInt32.size := by decide
  have hcollision : collision? "Invoice" (numberFields invoice .proto) =
      some ⟨"Invoice", 11, "payer", "tax"⟩ := by decide
  obtain ⟨_, _, _, hcollides⟩ := numberFields_ordered invoice .proto hroom
  obtain ⟨earlier, later, first, second, hcut, hdeclared, hnodup, hholder, _, hnames⟩ :=
    (hcollides "Invoice").2 _ hcollision
  rw [NumberCollision.mk.injEq] at hnames
  obtain ⟨_, _, hfirst, hsecond⟩ := hnames
  exact ⟨hroom, by decide, hcollision, earlier, later, first, second, hcut, hdeclared, hnodup, hholder,
    hfirst.symm, hsecond.symm⟩

section Edits

variable {target : Target} {fs gs : List Field}

/-- A change that a target does not see: a field that it leaves out comes, goes, or becomes another
field that it leaves out. -/
inductive HiddenEdit (target : Target) : List Field → List Field → Prop
  | insert (before after : List Field) {f : Field} : f.includes target = false →
      HiddenEdit target (before ++ after) (before ++ f :: after)
  | delete (before after : List Field) {f : Field} : f.includes target = false →
      HiddenEdit target (before ++ f :: after) (before ++ after)
  | change (before after : List Field) {f g : Field} : f.includes target = false →
      g.includes target = false → HiddenEdit target (before ++ f :: after) (before ++ g :: after)

/-- A change that a published format allows: one that the target does not see, or new fields behind all
others. -/
inductive CompatibleEdit (target : Target) : List Field → List Field → Prop
  | hidden {fs gs : List Field} : HiddenEdit target fs gs → CompatibleEdit target fs gs
  | append (fs new : List Field) : CompatibleEdit target fs (fs ++ new)

theorem filter_insert_hidden (before after : List Field) {f : Field} (hf : f.includes target = false) :
    (before ++ f :: after).filter (·.includes target) =
      (before ++ after).filter (·.includes target) := by
  rw [List.filter_append, List.filter_append, List.filter_cons, hf]
  rfl

theorem HiddenEdit.filter_eq (h : HiddenEdit target fs gs) :
    gs.filter (·.includes target) = fs.filter (·.includes target) := by
  cases h with
  | insert before after hf => exact filter_insert_hidden before after hf
  | delete before after hf => exact (filter_insert_hidden before after hf).symm
  | change before after hf hg =>
    rw [filter_insert_hidden before after hg, filter_insert_hidden before after hf]

theorem CompatibleEdit.filter_prefix (h : CompatibleEdit target fs gs) :
    fs.filter (·.includes target) <+: gs.filter (·.includes target) := by
  cases h with
  | hidden h =>
    have heq := h.filter_eq
    exact heq ▸ List.prefix_rfl
  | append new =>
    rw [List.filter_append]
    exact List.prefix_append _ _

/-- No sequence of hidden changes shows in what a target includes. -/
theorem filter_eq_of_hiddenEdits (h : Relation.ReflTransGen (HiddenEdit target) fs gs) :
    gs.filter (·.includes target) = fs.filter (·.includes target) := by
  induction h with
  | refl => rfl
  | tail _ hlast ih => exact hlast.filter_eq.trans ih

/-- After compatible changes, a target has its fields as before and new ones behind them. -/
theorem filter_prefix_of_compatibleEdits
    (h : Relation.ReflTransGen (CompatibleEdit target) fs gs) :
    fs.filter (·.includes target) <+: gs.filter (·.includes target) := by
  induction h with
  | refl => exact List.prefix_rfl
  | tail _ hlast ih => exact ih.trans hlast.filter_prefix

end Edits

/-- Compatible changes keep the numbers of a format. New fields or values at the end are numbered behind
the others, whose numbers stay; a change of what a target leaves out changes nothing at all; and so it is
after any history of such changes. -/
theorem numbers_stable :
    (∀ (t : ObjectType) (target : Target) (new : List Field),
      ∃ added, numberFields { t with fields := t.fields ++ new } target =
          numberFields t target ++ added ∧
        added.map Prod.fst = new.filter (·.includes target)) ∧
      (∀ (t u : ObjectType) (target : Target),
        Relation.ReflTransGen (HiddenEdit target) t.fields u.fields →
          numberFields u target = numberFields t target) ∧
      (∀ (t u : ObjectType) (target : Target),
        Relation.ReflTransGen (CompatibleEdit target) t.fields u.fields →
          numberFields t target <+: numberFields u target) ∧
      ∀ (e : EnumType) (new : List EnumMember),
        ∃ added, numberMembers { e with members := e.members ++ new } = numberMembers e ++ added ∧
          added.map Prod.fst = new := by
  refine ⟨?_, ?_, ?_, ?_⟩
  · intro t target new
    refine ⟨_, ?_, numberFrom_fields ((t.includedFields target).foldl counterAfter 1) _⟩
    unfold numberFields ObjectType.includedFields
    rw [List.filter_append, numberFrom_append]
  · intro t u target h
    unfold numberFields ObjectType.includedFields
    rw [filter_eq_of_hiddenEdits h]
  · intro t u target h
    obtain ⟨new, hnew⟩ := filter_prefix_of_compatibleEdits h
    unfold numberFields ObjectType.includedFields
    rw [← hnew, numberFrom_append]
    exact List.prefix_append _ _
  · intro e new
    exact ⟨_, numberMembersFrom_append 1 e.members new, numberMembersFrom_members _ new⟩

namespace Profile

def id : Field := { name := "id", type := .named "string" false }

def secret : Field :=
  { name := "secret", type := .named "bytes" false, number := some 2, excludeFrom := [.proto] }

def owner : Field := { name := "owner", type := .named "string" false }

def legacy : Field :=
  { name := "legacy", type := .named "int32" false, number := some 7, onlyFor := [.openapi] }

def mail : Field := { name := "mail", type := .named "string" false }

def before : ObjectType := { name := "Profile", fields := [id, secret, owner] }

def after : ObjectType := { name := "Profile", fields := [legacy, id, owner, mail] }

theorem numbers_stable_profile :
    Relation.ReflTransGen (CompatibleEdit .proto) before.fields after.fields ∧
      numberFields before .proto <+: numberFields after .proto ∧
      numberFields before .proto = [(id, 1), (owner, 2)] ∧
      numberFields after .proto = [(id, 1), (owner, 2), (mail, 3)] := by
  have hdelete : CompatibleEdit .proto [id, secret, owner] [id, owner] :=
    .hidden (.delete [id] [owner] rfl)
  have hinsert : CompatibleEdit .proto [id, owner] [legacy, id, owner] :=
    .hidden (.insert [] [id, owner] rfl)
  have happend : CompatibleEdit .proto [legacy, id, owner] [legacy, id, owner, mail] :=
    .append [legacy, id, owner] [mail]
  have hedits : Relation.ReflTransGen (CompatibleEdit .proto) before.fields after.fields :=
    .head hdelete (.head hinsert (.single happend))
  exact ⟨hedits, numbers_stable.2.2.1 before after .proto hedits, by decide, by decide⟩

end Profile

end Triglot
