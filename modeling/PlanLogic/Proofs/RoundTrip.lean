import Mathlib.Data.List.Forall2
import PlanLogic.Json

/-!
# PlanLogic.Proofs.RoundTrip

Formulas, facts, objects and tasks as JSON values, there and back. What is written is read back as
it was. What is read may have been said in several ways: members of other names do not matter, nor
does the order of members, and an empty list of children is as good as none. Writing it again gives
the plainest of these ways.

* `Json.Same`: one value, in whatever order its members stand.
* `Json.stripped`: a value without what reading passes over.
* `Json.Readable`: the values that formulas and facts can be read off.
* `Json.Form`: an object with a word and children and nothing else. What is written has this form,
  and so has what is stripped (`form_toJson`, `form_strippedMembers`), so the two are compared child
  by child.
* `json_round_trip`: the laws of writing and reading.
-/

namespace PlanLogic

theorem exists_mem_of_forall₂ {α β : Type} {R : α → β → Prop} {as : List α} {bs : List β}
    (h : List.Forall₂ R as bs) : ∀ a ∈ as, ∃ b ∈ bs, R a b := by
  induction h with
  | nil => simp
  | cons hab _ ih =>
    refine List.forall_mem_cons.2 ⟨⟨_, .head _, hab⟩, fun a ha => ?_⟩
    obtain ⟨b, hb, hab⟩ := ih a ha
    exact ⟨b, .tail _ hb, hab⟩

namespace Json

/-! ## Values -/

/-- No object in the value has two members of one name. -/
inductive Distinct : Json → Prop where
  | null : Distinct .null
  | bool (b : Bool) : Distinct (.bool b)
  | num (mantissa : Int) (exponent : Nat) : Distinct (.num mantissa exponent)
  | str (s : String) : Distinct (.str s)
  | arr {items : List Json} : (∀ j ∈ items, Distinct j) → Distinct (.arr items)
  | obj {members : List (String × Json)} : (members.map Prod.fst).Nodup →
      (∀ m ∈ members, Distinct m.2) → Distinct (.obj members)

/-- One value, in which members may stand in another order. -/
inductive Same : Json → Json → Prop where
  | null : Same .null .null
  | bool (b : Bool) : Same (.bool b) (.bool b)
  | num (mantissa : Int) (exponent : Nat) : Same (.num mantissa exponent) (.num mantissa exponent)
  | str (s : String) : Same (.str s) (.str s)
  | arr {items items' : List Json} : List.Forall₂ Same items items' →
      Same (.arr items) (.arr items')
  | obj {members members' : List (String × Json)} :
      (∀ key, Option.Rel Same (member? key members) (member? key members')) →
      Same (.obj members) (.obj members')

section Members

variable {key : String} {v : Json} {members : List (String × Json)}

theorem member?_eq_none_iff : member? key members = none ↔ key ∉ members.map Prod.fst := by
  induction members with
  | nil => simp [member?]
  | cons m rest ih =>
    rw [member?, List.map_cons, List.mem_cons, not_or, ← ih]
    split
    · rename_i h
      simp [h]
    · rename_i h
      simp [Ne.symm h]

theorem mem_of_member? (h : member? key members = some v) : (key, v) ∈ members := by
  induction members with
  | nil => cases h
  | cons m rest ih =>
    rw [member?] at h
    split at h
    · rename_i hkey
      cases h
      exact hkey ▸ .head _
    · exact .tail _ (ih h)

theorem Distinct.of_member? (hj : Distinct (.obj members)) (h : member? key members = some v) :
    Distinct v := by
  cases hj with
  | obj _ hvalues => exact hvalues _ (mem_of_member? h)

end Members

theorem bind_str?_eq_some_iff {o : Option Json} {s : String} :
    o.bind str? = some s ↔ o = some (.str s) := by
  cases o with
  | none => simp
  | some v => cases v <;> simp [str?]

/-- Whether a member says something of a formula: its word, or that it has children. -/
def isKept (key : String) (v : Json) : Bool :=
  match v with
  | .arr [] => key == "word"
  | _ => key == "word" || key == "args"

mutual

/-- Leaves out, at every depth, members of other names and children that are none. -/
def stripped : Json → Json
  | .obj members => .obj (strippedMembers members)
  | .arr items => .arr (strippedAll items)
  | j => j

def strippedMembers : List (String × Json) → List (String × Json)
  | [] => []
  | (key, v) :: rest =>
    if isKept key v then (key, stripped v) :: strippedMembers rest else strippedMembers rest

def strippedAll : List Json → List Json
  | [] => []
  | j :: js => stripped j :: strippedAll js

end

theorem strippedAll_eq_map (js : List Json) : strippedAll js = js.map stripped := by
  induction js with
  | nil => rfl
  | cons j js ih => rw [strippedAll, ih, List.map_cons]

/-- Names must not be repeated: behind a member that is left out there could be another one. -/
theorem member?_strippedMembers {members : List (String × Json)}
    (h : (members.map Prod.fst).Nodup) (key : String) :
    member? key (strippedMembers members) =
      ((member? key members).filter (isKept key)).map stripped := by
  induction members with
  | nil => rfl
  | cons m rest ih =>
    obtain ⟨k, v⟩ := m
    obtain ⟨hk, hrest⟩ := List.nodup_cons.1 h
    rw [strippedMembers, member?]
    by_cases hkey : k = key
    · subst hkey
      have hnone := member?_eq_none_iff.2 hk
      cases hkept : isKept k v with
      | true => simp [member?, Option.filter, hkept]
      | false => simp [ih hrest, hnone, Option.filter, hkept]
    · cases hkept : isKept k v with
      | true => simp [member?, hkey, ih hrest]
      | false => simp [hkey, ih hrest]

/-- The children as the value of a member, which there is only if there are children. -/
def argsMember? : List Json → Option Json
  | [] => none
  | items => some (.arr items)

/-- An object with a word and with children, and with no other member. -/
structure Form (word : String) (items : List Json) (members : List (String × Json)) : Prop where
  word_eq : member? "word" members = some (.str word)
  args_eq : member? "args" members = argsMember? items
  other_eq : ∀ key, key ≠ "word" → key ≠ "args" → member? key members = none

theorem Form.same {word : String} {items items' : List Json}
    {members members' : List (String × Json)} (h : Form word items members)
    (h' : Form word items' members') (hitems : List.Forall₂ Same items items') :
    Same (.obj members) (.obj members') := by
  refine .obj fun key => ?_
  by_cases hw : key = "word"
  · rw [hw, h.word_eq, h'.word_eq]
    exact .some (.str word)
  · by_cases ha : key = "args"
    · rw [ha, h.args_eq, h'.args_eq]
      cases hitems with
      | nil => exact .none
      | cons hi his => exact .some (.arr (.cons hi his))
    · rw [h.other_eq key hw ha, h'.other_eq key hw ha]
      exact .none

/-- The children, if an object is read as a formula; a missing member is taken for no children. -/
def argsValue (members : List (String × Json)) : Json := (member? "args" members).getD (.arr [])

theorem argsValue_eq_arr_iff {members : List (String × Json)} {items : List Json} :
    argsValue members = .arr items ↔
      (member? "args" members = none ∧ items = []) ∨
        member? "args" members = some (.arr items) := by
  unfold argsValue
  cases member? "args" members <;> simp [eq_comm]

theorem Form.argsValue_eq {word : String} {items : List Json} {members : List (String × Json)}
    (h : Form word items members) : argsValue members = .arr items := by
  rw [argsValue, h.args_eq]
  cases items <;> rfl

theorem Distinct.of_mem_items {members : List (String × Json)} {items : List Json} {j : Json}
    (hobj : Distinct (.obj members)) (h : argsValue members = .arr items) (hj : j ∈ items) :
    j.Distinct := by
  rcases argsValue_eq_arr_iff.1 h with ⟨-, rfl⟩ | hargs
  · cases hj
  · cases hobj.of_member? hargs with
    | arr hitems => exact hitems j hj

theorem form_strippedMembers {word : String} {items : List Json} {members : List (String × Json)}
    (hobj : Distinct (.obj members)) (hword : member? "word" members = some (.str word))
    (hargs : argsValue members = .arr items) :
    Form word (items.map stripped) (strippedMembers members) := by
  have hnames : (members.map Prod.fst).Nodup := by
    cases hobj with
    | obj hnames _ => exact hnames
  have hlookup := member?_strippedMembers hnames
  constructor
  · rw [hlookup, hword]
    rfl
  · rw [hlookup]
    rcases argsValue_eq_arr_iff.1 hargs with ⟨hnone, rfl⟩ | hsome
    · rw [hnone]
      rfl
    · rw [hsome]
      cases items with
      | nil => rfl
      | cons i is => exact congrArg (fun js => some (Json.arr js)) (strippedAll_eq_map (i :: is))
  · intro key hw ha
    have hidle : ∀ v, isKept key v = false := by
      intro v
      unfold isKept
      split <;> simp [hw, ha]
    rw [hlookup]
    cases member? key members <;> simp [Option.filter, hidle]

/-! ## What can be read -/

/-- An object with a word, and with a list of values of this kind unless there is no `args`. -/
inductive Readable : Json → Prop where
  | leaf {members : List (String × Json)} {w : String} : member? "word" members = some (.str w) →
      member? "args" members = none → Readable (.obj members)
  | node {members : List (String × Json)} {w : String} {items : List Json} :
      member? "word" members = some (.str w) → member? "args" members = some (.arr items) →
      (∀ j ∈ items, Readable j) → Readable (.obj members)

/-- A value in the list under `args`. -/
def itemAt? (i : Nat) : Json → Option Json
  | obj members =>
    match member? "args" members with
    | some (arr items) => items[i]?
    | _ => none
  | _ => none

/-- The value at the end of a path, whose steps are places under `args`. -/
def valueAt? (j : Json) : List Nat → Option Json
  | [] => some j
  | i :: path =>
    match j.itemAt? i with
    | some item => item.valueAt? path
    | none => none

end Json

namespace Formula

open Json

/-! ## Writing -/

theorem toJsonAll_eq_map (fs : List Formula) : toJsonAll fs = fs.map toJson := by
  induction fs with
  | nil => rfl
  | cons f fs ih => rw [toJsonAll, ih, List.map_cons]

theorem toJson_cons (w : String) (a : Formula) (as : List Formula) :
    toJson ⟨w, a :: as⟩ = .obj [("word", .str w), ("args", .arr ((a :: as).map toJson))] := by
  rw [toJson, toJsonAll_eq_map, List.map_cons]

/-! ## Reading -/

theorem ofJsonAll?_eq_some_iff {items : List Json} {fs : List Formula} :
    ofJsonAll? items = some fs ↔ List.Forall₂ (fun j f => ofJson? j = some f) items fs := by
  induction items generalizing fs with
  | nil => simp [ofJsonAll?, eq_comm]
  | cons j js ih =>
    simp only [ofJsonAll?, List.forall₂_cons_left_iff, ← ih]
    cases ofJson? j <;> cases ofJsonAll? js <;> simp [eq_comm]

theorem argsOfMembers?_eq (members : List (String × Json)) :
    argsOfMembers? members = argsOfJson? (argsValue members) := by
  induction members with
  | nil => rfl
  | cons m rest ih =>
    rw [argsOfMembers?, argsValue, member?]
    split
    · rfl
    · exact ih

theorem argsOfJson?_eq_some_iff {v : Json} {fs : List Formula} :
    argsOfJson? v = some fs ↔
      ∃ items, v = .arr items ∧ List.Forall₂ (fun j f => ofJson? j = some f) items fs := by
  cases v <;> simp [argsOfJson?, ofJsonAll?_eq_some_iff]

theorem ofJson?_eq_some_iff {j : Json} {f : Formula} :
    ofJson? j = some f ↔
      ∃ members items, j = .obj members ∧ member? "word" members = some (.str f.word) ∧
        argsValue members = .arr items ∧
          List.Forall₂ (fun j f => ofJson? j = some f) items f.args := by
  obtain ⟨w, args⟩ := f
  cases j with
  | obj members =>
    simp only [Json.obj.injEq, exists_and_left, exists_eq_left', ← argsOfJson?_eq_some_iff,
      ← argsOfMembers?_eq, ← bind_str?_eq_some_iff, ofJson?]
    cases (member? "word" members).bind str? <;> cases argsOfMembers? members <;> simp
  | _ => simp [ofJson?]

theorem isSome_ofJsonAll?_iff {items : List Json} :
    (ofJsonAll? items).isSome = true ↔ ∀ j ∈ items, (ofJson? j).isSome = true := by
  induction items with
  | nil => simp [ofJsonAll?]
  | cons j js ih =>
    rw [List.forall_mem_cons, ← ih, ofJsonAll?]
    cases ofJson? j <;> cases ofJsonAll? js <;> simp

theorem isSome_ofJson?_iff {members : List (String × Json)} :
    (ofJson? (.obj members)).isSome = true ↔
      (∃ w, member? "word" members = some (.str w)) ∧
        ∃ items, argsValue members = .arr items ∧ ∀ j ∈ items, (ofJson? j).isSome = true := by
  have hargs : (argsOfMembers? members).isSome = true ↔
      ∃ items, argsValue members = .arr items ∧ ∀ j ∈ items, (ofJson? j).isSome = true := by
    rw [argsOfMembers?_eq]
    cases argsValue members <;> simp [argsOfJson?, isSome_ofJsonAll?_iff]
  simp only [← hargs, ← bind_str?_eq_some_iff, ← Option.isSome_iff_exists, ofJson?]
  cases (member? "word" members).bind str? <;> cases argsOfMembers? members <;> simp

theorem readable_of_ofJson? (f : Formula) : ∀ j : Json, ofJson? j = some f → j.Readable := by
  induction f using induct with
  | step w args ih =>
    intro j h
    obtain ⟨members, items, rfl, hword, hargs, hitems⟩ := ofJson?_eq_some_iff.1 h
    rcases argsValue_eq_arr_iff.1 hargs with ⟨hnone, -⟩ | hsome
    · exact .leaf hword hnone
    · refine .node hword hsome fun i hi => ?_
      obtain ⟨a, ha, hia⟩ := exists_mem_of_forall₂ hitems i hi
      exact ih a ha i hia

theorem isSome_ofJson?_iff_readable {j : Json} : (ofJson? j).isSome = true ↔ j.Readable := by
  constructor
  · intro h
    obtain ⟨f, hf⟩ := Option.isSome_iff_exists.1 h
    exact readable_of_ofJson? f j hf
  · intro h
    induction h with
    | leaf hword hnone =>
      have hargs := argsValue_eq_arr_iff.2 (.inl ⟨hnone, rfl⟩)
      exact isSome_ofJson?_iff.2 ⟨⟨_, hword⟩, [], hargs, nofun⟩
    | node hword hsome _ ih =>
      have hargs := argsValue_eq_arr_iff.2 (.inr hsome)
      exact isSome_ofJson?_iff.2 ⟨⟨_, hword⟩, _, hargs, ih⟩

/-! ## Writing and reading -/

theorem form_toJson (f : Formula) :
    ∃ members, f.toJson = .obj members ∧ Form f.word (f.args.map toJson) members := by
  obtain ⟨w, args⟩ := f
  cases args with
  | nil =>
    refine ⟨[("word", .str w)], rfl, rfl, rfl, fun key hw _ => ?_⟩
    simp [member?, hw.symm]
  | cons a as =>
    refine ⟨_, toJson_cons w a as, rfl, rfl, fun key hw ha => ?_⟩
    simp [member?, hw.symm, ha.symm]

/-- An object of this form is read as soon as its children are. -/
theorem ofJson?_of_form {f : Formula} {items : List Json} {members : List (String × Json)}
    (h : Form f.word items members)
    (hitems : List.Forall₂ (fun j f => ofJson? j = some f) items f.args) :
    ofJson? (.obj members) = some f :=
  ofJson?_eq_some_iff.2 ⟨members, items, rfl, h.word_eq, h.argsValue_eq, hitems⟩

theorem ofJson?_toJson (f : Formula) : ofJson? f.toJson = some f := by
  induction f using induct with
  | step w args ih =>
    obtain ⟨members, hj, hform⟩ := form_toJson ⟨w, args⟩
    rw [hj]
    refine ofJson?_of_form hform ?_
    rw [List.forall₂_map_left_iff]
    exact List.forall₂_same.2 ih

/-- Both sides are objects of one form, and the children are in the same case. -/
theorem same_stripped_of_ofJson? (f : Formula) :
    ∀ j : Json, j.Distinct → ofJson? j = some f →
      f.toJson.Same j.stripped ∧ ofJson? j.stripped = some f := by
  induction f using induct with
  | step w args ih =>
    intro j hj hread
    obtain ⟨members, items, rfl, hword, hargs, hitems⟩ := ofJson?_eq_some_iff.1 hread
    obtain ⟨hlength, hpairs⟩ := List.forall₂_iff_zip.1 hitems
    have hchildren : List.Forall₂
        (fun i a => a.toJson.Same i.stripped ∧ ofJson? i.stripped = some a) items args := by
      refine List.forall₂_iff_zip.2 ⟨hlength, fun {i a} hia => ?_⟩
      obtain ⟨hi, ha⟩ := List.of_mem_zip hia
      exact ih a ha i (hj.of_mem_items hargs hi) (hpairs hia)
    obtain ⟨written, hwritten, hform⟩ := form_toJson ⟨w, args⟩
    have hform' := form_strippedMembers hj hword hargs
    rw [hwritten, stripped]
    constructor
    · refine hform.same hform' ?_
      rw [List.forall₂_map_left_iff, List.forall₂_map_right_iff]
      exact (hchildren.imp fun _ _ h => h.1).flip
    · refine ofJson?_of_form hform' ?_
      rw [List.forall₂_map_left_iff]
      exact hchildren.imp fun _ _ h => h.2

/-! ## Nodes -/

/-- The node at the end of a path, whose steps are the places of children. -/
def nodeAt? (f : Formula) : List Nat → Option Formula
  | [] => some f
  | i :: path =>
    match f.args[i]? with
    | some a => a.nodeAt? path
    | none => none

theorem itemAt?_toJson (f : Formula) (i : Nat) : f.toJson.itemAt? i = f.args[i]?.map toJson := by
  obtain ⟨members, hj, hform⟩ := form_toJson f
  rw [hj, itemAt?, hform.args_eq, ← List.getElem?_map]
  cases f.args <;> rfl

theorem valueAt?_toJson (f : Formula) (path : List Nat) :
    f.toJson.valueAt? path = (f.nodeAt? path).map toJson := by
  induction path generalizing f with
  | nil => rfl
  | cons i path ih =>
    rw [valueAt?, nodeAt?, itemAt?_toJson]
    cases f.args[i]? with
    | none => rfl
    | some a => exact ih a

/-- A node is written as an object with its word, and with `args` iff it has children. -/
theorem exists_members_toJson (n : Formula) :
    ∃ members, n.toJson = .obj members ∧ member? "word" members = some (.str n.word) ∧
      (member? "args" members = none ↔ n.args = []) := by
  obtain ⟨members, hj, hform⟩ := form_toJson n
  refine ⟨members, hj, hform.word_eq, ?_⟩
  rw [hform.args_eq]
  cases n.args <;> simp [argsMember?]

end Formula

/-! ## Objects and tasks -/

theorem Object.ofJson?_toJson (o : Object) : ofJson? o.toJson = some o := rfl

theorem Json.strs?_map_str (ss : List String) : Json.strs? (.arr (ss.map Json.str)) = some ss := by
  induction ss with
  | nil => rfl
  | cons s ss ih =>
    rw [Json.strs?] at ih ⊢
    rw [List.map_cons, List.mapM_cons, ih]
    rfl

theorem Task.ofJson?_toJson (task : Task) : ofJson? task.toJson = some task := by
  have h : (Json.member? "parameters" [("name", .str task.name),
      ("parameters", .arr (task.parameters.map Json.str))]).bind Json.strs? =
        some task.parameters :=
    Json.strs?_map_str task.parameters
  rw [toJson, ofJson?, h]
  rfl

/-! ## Facts -/

namespace Fact

theorem ofJson?_eq_some_iff {j : Json} {fact : Fact} :
    ofJson? j = some fact ↔ Formula.ofJson? j = some fact.formula := by
  obtain ⟨f⟩ := fact
  cases h : Formula.ofJson? j <;> simp [ofJson?, h]

theorem ofJson?_toJson (fact : Fact) : ofJson? fact.toJson = some fact :=
  ofJson?_eq_some_iff.2 (Formula.ofJson?_toJson fact.formula)

theorem isSome_ofJson?_iff_readable {j : Json} : (ofJson? j).isSome = true ↔ j.Readable := by
  rw [ofJson?, Option.isSome_map, Formula.isSome_ofJson?_iff_readable]

theorem same_stripped_of_ofJson? {j : Json} {fact : Fact} (hj : j.Distinct)
    (h : ofJson? j = some fact) :
    fact.toJson.Same j.stripped ∧ ofJson? j.stripped = some fact := by
  obtain ⟨hsame, hread⟩ :=
    Formula.same_stripped_of_ofJson? fact.formula j hj (ofJson?_eq_some_iff.1 h)
  exact ⟨hsame, ofJson?_eq_some_iff.2 hread⟩

end Fact

/-- Whatever is written is read back as it was, the types of objects included. At every depth a node
of a formula is written as an object with its word, and with `args` iff there are children; a fact
is written as its formula. Formulas and facts are read off the readable values and off no others. If
no object in such a value repeats a name, the formula or fact is written as the value is once it is
stripped, at every depth, of members of other names and of empty `args`; and the stripped value is
read as the same formula or fact. -/
theorem json_round_trip :
    ((∀ f : Formula, Formula.ofJson? f.toJson = some f) ∧
        (∀ fact : Fact, Fact.ofJson? fact.toJson = some fact) ∧
        (∀ o : Object, Object.ofJson? o.toJson = some o) ∧
        ∀ task : Task, Task.ofJson? task.toJson = some task) ∧
      ((∀ (f : Formula) (path : List Nat),
          f.toJson.valueAt? path = (f.nodeAt? path).map Formula.toJson) ∧
        (∀ n : Formula, ∃ members, n.toJson = .obj members ∧
          Json.member? "word" members = some (.str n.word) ∧
          (Json.member? "args" members = none ↔ n.args = [])) ∧
        ∀ fact : Fact, fact.toJson = fact.formula.toJson) ∧
      (∀ j : Json, ((Formula.ofJson? j).isSome = true ↔ j.Readable) ∧
        ((Fact.ofJson? j).isSome = true ↔ j.Readable)) ∧
      ∀ j : Json, j.Distinct →
        (∀ f, Formula.ofJson? j = some f →
          f.toJson.Same j.stripped ∧ Formula.ofJson? j.stripped = some f) ∧
        ∀ fact, Fact.ofJson? j = some fact →
          fact.toJson.Same j.stripped ∧ Fact.ofJson? j.stripped = some fact := by
  refine ⟨⟨Formula.ofJson?_toJson, Fact.ofJson?_toJson, Object.ofJson?_toJson,
    Task.ofJson?_toJson⟩, ⟨Formula.valueAt?_toJson, Formula.exists_members_toJson,
    fun _ => rfl⟩, fun j => ?_, fun j hj => ?_⟩
  · exact ⟨Formula.isSome_ofJson?_iff_readable, Fact.isSome_ofJson?_iff_readable⟩
  · exact ⟨fun f => Formula.same_stripped_of_ofJson? f j hj,
      fun fact => Fact.same_stripped_of_ofJson? hj⟩

/-- Children before the word, a child with an empty list of its own, and two members that say
nothing. A list of children that is `null` is refused. -/
theorem json_round_trip_likes :
    let ann := Json.obj [("args", .arr []), ("word", .str "ann"), ("type", .str "person")]
    let x := Json.obj [("word", .str "?x")]
    let j := Json.obj [("args", .arr [ann, x]), ("source", .null), ("word", .str "likes")]
    let f := Formula.predicate "likes" ["ann", "?x"]
    let refused := Json.obj [("word", .str "likes"), ("args", .null)]
    j.Distinct ∧ Formula.ofJson? j = some f ∧
      j.stripped = .obj [("args", .arr [.obj [("word", .str "ann")], x]), ("word", .str "likes")] ∧
      f.toJson = .obj [("word", .str "likes"), ("args", .arr [.obj [("word", .str "ann")], x])] ∧
      f.toJson.Same j.stripped ∧ Formula.ofJson? j.stripped = some f ∧
      Fact.ofJson? j.stripped = some ⟨f⟩ ∧ j.Readable ∧ ¬ refused.Readable := by
  intro ann x j f refused
  obtain ⟨-, -, hreadable, hstripped⟩ := json_round_trip
  have hann : ann.Distinct := by
    refine .obj (by decide) ?_
    simp only [List.forall_mem_cons]
    exact ⟨.arr nofun, .str _, .str _, nofun⟩
  have hx : x.Distinct := .obj (by decide) (by simpa using Json.Distinct.str "?x")
  have hj : j.Distinct := by
    refine .obj (by decide) ?_
    simp only [List.forall_mem_cons]
    refine ⟨.arr ?_, .null, .str _, nofun⟩
    simp only [List.forall_mem_cons]
    exact ⟨hann, hx, nofun⟩
  have hf : Formula.ofJson? j = some f := by decide +kernel
  have hfact : Fact.ofJson? j = some ⟨f⟩ := by decide +kernel
  have hrefused : Formula.ofJson? refused = none := by decide +kernel
  obtain ⟨hsame, hread⟩ := (hstripped j hj).1 f hf
  refine ⟨hj, hf, rfl, rfl, hsame, hread, ((hstripped j hj).2 _ hfact).2, ?_, fun h => ?_⟩
  · exact (hreadable j).1.1 (by rw [hf]; rfl)
  · exact absurd ((hreadable refused).1.2 h) (by simp [hrefused])

end PlanLogic
