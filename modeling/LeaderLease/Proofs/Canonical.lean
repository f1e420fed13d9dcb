import LeaderLease.Handling.Object
import LeaderLease.Proofs.Documents
import Mathlib.Data.List.Induction

/-!
# Objects have one text

Many texts are read as the same object: its fields may come in any order or as an array, its data
may be missing, and the members of its data may come in any order and repeatedly. What is read is
canonical (`canonical_of_ofJson?`): members are sorted by key, each key stands once, and nothing is
nested deeper than a reader follows. A canonical value is read back from the document that is
written for it (`ofJson?_toJson`), and so is an object from its text (`stable_of_decode`). Numbers
are whole here: a real number may be rounded when it is read.
-/

set_option autoImplicit false

namespace LeaderLease

/-! ## Whole numbers -/

/-- In the range of signed or of unsigned 64 bits. -/
def IsWord (i : Int) : Prop := -(Nat.pow 2 63 : Int) ≤ i ∧ i < Nat.pow 2 64

instance (i : Int) : Decidable (IsWord i) := inferInstanceAs (Decidable (_ ∧ _))

namespace Numeral

/-- An integer literal of 64 bits; minus zero is none. -/
def isWhole (n : Numeral) : Bool :=
  match n.toInt? with
  | some i => IsWord i
  | none => false

theorem exists_word {n : Numeral} (whole : n.isWhole = true) :
    ∃ i, n.toInt? = some i ∧ IsWord i := by
  unfold isWhole at whole
  split at whole
  · rename_i i integer
    exact ⟨i, integer, of_decide_eq_true whole⟩
  · cases whole

theorem wellFormed_ofInt (i : Int) : (ofInt i).WellFormed where
  whole := fun _ => Decimal.isDigit_of_mem_digits
  inhabited := Decimal.digits_ne_nil _
  leading := Decimal.digits_leading _
  fraction := nofun
  exponent := .inl rfl

theorem toInt?_ofInt (i : Int) : (ofInt i).toInt? = some i := by
  have value : Decimal.value (ofInt i).whole = i.natAbs := Decimal.value_digits _
  have integer : (ofInt i).isInteger = true := rfl
  have sign : (ofInt i).negative = decide (i < 0) := rfl
  rw [toInt?, if_pos integer, value, sign]
  by_cases negative : i < 0
  · have nonzero : i.natAbs ≠ 0 := by omega
    have denoted : -(i.natAbs : Int) = i := by omega
    rw [if_pos (decide_eq_true negative), if_neg nonzero, denoted]
  · have denoted : (i.natAbs : Int) = i := by omega
    rw [if_neg (mt of_decide_eq_true negative), denoted]

end Numeral

namespace Json

mutual

/-- The numbers of a document, in their order. -/
def numerals : Json → List Numeral
  | .number n => [n]
  | .array items => itemsNumerals items
  | .object members => membersNumerals members
  | .null | .bool _ | .string _ => []

def itemsNumerals : List Json → List Numeral
  | [] => []
  | item :: items => numerals item ++ itemsNumerals items

def membersNumerals : List (Option String × Json) → List Numeral
  | [] => []
  | (_, value) :: members => numerals value ++ membersNumerals members

end

theorem numerals_subset_items {item : Json} {items : List Json} (member : item ∈ items) :
    item.numerals ⊆ itemsNumerals items := by
  induction items with
  | nil => cases member
  | cons first items ih =>
      intro n found
      rw [itemsNumerals, List.mem_append]
      rcases List.mem_cons.mp member with rfl | later
      · exact .inl found
      · exact .inr (ih later found)

theorem numerals_subset_members {member : Option String × Json}
    {members : List (Option String × Json)} (inside : member ∈ members) :
    member.2.numerals ⊆ membersNumerals members := by
  induction members with
  | nil => cases inside
  | cons first members ih =>
      intro n found
      rw [membersNumerals, List.mem_append]
      rcases List.mem_cons.mp inside with rfl | later
      · exact .inl found
      · exact .inr (ih later found)

end Json

/-! ## Rows of values -/

theorem exists_of_mem_mapM {α β : Type} {f : α → Option β} {as : List α} {bs : List β}
    (read : as.mapM f = some bs) : ∀ b ∈ bs, ∃ a ∈ as, f a = some b := by
  induction as generalizing bs with
  | nil =>
      cases read
      intro b member
      cases member
  | cons a as ih =>
      simp only [List.mapM_cons, Option.pure_def, Option.bind_eq_bind, Option.bind_eq_some_iff,
        Option.some.injEq] at read
      obtain ⟨first, here, rest, there, rfl⟩ := read
      intro b member
      rcases List.mem_cons.mp member with rfl | later
      · exact ⟨a, List.mem_cons_self, here⟩
      · obtain ⟨a', inside, found⟩ := ih there b later
        exact ⟨a', List.mem_cons_of_mem a inside, found⟩

theorem mapM_map_eq_some {α β : Type} {f : α → Option β} {g : β → α} {bs : List β}
    (back : ∀ b ∈ bs, f (g b) = some b) : (bs.map g).mapM f = some bs := by
  induction bs with
  | nil => rfl
  | cons b bs ih =>
      rw [List.map_cons, List.mapM_cons, back b List.mem_cons_self,
        ih fun c member => back c (List.mem_cons_of_mem b member)]
      rfl

namespace JsonValue

/-! ## Sorted members -/

def Sorted (members : List (String × JsonValue)) : Prop :=
  members.Pairwise fun m n => m.1 < n.1

theorem mem_insertMember {key : String} {value : JsonValue} {members : List (String × JsonValue)}
    {m : String × JsonValue} (inside : m ∈ insertMember key value members) :
    m = (key, value) ∨ m ∈ members := by
  induction members with
  | nil => exact .inl (List.mem_singleton.mp inside)
  | cons first members ih =>
      unfold insertMember at inside
      split at inside
      · exact List.mem_cons.mp inside
      · split at inside
        · exact (List.mem_cons.mp inside).imp_right (List.mem_cons_of_mem first)
        · rcases List.mem_cons.mp inside with rfl | later
          · exact .inr List.mem_cons_self
          · exact (ih later).imp_right (List.mem_cons_of_mem first)

theorem sorted_insertMember {members : List (String × JsonValue)} (sorted : Sorted members)
    (key : String) (value : JsonValue) : Sorted (insertMember key value members) := by
  induction members with
  | nil => exact List.pairwise_singleton _ _
  | cons first members ih =>
      obtain ⟨above, rest⟩ := List.pairwise_cons.mp sorted
      unfold insertMember
      split
      · rename_i before
        refine List.pairwise_cons.mpr ⟨?_, sorted⟩
        intro m inside
        rcases List.mem_cons.mp inside with rfl | later
        · exact before
        · exact String.lt_trans before (above m later)
      · split
        · rename_i same
          exact List.pairwise_cons.mpr ⟨same ▸ above, rest⟩
        · rename_i notBefore differs
          -- The key goes behind the first member, as all the others stand already.
          have behind : first.1 < key :=
            Std.lt_of_le_of_ne (String.not_lt.mp notBefore) (Ne.symm differs)
          refine List.pairwise_cons.mpr ⟨?_, ih rest⟩
          intro m inside
          rcases mem_insertMember inside with rfl | old
          · exact behind
          · exact above m old

theorem ofMembers_concat (members : List (String × JsonValue)) (m : String × JsonValue) :
    ofMembers (members ++ [m]) = insertMember m.1 m.2 (ofMembers members) := List.foldl_append

theorem sorted_ofMembers (members : List (String × JsonValue)) : Sorted (ofMembers members) := by
  induction members using List.reverseRecOn with
  | nil => exact List.Pairwise.nil
  | append_singleton members m ih =>
      rw [ofMembers_concat]
      exact sorted_insertMember ih m.1 m.2

theorem mem_ofMembers {members : List (String × JsonValue)} {m : String × JsonValue}
    (inside : m ∈ ofMembers members) : m ∈ members := by
  induction members using List.reverseRecOn with
  | nil => cases inside
  | append_singleton members n ih =>
      rw [ofMembers_concat] at inside
      rcases mem_insertMember inside with rfl | old
      · exact List.mem_append_right members List.mem_cons_self
      · exact List.mem_append_left [n] (ih old)

/-- A member whose key comes last is appended. -/
theorem insertMember_last {members : List (String × JsonValue)} {key : String} (value : JsonValue)
    (last : ∀ m ∈ members, m.1 < key) :
    insertMember key value members = members ++ [(key, value)] := by
  induction members with
  | nil => rfl
  | cons first members ih =>
      have before := last first List.mem_cons_self
      have differs : key ≠ first.1 := by
        rintro rfl
        exact String.lt_irrefl _ before
      rw [insertMember, if_neg (String.lt_asymm before), if_neg differs,
        ih fun m inside => last m (List.mem_cons_of_mem first inside), List.cons_append]

theorem ofMembers_of_sorted {members : List (String × JsonValue)} (sorted : Sorted members) :
    ofMembers members = members := by
  induction members using List.reverseRecOn with
  | nil => rfl
  | append_singleton members m ih =>
      obtain ⟨rest, -, last⟩ := List.pairwise_append.mp sorted
      rw [ofMembers_concat, ih rest]
      exact insertMember_last m.2 fun n inside => last n inside m List.mem_cons_self

/-! ## Canonical values -/

/-- What is read from a document with whole numbers, nested at most `depth` deep. -/
def Canonical : Nat → JsonValue → Prop
  | _, .null => True
  | _, .bool _ => True
  | _, .int i => IsWord i
  | _, .real _ _ => False
  | _, .text _ => True
  | 0, .list _ => False
  | 0, .record _ => False
  | depth + 1, .list items => ∀ v ∈ items, Canonical depth v
  | depth + 1, .record members => Sorted members ∧ ∀ m ∈ members, Canonical depth m.2

theorem ofNumeral?_of_toInt? {n : Numeral} {i : Int} (integer : n.toInt? = some i)
    (word : IsWord i) : ofNumeral? n = some (.int i) := by
  rw [ofNumeral?, integer]
  exact if_pos word

theorem canonical_of_ofJson? : ∀ {depth : Nat} {j : Json} {v : JsonValue},
    ofJson? depth j = some v → (∀ n ∈ j.numerals, n.isWhole = true) → v.Canonical depth
  | _, .null, _, read, _ => by
      simp only [ofJson?, Option.some.injEq] at read
      subst read
      simp [Canonical]
  | _, .bool b, _, read, _ => by
      simp only [ofJson?, Option.some.injEq] at read
      subst read
      simp [Canonical]
  | _, .number n, _, read, whole => by
      obtain ⟨i, integer, word⟩ := Numeral.exists_word (whole n (by simp [Json.numerals]))
      simp only [ofJson?, ofNumeral?_of_toInt? integer word, Option.some.injEq] at read
      subst read
      simpa [Canonical] using word
  | _, .string s, _, read, _ => by
      simp only [ofJson?, Option.map_eq_some_iff] at read
      obtain ⟨text, -, rfl⟩ := read
      simp [Canonical]
  | depth + 1, .array items, _, read, whole => by
      simp only [ofJson?, Option.map_eq_some_iff] at read
      obtain ⟨values, read, rfl⟩ := read
      rw [Canonical]
      intro v inside
      obtain ⟨item, member, found⟩ := exists_of_mem_mapM read v inside
      exact canonical_of_ofJson? found fun n number =>
        whole n (Json.numerals_subset_items member number)
  | depth + 1, .object members, _, read, whole => by
      simp only [ofJson?, Option.map_eq_some_iff] at read
      obtain ⟨values, read, rfl⟩ := read
      rw [Canonical]
      refine ⟨sorted_ofMembers values, ?_⟩
      intro m inside
      obtain ⟨member, there, found⟩ := exists_of_mem_mapM read m (mem_ofMembers inside)
      simp only [Option.bind_eq_some_iff, Option.map_eq_some_iff] at found
      obtain ⟨key, -, value, found, rfl⟩ := found
      exact canonical_of_ofJson? found fun n number =>
        whole n (Json.numerals_subset_members there number)

theorem itemsToJson_eq (items : List JsonValue) : itemsToJson items = items.map toJson := by
  induction items with
  | nil => rfl
  | cons item items ih => rw [itemsToJson, ih, List.map_cons]

theorem membersToJson_eq (members : List (String × JsonValue)) :
    membersToJson members = members.map fun m => (some m.1, m.2.toJson) := by
  induction members with
  | nil => rfl
  | cons m members ih => rw [membersToJson, ih, List.map_cons]

/-- A canonical value is read back from its document. -/
theorem ofJson?_toJson : ∀ {depth : Nat} {v : JsonValue}, v.Canonical depth →
    ofJson? depth v.toJson = some v
  | _, .null, _ => by simp [toJson, ofJson?]
  | _, .bool b, _ => by simp [toJson, ofJson?]
  | _, .int i, canonical => by
      simp only [Canonical] at canonical
      simp only [toJson, Json.ofInt, ofJson?]
      exact ofNumeral?_of_toInt? (Numeral.toInt?_ofInt i) canonical
  | _, .real _ _, canonical => by simp [Canonical] at canonical
  | _, .text s, _ => by simp [toJson, Json.ofString, ofJson?]
  | depth + 1, .list items, canonical => by
      rw [Canonical] at canonical
      have back := mapM_map_eq_some fun v inside => ofJson?_toJson (canonical v inside)
      rw [toJson, itemsToJson_eq, ofJson?, back]
      rfl
  | depth + 1, .record members, canonical => by
      rw [Canonical] at canonical
      obtain ⟨sorted, canonical⟩ := canonical
      have back : (members.map fun m => ((some m.1 : Option String), m.2.toJson)).mapM
          (fun (member : Option String × Json) => member.1.bind fun key =>
            (ofJson? depth member.2).map fun value => (key, value)) = some members := by
        refine mapM_map_eq_some fun m inside => ?_
        simp [ofJson?_toJson (canonical m inside)]
      rw [toJson, membersToJson_eq, ofJson?, back, Option.map_some, ofMembers_of_sorted sorted]

theorem itemsWellFormed {items : List JsonValue} (each : ∀ v ∈ items, v.toJson.WellFormed) :
    Json.ItemsWellFormed (itemsToJson items) := by
  induction items with
  | nil => trivial
  | cons item items ih =>
      refine ⟨each item List.mem_cons_self, ih ?_⟩
      intro v inside
      exact each v (List.mem_cons_of_mem item inside)

theorem membersWellFormed {members : List (String × JsonValue)}
    (each : ∀ m ∈ members, m.2.toJson.WellFormed) :
    Json.MembersWellFormed (membersToJson members) := by
  induction members with
  | nil => trivial
  | cons m members ih =>
      refine ⟨each m List.mem_cons_self, ih ?_⟩
      intro n inside
      exact each n (List.mem_cons_of_mem m inside)

theorem wellFormed_toJson : ∀ {depth : Nat} {v : JsonValue}, v.Canonical depth →
    v.toJson.WellFormed
  | _, .null, _ => trivial
  | _, .bool _, _ => trivial
  | _, .int i, _ => Numeral.wellFormed_ofInt i
  | _, .real _ _, canonical => by simp [Canonical] at canonical
  | _, .text _, _ => trivial
  | depth + 1, .list items, canonical => by
      rw [Canonical] at canonical
      exact itemsWellFormed fun v inside => wellFormed_toJson (canonical v inside)
  | depth + 1, .record members, canonical => by
      rw [Canonical] at canonical
      exact membersWellFormed fun m inside => wellFormed_toJson (canonical.2 m inside)

end JsonValue

/-! ## Objects -/

namespace Object

/-- The data of an object in its text, if there are any. -/
def dataOf (text : String) : Option Json := do
  let [_, _, _, data] ← (← Json.read text.toList).fields ["kind", "namespace", "name", "data"] false
    | none
  data

/-- All numbers in the data are integer literals of 64 bits. -/
def hasWholeData (text : String) : Bool :=
  match dataOf text with
  | some data => data.numerals.all Numeral.isWhole
  | none => true

theorem canonical_of_decode? {text : String} {o : Object} (decoded : decode? text = some o)
    (whole : hasWholeData text = true) : o.data.Canonical (JsonValue.nestingLimit - 1) := by
  simp only [decode?, ofJson?, Option.bind_eq_bind, Option.bind_eq_some_iff] at decoded
  obtain ⟨j, read, fields, given, decoded⟩ := decoded
  split at decoded
  · rename_i kind ns name data
    simp only [Option.bind_eq_some_iff, Option.some.injEq] at decoded
    obtain ⟨_, -, _, -, _, -, value, meant, rfl⟩ := decoded
    cases data with
    | none =>
        cases meant
        trivial
    | some document =>
        have located : dataOf text = some document := by
          simp [dataOf, read, given]
        rw [hasWholeData, located, List.all_eq_true] at whole
        exact JsonValue.canonical_of_ofJson? meant whole
  · cases decoded

theorem toJson_wellFormed {o : Object}
    (canonical : o.data.Canonical (JsonValue.nestingLimit - 1)) : o.toJson.WellFormed :=
  ⟨⟨trivial, trivial, trivial, trivial⟩, trivial, trivial, JsonValue.wellFormed_toJson canonical,
    trivial⟩

theorem decode?_encode {o : Object} (canonical : o.data.Canonical (JsonValue.nestingLimit - 1)) :
    decode? o.encode = some o := by
  have fields : o.toJson.fields ["kind", "namespace", "name", "data"] false =
      some [some o.kind.toJson, some (.ofString o.ns), some (.ofString o.name),
        some o.data.toJson] := rfl
  have kind : ObjectKind.ofJson? o.kind.toJson = some o.kind := rfl
  have data : dataOfJson? (some o.data.toJson) = some o.data := JsonValue.ofJson?_toJson canonical
  rw [decode?, encode, String.toList_ofList, Json.read_text (toJson_wellFormed canonical)]
  simp only [Option.bind_eq_bind, Option.bind_some, ofJson?, fields, kind, data]
  rfl

/-- An object that was read, from any of its spellings, is read back from the text that is written
for it, and what is written then is this text again. -/
theorem stable_of_decode {text : String} {o : Object} (decoded : decode? text = some o)
    (whole : hasWholeData text = true) :
    decode? o.encode = some o ∧ ∀ o', decode? o.encode = some o' → o'.encode = o.encode := by
  have back := decode?_encode (canonical_of_decode? decoded whole)
  refine ⟨back, ?_⟩
  intro o' again
  cases back.symm.trans again
  rfl

/-- A kind as an array, fields in another order and one that nobody reads, and a key that is given
twice, the first time for the least integer of 64 bits. -/
def oddSpelling : String :=
  "\x7b\"name\":\"a\", \"more\":[1e9],\"kind\":[\"apps\",\"v1\",\"Pod\"],\"data\":\x7b\"z\":" ++
    "-9223372036854775808,\"b\":[\"\\u0041\",18446744073709551615],\"z\":\x7b\"y\":null," ++
    "\"\":[]\x7d\x7d,\"namespace\" : \"\"\x7d"

def ownSpelling : String :=
  "\x7b\"kind\":\x7b\"group\":\"apps\",\"version\":\"v1\",\"kind\":\"Pod\"\x7d," ++
    "\"namespace\":\"\",\"name\":\"a\",\"data\":\x7b\"b\":[\"A\",18446744073709551615]," ++
    "\"z\":\x7b\"\":[],\"y\":null\x7d\x7d\x7d"

theorem stable_of_decode_oddSpelling :
    ∃ o, decode? oddSpelling = some o ∧ hasWholeData oddSpelling = true ∧
      o.encode = ownSpelling ∧ decode? ownSpelling = some o := by
  have read : (decode? oddSpelling).map encode = some ownSpelling ∧
      hasWholeData oddSpelling = true := by decide +kernel
  obtain ⟨spelled, whole⟩ := read
  obtain ⟨o, decoded, written⟩ := Option.map_eq_some_iff.mp spelled
  have stable := stable_of_decode decoded whole
  exact ⟨o, decoded, whole, written, written ▸ stable.1⟩

end Object

end LeaderLease
