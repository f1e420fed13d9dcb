import LeaderLease.Proofs.Codec
import LeaderLease.Proofs.Doubles
import LeaderLease.Redis.Script

/-!
# The script reads what was stored

An entry may be stored as an object or as a list. In an object the comparison script finds the version
of the entry, whatever else the object holds, and compares it as a binary64 number
(`compare_object`); in a list it finds none (`compare_list`). A text that a lock stored is an object
that the script can read, so below `2 ^ 53` the comparison is exact for it (`compare_encode`).
-/

set_option autoImplicit false

namespace LeaderLease

theorem Numeral.toInt?_of_toNatBelow? {n : Numeral} {bound version : Nat}
    (found : n.toNatBelow? bound = some version) : n.toInt? = some (version : Int) := by
  simp only [Numeral.toNatBelow?, Option.ite_none_right_eq_some, Option.some.injEq] at found
  obtain ⟨⟨integer, sign, -⟩, rfl⟩ := found
  rw [Numeral.toInt?, if_pos integer, sign]
  rfl

/-- The only member under its key. -/
theorem Json.filter_of_memberOnce {key : String} {members : List (Option String × Json)} {value : Json}
    (found : memberOnce key members = some (some value)) :
    ∃ member, members.filter (fun member => member.1 = some key) = [member] ∧ member.2 = value := by
  unfold memberOnce at found
  split at found
  · cases found
  · rename_i member only
    exact ⟨member, only, Option.some.inj (Option.some.inj found)⟩
  · cases found

namespace Entry

/-- The version of an entry that is given as an object stands under its key, once. -/
theorem version_of_object {members : List (Option String × Json)} {e : Entry}
    (found : ofJson? (.object members) = some e) :
    ∃ version, Json.memberOnce "version" members = some (some version) ∧
      version.toNatBelow? versionLimit = some e.version := by
  obtain ⟨version, lease, fields, readVersion, -⟩ := fields_of_ofJson? found
  simp only [Json.fields, Option.ite_none_right_eq_some, List.mapM_cons, List.mapM_nil,
    Option.bind_eq_bind, Option.bind_eq_some_iff, Option.pure_def, Option.some.injEq,
    List.cons.injEq] at fields
  obtain ⟨-, _, member, _, ⟨_, -, _, rfl, rfl⟩, rfl, -⟩ := fields
  exact ⟨version, member, readVersion⟩

/-- An entry is given as an object or as a list. -/
theorem object_or_list {j : Json} {e : Entry} (found : ofJson? j = some e) :
    (∃ members, j = .object members) ∨ ∃ items, j = .array items := by
  obtain ⟨_, _, fields, -, -⟩ := fields_of_ofJson? found
  cases j with
  | object members => exact .inl ⟨members, rfl⟩
  | array items => exact .inr ⟨items, rfl⟩
  | _ => cases fields

end Entry

namespace Redis.Script

theorem numberOf_of_toNatBelow? {j : Json} {bound version : Nat}
    (found : j.toNatBelow? bound = some version) : numberOf j = some (.ofInt version) := by
  cases j with
  | number n => rw [numberOf, numberOfNumeral, Numeral.toInt?_of_toNatBelow? found]
  | _ => cases found

/-- The script finds the version of an entry in an object. -/
theorem compare_object {stored : List UInt8} {members : List (Option String × Json)} {e : Entry}
    (decoded : decode stored = some (.object members))
    (found : Entry.ofJson? (.object members) = some e) (expected : Nat) :
    compare stored expected = .ok ((Binary64.ofInt e.version).same (.ofInt expected)) := by
  obtain ⟨_, once, readVersion⟩ := Entry.version_of_object found
  obtain ⟨member, only, rfl⟩ := Json.filter_of_memberOnce once
  have version : storedVersion (.object members) = .ok (some member.2) := by
    rw [storedVersion, only]
    rfl
  rw [compare, decoded]
  simp only [version, Option.bind_some, numberOf_of_toNatBelow? readVersion]

/-- A list has no version. -/
theorem compare_list {stored : List UInt8} {items : List Json}
    (decoded : decode stored = some (.array items)) (expected : Nat) :
    compare stored expected = .ok false := by
  rw [compare, decoded]
  rfl

theorem decode_of_read {stored : List UInt8} {text : String} {j : Json}
    (encoded : Text.ofBytes? stored = some text) (document : Json.read text.toList = some j) :
    decode stored = if isReadable nestingLimit j then some j else none := by
  rw [decode, encoded]
  simp only [Option.bind_eq_bind, Option.bind_some, document]

theorem isReadable_entry (e : Entry) : isReadable nestingLimit e.toJson = true := by
  have deep : nestingLimit = 997 + 3 := rfl
  rw [deep]
  rfl

theorem decode_encode (e : Entry) : decode (Text.bytes e.encode) = some e.toJson := by
  have document : Json.read e.encode.toList = some e.toJson := by
    rw [Entry.encode, String.toList_ofList, Json.read_text e.toJson_wellFormed]
  rw [decode_of_read (Text.ofBytes?_bytes _) document, if_pos (isReadable_entry e)]

/-- The script finds the version of an entry that a lock stored. -/
theorem compare_stored {e : Entry} (wellFormed : e.WellFormed) (expected : Nat) :
    compare (Text.bytes e.encode) expected =
      .ok ((Binary64.ofInt e.version).same (.ofInt expected)) :=
  compare_object (decode_encode e) (Entry.ofJson?_toJson wellFormed) expected

/-- Below `2 ^ 53` it finds no other version. -/
theorem compare_encode {e : Entry} (wellFormed : e.WellFormed) (small : e.version < 2 ^ 53)
    (expected : Nat) :
    compare (Text.bytes e.encode) expected = .ok (decide (e.version = expected)) := by
  have exact : (Binary64.ofInt e.version).same (.ofInt expected) = decide (e.version = expected) :=
    Bool.eq_iff_iff.mpr ((Binary64.same_ofInt_iff small expected).trans decide_eq_true_iff.symm)
  rw [compare_stored wellFormed, exact]

end Redis.Script

end LeaderLease
