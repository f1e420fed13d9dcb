import LeaderLease.Lease.Codec
import LeaderLease.Proofs.Documents
import LeaderLease.Proofs.Moments

/-!
# Stored leases read back

A lease that is well formed is read back from what is stored for it, and so is an entry with a
version of 64 bits: nothing of a holder's name, a duration, a moment or a count is lost. Nothing else
is ever read, whatever the text, so these are the leases and entries that are read back
(`readBack_iff_wellFormed`).
-/

set_option autoImplicit false

namespace LeaderLease

theorem Json.wellFormed_ofNat (n : Nat) : (Json.ofNat n).WellFormed := Numeral.wellFormed_ofNat n

theorem Json.toNatBelow?_ofNat {n bound : Nat} (inRange : n < bound) :
    (Json.ofNat n).toNatBelow? bound = some n := Numeral.toNatBelow?_ofNat inRange

theorem Json.lt_of_toNatBelow? {j : Json} {bound n : Nat} (found : j.toNatBelow? bound = some n) :
    n < bound := by
  cases j with
  | number numeral =>
      simp only [toNatBelow?, Numeral.toNatBelow?, Option.ite_none_right_eq_some,
        Option.some.injEq] at found
      omega
  | _ => cases found

namespace Duration

theorem toJson_wellFormed (d : Duration) : d.toJson.WellFormed :=
  ⟨Json.wellFormed_ofNat _, Json.wellFormed_ofNat _, trivial⟩

theorem ofJson?_toJson {d : Duration} (inRange : d.nanos < limit) : ofJson? d.toJson = some d := by
  have fields : d.toJson.fields ["secs", "nanos"] true =
      some [some (.ofNat d.seconds), some (.ofNat d.subsecond)] := rfl
  have seconds : d.seconds < Nat.pow 2 64 := by
    rw [limit] at inRange
    exact Nat.div_lt_of_lt_mul (by rwa [Nat.mul_comm])
  have nanos : d.subsecond < Nat.pow 2 32 := by
    simp only [subsecond, perSecond, Nat.pow_eq]
    omega
  rw [ofJson?, fields]
  simp only [Option.bind_eq_bind, Option.bind_some]
  rw [Json.toNatBelow?_ofNat seconds, Option.bind_some, Json.toNatBelow?_ofNat nanos,
    Option.bind_some, ofParts_seconds_subsecond, if_pos inRange]

theorem ofJson?_inRange {j : Json} {d : Duration} (found : ofJson? j = some d) :
    d.nanos < limit := by
  simp only [ofJson?, Option.bind_eq_bind, Option.bind_eq_some_iff] at found
  obtain ⟨fields, -, found⟩ := found
  split at found
  · simp only [Option.bind_eq_some_iff, Option.ite_none_right_eq_some, Option.some.injEq] at found
    obtain ⟨_, -, _, -, inRange, rfl⟩ := found
    exact inRange
  · cases found

end Duration

namespace Timestamp

theorem ofJson?_toJson {t : Timestamp} (valid : t.Valid) : ofJson? t.toJson = some t := by
  have text : t.toJson.toString? = some (String.ofList t.text) := rfl
  rw [ofJson?, text]
  simp only [Option.bind_eq_bind, Option.bind_some, String.toList_ofList, read_text valid]

theorem ofJson?_valid {j : Json} {t : Timestamp} (found : ofJson? j = some t) : t.Valid := by
  obtain ⟨text, -, found⟩ := Option.bind_eq_some_iff.mp found
  exact read_valid found

end Timestamp

namespace Lease

theorem toJson_wellFormed (l : Lease) : l.toJson.WellFormed :=
  ⟨trivial, l.duration.toJson_wellFormed, trivial, trivial, Json.wellFormed_ofNat _, trivial⟩

theorem ofJson?_toJson {l : Lease} (wellFormed : l.WellFormed) : ofJson? l.toJson = some l := by
  obtain ⟨duration, acquired, renewed, transitions⟩ := wellFormed
  have fields : l.toJson.fields ["holderIdentity", "leaseDuration", "acquireTime", "renewTime",
      "leaderTransitions"] false = some [some (.ofString l.holder), some l.duration.toJson,
        some l.acquired.toJson, some l.renewed.toJson, some (.ofNat l.transitions)] := rfl
  have holder : (Json.ofString l.holder).toString? = some l.holder := rfl
  rw [ofJson?, fields]
  simp only [Option.bind_eq_bind, Option.bind_some, holder, Duration.ofJson?_toJson duration,
    Timestamp.ofJson?_toJson acquired, Timestamp.ofJson?_toJson renewed,
    Json.toNatBelow?_ofNat transitions]

theorem decode?_encode {l : Lease} (wellFormed : l.WellFormed) : decode? l.encode = some l := by
  rw [decode?, encode, String.toList_ofList, Json.read_text l.toJson_wellFormed]
  exact ofJson?_toJson wellFormed

theorem ofJson?_wellFormed {j : Json} {l : Lease} (found : ofJson? j = some l) : l.WellFormed := by
  simp only [ofJson?, Option.bind_eq_bind, Option.bind_eq_some_iff] at found
  obtain ⟨fields, -, found⟩ := found
  split at found
  · simp only [Option.bind_eq_some_iff, Option.some.injEq] at found
    obtain ⟨_, -, _, duration, _, acquired, _, renewed, _, transitions, rfl⟩ := found
    exact ⟨Duration.ofJson?_inRange duration, Timestamp.ofJson?_valid acquired,
      Timestamp.ofJson?_valid renewed, Json.lt_of_toNatBelow? transitions⟩
  · cases found

theorem decode?_wellFormed {s : String} {l : Lease} (found : decode? s = some l) :
    l.WellFormed := by
  obtain ⟨_, -, found⟩ := Option.bind_eq_some_iff.mp found
  exact ofJson?_wellFormed found

end Lease

namespace Entry

theorem toJson_wellFormed (e : Entry) : e.toJson.WellFormed :=
  ⟨Json.wellFormed_ofNat _, e.lease.toJson_wellFormed, trivial⟩

theorem ofJson?_toJson {e : Entry} (wellFormed : e.WellFormed) : ofJson? e.toJson = some e := by
  obtain ⟨version, lease⟩ := wellFormed
  have fields : e.toJson.fields ["version", "record"] false =
      some [some (.ofNat e.version), some e.lease.toJson] := rfl
  rw [ofJson?, fields]
  simp only [Option.bind_eq_bind, Option.bind_some, Json.toNatBelow?_ofNat version,
    Lease.ofJson?_toJson lease]

theorem decode?_encode {e : Entry} (wellFormed : e.WellFormed) : decode? e.encode = some e := by
  rw [decode?, encode, String.toList_ofList, Json.read_text e.toJson_wellFormed]
  exact ofJson?_toJson wellFormed

/-- The fields from which an entry was read. -/
theorem fields_of_ofJson? {j : Json} {e : Entry} (found : ofJson? j = some e) :
    ∃ version lease, j.fields ["version", "record"] false = some [some version, some lease] ∧
      version.toNatBelow? versionLimit = some e.version ∧ Lease.ofJson? lease = some e.lease := by
  simp only [ofJson?, Option.bind_eq_bind, Option.bind_eq_some_iff] at found
  obtain ⟨fields, given, found⟩ := found
  split at found
  · rename_i version lease
    simp only [Option.bind_eq_some_iff, Option.some.injEq] at found
    obtain ⟨_, readVersion, _, readLease, rfl⟩ := found
    exact ⟨version, lease, given, readVersion, readLease⟩
  · cases found

theorem decode?_wellFormed {s : String} {e : Entry} (found : decode? s = some e) :
    e.WellFormed := by
  obtain ⟨_, -, found⟩ := Option.bind_eq_some_iff.mp found
  obtain ⟨version, lease, -, readVersion, readLease⟩ := fields_of_ofJson? found
  exact ⟨Json.lt_of_toNatBelow? readVersion, Lease.ofJson?_wellFormed readLease⟩

/-- What is stored for an entry is read back as this entry, and what is stored for a lease as this
lease, exactly if they are well formed: any version of 64 bits, any text as the holder, any duration
whose seconds have 64 bits, any two moments, any count of 32 bits. -/
theorem readBack_iff_wellFormed (e : Entry) (l : Lease) :
    (decode? e.encode = some e ↔ e.WellFormed) ∧
      (Lease.decode? l.encode = some l ↔ l.WellFormed) :=
  ⟨⟨decode?_wellFormed, decode?_encode⟩, ⟨Lease.decode?_wellFormed, Lease.decode?_encode⟩⟩

end Entry

end LeaderLease
