import LeaderLease.Proofs.Agreement
import LeaderLease.Proofs.Outcomes

/-!
# What calls on a server depend on

A call depends on the value under the key of its lock, on how the server reads it, and on whether the
server knows the script if it cannot be loaded. So from servers that are alike in this it is answered alike, and leaves them
alike (`perform_alike`). A call for another key leaves them alike too (`alike_elsewhere`).
-/

set_option autoImplicit false

namespace LeaderLease

namespace Redis

/-- A command for the value under a key, or for the script. -/
def Command.Concerns (key : String) : Command → Prop
  | .get k => k = key
  | .setIfAbsent k _ => k = key
  | .loadScript => True
  | .runScript k _ _ => k = key

/-- Servers with the same value under a key that they read alike, where either both know the script
or none does, unless it makes no difference. -/
structure Alike (primes : Prop) (key : String) (s t : Server) : Prop where
  data : s.data.get? key = t.data.get? key
  foreign : s.foreign = t.foreign
  script : s.loaded = t.loaded ∨ primes

/-- The same answer, and servers that are alike behind it. -/
def AnsweredAlike {α : Type} (primes : Prop) (key : String) (x y : α × Server) : Prop :=
  ∃ answer s t, x = (answer, s) ∧ y = (answer, t) ∧ Alike primes key s t

variable {s t : Server} {key : String} {link : Link} {l : Lock} {primes : Prop}

theorem Alike.symm (alike : Alike primes key s t) : Alike primes key t s :=
  ⟨alike.data.symm, alike.foreign.symm, alike.script.imp_left Eq.symm⟩

theorem Alike.answered {α : Type} (alike : Alike primes key s t) (answer : α) :
    AnsweredAlike primes key (answer, s) (answer, t) :=
  ⟨answer, s, t, rfl, rfl, alike⟩

theorem Alike.put (alike : Alike primes key s t) (value : List UInt8) :
    Alike primes key { s with data := s.data.put key value }
      { t with data := t.data.put key value } :=
  ⟨by rw [Table.get?_put_self, Table.get?_put_self], alike.foreign, alike.script⟩

theorem Alike.primed (alike : Alike primes key s t) : Alike primes key s.primed t.primed :=
  ⟨alike.data, alike.foreign, .inl rfl⟩

/-! ## Commands -/

theorem Server.swap_alike (alike : Alike primes key s t) (version : Nat) (value : List UInt8) :
    AnsweredAlike primes key (s.swap key version value) (t.swap key version value) := by
  simp only [swap, alike.data, compare_congr alike.foreign]
  split
  · exact alike.answered _
  · split
    · exact alike.answered _
    · exact alike.answered _
    · exact (alike.put value).answered _

theorem Server.run_alike (alike : Alike primes key s t) (command : Command)
    (concerns : command.Concerns key)
    (known : s.loaded = t.loaded ∨ ∀ k version value, command ≠ .runScript k version value) :
    AnsweredAlike primes key (s.run command) (t.run command) := by
  cases command with
  | get k =>
      obtain rfl : k = key := concerns
      simp only [run, alike.data]
      split <;> exact alike.answered _
  | setIfAbsent k value =>
      obtain rfl : k = key := concerns
      cases held : t.data.get? k with
      | none =>
          simp only [run, Table.contains, alike.data, held]
          exact (alike.put value).answered _
      | some current =>
          simp only [run, Table.contains, alike.data, held]
          exact alike.answered _
  | loadScript => exact alike.primed.answered _
  | runScript k version value =>
      obtain rfl : k = key := concerns
      have same := known.resolve_right fun other => other k version value rfl
      simp only [run, same]
      split
      · exact swap_alike alike version value
      · exact alike.answered _

theorem Link.send_alike (alike : Alike primes key s t) (command : Command)
    (concerns : command.Concerns key)
    (known : s.loaded = t.loaded ∨ ∀ k version value, command ≠ .runScript k version value) :
    AnsweredAlike primes key (link.send s command) (link.send t command) := by
  rcases link.send_cases command with sent | ⟨reason, sent⟩ | sent
  · rw [sent, sent]
    exact alike.answered _
  · rw [sent, sent]
    exact alike.answered _
  · obtain ⟨reply, _, _, ranS, ranT, after⟩ := Server.run_alike alike command concerns known
    rw [sent, sent, ranS, ranT]
    exact after.answered _

theorem Server.run_loaded (server : Server) {command : Command} (other : command ≠ .loadScript) :
    (server.run command).2.loaded = server.loaded := by
  cases command with
  | loadScript => exact absurd rfl other
  | get k => unfold run; dsimp only; split <;> rfl
  | setIfAbsent k value => unfold run; dsimp only; split <;> rfl
  | runScript k version value =>
      unfold run swap
      dsimp only
      split
      · split
        · rfl
        · split <;> rfl
      · rfl

/-- The script can be loaded, or no command changes whether it is known. -/
theorem Link.loads_or_keeps (link : Link) : link.Loads ∨
    ∀ server command, (link.send server command).2.loaded = server.loaded := by
  by_cases loads : link.Loads
  · exact .inl loads
  · refine .inr fun server command => ?_
    rcases link.send_cases command with sent | ⟨reason, sent⟩ | sent
    · rw [sent]
    · rw [sent]
    · by_cases loading : command = .loadScript
      · subst loading
        exact absurd sent loads
      · rw [sent]
        exact server.run_loaded loading

/-! ## Calls -/

namespace Lock

theorem runScript_of_agreement (link : Link) (agree : Alike False l.key s t) (version : Nat)
    (value : List UInt8) :
    AnsweredAlike False l.key (l.runScript link s version value)
      (l.runScript link t version value) := by
  have sent := fun {s t : Server} (agree : Alike False l.key s t) =>
    link.send_alike agree (.runScript l.key version value) rfl
      (.inl (agree.script.resolve_right id))
  obtain ⟨reply, s, t, sentS, sentT, agree⟩ := sent agree
  simp only [runScript, sentS, sentT]
  cases reply with
  | none => exact agree.answered _
  | some reply =>
      cases reply with
      | noScript =>
          obtain ⟨reply, s, t, loadS, loadT, agree⟩ :=
            link.send_alike agree .loadScript trivial (.inr (by rintro _ _ _ ⟨⟩))
          simp only [loadS, loadT]
          cases reply with
          | none => exact agree.answered _
          | some reply =>
              cases reply with
              | ok => exact sent agree
              | _ => exact agree.answered _
      | _ => exact agree.answered _

theorem runScript_alike (alike : Alike link.Loads l.key s t) (version : Nat) (value : List UInt8) :
    AnsweredAlike link.Loads l.key (l.runScript link s version value)
      (l.runScript link t version value) := by
  rcases alike.script with same | loads
  -- Servers that agree on whether the script is known go on to do so, command by command.
  · obtain ⟨reply, _, _, ranS, ranT, agree⟩ :=
      runScript_of_agreement link ⟨alike.data, alike.foreign, .inl same⟩ version value
    exact ⟨reply, _, _, ranS, ranT, agree.data, agree.foreign,
      .inl (agree.script.resolve_right id)⟩
  -- Otherwise one of them may answer that it does not know it, and the other one not.
  · rcases link.send_cases (.runScript l.key version value) with sent | ⟨reason, sent⟩ | sent
    · simp only [runScript, sent]
      exact alike.answered _
    · simp only [runScript, sent]
      exact alike.answered _
    · obtain ⟨reply, _, _, swapS, swapT, after⟩ := Server.swap_alike alike.primed version value
      rw [runScript_of_loads loads sent s, runScript_of_loads loads sent t, swapS, swapT]
      exact after.answered _

theorem get_alike (alike : Alike link.Loads l.key s t) :
    AnsweredAlike link.Loads l.key (l.get link s) (l.get link t) := by
  obtain ⟨reply, _, _, sentS, sentT, after⟩ := link.send_alike alike (.get l.key) rfl (.inr nofun)
  simp only [get, sentS, sentT]
  split
  · cases reply with
    | none => exact after.answered _
    | some reply =>
        cases reply with
        | value bytes =>
            dsimp only
            split
            · exact after.answered _
            · split <;> exact after.answered _
        | _ => exact after.answered _
  · exact alike.answered _

theorem create_alike (alike : Alike link.Loads l.key s t) (lease : Lease) :
    AnsweredAlike link.Loads l.key (l.create link s lease) (l.create link t lease) := by
  obtain ⟨reply, _, _, sentS, sentT, after⟩ := link.send_alike alike
    (.setIfAbsent l.key (Text.bytes (Entry.encode ⟨1, lease⟩))) rfl (.inr nofun)
  simp only [create, sentS, sentT]
  split
  · cases reply with
    | none => exact after.answered _
    | some reply => cases reply <;> exact after.answered _
  · exact alike.answered _

theorem update_alike (alike : Alike link.Loads l.key s t) (version : Nat) (lease : Lease) :
    AnsweredAlike link.Loads l.key (l.update link s version lease)
      (l.update link t version lease) := by
  unfold update
  split
  · cases Entry.nextVersion? version with
    | none => exact alike.answered _
    | some next =>
        obtain ⟨reply, _, _, ranS, ranT, after⟩ :=
          runScript_alike alike version (Text.bytes (Entry.encode ⟨next, lease⟩))
        simp only [ranS, ranT]
        cases reply with
        | none => exact after.answered _
        | some reply =>
            cases reply with
            | integer i =>
                by_cases one : i = 1
                · subst one
                  exact after.answered _
                · by_cases zero : i = 0
                  · subst zero
                    exact after.answered _
                  · simp only
                    exact after.answered _
            | _ => exact after.answered _
  · exact alike.answered _

/-- What a call is answered and what it leaves under its key depend on what is there, and where the
script cannot be loaded also on whether the server knew it. -/
theorem perform_alike (alike : Alike link.Loads l.key s t) (call : Call) :
    AnsweredAlike link.Loads l.key (l.perform link s call) (l.perform link t call) := by
  cases call with
  | get =>
      obtain ⟨answer, _, _, gotS, gotT, after⟩ := get_alike alike
      simp only [perform, gotS, gotT]
      exact after.answered _
  | write w =>
      cases w with
      | create lease =>
          obtain ⟨answer, _, _, createdS, createdT, after⟩ := create_alike alike lease
          simp only [perform, createdS, createdT]
          exact after.answered _
      | update version lease =>
          obtain ⟨answer, _, _, updatedS, updatedT, after⟩ := update_alike alike version lease
          simp only [perform, updatedS, updatedT]
          exact after.answered _

/-- A call is made of commands, so it keeps what every command keeps. -/
theorem perform_keeps {P : Server → Prop}
    (kept : ∀ server command, P server → P (link.send server command).2) (l : Lock)
    {server : Server} (holds : P server) (call : Call) : P (l.perform link server call).2 := by
  have ran : ∀ version value, P (l.runScript link server version value).2 := by
    intro version value
    have first := kept server (.runScript l.key version value) holds
    unfold runScript
    split
    · rename_i between sent
      rw [sent] at first
      have load := kept between .loadScript first
      split
      · rename_i ready sent
        rw [sent] at load
        exact kept ready _ load
      · exact load
    · exact first
  cases call with
  | get =>
      have same := (l.get_cases link server).1
      simp only [perform]
      rwa [same]
  | write w =>
      cases w with
      | create lease =>
          have sent := kept server (.setIfAbsent l.key (Text.bytes (Entry.encode ⟨1, lease⟩))) holds
          simp only [perform, create]
          split
          · generalize link.send server _ = sent at *
            split <;> assumption
          · exact holds
      | update version lease =>
          simp only [perform, update]
          split
          · cases Entry.nextVersion? version with
            | none => exact holds
            | some next =>
                have ran := ran version (Text.bytes (Entry.encode ⟨next, lease⟩))
                dsimp only
                generalize l.runScript link server version _ = sent at *
                split <;> assumption
          · exact holds

/-- A call for another key makes no difference to what is under a key. -/
theorem alike_elsewhere (alike : Alike link.Loads key s t) (other : l.key ≠ key) (call : Call) :
    Alike link.Loads key (l.perform link s call).2 t where
  data := by
    rcases l.perform_cases link s call with same | ⟨_, e, -, -, -, stored⟩
    · rw [same, alike.data]
    · rw [stored, Table.get?_put_of_ne _ _ other, alike.data]
  foreign := by
    have same : (l.perform link s call).2.foreign = s.foreign :=
      perform_keeps (P := fun server => server.foreign = s.foreign)
        (fun server command same => (link.send_foreign server command).trans same) l rfl call
    rw [same]
    exact alike.foreign
  script := by
    rcases link.loads_or_keeps with loads | keeps
    · exact .inr loads
    · have same : (l.perform link s call).2.loaded = s.loaded :=
        perform_keeps (P := fun server => server.loaded = s.loaded)
          (fun server command same => (keeps server command).trans same) l rfl call
      rw [same]
      exact alike.script

end Lock

end Redis

end LeaderLease
