import LeaderLease.Lease.Codec
import LeaderLease.Redis.Server
import LeaderLease.Store.Call

/-!
# Leases on a Redis server

An entry is stored as its JSON text under the key `solo:lease:` followed by namespace and name with
a colon between them. A lease is created by setting an absent key and updated by the comparison
script. A `Link` says how the server is reached: a client that never connects, or a command that
never reaches the server, uses up the time limit of the call.

A server may also run a command whose reply comes too late or not at all, and the call ends all the
same. What a write may then have done is said by `Lock.Goes`.
-/

set_option autoImplicit false

namespace LeaderLease

namespace Redis

/-- The commands as a client names them. -/
inductive CommandName where
  | get
  | set
  | scriptLoad
  | evalsha
deriving DecidableEq, Repr

def Command.commandName : Command → CommandName
  | .get _ => .get
  | .setIfAbsent _ _ => .set
  | .loadScript => .scriptLoad
  | .runScript _ _ _ => .evalsha

structure Link where
  /-- A connection can be opened. -/
  reachable : Bool := true
  /-- Commands that are refused with an error. -/
  refused : List (CommandName × String) := []
  /-- Commands that never reach the server. -/
  silent : List CommandName := []

/-- The reply to a command; nothing when none comes. -/
def Link.send (link : Link) (server : Server) (command : Command) : Option Reply × Server :=
  let name := command.commandName
  if link.silent.contains name then (none, server)
  else
    match link.refused.lookup name with
    | some text => (some (.error text), server)
    | none =>
      let (reply, server) := server.run command
      (some reply, server)

structure Lock where
  ns : String
  name : String
  identity : String
  /-- Bound on the time of one call. -/
  limit : Duration

namespace Lock

def keyStart : String := "solo:lease:"

def key (l : Lock) : String := keyStart ++ l.ns ++ ":" ++ l.name

/-- Namespace and name for people to read. -/
def describe (l : Lock) : String := l.ns ++ "/" ++ l.name

/-- What a reply means to a call that expected something else. -/
def unexpected (l : Lock) : Option Reply → StoreError
  | none => .timedOut l.limit
  | some (.error text) => .redis text
  | some _ => .redis "Response was of incompatible type"

def get (l : Lock) (link : Link) (server : Server) : ReadAnswer × Server :=
  if link.reachable then
    match link.send server (.get l.key) with
    | (some .absent, server) => (.ok none, server)
    | (some (.value bytes), server) =>
      match Text.ofBytes? bytes with
      | none => (.error (.redis "Invalid UTF-8"), server)
      | some text =>
        match Entry.decode? text with
        | some entry => (.ok (some entry), server)
        | none => (.error .malformed, server)
    | (reply, server) => (.error (l.unexpected reply), server)
  else (.error (.timedOut l.limit), server)

def create (l : Lock) (link : Link) (server : Server) (lease : Lease) : WriteAnswer × Server :=
  if link.reachable then
    let entry : Entry := ⟨1, lease⟩
    match link.send server (.setIfAbsent l.key (Text.bytes entry.encode)) with
    | (some .ok, server) => (.ok entry, server)
    | (some .absent, server) => (.error (.alreadyExists l.describe), server)
    | (reply, server) => (.error (l.unexpected reply), server)
  else (.error (.timedOut l.limit), server)

/-- Runs the script, loading it first if the server does not know it. -/
def runScript (l : Lock) (link : Link) (server : Server) (version : Nat) (value : List UInt8) :
    Option Reply × Server :=
  match link.send server (.runScript l.key version value) with
  | (some .noScript, server) =>
    match link.send server .loadScript with
    | (some .ok, server) => link.send server (.runScript l.key version value)
    | other => other
  | other => other

def update (l : Lock) (link : Link) (server : Server) (version : Nat) (lease : Lease) :
    WriteAnswer × Server :=
  if link.reachable then
    match Entry.nextVersion? version with
    | none => (.error .exhausted, server)
    | some next =>
      let entry : Entry := ⟨next, lease⟩
      match l.runScript link server version (Text.bytes entry.encode) with
      | (some (.integer 1), server) => (.ok entry, server)
      | (some (.integer 0), server) => (.error (.conflict l.describe), server)
      | (some (.integer _), server) => (.error (.notFound l.describe), server)
      | (reply, server) => (.error (l.unexpected reply), server)
  else (.error (.timedOut l.limit), server)

def perform (l : Lock) (link : Link) (server : Server) : Call → Answer × Server
  | .get =>
    let (answer, server) := l.get link server
    (.read answer, server)
  | .write (.create lease) =>
    let (answer, server) := l.create link server lease
    (.write answer, server)
  | .write (.update version lease) =>
    let (answer, server) := l.update link server version lease
    (.write answer, server)

/-- The answers to calls through several locks in order, and the server behind them. -/
def performAll (link : Link) (server : Server) : List (Lock × Call) → List Answer × Server
  | [] => ([], server)
  | (l, call) :: calls =>
    let (answer, server) := l.perform link server call
    let (answers, server) := performAll link server calls
    (answer :: answers, server)

/-! ## Writes that are cut off -/

def write (l : Lock) (link : Link) (server : Server) : Write → WriteAnswer × Server
  | .create lease => l.create link server lease
  | .update version lease => l.update link server version lease

/-- The commands that a write sends one after the other, if all of them are answered. -/
def commands (l : Lock) (server : Server) : Write → List Command
  | .create lease => [.setIfAbsent l.key (Text.bytes (Entry.encode ⟨1, lease⟩))]
  | .update version lease =>
    match Entry.nextVersion? version with
    | none => []
    | some next =>
      let command := .runScript l.key version (Text.bytes (Entry.encode ⟨next, lease⟩))
      if server.loaded then [command] else [command, .loadScript, command]

end Lock

/-- The server once it has run some commands. -/
def Server.ran (server : Server) (commands : List Command) : Server :=
  commands.foldl (fun server command => (server.run command).2) server

/-- Why the reply to a command is not heard. -/
inductive Loss where
  /-- The time limit of the call passes first. -/
  | late
  | disconnected (detail : String)

/-- How a write ends. -/
inductive Ending where
  /-- Every command that was sent has been answered. -/
  | heard (answer : WriteAnswer)
  | lost (loss : Loss)

/-- What the caller is told. -/
def Ending.answer (l : Lock) : Ending → WriteAnswer
  | .heard answer => answer
  | .lost .late => .error (.timedOut l.limit)
  | .lost (.disconnected detail) => .error (.redis detail)

/-- The ways in which a write may go, and the server behind it. If a reply is lost, then the server
has run a part of the commands, in their order: none, some or all of them. -/
inductive Lock.Goes (l : Lock) (server : Server) (w : Write) : Ending → Server → Prop
  | heard (link : Link) (answered : (l.write link server w).1 ≠ .error (.timedOut l.limit)) :
      Goes l server w (.heard (l.write link server w).1) (l.write link server w).2
  | lost (loss : Loss) (sent : Nat) :
      Goes l server w (.lost loss) (server.ran ((l.commands server w).take sent))

end Redis

end LeaderLease
