import Mathlib.Data.Nat.Notation
import Mathlib.Logic.Function.Basic
import Mathlib.Tactic.SplitIfs

/-!
# The names of unix sockets

`bind` makes a node in the file system and enters the socket into the registry under the numbers of
the node. Dropping the socket takes the entry out and deletes what the path it was bound to names at
that time, seen from the root. Between the two the file system may change in any way: `State.env`.

Nodes carry an identity and entries their owner, which the code does not have; they say what is the
socket's own. `drop_frame_iff` says that dropping a socket touches nothing else exactly if the entry
and the node that it is about to remove are the socket's own.
-/

namespace Seele.Sockets

open Function Option

/-- `UnixSocketRegistryKey`. -/
inductive RegistryKey where
  | abstract (name : String)
  | path (mountDeviceId inode : ℕ)
deriving DecidableEq, Repr

/-- A node of the file system. Its numbers may be used again when it is gone. -/
structure Node where
  mountDeviceId : ℕ
  inode : ℕ
  identity : ℕ
deriving DecidableEq, Repr

/-- The key of a node. -/
def Node.key (node : Node) : RegistryKey := .path node.mountDeviceId node.inode

/-- The entries of the directories, which of them can be deleted, and the entry that a path stands
for, for a process or seen from the root. -/
structure FileSystem where
  entries : ℕ → Option Node
  removable : ℕ → Bool
  resolve : Option ℕ → String → Option ℕ

/-- `VFS::delete_file`. -/
def FileSystem.deleteFile (fs : FileSystem) (start : Option ℕ) (path : String) : FileSystem :=
  match fs.resolve start path with
  | none => fs
  | some place =>
    if fs.removable place then { fs with entries := update fs.entries place none } else fs

/-- `UnixSocketRegistryEntry`; a listener has the path and the key it was bound to. -/
inductive Form where
  | streamReserved
  | listener (path : String) (key : RegistryKey)
  | datagram
deriving DecidableEq, Repr

/-- An entry of the registry, with the socket that installed it. -/
structure Entry where
  form : Form
  owner : ℕ

/-- The path and the key of a socket, and the node that its own `bind` made. -/
structure Name where
  path : String
  key : RegistryKey
  node : Option Node
  key_node : ∀ n ∈ node, key = n.key

/-- `UnixSocketState`, as far as names go. -/
inductive SocketState where
  | unbound
  | bound (name : Name)
  | listener (name : Name)
  | datagram (name : Option Name)
  | stream (name : Option Name)
  | closed

/-- The name of a socket. -/
def SocketState.name : SocketState → Option Name
  | .bound name | .listener name => some name
  | .datagram name | .stream name => name
  | .unbound | .closed => none

/-- The state of the machine; `created` counts the nodes made so far. -/
structure State where
  fs : FileSystem
  registry : RegistryKey → Option Entry
  sockets : ℕ → Option SocketState
  created : ℕ

/-- The name starts with a zero byte. -/
def isAbstract (path : String) : Bool := path.toList.head? = some '\x00'

/-- `socket_registry_key`, for a process. -/
def socketRegistryKey (fs : FileSystem) (process : ℕ) (path : String) : Option RegistryKey :=
  if isAbstract path then some (.abstract path)
  else ((fs.resolve (some process) path).bind fs.entries).map Node.key

namespace State

variable (t : State)

/-- The socket that a process gets to by a path. -/
def reach (process : ℕ) (path : String) : Option ℕ :=
  ((socketRegistryKey t.fs process path).bind t.registry).map Entry.owner

variable (socket : ℕ)

/-- The end of `bind`: the socket is entered into the registry. -/
def register (name : Name) : State :=
  let (form, state) := match t.sockets socket with
    | some (.datagram _) => (Form.datagram, SocketState.datagram (some name))
    | _ => (.streamReserved, .bound name)
  { t with
    registry := update t.registry name.key (some ⟨form, socket⟩)
    sockets := update t.sockets socket (some state) }

/-- `bind` with the entry free: the node is made, and given up if its key is taken. -/
def bindAt (socket place : ℕ) (path : String) (mountDeviceId inode : ℕ) : State :=
  let node : Node := ⟨mountDeviceId, inode, t.created⟩
  if (t.registry node.key).isSome then
    { t with
      created := t.created + 1
      fs := if t.fs.removable place then t.fs else
        { t.fs with entries := update t.fs.entries place (some node) } }
  else State.register { t with
      created := t.created + 1
      fs := { t.fs with entries := update t.fs.entries place (some node) } } socket
    ⟨path, node.key, some node, fun _ h => Option.some.inj h ▸ rfl⟩

/-- `UnixSocketObject::bind`. The file system chooses the numbers of the node, and `ok` says whether
it can make it. -/
def bind (socket process : ℕ) (path : String) (mountDeviceId inode : ℕ) (ok : Bool) : State :=
  match t.sockets socket with
  | some .unbound | some (.datagram none) =>
    if isAbstract path then
      if (t.registry (.abstract path)).isSome then t
      else t.register socket ⟨path, .abstract path, none, fun _ h => nomatch h⟩
    else match t.fs.resolve (some process) path with
      | none => t
      | some place =>
        match t.fs.entries place with
        | none => if ok then t.bindAt socket place path mountDeviceId inode else t
        | some old =>
          -- a node that no socket is registered for is stale
          if (t.registry old.key).isSome ∨ ¬ t.fs.removable place then t
          else
            let t := { t with
              fs := { t.fs with entries := update t.fs.entries place none } }
            if ok then t.bindAt socket place path mountDeviceId inode else t
  | _ => t

/-- `UnixSocketObject::listen`. -/
def listen : State :=
  match t.sockets socket with
  | some (.bound name) =>
    if (t.registry name.key).isSome then { t with
      registry := update t.registry name.key
        (some ⟨.listener name.path name.key, socket⟩)
      sockets := update t.sockets socket (some (.listener name)) }
    else t
  | _ => t

/-- `UnixSocketObject::connect` of a stream. The socket that `accept` returns has the name of the
listener. -/
def connect (socket process : ℕ) (path : String) (server : ℕ) : State :=
  let entry := (socketRegistryKey t.fs process path).bind t.registry
  match entry, t.sockets socket, t.sockets server with
  | some ⟨.listener path key, _⟩, some state, none =>
    match state with
    | .unbound | .bound _ => { t with
        sockets := update (update t.sockets socket (some (.stream state.name)))
          server (some (.stream (some ⟨path, key, none, fun _ h => nomatch h⟩))) }
    | _ => t
  | _, _, _ => t

/-- The name that `Drop for UnixSocketObject` removes. -/
def removed : Option Name :=
  match t.sockets socket with
  | some (.stream (some name)) =>
    if (t.registry name.key).map Entry.form = some .streamReserved then some name else none
  | some state => state.name
  | none => none

/-- `Drop for UnixSocketObject`. -/
def drop : State :=
  let t' := { t with sockets := update t.sockets socket none }
  match t.removed socket with
  | none => t'
  | some name => { t' with
      registry := update t.registry name.key none
      fs := if isAbstract name.path then t.fs else t.fs.deleteFile none name.path }

/-- A step. What processes do to the file system is not restricted. -/
inductive Step where
  | socket (socket : ℕ) (datagram : Bool)
  | bind (socket process : ℕ) (path : String) (mountDeviceId inode : ℕ) (ok : Bool)
  | listen (socket : ℕ)
  | connect (socket process : ℕ) (path : String) (server : ℕ)
  | drop (socket : ℕ)
  | env (fs : FileSystem)

/-- One step. -/
def step (t : State) : Step → State
  | .socket socket datagram =>
    if (t.sockets socket).isSome then t
    else
      let state := if datagram then SocketState.datagram none else .unbound
      { t with sockets := update t.sockets socket (some state) }
  | .bind socket process path device inode ok => t.bind socket process path device inode ok
  | .listen socket => t.listen socket
  | .connect socket process path server => t.connect socket process path server
  | .drop socket => t.drop socket
  | .env fs => { t with fs }

/-- The entry and the node that the socket is about to remove are its own. -/
def OwnName (socket : ℕ) (name : Name) : Prop :=
  (∀ e ∈ t.registry name.key, e.owner = socket) ∧
    (isAbstract name.path = false → ∀ place ∈ t.fs.resolve none name.path,
      t.fs.removable place = true → ∀ node ∈ t.fs.entries place, name.node = some node)

variable {t} {socket : ℕ} {name : Name}

variable (h : t.removed socket = some name)

include h

/-- The socket that goes has the name. -/
theorem name_of_removed :
    (t.sockets socket).bind SocketState.name = some name := by
  unfold removed at h
  split at h
  · next hs =>
    split_ifs at h
    cases h
    rw [hs]
    rfl
  · next hs =>
    rw [hs]
    exact h
  · cases h

/-- The registration goes. -/
theorem registry_drop :
    (t.drop socket).registry = update t.registry name.key none := by
  unfold drop
  rw [h]

/-- The entry goes with it, if it may. -/
theorem entries_drop (place : ℕ) :
    (t.drop socket).fs.entries place =
      if isAbstract name.path = false ∧ t.fs.resolve none name.path = some place ∧
        t.fs.removable place = true then none else t.fs.entries place := by
  unfold drop
  rw [h]
  simp only
  unfold FileSystem.deleteFile
  cases isAbstract name.path with
  | true => simp
  | false =>
  cases hplace : t.fs.resolve none name.path with
  | none => simp
  | some gone =>
  by_cases hgone : place = gone
  · subst hgone
    by_cases hremovable : t.fs.removable place <;> simp [hremovable]
  · have hne : gone ≠ place := .symm hgone
    by_cases hremovable : t.fs.removable gone <;> simp [hremovable, hgone, hne]

omit h

/-- The paths stay. -/
theorem resolve_drop : (t.drop socket).fs.resolve = t.fs.resolve := by
  unfold drop FileSystem.deleteFile
  grind

/-- For every state and every socket: dropping the socket removes from the registry only what the
socket installed there, deletes only the node that its `bind` made, and leaves every other socket
reachable as before, exactly if what it removes is its own. -/
theorem drop_frame_iff (t : State) (socket : ℕ) :
    ((∀ key, (t.drop socket).registry key ≠ t.registry key →
        ∃ e ∈ t.registry key, e.owner = socket) ∧
      (∀ place, (t.drop socket).fs.entries place ≠ t.fs.entries place →
        ∃ name ∈ (t.sockets socket).bind SocketState.name, t.fs.entries place = name.node) ∧
      ∀ other process path, other ≠ socket → t.reach process path = some other →
        (t.drop socket).reach process path = some other) ↔
    ∀ name ∈ t.removed socket, t.OwnName socket name := by
  cases h : t.removed socket with
  | none =>
    have hdrop : (t.drop socket).registry = t.registry ∧ (t.drop socket).fs = t.fs := by
      unfold drop
      rw [h]
      exact ⟨rfl, rfl⟩
    unfold reach
    rw [hdrop.1, hdrop.2]
    simp
  | some name =>
  have hregistry := registry_drop h
  have hentries := entries_drop h
  constructor
  · rintro ⟨hown, hnode, -⟩ _ ⟨⟩
    refine ⟨fun e he => ?_, fun hpath place hplace hremovable node hnode' => ?_⟩
    · obtain ⟨e', he', howner⟩ := hown name.key (by
        rw [hregistry, update_self, he]
        exact nofun)
      rw [he] at he'
      cases he'
      exact howner
    obtain ⟨name', hname', heq⟩ := hnode place (by
      rw [hentries, if_pos ⟨hpath, hplace, hremovable⟩, hnode']
      exact nofun)
    rw [name_of_removed h] at hname'
    cases hname'
    rw [← heq, hnode']
  intro hown
  obtain ⟨howner, hnode⟩ := hown name rfl
  -- an entry that changes is the one that the path stands for, and it is the socket's own
  have hchanged : ∀ place, (t.drop socket).fs.entries place ≠ t.fs.entries place →
      t.fs.entries place = name.node := by
    intro place hne
    rw [hentries] at hne
    split_ifs at hne with hgone
    · obtain ⟨hpath, hplace, hremovable⟩ := hgone
      cases hentry : t.fs.entries place with
      | none => exact absurd hentry.symm hne
      | some node => exact (hnode hpath place hplace hremovable node hentry).symm
    · exact absurd rfl hne
  refine ⟨fun key hne => ?_, fun place hne => ⟨name, name_of_removed h, hchanged place hne⟩,
    fun other process path hother hreach => ?_⟩
  · by_cases hkey : key = name.key
    · subst hkey
      rw [hregistry, update_self] at hne
      obtain ⟨e, he⟩ := ne_none_iff_exists'.mp hne.symm
      exact ⟨e, he, howner e he⟩
    · rw [hregistry, update_of_ne hkey] at hne
      exact absurd rfl hne
  -- the way to another socket leads through another key, and so through another node
  obtain ⟨e, he, rfl⟩ := map_eq_some_iff.mp hreach
  obtain ⟨key, hkey, he⟩ := bind_eq_some_iff.mp he
  have hne : key ≠ name.key := by
    rintro rfl
    exact hother (howner e he)
  have hkey' : socketRegistryKey (t.drop socket).fs process path = some key := by
    unfold socketRegistryKey at hkey ⊢
    rw [resolve_drop]
    split_ifs at hkey ⊢
    · exact hkey
    obtain ⟨node, hplace, rfl⟩ := map_eq_some_iff.mp hkey
    obtain ⟨place, hplace, hentry⟩ := bind_eq_some_iff.mp hplace
    have hsame : (t.drop socket).fs.entries place = t.fs.entries place := by
      by_contra hdiffers
      have hmine := hchanged place hdiffers
      rw [hentry] at hmine
      exact hne (name.key_node node hmine.symm).symm
    rw [hplace, bind_some, hsame, hentry]
    rfl
  unfold reach
  rw [hkey', bind_some, hregistry, update_of_ne hne, he]
  rfl

/-- A file system with one place, which every path stands for. -/
def onePlace (entry : Option Node) : FileSystem :=
  ⟨fun _ => entry, fun _ => true, fun _ _ => some 1⟩

/-- A socket is bound to a path, the path is deleted, and another socket is bound to it. Dropping
the first socket deletes the node of the second one, which cannot be reached any more. -/
theorem drop_deletes_other_node :
    let t := [Step.socket 0 false, .bind 0 5 "/s" 1 11 true, .env (onePlace none),
      .socket 1 false, .bind 1 5 "/s" 1 12 true].foldl step
        ⟨onePlace none, fun _ => none, fun _ => none, 0⟩
    t.reach 5 "/s" = some 1 ∧ (t.drop 0).reach 5 "/s" = none := by
  decide +kernel

end State

end Seele.Sockets
