import Mathlib.Algebra.Ring.Nat
import Mathlib.Data.List.InsertIdx
import Mathlib.Data.List.MinMax
import Mathlib.Data.List.Perm.Subperm
import Mathlib.Logic.Function.Basic
import Seele.Ipc.Object
import Seele.Lib.GuardedRun

/-!
# System V message queues

`ipc/sysv_msg.rs`. The calls of all processes take the lock of one table of queues, so a run is a
list of rounds in any order. A `Traffic` keeps, for every identifier, the messages that `msgsnd`
calls had accepted and those that `msgrcv` calls had delivered.

`QueueStep` says what a round can do to one identifier. From that, in every run, the byte counts are
the sums of the lengths of the queued messages and stay within `MSGMNB`, and the delivered and the
queued messages of an identifier together are among the accepted ones, each as often at most.

`msgrcv` takes the message out of its queue and only then copies to the caller's buffer. A fault in
that copy returns an error with the message gone: `run_messages` says that a failing `msgrcv` leaves
the queues alone exactly if a message that it takes can be copied out.
-/

namespace Seele.Ipc.SysvMsg

open List

/-! ## Queues -/

/-- `IPC_NOWAIT`. -/
def IPC_NOWAIT : UInt32 := 0o4000

/-- `MSG_NOERROR`. -/
def MSG_NOERROR : UInt32 := 0o10000

/-- `MSGMNI`, the most queues. -/
def MSGMNI : ℕ := 32000

/-- `MSGMAX`, the most bytes of a message. -/
def MSGMAX : ℕ := 8192

/-- `MSGMNB`, the most bytes of a queue. -/
def MSGMNB : ℕ := 16384

/-- `SysvMessage`. -/
structure SysvMessage where
  ty : Int64
  data : List UInt8
  deriving DecidableEq, Repr

/-- `SysvMsgQueue`. -/
structure SysvMsgQueue where
  perm : LinuxIpcPerm
  messages : List SysvMessage
  bytes : ℕ
  qbytes : ℕ
  lastSendPid : Int
  lastRecvPid : Int
  stime : Int
  rtime : Int
  ctime : Int
  deriving DecidableEq, Repr

open SysvMsgQueue

/-- `SysvMsgState`. -/
structure SysvMsgState where
  nextMsqid : Int
  queues : Std.TreeMap Int SysvMsgQueue

open SysvMsgState

/-- `SysvMsgState::default`. -/
def SysvMsgState.default : SysvMsgState := ⟨0, ∅⟩

/-- `has_access`. -/
def hasAccess (queue : SysvMsgQueue) (credentials : SysvCredentials) (write : Bool) : Bool :=
  queue.perm.hasAccess credentials write

/-- The queue of an identifier, for the caller. -/
def SysvMsgState.find (state : SysvMsgState) (credentials : SysvCredentials) (msqid : Int) :
    Option SysvMsgQueue :=
  findObject perm state.queues credentials msqid

/-- The state with a queue changed in place. -/
def SysvMsgState.put (state : SysvMsgState) (msqid : Int) (queue : SysvMsgQueue) : SysvMsgState :=
  { state with queues := state.queues.insert msqid queue }

/-- `select_message`. The outer `none` is the overflow of `-msgtyp`. -/
def selectMessage (messages : List SysvMessage) (msgtyp : Int64) : Option (Option ℕ) :=
  if msgtyp = 0 then some (if messages.isEmpty then none else some 0)
  else if 0 < msgtyp then some (messages.findIdx? fun message => message.ty == msgtyp)
  else if msgtyp = Int64.minValue then none
  else
    let limit := -msgtyp
    let candidates := messages.zipIdx.filter fun (message, _) => message.ty ≤ limit
    -- `min_by_key`: the first one of the lowest type, as a distance from `i64::MIN`.
    let lowest := candidates.argmin fun (message, _) =>
      (message.ty.toInt + 0x8000000000000000).toNat
    some (lowest.map Prod.snd)

/-! ## The calls -/

variable (credentials : SysvCredentials)

/-- `msgget`. -/
def msgget (key : Int) (msgflg : UInt32) (now : Int)
    (state : SysvMsgState) : Outcome SysvMsgState ℕ :=
  let create := msgflg &&& IPC_CREAT != 0
  let exclusive := msgflg &&& IPC_EXCL != 0
  match if key ≠ IPC_PRIVATE then findKey perm state.queues credentials key
    else none with
  | some (msqid, queue) =>
    if create && exclusive then .fail .fileAlreadyExists state
    else if !hasAccess queue credentials false then .fail .permissionDenied state
    else ⟨.returned (.ok msqid.toNat), false, state⟩
  | none =>
    if !create ∧ key ≠ IPC_PRIVATE then .fail .fileNotFound state
    else if MSGMNI ≤ state.queues.size then .fail .noSpaceLeft state
    else if state.nextMsqid = 0x7fffffff then ⟨.panicked, false, state⟩
    else
      let msqid := state.nextMsqid + 1
      let queue : SysvMsgQueue :=
        { perm := .new credentials key msgflg
          messages := []
          bytes := 0
          qbytes := MSGMNB
          lastSendPid := 0
          lastRecvPid := 0
          stime := 0
          rtime := 0
          ctime := now }
      ⟨.returned (.ok msqid.toNat), false, { state.put msqid queue with nextMsqid := msqid }⟩

/-- The sender's buffer: the type, if it can be read, and the readable bytes behind it. -/
structure SendBuffer where
  isNull : Bool
  ty : Option Int64
  mtext : List UInt8
  deriving DecidableEq, Repr

/-- `read_buffer` of `len` bytes behind the type. -/
def SendBuffer.readBuffer (msgp : SendBuffer) (len : ℕ) : Except SyscallError (List UInt8) :=
  if len = 0 then .ok []
  else if len ≤ msgp.mtext.length then .ok (msgp.mtext.take len)
  else .error .badAddress

/-- What `msgsnd` reads of its arguments before the loop. -/
def SendBuffer.message (msgp : SendBuffer) (msgsz : ℕ) : Except SyscallError SysvMessage :=
  if msgp.isNull then .error .badAddress
  else if MSGMAX < msgsz then .error .invalidArguments
  else match msgp.ty with
    | none => .error .badAddress
    | some ty =>
      if ty ≤ 0 then .error .invalidArguments
      else match msgp.readBuffer msgsz with
        | .error e => .error e
        | .ok data => .ok ⟨ty, data⟩

/-- One round of `msgsnd`. The buffer is read once, before the first round. -/
def msgsnd (msqid : Int) (msgp : SendBuffer) (msgsz : ℕ)
    (msgflg : UInt32) (now : Int) (state : SysvMsgState) : Outcome SysvMsgState ℕ :=
  match msgp.message msgsz with
  | .error e => .fail e state
  | .ok message =>
    match state.find credentials msqid with
    | none => .fail .invalidArguments state
    | some queue =>
      if !hasAccess queue credentials true then .fail .permissionDenied state
      else if queue.bytes + msgsz ≤ queue.qbytes then
        ⟨.returned (.ok 0), true, state.put msqid { queue with
            bytes := queue.bytes + msgsz
            messages := queue.messages ++ [message]
            lastSendPid := credentials.pid
            stime := now }⟩
      else if msgflg &&& IPC_NOWAIT != 0 then .fail .tryAgain state
      else ⟨.blocked, false, state⟩

/-- The receiver's buffer: whether the type can be stored, and how many bytes behind it can. -/
structure RecvBuffer where
  isNull : Bool
  tyWritable : Bool
  writable : ℕ
  deriving DecidableEq, Repr

/-- Whether the two copies of `msgrcv` succeed. An empty `write_buffer` does not look at the
buffer. -/
def RecvBuffer.takes (msgp : RecvBuffer) (copied : ℕ) : Bool :=
  msgp.tyWritable && (copied == 0 || copied ≤ msgp.writable)

/-- What a `msgrcv` stores in the caller's buffer, and the count that it returns. -/
structure Received where
  copied : ℕ
  ty : Int64
  data : List UInt8
  deriving DecidableEq, Repr

/-- One round of `msgrcv`. -/
def msgrcv (msqid : Int) (msgp : RecvBuffer) (msgsz : ℕ)
    (msgtyp : Int64) (msgflg : UInt32) (now : Int) (state : SysvMsgState) :
    Outcome SysvMsgState Received :=
  if msgp.isNull then .fail .badAddress state
  else match state.find credentials msqid with
    | none => .fail .identifierRemoved state
    | some queue =>
      if !hasAccess queue credentials false then .fail .permissionDenied state
      else match selectMessage queue.messages msgtyp with
        | none => ⟨.panicked, false, state⟩
        | some none =>
          if msgflg &&& IPC_NOWAIT != 0 then .fail .noMessage state
          else ⟨.blocked, false, state⟩
        | some (some index) =>
          match queue.messages[index]? with
          | none => ⟨.panicked, false, state⟩
          | some message =>
            let rest := queue.messages.eraseIdx index
            if msgsz < message.data.length ∧ msgflg &&& MSG_NOERROR = 0 then
              .fail .invalidArguments
                (state.put msqid { queue with messages := rest.insertIdx index message })
            else
              -- The message is gone and the lock is released before the copies.
              let copied := min message.data.length msgsz
              let state := state.put msqid
                { queue with
                  messages := rest
                  bytes := queue.bytes - message.data.length
                  lastRecvPid := credentials.pid
                  rtime := now }
              if msgp.takes copied then
                ⟨.returned (.ok ⟨copied, message.ty, message.data.take copied⟩), true, state⟩
              else .fail .badAddress state

/-- The commands of `msgctl`. -/
inductive MsgctlCmd where
  | IPC_RMID
  | IPC_SET
  | IPC_STAT
  | MSG_STAT
  | IPC_INFO
  | MSG_INFO
  | other
  deriving DecidableEq, Repr

/-- `LinuxMsqidDs`. -/
structure LinuxMsqidDs where
  perm : LinuxIpcPerm
  msgStime : Int
  msgRtime : Int
  msgCtime : Int
  msgCbytes : ℕ
  msgQnum : ℕ
  msgQbytes : ℕ
  msgLspid : Int
  msgLrpid : Int
  deriving DecidableEq, Repr

/-- `linux_msqid_ds`. -/
def linuxMsqidDs (queue : SysvMsgQueue) : LinuxMsqidDs where
  perm := queue.perm
  msgStime := queue.stime
  msgRtime := queue.rtime
  msgCtime := queue.ctime
  msgCbytes := queue.bytes
  msgQnum := queue.messages.length
  msgQbytes := queue.qbytes
  msgLspid := queue.lastSendPid
  msgLrpid := queue.lastRecvPid

/-- The buffer of `msgctl`: what can be read there, and whether it can be written. -/
structure CtlBuffer where
  isNull : Bool
  ds : Option LinuxMsqidDs
  writable : Bool
  deriving DecidableEq, Repr

/-- What `msgctl` returns, and the record that it stores, if it does. -/
structure CtlReply where
  value : ℕ
  stored : Option LinuxMsqidDs
  deriving DecidableEq, Repr

/-- `msgctl`. The limits that `IPC_INFO` stores are constants and left out. -/
def msgctl (msqid : Int) (cmd : MsgctlCmd) (buf : CtlBuffer)
    (now : Int) (state : SysvMsgState) : Outcome SysvMsgState CtlReply :=
  if cmd = .IPC_INFO ∨ cmd = .MSG_INFO then
    if buf.isNull || !buf.writable then .fail .badAddress state
    else ⟨.returned (.ok ⟨MSGMNI - 1, none⟩), false, state⟩
  else match state.find credentials msqid with
    | none => .fail .invalidArguments state
    | some queue =>
      match cmd with
      | .IPC_RMID =>
        if !queue.perm.mayChange credentials then .fail .permissionDenied state
        else
          ⟨.returned (.ok ⟨0, none⟩), true, { state with queues := state.queues.erase msqid }⟩
      | .IPC_STAT | .MSG_STAT =>
        if !hasAccess queue credentials false then .fail .permissionDenied state
        else if buf.isNull || !buf.writable then .fail .badAddress state
        else
          ⟨.returned (.ok ⟨if cmd = .MSG_STAT then msqid.toNat else 0, some (linuxMsqidDs queue)⟩),
            false, state⟩
      | .IPC_SET =>
        if buf.isNull then .fail .badAddress state
        else if !queue.perm.mayChange credentials then .fail .permissionDenied state
        else match buf.ds with
          | none => .fail .badAddress state
          | some ds =>
            let perm := { queue.perm with
              ownerUid := ds.perm.ownerUid
              ownerGid := ds.perm.ownerGid
              mode := ds.perm.mode &&& IPC_MODE_MASK }
            ⟨.returned (.ok ⟨0, none⟩), false, state.put msqid
              { queue with perm := perm, qbytes := min ds.msgQbytes MSGMNB, ctime := now }⟩
      | _ => .fail .invalidArguments state

/-! ## Runs -/

/-- A round of one of the calls, by any process. -/
inductive MsgOp where
  | msgget (credentials : SysvCredentials) (key : Int) (msgflg : UInt32) (now : Int)
  | msgsnd (credentials : SysvCredentials) (msqid : Int) (msgp : SendBuffer) (msgsz : ℕ)
      (msgflg : UInt32) (now : Int)
  | msgrcv (credentials : SysvCredentials) (msqid : Int) (msgp : RecvBuffer) (msgsz : ℕ)
      (msgtyp : Int64) (msgflg : UInt32) (now : Int)
  | msgctl (credentials : SysvCredentials) (msqid : Int) (cmd : MsgctlCmd) (buf : CtlBuffer)
      (now : Int)

/-- The message that a round of `msgrcv` takes out of its queue, if it gets so far. -/
def takenMessage (credentials : SysvCredentials) (msqid : Int) (msgp : RecvBuffer) (msgsz : ℕ)
    (msgtyp : Int64) (msgflg : UInt32) (state : SysvMsgState) : Option SysvMessage :=
  if msgp.isNull then none
  else match state.find credentials msqid with
    | none => none
    | some queue =>
      if !hasAccess queue credentials false then none
      else match selectMessage queue.messages msgtyp with
        | some (some index) =>
          match queue.messages[index]? with
          | none => none
          | some message =>
            if msgsz < message.data.length ∧ msgflg &&& MSG_NOERROR = 0 then none else some message
        | _ => none

/-- A message that a successful `msgrcv` took, the size and flags of the call, and what it
stored. -/
structure Delivery where
  message : SysvMessage
  msgsz : ℕ
  msgflg : UInt32
  received : Received
  deriving DecidableEq, Repr

/-- The receiver gets the type of the message and its data, cut to the size of the buffer under
`MSG_NOERROR` only. -/
structure Delivery.Faithful (d : Delivery) : Prop where
  ty : d.received.ty = d.message.ty
  copied : d.received.copied = min d.message.data.length d.msgsz
  data : d.received.data = d.message.data.take d.msgsz
  whole : d.msgflg &&& MSG_NOERROR = 0 → d.received.data = d.message.data

/-- The queues, and for every identifier what was accepted and what was delivered so far. -/
structure Traffic where
  state : SysvMsgState
  accepted : Int → List SysvMessage
  delivered : Int → List Delivery

open Traffic

/-- No queues, and nothing sent. -/
def Traffic.start : Traffic := ⟨default, fun _ => [], fun _ => []⟩

/-- What a round of `msgsnd` adds to the accepted messages. -/
def acceptedMessage (msgp : SendBuffer) (msgsz : ℕ) (reply : Attempt ℕ) : List SysvMessage :=
  match reply, msgp.message msgsz with
  | .returned (.ok _), .ok message => [message]
  | _, _ => []

/-- What a round of `msgrcv` adds to the deliveries. -/
def delivery (taken : Option SysvMessage) (msgsz : ℕ) (msgflg : UInt32)
    (reply : Attempt Received) : List Delivery :=
  match reply with
  | .returned (.ok received) =>
    [⟨taken.getD ⟨received.ty, received.data⟩, msgsz, msgflg, received⟩]
  | _ => []

/-- One round, with what it adds to the history. -/
def Traffic.step (op : MsgOp) (t : Traffic) : Option Traffic :=
  match op with
  | .msgget credentials key msgflg now =>
    (msgget credentials key msgflg now t.state).next.map fun state => { t with state := state }
  | .msgsnd credentials msqid msgp msgsz msgflg now =>
    let out := msgsnd credentials msqid msgp msgsz msgflg now t.state
    out.next.map fun state =>
      { t with
        state := state
        accepted := Function.update t.accepted msqid
          (t.accepted msqid ++ acceptedMessage msgp msgsz out.reply) }
  | .msgrcv credentials msqid msgp msgsz msgtyp msgflg now =>
    let taken := takenMessage credentials msqid msgp msgsz msgtyp msgflg t.state
    let out := msgrcv credentials msqid msgp msgsz msgtyp msgflg now t.state
    out.next.map fun state =>
      { t with
        state := state
        delivered := Function.update t.delivered msqid
          (t.delivered msqid ++ delivery taken msgsz msgflg out.reply) }
  | .msgctl credentials msqid cmd buf now =>
    (msgctl credentials msqid cmd buf now t.state).next.map fun state => { t with state := state }

/-- The history after a list of rounds, if none of them panics. -/
def Traffic.run (ops : List MsgOp) (t : Traffic) : Option Traffic := Lib.runOps step ops t

/-! ## What a round does to one identifier -/

/-- The part of the history that is about one identifier. -/
structure View where
  queue : Option SysvMsgQueue
  accepted : List SysvMessage
  delivered : List Delivery

/-- The view of an identifier. -/
def Traffic.view (t : Traffic) (msqid : Int) : View :=
  ⟨t.state.queues[msqid]?, t.accepted msqid, t.delivered msqid⟩

/-- What a round can do to an identifier. -/
inductive QueueStep : View → View → Prop where
  | same (v : View) : QueueStep v v
  | created {queue : SysvMsgQueue} (v : View) (hmessages : queue.messages = [])
      (hbytes : queue.bytes = 0) (hqbytes : queue.qbytes = MSGMNB) :
      QueueStep v { v with queue := some queue }
  | sent {queue queue' : SysvMsgQueue} (message : SysvMessage) (accepted : List SysvMessage)
      (delivered : List Delivery) (hmessages : queue'.messages = queue.messages ++ [message])
      (hbytes : queue'.bytes = queue.bytes + message.data.length)
      (hroom : queue'.bytes ≤ queue.qbytes) (hqbytes : queue'.qbytes = queue.qbytes) :
      QueueStep ⟨some queue, accepted, delivered⟩ ⟨some queue', accepted ++ [message], delivered⟩
  | lost {queue queue' : SysvMsgQueue} {message : SysvMessage} {index : ℕ}
      (accepted : List SysvMessage) (delivered : List Delivery)
      (hmessage : queue.messages[index]? = some message)
      (hmessages : queue'.messages = queue.messages.eraseIdx index)
      (hbytes : queue'.bytes = queue.bytes - message.data.length)
      (hqbytes : queue'.qbytes = queue.qbytes) :
      QueueStep ⟨some queue, accepted, delivered⟩ ⟨some queue', accepted, delivered⟩
  | received {queue queue' : SysvMsgQueue} {d : Delivery} {index : ℕ}
      (accepted : List SysvMessage) (delivered : List Delivery) (hfaithful : d.Faithful)
      (hmessage : queue.messages[index]? = some d.message)
      (hmessages : queue'.messages = queue.messages.eraseIdx index)
      (hbytes : queue'.bytes = queue.bytes - d.message.data.length)
      (hqbytes : queue'.qbytes = queue.qbytes) :
      QueueStep ⟨some queue, accepted, delivered⟩ ⟨some queue', accepted, delivered ++ [d]⟩
  | set {queue queue' : SysvMsgQueue} (accepted : List SysvMessage) (delivered : List Delivery)
      (hmessages : queue'.messages = queue.messages) (hbytes : queue'.bytes = queue.bytes)
      (hqbytes : queue'.qbytes ≤ MSGMNB) :
      QueueStep ⟨some queue, accepted, delivered⟩ ⟨some queue', accepted, delivered⟩
  | removed (v : View) : QueueStep v { v with queue := none }

open QueueStep

variable {message : SysvMessage} {msgsz index : ℕ}

/-- The message has the size asked for. -/
theorem SendBuffer.length_of_message {msgp : SendBuffer}
    (h : msgp.message msgsz = .ok message) : message.data.length = msgsz := by
  unfold SendBuffer.message at h
  grind [SendBuffer.readBuffer]

variable (credentials : SysvCredentials)

/-- A round of `msgsnd` leaves the queues alone and accepts nothing, or it appends its message to
the queue it found. -/
theorem msgsnd_cases (msqid : Int) (msgp : SendBuffer) (msgsz : ℕ)
    (msgflg : UInt32) (now : Int) (state : SysvMsgState) :
    let out := msgsnd credentials msqid msgp msgsz msgflg now state
    (out.state = state ∧ acceptedMessage msgp msgsz out.reply = []) ∨
      ∃ queue message, state.find credentials msqid = some queue ∧
        msgp.message msgsz = .ok message ∧ queue.bytes + msgsz ≤ queue.qbytes ∧
        acceptedMessage msgp msgsz out.reply = [message] ∧
        out.state = state.put msqid { queue with
            bytes := queue.bytes + msgsz
            messages := queue.messages ++ [message]
            lastSendPid := credentials.pid
            stime := now } := by
  unfold msgsnd
  cases hmessage : msgp.message msgsz with
  | error e => exact .inl ⟨rfl, rfl⟩
  | ok message =>
  cases hfind : state.find credentials msqid with
  | none => exact .inl ⟨rfl, rfl⟩
  | some queue =>
  dsimp only
  split_ifs with haccess hroom hnowait
  · exact .inl ⟨rfl, rfl⟩
  · refine .inr ⟨queue, message, rfl, rfl, hroom, ?_, rfl⟩
    simp only [acceptedMessage, hmessage]
  · exact .inl ⟨rfl, rfl⟩
  · exact .inl ⟨rfl, rfl⟩

/-- The queues after one is stored. -/
theorem SysvMsgState.getElem?_put (state : SysvMsgState) (msqid id : Int) (queue : SysvMsgQueue) :
    (state.put msqid queue).queues[id]? = if msqid = id then some queue else state.queues[id]? :=
  getElem?_insert_object id

variable {queue : SysvMsgQueue}

/-- Storing a queue as it was changes nothing. -/
theorem SysvMsgState.getElem?_put_find {state : SysvMsgState} {credentials : SysvCredentials}
    {msqid : Int} (hfind : state.find credentials msqid = some queue)
    {id : Int} : (state.put msqid queue).queues[id]? = state.queues[id]? := by
  rw [getElem?_put]
  split_ifs with hid
  · rw [← hid]
    exact (getElem?_of_findObject hfind).symm
  · rfl

/-- A message is taken and put back. -/
theorem insertIdx_eraseIdx_getElem? {l : List SysvMessage}
    (h : l[index]? = some message) : (l.eraseIdx index).insertIdx index message = l := by
  grind [insertIdx_eraseIdx_getElem]

/-- A round of `msgrcv` takes no message and leaves every queue as it was, or it takes the selected
message out of the queue it found; then it succeeds exactly if the message can be copied out. -/
theorem msgrcv_cases (msqid : Int) (msgp : RecvBuffer) (msgsz : ℕ)
    (msgtyp : Int64) (msgflg : UInt32) (now : Int) (state : SysvMsgState) :
    let out := msgrcv credentials msqid msgp msgsz msgtyp msgflg now state
    let taken := takenMessage credentials msqid msgp msgsz msgtyp msgflg state
    (taken = none ∧ (∀ id : Int, out.state.queues[id]? = state.queues[id]?) ∧
        ∀ received, out.reply ≠ .returned (.ok received)) ∨
      ∃ queue index message, state.find credentials msqid = some queue ∧
        queue.messages[index]? = some message ∧ taken = some message ∧
        (msgflg &&& MSG_NOERROR = 0 → message.data.length ≤ msgsz) ∧
        out.state = state.put msqid { queue with
            messages := queue.messages.eraseIdx index
            bytes := queue.bytes - message.data.length
            lastRecvPid := credentials.pid
            rtime := now } ∧
        out.reply = .returned (if msgp.takes (min message.data.length msgsz) then
          .ok ⟨min message.data.length msgsz, message.ty,
            message.data.take (min message.data.length msgsz)⟩
          else .error .badAddress) := by
  unfold msgrcv takenMessage
  by_cases hnull : msgp.isNull
  · rw [if_pos hnull, if_pos hnull]
    exact .inl ⟨rfl, fun _ => rfl, nofun⟩
  rw [if_neg hnull, if_neg hnull]
  cases hfind : state.find credentials msqid with
  | none => exact .inl ⟨rfl, fun _ => rfl, nofun⟩
  | some queue =>
  dsimp only
  by_cases haccess : !hasAccess queue credentials false
  · rw [if_pos haccess, if_pos haccess]
    exact .inl ⟨rfl, fun _ => rfl, nofun⟩
  rw [if_neg haccess, if_neg haccess]
  cases hselect : selectMessage queue.messages msgtyp with
  | none => exact .inl ⟨rfl, fun _ => rfl, nofun⟩
  | some selected =>
  cases selected with
  | none =>
    split_ifs
    all_goals exact .inl ⟨rfl, fun _ => rfl, nofun⟩
  | some index =>
  dsimp only
  cases hmessage : queue.messages[index]? with
  | none => exact .inl ⟨rfl, fun _ => rfl, nofun⟩
  | some message =>
  dsimp only
  by_cases hsize : msgsz < message.data.length ∧ msgflg &&& MSG_NOERROR = 0
  · -- Too long: the message goes back to its place.
    rw [if_pos hsize, if_pos hsize]
    refine .inl ⟨rfl, fun id => ?_, nofun⟩
    rw [insertIdx_eraseIdx_getElem? hmessage]
    exact getElem?_put_find hfind
  rw [if_neg hsize, if_neg hsize]
  have hfits : msgflg &&& MSG_NOERROR = 0 → message.data.length ≤ msgsz := fun hflag =>
    Nat.not_lt.mp fun hlt => hsize ⟨hlt, hflag⟩
  refine .inr ⟨queue, index, message, rfl, hmessage, rfl, hfits, ?_, ?_⟩
  all_goals
    split_ifs
    all_goals rfl

/-- A round of `msgctl` leaves the queues alone, removes the queue it found, or changes its owner,
mode and limit. -/
theorem msgctl_cases (msqid : Int) (cmd : MsgctlCmd)
    (buf : CtlBuffer) (now : Int) (state : SysvMsgState) :
    let out := msgctl credentials msqid cmd buf now state
    out.state = state ∨ out.state = { state with queues := state.queues.erase msqid } ∨
      ∃ queue queue', state.find credentials msqid = some queue ∧
        queue'.messages = queue.messages ∧ queue'.bytes = queue.bytes ∧ queue'.qbytes ≤ MSGMNB ∧
        out.state = state.put msqid queue' := by
  unfold msgctl
  by_cases hinfo : cmd = .IPC_INFO ∨ cmd = .MSG_INFO
  · rw [if_pos hinfo]
    split_ifs
    all_goals exact .inl rfl
  rw [if_neg hinfo]
  cases hfind : state.find credentials msqid with
  | none => exact .inl rfl
  | some queue =>
  cases cmd with
  | IPC_RMID =>
    dsimp only
    split_ifs
    · exact .inl rfl
    · exact .inr (.inl rfl)
  | IPC_SET =>
    dsimp only
    split_ifs
    · exact .inl rfl
    · exact .inl rfl
    cases buf.ds with
    | none => exact .inl rfl
    | some ds =>
    refine .inr (.inr ⟨queue, _, rfl, ?_, ?_, ?_, rfl⟩)
    · rfl
    · rfl
    · exact Nat.min_le_right _ _
  | IPC_STAT | MSG_STAT =>
    dsimp only
    split_ifs
    all_goals exact .inl rfl
  | IPC_INFO | MSG_INFO | other => exact .inl rfl

/-- What `msgget` does. -/
theorem msgget_cases (key : Int) (msgflg : UInt32) (now : Int) (state : SysvMsgState) :
    let out := msgget credentials key msgflg now state
    out.state = state ∨
      ∃ (msqid : Int) (queue : SysvMsgQueue), queue.messages = [] ∧ queue.bytes = 0 ∧
        queue.qbytes = MSGMNB ∧ out.state = { state.put msqid queue with nextMsqid := msqid } := by
  unfold msgget
  dsimp only
  split
  · split_ifs
    all_goals exact .inl rfl
  split_ifs
  · exact .inl rfl
  · exact .inl rfl
  · exact .inl rfl
  · exact .inr ⟨_, _, rfl, rfl, rfl, rfl⟩

/-- What fits is delivered in full. -/
theorem Delivery.faithful_of_fits {msgflg : UInt32}
    (hfits : msgflg &&& MSG_NOERROR = 0 → message.data.length ≤ msgsz) :
    Delivery.Faithful ⟨message, msgsz, msgflg, ⟨min message.data.length msgsz, message.ty,
      message.data.take (min message.data.length msgsz)⟩⟩ where
  ty := rfl
  copied := rfl
  data := by
    simp only [take_eq_take_iff]
    omega
  whole hflag := take_of_length_le (Nat.le_min.mpr ⟨Nat.le_refl _, hfits hflag⟩)

/-- What a step does to each queue. -/
theorem Traffic.step_view {op : MsgOp} {t t' : Traffic} (h : t.step op = some t') (id : Int) :
    QueueStep (t.view id) (t'.view id) := by
  cases op with
  | msgget credentials key msgflg now =>
    obtain rfl := Outcome.of_next_map h
    obtain hsame | ⟨msqid, queue, hmessages, hbytes, hqbytes, hstate⟩ :=
      msgget_cases credentials key msgflg now t.state
    · grind [view, same]
    simp only [view, hstate, getElem?_put]
    split_ifs
    · exact created (t.view id) hmessages hbytes hqbytes
    · exact same _
  | msgsnd credentials msqid msgp msgsz msgflg now =>
    obtain rfl := Outcome.of_next_map h
    obtain ⟨hsame, hnone⟩ | ⟨queue, message, hfind, hmessage, hroom, hone, hstate⟩ :=
      msgsnd_cases credentials msqid msgp msgsz msgflg now t.state
    · grind [view, same]
    have hlength := SendBuffer.length_of_message hmessage
    simp only [view, hstate, getElem?_put]
    split_ifs with hid
    · subst hid
      rw [getElem?_of_findObject hfind, Function.update_self]
      grind [sent]
    · grind [same]
  | msgrcv credentials msqid msgp msgsz msgtyp msgflg now =>
    obtain rfl := Outcome.of_next_map h
    obtain ⟨-, hsame, hfails⟩ | ⟨queue, index, message, hfind, hmessage, htaken, hfits, hstate,
        hreply⟩ := msgrcv_cases credentials msqid msgp msgsz msgtyp msgflg now t.state
    · have hnone : delivery (takenMessage credentials msqid msgp msgsz msgtyp msgflg t.state) msgsz
          msgflg (msgrcv credentials msqid msgp msgsz msgtyp msgflg now t.state).reply = [] := by
        simp [delivery]
      grind [view, same]
    simp only [view, hstate, hreply, htaken, getElem?_put]
    split_ifs with hid hcopy hcopy
    · subst hid
      rw [getElem?_of_findObject hfind, Function.update_self]
      exact received _ _ (Delivery.faithful_of_fits hfits) hmessage rfl rfl rfl
    · subst hid
      rw [getElem?_of_findObject hfind, Function.update_self]
      simp only [delivery, append_nil]
      exact lost _ _ hmessage rfl rfl rfl
    · grind [same]
    · grind [same]
  | msgctl credentials msqid cmd buf now =>
  obtain rfl := Outcome.of_next_map h
  obtain hsame | hstate | ⟨queue, queue', hfind, hmessages, hbytes, hqbytes, hstate⟩ :=
    msgctl_cases credentials msqid cmd buf now t.state
  · grind [view, same]
  · simp only [view, hstate, getElem?_erase_object]
    split_ifs
    · exact removed (t.view id)
    · exact same _
  simp only [view, hstate, getElem?_put]
  split_ifs with hid
  · subst hid
    rw [getElem?_of_findObject hfind]
    exact set _ _ hmessages hbytes hqbytes
  · exact same _

/-! ## Accounting -/

/-- The byte count of a queue is the sum of the lengths of its messages, and within the limit. -/
structure SysvMsgQueue.Counted (queue : SysvMsgQueue) : Prop where
  bytes : queue.bytes = (queue.messages.map fun message => message.data.length).sum
  bounded : queue.bytes ≤ MSGMNB
  limit : queue.qbytes ≤ MSGMNB

/-- The messages of a queue, none if there is no queue. -/
def View.queued (v : View) : List SysvMessage := (v.queue.map messages).getD []

/-- What holds of every identifier: its queue is counted, what was delivered and what is queued was
accepted, each message as often at least, and the deliveries are faithful. -/
structure View.Ok (v : View) : Prop where
  counted : ∀ queue, v.queue = some queue → queue.Counted
  atMostOnce : (v.delivered.map Delivery.message ++ v.queued).Subperm v.accepted
  faithful : ∀ d ∈ v.delivered, d.Faithful

/-- A message and the others. -/
theorem perm_cons_eraseIdx {messages : List SysvMessage}
    (h : messages[index]? = some message) : (message :: messages.eraseIdx index).Perm messages := by
  grind [getElem_cons_eraseIdx_perm]

/-- The bytes after a message is taken. -/
theorem SysvMsgQueue.Counted.take {queue' : SysvMsgQueue} (hq : queue.Counted)
    (hmessage : queue.messages[index]? = some message)
    (hmessages : queue'.messages = queue.messages.eraseIdx index)
    (hbytes : queue'.bytes = queue.bytes - message.data.length)
    (hqbytes : queue'.qbytes = queue.qbytes) : queue'.Counted := by
  have hsum := ((perm_cons_eraseIdx hmessage).map fun message => message.data.length).sum_nat
  rw [← hq.bytes, map_cons, sum_cons] at hsum
  constructor
  · rw [hbytes, hmessages]
    omega
  · exact Nat.le_trans (by omega) hq.bounded
  · rw [hqbytes]
    exact hq.limit

/-- What is left has been accepted. -/
theorem View.Ok.subperm_of_queued {v : View} (hv : v.Ok) {rest : List SysvMessage}
    (hrest : rest.Subperm v.queued) :
    (v.delivered.map Delivery.message ++ rest).Subperm v.accepted :=
  ((subperm_append_left _).mpr hrest).trans hv.atMostOnce

/-- The only queue is counted. -/
theorem counted_some (h : queue.Counted) :
    ∀ queue', some queue = some queue' → queue'.Counted := by
  rintro _ ⟨⟩
  exact h

/-- A step keeps the accounts. -/
theorem View.Ok.step {v v' : View} (hv : v.Ok) (h : QueueStep v v') : v'.Ok := by
  cases h with
  | same => exact hv
  | @created queue v hmessages hbytes hqbytes =>
    refine ⟨counted_some ⟨?_, ?_, Nat.le_of_eq hqbytes⟩, ?_, hv.faithful⟩
    · rw [hbytes, hmessages]
      rfl
    · rw [hbytes]
      exact Nat.zero_le _
    apply hv.subperm_of_queued
    show queue.messages.Subperm _
    rw [hmessages]
    exact nil_subperm
  | @sent queue queue' message accepted delivered hmessages hbytes hroom hqbytes =>
    have hq := hv.counted queue rfl
    refine ⟨counted_some ⟨?_, Nat.le_trans hroom hq.limit, ?_⟩, ?_, hv.faithful⟩
    · simp [hbytes, hmessages, hq.bytes]
    · rw [hqbytes]
      exact hq.limit
    · show (_ ++ queue'.messages).Subperm _
      rw [hmessages, ← append_assoc]
      exact (subperm_append_right [message]).mpr hv.atMostOnce
  | @lost queue queue' message index accepted delivered hmessage hmessages hbytes hqbytes =>
    have hq := (hv.counted queue rfl).take hmessage hmessages hbytes hqbytes
    refine ⟨counted_some hq, hv.subperm_of_queued ?_, hv.faithful⟩
    show queue'.messages.Subperm queue.messages
    rw [hmessages]
    exact (eraseIdx_sublist _ _).subperm
  | @received queue queue' d index accepted delivered hfaithful hmessage hmessages hbytes hqbytes =>
    have hq := (hv.counted queue rfl).take hmessage hmessages hbytes hqbytes
    refine ⟨counted_some hq, ?_, ?_⟩
    · -- The message moves from the queue to the deliveries.
      show ((delivered ++ [d]).map Delivery.message ++ queue'.messages).Subperm accepted
      rw [hmessages, map_append, append_assoc]
      exact hv.subperm_of_queued (perm_cons_eraseIdx hmessage).subperm
    · grind [hv.faithful]
  | @set queue queue' accepted delivered hmessages hbytes hqbytes =>
    have hq := hv.counted queue rfl
    refine ⟨counted_some ⟨?_, ?_, hqbytes⟩, ?_, hv.faithful⟩
    · rw [hbytes, hmessages]
      exact hq.bytes
    · rw [hbytes]
      exact hq.bounded
    · apply hv.subperm_of_queued
      show queue'.messages.Subperm queue.messages
      rw [hmessages]
  | removed =>
    refine ⟨?_, hv.subperm_of_queued nil_subperm, hv.faithful⟩
    intro queue hqueue
    cases hqueue

/-- The accounts hold after every run. -/
theorem Traffic.run_ok {ops : List MsgOp} {t : Traffic} (h : run ops .start = some t)
    {id : Int} : (t.view id).Ok := by
  have hstart : ∀ id, (start.view id).Ok := by
    intro id
    constructor
    · intro queue hqueue
      cases hqueue
    · exact nil_subperm
    · intro d hd
      cases hd
  have hrun := Lib.runOps_invariant (I := fun t => ∀ id, (view t id).Ok)
    (fun op s s' hstep hs id => (hs id).step (step_view hstep id)) hstart h
  exact hrun id

/-! ## Failing receivers -/

/-- The message that the round takes can be copied to the caller's buffer. -/
def CopiesOut (credentials : SysvCredentials) (msqid : Int) (msgp : RecvBuffer) (msgsz : ℕ)
    (msgtyp : Int64) (msgflg : UInt32) (state : SysvMsgState) : Prop :=
  ∀ message, takenMessage credentials msqid msgp msgsz msgtyp msgflg state = some message →
    msgp.takes (min message.data.length msgsz)

/-- A round of `msgrcv` that fails changes no queue exactly if the message that it takes, if any,
can be copied out. -/
theorem msgrcv_unchanged_iff (credentials : SysvCredentials) (msqid : Int) (msgp : RecvBuffer)
    (msgsz : ℕ) (msgtyp : Int64) (msgflg : UInt32) (now : Int) (state : SysvMsgState) :
    let out := msgrcv credentials msqid msgp msgsz msgtyp msgflg now state
    (∀ e, out.reply = .returned (.error e) →
        ∀ id : Int, out.state.queues[id]? = state.queues[id]?) ↔
      CopiesOut credentials msqid msgp msgsz msgtyp msgflg state := by
  dsimp only
  unfold CopiesOut
  obtain ⟨hnone, hsame, -⟩ | ⟨queue, index, message, hfind, hmessage, htaken, -, hstate, hreply⟩ :=
    msgrcv_cases credentials msqid msgp msgsz msgtyp msgflg now state
  · grind
  rw [htaken, hreply, hstate]
  constructor
  · intro hkeeps message' hsome
    cases hsome
    by_contra hcopy
    have hqueue := hkeeps .badAddress (by rw [if_neg hcopy]) msqid
    rw [getElem?_put, if_pos rfl, getElem?_of_findObject hfind] at hqueue
    -- The queue has one message less than it had.
    grind
  · grind

/-- In every state that the calls of any processes reach, the bytes of a queue are the sum of the
lengths of its messages and at most `MSGMNB`, every accepted message was delivered at most once,
with its type and data, and a failing `msgrcv` changes no queue exactly if the message that it
takes, if any, can be copied to the caller's buffer. -/
theorem run_messages (ops : List MsgOp) (t : Traffic) (h : run ops .start = some t) :
    (∀ (id : Int) (queue : SysvMsgQueue), t.state.queues[id]? = some queue →
        queue.bytes = (queue.messages.map fun message => message.data.length).sum ∧
          queue.bytes ≤ MSGMNB) ∧
      (∀ id, ((t.delivered id).map Delivery.message).Subperm (t.accepted id)) ∧
      (∀ id, ∀ d ∈ t.delivered id, d.Faithful) ∧
      ∀ (credentials : SysvCredentials) (msqid : Int) (msgp : RecvBuffer) (msgsz : ℕ)
        (msgtyp : Int64) (msgflg : UInt32) (now : Int),
        let out := msgrcv credentials msqid msgp msgsz msgtyp msgflg now t.state
        (∀ e, out.reply = .returned (.error e) →
            ∀ id : Int, out.state.queues[id]? = t.state.queues[id]?) ↔
          CopiesOut credentials msqid msgp msgsz msgtyp msgflg t.state := by
  refine ⟨?_, ?_, ?_, ?_⟩
  · intro id queue hqueue
    have hcounted := (run_ok h).counted queue hqueue
    exact ⟨hcounted.bytes, hcounted.bounded⟩
  · intro id
    exact (sublist_append_left _ _).subperm.trans (run_ok h).atMostOnce
  · intro id d hd
    exact (run_ok h).faithful d hd
  · intro credentials msqid msgp msgsz msgtyp msgflg now
    exact msgrcv_unchanged_iff credentials msqid msgp msgsz msgtyp msgflg now t.state

/-- Root in namespace 1, as process 7. -/
def rootCaller : SysvCredentials := ⟨1, 7, 0, 0, []⟩

/-- A private queue and a message of two bytes in it. -/
def sendTwoBytes : List MsgOp :=
  [.msgget rootCaller IPC_PRIVATE 0o600 0, .msgsnd rootCaller 1 ⟨false, some 5, [1, 2]⟩ 2 0 0]

/-- The same, and a receiver with room for eight bytes. -/
def echoTwoBytes : List MsgOp :=
  sendTwoBytes ++ [.msgrcv rootCaller 1 ⟨false, true, 8⟩ 8 0 0 0]

/-- A run with a send and a receive. -/
theorem run_messages_two_bytes : ∃ t, run echoTwoBytes .start = some t ∧
      t.accepted 1 = [⟨5, [1, 2]⟩] ∧ (t.delivered 1).length = 1 ∧
      ((t.delivered 1).map Delivery.message).Subperm (t.accepted 1) :=
  ⟨_, rfl, rfl, rfl, (run_messages echoTwoBytes _ rfl).2.1 1⟩

/-- A receiver whose buffer cannot be written gets an error, and the message is gone. -/
theorem msgrcv_fault_loses_message : ∃ t, run sendTwoBytes .start = some t ∧
      (t.state.queues[(1 : Int)]?).map messages = some [⟨5, [1, 2]⟩] ∧
      let out := msgrcv rootCaller 1 ⟨false, false, 0⟩ 8 0 0 0 t.state
      out.reply = .returned (.error .badAddress) ∧
        (out.state.queues[(1 : Int)]?).map messages = some [] :=
  ⟨_, rfl, rfl, rfl, rfl⟩

/-! ## The message that `select_message` finds -/

/-- The message is one that `msgrcv` may return for `msgtyp`. -/
def Qualifies (msgtyp : Int64) (message : SysvMessage) : Prop :=
  msgtyp = 0 ∨ 0 < msgtyp ∧ message.ty = msgtyp ∨ msgtyp < 0 ∧ message.ty.toInt ≤ -msgtyp.toInt

/-- The message to return is at the index: the first one that qualifies or, if `msgtyp` is negative,
the first one of the lowest type. Without an index, none qualifies. -/
def Selects (messages : List SysvMessage) (msgtyp : Int64) : Option ℕ → Prop
  | none => ∀ message ∈ messages, ¬ Qualifies msgtyp message
  | some index => ∃ message, messages[index]? = some message ∧ Qualifies msgtyp message ∧
      ∀ j other, messages[j]? = some other → Qualifies msgtyp other →
        (msgtyp < 0 → message.ty ≤ other.ty) ∧ (j < index → msgtyp < 0 ∧ message.ty < other.ty)

/-- The negated type, but for the least. -/
theorem toInt_neg {msgtyp : Int64} (h : msgtyp ≠ Int64.minValue) :
    (-msgtyp).toInt = -msgtyp.toInt := by
  have hne : msgtyp.toInt ≠ -2 ^ 63 := fun heq => h (Int64.toInt_inj.mp heq)
  have hlow := msgtyp.le_toInt
  have hhigh := msgtyp.toInt_lt
  rw [Int64.toInt_neg]
  exact Int.bmod_eq_of_le (by omega) (by omega)

/-- In a sorted list the places say the order. -/
theorem le_of_idxOf_le {β : Type} [DecidableEq β] {f : β → ℕ} {l : List β} {x y : β}
    (hsorted : l.Pairwise (f · < f ·)) (hx : x ∈ l) (hy : y ∈ l) (h : l.idxOf x ≤ l.idxOf y) :
    f x ≤ f y := by
  rcases Nat.lt_or_eq_of_le h with hlt | heq
  · have hless := pairwise_iff_getElem.mp hsorted _ _ (idxOf_lt_length_of_mem hx)
      (idxOf_lt_length_of_mem hy) hlt
    simp only [getElem_idxOf] at hless
    exact Nat.le_of_lt hless
  · rw [(idxOf_inj hx).mp heq]

/-- The indices are sorted. -/
theorem pairwise_zipIdx {messages : List SysvMessage} :
    messages.zipIdx.Pairwise (Prod.snd · < Prod.snd ·) := by
  rw [← pairwise_map (f := Prod.snd) (R := (· < ·)), zipIdx_map_snd]
  exact pairwise_lt_range' 1

/-- `select_message` returns the message to receive, unless `-msgtyp` overflows. -/
theorem selectMessage_iff (messages : List SysvMessage) (msgtyp : Int64) :
    (∃ index, selectMessage messages msgtyp = some index ∧ Selects messages msgtyp index) ↔
      msgtyp ≠ Int64.minValue := by
  constructor
  · rintro ⟨index, hselect, -⟩ rfl
    cases hselect
  intro hmin
  unfold selectMessage
  by_cases hzero : msgtyp = 0
  · -- The first message.
    rw [if_pos hzero]
    refine ⟨_, rfl, ?_⟩
    cases messages with
    | nil => exact nofun
    | cons message messages =>
      refine ⟨message, rfl, .inl hzero, fun j other _ _ => ⟨fun hneg => ?_, nofun⟩⟩
      exact absurd hneg (by rw [hzero]; decide)
  rw [if_neg hzero]
  by_cases hpos : 0 < msgtyp
  · -- The first message of the type.
    rw [if_pos hpos]
    refine ⟨_, rfl, ?_⟩
    have hneg : ¬ msgtyp < 0 := Int64.not_lt.mpr (Int64.le_of_lt hpos)
    have hqualifies : ∀ message, Qualifies msgtyp message ↔ message.ty = msgtyp := by
      simp [Qualifies, hzero, hpos, hneg]
    cases hfind : messages.findIdx? fun message => message.ty == msgtyp with
    | none => grind [Selects, findIdx?_eq_none_iff]
    | some index =>
      obtain ⟨hlt, hty, hfirst⟩ := findIdx?_eq_some_iff_getElem.mp hfind
      grind [Selects]
  -- The first message of the lowest type.
  rw [if_neg hpos, if_neg hmin]
  have hneg : msgtyp < 0 := Int64.lt_of_le_of_ne (Int64.not_lt.mp hpos) hzero
  have hqualifies : ∀ message, Qualifies msgtyp message ↔ message.ty ≤ -msgtyp := by
    intro message
    rw [Int64.le_iff_toInt_le, toInt_neg hmin]
    simp [Qualifies, hzero, hpos, hneg]
  have hmem : ∀ message i, (message, i) ∈ messages.zipIdx.filter (fun x => x.1.ty ≤ -msgtyp) ↔
      messages[i]? = some message ∧ Qualifies msgtyp message := by
    simp [hqualifies, mk_mem_zipIdx_iff_getElem?]
  refine ⟨_, rfl, ?_⟩
  cases hlowest : (messages.zipIdx.filter fun x => x.1.ty ≤ -msgtyp).argmin
    fun x => (x.1.ty.toInt + 0x8000000000000000).toNat with
  | none =>
    rw [argmin_eq_none] at hlowest
    intro message hmessage hq
    obtain ⟨i, hi⟩ := getElem?_of_mem hmessage
    have := (hmem message i).mpr ⟨hi, hq⟩
    rw [hlowest] at this
    cases this
  | some lowest =>
  obtain ⟨message, index⟩ := lowest
  obtain ⟨hin, hleast, hfirst⟩ := argmin_eq_some_iff.mp hlowest
  refine ⟨message, ((hmem _ _).mp hin).1, ((hmem _ _).mp hin).2, fun j other hother hq => ?_⟩
  have hin' := (hmem other j).mpr ⟨hother, hq⟩
  have hle := hleast _ hin'
  have hearlier := fun h => le_of_idxOf_le ((pairwise_zipIdx).filter _) hin hin' (hfirst _ hin' h)
  have hlow' := other.ty.le_toInt
  dsimp only at hle hearlier
  refine ⟨fun _ => Int64.le_iff_toInt_le.mpr (by omega), fun hlt => ⟨hneg, ?_⟩⟩
  rw [Int64.lt_iff_toInt_lt]
  by_contra hnot
  exact absurd (hearlier (by omega)) (by omega)

/-- The lowest value of `msgtyp` asks for the lowest type of all. -/
theorem selectMessage_min : (¬ ∃ index, selectMessage [⟨1, []⟩] Int64.minValue = some index) ∧
      Selects [⟨1, []⟩] Int64.minValue (some 0) := by
  refine ⟨nofun, _, rfl, .inr (.inr (by decide)), fun j other h _ => ?_⟩
  cases j with
  | zero => cases h; exact ⟨fun _ => by decide, nofun⟩
  | succ j => cases h

end Seele.Ipc.SysvMsg
