import RusshSftp.Protocol.Inversion
import RusshSftp.Server.Run

/-!
# The id of a response

A response should carry the id of its request.  The server knows that id from the decoded
request only, and answers what does not decode under the id 0.
-/

set_option autoImplicit false

namespace RusshSftp

open Utf8 ByteCodec

/-- The type bytes of the requests that have an id. -/
def isRequestType (type : UInt8) : Bool :=
  (SSH_FXP_OPEN ≤ type && type ≤ SSH_FXP_SYMLINK) || type == SSH_FXP_EXTENDED

/-- The four bytes after the type byte. -/
def idBytes (body : Bytes) : Bytes := (body.drop 1).take 4

namespace Packet

/-- The payload begins with this id. -/
def Carries (p : Packet) (id : UInt32) : Prop := ∃ tail, p.wire = putU32 id ++ tail

theorem idBytes_append (type : UInt8) (id : UInt32) (tail : Bytes) :
    idBytes (putU8 type ++ (putU32 id ++ tail)) = putU32 id := by
  have dropped : (putU8 type ++ (putU32 id ++ tail)).drop 1 = putU32 id ++ tail := rfl
  rw [idBytes, dropped]
  exact List.take_left' (putU32_length id)

theorem Carries.idBytes {p : Packet} {id : UInt32} (carries : p.Carries id) :
    idBytes p.body = putU32 id := by
  obtain ⟨tail, shape⟩ := carries
  rw [body, shape]
  exact idBytes_append p.typed.1 id tail

/-- A packet of a request type begins with the id that `get_request_id` gives. -/
theorem fields_of_request {p : Packet} (request : isRequestType p.typed.1 = true) :
    ∃ more, p.fields = .word p.getRequestId :: more := by
  cases p with
  | init p => exact absurd (show isRequestType SSH_FXP_INIT = true from request) (by decide)
  | version p => exact absurd (show isRequestType SSH_FXP_VERSION = true from request) (by decide)
  | status p => exact absurd (show isRequestType SSH_FXP_STATUS = true from request) (by decide)
  | handle p => exact absurd (show isRequestType SSH_FXP_HANDLE = true from request) (by decide)
  | data p => exact absurd (show isRequestType SSH_FXP_DATA = true from request) (by decide)
  | name p => exact absurd (show isRequestType SSH_FXP_NAME = true from request) (by decide)
  | attrs p => exact absurd (show isRequestType SSH_FXP_ATTRS = true from request) (by decide)
  | extendedReply p =>
      exact absurd (show isRequestType SSH_FXP_EXTENDED_REPLY = true from request) (by decide)
  | _ => exact ⟨_, rfl⟩

/-- The id of a decoded request is in its frame. -/
theorem idBytes_of_decoded {frame rest : Bytes} {p : Packet}
    (decoded : tryFrom.run frame = .ok (p, rest)) (request : isRequestType p.typed.1 = true) :
    RusshSftp.idBytes frame = putU32 p.getRequestId := by
  obtain ⟨fields, found, shape⟩ := fields_of_decoded decoded
  obtain ⟨whole, -⟩ := readPacket_ok found
  obtain ⟨more, begins⟩ := fields_of_request request
  rw [begins] at shape
  obtain ⟨first, others, rfl, id, -⟩ := List.map_eq_cons_iff.mp shape.symm
  cases first with
  | word v =>
      cases id
      rw [whole, List.flatMap_cons, List.append_assoc]
      exact idBytes_append _ _ _
  | _ => cases id

end Packet

namespace Server

variable {σ ε : Type}

/-- Every reply of the handler has the id that the handler was given. -/
structure Handler.AnswersWithId (handler : Handler σ ε) : Prop where
  «open» : ∀ id filename flags attrs s reply s',
    handler.open id filename flags attrs s = (.ok reply, s') → reply.id = id
  close : ∀ id handle s reply s', handler.close id handle s = (.ok reply, s') → reply.id = id
  read : ∀ id handle offset len s reply s',
    handler.read id handle offset len s = (.ok reply, s') → reply.id = id
  write : ∀ id handle offset data s reply s',
    handler.write id handle offset data s = (.ok reply, s') → reply.id = id
  lstat : ∀ id path s reply s', handler.lstat id path s = (.ok reply, s') → reply.id = id
  fstat : ∀ id handle s reply s', handler.fstat id handle s = (.ok reply, s') → reply.id = id
  setstat : ∀ id path attrs s reply s',
    handler.setstat id path attrs s = (.ok reply, s') → reply.id = id
  fsetstat : ∀ id handle attrs s reply s',
    handler.fsetstat id handle attrs s = (.ok reply, s') → reply.id = id
  opendir : ∀ id path s reply s', handler.opendir id path s = (.ok reply, s') → reply.id = id
  readdir : ∀ id handle s reply s', handler.readdir id handle s = (.ok reply, s') → reply.id = id
  remove : ∀ id filename s reply s', handler.remove id filename s = (.ok reply, s') → reply.id = id
  mkdir : ∀ id path attrs s reply s',
    handler.mkdir id path attrs s = (.ok reply, s') → reply.id = id
  rmdir : ∀ id path s reply s', handler.rmdir id path s = (.ok reply, s') → reply.id = id
  realpath : ∀ id path s reply s', handler.realpath id path s = (.ok reply, s') → reply.id = id
  stat : ∀ id path s reply s', handler.stat id path s = (.ok reply, s') → reply.id = id
  rename : ∀ id oldpath newpath s reply s',
    handler.rename id oldpath newpath s = (.ok reply, s') → reply.id = id
  readlink : ∀ id path s reply s', handler.readlink id path s = (.ok reply, s') → reply.id = id
  symlink : ∀ id linkpath targetpath s reply s',
    handler.symlink id linkpath targetpath s = (.ok reply, s') → reply.id = id
  extended : ∀ id request data s reply s',
    handler.extended id request data s = (.ok reply, s') → reply.Carries id

theorem status_carries {reply : Status} {id : UInt32} (same : reply.id = id) :
    (Packet.status reply).Carries id := by
  subst same
  exact ⟨_, rfl⟩

theorem handle_carries {reply : Handle} {id : UInt32} (same : reply.id = id) :
    (Packet.handle reply).Carries id := by
  subst same
  exact ⟨_, rfl⟩

theorem data_carries {reply : Data} {id : UInt32} (same : reply.id = id) :
    (Packet.data reply).Carries id := by
  subst same
  exact ⟨_, rfl⟩

theorem name_carries {reply : Name} {id : UInt32} (same : reply.id = id) :
    (Packet.name reply).Carries id := by
  subst same
  exact ⟨_, rfl⟩

theorem attrs_carries {reply : Attrs} {id : UInt32} (same : reply.id = id) :
    (Packet.attrs reply).Carries id := by
  subst same
  exact ⟨_, rfl⟩

/-- Either branch of `into_wrap!` answers under the id. -/
theorem intoWrap_carries {ρ : Type} {id : UInt32} {handler : Handler σ ε} {into : ρ → Packet}
    {result : Except ε ρ × σ}
    (answers : ∀ reply s', result = (.ok reply, s') → (into reply).Carries id) :
    (intoWrap id handler into result).1.Carries id := by
  obtain ⟨reply, s'⟩ := result
  cases reply with
  | error err => exact status_carries rfl
  | ok reply => exact answers reply s' rfl

/-- A request is answered under its own id, in both branches of every method: one case per
request. -/
theorem processRequest_carries {handler : Handler σ ε} (answers : handler.AnswersWithId)
    {p : Packet} (request : isRequestType p.typed.1 = true) (s : σ) :
    (processRequest handler p s).1.Carries p.getRequestId := by
  cases p with
  | init p => exact absurd (show isRequestType SSH_FXP_INIT = true from request) (by decide)
  | «open» p => exact intoWrap_carries fun _ _ ok => handle_carries (answers.open _ _ _ _ _ _ _ ok)
  | close p => exact intoWrap_carries fun _ _ ok => status_carries (answers.close _ _ _ _ _ ok)
  | read p => exact intoWrap_carries fun _ _ ok => data_carries (answers.read _ _ _ _ _ _ _ ok)
  | write p => exact intoWrap_carries fun _ _ ok => status_carries (answers.write _ _ _ _ _ _ _ ok)
  | lstat p => exact intoWrap_carries fun _ _ ok => attrs_carries (answers.lstat _ _ _ _ _ ok)
  | fstat p => exact intoWrap_carries fun _ _ ok => attrs_carries (answers.fstat _ _ _ _ _ ok)
  | setStat p =>
      exact intoWrap_carries fun _ _ ok => status_carries (answers.setstat _ _ _ _ _ _ ok)
  | fSetStat p =>
      exact intoWrap_carries fun _ _ ok => status_carries (answers.fsetstat _ _ _ _ _ _ ok)
  | openDir p => exact intoWrap_carries fun _ _ ok => handle_carries (answers.opendir _ _ _ _ _ ok)
  | readDir p => exact intoWrap_carries fun _ _ ok => name_carries (answers.readdir _ _ _ _ _ ok)
  | remove p => exact intoWrap_carries fun _ _ ok => status_carries (answers.remove _ _ _ _ _ ok)
  | mkDir p => exact intoWrap_carries fun _ _ ok => status_carries (answers.mkdir _ _ _ _ _ _ ok)
  | rmDir p => exact intoWrap_carries fun _ _ ok => status_carries (answers.rmdir _ _ _ _ _ ok)
  | realPath p => exact intoWrap_carries fun _ _ ok => name_carries (answers.realpath _ _ _ _ _ ok)
  | stat p => exact intoWrap_carries fun _ _ ok => attrs_carries (answers.stat _ _ _ _ _ ok)
  | rename p => exact intoWrap_carries fun _ _ ok => status_carries (answers.rename _ _ _ _ _ _ ok)
  | readLink p => exact intoWrap_carries fun _ _ ok => name_carries (answers.readlink _ _ _ _ _ ok)
  | symlink p =>
      exact intoWrap_carries fun _ _ ok => status_carries (answers.symlink _ _ _ _ _ _ ok)
  | extended p => exact intoWrap_carries fun _ _ ok => answers.extended _ _ _ _ _ _ ok
  -- a reply is refused under the id 0, which is what `get_request_id` gives for it
  | _ => exact status_carries rfl

/-- A frame of a request type is answered under its own id just when it decodes, or has the id
of what does not. -/
theorem answered_under_own_id_iff (handler : Handler σ ε) (answers : handler.AnswersWithId) (s : σ)
    (type : UInt8) (rest : Bytes) (request : isRequestType type = true) :
    (∃ encoded, (respond handler (type :: rest) s).1.toBytes = .ok encoded ∧
        idBytes (encoded.drop 4) = idBytes (type :: rest)) ↔
      (∃ p left, Packet.tryFrom.run (type :: rest) = .ok (p, left)) ∨
        idBytes (type :: rest) = [0, 0, 0, 0] := by
  have written (p : Packet) : (∃ encoded, p.toBytes = .ok encoded ∧
      idBytes (encoded.drop 4) = idBytes (type :: rest)) ↔
      idBytes p.body = idBytes (type :: rest) := by
    rw [p.toBytes_eq]
    have dropped : (putU32 (UInt32.ofNat p.wire.length + 1) ++ p.body).drop 4 = p.body :=
      List.drop_left' (putU32_length _)
    constructor
    · rintro ⟨encoded, same, id⟩
      cases same
      rwa [dropped] at id
    · intro id
      exact ⟨_, rfl, by rwa [dropped]⟩
  rw [written]
  cases decoded : Packet.tryFrom.run (type :: rest) with
  | ok got =>
      obtain ⟨p, left⟩ := got
      refine iff_of_true ?_ (.inl ⟨p, left, rfl⟩)
      have same : p.typed.1 = type := by
        obtain ⟨fields, found, -⟩ := fields_of_decoded decoded
        obtain ⟨whole, -⟩ := readPacket_ok found
        exact (List.cons.inj whole).1.symm
      have carries := processRequest_carries answers (same ▸ request) s
      rw [Packet.idBytes_of_decoded decoded (same ▸ request), respond, decoded]
      exact carries.idBytes
  | error e =>
      rw [respond, decoded]
      have zero : idBytes (Packet.error 0 .badMessage).body = [0, 0, 0, 0] :=
        (status_carries rfl : (Packet.error 0 .badMessage).Carries 0).idBytes
      dsimp only
      rw [zero]
      constructor
      · intro same
        exact .inr same.symm
      · rintro (⟨p, left, decodes⟩ | same)
        · cases decodes
        · exact same.symm

/-- A handler that closes what it is given and implements nothing else. -/
def closing : Handler Unit Unit where
  into _ := .opUnsupported
  unimplemented _ := ()
  close id _ s := (.ok ⟨id, .ok, "Ok", "en-US"⟩, s)

theorem closing_answers : closing.AnswersWithId := by
  constructor
  case close =>
    rintro id handle s reply s' ⟨⟩
    rfl
  all_goals
    intros
    rename_i replied
    cases replied

/-- A CLOSE of the handle "h" is answered under its id. -/
theorem answered_under_own_id_iff_close :
    ∃ encoded, (respond closing [4, 0, 0, 0, 7, 0, 0, 0, 1, 104] ()).1.toBytes = .ok encoded ∧
      idBytes (encoded.drop 4) = [0, 0, 0, 7] :=
  (answered_under_own_id_iff closing closing_answers () 4 [0, 0, 0, 7, 0, 0, 0, 1, 104] rfl).mpr
    (.inl ⟨.close ⟨7, "h"⟩, [], rfl⟩)

/-- A CLOSE without a handle has an id, and is answered under the id 0. -/
theorem answered_under_zero :
    closing.AnswersWithId ∧ isRequestType 4 = true ∧ idBytes [4, 0, 0, 0, 7] = [0, 0, 0, 7] ∧
      ∃ encoded, (respond closing [4, 0, 0, 0, 7] ()).1.toBytes = .ok encoded ∧
        idBytes (encoded.drop 4) = [0, 0, 0, 0] :=
  ⟨closing_answers, rfl, rfl, _, rfl, by decide +kernel⟩

end Server

end RusshSftp
