import RusshSftp.Client.Operations
import RusshSftp.Protocol.Inversion

/-!
# Handles and names that go back to the server

A handle or a file name arrives as bytes, is kept as a string, and goes back as the bytes of that
string.  Bytes that are not UTF-8 are replaced on the way.
-/

set_option autoImplicit false

namespace RusshSftp.Client

open Utf8 ByteCodec

namespace Request

/-- The handle, the paths or the name that a call was given. -/
def texts : Request → List String
  | .open filename _ _ => [filename]
  | .close handle => [handle]
  | .read handle _ _ => [handle]
  | .write handle _ _ => [handle]
  | .lstat path => [path]
  | .fstat handle => [handle]
  | .setstat path _ => [path]
  | .fsetstat handle _ => [handle]
  | .opendir path => [path]
  | .readdir handle => [handle]
  | .remove filename => [filename]
  | .mkdir path _ => [path]
  | .rmdir path => [path]
  | .realpath path => [path]
  | .stat path => [path]
  | .rename oldpath newpath => [oldpath, newpath]
  | .readlink path => [path]
  | .symlink path target => [path, target]
  | .extended request _ => [request]

/-- The request is written as the fields of its packet, and these are the texts among them. -/
def Writes (request : Request) (texts : List Bytes) : Prop :=
  ∀ id, (request.operation.packet id).fields.filterMap Field.text? = texts ∧
    ∃ word, (request.operation.packet id).toBytes = .ok (putU32 word ++
      (putU8 (request.operation.packet id).typed.1 ++
        (request.operation.packet id).fields.flatMap Field.wire))

theorem writes_texts (request : Request) : request.Writes (request.texts.map utf8Bytes) := by
  intro id
  refine ⟨by cases request <;> rfl, ?_⟩
  rw [Packet.toBytes_eq, Packet.body, ← Packet.wire_eq_fields]
  exact ⟨_, rfl⟩

end Request

/-- A HANDLE reply with any bytes for its handle. -/
def handleFrame (id : UInt32) (handle : Bytes) : Bytes :=
  putU8 SSH_FXP_HANDLE ++ (putU32 id ++ lengthPrefixed handle)

theorem consumes_handleFrame (id : UInt32) (handle : Bytes) (short : handle.length < 2 ^ 32) :
    Consumes Packet.tryFrom (handleFrame id handle) (.handle ⟨id, fromUtf8Lossy handle⟩) := by
  have typeByte := (consumes_tryGetU8 SSH_FXP_HANDLE).mapErr RusshSftp.Error.ofTryGet
  have text := Consumes.map fromUtf8Lossy (consumes_tryGetBytes handle short)
  exact typeByte.bind <| Consumes.map Packet.handle <|
    consumes_struct2 "Handle" Handle.mk (consumes_deserializeU32 id) text

theorem ofFile_injective {left right : RusshSftp.File}
    (same : FileFields.ofFile left = FileFields.ofFile right) : left = right := by
  obtain ⟨filename, longname, attrs⟩ := left
  obtain ⟨filename', longname', attrs'⟩ := right
  simp only [FileFields.ofFile, FileFields.mk.injEq, Block.ofAttrs, Block.mk.injEq] at same
  obtain ⟨sameName, sameLong, -, rfl⟩ := same
  rw [utf8Bytes_injective sameName, utf8Bytes_injective sameLong]

/-- The files of a decoded NAME are those of its fields. -/
theorem files_of_decoded {input rest : Bytes} {p : Name}
    (decoded : Packet.tryFrom.run input = .ok (.name p, rest)) :
    ∃ files, readPacket.run input = .ok ((SSH_FXP_NAME, [.word p.id, .files files]), rest) ∧
      p.files = files.map FileFields.file := by
  obtain ⟨fields, found, shape⟩ := fields_of_decoded decoded
  have shape : [.word p.id, .files (p.files.map FileFields.ofFile)] =
      fields.map Field.rewritten := shape
  obtain ⟨first, more, rfl, id, shape⟩ := List.map_eq_cons_iff.mp shape.symm
  obtain ⟨second, none, rfl, list, shape⟩ := List.map_eq_cons_iff.mp shape
  obtain rfl := List.map_eq_nil_iff.mp shape
  cases first with
  | word v =>
      cases second with
      | files files =>
          cases id
          refine ⟨files, found, ?_⟩
          have same : files.map (fun file => FileFields.ofFile file.file) =
              p.files.map FileFields.ofFile := Field.files.inj list
          refine List.map_injective_iff.mpr (fun _ _ => ofFile_injective) ?_
          rw [← same, List.map_map]
          rfl
      | _ => cases list
  | _ => cases id

/-- A text comes back from its string unchanged just when it is UTF-8. -/
theorem kept_iff (bytes : Bytes) : utf8Bytes (fromUtf8Lossy bytes) = bytes ↔ ValidUtf8 bytes :=
  ⟨fun same => ⟨_, same⟩, utf8Bytes_fromUtf8Lossy⟩

/-- Every request writes the UTF-8 of the strings that it was given.  A handle of a HANDLE reply
and the names of a NAME reply are given to it lossily decoded; so they go back unchanged just
when they were UTF-8, and two of those stay two. -/
theorem texts_echoed (id : UInt32) (handle t : Bytes) (short : handle.length < 2 ^ 32) :
    Packet.tryFrom.run (handleFrame id handle ++ t) =
        .ok (.handle ⟨id, fromUtf8Lossy handle⟩, t) ∧
      (∀ body p rest, Packet.tryFrom.run body = .ok (.name p, rest) →
        ∃ files, readPacket.run body = .ok ((SSH_FXP_NAME, [.word p.id, .files files]), rest) ∧
          p.files.map RusshSftp.File.filename = files.map fun file => fromUtf8Lossy file.filename) ∧
      (∀ request : Request, request.Writes (request.texts.map utf8Bytes)) ∧
      (∀ text : Bytes, utf8Bytes (fromUtf8Lossy text) = text ↔ ValidUtf8 text) ∧
      ∀ other, ValidUtf8 handle → ValidUtf8 other →
        utf8Bytes (fromUtf8Lossy other) = utf8Bytes (fromUtf8Lossy handle) → other = handle := by
  refine ⟨consumes_handleFrame id handle short t, ?_, Request.writes_texts, kept_iff, ?_⟩
  · intro body p rest decoded
    obtain ⟨files, found, same⟩ := files_of_decoded decoded
    refine ⟨files, found, ?_⟩
    rw [same, List.map_map]
    rfl
  · intro other valid validOther same
    rwa [utf8Bytes_fromUtf8Lossy valid, utf8Bytes_fromUtf8Lossy validOther] at same

/-- A text handle is closed under its own bytes. -/
theorem texts_echoed_close :
    Packet.tryFrom.run (handleFrame 1 [104, 49]) = .ok (.handle ⟨1, "h1"⟩, []) ∧
      (Request.close "h1").Writes [[104, 49]] := by
  obtain ⟨decoded, -, writes, kept, -⟩ := texts_echoed 1 [104, 49] [] (by decide)
  have same : fromUtf8Lossy [104, 49] = "h1" := by decide +kernel
  rw [List.append_nil, same] at decoded
  refine ⟨decoded, ?_⟩
  have closes := writes (.close (fromUtf8Lossy [104, 49]))
  have valid : ValidUtf8 [104, 49] := ⟨"h1", by decide +kernel⟩
  rw [Request.texts, List.map_singleton, (kept [104, 49]).mpr valid, same] at closes
  exact closes

/-- Two handles of one byte each are both closed under the three bytes of the replacement
character. -/
theorem handles_merged :
    Packet.tryFrom.run (handleFrame 1 [0xFF]) = .ok (.handle ⟨1, "\uFFFD"⟩, []) ∧
      Packet.tryFrom.run (handleFrame 1 [0xFE]) = .ok (.handle ⟨1, "\uFFFD"⟩, []) ∧
      ((Request.close "\uFFFD").operation.packet 2).toBytes =
        .ok [0, 0, 0, 12, 4, 0, 0, 0, 2, 0, 0, 0, 3, 0xEF, 0xBF, 0xBD] ∧
      ¬ (Request.close "\uFFFD").Writes [[0xFF]] := by
  refine ⟨by decide +kernel, by decide +kernel, by decide +kernel, fun writes => ?_⟩
  exact absurd (writes 2).1 (by decide +kernel)

end RusshSftp.Client
