import RusshSftp.Protocol.Packet

/-!
# The server's handler

A handler is a record of methods on a state of its own.  Every request method
is by default the error that the handler keeps for what it does not implement.
-/

set_option autoImplicit false

namespace RusshSftp.Server

structure Handler (σ ε : Type) where
  /-- `Into<StatusCode>` of the handler's errors. -/
  into : ε → StatusCode
  unimplemented : σ → ε
  init : UInt32 → Extensions → σ → Except ε Version × σ :=
    fun _ _ s => (.ok Version.new, s)
  «open» : UInt32 → String → OpenFlags → FileAttributes → σ → Except ε Handle × σ :=
    fun _ _ _ _ s => (.error (unimplemented s), s)
  close : UInt32 → String → σ → Except ε Status × σ :=
    fun _ _ s => (.error (unimplemented s), s)
  read : UInt32 → String → UInt64 → UInt32 → σ → Except ε Data × σ :=
    fun _ _ _ _ s => (.error (unimplemented s), s)
  write : UInt32 → String → UInt64 → Bytes → σ → Except ε Status × σ :=
    fun _ _ _ _ s => (.error (unimplemented s), s)
  lstat : UInt32 → String → σ → Except ε Attrs × σ :=
    fun _ _ s => (.error (unimplemented s), s)
  fstat : UInt32 → String → σ → Except ε Attrs × σ :=
    fun _ _ s => (.error (unimplemented s), s)
  setstat : UInt32 → String → FileAttributes → σ → Except ε Status × σ :=
    fun _ _ _ s => (.error (unimplemented s), s)
  fsetstat : UInt32 → String → FileAttributes → σ → Except ε Status × σ :=
    fun _ _ _ s => (.error (unimplemented s), s)
  opendir : UInt32 → String → σ → Except ε Handle × σ :=
    fun _ _ s => (.error (unimplemented s), s)
  readdir : UInt32 → String → σ → Except ε Name × σ :=
    fun _ _ s => (.error (unimplemented s), s)
  remove : UInt32 → String → σ → Except ε Status × σ :=
    fun _ _ s => (.error (unimplemented s), s)
  mkdir : UInt32 → String → FileAttributes → σ → Except ε Status × σ :=
    fun _ _ _ s => (.error (unimplemented s), s)
  rmdir : UInt32 → String → σ → Except ε Status × σ :=
    fun _ _ s => (.error (unimplemented s), s)
  realpath : UInt32 → String → σ → Except ε Name × σ :=
    fun _ _ s => (.error (unimplemented s), s)
  stat : UInt32 → String → σ → Except ε Attrs × σ :=
    fun _ _ s => (.error (unimplemented s), s)
  rename : UInt32 → String → String → σ → Except ε Status × σ :=
    fun _ _ _ s => (.error (unimplemented s), s)
  readlink : UInt32 → String → σ → Except ε Name × σ :=
    fun _ _ s => (.error (unimplemented s), s)
  symlink : UInt32 → String → String → σ → Except ε Status × σ :=
    fun _ _ _ s => (.error (unimplemented s), s)
  extended : UInt32 → String → Bytes → σ → Except ε Packet × σ :=
    fun _ _ _ s => (.error (unimplemented s), s)

variable {σ ε : Type}

/-- `into_wrap!`: the packet that goes back for the result of a handler's method. -/
def intoWrap {ρ : Type} (id : UInt32) (handler : Handler σ ε) (into : ρ → Packet)
    (result : Except ε ρ × σ) : Packet × σ :=
  match result with
  | (.error err, s) => (Packet.error id (handler.into err), s)
  | (.ok packet, s) => (into packet, s)

def processRequest (handler : Handler σ ε) (packet : Packet) (s : σ) : Packet × σ :=
  let id := packet.getRequestId
  match packet with
  | .init p => intoWrap id handler .version (handler.init p.version p.extensions s)
  | .open p => intoWrap id handler .handle (handler.open p.id p.filename p.pflags p.attrs s)
  | .close p => intoWrap id handler .status (handler.close p.id p.handle s)
  | .read p => intoWrap id handler .data (handler.read p.id p.handle p.offset p.len s)
  | .write p => intoWrap id handler .status (handler.write p.id p.handle p.offset p.data s)
  | .lstat p => intoWrap id handler .attrs (handler.lstat p.id p.path s)
  | .fstat p => intoWrap id handler .attrs (handler.fstat p.id p.handle s)
  | .setStat p => intoWrap id handler .status (handler.setstat p.id p.path p.attrs s)
  | .fSetStat p => intoWrap id handler .status (handler.fsetstat p.id p.handle p.attrs s)
  | .openDir p => intoWrap id handler .handle (handler.opendir p.id p.path s)
  | .readDir p => intoWrap id handler .name (handler.readdir p.id p.handle s)
  | .remove p => intoWrap id handler .status (handler.remove p.id p.filename s)
  | .mkDir p => intoWrap id handler .status (handler.mkdir p.id p.path p.attrs s)
  | .rmDir p => intoWrap id handler .status (handler.rmdir p.id p.path s)
  | .realPath p => intoWrap id handler .name (handler.realpath p.id p.path s)
  | .stat p => intoWrap id handler .attrs (handler.stat p.id p.path s)
  | .rename p => intoWrap id handler .status (handler.rename p.id p.oldpath p.newpath s)
  | .readLink p => intoWrap id handler .name (handler.readlink p.id p.path s)
  | .symlink p => intoWrap id handler .status (handler.symlink p.id p.linkpath p.targetpath s)
  | .extended p => intoWrap id handler (fun q => q) (handler.extended p.id p.request p.data s)
  | _ => (Packet.error 0 .badMessage, s)

/-- A packet that is no request does not reach the handler. -/
theorem processRequest_of_not_request (handler : Handler σ ε) (packet : Packet) (s : σ)
    (response : packet.isRequest = false) :
    processRequest handler packet s = (Packet.error 0 .badMessage, s) := by
  cases packet <;> first | rfl | cases response

end RusshSftp.Server
