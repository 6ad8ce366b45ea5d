import RusshSftp.Protocol.Fields
import RusshSftp.Lib.Logged

/-!
# How much work a body makes

Counts and lengths in a packet are the peer's to choose, up to `2 ^ 32 - 1`.  The decoders of a NAME
and of the extensions note each element that they begin to read, and the reader of fields notes
each length word with the bytes that were left after it.
-/

set_option autoImplicit false

namespace RusshSftp

open Utf8 ByteCodec

/-! ## Elements that are begun -/

/-- `Deserialize for Vec<T>`, with what its elements note. -/
def loggedVec {ω α : Type} (len : Logged ω Error UInt32) (seed : Logged ω Error α) :
    Logged ω Error (List α) :=
  len.bind fun len => Logged.readMany seed len.toNat

theorem erase_loggedVec {ω α : Type} {len : Logged ω Error UInt32} (seed : Logged ω Error α)
    (same : len.erase = deserializeU32) :
    (loggedVec len seed).erase = deserializeVec seed.erase := by
  rw [loggedVec, Logged.erase_bind, same, deserializeVec, deserializeSeq]
  simp only [Logged.erase_readMany, nextElements_run']

/-- A NAME that notes each file it begins to read. -/
def Name.logged : Logged Unit Error Name :=
  (Logged.free deserializeU32).bind fun id =>
    (loggedVec (.free deserializeU32) (.noting () File.deserialize)).bind fun files =>
      .free (pure ⟨id, files⟩)

/-- The key and the value of an entry. -/
def nextEntry : De (String × String) := do
  let key ← deserializeString
  let value ← deserializeString
  return (key, value)

/-- A map of extensions that notes each entry it begins to read. -/
def Extensions.logged : Logged Unit Error Extensions := fun input =>
  Logged.foldToEnd (.noting () nextEntry) Extensions.insert (.badMessage "map entry of no bytes")
    input.length .empty input

/-- A version and its extensions. -/
def loggedVersioned {τ : Type} (mk : UInt32 → Extensions → τ) : Logged Unit Error τ :=
  (Logged.free deserializeU32).bind fun version =>
    Extensions.logged.bind fun extensions => .free (pure (mk version extensions))

def Init.logged : Logged Unit Error Init := loggedVersioned Init.mk
def Version.logged : Logged Unit Error Version := loggedVersioned Version.mk

theorem Name.erase_logged : Name.logged.erase = Name.deserialize := by
  rw [logged, Logged.erase_bind, Name.deserialize, deserializeStruct2_eq]
  simp only [Logged.erase_bind, erase_loggedVec _ (Logged.erase_free deserializeU32)]
  rfl

theorem Extensions.erase_logged : Extensions.logged.erase = Extensions.deserialize := by
  funext input
  exact congrFun (Logged.erase_foldToEnd (.noting () nextEntry) Extensions.insert _ input.length
    .empty) input

theorem erase_loggedVersioned {τ : Type} (name : String) (mk : UInt32 → Extensions → τ) :
    (loggedVersioned mk).erase =
      deserializeStruct2 name mk deserializeU32 Extensions.deserialize := by
  rw [loggedVersioned, Logged.erase_bind, deserializeStruct2_eq]
  simp only [Logged.erase_bind, Extensions.erase_logged]
  rfl

/-- A file takes the lengths of its names, if nothing more. -/
theorem takes_file : (Logged.noting () File.deserialize).Takes 8 where
  once := fun _ => Nat.le_refl 1
  bytes := by
    intro input file rest read
    rw [FileFields.deserialize_eq] at read
    obtain ⟨fields, taken, _⟩ := map_ok read
    rw [FileFields.spells_read _ _ _ taken, List.length_append, FileFields.wire_length]
    omega

/-- An entry takes the lengths of its key and its value. -/
theorem takes_entry : (Logged.noting () nextEntry).Takes 8 where
  once := fun _ => Nat.le_refl 1
  bytes := by
    intro input entry rest read
    obtain ⟨key, middle, readKey, read⟩ := bind_ok read
    obtain ⟨value, last, readValue, done⟩ := bind_ok read
    obtain ⟨_, rfl⟩ := pure_ok done
    obtain ⟨keyBytes, keyShape, _⟩ := tryGetString_ok readKey
    obtain ⟨valueBytes, valueShape, _⟩ := tryGetString_ok readValue
    rw [keyShape, valueShape]
    simp only [List.length_append, lengthPrefixed_length]
    omega

theorem shrinks_deserializeU32 (input : Bytes) (word : UInt32) (rest : Bytes)
    (read : deserializeU32.run input = .ok (word, rest)) : rest.length ≤ input.length := by
  rw [spells_deserializeU32 _ _ _ read, List.length_append]
  exact Nat.le_add_left _ _

theorem Name.logged_le (body : Bytes) : (Name.logged body).1.length ≤ body.length / 8 + 1 := by
  refine Logged.free_bind_le shrinks_deserializeU32 (fun id rest => ?_) body
  rw [Logged.bind_free_log]
  exact Logged.free_bind_le shrinks_deserializeU32
    (fun len rest => takes_file.readMany_le (by decide) len.toNat rest) rest

theorem Extensions.logged_le (input : Bytes) :
    (Extensions.logged input).1.length ≤ input.length / 8 + 1 :=
  takes_entry.foldToEnd_le (by decide) _ _ _ _ input

theorem loggedVersioned_le {τ : Type} (mk : UInt32 → Extensions → τ) (body : Bytes) :
    (loggedVersioned mk body).1.length ≤ body.length / 8 + 1 := by
  refine Logged.free_bind_le shrinks_deserializeU32 (fun version rest => ?_) body
  rw [Logged.bind_free_log]
  exact Extensions.logged_le rest

/-! ## What the files of a NAME take -/

namespace Block

/-- A block takes its flags word, unless the input ends before it. -/
theorem read_takes {input rest : Bytes} {block : Block}
    (read : Block.read.run input = .ok (block, rest)) :
    input = [] ∧ rest = [] ∨ 4 ≤ block.wire.length := by
  cases input with
  | nil =>
      obtain ⟨_, ended⟩ := Prod.mk.inj (Except.ok.inj read)
      exact .inl ⟨rfl, ended.symm⟩
  | cons byte input =>
      obtain ⟨bits, middle, _, fields⟩ := bind_ok read
      obtain ⟨attrs, last, _, done⟩ := bind_ok fields
      obtain ⟨rfl, _⟩ := pure_ok done
      refine .inr ?_
      rw [wire, List.length_append, putU32_length]
      exact Nat.le_add_right _ _

end Block

/-- A file takes twelve bytes, unless it is at the end of the input. -/
theorem FileFields.read_takes {input rest : Bytes} {file : FileFields}
    (read : FileFields.read.run input = .ok (file, rest)) :
    input.length = file.wire.length + rest.length ∧ 8 ≤ file.wire.length ∧
      (rest = [] ∨ 12 ≤ file.wire.length) := by
  have shape := congrArg List.length (FileFields.spells_read _ _ _ read)
  rw [List.length_append] at shape
  have size := file.wire_length
  refine ⟨shape, by omega, ?_⟩
  obtain ⟨filename, input1, _, read⟩ := bind_ok read
  obtain ⟨longname, input2, _, read⟩ := bind_ok read
  obtain ⟨block, input3, attrs, read⟩ := bind_ok read
  obtain ⟨rfl, rfl⟩ := pure_ok read
  rcases Block.read_takes attrs with ended | taken
  · exact .inl ended.2
  · exact .inr (by dsimp only at size; omega)

/-- Only the last file can do without its flags word: after it there is nothing to read. -/
theorem readMany_files_take (count : Nat) {input rest : Bytes} {files : List FileFields}
    (read : (readMany FileFields.read (count + 1)).run input = .ok (files, rest)) :
    12 * (count + 1) + rest.length ≤ input.length + 4 := by
  induction count generalizing input files with
  | zero =>
      obtain ⟨file, middle, first, read⟩ := bind_ok read
      obtain ⟨_, last, later, done⟩ := bind_ok read
      obtain ⟨_, rfl⟩ := pure_ok later
      obtain ⟨_, rfl⟩ := pure_ok done
      obtain ⟨whole, least, _⟩ := FileFields.read_takes first
      omega
  | succ count ih =>
      obtain ⟨file, middle, first, read⟩ := bind_ok read
      obtain ⟨_, last, later, done⟩ := bind_ok read
      obtain ⟨_, rfl⟩ := pure_ok done
      have others := ih later
      obtain ⟨whole, _, ended | taken⟩ := FileFields.read_takes first
      · rw [ended, List.length_nil] at others
        omega
      · omega

/-- The files that a NAME has come from as many as are declared, and take their bytes. -/
theorem Name.files_take {body rest : Bytes} {name : Name}
    (read : Name.deserialize.run body = .ok (name, rest)) :
    ∃ declared : UInt32, ∃ files, body = putU32 name.id ++ (putU32 declared ++ (files ++ rest)) ∧
      declared.toNat = name.files.length ∧
      (1 ≤ name.files.length → 12 * name.files.length - 4 ≤ files.length) := by
  rw [Name.deserialize, deserializeStruct2_eq, FileFields.deserialize_eq, deserializeVec_map]
    at read
  obtain ⟨id, middle, word, read⟩ := bind_ok read
  obtain ⟨_, last, readFiles, done⟩ := bind_ok read
  obtain ⟨rfl, rfl⟩ := pure_ok done
  obtain ⟨files, readFields, rfl⟩ := map_ok readFiles
  obtain ⟨declared, inside, count, elements⟩ := bind_ok readFields
  rw [nextElements_run'] at elements
  obtain ⟨shape, length⟩ := readMany_ok FileFields.spells_read elements
  refine ⟨declared, files.flatMap FileFields.wire, ?_, ?_, ?_⟩
  · rw [spells_deserializeU32 _ _ _ word, spells_deserializeU32 _ _ _ count, shape]
  · rw [List.length_map, length]
  · intro some_files
    rw [List.length_map] at some_files ⊢
    obtain ⟨fewer, same⟩ : ∃ fewer, declared.toNat = fewer + 1 := ⟨files.length - 1, by omega⟩
    rw [same] at elements
    have least := readMany_files_take fewer elements
    have whole := congrArg List.length shape
    rw [List.length_append] at whole
    omega

/-! ## Data -/

theorem spells_data : Spells (deserializeVec deserializeU8) lengthPrefixed := by
  intro input data rest read
  have shape : input = putU32 (UInt32.ofNat data.length) ++ data.flatMap putU8 ++ rest :=
    spells_deserializeVec spells_deserializeU8 _ _ _ read
  rwa [flatMap_putU8] at shape

/-- The data of a packet are the first of the bytes that follow their length. -/
theorem Data.data_remain {body rest : Bytes} {p : Data}
    (read : Data.deserialize.run body = .ok (p, rest)) :
    body = putU32 p.id ++ (putU32 (UInt32.ofNat p.data.length) ++ (p.data ++ rest)) := by
  rw [Data.deserialize, deserializeStruct2_eq] at read
  obtain ⟨id, middle, word, read⟩ := bind_ok read
  obtain ⟨data, last, counted, done⟩ := bind_ok read
  obtain ⟨rfl, rfl⟩ := pure_ok done
  rw [spells_deserializeU32 _ _ _ word, spells_data _ _ _ counted, lengthPrefixed]
  simp only [List.append_assoc]

theorem Write.data_remain {body rest : Bytes} {p : Write}
    (read : Write.deserialize.run body = .ok (p, rest)) :
    ∃ handle, body = putU32 p.id ++ (lengthPrefixed handle ++ (putU64 p.offset ++
      (putU32 (UInt32.ofNat p.data.length) ++ (p.data ++ rest)))) := by
  rw [Write.deserialize, deserializeStruct4_eq] at read
  obtain ⟨id, input1, word, read⟩ := bind_ok read
  obtain ⟨text, input2, name, read⟩ := bind_ok read
  obtain ⟨offset, input3, long, read⟩ := bind_ok read
  obtain ⟨data, last, counted, done⟩ := bind_ok read
  obtain ⟨rfl, rfl⟩ := pure_ok done
  obtain ⟨handle, shape, _, _⟩ := tryGetString_ok name
  refine ⟨handle, ?_⟩
  rw [spells_deserializeU32 _ _ _ word, shape, spells_deserializeU64 _ _ _ long,
    spells_data _ _ _ counted]
  simp only [lengthPrefixed, List.append_assoc]

/-! ## Lengths that are declared -/

/-- A length word, and the number of bytes that are left after it. -/
structure LengthWord where
  declared : Nat
  remaining : Nat
deriving DecidableEq, Repr

/-- The bytes that a length word declares are there. -/
def LengthWord.Covered (word : LengthWord) : Prop := word.declared ≤ word.remaining

/-- Read a length word and note it. -/
def declaring (len : De UInt32) : Logged LengthWord Error UInt32 := fun input =>
  match len.run input with
  | .error e => ([], .error e)
  | .ok (len, rest) => ([⟨len.toNat, rest.length⟩], .ok (len, rest))

theorem erase_declaring (len : De UInt32) : (declaring len).erase = len := by
  funext input
  rw [Logged.erase, declaring]
  cases read : len.run input with
  | error e => exact read.symm
  | ok got => exact read.symm

/-- `try_get_bytes` after its length. -/
def tryTake (len : Nat) : De Bytes := do
  let input ← get
  if input.length < len then throw (.badMessage "no remaining for vec")
  set (input.drop len)
  return input.take len

/-- `try_get_bytes`, with its length noted. -/
def loggedBytes : Logged LengthWord Error Bytes :=
  (declaring (mapErr (fun e => .unexpectedBehavior e.display) tryGetU32)).bind fun len =>
    .free (tryTake len.toNat)

theorem erase_loggedBytes : loggedBytes.erase = tryGetBytes := by
  rw [loggedBytes, Logged.erase_bind, erase_declaring]
  rfl

/-- What is read after a length word succeeds only if the bytes are there. -/
theorem notes_declaring {α : Type} {len : De UInt32} {f : UInt32 → Logged LengthWord Error α}
    (enough : ∀ (len : UInt32) input a rest, (f len input).2 = .ok (a, rest) →
      len.toNat ≤ input.length)
    (later : ∀ len, (f len).Notes LengthWord.Covered) :
    ((declaring len).bind f).Notes LengthWord.Covered := by
  intro input a rest read event member
  obtain ⟨word, middle, one, two, log⟩ := Logged.bind_ok read
  rw [log, List.mem_append] at member
  rcases member with own | late
  · rw [declaring] at own one
    cases first : len.run input with
    | error e => rw [first] at own; cases own
    | ok got =>
        rw [first] at own one
        cases one
        obtain rfl := List.mem_singleton.mp own
        exact enough got.1 got.2 a rest two
  · exact later word middle a rest two event late

theorem tryTake_ok {len : Nat} {input bytes rest : Bytes}
    (read : (tryTake len).run input = .ok (bytes, rest)) : len ≤ input.length := by
  by_contra short
  simp [tryTake, Nat.lt_of_not_le short] at read
  cases read

theorem notes_loggedBytes : loggedBytes.Notes LengthWord.Covered :=
  notes_declaring (fun _ _ _ _ read => tryTake_ok read) fun _ => Logged.notes_free _

/-- A sequence, with its count noted. -/
theorem notes_loggedVec {α : Type} {seed : Logged LengthWord Error α} {wire : α → Bytes}
    (spells : Spells seed.erase wire) (nonempty : ∀ a, 0 < (wire a).length)
    (each : seed.Notes LengthWord.Covered) :
    (loggedVec (declaring deserializeU32) seed).Notes LengthWord.Covered := by
  refine notes_declaring (fun len input values rest read => ?_) fun len => each.readMany len.toNat
  have erased := congrFun (Logged.erase_readMany seed len.toNat) input
  exact readMany_le spells nonempty (erased.symm.trans read)

namespace FileFields

def logged : Logged LengthWord Error FileFields :=
  loggedBytes.bind fun filename =>
    loggedBytes.bind fun longname =>
      (Logged.free Block.read).bind fun block => .free (pure ⟨filename, longname, block⟩)

theorem erase_logged : logged.erase = read := by
  rw [logged, Logged.erase_bind, erase_loggedBytes]
  simp only [Logged.erase_bind, erase_loggedBytes]
  rfl

theorem notes_logged : logged.Notes LengthWord.Covered :=
  notes_loggedBytes.bind fun _ => notes_loggedBytes.bind fun _ => (Logged.notes_free _).bind
    fun _ => Logged.notes_free _

end FileFields

def loggedEntry : Logged LengthWord Error (Bytes × Bytes) :=
  loggedBytes.bind fun key => loggedBytes.bind fun value => .free (pure (key, value))

theorem erase_loggedEntry : loggedEntry.erase = readRawEntry := by
  rw [loggedEntry, Logged.erase_bind, erase_loggedBytes]
  simp only [Logged.erase_bind, erase_loggedBytes]
  rfl

def loggedEntries : Logged LengthWord Error (List (Bytes × Bytes)) := fun input =>
  Logged.foldToEnd loggedEntry (fun entries entry => entries ++ [entry])
    (.badMessage "map entry of no bytes") input.length [] input

theorem erase_loggedEntries : loggedEntries.erase = readRawEntries := by
  funext input
  have same := congrFun (Logged.erase_foldToEnd loggedEntry
    (fun entries entry => entries ++ [entry]) (.badMessage "map entry of no bytes") input.length
    []) input
  rw [erase_loggedEntry] at same
  exact same

/-- The field of a kind, with the length words in it noted. -/
def Kind.logged : Kind → Logged LengthWord Error Field
  | .text => loggedBytes.map .text
  | .data => (loggedVec (declaring deserializeU32) (.free deserializeU8)).map .data
  | .files => (loggedVec (declaring deserializeU32) FileFields.logged).map .files
  | .entries => loggedEntries.map .entries
  | kind => .free kind.read

theorem Kind.erase_logged (kind : Kind) : kind.logged.erase = kind.read := by
  cases kind with
  | text => rw [logged, Logged.erase_map, erase_loggedBytes, read]
  | data => rw [logged, Logged.erase_map, erase_loggedVec _ (erase_declaring _)]; rfl
  | files =>
      rw [logged, Logged.erase_map, erase_loggedVec _ (erase_declaring _), FileFields.erase_logged]
      rfl
  | entries => rw [logged, Logged.erase_map, erase_loggedEntries, read]
  | _ => rfl

theorem Kind.notes_logged (kind : Kind) : kind.logged.Notes LengthWord.Covered := by
  cases kind with
  | text => exact notes_loggedBytes.map _
  | data =>
      have spells : Spells (Logged.free (ω := LengthWord) deserializeU8).erase putU8 :=
        spells_deserializeU8
      exact (notes_loggedVec spells (fun _ => Nat.one_pos) (Logged.notes_free _)).map _
  | files =>
      have spells : Spells FileFields.logged.erase FileFields.wire := by
        rw [FileFields.erase_logged]
        exact FileFields.spells_read
      exact (notes_loggedVec spells FileFields.wire_pos FileFields.notes_logged).map _
  | entries =>
      have each : loggedEntry.Notes LengthWord.Covered :=
        notes_loggedBytes.bind fun _ => notes_loggedBytes.bind fun _ => Logged.notes_free _
      refine Logged.Notes.map ?_ _
      intro input entries rest read
      exact each.foldToEnd _ _ _ _ input entries rest read
  | _ => exact Logged.notes_free _

def loggedFields : List Kind → Logged LengthWord Error (List Field)
  | [] => .free (pure [])
  | kind :: kinds =>
      kind.logged.bind fun field =>
        (loggedFields kinds).bind fun fields => .free (pure (field :: fields))

theorem erase_loggedFields (kinds : List Kind) : (loggedFields kinds).erase = readFields kinds := by
  induction kinds with
  | nil => rfl
  | cons kind kinds ih =>
      rw [loggedFields, Logged.erase_bind, Kind.erase_logged, readFields]
      simp only [Logged.erase_bind, ih]
      rfl

theorem notes_loggedFields (kinds : List Kind) :
    (loggedFields kinds).Notes LengthWord.Covered := by
  induction kinds with
  | nil => exact Logged.notes_free _
  | cons kind kinds ih =>
      exact kind.notes_logged.bind fun _ => ih.bind fun _ => Logged.notes_free _

/-- A packet, with all length words in it noted. -/
def loggedPacket : Logged LengthWord Error (UInt8 × List Field) :=
  (Logged.free (mapErr Error.ofTryGet tryGetU8)).bind fun type =>
    match layout type with
    | some kinds => (loggedFields kinds).map fun fields => (type, fields)
    | none => .free (throw (.badMessage "unknown type"))

theorem erase_loggedPacket : loggedPacket.erase = readPacket := by
  rw [loggedPacket, Logged.erase_bind, readPacket]
  refine bind_congr fun type => ?_
  cases layout type with
  | none => rfl
  | some kinds => rw [Logged.erase_map, erase_loggedFields]

theorem notes_loggedPacket : loggedPacket.Notes LengthWord.Covered := by
  refine (Logged.notes_free _).bind fun type => ?_
  cases layout type with
  | none => exact Logged.notes_free _
  | some kinds => exact (notes_loggedFields kinds).map _

/-- A packet that is decoded has had the bytes of every length word in it. -/
theorem declared_covered {input rest : Bytes} {p : Packet}
    (decoded : Packet.tryFrom.run input = .ok (p, rest)) :
    ∀ word ∈ (loggedPacket input).1, word.Covered := by
  have seen := run_map_ok (fun p : Packet => (p.typed.1, p.fields)) decoded
  rw [tryFrom_fields] at seen
  obtain ⟨found, read, _⟩ := map_ok seen
  rw [← erase_loggedPacket] at read
  exact notes_loggedPacket input found rest read

/-- The work of decoding a body is bounded by the body, whatever it declares. -/
structure BoundedWork (body : Bytes) : Prop where
  name_attempts : (Name.logged body).2 = Name.deserialize.run body ∧
    (Name.logged body).1.length ≤ body.length / 8 + 1
  name_files : ∀ name rest, Name.deserialize.run body = .ok (name, rest) →
    ∃ declared : UInt32, ∃ files, body = putU32 name.id ++ (putU32 declared ++ (files ++ rest)) ∧
      declared.toNat = name.files.length ∧
      (1 ≤ name.files.length → 12 * name.files.length - 4 ≤ files.length)
  init_attempts : (Init.logged body).2 = Init.deserialize.run body ∧
    (Init.logged body).1.length ≤ body.length / 8 + 1
  version_attempts : (Version.logged body).2 = Version.deserialize.run body ∧
    (Version.logged body).1.length ≤ body.length / 8 + 1
  data : ∀ p rest, Data.deserialize.run body = .ok (p, rest) →
    ∃ left, body = putU32 p.id ++ (putU32 (UInt32.ofNat p.data.length) ++ left) ∧
      left = p.data ++ rest ∧ p.data.length ≤ left.length
  write : ∀ p rest, Write.deserialize.run body = .ok (p, rest) →
    ∃ handle left, body = putU32 p.id ++ (lengthPrefixed handle ++ (putU64 p.offset ++
        (putU32 (UInt32.ofNat p.data.length) ++ left))) ∧
      left = p.data ++ rest ∧ p.data.length ≤ left.length
  declared : ∀ type : UInt8,
    (loggedPacket (putU8 type ++ body)).2 = readPacket.run (putU8 type ++ body) ∧
      ∀ word ∈ (loggedPacket (putU8 type ++ body)).1, word.remaining < word.declared →
        ∃ e, Packet.tryFrom.run (putU8 type ++ body) = .error e

theorem decoding_work_bounded (body : Bytes) : BoundedWork body where
  name_attempts := ⟨congrFun Name.erase_logged body, Name.logged_le body⟩
  name_files := fun _ _ => Name.files_take
  init_attempts := ⟨congrFun (erase_loggedVersioned _ _) body, loggedVersioned_le _ body⟩
  version_attempts := ⟨congrFun (erase_loggedVersioned _ _) body, loggedVersioned_le _ body⟩
  data := by
    intro p rest read
    refine ⟨p.data ++ rest, Data.data_remain read, rfl, ?_⟩
    rw [List.length_append]
    exact Nat.le_add_right _ _
  write := by
    intro p rest read
    obtain ⟨handle, shape⟩ := Write.data_remain read
    refine ⟨handle, p.data ++ rest, shape, rfl, ?_⟩
    rw [List.length_append]
    exact Nat.le_add_right _ _
  declared := by
    intro type
    refine ⟨congrFun erase_loggedPacket _, fun word member short => ?_⟩
    cases decoded : Packet.tryFrom.run (putU8 type ++ body) with
    | error e => exact ⟨e, rfl⟩
    | ok got => exact absurd (declared_covered decoded word member) (Nat.not_le_of_lt short)

end RusshSftp
