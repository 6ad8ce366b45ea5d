import RusshSftp.Shapes
import RusshSftp.Protocol.Fields

/-!
# Which values come back

The deserializer reads the index of every variant, and the serializer writes it for variants that
carry nothing only.  A value comes back if no variant in it carries data; a variant with data asks
the reader for four bytes that nobody has written.
-/

set_option autoImplicit false

namespace RusshSftp

open Utf8 ByteCodec

/-! ## Lengths, and what a value holds -/

mutual

/-- All lengths, and the indices of variants that carry nothing, are below `2 ^ 32`. -/
def Shape.Fits {b : Bool} {α : Type} : Shape b α → α → Prop
  | .u8, _ => True
  | .u32, _ => True
  | .u64, _ => True
  | .string, v => (utf8Bytes v).length < 2 ^ 32
  | .seq element, v => v.length < 2 ^ 32 ∧ ∀ x ∈ v, element.Fits x
  | .tuple fields, v => fields.Fits v
  | .tupleStruct _ fields, v => fields.Fits v
  | .struct _ fields, v => fields.Fits v
  | .newtypeStruct value, v => value.Fits v
  | .enum variants, v => variants.Fits 0 v
  | .map, v => ∀ entry ∈ v.entries,
      (utf8Bytes entry.1).length < 2 ^ 32 ∧ (utf8Bytes entry.2).length < 2 ^ 32
termination_by structural shape => shape

def Fields.Fits {b : Bool} {α : Type} : Fields b α → α → Prop
  | .nil, _ => True
  | .last field, v => field.Fits v
  | .cons field fields, v => field.Fits v.1 ∧ fields.Fits v.2
termination_by structural fields => fields

def Payload.Fits {b : Bool} {α : Type} (index : Nat) : Payload b α → α → Prop
  | .unit, _ => index < 2 ^ 32
  | .newtype value, v => value.Fits v
  | .tuple _ fields, v => fields.Fits v
termination_by structural payload => payload

def Variants.Fits {b : Bool} {α : Type} (index : Nat) : Variants b α → α → Prop
  | .nil, v => nomatch v
  | .cons payload _, .inl v => payload.Fits index v
  | .cons _ variants, .inr v => variants.Fits (index + 1) v
termination_by structural variants => variants

end

section
variable (text : String → Nat) (data : Nat)

mutual

/-- A sum over a value: `text` of its strings, and `data` for each variant with data. -/
def Shape.tally {b : Bool} {α : Type} : Shape b α → α → Nat
  | .u8, _ => 0
  | .u32, _ => 0
  | .u64, _ => 0
  | .string, v => text v
  | .seq element, v => (v.map element.tally).sum
  | .tuple fields, v => fields.tally v
  | .tupleStruct _ fields, v => fields.tally v
  | .struct _ fields, v => fields.tally v
  | .newtypeStruct value, v => value.tally v
  | .enum variants, v => variants.tally v
  | .map, v => (v.entries.map fun entry => text entry.1 + text entry.2).sum
termination_by structural shape => shape

def Fields.tally {b : Bool} {α : Type} : Fields b α → α → Nat
  | .nil, _ => 0
  | .last field, v => field.tally v
  | .cons field fields, v => field.tally v.1 + fields.tally v.2
termination_by structural fields => fields

def Payload.tally {b : Bool} {α : Type} : Payload b α → α → Nat
  | .unit, _ => 0
  | .newtype value, v => data + value.tally v
  | .tuple _ fields, v => data + fields.tally v
termination_by structural payload => payload

def Variants.tally {b : Bool} {α : Type} : Variants b α → α → Nat
  | .nil, v => nomatch v
  | .cons payload _, .inl v => payload.tally v
  | .cons _ variants, .inr v => variants.tally v
termination_by structural variants => variants

end

end

/-- The number of replacement characters of a text. -/
def replaced (text : String) : Nat := text.toList.count (Char.ofNat 0xFFFD)

/-- The number of variants in a value that carry data. -/
def Shape.dataVariants {b : Bool} {α : Type} (shape : Shape b α) (v : α) : Nat :=
  shape.tally (fun _ => 0) 1 v

/-- The number of replacement characters in the strings of a value. -/
def Shape.replacements {b : Bool} {α : Type} (shape : Shape b α) (v : α) : Nat :=
  shape.tally replaced 0 v

theorem Shape.dataVariants_map (extensions : Extensions) :
    Shape.map.dataVariants extensions = 0 := by
  apply List.sum_eq_zero
  intro n member
  obtain ⟨entry, _, rfl⟩ := List.mem_map.mp member
  rfl

/-- `from_bytes` of what `to_bytes` makes of a value is the value, and nothing is left. -/
def Shape.RoundTrips {b : Bool} {α : Type} (shape : Shape b α) (v : α) : Prop :=
  ∀ bytes, Packet.serToBytes (shape.serialize v) = .ok bytes →
    shape.deserialize.run bytes = .ok (v, [])

theorem Shape.toBytes_eq {b : Bool} {α : Type} (shape : Shape b α) (v : α) :
    Packet.serToBytes (shape.serialize v) = .ok (shape.wire v) := by
  rw [Packet.serToBytes, shape.appends v []]
  rfl

/-! ## Derived visitors never run out of elements -/

/-- The fields in order. -/
def Fields.read {b : Bool} {α : Type} : Fields b α → De α
  | .nil => pure ()
  | .last field => field.deserialize
  | .cons field fields => do
      let v ← field.deserialize
      let vs ← fields.read
      return (v, vs)

theorem Fields.visitSeq_run {b : Bool} {α : Type} (expected : String) (left : Nat) :
    (fields : Fields b α) → (index : Nat) →
      (fields.visitSeq expected index).run (fields.count + left) =
        fields.read >>= fun v => pure (v, left)
  | .nil, index => by
      rw [visitSeq, count, Nat.zero_add, read]
      rfl
  | .last field, index => by
      rw [visitSeq, count, Nat.add_comm, nextField_run_succ, read]
  | .cons field fields, index => by
      have later := fields.visitSeq_run expected left (index + 1)
      rw [visitSeq, count, Nat.add_right_comm, StateT.run_bind, nextField_run_succ, read]
      simp only [bind_assoc, pure_bind, StateT.run_bind, later, StateT.run_pure]
termination_by structural fields => fields

theorem Fields.deserializeTuple_eq {b : Bool} {α : Type} (fields : Fields b α)
    (expected : String) :
    deserializeTuple fields.count (fields.visitSeq expected 0) = fields.read := by
  have run := fields.visitSeq_run expected 0 0
  rw [Nat.add_zero] at run
  rw [deserializeTuple, StateT.run'_eq, run]
  simp

/-! ## Values without data variants come back -/

/-- The reader of a shape: one that may run to the end of the input has to see it. -/
def Reads {α : Type} : Bool → De α → Bytes → α → Prop
  | false => Consumes
  | true => ReadsAll

section
variable {α β : Type} {b : Bool} {r : De α} {bytes front back : Bytes} {v : α}

theorem Reads.of_consumes (reads : Consumes r bytes v) : Reads b r bytes v := by
  cases b with
  | false => exact reads
  | true => exact reads.readsAll

theorem Reads.bind {f : α → De β} {w : β} (first : Consumes r front v)
    (later : Reads b (f v) back w) : Reads b (r >>= f) (front ++ back) w := by
  cases b with
  | false => exact first.bind later
  | true => exact first.bind_readsAll later

theorem Reads.map (g : α → β) (reads : Reads b r bytes v) : Reads b (g <$> r) bytes (g v) := by
  cases b with
  | false => exact Consumes.map g reads
  | true => exact ReadsAll.map g reads

theorem Reads.readsAll (reads : Reads b r bytes v) : ReadsAll r bytes v := by
  cases b with
  | false => exact Consumes.readsAll reads
  | true => exact reads

end

/-- A variant in a value without data is its index alone. -/
theorem Variants.unit_of_plain {b : Bool} {α : Type} :
    (variants : Variants b α) → (index : Nat) → (v : α) → variants.Fits index v →
      variants.tally (fun _ => 0) 1 v = 0 →
      ∃ left, index + left < 2 ^ 32 ∧
        variants.wire index v = putU32 (UInt32.ofNat (index + left)) ∧
        ∀ read count, variants.visitEnum read count left = pure v
  | .cons .unit _, index, .inl v, fits, _ =>
      ⟨0, fits, rfl, fun _ _ => map_pure Sum.inl v⟩
  | .cons (.newtype value) _, index, .inl v, _, plain => by
      rw [tally, Payload.tally] at plain
      omega
  | .cons (.tuple _ fields) _, index, .inl v, _, plain => by
      rw [tally, Payload.tally] at plain
      omega
  | .cons _ variants, index, .inr v, fits, plain => by
      obtain ⟨left, small, wire, visit⟩ := variants.unit_of_plain (index + 1) v fits plain
      have place : index + 1 + left = index + (left + 1) := by omega
      rw [place] at small wire
      refine ⟨left + 1, small, wire, fun read count => ?_⟩
      rw [visitEnum, visit, map_pure]
termination_by structural variants => variants

mutual

theorem Shape.reads {b : Bool} {α : Type} :
    (shape : Shape b α) → (v : α) → shape.Fits v → shape.dataVariants v = 0 →
      Reads b shape.deserialize (shape.wire v) v
  | .u8, v, _, _ => .of_consumes (consumes_deserializeU8 v)
  | .u32, v, _, _ => .of_consumes (consumes_deserializeU32 v)
  | .u64, v, _, _ => .of_consumes (consumes_deserializeU64 v)
  | .string, v, fits, _ => .of_consumes (consumes_deserializeString v fits)
  | .seq element, v, fits, plain => by
      have each : ∀ item ∈ v, Consumes element.deserialize (element.wire item) item := by
        intro item member
        have none : element.tally (fun _ => 0) 1 item = 0 :=
          List.sum_eq_zero_iff.mp plain _ (List.mem_map_of_mem member)
        exact element.reads item (fits.2 item member) none
      have reads := consumes_deserializeVec element.deserialize element.wire id v fits.1 each
      rw [List.map_id] at reads
      exact .of_consumes reads
  | .tuple fields, v, fits, plain => by
      have reads := fields.reads v fits plain
      rwa [← fields.deserializeTuple_eq] at reads
  | .tupleStruct _ fields, v, fits, plain => by
      have reads := fields.reads v fits plain
      rwa [← fields.deserializeTuple_eq] at reads
  | .struct _ fields, v, fits, plain => by
      have reads := fields.reads v fits plain
      rwa [← fields.deserializeTuple_eq] at reads
  | .newtypeStruct value, v, fits, plain => value.reads v fits plain
  | .enum variants, v, fits, plain => by
      obtain ⟨left, small, wire, visit⟩ := variants.unit_of_plain 0 v fits plain
      rw [Nat.zero_add] at small wire
      have index : (UInt32.ofNat left).toNat = left := UInt32.toNat_ofNat_of_lt' small
      rw [Shape.wire, wire, ← List.append_nil (putU32 _)]
      refine .bind (consumes_deserializeU32 _) ?_
      rw [index]
      change Reads b (variants.visitEnum left variants.count left) [] v
      rw [visit]
      exact .of_consumes (consumes_pure v)
  | .map, v, fits, _ => Extensions.readsAll v fits
termination_by structural shape => shape

theorem Fields.reads {b : Bool} {α : Type} :
    (fields : Fields b α) → (v : α) → fields.Fits v → fields.tally (fun _ => 0) 1 v = 0 →
      Reads b fields.read (fields.wire v) v
  | .nil, v, _, _ => .of_consumes (consumes_pure v)
  | .last field, v, fits, plain => field.reads v fits plain
  | .cons field fields, v, fits, plain => by
      obtain ⟨first, others⟩ := Nat.add_eq_zero_iff.mp plain
      have later : Reads b (fields.read >>= fun vs => pure (v.1, vs)) (fields.wire v.2) v := by
        rw [bind_pure_comp]
        exact (fields.reads v.2 fits.2 others).map (Prod.mk v.1)
      exact .bind (field.reads v.1 fits.1 first) later
termination_by structural fields => fields

end

/-! ## What reading a value takes -/

/-- To read a value takes the bytes of its size, but for those to spare. -/
def AtLeast {α : Type} (r : De α) (size spare : α → Nat) : Prop :=
  ∀ input a rest, r.run input = .ok (a, rest) → size a + rest.length ≤ input.length + spare a

theorem atLeast_of_spells {α : Type} {r : De α} {wire : α → Bytes} (spells : Spells r wire) :
    AtLeast r (fun a => (wire a).length) fun _ => 0 := by
  intro input a rest read
  change (wire a).length + rest.length ≤ input.length + 0
  rw [spells _ _ _ read, List.length_append]
  omega

theorem atLeast_readMany {α : Type} {r : De α} {size spare : α → Nat}
    (each : AtLeast r size spare) (count : Nat) :
    AtLeast (readMany r count) (fun values => (values.map size).sum)
      fun values => (values.map spare).sum := by
  induction count with
  | zero =>
      intro input values rest read
      obtain ⟨rfl, rfl⟩ := pure_ok read
      exact Nat.le_of_eq (Nat.zero_add _)
  | succ count ih =>
      intro input values rest read
      obtain ⟨value, middle, first, read⟩ := bind_ok read
      obtain ⟨more, last, later, done⟩ := bind_ok read
      obtain ⟨rfl, rfl⟩ := pure_ok done
      have one := each _ _ _ first
      have others := ih _ _ _ later
      dsimp only at others ⊢
      rw [List.map_cons, List.map_cons, List.sum_cons, List.sum_cons]
      omega

theorem atLeast_string : AtLeast deserializeString
    (fun text => (lengthPrefixed (utf8Bytes text)).length) fun text => 2 * replaced text := by
  intro input text rest read
  obtain ⟨bytes, shape, _, rfl⟩ := tryGetString_ok read
  have grown := utf8Bytes_fromUtf8Lossy_length_le bytes
  dsimp only
  rw [shape, List.length_append, lengthPrefixed_length, lengthPrefixed_length, replaced]
  omega

namespace Extensions

/-- To insert an entry adds no more than the entry. -/
theorem insertEntry_sum_le (f : String × String → Nat) (entry : String × String)
    (entries : List (String × String)) :
    ((insertEntry entry entries).map f).sum ≤ (entries.map f).sum + f entry := by
  induction entries with
  | nil => simp [insertEntry]
  | cons old rest ih =>
      rw [insertEntry]
      by_cases same : old.1 = entry.1
      · have whole : (entry.1, entry.2) = entry := rfl
        rw [if_pos same, same, whole, List.map_cons, List.map_cons, List.sum_cons, List.sum_cons]
        omega
      · rw [if_neg same, List.map_cons, List.map_cons, List.sum_cons, List.sum_cons]
        omega

theorem foldl_insert_sum_le (f : String × String → Nat) (entries : List (String × String))
    (extensions : Extensions) :
    ((entries.foldl insert extensions).entries.map f).sum ≤
      (extensions.entries.map f).sum + (entries.map f).sum := by
  induction entries generalizing extensions with
  | nil => exact Nat.le_refl _
  | cons entry entries ih =>
      have later := ih (extensions.insert entry)
      have added := insertEntry_sum_le f entry extensions.entries
      change ((insert extensions entry).entries.map f).sum ≤ _ at added
      rw [List.foldl_cons, List.map_cons, List.sum_cons]
      omega

end Extensions

/-- An entry without its length to spare. -/
def entryWeight (entry : String × String) : Nat :=
  (entryWire entry).length - 2 * (replaced entry.1 + replaced entry.2)

theorem entryWeight_lossy (entry : Bytes × Bytes) :
    entryWeight (lossyEntry entry) ≤ (rawEntryWire entry).length := by
  have key := utf8Bytes_fromUtf8Lossy_length_le entry.1
  have value := utf8Bytes_fromUtf8Lossy_length_le entry.2
  rw [entryWeight, entryWire, rawEntryWire, lossyEntry]
  simp only [List.length_append, lengthPrefixed_length, replaced]
  omega

theorem atLeast_extensions : AtLeast Extensions.deserialize
    (fun extensions => (extensions.entries.flatMap entryWire).length)
    fun extensions =>
      2 * (extensions.entries.map fun entry => replaced entry.1 + replaced entry.2).sum := by
  intro input extensions rest read
  rw [Extensions.deserialize_eq] at read
  obtain ⟨raw, readRaw, rfl⟩ := map_ok read
  obtain ⟨shape, rfl⟩ := readRawEntries_ok readRaw
  have kept := Extensions.foldl_insert_sum_le entryWeight (raw.map lossyEntry) .empty
  have lighter : ((raw.map lossyEntry).map entryWeight).sum ≤ input.length := by
    rw [shape, List.length_flatMap, List.map_map]
    exact List.sum_le_sum fun entry _ => entryWeight_lossy entry
  have whole (entries : List (String × String)) : (entries.flatMap entryWire).length ≤
      (entries.map entryWeight).sum +
        2 * (entries.map fun entry => replaced entry.1 + replaced entry.2).sum := by
    induction entries with
    | nil => exact Nat.le_refl 0
    | cons entry entries ih =>
        rw [List.flatMap_cons, List.length_append, List.map_cons, List.map_cons, List.sum_cons,
          List.sum_cons, entryWeight]
        omega
  have written := whole (Extensions.ofRaw raw).entries
  change ((Extensions.ofRaw raw).entries.map entryWeight).sum ≤ 0 + _ at kept
  dsimp only
  rw [List.length_nil]
  omega

mutual

theorem Shape.takes {b : Bool} {α : Type} : (shape : Shape b α) →
    AtLeast shape.deserialize (fun v => (shape.wire v).length + 4 * shape.dataVariants v)
      fun v => 2 * shape.replacements v
  | .u8 => atLeast_of_spells spells_deserializeU8
  | .u32 => atLeast_of_spells spells_deserializeU32
  | .u64 => atLeast_of_spells spells_deserializeU64
  | .string => atLeast_string
  | .seq element => by
      intro input values rest read
      obtain ⟨count, middle, word, read⟩ := bind_ok read
      rw [nextElements_run'] at read
      have taken := atLeast_readMany element.takes count.toNat middle values rest read
      change (putU32 _ ++ values.flatMap element.wire).length +
        4 * (values.map element.dataVariants).sum + rest.length ≤
          input.length + 2 * (values.map element.replacements).sum
      dsimp only at taken
      rw [List.sum_map_add, List.sum_map_mul_left, List.sum_map_mul_left] at taken
      rw [spells_deserializeU32 _ _ _ word, List.length_append, List.length_append,
        List.length_flatMap, putU32_length, putU32_length]
      omega
  | .tuple fields => by
      have takes := fields.takes
      rwa [← fields.deserializeTuple_eq] at takes
  | .tupleStruct _ fields => by
      have takes := fields.takes
      rwa [← fields.deserializeTuple_eq] at takes
  | .struct _ fields => by
      have takes := fields.takes
      rwa [← fields.deserializeTuple_eq] at takes
  | .newtypeStruct value => value.takes
  | .enum variants => by
      intro input v rest read
      obtain ⟨index, middle, word, read⟩ := bind_ok read
      have taken := variants.takes index.toNat variants.count 0 index.toNat middle v rest read
      change (variants.wire 0 v).length + 4 * variants.tally (fun _ => 0) 1 v + rest.length ≤
        input.length + 2 * variants.tally replaced 0 v
      dsimp only at taken
      rw [spells_deserializeU32 _ _ _ word, List.length_append, putU32_length]
      omega
  | .map => by
      intro input v rest read
      have taken := atLeast_extensions input v rest read
      dsimp only
      rw [Shape.dataVariants_map]
      exact taken
termination_by structural shape => shape

theorem Fields.takes {b : Bool} {α : Type} : (fields : Fields b α) →
    AtLeast fields.read
      (fun v => (fields.wire v).length + 4 * fields.tally (fun _ => 0) 1 v)
      fun v => 2 * fields.tally replaced 0 v
  | .nil => by
      intro input v rest read
      obtain ⟨_, rfl⟩ := pure_ok read
      exact Nat.le_of_eq (Nat.zero_add _)
  | .last field => field.takes
  | .cons field fields => by
      intro input v rest read
      obtain ⟨first, middle, one, read⟩ := bind_ok read
      obtain ⟨others, last, two, done⟩ := bind_ok read
      obtain ⟨rfl, rfl⟩ := pure_ok done
      have front := field.takes input first middle one
      have back := fields.takes middle others last two
      change (field.wire first ++ fields.wire others).length +
        4 * (field.dataVariants first + fields.tally (fun _ => 0) 1 others) + last.length ≤
          input.length + 2 * (field.replacements first + fields.tally replaced 0 others)
      dsimp only at front back
      rw [List.length_append]
      omega
termination_by structural fields => fields

theorem Payload.takes {b : Bool} {α : Type} (index : UInt32) : (payload : Payload b α) →
    AtLeast payload.variant
      (fun v => (payload.wire index v).length + 4 * payload.tally (fun _ => 0) 1 v)
      fun v => 4 + 2 * payload.tally replaced 0 v
  | .unit => by
      intro input v rest read
      obtain ⟨_, rfl⟩ := pure_ok read
      change (putU32 index).length + 4 * 0 + input.length ≤ input.length + (4 + 2 * 0)
      rw [putU32_length]
      omega
  | .newtype value => by
      intro input v rest read
      have taken := value.takes input v rest read
      change (value.wire v).length + 4 * (1 + value.dataVariants v) + rest.length ≤
        input.length + (4 + 2 * (0 + value.replacements v))
      dsimp only at taken
      omega
  | .tuple _ fields => by
      intro input v rest read
      have takes := fields.takes
      rw [← fields.deserializeTuple_eq] at takes
      have taken := takes input v rest read
      change (fields.wire v).length + 4 * (1 + fields.tally (fun _ => 0) 1 v) + rest.length ≤
        input.length + (4 + 2 * (0 + fields.tally replaced 0 v))
      dsimp only at taken
      omega
termination_by structural payload => payload

/-- Besides its index, which has been read. -/
theorem Variants.takes {b : Bool} {α : Type} (read count : Nat) : (variants : Variants b α) →
    (index left : Nat) → AtLeast (variants.visitEnum read count left)
      (fun v => (variants.wire index v).length + 4 * variants.tally (fun _ => 0) 1 v)
      fun v => 4 + 2 * variants.tally replaced 0 v
  | .nil, index, left => by
      intro input v
      cases v
  | .cons payload _, index, 0 => by
      intro input v rest read
      obtain ⟨inner, variant, rfl⟩ := map_ok read
      exact payload.takes (UInt32.ofNat index) input inner rest variant
  | .cons _ variants, index, left + 1 => by
      intro input v rest visit
      obtain ⟨inner, later, rfl⟩ := map_ok visit
      exact variants.takes read count (index + 1) left input inner rest later
termination_by structural variants => variants

end

/-! ## Values of the same type that are as bare as can be -/

mutual

/-- The value with its strings and maps emptied. -/
def Shape.bare {b : Bool} {α : Type} : Shape b α → α → α
  | .u8, v => v
  | .u32, v => v
  | .u64, v => v
  | .string, _ => ""
  | .seq element, v => v.map element.bare
  | .tuple fields, v => fields.bare v
  | .tupleStruct _ fields, v => fields.bare v
  | .struct _ fields, v => fields.bare v
  | .newtypeStruct value, v => value.bare v
  | .enum variants, v => variants.bare v
  | .map, _ => .empty
termination_by structural shape => shape

def Fields.bare {b : Bool} {α : Type} : Fields b α → α → α
  | .nil, v => v
  | .last field, v => field.bare v
  | .cons field fields, v => (field.bare v.1, fields.bare v.2)
termination_by structural fields => fields

def Payload.bare {b : Bool} {α : Type} : Payload b α → α → α
  | .unit, v => v
  | .newtype value, v => value.bare v
  | .tuple _ fields, v => fields.bare v
termination_by structural payload => payload

def Variants.bare {b : Bool} {α : Type} : Variants b α → α → α
  | .nil, v => v
  | .cons payload _, .inl v => .inl (payload.bare v)
  | .cons _ variants, .inr v => .inr (variants.bare v)
termination_by structural variants => variants

end

mutual

/-- A bare value has the variants of the value, and nothing else that counts. -/
theorem Shape.tally_bare {b : Bool} {α : Type} {text : String → Nat} (none : text "" = 0)
    (data : Nat) : (shape : Shape b α) → (v : α) →
      shape.tally text data (shape.bare v) = data * shape.dataVariants v
  | .u8, _ => rfl
  | .u32, _ => rfl
  | .u64, _ => rfl
  | .string, _ => none
  | .seq element, v => by
      have each : (element.tally text data) ∘ element.bare =
          fun item => data * element.dataVariants item :=
        funext fun item => element.tally_bare none data item
      change ((v.map element.bare).map (element.tally text data)).sum =
        data * (v.map fun item => element.dataVariants item).sum
      rw [List.map_map, each, List.sum_map_mul_left]
  | .tuple fields, v => fields.tally_bare none data v
  | .tupleStruct _ fields, v => fields.tally_bare none data v
  | .struct _ fields, v => fields.tally_bare none data v
  | .newtypeStruct value, v => value.tally_bare none data v
  | .enum variants, v => variants.tally_bare none data v
  | .map, v => by
      have zero : Shape.map.dataVariants v = 0 := Shape.dataVariants_map v
      rw [zero]
      rfl
termination_by structural shape => shape

theorem Fields.tally_bare {b : Bool} {α : Type} {text : String → Nat} (none : text "" = 0)
    (data : Nat) : (fields : Fields b α) → (v : α) →
      fields.tally text data (fields.bare v) = data * fields.tally (fun _ => 0) 1 v
  | .nil, _ => rfl
  | .last field, v => field.tally_bare none data v
  | .cons field fields, v => by
      change field.tally text data (field.bare v.1) + fields.tally text data (fields.bare v.2) =
        data * (field.dataVariants v.1 + fields.tally (fun _ => 0) 1 v.2)
      rw [field.tally_bare none data v.1, fields.tally_bare none data v.2, Nat.mul_add]
termination_by structural fields => fields

theorem Payload.tally_bare {b : Bool} {α : Type} {text : String → Nat} (none : text "" = 0)
    (data : Nat) : (payload : Payload b α) → (v : α) →
      payload.tally text data (payload.bare v) = data * payload.tally (fun _ => 0) 1 v
  | .unit, _ => rfl
  | .newtype value, v => by
      change data + value.tally text data (value.bare v) = data * (1 + value.dataVariants v)
      rw [value.tally_bare none data v, Nat.mul_add, Nat.mul_one]
  | .tuple _ fields, v => by
      change data + fields.tally text data (fields.bare v) =
        data * (1 + fields.tally (fun _ => 0) 1 v)
      rw [fields.tally_bare none data v, Nat.mul_add, Nat.mul_one]
termination_by structural payload => payload

theorem Variants.tally_bare {b : Bool} {α : Type} {text : String → Nat} (none : text "" = 0)
    (data : Nat) : (variants : Variants b α) → (v : α) →
      variants.tally text data (variants.bare v) = data * variants.tally (fun _ => 0) 1 v
  | .cons payload _, .inl v => payload.tally_bare none data v
  | .cons _ variants, .inr v => variants.tally_bare none data v
termination_by structural variants => variants

end

mutual

theorem Shape.fits_bare {b : Bool} {α : Type} : (shape : Shape b α) → (v : α) →
    shape.Fits v → shape.Fits (shape.bare v)
  | .u8, _, fits => fits
  | .u32, _, fits => fits
  | .u64, _, fits => fits
  | .string, _, _ => (by decide : (utf8Bytes "").length < 2 ^ 32)
  | .seq element, v, fits => by
      refine ⟨by rw [Shape.bare, List.length_map]; exact fits.1, fun item member => ?_⟩
      obtain ⟨held, inside, rfl⟩ := List.mem_map.mp member
      exact element.fits_bare held (fits.2 held inside)
  | .tuple fields, v, fits => fields.fits_bare v fits
  | .tupleStruct _ fields, v, fits => fields.fits_bare v fits
  | .struct _ fields, v, fits => fields.fits_bare v fits
  | .newtypeStruct value, v, fits => value.fits_bare v fits
  | .enum variants, v, fits => variants.fits_bare 0 v fits
  | .map, _, _ => by
      intro entry member
      cases member
termination_by structural shape => shape

theorem Fields.fits_bare {b : Bool} {α : Type} : (fields : Fields b α) → (v : α) →
    fields.Fits v → fields.Fits (fields.bare v)
  | .nil, _, fits => fits
  | .last field, v, fits => field.fits_bare v fits
  | .cons field fields, v, fits => ⟨field.fits_bare v.1 fits.1, fields.fits_bare v.2 fits.2⟩
termination_by structural fields => fields

theorem Payload.fits_bare {b : Bool} {α : Type} (index : Nat) : (payload : Payload b α) →
    (v : α) → payload.Fits index v → payload.Fits index (payload.bare v)
  | .unit, _, fits => fits
  | .newtype value, v, fits => value.fits_bare v fits
  | .tuple _ fields, v, fits => fields.fits_bare v fits
termination_by structural payload => payload

theorem Variants.fits_bare {b : Bool} {α : Type} (index : Nat) : (variants : Variants b α) →
    (v : α) → variants.Fits index v → variants.Fits index (variants.bare v)
  | .cons payload _, .inl v, fits => payload.fits_bare index v fits
  | .cons _ variants, .inr v, fits => variants.fits_bare (index + 1) v fits
termination_by structural variants => variants

end

/-! ## The round trip -/

section
variable {b : Bool} {α : Type} {shape : Shape b α} {v : α}

/-- A value with no data in its variants comes back. -/
theorem Shape.roundTrips_of_plain (fits : shape.Fits v) (plain : shape.dataVariants v = 0) :
    shape.RoundTrips v := by
  intro bytes written
  rw [shape.toBytes_eq] at written
  cases written
  exact (shape.reads v fits plain).readsAll

/-- A value whose variants carry data is read from more bytes than are written for it, unless
there are two replacement characters for each of these variants. -/
theorem Shape.not_roundTrips (few : shape.replacements v < 2 * shape.dataVariants v) :
    ¬ shape.RoundTrips v := by
  intro returns
  have taken := shape.takes (shape.wire v) v [] (returns _ (shape.toBytes_eq v))
  dsimp only at taken
  omega

theorem Shape.not_roundTrips_bare (data : shape.dataVariants v ≠ 0) :
    ¬ shape.RoundTrips (shape.bare v) := by
  apply Shape.not_roundTrips
  have kept : shape.dataVariants (shape.bare v) = shape.dataVariants v := by
    rw [Shape.dataVariants, shape.tally_bare rfl, Nat.one_mul]
  have none : shape.replacements (shape.bare v) = 0 := by
    rw [Shape.replacements, shape.tally_bare (by decide), Nat.zero_mul]
  omega

end

/-- Values come back if no variant in them carries data, and only then: of a value with data in
its variants, unless it has the replacement characters to make up for it; and of a type with such
values, some do not come back. -/
theorem values_round_trip_iff {b : Bool} {α : Type} (shape : Shape b α) :
    (∀ v, shape.Fits v → shape.dataVariants v = 0 → shape.RoundTrips v) ∧
      (∀ v, shape.replacements v < 2 * shape.dataVariants v → ¬ shape.RoundTrips v) ∧
      ((∀ v, shape.Fits v → shape.RoundTrips v) ↔
        ∀ v, shape.Fits v → shape.dataVariants v = 0) := by
  refine ⟨fun v => Shape.roundTrips_of_plain, fun v => Shape.not_roundTrips, ?_⟩
  constructor
  · intro returns v fits
    by_contra data
    exact Shape.not_roundTrips_bare data (returns (shape.bare v) (shape.fits_bare v fits))
  · intro plain v fits
    exact Shape.roundTrips_of_plain fits (plain v fits)

/-- An enumeration of two variants that both carry a number. -/
def twoNumbers : Shape false (UInt32 ⊕ UInt32 ⊕ Empty) :=
  .enum (.cons (.newtype .u32) (.cons (.newtype .u32) .nil))

/-- The second variant is written as its number, and read as the first variant, and then there is
nothing left. -/
theorem variant_not_written :
    Packet.serToBytes (twoNumbers.serialize (.inr (.inl 0))) = .ok [0, 0, 0, 0] ∧
      (∃ e, twoNumbers.deserialize.run [0, 0, 0, 0] = .error e) ∧
      twoNumbers.Fits (.inr (.inl 0)) ∧ ¬ twoNumbers.RoundTrips (.inr (.inl 0)) := by
  refine ⟨by decide, ⟨_, rfl⟩, trivial, Shape.not_roundTrips ?_⟩
  decide

end RusshSftp
