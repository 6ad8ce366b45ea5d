import RusshSftp.Ser

/-!
# The deserializer

The methods of the crate's `serde::Deserializer` that its packets reach, with
`SeqDeserializer`, whose length bounds how many elements a visitor may take,
and `MapDeserializer`, which goes on until the input is empty.
-/

set_option autoImplicit false

namespace RusshSftp

open Utf8 ByteCodec

def deserializeU8 : De UInt8 := mapErr Error.ofTryGet tryGetU8
def deserializeU32 : De UInt32 := mapErr Error.ofTryGet tryGetU32
def deserializeU64 : De UInt64 := mapErr Error.ofTryGet tryGetU64
def deserializeStr : De String := tryGetString
def deserializeString : De String := deserializeStr

def deserializeNewtypeStruct {α : Type} (value : De α) : De α := value

/-! ## `SeqDeserializer` -/

/-- A visitor's view of a sequence.  The state is the `len` of `SeqDeserializer`,
which every method of the deserializer sets. -/
abbrev SeqAccess (α : Type) := StateT Nat (ByteReader Error) α

def nextElement {α : Type} (seed : De α) : SeqAccess (Option α) := fun len =>
  match len with
  | 0 => pure (none, 0)
  | len + 1 => do
      let value ← seed
      pure (some value, len)

/-- `while let Some(value) = seq.next_element()? { values.push(value); }`. -/
def nextElements {α : Type} (seed : De α) : SeqAccess (List α) := fun len => do
  let values ← readMany seed len
  pure (values, 0)

/-- The visitor gets a `SeqDeserializer` with as many elements as bytes remain. -/
def deserializeAny {α : Type} (visitSeq : SeqAccess α) : De α := do
  let input ← get
  visitSeq.run' input.length

def deserializeSeq {α : Type} (visitSeq : SeqAccess α) : De α := do
  let len ← deserializeU32
  visitSeq.run' len.toNat

def deserializeTuple {α : Type} (len : Nat) (visitSeq : SeqAccess α) : De α := visitSeq.run' len

def deserializeStruct {α : Type} (fields : Nat) (visitSeq : SeqAccess α) : De α :=
  deserializeTuple fields visitSeq

/-- `Deserialize for Vec<T>`. -/
def deserializeVec {α : Type} (seed : De α) : De (List α) := deserializeSeq (nextElements seed)

/-- Deserialization of a `Vec` without length: up to the end of the packet. -/
def dataDeserialize : De Bytes := deserializeAny (nextElements deserializeU8)

/-- `MapDeserializer` under the visitor of a map: `next_key_seed` gives a key while
input remains, `next_value_seed` its value.  Every entry takes bytes, so the
remaining length bounds the rounds (`deserializeMap_fuel`). -/
def deserializeMap {μ : Type} (empty : μ) (insert : μ → String × String → μ) : De μ := do
  let input ← get
  foldToEnd (do
      let key ← deserializeString
      let value ← deserializeString
      pure (key, value))
    insert (.badMessage "map entry of no bytes") input.length empty

/-- `deserialize_enum` for a derived enumeration of unit variants: the variant
at the index read, by `visit_enum`, `variant_seed` and `unit_variant`. -/
def deserializeUnitEnum {α : Type} (variants : List α) : De α := do
  let index ← deserializeU32
  match variants[index.toNat]? with
  | some variant => pure variant
  | none => throw (.badMessage ("invalid value: integer `" ++ toString index.toNat ++
      "`, expected variant index 0 <= i < " ++ toString variants.length))

/-- `serde::de::Error::invalid_length`. -/
def invalidLength (len : Nat) (expected : String) : Error :=
  .badMessage ("invalid length " ++ toString len ++ ", expected " ++ expected)

/-- A field of a derived `visit_seq`: the element at `index`, which must be there. -/
def nextField {α : Type} (index : Nat) (expected : String) (seed : De α) : SeqAccess α := do
  match ← nextElement seed with
  | some value => pure value
  | none => throw (invalidLength index expected)

/-! ## Derived structs -/

section Structs
variable {α β γ δ τ : Type}

def deserializeStruct2 (name : String) (mk : α → β → τ) (a : De α) (b : De β) : De τ :=
  let expected := "struct " ++ name ++ " with 2 elements"
  deserializeStruct 2 do
    let x ← nextField 0 expected a
    let y ← nextField 1 expected b
    pure (mk x y)

def deserializeStruct3 (name : String) (mk : α → β → γ → τ) (a : De α) (b : De β) (c : De γ) :
    De τ :=
  let expected := "struct " ++ name ++ " with 3 elements"
  deserializeStruct 3 do
    let x ← nextField 0 expected a
    let y ← nextField 1 expected b
    let z ← nextField 2 expected c
    pure (mk x y z)

def deserializeStruct4 (name : String) (mk : α → β → γ → δ → τ) (a : De α) (b : De β) (c : De γ)
    (d : De δ) : De τ :=
  let expected := "struct " ++ name ++ " with 4 elements"
  deserializeStruct 4 do
    let x ← nextField 0 expected a
    let y ← nextField 1 expected b
    let z ← nextField 2 expected c
    let w ← nextField 3 expected d
    pure (mk x y z w)

theorem nextElement_run_succ (seed : De α) (len : Nat) :
    (nextElement seed).run (len + 1) = seed >>= fun value => pure (some value, len) := rfl

theorem nextField_run_succ (index : Nat) (expected : String) (seed : De α) (len : Nat) :
    (nextField index expected seed).run (len + 1) = seed >>= fun value => pure (value, len) := by
  rw [nextField, StateT.run_bind, nextElement_run_succ, bind_assoc]
  simp only [pure_bind]
  rfl

/-- The derived visitors never run out of elements, so a struct reads its fields in order. -/
theorem deserializeStruct2_eq (name : String) (mk : α → β → τ) (a : De α) (b : De β) :
    deserializeStruct2 name mk a b = a >>= fun x => b >>= fun y => pure (mk x y) := by
  simp [deserializeStruct2, deserializeStruct, deserializeTuple, StateT.run'_eq,
    StateT.run_bind, nextField_run_succ]

theorem deserializeStruct3_eq (name : String) (mk : α → β → γ → τ) (a : De α) (b : De β)
    (c : De γ) :
    deserializeStruct3 name mk a b c =
      a >>= fun x => b >>= fun y => c >>= fun z => pure (mk x y z) := by
  simp [deserializeStruct3, deserializeStruct, deserializeTuple, StateT.run'_eq,
    StateT.run_bind, nextField_run_succ]

theorem deserializeStruct4_eq (name : String) (mk : α → β → γ → δ → τ) (a : De α) (b : De β)
    (c : De γ) (d : De δ) :
    deserializeStruct4 name mk a b c d =
      a >>= fun x => b >>= fun y => c >>= fun z => d >>= fun w => pure (mk x y z w) := by
  simp [deserializeStruct4, deserializeStruct, deserializeTuple, StateT.run'_eq,
    StateT.run_bind, nextField_run_succ]

end Structs

/-- A visitor that takes every element runs its seed as often as `len` says. -/
theorem nextElements_run' {α : Type} (seed : De α) (len : Nat) :
    (nextElements seed).run' len = readMany seed len := by
  rw [StateT.run'_eq]
  show Prod.fst <$> (readMany seed len >>= fun values => pure (values, 0)) = _
  simp

/-! ## What each method consumes -/

theorem consumes_deserializeU8 (v : UInt8) : Consumes deserializeU8 (putU8 v) v :=
  (consumes_tryGetU8 v).mapErr _

theorem consumes_deserializeU32 (v : UInt32) : Consumes deserializeU32 (putU32 v) v :=
  (consumes_tryGetU32 v).mapErr _

theorem consumes_deserializeU64 (v : UInt64) : Consumes deserializeU64 (putU64 v) v :=
  (consumes_tryGetU64 v).mapErr _

theorem consumes_deserializeString (text : String) (fits : (utf8Bytes text).length < 2 ^ 32) :
    Consumes deserializeString (lengthPrefixed (utf8Bytes text)) text :=
  consumes_tryGetString text fits

theorem consumes_deserializeUnitEnum {α : Type} (variants : List α) (index : UInt32) (variant : α)
    (found : variants[index.toNat]? = some variant) :
    Consumes (deserializeUnitEnum variants) (putU32 index) variant := by
  intro rest
  rw [deserializeUnitEnum, StateT.run_bind, consumes_deserializeU32 index rest]
  show StateT.run (match variants[index.toNat]? with | some v => _ | none => _) rest = _
  rw [found]
  rfl

theorem consumes_deserializeVec {α γ : Type} (seed : De α) (wire : γ → Bytes) (value : γ → α)
    (items : List γ) (fits : items.length < 2 ^ 32)
    (each : ∀ item ∈ items, Consumes seed (wire item) (value item)) :
    Consumes (deserializeVec seed) (putU32 (UInt32.ofNat items.length) ++ items.flatMap wire)
      (items.map value) := by
  have len : (UInt32.ofNat items.length).toNat = items.length := by
    rw [UInt32.toNat_ofNat', Nat.mod_eq_of_lt fits]
  refine (consumes_deserializeU32 _).bind ?_
  rw [len]
  rw [nextElements_run']
  exact consumes_readMany seed wire value items each

theorem readsAll_dataDeserialize (data : Bytes) : ReadsAll dataDeserialize data data := by
  have bytes := (consumes_readMany deserializeU8 putU8 id data
    fun byte _ => consumes_deserializeU8 byte).readsAll
  rw [flatMap_putU8, List.map_id] at bytes
  show ((nextElements deserializeU8).run' data.length).run data = _
  rw [nextElements_run']
  exact bytes

theorem entryWire_ne_nil (entry : String × String) : entryWire entry ≠ [] := by
  intro empty
  have := congrArg List.length empty
  rw [entryWire, List.length_append, lengthPrefixed_length, List.length_nil] at this
  omega

theorem readsAll_deserializeMap {μ : Type} (empty : μ) (insert : μ → String × String → μ)
    (entries : List (String × String))
    (fits : ∀ entry ∈ entries,
      (utf8Bytes entry.1).length < 2 ^ 32 ∧ (utf8Bytes entry.2).length < 2 ^ 32) :
    ReadsAll (deserializeMap empty insert) (entries.flatMap entryWire)
      (entries.foldl insert empty) := by
  have each : ∀ entry ∈ entries, Consumes (do
      let key ← deserializeString
      let value ← deserializeString
      pure (key, value)) (entryWire entry) entry := by
    intro entry member
    obtain ⟨shortKey, shortValue⟩ := fits entry member
    have value := Consumes.bind (f := fun value => pure (entry.1, value))
      (consumes_deserializeString entry.2 shortValue) (consumes_pure entry)
    rw [List.append_nil] at value
    exact (consumes_deserializeString entry.1 shortKey).bind value
  have enough : entries.length ≤ (entries.flatMap entryWire).length :=
    count_le_flatMap (fun entry => List.length_pos_of_ne_nil (entryWire_ne_nil entry)) entries
  have folded := readsAll_foldToEnd _ insert (.badMessage "map entry of no bytes") entryWire id
    entries _ empty each (fun entry _ => entryWire_ne_nil entry) enough
  rw [List.map_id] at folded
  exact folded

/-- Every map entry takes bytes, so neither the bound on the rounds nor the error
at its end can be seen. -/
theorem deserializeMap_fuel {μ : Type} (empty : μ) (insert : μ → String × String → μ)
    (stuck : Error) (fuel : Nat) (input : Bytes) (enough : input.length ≤ fuel) :
    (deserializeMap empty insert).run input =
      (foldToEnd (do
          let key ← deserializeString
          let value ← deserializeString
          pure (key, value)) insert stuck fuel empty).run input := by
  refine foldToEnd_fuel _ _ _ _ ?_ _ _ _ _ le_rfl enough
  intro input entry rest read
  obtain ⟨key, middle, readKey, read⟩ := bind_ok read
  obtain ⟨value, last, readValue, done⟩ := bind_ok read
  obtain ⟨keyBytes, keyShape, -⟩ := tryGetString_ok readKey
  obtain ⟨valueBytes, valueShape, -⟩ := tryGetString_ok readValue
  obtain ⟨-, rfl⟩ := Prod.mk.inj (Except.ok.inj done)
  rw [keyShape, valueShape]
  simp only [List.length_append, lengthPrefixed_length]
  omega

/-! ## Visitors under a budget of bytes

`deserializeAny` allows as many elements as bytes remain.  An element that takes
at least one byte leaves at least as many elements as bytes. -/

section Budget
variable {α β : Type}

def Budgeted (visit : SeqAccess α) (bytes : Bytes) (value : α) : Prop :=
  ∀ len, bytes.length ≤ len →
    ∃ left, len ≤ left + bytes.length ∧ Consumes (visit.run len) bytes (value, left)

theorem budgeted_pure (value : α) : Budgeted (pure value) [] value :=
  fun len _ => ⟨len, le_rfl, consumes_pure (value, len)⟩

theorem Budgeted.bind {visit : SeqAccess α} {f : α → SeqAccess β} {front back : Bytes} {a : α}
    {b : β} (first : Budgeted visit front a) (second : Budgeted (f a) back b) :
    Budgeted (visit >>= f) (front ++ back) b := by
  intro len enough
  rw [List.length_append] at enough
  obtain ⟨middle, spent, reads⟩ := first len (by omega)
  obtain ⟨left, spentAfter, readsAfter⟩ := second middle (by omega)
  refine ⟨left, by rw [List.length_append]; omega, ?_⟩
  rw [StateT.run_bind]
  exact reads.bind readsAfter

theorem budgeted_nextElement {seed : De α} {bytes : Bytes} {value : α}
    (reads : Consumes seed bytes value) (nonempty : 0 < bytes.length) :
    Budgeted (nextElement seed) bytes (some value) := by
  intro len enough
  obtain ⟨len, rfl⟩ : ∃ less, len = less + 1 := ⟨len - 1, by omega⟩
  refine ⟨len, by omega, ?_⟩
  rw [nextElement_run_succ, ← List.append_nil bytes]
  exact reads.bind (consumes_pure _)

theorem Budgeted.deserializeAny {visit : SeqAccess α} {bytes : Bytes} {value : α}
    (reads : Budgeted visit bytes value) : Consumes (deserializeAny visit) bytes value := by
  intro rest
  obtain ⟨left, -, consumed⟩ := reads (bytes ++ rest).length (by simp)
  show (visit.run' (bytes ++ rest).length).run (bytes ++ rest) = _
  rw [StateT.run'_eq, StateT.run_map, consumed rest]
  rfl

end Budget

/-! ## What each method took -/

theorem spells_deserializeU8 : Spells deserializeU8 putU8 :=
  Spells.mapErr _ fun _ _ _ => tryGetU8_ok

theorem spells_deserializeU32 : Spells deserializeU32 putU32 :=
  Spells.mapErr _ fun _ _ _ => tryGetU32_ok

theorem spells_deserializeU64 : Spells deserializeU64 putU64 :=
  Spells.mapErr _ fun _ _ _ => tryGetU64_ok

theorem spells_tryGetBytes : Spells tryGetBytes lengthPrefixed :=
  fun _ _ _ read => (tryGetBytes_ok read).1

theorem spells_deserializeVec {α : Type} {seed : De α} {wire : α → Bytes}
    (spells : Spells seed wire) :
    Spells (deserializeVec seed) fun items =>
      putU32 (UInt32.ofNat items.length) ++ items.flatMap wire := by
  intro input items rest read
  obtain ⟨len, middle, word, elements⟩ := bind_ok read
  rw [nextElements_run'] at elements
  obtain ⟨shape, length⟩ := readMany_ok spells elements
  have same : UInt32.ofNat items.length = len := by rw [length, UInt32.ofNat_toNat]
  rw [spells_deserializeU32 _ _ _ word, shape]
  simp only [same, List.append_assoc]

theorem spells_dataDeserialize : Spells dataDeserialize id := by
  intro input data rest read
  replace read : ((nextElements deserializeU8).run' input.length).run input = .ok (data, rest) :=
    read
  rw [nextElements_run'] at read
  obtain ⟨shape, -⟩ := readMany_ok spells_deserializeU8 read
  rwa [flatMap_putU8] at shape

theorem deserializeVec_map {α β : Type} (g : α → β) (seed : De α) :
    deserializeVec (g <$> seed) = List.map g <$> deserializeVec seed := by
  rw [deserializeVec, deserializeVec, deserializeSeq, deserializeSeq, map_bind]
  simp only [nextElements_run', readMany_map]

/-! ## Visitors with elements to spare

Once there are more elements allowed than bytes left, they never run out before the bytes
do: a visitor reads as a plain reader does. -/

section Spare
variable {α β : Type}

def Spares (visit : SeqAccess α) (plain : De α) : Prop :=
  ∀ len (input : Bytes), input.length < len →
    match plain.run input with
    | .error e => (visit.run len).run input = .error e
    | .ok (value, rest) => ∃ left, rest.length < left ∧
        (visit.run len).run input = .ok ((value, left), rest)

theorem spares_pure (value : α) : Spares (pure value) (pure value) :=
  fun len _ more => ⟨len, more, rfl⟩

theorem Spares.bind {visit : SeqAccess α} {plain : De α} {f : α → SeqAccess β} {g : α → De β}
    (first : Spares visit plain) (later : ∀ a, Spares (f a) (g a)) :
    Spares (visit >>= f) (plain >>= g) := by
  intro len input more
  have one := first len input more
  rw [StateT.run_bind, StateT.run_bind, StateT.run_bind]
  cases read : plain.run input with
  | error e =>
      rw [read] at one
      rw [one]
      rfl
  | ok got =>
      rw [read] at one
      obtain ⟨left, spare, visited⟩ := one
      rw [visited]
      exact later got.1 left got.2 spare

theorem spares_nextElement {seed : De α} {wire : α → Bytes} (spells : Spells seed wire)
    (nonempty : ∀ a, 0 < (wire a).length) : Spares (nextElement seed) (some <$> seed) := by
  intro len input more
  obtain ⟨len, rfl⟩ : ∃ less, len = less + 1 := ⟨len - 1, by omega⟩
  rw [nextElement_run_succ, StateT.run_bind, StateT.run_map]
  cases read : seed.run input with
  | error e => rfl
  | ok got =>
      refine ⟨len, ?_, rfl⟩
      have shape := congrArg List.length (spells _ _ _ read)
      have some := nonempty got.1
      rw [List.length_append] at shape
      omega

end Spare

section StructRules
variable {α β γ δ τ : Type} {a : De α} {b : De β} {c : De γ} {d : De δ}
  {wa wb wc wd : Bytes} {x : α} {y : β} {z : γ} {w : δ}

theorem consumes_struct2 (name : String) (mk : α → β → τ) (ha : Consumes a wa x)
    (hb : Consumes b wb y) : Consumes (deserializeStruct2 name mk a b) (wa ++ wb) (mk x y) := by
  rw [deserializeStruct2_eq, ← List.append_nil wb]
  exact ha.bind (hb.bind (consumes_pure _))

theorem consumes_struct3 (name : String) (mk : α → β → γ → τ) (ha : Consumes a wa x)
    (hb : Consumes b wb y) (hc : Consumes c wc z) :
    Consumes (deserializeStruct3 name mk a b c) (wa ++ (wb ++ wc)) (mk x y z) := by
  rw [deserializeStruct3_eq, ← List.append_nil wc]
  exact ha.bind (hb.bind (hc.bind (consumes_pure _)))

theorem consumes_struct4 (name : String) (mk : α → β → γ → δ → τ) (ha : Consumes a wa x)
    (hb : Consumes b wb y) (hc : Consumes c wc z) (hd : Consumes d wd w) :
    Consumes (deserializeStruct4 name mk a b c d) (wa ++ (wb ++ (wc ++ wd))) (mk x y z w) := by
  rw [deserializeStruct4_eq, ← List.append_nil wd]
  exact ha.bind (hb.bind (hc.bind (hd.bind (consumes_pure _))))

theorem readsAll_struct2 (name : String) (mk : α → β → τ) (ha : Consumes a wa x)
    (hb : ReadsAll b wb y) : ReadsAll (deserializeStruct2 name mk a b) (wa ++ wb) (mk x y) := by
  rw [deserializeStruct2_eq]
  exact ha.bind_readsAll (hb.bind_pure _)

theorem readsAll_struct3 (name : String) (mk : α → β → γ → τ) (ha : Consumes a wa x)
    (hb : Consumes b wb y) (hc : ReadsAll c wc z) :
    ReadsAll (deserializeStruct3 name mk a b c) (wa ++ (wb ++ wc)) (mk x y z) := by
  rw [deserializeStruct3_eq]
  exact ha.bind_readsAll (hb.bind_readsAll (hc.bind_pure _))

end StructRules

end RusshSftp
