import RusshSftp.Lib.Truncated
import RusshSftp.Protocol.Inversion

/-!
# Truncated packets

A packet that is cut short is refused, wherever it is cut: inside of a word, of a text, of a
list.  Only the attributes at its end may be left out as a whole: the visitor of
`FileAttributes` takes the end of the input for a flags word of 0.
-/

set_option autoImplicit false

namespace RusshSftp

open Utf8 ByteCodec

/-! ## Readers that do not look at the end -/

theorem extends_of_spells {α : Type} {r : De α} {wire : α → Bytes} (spells : Spells r wire)
    (consumes : ∀ a, Consumes r (wire a) a) : Extends r := by
  intro input a rest more read
  rw [spells input a rest read, List.append_assoc]
  exact consumes a (rest ++ more)

theorem extends_deserializeU8 : Extends deserializeU8 :=
  extends_of_spells spells_deserializeU8 consumes_deserializeU8

theorem extends_deserializeU32 : Extends deserializeU32 :=
  extends_of_spells spells_deserializeU32 consumes_deserializeU32

theorem extends_deserializeU64 : Extends deserializeU64 :=
  extends_of_spells spells_deserializeU64 consumes_deserializeU64

theorem extends_tryGetBytes : Extends tryGetBytes := by
  intro input bytes rest more read
  obtain ⟨shape, fits⟩ := tryGetBytes_ok read
  rw [shape, List.append_assoc]
  exact consumes_tryGetBytes bytes fits (rest ++ more)

theorem extends_code : Extends StatusCode.deserialize :=
  extends_of_spells spells_code fun status =>
    consumes_deserializeUnitEnum _ _ _ status.variants_variantIndex

theorem extends_deserializeVec {α : Type} {seed : De α} (each : Extends seed) :
    Extends (deserializeVec seed) := by
  refine extends_deserializeU32.bind fun len => ?_
  rw [nextElements_run']
  exact extends_readMany each len.toNat

namespace Block

theorem extends_readFlagged {α : Type} (present : Bool) {seed : De α} (each : Extends seed) :
    Extends (readFlagged present seed) := by
  cases present with
  | false => exact extends_pure _
  | true => exact each.map some

theorem extends_readPresent : Extends readPresent := by
  have long (present : Bool) := extends_readFlagged present extends_deserializeU64
  have word (present : Bool) := extends_readFlagged present extends_deserializeU32
  refine extends_deserializeU32.bind fun bits => Extends.bind ?_ fun attrs => extends_pure _
  exact (long _).bind fun _ => (word _).bind fun _ => (word _).bind fun _ => (word _).bind fun _ =>
    (word _).bind fun _ => (word _).bind fun _ => extends_pure _

/-! ## Attribute blocks -/

theorem read_of_ne_nil {input : Bytes} (some : input ≠ []) :
    read.run input = readPresent.run input := by
  cases input with
  | nil => exact absurd rfl some
  | cons byte rest => rfl

theorem wire_length_pos (attrs : FileAttributes) : 0 < attrs.wire.length := by
  rw [FileAttributes.wire, List.length_append, putU32_length]
  omega

/-- A block that was written is read back. -/
theorem consumes_readPresent (attrs : FileAttributes) :
    Consumes readPresent attrs.wire ⟨some attrs.flags.bits, attrs.normalise⟩ := by
  intro rest
  have some : attrs.wire ++ rest ≠ [] := by
    intro empty
    have length := congrArg List.length empty
    have positive := wire_length_pos attrs
    rw [List.length_append, List.length_nil] at length
    omega
  have whole : FileAttributes.deserialize.run (attrs.wire ++ rest) = .ok (attrs.normalise, rest) :=
    attrs.consumes_deserialize rest
  rw [deserialize_eq] at whole
  obtain ⟨block, found, same⟩ := map_ok whole
  rw [read_of_ne_nil some] at found
  have first := consumes_deserializeU32 attrs.flags.bits (attrs.fieldsWire ++ rest)
  rw [← List.append_assoc] at first
  rw [found]
  obtain ⟨bits, middle, word, fields⟩ := bind_ok found
  have isBits : bits = attrs.flags.bits :=
    (Prod.mk.inj (Except.ok.inj (word.symm.trans first))).1
  obtain ⟨values, last, announced, done⟩ := bind_ok fields
  obtain ⟨rfl, rfl⟩ := pure_ok done
  rw [← same, ← isBits]

theorem consumes_read (attrs : FileAttributes) :
    Consumes read attrs.wire ⟨some attrs.flags.bits, attrs.normalise⟩ := by
  intro rest
  have positive := wire_length_pos attrs
  rw [read_of_ne_nil]
  · exact consumes_readPresent attrs rest
  · intro empty
    have length := congrArg List.length empty
    rw [List.length_append, List.length_nil] at length
    omega

/-- A block may be left out, and is not accepted in part. -/
theorem cut_read (attrs : FileAttributes) : Cut read attrs.wire (some 0) := by
  intro n proper
  by_cases empty : n = 0
  · subst empty
    rw [if_pos rfl]
    exact ⟨none, rfl⟩
  · rw [if_neg (by simpa using Ne.symm empty), read_of_ne_nil]
    · have one := extends_readPresent.cut (consumes_readPresent attrs) n proper
      rwa [if_neg (by simp)] at one
    · intro taken
      have length := congrArg List.length taken
      rw [List.length_take, List.length_nil] at length
      omega

end Block

/-! ## Fields -/

def Field.kind : Field → Kind
  | .word _ => .word
  | .long _ => .long
  | .code _ => .code
  | .text _ => .text
  | .data _ => .data
  | .block _ => .block
  | .files _ => .files
  | .entries _ => .entries
  | .rest _ => .rest

/-- Fields that end where they say. -/
def Field.simple : Field → Bool
  | .word _ | .long _ | .code _ | .text _ | .data _ => true
  | _ => false

/-- The lengths of the field fit in their length words. -/
def Field.Fits : Field → Prop
  | .text bytes => bytes.length < 2 ^ 32
  | .data bytes => bytes.length < 2 ^ 32
  | .files list => list.length < 2 ^ 32 ∧
      ∀ file ∈ list, file.filename.length < 2 ^ 32 ∧ file.longname.length < 2 ^ 32
  | _ => True

theorem Field.consumes_simple {field : Field} (simple : field.simple = true) (fits : field.Fits) :
    Consumes field.kind.read field.wire field := by
  cases field with
  | word v => exact (consumes_deserializeU32 v).map Field.word
  | long v => exact (consumes_deserializeU64 v).map Field.long
  | code status =>
      exact Consumes.map Field.code
        (consumes_deserializeUnitEnum _ _ _ status.variants_variantIndex)
  | text bytes => exact (consumes_tryGetBytes bytes fits).map Field.text
  | data bytes =>
      have read := consumes_deserializeVec deserializeU8 putU8 id bytes fits
        fun byte _ => consumes_deserializeU8 byte
      rw [flatMap_putU8, List.map_id] at read
      exact read.map Field.data
  | _ => cases simple

theorem Field.extends_simple {field : Field} (simple : field.simple = true) :
    Extends field.kind.read := by
  cases field with
  | word v => exact extends_deserializeU32.map Field.word
  | long v => exact extends_deserializeU64.map Field.long
  | code status => exact extends_code.map Field.code
  | text bytes => exact extends_tryGetBytes.map Field.text
  | data bytes => exact (extends_deserializeVec extends_deserializeU8).map Field.data
  | _ => cases simple

/-- The only beginning that is accepted is the one without these attributes, if there are any. -/
def CutBefore {α : Type} (r : De α) (bytes : Bytes) (attrs : Option FileAttributes) : Prop :=
  match attrs with
  | none => Cut r bytes none
  | some attrs => ∃ k, k + attrs.wire.length = bytes.length ∧ Cut r bytes (some k)

theorem CutBefore.map {α β : Type} {r : De α} {bytes : Bytes} {attrs : Option FileAttributes}
    (g : α → β) (cuts : CutBefore r bytes attrs) : CutBefore (g <$> r) bytes attrs := by
  cases attrs with
  | none => exact Cut.map g cuts
  | some attrs =>
      obtain ⟨k, border, cuts⟩ := cuts
      exact ⟨k, border, cuts.map g⟩

theorem CutBefore.bind {α β : Type} {r : De α} {f : α → De β} {front back : Bytes} {a : α}
    {attrs : Option FileAttributes} (whole : Consumes r front a) (first : Cut r front none)
    (later : CutBefore (f a) back attrs) : CutBefore (r >>= f) (front ++ back) attrs := by
  cases attrs with
  | none => exact Cut.bind whole first (.inl rfl) later
  | some attrs =>
      obtain ⟨k, border, later⟩ := later
      refine ⟨front.length + k, by rw [List.length_append]; omega, ?_⟩
      exact Cut.bind whole first (.inl rfl) later

namespace FileFields

variable {file : File}

theorem consumes_read (filename : (utf8Bytes file.filename).length < 2 ^ 32)
    (longname : (utf8Bytes file.longname).length < 2 ^ 32) :
    ∃ found, Consumes read (ofFile file).wire found := by
  refine ⟨⟨utf8Bytes file.filename, utf8Bytes file.longname,
    ⟨some file.attrs.flags.bits, file.attrs.normalise⟩⟩, ?_⟩
  rw [wire, ← List.append_nil (ofFile file).block.wire]
  exact (consumes_tryGetBytes _ filename).bind <| (consumes_tryGetBytes _ longname).bind <|
    (Block.consumes_read file.attrs).bind (consumes_pure _)

theorem cut_read (filename : (utf8Bytes file.filename).length < 2 ^ 32)
    (longname : (utf8Bytes file.longname).length < 2 ^ 32) :
    CutBefore read (ofFile file).wire (some file.attrs) := by
  have name := consumes_tryGetBytes _ filename
  have long := consumes_tryGetBytes _ longname
  refine CutBefore.bind name (extends_tryGetBytes.cut name) ?_
  refine CutBefore.bind long (extends_tryGetBytes.cut long) ?_
  refine ⟨0, Nat.zero_add _, ?_⟩
  exact (Block.cut_read file.attrs).map fun block =>
    (⟨utf8Bytes file.filename, utf8Bytes file.longname, block⟩ : FileFields)

end FileFields

/-- A list of files, in which only the attributes of the last one may be left out. -/
theorem cut_files {files : List File} (fits : (Field.files (files.map .ofFile)).Fits) :
    CutBefore (deserializeVec FileFields.read) (Field.files (files.map .ofFile)).wire
      (files.map File.attrs).getLast? := by
  obtain ⟨count, names⟩ := fits
  have len : (UInt32.ofNat (files.map FileFields.ofFile).length).toNat = files.length := by
    rw [UInt32.toNat_ofNat', Nat.mod_eq_of_lt count, List.length_map]
  have word := consumes_deserializeU32 (UInt32.ofNat (files.map FileFields.ofFile).length)
  refine CutBefore.bind word (extends_deserializeU32.cut word) ?_
  rw [nextElements_run', len, List.flatMap_map]
  rcases List.eq_nil_or_concat files with rfl | ⟨front, last, rfl⟩
  · intro n proper
    cases proper
  · rw [List.concat_eq_append] at names ⊢
    have named (file : File) (member : file ∈ front ++ [last]) :
        (utf8Bytes file.filename).length < 2 ^ 32 ∧ (utf8Bytes file.longname).length < 2 ^ 32 :=
      names _ (List.mem_map_of_mem member)
    have cuts (file : File) (member : file ∈ front ++ [last]) :
        ∃ k, k + file.attrs.wire.length = (FileFields.ofFile file).wire.length ∧
          Cut FileFields.read (FileFields.ofFile file).wire (some k) :=
      FileFields.cut_read (named file member).1 (named file member).2
    -- where the attributes of a file begin
    let start (file : File) := (FileFields.ofFile file).wire.length - file.attrs.wire.length
    obtain ⟨k, border, -⟩ := cuts last (by simp)
    have whole := cut_readMany FileFields.read (fun file => (FileFields.ofFile file).wire)
      (fun file => some (start file)) front last ⟨_, rfl⟩
      (fun file member => FileFields.consumes_read (named file member).1 (named file member).2)
      (fun file member => by
        obtain ⟨k, border, cut⟩ := cuts file member
        have same : start file = k := by
          show (FileFields.ofFile file).wire.length - file.attrs.wire.length = k
          omega
        rwa [same])
    rw [List.map_append, List.map_singleton, List.getLast?_concat, List.length_append,
      List.length_singleton]
    refine ⟨_, ?_, whole⟩
    rw [List.flatMap_append, List.flatMap_singleton, List.length_append]
    show _ + start last + _ = _
    have same : start last = k := by
      show (FileFields.ofFile last).wire.length - last.attrs.wire.length = k
      omega
    omega

/-- A field at the end of a packet, where `attrs` are the packet's attributes. -/
inductive Closing : Field → List FileAttributes → Prop
  | simple (field : Field) (simple : field.simple = true) : Closing field []
  | block (attrs : FileAttributes) : Closing (.block (.ofAttrs attrs)) [attrs]
  | files (files : List File) : Closing (.files (files.map .ofFile)) (files.map File.attrs)

theorem Closing.cut {last : Field} {attrs : List FileAttributes} (closing : Closing last attrs)
    (fits : last.Fits) : CutBefore last.kind.read last.wire attrs.getLast? := by
  cases closing with
  | simple _ simple =>
      exact (Field.extends_simple simple).cut (Field.consumes_simple simple fits)
  | block attrs =>
      refine CutBefore.map Field.block ?_
      exact ⟨0, Nat.zero_add _, Block.cut_read attrs⟩
  | files files => exact (cut_files fits).map Field.files

theorem cut_readFields {front : List Field} {last : Field} {attrs : List FileAttributes}
    (simple : ∀ field ∈ front, field.simple = true) (closing : Closing last attrs)
    (fits : ∀ field ∈ front ++ [last], field.Fits) :
    CutBefore (readFields ((front ++ [last]).map Field.kind))
      ((front ++ [last]).flatMap Field.wire) attrs.getLast? := by
  induction front with
  | nil =>
      have one := (closing.cut (fits last (by simp))).map fun field => [field]
      have single : readFields [last.kind] = (fun field => [field]) <$> last.kind.read := by
        simp [readFields]
      simpa [single] using one
  | cons field front ih =>
      have here := simple field (List.mem_cons_self ..)
      have first := Field.consumes_simple here (fits field (by simp))
      have later := (ih (fun other member => simple other (List.mem_cons_of_mem _ member))
        (fun other member => fits other (List.mem_cons_of_mem _ member))).map
          fun fields => field :: fields
      rw [map_eq_pure_bind] at later
      exact CutBefore.bind first ((Field.extends_simple here).cut first) later

/-! ## Packets -/

namespace Packet

/-- Every text, every data vector and every list of the packet is shorter than its length word
can tell. -/
def LengthsFit (p : Packet) : Prop := ∀ field ∈ p.fields, field.Fits

/-- The packet ends in an attribute block, and this is the border in front of it. -/
def BeforeAttributes (p : Packet) (n : Nat) : Prop :=
  ∃ attrs, p.attributes.getLast? = some attrs ∧ n + attrs.wire.length = p.body.length

theorem layout_fields (p : Packet) : layout p.typed.1 = some (p.fields.map Field.kind) := by
  cases p <;> rfl

/-- The fields of a packet that does not run to its end: only the last one may hold attributes. -/
theorem fields_closing (p : Packet) (delimited : p.runsToEnd = false) :
    ∃ front last, p.fields = front ++ [last] ∧ (∀ field ∈ front, field.simple = true) ∧
      Closing last p.attributes := by
  cases p with
  | init p => cases delimited
  | version p => cases delimited
  | extended p => cases delimited
  | extendedReply p => cases delimited
  | «open» p => exact ⟨[_, _, _], _, rfl, by simp [Field.simple], .block p.attrs⟩
  | setStat p => exact ⟨[_, _], _, rfl, by simp [Field.simple], .block p.attrs⟩
  | fSetStat p => exact ⟨[_, _], _, rfl, by simp [Field.simple], .block p.attrs⟩
  | mkDir p => exact ⟨[_, _], _, rfl, by simp [Field.simple], .block p.attrs⟩
  | attrs p => exact ⟨[_], _, rfl, by simp [Field.simple], .block p.attrs⟩
  | name p => exact ⟨[_], _, rfl, by simp [Field.simple], .files p.files⟩
  | read p => exact ⟨[_, _, _], _, rfl, by simp [Field.simple], .simple _ rfl⟩
  | write p => exact ⟨[_, _, _], _, rfl, by simp [Field.simple], .simple _ rfl⟩
  | status p => exact ⟨[_, _, _], _, rfl, by simp [Field.simple], .simple _ rfl⟩
  | rename p => exact ⟨[_, _], _, rfl, by simp [Field.simple], .simple _ rfl⟩
  | symlink p => exact ⟨[_, _], _, rfl, by simp [Field.simple], .simple _ rfl⟩
  | _ => exact ⟨[_], _, rfl, by simp [Field.simple], .simple _ rfl⟩

theorem cut_body (p : Packet) (delimited : p.runsToEnd = false) (fits : p.LengthsFit) :
    CutBefore readPacket p.body p.attributes.getLast? := by
  obtain ⟨front, last, shape, simple, closing⟩ := p.fields_closing delimited
  have typeByte := consumes_deserializeU8 p.typed.1
  rw [body, wire_eq_fields]
  refine CutBefore.bind typeByte (extends_deserializeU8.cut typeByte) ?_
  rw [layout_fields, shape]
  exact (cut_readFields simple closing fun field member => fits field (shape ▸ member)).map
    fun fields => (p.typed.1, fields)

/-- The decoder refuses what the reader of fields refuses. -/
theorem refused_iff (input : Bytes) :
    (∃ e, tryFrom.run input = .error e) ↔ ∃ e, readPacket.run input = .error e := by
  have both := congrArg (fun r : De (UInt8 × List Field) => r.run input) tryFrom_fields
  simp only [StateT.run_map] at both
  cases decoded : tryFrom.run input with
  | error e =>
      rw [decoded] at both
      cases found : readPacket.run input with
      | error e' => exact iff_of_true ⟨e, rfl⟩ ⟨e', rfl⟩
      | ok got => rw [found] at both; cases both
  | ok got =>
      rw [decoded] at both
      cases found : readPacket.run input with
      | error e' => rw [found] at both; cases both
      | ok other =>
          exact iff_of_false (fun refused => by cases refused.choose_spec)
            fun refused => by cases refused.choose_spec

/-- A packet that is cut short is refused, unless exactly its last attributes are missing. -/
theorem truncated_refused_iff (p : Packet) (delimited : p.runsToEnd = false)
    (fits : p.LengthsFit) (n : Nat) (proper : n < p.body.length) :
    (∃ e, tryFrom.run (p.body.take n) = .error e) ↔ ¬ p.BeforeAttributes n := by
  rw [refused_iff]
  have cuts := p.cut_body delimited fits
  cases last : p.attributes.getLast? with
  | none =>
      rw [last] at cuts
      have one := cuts n proper
      rw [if_neg (by simp)] at one
      refine iff_of_true one ?_
      rintro ⟨attrs, some, -⟩
      rw [last] at some
      cases some
  | some attrs =>
      rw [last] at cuts
      obtain ⟨k, border, cuts⟩ := cuts
      have one := cuts n proper
      by_cases here : k = n
      · subst here
        rw [if_pos rfl] at one
        obtain ⟨found, read⟩ := one
        refine iff_of_false ?_ (not_not_intro ⟨attrs, last, border⟩)
        rintro ⟨e, refused⟩
        rw [read] at refused
        cases refused
      · rw [if_neg (by simpa using here)] at one
        refine iff_of_true one ?_
        rintro ⟨attrs', some, border'⟩
        rw [last] at some
        cases some
        omega

/-- The attributes of this MKDIR ask for a mode. -/
def mkDirMode : Packet :=
  .mkDir ⟨7, "d", { FileAttributes.empty with permissions := some 448 }⟩

/-- Cut inside of its attributes, after the flags word, the packet is refused. -/
theorem truncated_refused_iff_mkdir :
    (∃ e, tryFrom.run (mkDirMode.body.take 14) = .error e) ↔ ¬ mkDirMode.BeforeAttributes 14 := by
  refine truncated_refused_iff mkDirMode rfl ?_ 14 (by decide)
  intro field member
  simp only [mkDirMode, fields, List.mem_cons, List.not_mem_nil, or_false] at member
  rcases member with rfl | rfl | rfl
  · exact trivial
  · exact show (_ : Nat) < _ by decide
  · exact trivial

/-- Cut in front of its attributes, the packet is taken for a MKDIR that asks for nothing. -/
theorem truncated_accepted :
    mkDirMode.runsToEnd = false ∧ 10 < mkDirMode.body.length ∧
      tryFrom.run (mkDirMode.body.take 10) = .ok (.mkDir ⟨7, "d", .empty⟩, []) :=
  ⟨rfl, by decide, rfl⟩

end Packet

end RusshSftp
