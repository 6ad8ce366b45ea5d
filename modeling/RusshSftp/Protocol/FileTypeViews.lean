import RusshSftp.Protocol.FileMode
import RusshSftp.Lib.Run

/-!
# The two views of the file type

`file_type` compares the type bits as a number, and the getters of `impl_fn_type!` ask for the bits
of a code, which the codes of other types have too.  The setters put in and take out the bits of one
code and leave the rest.  The two views agree as long as no more than one type bit is set.
-/

set_option autoImplicit false

namespace RusshSftp

namespace FileMode

/-- `contains` of the flags. -/
def contains (mode other : FileMode) : Bool := mode.bits &&& other.bits == other.bits

end FileMode

namespace FileAttributes

/-- The getters of `impl_fn_type!`. -/
def isFlag (flag : FileMode) (attrs : FileAttributes) : Bool :=
  attrs.permissions.elim false fun b => (FileMode.fromBitsTruncate b).contains flag

def isDir := isFlag .dir
def isRegular := isFlag .reg
def isSymlink := isFlag .lnk
def isCharacter := isFlag .chr
def isBlock := isFlag .blk
def isFifo := isFlag .fifo

def setSymlink := setFlag .lnk
def setCharacter := setFlag .chr
def setBlock := setFlag .blk
def setFifo := setFlag .fifo

end FileAttributes

/-- The types with a getter and a setter of their own. -/
inductive TypeName where
  | dir
  | regular
  | symlink
  | character
  | block
  | fifo
deriving DecidableEq, Repr

namespace TypeName

instance : Fintype TypeName where
  elems := {.dir, .regular, .symlink, .character, .block, .fifo}
  complete := by
    intro name
    cases name <;> decide

def flag : TypeName → FileMode
  | .dir => .dir
  | .regular => .reg
  | .symlink => .lnk
  | .character => .chr
  | .block => .blk
  | .fifo => .fifo

def get : TypeName → FileAttributes → Bool
  | .dir => FileAttributes.isDir
  | .regular => FileAttributes.isRegular
  | .symlink => FileAttributes.isSymlink
  | .character => FileAttributes.isCharacter
  | .block => FileAttributes.isBlock
  | .fifo => FileAttributes.isFifo

def set : TypeName → FileAttributes → Bool → FileAttributes
  | .dir => FileAttributes.setDir
  | .regular => FileAttributes.setRegular
  | .symlink => FileAttributes.setSymlink
  | .character => FileAttributes.setCharacter
  | .block => FileAttributes.setBlock
  | .fifo => FileAttributes.setFifo

theorem get_eq (name : TypeName) (attrs : FileAttributes) :
    name.get attrs = attrs.isFlag name.flag := by
  cases name <;> rfl

theorem set_eq (name : TypeName) (attrs : FileAttributes) (value : Bool) :
    name.set attrs value = attrs.setFlag name.flag value := by
  cases name <;> rfl

end TypeName

/-- A call of a setter. -/
structure SetCall where
  name : TypeName
  value : Bool
deriving DecidableEq, Repr

/-- No call fails. -/
def SetCall.step (attrs : FileAttributes) (call : SetCall) : Option FileAttributes :=
  some (call.name.set attrs call.value)

/-- At most one getter holds, and those with a counterpart in `FileType` hold with it. -/
structure ViewsAgree (attrs : FileAttributes) : Prop where
  one : ∀ left right : TypeName, left.get attrs → right.get attrs → left = right
  dir : attrs.isDir ↔ attrs.fileType = .dir
  file : attrs.isRegular ↔ attrs.fileType = .file
  symlink : attrs.isSymlink ↔ attrs.fileType = .symlink

/-- The getter that holds is the one of this type. -/
def OnlyType (name : TypeName) (attrs : FileAttributes) : Prop :=
  ∀ other : TypeName, other.get attrs ↔ other = name

/-! ## The type bits -/

namespace FileAttributes

/-- The type bits, none of them where there are no permissions. -/
def typeBits (attrs : FileAttributes) : UInt32 := attrs.permissions.getD 0 &&& 0xF000

theorem fileType_eq (attrs : FileAttributes) : attrs.fileType = .ofMode ⟨attrs.typeBits⟩ := rfl

end FileAttributes

/-- Type bits with no more than one set. -/
def oneTypeBit : List UInt32 := [0, 0x1000, 0x2000, 0x4000, 0x8000]

/-- The type bits are one of sixteen numbers. -/
theorem typeBits_nibble (p : UInt32) : ∃ n : Fin 16, p &&& 0xF000 = UInt32.ofNat (n * 2 ^ 12) := by
  refine ⟨⟨p.toNat / 2 ^ 12 % 2 ^ 4, Nat.mod_lt _ (by decide)⟩, ?_⟩
  apply UInt32.toNat_inj.mp
  have small : p.toNat / 2 ^ 12 % 2 ^ 4 * 2 ^ 12 < 2 ^ 32 := by omega
  rw [UInt32.toNat_and, UInt32.toNat_ofNat_of_lt' small]
  have mask : (0xF000 : UInt32).toNat = (2 ^ 4 - 1) <<< 12 := by decide
  rw [mask, ← Nat.and_two_pow_sub_one_eq_mod, ← Nat.shiftRight_eq_div_pow, ← Nat.shiftLeft_eq]
  apply Nat.eq_of_testBit_eq
  intro i
  simp only [Nat.testBit_and, Nat.testBit_shiftLeft, Nat.testBit_shiftRight]
  by_cases low : 12 ≤ i
  · simp [low]
  · simp [low]

namespace TypeName

/-- A getter asks for the bits of its code among the type bits. -/
theorem get_typeBits (name : TypeName) (attrs : FileAttributes) :
    name.get attrs = (attrs.typeBits &&& name.flag.bits == name.flag.bits) := by
  rw [get_eq]
  cases permissions : attrs.permissions with
  | none =>
      have bits : attrs.typeBits = 0 := by
        rw [FileAttributes.typeBits, permissions]
        rfl
      rw [FileAttributes.isFlag, permissions, bits]
      cases name <;> rfl
  | some b =>
      rw [FileAttributes.isFlag, permissions, FileAttributes.typeBits, permissions]
      rfl

theorem typeBits_set_true (name : TypeName) (attrs : FileAttributes) :
    (name.set attrs true).typeBits = attrs.typeBits ||| name.flag.bits := by
  have within : name.flag.bits &&& 0xF000 = name.flag.bits := by
    cases name <;> decide
  rw [set_eq]
  change (attrs.permissions.getD 0 ||| name.flag.bits) &&& 0xF000 = _
  rw [and_or_distrib, within]
  rfl

theorem typeBits_set_false (name : TypeName) (attrs : FileAttributes) :
    (name.set attrs false).typeBits = attrs.typeBits &&& ~~~name.flag.bits := by
  rw [set_eq]
  exact and_swap _ _ _

end TypeName

/-- What holds of the sixteen numbers holds of type bits. -/
theorem typeBits_cases {P : UInt32 → Prop} (each : ∀ n : Fin 16, P (UInt32.ofNat (n * 2 ^ 12)))
    (attrs : FileAttributes) : P attrs.typeBits := by
  obtain ⟨n, bits⟩ := typeBits_nibble (attrs.permissions.getD 0)
  rw [FileAttributes.typeBits, bits]
  exact each n

/-- The views agree where at most one type bit is set. -/
theorem viewsAgree_iff (attrs : FileAttributes) :
    ViewsAgree attrs ↔ attrs.typeBits ∈ oneTypeBit := by
  have one : (∀ left right : TypeName, left.get attrs → right.get attrs → left = right) ↔
      attrs.typeBits ∈ oneTypeBit := by
    simp only [TypeName.get_typeBits]
    exact typeBits_cases (P := fun bits => (∀ left right : TypeName,
      (bits &&& left.flag.bits == left.flag.bits) → (bits &&& right.flag.bits == right.flag.bits) →
        left = right) ↔ bits ∈ oneTypeBit) (by decide) attrs
  have same : attrs.typeBits ∈ oneTypeBit →
      (attrs.isDir ↔ attrs.fileType = .dir) ∧ (attrs.isRegular ↔ attrs.fileType = .file) ∧
        (attrs.isSymlink ↔ attrs.fileType = .symlink) := by
    change _ → (TypeName.dir.get attrs ↔ _) ∧ (TypeName.regular.get attrs ↔ _) ∧
      (TypeName.symlink.get attrs ↔ _)
    simp only [TypeName.get_typeBits, FileAttributes.fileType_eq]
    exact typeBits_cases (P := fun bits => bits ∈ oneTypeBit →
      (bits &&& TypeName.dir.flag.bits == TypeName.dir.flag.bits ↔ .ofMode ⟨bits⟩ = FileType.dir) ∧
      (bits &&& TypeName.regular.flag.bits == TypeName.regular.flag.bits ↔
        .ofMode ⟨bits⟩ = FileType.file) ∧
      (bits &&& TypeName.symlink.flag.bits == TypeName.symlink.flag.bits ↔
        .ofMode ⟨bits⟩ = FileType.symlink)) (by decide) attrs
  constructor
  · intro agree
    exact one.mp agree.one
  · intro bits
    obtain ⟨dir, file, symlink⟩ := same bits
    exact ⟨one.mpr bits, dir, file, symlink⟩

/-! ## The calls that keep the views together -/

/-- The call puts in a single bit, where no other is set. -/
def SetCall.Plain (attrs : FileAttributes) (call : SetCall) : Prop :=
  call.value = true →
    call.name.flag ∈ [FileMode.dir, .reg, .chr, .fifo] ∧ attrs.typeBits ∈ [0, call.name.flag.bits]

/-- What is set alone is the one type that the getters see. -/
theorem onlyType_set {attrs : FileAttributes} {name : TypeName}
    (plain : SetCall.Plain attrs ⟨name, true⟩) : OnlyType name (name.set attrs true) := by
  obtain ⟨single, free⟩ := plain rfl
  intro other
  rw [TypeName.get_typeBits, TypeName.typeBits_set_true]
  simp only [List.mem_cons, List.not_mem_nil, or_false] at free
  have alone : ∀ name : TypeName, name.flag ∈ [FileMode.dir, .reg, .chr, .fifo] →
      ∀ other : TypeName, (name.flag.bits &&& other.flag.bits == other.flag.bits) ↔
        other = name := by
    decide
  rcases free with empty | same
  · rw [empty, UInt32.zero_or]
    exact alone name single other
  · rw [same, UInt32.or_self]
    exact alone name single other

/-- Taking a type out leaves no more bits, and a plain call leaves the one it puts in. -/
theorem viewsAgree_set {attrs : FileAttributes} {call : SetCall} (agree : ViewsAgree attrs)
    (plain : SetCall.Plain attrs call) : ViewsAgree (call.name.set attrs call.value) := by
  rw [viewsAgree_iff] at agree ⊢
  obtain ⟨name, value⟩ := call
  cases value with
  | false =>
      rw [TypeName.typeBits_set_false]
      exact typeBits_cases (P := fun bits => bits ∈ oneTypeBit → ∀ name : TypeName,
        bits &&& ~~~name.flag.bits ∈ oneTypeBit) (by decide) attrs agree name
  | true =>
      rw [TypeName.typeBits_set_true]
      exact typeBits_cases (P := fun bits => ∀ name : TypeName,
        name.flag ∈ [FileMode.dir, .reg, .chr, .fifo] ∧ bits ∈ [0, name.flag.bits] →
          bits ||| name.flag.bits ∈ oneTypeBit) (by decide) attrs name (plain rfl)

/-- No other call leaves them together. -/
theorem plain_of_viewsAgree {attrs : FileAttributes} {call : SetCall}
    (agree : ViewsAgree (call.name.set attrs call.value)) : SetCall.Plain attrs call := by
  obtain ⟨name, value⟩ := call
  intro set
  change value = true at set
  subst set
  rw [viewsAgree_iff, TypeName.typeBits_set_true] at agree
  exact typeBits_cases (P := fun bits => ∀ name : TypeName,
    bits ||| name.flag.bits ∈ oneTypeBit →
      name.flag ∈ [FileMode.dir, .reg, .chr, .fifo] ∧ bits ∈ [0, name.flag.bits])
    (by decide) attrs name agree

theorem SetCall.exec_total (attrs : FileAttributes) (calls : List SetCall) :
    ∃ last, Run.exec SetCall.step attrs calls = some last := by
  induction calls generalizing attrs with
  | nil => exact ⟨attrs, rfl⟩
  | cons call rest ih => exact ih (call.name.set attrs call.value)

/-- The views agree in every state of a run, and each type that is set is the only one, just when
at most one type bit is set at the start and every call that puts in a type puts in a single bit
where no other is set. -/
theorem file_type_views_iff (attrs : FileAttributes) (calls : List SetCall) :
    (Run.Along SetCall.step ViewsAgree attrs calls ∧ ∀ s name s',
        Run.Takes SetCall.step attrs calls s ⟨name, true⟩ s' → OnlyType name s') ↔
      attrs.typeBits ∈ oneTypeBit ∧ Run.Meets SetCall.step SetCall.Plain attrs calls := by
  obtain ⟨last, run⟩ := SetCall.exec_total attrs calls
  have whole : ViewsAgree attrs → (Run.Along SetCall.step ViewsAgree attrs calls ↔
      Run.Meets SetCall.step SetCall.Plain attrs calls) := by
    intro first
    apply Run.along_iff_meets (I := fun _ => True) run (fun _ _ _ _ _ => trivial) first
    · intro s call s' _ agree plain stepped
      cases stepped
      exact viewsAgree_set agree plain
    · intro s call s' _ stepped agree
      cases stepped
      exact plain_of_viewsAgree agree
  constructor
  · intro holds
    obtain ⟨along, _⟩ := holds
    have first : ViewsAgree attrs := along [] calls attrs rfl rfl
    exact ⟨(viewsAgree_iff attrs).mp first, (whole first).mp along⟩
  · intro condition
    obtain ⟨bits, meets⟩ := condition
    refine ⟨(whole ((viewsAgree_iff attrs).mpr bits)).mpr meets, ?_⟩
    intro s name s' taken
    obtain ⟨before, after, shape, reached, stepped⟩ := taken
    cases stepped
    exact onlyType_set (meets before ⟨name, true⟩ after s shape reached)

/-- A link with all its permissions. -/
def linkAttributes : FileAttributes := { FileAttributes.empty with permissions := some 0xA1FF }

/-- A link is a regular file and a character device by the getters, and to make a block device of
attributes that say nothing makes a directory and a character device of them too. -/
theorem file_type_views_differ :
    linkAttributes.isSymlink ∧ linkAttributes.isRegular ∧ linkAttributes.isCharacter ∧
      linkAttributes.fileType = .symlink ∧
      ¬ Run.Along SetCall.step ViewsAgree linkAttributes [] ∧
      ViewsAgree .empty ∧
      (FileAttributes.empty.setBlock true).isDir ∧
      (FileAttributes.empty.setBlock true).isCharacter ∧
      ¬ Run.Along SetCall.step ViewsAgree .empty [⟨.block, true⟩] ∧
      ¬ OnlyType .block (FileAttributes.empty.setBlock true) := by
  refine ⟨by decide, by decide, by decide, by decide, ?_, ?_, by decide, by decide, ?_, ?_⟩
  · intro along
    have agree := along [] [] linkAttributes rfl rfl
    cases agree.one .symlink .regular (by decide) (by decide)
  · exact (viewsAgree_iff _).mpr (by decide)
  · intro along
    have agree := along [⟨.block, true⟩] [] (FileAttributes.empty.setBlock true) rfl rfl
    cases agree.one .block .dir (by decide) (by decide)
  · intro only
    cases (only .dir).mp (by decide)

end RusshSftp
