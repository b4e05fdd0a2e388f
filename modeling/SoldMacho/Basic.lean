import Mathlib.Logic.Function.Basic
import Mathlib.Algebra.Group.Nat.Basic

/-!
# Mach-O symbol-table entries, sections, subsections and symbols

The records that `macho/input-files.cc` reads and writes, with the fields its functions
use.  Machine words are natural numbers: where the source truncates a difference to a
fixed width, `wrapSub` does so explicitly.

Pointers become indices.  A subsection is named by its index in the owning object's
`subsec_pool` (the arena the source allocates it in), a file by its index in the link,
and an interned symbol by its index in the global symbol table.  A null pointer is
`none`.

`MachSym::is_undef`, `MachSym::is_common` and the field defaults of `Symbol` and
`Subsection` are declared in `mold.h`, which is not part of the sources; they are
written here from the Mach-O conventions and from the values `clear_symbols` resets.
-/

namespace SoldMacho

/-- `a - b` in `w`-bit unsigned arithmetic. -/
def wrapSub (w a b : Nat) : Nat := (a + (2 ^ w - b % 2 ^ w)) % 2 ^ w

theorem wrapSub_of_le {w a b : Nat} (hba : b ≤ a) (ha : a < 2 ^ w) :
    wrapSub w a b = a - b := by
  have hb : b % 2 ^ w = b := Nat.mod_eq_of_lt (by omega)
  have hlt : a - b < 2 ^ w := by omega
  rw [wrapSub, hb, show a + (2 ^ w - b) = (a - b) + 2 ^ w by omega, Nat.add_mod_right,
    Nat.mod_eq_of_lt hlt]

/-- The bind lemma of `Except`: a chained computation succeeds through a success of its
first part. -/
theorem except_bind_eq_ok {ε α β : Type} {x : Except ε α} {f : α → Except ε β} {b : β} :
    (x >>= f) = .ok b ↔ ∃ a, x = .ok a ∧ f a = .ok b := by
  cases x <;> simp [bind, Except.bind]

theorem except_map_eq_ok {ε α β : Type} {x : Except ε α} {f : α → β} {b : β} :
    x.map f = .ok b ↔ ∃ a, x = .ok a ∧ f a = b := by
  cases x <;> simp [Except.map]

/-- `a - b` for `b ≤ a` when the difference fits in `w` bits, whatever the width of `a`. -/
theorem wrapSub_eq_sub {w a b : Nat} (hba : b ≤ a) (hd : a - b < 2 ^ w) :
    wrapSub w a b = a - b := by
  have hq := Nat.div_add_mod b (2 ^ w)
  have hr := Nat.mod_lt b (Nat.two_pow_pos w)
  rw [wrapSub, show a + (2 ^ w - b % 2 ^ w) = (a - b) + 2 ^ w * (b / 2 ^ w + 1) by
    rw [Nat.mul_add, Nat.mul_one]; omega, Nat.add_mul_mod_self_left, Nat.mod_eq_of_lt hd]

/-- Truncating the minuend first changes nothing. -/
theorem wrapSub_mod_left (w a b : Nat) : wrapSub w (a % 2 ^ w) b = wrapSub w a b := by
  rw [wrapSub, wrapSub, Nat.add_mod, Nat.mod_mod, ← Nat.add_mod]

/-! ### Symbol-table entries -/

/-- `N_WEAK_REF` of `<mach-o/nlist.h>`. -/
def N_WEAK_REF : Nat := 0x0040

/-- `N_WEAK_DEF` of `<mach-o/nlist.h>`. -/
def N_WEAK_DEF : Nat := 0x0080

/-- `N_ALT_ENTRY` of `<mach-o/nlist.h>`. -/
def N_ALT_ENTRY : Nat := 0x0200

/-- Whether the descriptor `desc` has one of the bits of `flag`. -/
def descHas (desc flag : Nat) : Bool := desc &&& flag != 0

/-- The `type` field of a symbol-table entry: `N_UNDF`, `N_ABS`, `N_SECT`, or any
other code (`N_INDR`, `N_PBUD`), which the readers reject. -/
inductive SymType where
  | undf
  | abs
  | sect
  | other (code : Nat)
  deriving DecidableEq, Repr

/-- A 64-bit Mach-O symbol-table entry (`MachSym`): the fields the readers look at.
`sect` is the 1-based section number of an `N_SECT` entry. -/
structure MachSym where
  isExtern : Bool := false
  type : SymType := .undf
  isPrivateExtern : Bool := false
  sect : Nat := 0
  desc : Nat := 0
  value : Nat := 0
  deriving DecidableEq, Repr

namespace MachSym

/-- `MachSym::is_common`: a tentative definition, an undefined extern entry whose value
(its size) is nonzero. -/
def isCommon (m : MachSym) : Bool := m.type == .undf && m.isExtern && m.value != 0

/-- `MachSym::is_undef`: an undefined entry that is not a tentative definition. -/
def isUndef (m : MachSym) : Bool := m.type == .undf && !m.isCommon

/-- The `p2align` bit-field, the low nibble of the descriptor's high byte. -/
def p2align (m : MachSym) : Nat := m.desc / 256 % 16

theorem not_isCommon_of_ne_undf {m : MachSym} (h : m.type ≠ .undf) : m.isCommon = false := by
  simp [isCommon, h]

end MachSym

/-! ### Sections and subsections -/

/-- A section header (`MachSection`). -/
structure MachSection where
  segname : String
  sectname : String
  addr : Nat
  size : Nat
  p2align : Nat
  deriving DecidableEq, Repr

/-- `MachSection::match`. -/
def MachSection.matches (hdr : MachSection) (seg sect : String) : Bool :=
  hdr.segname == seg && hdr.sectname == sect

/-- An `InputSection`: its header and, for `__cstring`, its bytes. -/
structure InputSection where
  hdr : MachSection
  contents : List UInt8 := []
  deriving DecidableEq, Repr

/-- A `Subsection`.  `isec` is the index of its section in `ObjectFile::sections`;
the unwind span is zero until `parse_compact_unwind` sets it. -/
structure Subsection where
  isec : Nat
  inputOffset : Nat
  inputSize : Nat
  inputAddr : Nat
  p2align : Nat
  unwindOffset : Nat := 0
  nunwind : Nat := 0
  deriving DecidableEq, Repr

/-! ### Interned symbols -/

/-- `SCOPE_LOCAL`, `SCOPE_PRIVATE_EXTERN` and `SCOPE_EXTERN`. -/
inductive Scope where
  | scopeLocal
  | scopePrivateExtern
  | scopeExtern
  deriving DecidableEq, Repr

/-- A process-wide `Symbol`.  `file` is the owning file, `subsec` a subsection of the
owner's pool.  The defaults are the unowned state that `clear_symbols` restores. -/
structure Symbol where
  file : Option Nat := none
  scope : Scope := .scopeLocal
  isImported : Bool := false
  isWeak : Bool := false
  subsec : Option Nat := none
  value : Nat := 0
  isCommon : Bool := false
  deriving DecidableEq, Repr

/-- The global symbol table, indexed by interned symbol. -/
abbrev SymTab := Nat → Symbol

/-- The symbol table right after interning: every symbol unowned. -/
def SymTab.fresh : SymTab := fun _ => {}

end SoldMacho
