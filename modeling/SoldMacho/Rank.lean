import SoldMacho.Basic

/-!
# Input files and the symbol precedence rank

`get_rank` packs a candidate's precedence class above bit 24 and adds the file
priority below it; the numerically smallest rank owns the symbol.  This module states
the files the resolver reads, the rank, and its arithmetic: `getRank_eq` exposes the
class `rankKind` of the table in the comment above `get_rank`, and the bound lemmas say
when the packing keeps the class order (priorities below `2 ^ 24`).
-/

namespace SoldMacho

/-- Resolution failures that abort the link (`Fatal`), and the null subsection that
`resolve_symbols` would dereference. -/
inductive ResolveError where
  | unknownSymbolType (code : Nat)
  | nullSubsection
  deriving DecidableEq, Repr

/-- One row of an object's symbol table: `mach_syms[i]`, `syms[i]` (the interned symbol
of an extern entry) and `sym_to_subsec[i]`. -/
structure SymEntry where
  msym : MachSym
  sym : Nat
  subsec : Option Nat := none
  deriving DecidableEq, Repr

/-- An `ObjectFile` as resolution sees it.  `isBitcode` is set when the file was read
through the LTO plugin (`lto_module` is non-null). -/
structure ObjectFile where
  priority : Nat
  isHidden : Bool := false
  isBitcode : Bool := false
  entries : List SymEntry
  subsecPool : List Subsection := []
  deriving DecidableEq, Repr

/-- Whether entry `e`'s symbol is the interned one: `parse_symbols` interns extern
entries and gives the others a local `Symbol`, `parse_lto_symbols` interns every
entry. -/
def ObjectFile.interned (obj : ObjectFile) (e : SymEntry) : Bool := e.msym.isExtern || obj.isBitcode

/-- A `DylibFile` as resolution sees it: `exports` pairs each interned symbol of `syms`
with its `is_weak_symbol` bit (`DylibFile::create` pushes the two together). -/
structure DylibFile where
  priority : Nat
  isWeak : Bool := false
  exports : List (Nat × Bool)
  deriving DecidableEq, Repr

/-- An `InputFile`. -/
inductive InputFile where
  | object (obj : ObjectFile)
  | dylib (dylib : DylibFile)
  deriving DecidableEq, Repr

namespace InputFile

/-- `InputFile::priority`. -/
def priority : InputFile → Nat
  | object o => o.priority
  | dylib d => d.priority

/-- `InputFile::is_dylib`. -/
def isDylib : InputFile → Bool
  | object _ => false
  | dylib _ => true

/-- The interned symbols among `InputFile::syms`. -/
def syms : InputFile → List Nat
  | object o => (o.entries.filter o.interned).map (·.sym)
  | dylib d => d.exports.map (·.1)

end InputFile

/-- The files of a link, by index, with their `is_alive` flags. -/
structure Link where
  files : Nat → InputFile
  alive : Nat → Bool

/-- The precedence class of the table above `get_rank`: 1 strong and 2 weak in a live
object, 3 strong and 4 weak in a dylib or dead object, 5 common in a live object,
6 common in a dead one. -/
def rankKind (isDylib isAlive isCommon isWeak : Bool) : Nat :=
  if isCommon then (if isAlive then 5 else 6)
  else if isDylib || !isAlive then (if isWeak then 4 else 3)
  else if isWeak then 2 else 1

/-- `get_rank(file, is_common, is_weak)`. -/
def getRank (link : Link) (f : Nat) (isCommon isWeak : Bool) : Nat :=
  let file := link.files f
  if isCommon then
    if !link.alive f then (6 <<< 24) + file.priority else (5 <<< 24) + file.priority
  else if file.isDylib || !link.alive f then
    if isWeak then (4 <<< 24) + file.priority else (3 <<< 24) + file.priority
  else if isWeak then (2 <<< 24) + file.priority else (1 <<< 24) + file.priority

/-- `get_rank(sym)`: an unowned symbol ranks `7 << 24`. -/
def symRank (link : Link) (sym : Symbol) : Nat :=
  match sym.file with
  | none => 7 <<< 24
  | some f => getRank link f sym.isCommon sym.isWeak

theorem getRank_eq (link : Link) (f : Nat) (c w : Bool) :
    getRank link f c w =
      rankKind (link.files f).isDylib (link.alive f) c w * 2 ^ 24 + (link.files f).priority := by
  simp only [getRank, rankKind, Nat.shiftLeft_eq]
  cases c <;> cases w <;> cases link.alive f <;> cases (link.files f).isDylib <;> rfl

theorem rankKind_pos (d a c w : Bool) : 1 ≤ rankKind d a c w ∧ rankKind d a c w ≤ 6 := by
  cases d <;> cases a <;> cases c <;> cases w <;> decide

@[simp] theorem symRank_none (link : Link) (sym : Symbol) (h : sym.file = none) :
    symRank link sym = 7 * 2 ^ 24 := by
  simp [symRank, h, Nat.shiftLeft_eq]

theorem symRank_some (link : Link) (sym : Symbol) {f : Nat} (h : sym.file = some f) :
    symRank link sym = getRank link f sym.isCommon sym.isWeak := by
  simp [symRank, h]

/-- A symbol ranks below `7 << 24` only when it is owned, provided its owner's priority
fits below bit 24. -/
theorem symRank_lt_unowned {link : Link} {sym : Symbol}
    (h : symRank link sym < 7 * 2 ^ 24) : sym.file.isSome := by
  cases hf : sym.file with
  | none => simp [symRank_none link sym hf] at h
  | some _ => rfl

/-- With priorities below `2 ^ 24`, every owned rank is below the unowned rank. -/
theorem getRank_lt_unowned {link : Link} {f : Nat} (c w : Bool)
    (hp : (link.files f).priority < 2 ^ 24) : getRank link f c w < 7 * 2 ^ 24 := by
  have := (rankKind_pos (link.files f).isDylib (link.alive f) c w).2
  rw [getRank_eq]
  omega

/-- With priorities below `2 ^ 24`, the rank orders candidates by their `(class,
priority)` pairs, compared lexicographically, and every owned rank lies below the rank
`7 << 24` of an unowned symbol.  Distinct priorities are not needed: equal pairs give
equal ranks. -/
theorem getRank_lt_iff_lex {link : Link} {f g : Nat} (c w c' w' : Bool)
    (hf : (link.files f).priority < 2 ^ 24) (hg : (link.files g).priority < 2 ^ 24) :
    (getRank link f c w < getRank link g c' w' ↔
      rankKind (link.files f).isDylib (link.alive f) c w <
          rankKind (link.files g).isDylib (link.alive g) c' w' ∨
        rankKind (link.files f).isDylib (link.alive f) c w =
            rankKind (link.files g).isDylib (link.alive g) c' w' ∧
          (link.files f).priority < (link.files g).priority) ∧
    getRank link f c w < 7 <<< 24 ∧ getRank link g c' w' < 7 <<< 24 := by
  have hkf := rankKind_pos (link.files f).isDylib (link.alive f) c w
  have hkg := rankKind_pos (link.files g).isDylib (link.alive g) c' w'
  rw [getRank_eq, getRank_eq, Nat.shiftLeft_eq]
  omega

/-- Two live objects: file 0 of priority `2 ^ 24 + 1` and file 1 of priority 0. -/
def farPriorityLink : Link where
  files
    | 0 => .object { priority := 2 ^ 24 + 1, entries := [] }
    | _ => .object { priority := 0, entries := [] }
  alive _ := true

/-- Past `2 ^ 24` the priority carries into the class bits: file 0's strong candidate
(class 1) ranks above file 1's weak one (class 2), and a class-1 candidate of priority
`6 * 2 ^ 24` ranks with an unowned symbol. -/
theorem getRank_priority_overflows_class :
    rankKind false true false false < rankKind false true false true ∧
    getRank farPriorityLink 1 false true < getRank farPriorityLink 0 false false ∧
    getRank ⟨fun _ => .object { priority := 6 * 2 ^ 24, entries := [] }, fun _ => true⟩ 0
      false false = 7 <<< 24 := by
  decide

theorem getRank_lt_iff_lex_small_priorities :
    getRank farPriorityLink 1 false false < getRank farPriorityLink 2 false true ∧
      getRank farPriorityLink 2 false true < 7 <<< 24 := by
  have h := @getRank_lt_iff_lex farPriorityLink 1 2 false false false true (by decide) (by decide)
  exact ⟨h.1.2 (Or.inl (by decide)), h.2.2⟩

end SoldMacho
