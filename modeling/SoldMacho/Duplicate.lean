import SoldMacho.Precedence
import Mathlib.Data.Nat.Find

/-!
# Bitcode symbols and duplicate definitions

`ObjectFile::parse_lto_symbols` turns the symbols the LTO plugin reports into Mach-O
entries: every definition class (regular, tentative, weak) becomes a plain `N_ABS`
entry, and every symbol is interned, internal ones included.
`ObjectFile::check_duplicate_symbols` then reports each non-undefined, non-common,
non-weak entry whose interned symbol another file owns.

The main result: with live objects and priorities below `2 ^ 24`, once a symbol has a
strong extern definition its owner is the strong extern definer of least
priority, in any resolution order, and the symbol is reported exactly when a second
file has a strong entry naming it; every report pairs such a file with that owner.

Bitcode entries break the correspondence between reports and strong extern definitions
in two ways, shown on two small links at the end: a hidden bitcode definition is
interned and reported against another file's weak definition, and a weak bitcode
definition is strong enough to take a symbol and have a real strong definer reported.
-/

namespace SoldMacho

/-- The definition class of an LTO symbol, `LTO_SYMBOL_DEFINITION_*`. -/
inductive LtoDefinition where
  | definitionRegular
  | definitionTentative
  | definitionWeak
  | definitionUndefined
  | definitionWeakundef
  deriving DecidableEq, Repr

/-- The scope of an LTO symbol, `LTO_SYMBOL_SCOPE_*` (`scopeZero` is scope 0). -/
inductive LtoScope where
  | scopeZero
  | scopeInternal
  | scopeHidden
  | scopeDefault
  | scopeProtected
  | scopeDefaultCanBeHidden
  deriving DecidableEq, Repr

/-- The attribute word of an LTO symbol: its alignment bits, definition class and scope. -/
structure LtoAttr where
  alignment : Nat
  definition : LtoDefinition
  scope : LtoScope
  deriving DecidableEq, Repr

/-- The entry `parse_lto_symbols` synthesizes for one symbol; the alignment goes to the
4-bit `p2align` field of the descriptor. -/
def ltoMachSym (attr : LtoAttr) : MachSym where
  isExtern :=
    match attr.scope with
    | .scopeDefault | .scopeProtected | .scopeDefaultCanBeHidden => true
    | _ => false
  type :=
    match attr.definition with
    | .definitionRegular | .definitionTentative | .definitionWeak => .abs
    | .definitionUndefined | .definitionWeakundef => .undf
  desc := attr.alignment % 16 * 256

/-- `ObjectFile::parse_lto_symbols`: one interned entry per symbol, given with its
interned index and attribute. -/
def parseLtoSymbols (priority : Nat) (isHidden : Bool) (syms : List (Nat × LtoAttr)) :
    ObjectFile where
  priority := priority
  isHidden := isHidden
  isBitcode := true
  entries := syms.map fun p => { msym := ltoMachSym p.2, sym := p.1 }

/-- The condition of `check_duplicate_symbols` on the entry itself: not undefined, not
common, not `N_WEAK_DEF`. -/
def SymEntry.strong (e : SymEntry) : Bool :=
  !e.msym.isUndef && !e.msym.isCommon && !descHas e.msym.desc N_WEAK_DEF

/-- `ObjectFile::check_duplicate_symbols` on object `self`: for each entry, its symbol,
this file and the owner.  An entry that is not interned has a local symbol owned by
the file itself (or by nobody once cleared), which is never reported. -/
def ObjectFile.checkDuplicateSymbols (self : Nat) (obj : ObjectFile) (tab : SymTab) :
    List (Nat × Nat × Nat) :=
  obj.entries.filterMap fun e =>
    if obj.interned e && e.strong then
      match (tab e.sym).file with
      | some g => if g = self then none else some (e.sym, self, g)
      | none => none
    else none

/-- The reports of `check_duplicate_symbols` on file `f` (none for a dylib). -/
def duplicateReports (link : Link) (tab : SymTab) (f : Nat) : List (Nat × Nat × Nat) :=
  match link.files f with
  | .object obj => obj.checkDuplicateSymbols f tab
  | .dylib _ => []

/-- Object `f` has a strong extern entry for symbol `y`. -/
def StrongDefiner (link : Link) (f y : Nat) : Prop :=
  ∃ obj, link.files f = .object obj ∧
    ∃ e ∈ obj.entries, e.sym = y ∧ e.msym.isExtern = true ∧ e.strong = true

/-- Object `f` has a strong entry naming the interned symbol `y`: an extern entry, or
any entry of a bitcode file. -/
def StrongNamer (link : Link) (f y : Nat) : Prop :=
  ∃ obj, link.files f = .object obj ∧
    ∃ e ∈ obj.entries, e.sym = y ∧ obj.interned e = true ∧ e.strong = true

theorem StrongDefiner.namer {link : Link} {f y : Nat} (h : StrongDefiner link f y) :
    StrongNamer link f y := by
  obtain ⟨obj, hf, e, he, hy, hx, hs⟩ := h
  exact ⟨obj, hf, e, he, hy, by simp [ObjectFile.interned, hx], hs⟩

theorem mem_duplicateReports {link : Link} {tab : SymTab} {f y f' g : Nat} :
    (y, f', g) ∈ duplicateReports link tab f ↔
      f' = f ∧ StrongNamer link f y ∧ (tab y).file = some g ∧ g ≠ f := by
  unfold duplicateReports StrongNamer
  cases hf : link.files f with
  | dylib d => simp
  | object obj =>
    simp only [ObjectFile.checkDuplicateSymbols, List.mem_filterMap, InputFile.object.injEq,
      exists_eq_left']
    constructor
    · rintro ⟨e, he, hr⟩
      -- only the branch of an interned strong entry owned by another file reports
      repeat' split at hr
      all_goals cases hr
      rename_i hc _ hg' hne
      simp only [Bool.and_eq_true] at hc
      exact ⟨rfl, ⟨e, he, rfl, hc.1, hc.2⟩, hg', hne⟩
    · rintro ⟨rfl, ⟨e, he, rfl, hi, hs⟩, hg, hne⟩
      exact ⟨e, he, by simp [hi, hs, hg, hne]⟩

/-- The rank of a candidate of a live object: its class is 1 exactly when the entry is
strong. -/
theorem getRank_live_object {link : Link} {f : Nat} {obj : ObjectFile} {e : SymEntry}
    (hf : link.files f = .object obj) (ha : link.alive f = true)
    (hd : ObjectFile.skips e = false) :
    getRank link f e.msym.isCommon (descHas e.msym.desc N_WEAK_DEF) =
      (if e.strong then 1 else if e.msym.isCommon then 5 else 2) * 2 ^ 24 + obj.priority := by
  have hu : e.msym.isUndef = false := by
    simp only [ObjectFile.skips, Bool.or_eq_false_iff] at hd
    exact hd.2
  rw [getRank_eq, hf, ha]
  simp only [InputFile.isDylib, InputFile.priority, SymEntry.strong, hu]
  cases e.msym.isCommon <;> cases descHas e.msym.desc N_WEAK_DEF <;> rfl

/-- A strong candidate of a live object ranks in class 1. -/
theorem getRank_live_strong {link : Link} {m : Nat} {mo : ObjectFile}
    (hmo : link.files m = .object mo) (ha : link.alive m = true) :
    getRank link m false false = 2 ^ 24 + mo.priority := by
  rw [getRank_eq, hmo, ha]
  simp [rankKind, InputFile.isDylib, InputFile.priority]

section Duplicates

variable {link : Link} {order : List Nat} {tab : SymTab} {x m : Nat}

/-- With live objects, priorities below `2 ^ 24` and distinct, and `m` the strong extern
definer of `x` of least priority, every candidate for `x` ranks at least `m`'s, and
only `m`'s strong entries rank the same. -/
theorem leastAt_strongDefiner
    (hlive : ∀ f ∈ order, (link.files f).isDylib = false → link.alive f = true)
    (hprio : ∀ f ∈ order, (link.files f).priority < 2 ^ 24)
    (hdist : ∀ f ∈ order, ∀ g ∈ order, (link.files f).priority = (link.files g).priority → f = g)
    (hm : m ∈ order) (hSm : StrongDefiner link m x)
    (hmin : ∀ f ∈ order, StrongDefiner link f x →
      (link.files m).priority ≤ (link.files f).priority) :
    ∀ u ∈ order.flatMap (fileUpdates link), LeastAt link x m (getRank link m false false) u := by
  obtain ⟨mo, hmo, -⟩ := hSm
  have hr := getRank_live_strong hmo (hlive m hm (by simp [hmo, InputFile.isDylib]))
  have hpm := hprio m hm
  simp only [hmo, InputFile.priority] at hpm hmin
  intro u hu hx hd
  obtain ⟨f, hf, hu⟩ := List.mem_flatMap.mp hu
  rcases mem_fileUpdates_iff.mp hu with ⟨obj, e, hfo, he, rfl⟩ | ⟨d, s, w, hfd, -, rfl⟩
  · have hs : ObjectFile.skips e = false := by simpa [Update.defines] using hd
    have hrank := getRank_live_object hfo (hlive f hf (by simp [hfo, InputFile.isDylib])) hs
    simp only [Update.rank, Update.file, Update.exact, and_true, hr, hrank]
    by_cases hst : e.strong = true
    · have hsd : StrongDefiner link f x := by
        refine ⟨obj, hfo, e, he, hx, ?_, hst⟩
        simp only [ObjectFile.skips, Bool.or_eq_false_iff, Bool.not_eq_false'] at hs
        exact hs.1
      have := hmin f hf hsd
      simp only [hfo, InputFile.priority] at this
      simp only [hst, if_true]
      refine ⟨by omega, fun heq => hdist f hf m hm ?_⟩
      simp only [hfo, hmo, InputFile.priority]
      omega
    · simp only [hst, Bool.false_eq_true, if_false]
      constructor
      · split <;> omega
      · intro heq
        exfalso
        split at heq <;> omega
  · simp only [Update.rank, hr, getRank_eq, hfd, InputFile.isDylib, InputFile.priority]
    constructor
    · simp [rankKind]; omega
    · intro heq; simp [rankKind] at heq; omega

/-- A live strong extern definer `m` of `x` has a candidate for `x` that defines it, at
the rank of a strong definition of `m`. -/
theorem strongDefiner_candidate
    (hlive : ∀ f ∈ order, (link.files f).isDylib = false → link.alive f = true)
    (hm : m ∈ order) (hSm : StrongDefiner link m x) :
    ∃ u ∈ order.flatMap (fileUpdates link), u.target = x ∧ u.defines = true ∧
      u.rank link = getRank link m false false := by
  obtain ⟨mo, hmo, e, he, hex, hext, hst⟩ := hSm
  have hs : ObjectFile.skips e = false := by
    simp only [SymEntry.strong, Bool.and_eq_true, Bool.not_eq_true'] at hst
    simp [ObjectFile.skips, hext, hst.1.1]
  refine ⟨.object m mo e, List.mem_flatMap.mpr ⟨m, hm, mem_fileUpdates_iff.mpr
    (Or.inl ⟨mo, e, hmo, he, rfl⟩)⟩, hex, by simp [Update.defines, hs], ?_⟩
  have ha := hlive m hm (by simp [hmo, InputFile.isDylib])
  rw [Update.rank, getRank_live_object hmo ha hs, getRank_live_strong hmo ha, if_pos hst,
    Nat.one_mul]

/-- Resolved in any order, with live objects and distinct priorities below `2 ^ 24`: a
symbol `x` with a strong extern definition is owned by its strong extern definer of
least priority `m`, it is reported exactly when two distinct files have a strong entry
naming it, and every report pairs such a file with `m`. -/
theorem check_duplicate_symbols_spec
    (hlive : ∀ f ∈ order, (link.files f).isDylib = false → link.alive f = true)
    (hprio : ∀ f ∈ order, (link.files f).priority < 2 ^ 24)
    (hdist : ∀ f ∈ order, ∀ g ∈ order, (link.files f).priority = (link.files g).priority → f = g)
    (hr : resolveAll link order .fresh = .ok tab) (hx : ∃ f ∈ order, StrongDefiner link f x) :
    ∃ m ∈ order, StrongDefiner link m x ∧
      (∀ f ∈ order, StrongDefiner link f x →
        (link.files m).priority ≤ (link.files f).priority) ∧
      (tab x).file = some m ∧
      ((∃ f ∈ order, ∃ r ∈ duplicateReports link tab f, r.1 = x) ↔
        ∃ f ∈ order, ∃ g ∈ order, f ≠ g ∧ StrongNamer link f x ∧ StrongNamer link g x) ∧
      ∀ f ∈ order, ∀ r ∈ duplicateReports link tab f, r.1 = x →
        r = (x, f, m) ∧ f ≠ m ∧ StrongNamer link f x := by
  classical
  have hex : ∃ p, ∃ f ∈ order, StrongDefiner link f x ∧ (link.files f).priority = p :=
    let ⟨f, hf, hs⟩ := hx; ⟨_, f, hf, hs, rfl⟩
  obtain ⟨m, hm, hSm, hpm⟩ := Nat.find_spec hex
  have hmin : ∀ f ∈ order, StrongDefiner link f x →
      (link.files m).priority ≤ (link.files f).priority :=
    fun f hf hs => hpm ▸ Nat.find_min' hex ⟨f, hf, hs, rfl⟩
  have hleast := leastAt_strongDefiner hlive hprio hdist hm hSm hmin
  have hopen : Open link x m (getRank link m false false) SymTab.fresh :=
    Or.inl (by rw [symRank_none _ _ rfl]; exact getRank_lt_unowned _ _ (hprio m hm))
  rw [resolveAll_eq] at hr
  -- `m`'s strong entry is the least candidate
  have hown := (runUpdates_settled hleast (strongDefiner_candidate hlive hm hSm) hr hopen).1
  have hrep : ∀ f ∈ order, ∀ r ∈ duplicateReports link tab f, r.1 = x →
      r = (x, f, m) ∧ f ≠ m ∧ StrongNamer link f x := by
    rintro f - ⟨y, f', g⟩ hmem rfl
    obtain ⟨rfl, hn, hg, hne⟩ := mem_duplicateReports.mp hmem
    rw [hown] at hg
    cases hg
    exact ⟨rfl, Ne.symm hne, hn⟩
  refine ⟨m, hm, hSm, hmin, hown, ⟨?_, ?_⟩, hrep⟩
  · rintro ⟨f, hf, r, hr', hx'⟩
    obtain ⟨-, hne, hn⟩ := hrep f hf r hr' hx'
    exact ⟨f, hf, m, hm, hne, hn, hSm.namer⟩
  · rintro ⟨f, hf, g, hg, hne, hnf, hng⟩
    by_cases hfm : f = m
    · subst hfm
      exact ⟨g, hg, (x, g, f), mem_duplicateReports.mpr ⟨rfl, hng, hown, hne⟩, rfl⟩
    · exact ⟨f, hf, (x, f, m), mem_duplicateReports.mpr ⟨rfl, hnf, hown, Ne.symm hfm⟩, rfl⟩

end Duplicates

/-- Two live objects defining symbol 0 strongly: file 0 (priority 1) and file 1
(priority 2). -/
def twoDefinersLink : Link where
  files
    | 0 => .object { priority := 1,
                     entries := [{ msym := { isExtern := true, type := .abs, value := 16 }, sym := 0 }] }
    | _ => .object { priority := 2,
                     entries := [{ msym := { isExtern := true, type := .abs, value := 32 }, sym := 0 }] }
  alive _ := true

theorem check_duplicate_symbols_two_definers :
    ∃ tab, resolveAll twoDefinersLink [1, 0] .fresh = .ok tab ∧
      duplicateReports twoDefinersLink tab 1 = [(0, 1, 0)] ∧
      ∃ f ∈ [1, 0], ∃ r ∈ duplicateReports twoDefinersLink tab f, r.1 = 0 := by
  refine ⟨_, rfl, rfl, ?_⟩
  have hdef : ∀ f, StrongDefiner twoDefinersLink f 0 := fun f => by
    match f with
    | 0 => exact ⟨_, rfl, _, List.mem_singleton_self _, rfl, rfl, rfl⟩
    | _ + 1 => exact ⟨_, rfl, _, List.mem_singleton_self _, rfl, rfl, rfl⟩
  obtain ⟨m, -, -, -, -, hiff, -⟩ := @check_duplicate_symbols_spec twoDefinersLink [1, 0] _ 0
    (fun _ _ _ => rfl) (by decide) (by decide) rfl ⟨0, by simp, hdef 0⟩
  exact hiff.mpr ⟨1, by simp, 0, by simp, by decide, (hdef 1).namer, (hdef 0).namer⟩

/-- Bitcode file 0 (priority 1) with a hidden regular definition of symbol 0, and native
object 1 (priority 2) with a weak extern one. -/
def hiddenBitcodeLink : Link where
  files
    | 0 => .object (parseLtoSymbols 1 false [(0, ⟨0, .definitionRegular, .scopeHidden⟩)])
    | _ => .object { priority := 2,
                     entries := [{ msym := { isExtern := true, type := .abs, desc := N_WEAK_DEF,
                                             value := 16 }, sym := 0 }] }
  alive _ := true

/-- Bitcode file 0 (priority 1) with a weak definition of symbol 0, and native object 1
(priority 2) with a strong one. -/
def weakBitcodeLink : Link where
  files
    | 0 => .object (parseLtoSymbols 1 false [(0, ⟨0, .definitionWeak, .scopeDefault⟩)])
    | _ => .object { priority := 2,
                     entries := [{ msym := { isExtern := true, type := .abs, value := 16 }, sym := 0 }] }
  alive _ := true

/-- Bitcode definitions are reported whatever their scope and class.  The hidden
definition of file 0 is interned, like every bitcode symbol, where `parse_symbols` would
have made it a local; no file defines symbol 0 as a strong extern, the weak definition
of file 1 takes it, and file 0 is reported as its duplicate.  The weak definition of
`weakBitcodeLink` becomes a strong `N_ABS` entry: it takes the symbol, and the one
strong definer, file 1, is reported against it. -/
theorem duplicate_hidden_bitcode_reported :
    (∀ f, ¬ StrongDefiner hiddenBitcodeLink f 0) ∧
      ((resolveAll hiddenBitcodeLink [0, 1] .fresh).map fun tab =>
        ((tab 0).file, duplicateReports hiddenBitcodeLink tab 0)) = .ok (some 1, [(0, 0, 1)]) ∧
      ((resolveAll weakBitcodeLink [0, 1] .fresh).map fun tab =>
        ((tab 0).file, duplicateReports weakBitcodeLink tab 1)) = .ok (some 0, [(0, 1, 0)]) := by
  refine ⟨fun f ⟨obj, hf, e, he, _, hext, hst⟩ => ?_, rfl, rfl⟩
  match f, hf with
  | 0, hf =>
    cases hf
    rcases List.mem_singleton.mp he with rfl
    cases hext
  | _ + 1, hf =>
    cases hf
    rcases List.mem_singleton.mp he with rfl
    cases hst

end SoldMacho
