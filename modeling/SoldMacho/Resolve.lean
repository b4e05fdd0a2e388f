import SoldMacho.Rank

/-!
# Symbol resolution

`ObjectFile::resolve_symbols`, `DylibFile::resolve_symbols` and
`InputFile::clear_symbols`.  Each loop body runs under the target symbol's lock, so
one body is one atomic update of one symbol: `ObjectFile.resolveSym` and
`DylibFile.resolveSym` are those updates, and the loops lift them to the symbol table.

Three orders of updates are evaluated at the end of the module:

* a dylib candidate is ranked as a strong export but stored with its weak flag, so two
  dylibs defining one symbol give an owner that depends on which of them runs first;
* a losing object still merges its scope, while a winning dylib overwrites the scope
  with `SCOPE_LOCAL`;
* `clear_symbols` resets only the symbols the file owns, so the scope a dead file merged
  into a symbol it lost survives re-resolution.
-/

namespace SoldMacho

namespace ObjectFile

/-- The input address of subsection `s` of the pool (every index the splitter records
is in range). -/
def subsecAddr (obj : ObjectFile) (s : Nat) : Nat :=
  match obj.subsecPool[s]? with
  | some ss => ss.inputAddr
  | none => 0

/-- The `is_private_extern` lambda of `resolve_symbols`. -/
def isPrivateExtern (obj : ObjectFile) (msym : MachSym) : Bool :=
  obj.isHidden || msym.isPrivateExtern ||
    (descHas msym.desc N_WEAK_REF && descHas msym.desc N_WEAK_DEF)

/-- The `merge_scope` lambda: once `SCOPE_EXTERN`, always `SCOPE_EXTERN`. -/
def mergeScope (obj : ObjectFile) (sym : Symbol) (msym : MachSym) : Scope :=
  if sym.scope = .scopeExtern then .scopeExtern
  else if obj.isPrivateExtern msym then .scopePrivateExtern else .scopeExtern

/-- The `switch (msym.type)` of a winning entry.  An `N_SECT` entry without a
subsection is the null `sym.subsec` that the source dereferences. -/
def definition (obj : ObjectFile) (e : SymEntry) (sym : Symbol) : Except ResolveError Symbol :=
  match e.msym.type with
  | .undf => .ok { sym with subsec := none, value := e.msym.value, isCommon := true }
  | .abs => .ok { sym with subsec := none, value := e.msym.value, isCommon := false }
  | .sect =>
    match e.subsec with
    | none => .error .nullSubsection
    | some s =>
      .ok { sym with subsec := some s, value := wrapSub 64 e.msym.value (obj.subsecAddr s),
                     isCommon := false }
  | .other c => .error (.unknownSymbolType c)

/-- One iteration of the loop of `ObjectFile::resolve_symbols` on an extern, defined
entry `e` of file `self`: merge the scope, then take the symbol if the entry's rank is
smaller. -/
def resolveSym (link : Link) (self : Nat) (obj : ObjectFile) (e : SymEntry) (sym : Symbol) :
    Except ResolveError Symbol :=
  let isWeak := descHas e.msym.desc N_WEAK_DEF
  let sym := { sym with scope := obj.mergeScope sym e.msym }
  if getRank link self e.msym.isCommon isWeak < symRank link sym then
    obj.definition e { sym with file := some self, isImported := false, isWeak := isWeak }
  else .ok sym

/-- Whether `resolve_symbols` skips the entry (`!msym.is_extern || msym.is_undef()`). -/
def skips (e : SymEntry) : Bool := !e.msym.isExtern || e.msym.isUndef

/-- The loop body on the symbol table. -/
def resolveEntry (link : Link) (self : Nat) (obj : ObjectFile) (tab : SymTab) (e : SymEntry) :
    Except ResolveError SymTab :=
  if skips e then .ok tab
  else (obj.resolveSym link self e (tab e.sym)).map (Function.update tab e.sym)

/-- `ObjectFile::resolve_symbols`. -/
def resolveSymbols (link : Link) (self : Nat) (obj : ObjectFile) (tab : SymTab) :
    Except ResolveError SymTab :=
  obj.entries.foldlM (obj.resolveEntry link self) tab

end ObjectFile

namespace DylibFile

/-- One iteration of the loop of `DylibFile::resolve_symbols`: the dylib's candidate is
ranked as a strong definition, `get_rank(this, false, false)`, and stored with
`is_weak = this->is_weak || is_weak_symbol[i]`. -/
def resolveSym (link : Link) (self : Nat) (d : DylibFile) (weakSym : Bool) (sym : Symbol) :
    Symbol :=
  if getRank link self false false < symRank link sym then
    { file := some self, scope := .scopeLocal, isImported := true, isWeak := d.isWeak || weakSym,
      subsec := none, value := 0, isCommon := false }
  else sym

/-- `DylibFile::resolve_symbols`. -/
def resolveSymbols (link : Link) (self : Nat) (d : DylibFile) (tab : SymTab) : SymTab :=
  d.exports.foldl
    (fun tab p => Function.update tab p.1 (d.resolveSym link self p.2 (tab p.1))) tab

end DylibFile

/-- `resolve_symbols` on file `f` of the link. -/
def resolveSymbols (link : Link) (f : Nat) (tab : SymTab) : Except ResolveError SymTab :=
  match link.files f with
  | .object obj => obj.resolveSymbols link f tab
  | .dylib d => .ok (d.resolveSymbols link f tab)

/-- `resolve_symbols` on each file of `order` in turn. -/
def resolveAll (link : Link) (order : List Nat) (tab : SymTab) : Except ResolveError SymTab :=
  order.foldlM (fun tab f => resolveSymbols link f tab) tab

/-- `InputFile::clear_symbols` on file `f`: every symbol of `f` that `f` owns goes back
to the unowned state. -/
def clearSymbols (link : Link) (f : Nat) (tab : SymTab) : SymTab :=
  (link.files f).syms.foldl
    (fun tab s => if (tab s).file = some f then Function.update tab s {} else tab) tab

/-- `clear_symbols` on each file of `fs` in turn. -/
def clearAll (link : Link) (fs : List Nat) (tab : SymTab) : SymTab :=
  fs.foldl (fun tab f => clearSymbols link f tab) tab

/-! ### Orders that change the outcome -/

/-- Two dylibs exporting symbol 0: file 0 (priority 1) only as a weak export, file 1
(priority 2) as a plain export. -/
def weakExportLink : Link where
  files
    | 0 => .dylib { priority := 1, exports := [(0, true)] }
    | _ => .dylib { priority := 2, exports := [(0, false)] }
  alive _ := true

/-- File 1's plain export has the smaller class (3 against 4), yet the owner depends on
the order: run after it, the weak export of file 0 wins, because file 0's candidate is
ranked as strong. -/
theorem resolve_weak_dylib_export_order_dependent :
    rankKind true true false false < rankKind true true false true ∧
    ((resolveAll weakExportLink [1, 0] .fresh).map fun tab => (tab 0).file) = .ok (some 0) ∧
    ((resolveAll weakExportLink [0, 1] .fresh).map fun tab => (tab 0).file) = .ok (some 1) :=
  ⟨by decide, rfl, rfl⟩

/-- A live object (file 0, priority 1) with a common definition of symbol 0 and a dylib
(file 1, priority 2) exporting it. -/
def commonAndDylibLink : Link where
  files
    | 0 => .object { priority := 1,
                     entries := [{ msym := { isExtern := true, type := .undf, value := 8 },
                                   sym := 0 }] }
    | _ => .dylib { priority := 2, exports := [(0, false)] }
  alive _ := true

/-- The dylib owns symbol 0 in both orders, but its scope is `SCOPE_LOCAL` only when the
dylib runs last. -/
theorem resolve_scope_order_dependent :
    ((resolveAll commonAndDylibLink [0, 1] .fresh).map fun tab => ((tab 0).file, (tab 0).scope))
      = .ok (some 1, .scopeLocal) ∧
    ((resolveAll commonAndDylibLink [1, 0] .fresh).map fun tab => ((tab 0).file, (tab 0).scope))
      = .ok (some 1, .scopeExtern) :=
  ⟨rfl, rfl⟩

/-- A live hidden object (file 0, priority 1) and a dead archive member (file 1,
priority 2), both defining symbol 0 absolutely. -/
def hiddenAndDeadLink : Link where
  files
    | 0 => .object { priority := 1, isHidden := true,
                     entries := [{ msym := { isExtern := true, type := .abs, value := 16 },
                                   sym := 0 }] }
    | _ => .object { priority := 2,
                     entries := [{ msym := { isExtern := true, type := .abs, value := 32 },
                                   sym := 0 }] }
  alive f := f == 0

/-- Resolving both files, clearing the dead one and resolving the live one again leaves
symbol 0 `SCOPE_EXTERN`; resolving the live file alone leaves it
`SCOPE_PRIVATE_EXTERN`. -/
theorem clear_symbols_keeps_merged_scope :
    ((resolveAll hiddenAndDeadLink [0, 1] .fresh).bind fun tab =>
        (resolveAll hiddenAndDeadLink [0] (clearAll hiddenAndDeadLink [1] tab)).map
          fun tab => ((tab 0).file, (tab 0).scope)) = .ok (some 0, .scopeExtern) ∧
    ((resolveAll hiddenAndDeadLink [0] .fresh).map fun tab => ((tab 0).file, (tab 0).scope))
      = .ok (some 0, .scopePrivateExtern) :=
  ⟨rfl, rfl⟩

end SoldMacho
