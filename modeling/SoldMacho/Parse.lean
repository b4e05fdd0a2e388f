import SoldMacho.Unwind

/-!
# `ObjectFile::parse`

The passes of `ObjectFile::parse` on a native object once its sections and symbol table
are read: `parse_symbols` makes a `Symbol` for each local entry, the splitter
(`split_subsections_via_symbols`, or `init_subsections` without the
`MH_SUBSECTIONS_VIA_SYMBOLS` flag) makes the subsections, `subsections` is sorted by
address, and `fix_subsec_members` binds each local `N_SECT` symbol to a subsection.

`std::sort` leaves the order of equal addresses open; the model sorts by insertion,
which keeps the creation order.  Whatever the order, `subsections` ends sorted, so
`find_subsection(addr)` is the last subsection whose address is at most `addr`
(`parseObject_findSubsection`).

Three objects close the module.  In the first, that last subsection is an empty one
sharing its address with the subsection that holds the address.  In the second, a local
label in `__compact_unwind`, a section without subsections, is bound past the end of the
subsection before it.  For the third, the splitter reads `subsections.back()` of an
empty vector.
-/

namespace SoldMacho

/-- The `Fatal` errors of `ObjectFile::parse` up to `fix_subsec_members`, and what the
splitter reports. -/
inductive ParseError where
  /-- `local undef symbol?` on entry `i`. -/
  | localUndef (i : Nat)
  /-- `unknown symbol type for <sym>: <type>` on entry `i`. -/
  | unknownSymbolType (i code : Nat)
  /-- A `Fatal` error or undefined behaviour of the splitter. -/
  | split (e : SplitError)
  deriving DecidableEq, Repr

/-- The local `Symbol` that `parse_symbols` makes for entry `i` of file `self`, or `none`
for an extern entry, whose symbol is interned.  The value of an `N_SECT` symbol is left
to `fix_subsec_members`. -/
def localSymbol (self i : Nat) (msym : MachSym) : Except ParseError (Option Symbol) :=
  if msym.isExtern then .ok none
  else match msym.type with
    | .undf => .error (.localUndef i)
    | .abs => .ok (some { file := some self, value := msym.value })
    | .sect => .ok (some { file := some self })
    | .other code => .error (.unknownSymbolType i code)

/-- `ObjectFile::parse_symbols`: the local symbols, by entry. -/
def parseSymbols (self : Nat) (machSyms : List MachSym) :
    Except ParseError (List (Option Symbol)) :=
  machSyms.enum.mapM fun (i, msym) => localSymbol self i msym

/-- The sort of `subsections` in `ObjectFile::parse`, by `input_addr`: each subsection
with its index in the pool, which stands for its pointer. -/
def sortSubsections (pool : List Subsection) : List (Nat × Subsection) :=
  pool.enum.insertionSort fun a b => a.2.inputAddr ≤ b.2.inputAddr

/-- `ObjectFile::fix_subsec_members` on the symbol of entry `i`: a local `N_SECT` symbol
takes its `sym_to_subsec` subsection or, when that is null, the one `find_subsection`
gives for the low 32 bits of its address.  Its value becomes the offset from that
subsection's address, in 64 bits; without a subsection it is the address. -/
def fixSubsecMember (subsections : List (Nat × Subsection)) (st : SplitState) (i : Nat)
    (msym : MachSym) (sym : Symbol) : Symbol :=
  if msym.isExtern = false ∧ msym.type = .sect then
    let subsec := match (st.symToSubsec[i]?).join with
      | some p => some p
      | none => (findSubsection (subsections.map (·.2)) (msym.value % 2 ^ 32)).bind
          fun t => (subsections[t]?).map (·.1)
    match subsec with
    | some p => { sym with subsec := some p, value := wrapSub 64 msym.value (inputAddrAt st.pool p) }
    | none => { sym with subsec := none, value := msym.value }
  else sym

/-- `fix_subsec_members` over the symbol table: local symbols only. -/
def fixSubsecMembers (subsections : List (Nat × Subsection)) (st : SplitState)
    (machSyms : List MachSym) (locals : List (Option Symbol)) : List (Option Symbol) :=
  List.zipWith (fun (im : Nat × MachSym) sym => sym.map (fixSubsecMember subsections st im.1 im.2))
    machSyms.enum locals

/-- What `ObjectFile::parse` leaves for the later passes: `subsec_pool`, `subsections`
sorted by address (each with its pool index), `sym_to_subsec` and the local symbols. -/
structure ParsedObject where
  pool : List Subsection
  subsections : List (Nat × Subsection)
  symToSubsec : List (Option Nat)
  locals : List (Option Symbol)
  deriving DecidableEq, Repr

/-- The subsections of `ObjectFile::parse`: `split_subsections_via_symbols` when the
header has `MH_SUBSECTIONS_VIA_SYMBOLS` (`viaSymbols`), `init_subsections` otherwise. -/
def makeSubsections (obj : MachObject) (viaSymbols : Bool) : Except ParseError SplitState :=
  if viaSymbols then (splitSubsectionsViaSymbols obj).mapError .split
  else .ok (initSubsections obj)

/-- `ObjectFile::parse` of a native object, up to `fix_subsec_members`, for file `self`. -/
def parseObject (self : Nat) (obj : MachObject) (viaSymbols : Bool) :
    Except ParseError ParsedObject := do
  let locals ← parseSymbols self obj.machSyms
  let st ← makeSubsections obj viaSymbols
  let subsections := sortSubsections st.pool
  pure { pool := st.pool, subsections := subsections, symToSubsec := st.symToSubsec,
         locals := fixSubsecMembers subsections st obj.machSyms locals }

/-! ### The sorted subsections -/

instance : IsTotal (Nat × Subsection) fun a b => a.2.inputAddr ≤ b.2.inputAddr :=
  ⟨fun _ _ => Nat.le_total _ _⟩

instance : IsTrans (Nat × Subsection) fun a b => a.2.inputAddr ≤ b.2.inputAddr :=
  ⟨fun _ _ _ => Nat.le_trans⟩

theorem sortSubsections_perm (pool : List Subsection) :
    (sortSubsections pool).Perm pool.enum :=
  List.perm_insertionSort _ _

theorem parseObject_ok {self : Nat} {obj : MachObject} {v : Bool} {p : ParsedObject}
    (h : parseObject self obj v = .ok p) :
    ∃ st locals, parseSymbols self obj.machSyms = .ok locals ∧ makeSubsections obj v = .ok st ∧
      p = { pool := st.pool, subsections := sortSubsections st.pool, symToSubsec := st.symToSubsec,
            locals := fixSubsecMembers (sortSubsections st.pool) st obj.machSyms locals } := by
  obtain ⟨locals, hl, h⟩ := except_bind_eq_ok.mp h
  obtain ⟨st, hs, h⟩ := except_bind_eq_ok.mp h
  cases h
  exact ⟨st, locals, hl, hs, rfl⟩

/-- `__TEXT,__text` at address 0 of size 16, then an empty `__TEXT,__const` at the same
address. -/
def emptyConstObject : MachObject where
  sections :=
    [some { hdr := { segname := "__TEXT", sectname := "__text", addr := 0, size := 16,
                     p2align := 0 } },
     some { hdr := { segname := "__TEXT", sectname := "__const", addr := 0, size := 0,
                     p2align := 0 } }]
  machSyms := [{ isExtern := true, type := .sect, sect := 1, value := 0 }]

/-- Address 5 lies in one subsection only, pool subsection 0 at `[0, 16)`, but the empty
subsection of `__const` shares its address and is sorted after it, so
`find_subsection(5)` returns the empty one. -/
theorem find_subsection_prefers_empty_subsection :
    ∃ p, parseObject 0 emptyConstObject true = .ok p ∧
      p.subsections.map (fun x => (x.1, x.2.inputAddr, x.2.inputSize)) = [(0, 0, 16), (1, 0, 0)] ∧
      findSubsection (p.subsections.map (·.2)) 5 = some 1 :=
  ⟨_, rfl, rfl, rfl⟩

/-- `__TEXT,__text` at address 0 of size 16 with an extern symbol at its start, then
`__LD,__compact_unwind` at address 16, which gets no `InputSection`, holding a local
label at address 32. -/
def unwindLabelObject : MachObject where
  sections :=
    [some { hdr := { segname := "__TEXT", sectname := "__text", addr := 0, size := 16,
                     p2align := 0 } },
     none]
  machSyms :=
    [{ isExtern := true, type := .sect, sect := 1, value := 0 },
     { type := .sect, sect := 2, value := 32 }]

/-- The label's address lies in no subsection, yet `fix_subsec_members` falls back to
`find_subsection`, which gives the subsection of `__text` below it: the label is bound
to it with value 32, past its size 16. -/
theorem fix_subsec_members_binds_past_end :
    ∃ p, parseObject 0 unwindLabelObject true = .ok p ∧
      p.pool.map (fun s => (s.inputAddr, s.inputSize)) = [(0, 16)] ∧
      p.locals = [none, some { file := some 0, subsec := some 0, value := 32 }] :=
  ⟨_, rfl, rfl, rfl⟩

/-- `__TEXT,__text` at address 0 whose two extern symbols sit at its start: an alt entry,
listed first, and a plain one. -/
def altEntryOnlyObject : MachObject where
  sections :=
    [some { hdr := { segname := "__TEXT", sectname := "__text", addr := 0, size := 16,
                     p2align := 0 } }]
  machSyms :=
    [{ isExtern := true, type := .sect, sect := 1, value := 0, desc := N_ALT_ENTRY },
     { isExtern := true, type := .sect, sect := 1, value := 0 }]

/-- Both regions end up alt entries, so no subsection exists when the splitter binds the
first symbol to `subsections.back()`: `parse` reaches that read of an empty vector, with
no `Fatal` error before it. -/
theorem parse_reads_back_of_empty_subsections :
    parseObject 0 altEntryOnlyObject true = .error (.split .emptyBack) := rfl

end SoldMacho
